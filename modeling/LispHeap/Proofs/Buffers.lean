import LispHeap.Proofs.Rendering

/-!
# A buffer that runs full

A sink with a limit takes bytes until it is full, and the printer comes to it with many small texts:
brackets, spaces, the texts of atoms. The sink may run full in any of them, in the middle of a
character too, and the text may come from any depth. If the failure were dropped on its way out, or
taken for the end of an element, the bytes behind it could still be written, and what is in the
buffer would no longer be the beginning of the rendering.

Two facts exclude this. Whatever the depth, the printer is a row of texts that are put one after the
other (`Spells`), and such a row ends with the first text that fails. And to put texts one after the
other into a buffer is to put them all at once (`forM_put_bounded`), so it does not matter where one
text ends and the next begins.
-/

namespace LispHeap

/-! ## Rows of texts -/

/-- The writer puts one text after the other, and these add up to the whole. -/
def Spells (w : Writer Unit) (text : String) : Prop :=
  ∃ texts : List String, String.join texts = text ∧ w = texts.forM Sink.put

theorem spells_put (text : String) : Spells (Sink.put text) text := by
  refine ⟨[text], by simp, ?_⟩
  simp

theorem spells_pure : Spells (pure ()) "" := ⟨[], rfl, rfl⟩

theorem Spells.bind {w w' : Writer Unit} {s s' : String} (h : Spells w s) (h' : Spells w' s') :
    Spells (do w; w') (s ++ s') := by
  obtain ⟨texts, rfl, rfl⟩ := h
  obtain ⟨texts', rfl, rfl⟩ := h'
  refine ⟨texts ++ texts', String.join_append, ?_⟩
  simp

theorem SExpr.spells_emit (e : SExpr) : Spells e.emit e.text :=
  emit_of ⟨spells_put, spells_pure, Spells.bind⟩ e

/-- A row of texts ends with the first that fails, and with what was stored by then. -/
theorem forM_put_of_error {before after : List String} {text : String} {sink mid left : Sink}
    {stop : WriteStop} (hbefore : before.forM Sink.put sink = .ok () mid)
    (htext : Sink.put text mid = .error stop left) :
    (before ++ text :: after).forM Sink.put sink = .error stop left := by
  simp only [List.forM_eq_forM, List.forM_append, List.forM_cons] at hbefore ⊢
  show EStateM.bind _ _ sink = _
  rw [EStateM.bind, hbefore]
  show EStateM.bind (Sink.put text) _ mid = _
  rw [EStateM.bind, htext]

/-! ## Putting texts at once -/

section Bounded

variable {limit : Nat} {bytes : ByteArray} {s : String}

theorem put_of_fits (h : (bytes ++ s.toUTF8).size ≤ limit) :
    Sink.put s ⟨.bounded limit, bytes⟩ = .ok () ⟨.bounded limit, bytes ++ s.toUTF8⟩ := by
  simp only [Sink.put, if_pos h]

theorem put_of_full (h : ¬ (bytes ++ s.toUTF8).size ≤ limit) :
    Sink.put s ⟨.bounded limit, bytes⟩ =
      .error .full ⟨.bounded limit, (bytes ++ s.toUTF8).extract 0 limit⟩ := by
  simp only [Sink.put, if_neg h]

/-- A text with something in front is put as it is put where that is stored already. -/
theorem put_append (s t : String) :
    Sink.put (s ++ t) ⟨.bounded limit, bytes⟩ =
      Sink.put t ⟨.bounded limit, bytes ++ s.toUTF8⟩ := by
  simp only [Sink.put, append_toUTF8]

/-- Where a text runs over, so does every continuation of it, at the same byte. -/
theorem put_append_of_full (h : ¬ (bytes ++ s.toUTF8).size ≤ limit) (t : String) :
    Sink.put (s ++ t) ⟨.bounded limit, bytes⟩ = Sink.put s ⟨.bounded limit, bytes⟩ := by
  have hlonger : ¬ (bytes ++ (s ++ t).toUTF8).size ≤ limit := by
    rw [append_toUTF8, ByteArray.size_append]
    omega
  have hnone : t.toUTF8.extract (0 - (bytes ++ s.toUTF8).size)
      (limit - (bytes ++ s.toUTF8).size) = ByteArray.empty := by
    rw [ByteArray.extract_eq_empty_iff]
    omega
  rw [put_of_full h, put_of_full hlonger, append_toUTF8, ByteArray.extract_append, hnone,
    ByteArray.append_empty]

/-- Texts that are put one after the other are put as if they were one. -/
theorem forM_put_bounded (h : bytes.size ≤ limit) (texts : List String) :
    texts.forM Sink.put ⟨.bounded limit, bytes⟩ =
      Sink.put (String.join texts) ⟨.bounded limit, bytes⟩ := by
  induction texts generalizing bytes with
  | nil =>
      have hempty := append_toUTF8_empty bytes
      rw [String.join_nil, put_of_fits (by rwa [hempty]), hempty]
      rfl
  | cons text texts ih =>
      rw [String.join_cons]
      show EStateM.bind (Sink.put text) (fun _ => texts.forM Sink.put) _ = _
      rw [EStateM.bind]
      by_cases hfits : (bytes ++ text.toUTF8).size ≤ limit
      · rw [put_of_fits hfits, put_append]
        exact ih hfits
      · rw [put_append_of_full hfits, put_of_full hfits]

end Bounded

/-! ## What a buffer has in the end -/

/-- The bytes of the sink at the end of writing, however that ended. -/
def bytesLeft {α : Type} : EStateM.Result WriteStop Sink α → ByteArray
  | .ok _ sink => sink.bytes
  | .error _ sink => sink.bytes

/-- How a text goes into a buffer of `n` bytes: as many bytes are stored as there are and as there
is room for, and a failure is reported just if this is not all of them. A larger buffer has what a
smaller one has and goes on. The text comes in pieces, and whichever piece is the first that fails,
the buffer stays as that piece has left it. -/
structure Fills (w : Writer Unit) (text : String) : Prop where
  result : ∀ n,
    let stored := text.toUTF8.extract 0 (min n text.utf8ByteSize)
    w ⟨.bounded n, .empty⟩ =
      if n < text.utf8ByteSize then .error .full ⟨.bounded n, stored⟩
      else .ok () ⟨.bounded n, stored⟩
  mono : ∀ m n, m ≤ n → (bytesLeft (w ⟨.bounded m, .empty⟩)).data.toList <+:
    (bytesLeft (w ⟨.bounded n, .empty⟩)).data.toList
  stops : ∃ pieces : List String, String.join pieces = text ∧ w = pieces.forM Sink.put ∧
    ∀ n before piece after mid left, pieces = before ++ piece :: after →
      before.forM Sink.put ⟨.bounded n, .empty⟩ = .ok () mid →
      Sink.put piece mid = .error .full left → w ⟨.bounded n, .empty⟩ = .error .full left

section Filling

variable {w : Writer Unit} {text : String}

theorem Spells.result (h : Spells w text) (n : Nat) :
    w ⟨.bounded n, .empty⟩ =
      if n < text.utf8ByteSize then
        .error .full ⟨.bounded n, text.toUTF8.extract 0 (min n text.utf8ByteSize)⟩
      else .ok () ⟨.bounded n, text.toUTF8.extract 0 (min n text.utf8ByteSize)⟩ := by
  obtain ⟨texts, hjoin, rfl⟩ := h
  rw [forM_put_bounded (Nat.zero_le n), hjoin]
  have hsize : (ByteArray.empty ++ text.toUTF8).size = text.utf8ByteSize := by
    rw [ByteArray.empty_append]
    rfl
  by_cases hn : n < text.utf8ByteSize
  · rw [if_pos hn, put_of_full (by omega), ByteArray.empty_append, Nat.min_eq_left (by omega)]
  · have hwhole : text.toUTF8.extract 0 text.utf8ByteSize = text.toUTF8 :=
      ByteArray.extract_zero_size
    rw [if_neg hn, put_of_fits (by omega), ByteArray.empty_append, Nat.min_eq_right (by omega),
      hwhole]

theorem Spells.bytesLeft_eq (h : Spells w text) (n : Nat) :
    bytesLeft (w ⟨.bounded n, .empty⟩) = text.toUTF8.extract 0 (min n text.utf8ByteSize) := by
  rw [h.result]
  split <;> rfl

theorem Spells.fills (h : Spells w text) : Fills w text where
  result := h.result
  mono m n hmn := by
    rw [h.bytesLeft_eq, h.bytesLeft_eq, ByteArray.data_extract, ByteArray.data_extract,
      Array.toList_extract, Array.toList_extract]
    simp only [List.extract_eq_take_drop, Nat.sub_zero, List.drop_zero]
    exact List.take_prefix_take_left (by omega)
  stops := by
    obtain ⟨pieces, hjoin, rfl⟩ := h
    refine ⟨pieces, hjoin, rfl, ?_⟩
    rintro n before piece after mid left rfl hbefore hpiece
    exact forM_put_of_error hbefore hpiece

end Filling

/-- After every run on handles of its own, a value that is written into a buffer leaves the
beginning of its rendering there, as long as the buffer allows, and is reported as cut off just if
the rendering is longer; and so does a printed line, which is longer by one byte. -/
theorem buffers_hold_the_beginning (names : List String) (out : Sink) (ops : List Operation)
    (h : (Session.start names out).permitsAll ops) {v : Handle}
    (hv : ((Session.start names out).after ops).task.heap.Has v) :
    let heap := ((Session.start names out).after ops).task.heap
    ∃ e : SExpr, heap.decode v = .ok e ∧
      (∀ bytes, heap.write v ⟨.unlimited, bytes⟩ =
        .ok () ⟨.unlimited, bytes ++ e.text.toUTF8⟩) ∧
      Fills (heap.write v) e.text ∧ Fills (heap.print v) (e.text ++ "\n") ∧
      (e.text ++ "\n").utf8ByteSize = e.text.utf8ByteSize + 1 := by
  intro heap
  have hs : heap.Sound := ((Session.sound_start names out).after h).heap
  obtain ⟨e, he⟩ := hs.exists_denotes hv
  have hspells : Spells (heap.write v) e.text := by
    rw [hs.write_eq_emit hv he]
    exact e.spells_emit
  exact ⟨e, hs.decode_eq hv he, hs.appends_write hv he, hspells.fills,
    (hspells.bind (spells_put "\n")).fills, String.utf8ByteSize_append⟩

/-- Builds a list of a string, a symbol without letters and the empty list. -/
def accentedRun : List Operation :=
  [.newAtom (.str "é"), .newAtom (.sym ""), .enter (.list [⟨2⟩, ⟨3⟩, .nil])]

/-- A buffer of three bytes ends within the letter, and one of ten ends before the line does. -/
theorem cut_letter_is_stored :
    (Session.start [] {}).permitsAll accentedRun ∧
    ((Session.start [] {}).after accentedRun).task.heap.Has ⟨6⟩ ∧
    ((Session.start [] {}).after accentedRun).task.heap.decode ⟨6⟩ =
      .ok (.list [.str "é", .sym "", .nil]) ∧
    ((Session.start [] {}).after accentedRun).task.heap.write ⟨6⟩ ⟨.bounded 3, .empty⟩ =
      .error .full ⟨.bounded 3, ⟨#[40, 34, 195]⟩⟩ ∧
    ((Session.start [] {}).after accentedRun).task.heap.print ⟨6⟩ ⟨.bounded 10, .empty⟩ =
      .error .full ⟨.bounded 10, "(\"é\"  ())".toUTF8⟩ := by
  have hrun : (Session.start [] {}).permitsAll accentedRun := by decide +kernel
  have hv : ((Session.start [] {}).after accentedRun).task.heap.Has ⟨6⟩ := by decide +kernel
  have hdecode : ((Session.start [] {}).after accentedRun).task.heap.decode ⟨6⟩ =
      .ok (.list [.str "é", .sym "", .nil]) := by rfl
  obtain ⟨e, he, _, hwrite, hprint, _⟩ := buffers_hold_the_beginning [] {} accentedRun hrun hv
  obtain rfl := Except.ok.inj (hdecode.symm.trans he)
  exact ⟨hrun, hv, hdecode, hwrite.result 3, hprint.result 10⟩

end LispHeap
