import LispHeap.Proofs.Sound
import LispHeap.SExpr

/-!
# The expression behind a handle

A handle on a sound heap stands for exactly one S-expression. `Heap.Denotes` says which, without a
budget and without an order of search, and the two walks of the library are measured against it:
`decode` computes that expression, and the printer writes what `SExpr.emit` writes for it.

`emit` is the printer without the heap. It puts the same pieces in the same order, so the two agree
on every sink, those that run full included, and what a sink makes of the pieces is a question about
expressions alone. On a sink that takes everything the pieces add up to `SExpr.text`.

The budgets of the two walks are bookkeeping. Whatever a pair holds has a smaller number than the
pair, so any depth beyond the number of a handle covers the walk from it.
-/

namespace LispHeap

/-! ## Writing an expression -/

namespace SExpr

mutual

/-- Writes an expression piece by piece. -/
def emit : SExpr → Writer Unit
  | .int value => Sink.put value.toInt.repr
  | .sym name => Sink.put name
  | .str s => do
    Sink.put "\""
    Sink.put s
    Sink.put "\""
  | .list [] => Sink.put "()"
  | .list (x :: xs) => do
    Sink.put "("
    emit x
    emitRest xs
    Sink.put ")"

/-- Writes what follows the first member of a list, each member after a space. -/
def emitRest : List SExpr → Writer Unit
  | [] => pure ()
  | x :: xs => do
    Sink.put " "
    emit x
    emitRest xs

end

/-- The text behind the first member of a list. -/
def restText : List SExpr → String
  | [] => ""
  | x :: xs => " " ++ x.text ++ restText xs

theorem spaced_cons (x : SExpr) (xs : List SExpr) : spaced (x :: xs) = x.text ++ restText xs := by
  induction xs generalizing x with
  | nil => rw [spaced, restText, String.append_empty]
  | cons y ys ih =>
      rw [spaced, restText, ih, String.append_assoc, String.append_assoc]
      exact List.cons_ne_nil y ys

end SExpr

/-- A relation of writers to texts that holds piece by piece. -/
structure Piecewise (P : Writer Unit → String → Prop) : Prop where
  put : ∀ text, P (Sink.put text) text
  done : P (pure ()) ""
  seq : ∀ {w w' : Writer Unit} {s s' : String}, P w s → P w' s' → P (do w; w') (s ++ s')

namespace SExpr

variable {P : Writer Unit → String → Prop}

mutual

/-- What holds piece by piece holds of an expression and its text. -/
theorem emit_of (hP : Piecewise P) : (e : SExpr) → P e.emit e.text
  | .int value => by
      rw [emit, text]
      exact hP.put _
  | .sym name => by
      rw [emit, text]
      exact hP.put _
  | .str s => by
      rw [emit, text, String.append_assoc]
      exact hP.seq (hP.put _) (hP.seq (hP.put _) (hP.put _))
  | .list [] => by
      rw [emit, text]
      exact hP.put _
  | .list (x :: xs) => by
      rw [emit, text, spaced_cons, String.append_assoc, String.append_assoc]
      exact hP.seq (hP.put _) (hP.seq (emit_of hP x) (hP.seq (emitRest_of hP xs) (hP.put _)))

theorem emitRest_of (hP : Piecewise P) : (xs : List SExpr) → P (emitRest xs) (restText xs)
  | [] => by
      rw [emitRest, restText]
      exact hP.done
  | x :: xs => by
      rw [emitRest, restText, String.append_assoc]
      exact hP.seq (hP.put _) (hP.seq (emit_of hP x) (emitRest_of hP xs))

end

end SExpr

/-- On a sink that takes everything, the writer writes this text. -/
def Appends (w : Writer Unit) (text : String) : Prop :=
  ∀ bytes, w ⟨.unlimited, bytes⟩ = .ok () ⟨.unlimited, bytes ++ text.toUTF8⟩

theorem appends_put (text : String) : Appends (Sink.put text) text := fun _ => rfl

theorem append_toUTF8_empty (bytes : ByteArray) : bytes ++ "".toUTF8 = bytes := by
  rw [String.toUTF8, String.toByteArray_empty, ByteArray.append_empty]

theorem append_toUTF8 (bytes : ByteArray) (s t : String) :
    bytes ++ (s ++ t).toUTF8 = bytes ++ s.toUTF8 ++ t.toUTF8 := by
  rw [ByteArray.append_assoc]
  exact congrArg (bytes ++ ·) String.toByteArray_append

theorem appends_pure : Appends (pure ()) "" := by
  intro bytes
  show EStateM.Result.ok () _ = _
  rw [append_toUTF8_empty]

theorem appends_bind {w w' : Writer Unit} {s s' : String} (h : Appends w s) (h' : Appends w' s') :
    Appends (do w; w') (s ++ s') := by
  intro bytes
  show EStateM.bind w (fun _ => w') _ = _
  rw [EStateM.bind, h bytes]
  show w' _ = _
  rw [h', append_toUTF8]

theorem SExpr.appends_emit (e : SExpr) : Appends e.emit e.text :=
  emit_of ⟨appends_put, appends_pure, appends_bind⟩ e

/-- A writer that never faults, whatever the sink. -/
def Faultless (w : Writer Unit) : Prop := ∀ sink f left, w sink ≠ .error (.fault f) left

theorem faultless_put (text : String) : Faultless (Sink.put text) := by
  intro sink f left
  rw [Sink.put]
  split
  · simp
  · split <;> simp
  · split <;> simp

theorem faultless_pure : Faultless (pure ()) := by
  intro sink f left h
  cases h

theorem faultless_bind {w w' : Writer Unit} (h : Faultless w) (h' : Faultless w') :
    Faultless (do w; w') := by
  intro sink f left
  show EStateM.bind w (fun _ => w') sink ≠ _
  rw [EStateM.bind]
  cases hw : w sink with
  | ok _ mid => exact h' mid f left
  | error e mid =>
      intro he
      exact h sink f left (hw.trans he)

theorem SExpr.faultless_emit (e : SExpr) : Faultless e.emit :=
  emit_of (P := fun w _ => Faultless w) ⟨faultless_put, faultless_pure, faultless_bind⟩ e

/-! ## What a handle denotes -/

namespace Heap

variable {heap : Heap} {v : Handle} {e : SExpr}

/-- The expression that a handle stands for: the empty list, the contents of an atom, or the list of
what the heads along the rests stand for. -/
inductive Denotes (heap : Heap) : Handle → SExpr → Prop where
  | nil : Denotes heap .nil (.list [])
  | int {v : Handle} {value : Int32} (h : heap.cell? v = some (.int value)) :
      Denotes heap v (.int value)
  | sym {v : Handle} {id : SymbolId} {name : String} (h : heap.cell? v = some (.sym id))
      (hname : heap.symbols.name? id = some name) : Denotes heap v (.sym name)
  | str {v : Handle} {text : String} (h : heap.cell? v = some (.str text)) :
      Denotes heap v (.str text)
  | pair {v : Handle} {node : Pair} {x : SExpr} {xs : List SExpr}
      (h : heap.cell? v = some (.pair node)) (hhead : Denotes heap node.head x)
      (hrest : Denotes heap node.rest (.list xs)) : Denotes heap v (.list (x :: xs))

theorem Denotes.has (h : heap.Denotes v e) : heap.Has v := by
  cases h with
  | nil => exact Nat.zero_le _
  | int h | sym h _ | str h | pair h _ _ => exact (cell?_bounds h).2

theorem Denotes.unique {e' : SExpr} (h : heap.Denotes v e) (h' : heap.Denotes v e') : e = e' := by
  induction h generalizing e' with
  | nil =>
      cases h' with
      | nil => rfl
      | int h | sym h _ | str h | pair h _ _ => cases h
  | int h =>
      cases h' with
      | nil => cases h
      | int h₁ => cases h.symm.trans h₁; rfl
      | sym h₁ _ | str h₁ | pair h₁ _ _ => cases h.symm.trans h₁
  | sym h hname =>
      cases h' with
      | nil => cases h
      | sym h₁ hname₁ =>
          cases h.symm.trans h₁
          rw [Option.some.inj (hname.symm.trans hname₁)]
      | int h₁ | str h₁ | pair h₁ _ _ => cases h.symm.trans h₁
  | str h =>
      cases h' with
      | nil => cases h
      | str h₁ => cases h.symm.trans h₁; rfl
      | int h₁ | sym h₁ _ | pair h₁ _ _ => cases h.symm.trans h₁
  | pair h _ _ ihhead ihrest =>
      cases h' with
      | nil => cases h
      | pair h₁ hhead₁ hrest₁ =>
          cases h.symm.trans h₁
          rw [ihhead hhead₁, SExpr.list.inj (ihrest hrest₁)]
      | int h₁ | sym h₁ _ | str h₁ => cases h.symm.trans h₁

theorem Denotes.eq_list (h : heap.Denotes v e) (hl : heap.IsList v) : ∃ xs, e = .list xs := by
  cases h with
  | nil => exact ⟨[], rfl⟩
  | pair h _ _ => exact ⟨_, rfl⟩
  | int h | sym h _ | str h =>
      rcases hl with rfl | ⟨node, hnode⟩
      · cases h
      · cases h.symm.trans hnode

/-- Every value of a sound heap stands for an expression. -/
theorem Sound.exists_denotes (hs : heap.Sound) (hv : heap.Has v) : ∃ e, heap.Denotes v e := by
  have main : ∀ i v, v.index = i → heap.Has v → ∃ e, heap.Denotes v e := by
    intro i
    induction i using Nat.strongRecOn with
    | ind i ih =>
        intro v hi hv
        rcases hv.cases with rfl | ⟨c, hc⟩
        · exact ⟨_, .nil⟩
        · cases c with
          | int value => exact ⟨_, .int hc⟩
          | str text => exact ⟨_, .str hc⟩
          | sym id =>
              obtain ⟨name, hname⟩ := hs.exists_name? hc
              exact ⟨_, .sym hc hname⟩
          | pair node =>
              have hhead := hs.grounded hc
              have hrest := hs.toProper.rest_lt hc
              have hle := (cell?_bounds hc).2
              have hhas : heap.Has node.head ∧ heap.Has node.rest := by
                rw [Has, Has]
                omega
              obtain ⟨x, hx⟩ := ih node.head.index (by omega) node.head rfl hhas.1
              obtain ⟨r, hr⟩ := ih node.rest.index (by omega) node.rest rfl hhas.2
              obtain ⟨xs, rfl⟩ := hr.eq_list (hs.toProper.isList_rest hc)
              exact ⟨_, .pair hc hx hr⟩
  exact main v.index v rfl hv

/-! ## The walks find it -/

section Printing

variable {depth budget : Nat} {node : Pair}

theorem writeWithin_nil (heap : Heap) (depth : Nat) :
    heap.writeWithin (depth + 1) .nil = Sink.put "()" := by
  rw [writeWithin, view_nil]
  rfl

theorem writeWithin_int {value : Int32} (h : heap.cell? v = some (.int value)) :
    heap.writeWithin (depth + 1) v = Sink.put value.toInt.repr := by
  rw [writeWithin, view_of_cell? h]
  rfl

theorem writeWithin_sym {id : SymbolId} {name : String} (h : heap.cell? v = some (.sym id))
    (hname : heap.symbols.name? id = some name) :
    heap.writeWithin (depth + 1) v = Sink.put name := by
  rw [writeWithin, view_of_cell? h, Sink.await_ok, pure_bind]
  simp only [symbolName_of_name? hname, Sink.await_ok, pure_bind]

theorem writeWithin_str {text : String} (h : heap.cell? v = some (.str text)) :
    heap.writeWithin (depth + 1) v = (do
      Sink.put "\""
      Sink.put text
      Sink.put "\"") := by
  rw [writeWithin, view_of_cell? h]
  rfl

theorem writeWithin_pair (h : heap.cell? v = some (.pair node)) :
    heap.writeWithin (depth + 1) v = (do
      Sink.put "("
      heap.writeWithin depth node.head
      heap.writeRest (heap.writeWithin depth) heap.size node.rest
      Sink.put ")") := by
  rw [writeWithin_succ, view_of_cell? h]
  rfl

theorem writeRest_nil (heap : Heap) (write : Handle → Writer Unit) (budget : Nat) :
    heap.writeRest write budget .nil = pure () := by
  cases budget <;> rfl

theorem writeRest_pair {write : Handle → Writer Unit} (h : heap.cell? v = some (.pair node)) :
    heap.writeRest write (budget + 1) v = (do
      Sink.put " "
      write node.head
      heap.writeRest write budget node.rest) := by
  rw [writeRest, uncons?_of_cell? h]
  rfl

end Printing

/-- Along a value the printer writes what the expression emits, and along a list what its members
emit behind a first one. Both hold at once because each needs the other for the next pair. -/
theorem Sound.walk_eq_emit (hs : heap.Sound) (h : heap.Denotes v e) :
    (∀ depth, v.index ≤ depth → heap.writeWithin (depth + 1) v = e.emit) ∧
    ∀ xs, e = .list xs → ∀ depth budget, v.index ≤ depth → v.index ≤ budget →
      heap.writeRest (heap.writeWithin depth) budget v = SExpr.emitRest xs := by
  induction h with
  | nil =>
      refine ⟨fun depth _ => ?_, fun xs hxs depth budget _ _ => ?_⟩
      · rw [writeWithin_nil, SExpr.emit]
      · obtain rfl := SExpr.list.inj hxs
        rw [writeRest_nil, SExpr.emitRest]
  | int hcell =>
      refine ⟨fun depth _ => ?_, fun xs hxs => by cases hxs⟩
      rw [writeWithin_int hcell, SExpr.emit]
  | sym hcell hname =>
      refine ⟨fun depth _ => ?_, fun xs hxs => by cases hxs⟩
      rw [writeWithin_sym hcell hname, SExpr.emit]
  | str hcell =>
      refine ⟨fun depth _ => ?_, fun xs hxs => by cases hxs⟩
      rw [writeWithin_str hcell, SExpr.emit]
  | @pair v node x xs hcell _ _ ihhead ihrest =>
      have hhead := hs.grounded hcell
      have hrest := hs.toProper.rest_lt hcell
      have hsize := (cell?_bounds hcell).2
      -- One level down is enough for the head, whose number is smaller.
      have inner : ∀ depth, v.index ≤ depth → heap.writeWithin depth node.head = x.emit := by
        intro depth hd
        obtain ⟨d, rfl⟩ : ∃ d, depth = d + 1 := ⟨depth - 1, by omega⟩
        exact ihhead.1 d (by omega)
      refine ⟨fun depth hd => ?_, fun ys hys depth budget hd hb => ?_⟩
      · rw [writeWithin_pair hcell, SExpr.emit, ← inner depth hd,
          ← ihrest.2 xs rfl depth heap.size (by omega) (by omega)]
      · obtain rfl := SExpr.list.inj hys
        obtain ⟨b, rfl⟩ : ∃ b, budget = b + 1 := ⟨budget - 1, by omega⟩
        rw [writeRest_pair hcell, SExpr.emitRest, ← inner depth hd,
          ← ihrest.2 xs rfl depth b (by omega) (by omega)]

/-- The printer writes the expression, on every sink. -/
theorem Sound.write_eq_emit (hs : heap.Sound) (hv : heap.Has v) (h : heap.Denotes v e) :
    heap.write v = e.emit := by
  funext sink
  show heap.writeWithin (heap.size + sink.room.depth + 1) v sink = e.emit sink
  rw [(hs.walk_eq_emit h).1 _ (Nat.le_add_right_of_le hv)]

theorem Sound.faultless_write (hs : heap.Sound) (hv : heap.Has v) : Faultless (heap.write v) := by
  obtain ⟨e, he⟩ := hs.exists_denotes hv
  rw [hs.write_eq_emit hv he]
  exact e.faultless_emit

theorem Sound.faultless_print (hs : heap.Sound) (hv : heap.Has v) : Faultless (heap.print v) :=
  faultless_bind (hs.faultless_write hv) (faultless_put _)

/-- Reading a value back gives its expression, and reading the elements of a list its members. -/
theorem Sound.walk_eq_decode (hs : heap.Sound) (h : heap.Denotes v e) :
    (∀ depth, v.index ≤ depth → heap.decodeWithin (depth + 1) v = .ok e) ∧
    ∀ xs, e = .list xs → ∀ depth, v.index ≤ depth →
      ∃ vs, heap.elements v = .ok vs ∧ vs.mapM (heap.decodeWithin depth) = .ok xs := by
  induction h with
  | nil =>
      refine ⟨fun depth _ => rfl, fun xs hxs depth _ => ?_⟩
      obtain rfl := SExpr.list.inj hxs
      exact ⟨[], elements_nil heap, rfl⟩
  | int hcell =>
      refine ⟨fun depth _ => ?_, fun xs hxs => by cases hxs⟩
      rw [decodeWithin, view_of_cell? hcell]
      rfl
  | @sym v id name hcell hname =>
      refine ⟨fun depth _ => ?_, fun xs hxs => by cases hxs⟩
      rw [decodeWithin, view_of_cell? hcell]
      show (heap.symbolName id).bind _ = _
      rw [symbolName_of_name? hname]
      rfl
  | str hcell =>
      refine ⟨fun depth _ => ?_, fun xs hxs => by cases hxs⟩
      rw [decodeWithin, view_of_cell? hcell]
      rfl
  | @pair v node x xs hcell _ _ ihhead ihrest =>
      have hhead := hs.grounded hcell
      have hrest := hs.toProper.rest_lt hcell
      have members : ∀ depth, v.index ≤ depth → ∃ vs, heap.elements v = .ok vs ∧
          vs.mapM (heap.decodeWithin depth) = .ok (x :: xs) := by
        intro depth hd
        obtain ⟨ws, hws, hmap⟩ := ihrest.2 xs rfl depth (by omega)
        obtain ⟨d, rfl⟩ : ∃ d, depth = d + 1 := ⟨depth - 1, by omega⟩
        refine ⟨node.head :: ws, ?_, ?_⟩
        · rw [hs.toProper.elements_pair hcell, hws]
          rfl
        · rw [List.mapM_cons, ihhead.1 d (by omega), hmap]
          rfl
      refine ⟨fun depth hd => ?_, fun ys hys depth hd => ?_⟩
      · obtain ⟨vs, hvs, hmap⟩ := members depth hd
        rw [decodeWithin, view_of_cell? hcell]
        show (heap.elements v).bind _ = _
        rw [hvs]
        show (vs.mapM (heap.decodeWithin depth)).bind _ = _
        rw [hmap]
        rfl
      · obtain rfl := SExpr.list.inj hys
        exact members depth hd

theorem Sound.decode_eq (hs : heap.Sound) (hv : heap.Has v) (h : heap.Denotes v e) :
    heap.decode v = .ok e :=
  (hs.walk_eq_decode h).1 _ hv

end Heap

end LispHeap
