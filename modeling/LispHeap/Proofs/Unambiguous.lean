import LispHeap.Proofs.Rendering

/-!
# Equal texts are the texts of equal values

The printer escapes nothing, so a text alone does not say what it was printed from. A symbol may be
named like an integer or like a list, or by nothing at all, and a string with a quote in it looks
like two strings. These are the only ways to be misled. Leave out such names and such strings, and
two values that print the same are the same, wherever they are stored.

The proof reads two equal texts side by side from the left. It works because of what may stand
behind an expression: nothing, a space or a closing bracket, and none of these can belong to a word.
So the statement that goes through the nesting is about texts with something behind them. If two of
those are equal, the expressions are equal, and so is what is left (`ReaderSafe.determined`). In a
list what is left says by its first character whether another member follows.
-/

namespace LispHeap

/-- The characters that no word contains. -/
def delimiters : List Char := [' ', '(', ')', '"']

/-- A name that reads as nothing but a symbol. -/
structure PlainName (name : String) : Prop where
  ne_empty : name ≠ ""
  plain : ∀ c ∈ name.toList, c ∉ delimiters
  ne_int : ∀ value : Int32, name ≠ value.toInt.repr

/-- All names in the expression are plain, and no string has a quote in it. -/
inductive SExpr.ReaderSafe : SExpr → Prop where
  | int (value : Int32) : ReaderSafe (.int value)
  | sym {name : String} (h : PlainName name) : ReaderSafe (.sym name)
  | str {s : String} (h : '"' ∉ s.toList) : ReaderSafe (.str s)
  | list {items : List SExpr} (h : ∀ x ∈ items, ReaderSafe x) : ReaderSafe (.list items)

/-- The handle stands for such an expression. -/
def Heap.ReaderSafe (heap : Heap) (v : Handle) : Prop := ∃ e, heap.Denotes v e ∧ e.ReaderSafe

/-! ## Words, and what may stand behind an expression -/

/-- A text without delimiters that is not empty. -/
def IsWord (w : List Char) : Prop := w ≠ [] ∧ ∀ c ∈ w, c ∉ delimiters

/-- A text that may stand behind an expression. -/
def Follows (r : List Char) : Prop := ∀ c, r.head? = some c → c = ' ' ∨ c = ')'

theorem follows_nil : Follows [] := by
  intro c h
  cases h

theorem Follows.delimits {r : List Char} (hr : Follows r) :
    ∀ c, r.head? = some c → c ∈ delimiters := by
  intro c hc
  rcases hr c hc with rfl | rfl <;> decide

/-- Two texts that run up to the first character of a kind are equal if they are so with whatever
follows them. -/
theorem append_inj_of_stop {p : Char → Prop} {w w' r s : List Char} (hw : ∀ c ∈ w, ¬ p c)
    (hw' : ∀ c ∈ w', ¬ p c) (hr : ∀ c, r.head? = some c → p c) (hs : ∀ c, s.head? = some c → p c)
    (h : w ++ r = w' ++ s) : w = w' ∧ r = s := by
  induction w generalizing w' with
  | nil =>
      cases w' with
      | nil => exact ⟨rfl, h⟩
      | cons c w' =>
          rw [List.nil_append] at h
          exact absurd (hr c (by rw [h]; rfl)) (hw' c (by simp))
  | cons c w ih =>
      cases w' with
      | nil =>
          rw [List.nil_append] at h
          exact absurd (hs c (by rw [← h]; rfl)) (hw c (by simp))
      | cons c' w' =>
          simp only [List.cons_append, List.cons.injEq] at h
          obtain ⟨rfl, h⟩ := h
          have hrest : ∀ x ∈ w, ¬ p x := fun x hx => hw x (by simp [hx])
          have hrest' : ∀ x ∈ w', ¬ p x := fun x hx => hw' x (by simp [hx])
          obtain ⟨rfl, hrs⟩ := ih hrest hrest' h
          exact ⟨rfl, hrs⟩

theorem IsWord.append_ne {w r s : List Char} {c : Char} (hw : IsWord w) (hc : c ∈ delimiters) :
    w ++ r ≠ c :: s := by
  intro heq
  obtain ⟨c', w', rfl⟩ := List.exists_cons_of_ne_nil hw.1
  rw [List.cons_append, List.cons.injEq] at heq
  exact hw.2 c' (by simp) (heq.1 ▸ hc)

theorem isDigit_of_mem_repr {n : Nat} {c : Char} (hc : c ∈ n.repr.toList) : c.isDigit = true := by
  rw [Nat.toList_repr] at hc
  exact Nat.isDigit_of_mem_toDigits (by omega) (by omega) hc

theorem isWord_digits (n : Nat) : IsWord n.repr.toList := by
  refine ⟨?_, fun c hc hdel => ?_⟩
  · rw [Nat.toList_repr]
    exact Nat.toDigits_ne_nil
  · have hdigit := isDigit_of_mem_repr hc
    simp only [delimiters, List.mem_cons, List.not_mem_nil, or_false] at hdel
    rcases hdel with rfl | rfl | rfl | rfl <;> simp [Char.isDigit] at hdigit

/-- The digits can be read back. -/
theorem eq_of_digits_eq {m n : Nat} (h : m.repr.toList = n.repr.toList) : m = n := by
  rw [Nat.toList_repr, Nat.toList_repr] at h
  rw [← @Nat.ofDigitChars_ten_toDigits m, h, Nat.ofDigitChars_ten_toDigits]

/-- The text of an integer is digits, behind a sign if there is one. -/
theorem repr_cases (i : Int) : (∃ n : Nat, i = n ∧ i.repr.toList = n.repr.toList) ∨
    ∃ n : Nat, i = -n ∧ i.repr.toList = '-' :: n.repr.toList := by
  rw [Int.repr_eq_if]
  split
  · exact Or.inl ⟨i.toNat, by omega, rfl⟩
  · exact Or.inr ⟨(-i).toNat, by omega, by rw [String.toList_append]; rfl⟩

theorem isWord_repr (i : Int) : IsWord i.repr.toList := by
  rcases repr_cases i with ⟨n, _, htext⟩ | ⟨n, _, htext⟩ <;> rw [htext]
  · exact isWord_digits n
  · refine ⟨List.cons_ne_nil _ _, List.forall_mem_cons.mpr ⟨by decide, ?_⟩⟩
    exact (isWord_digits n).2

/-- No text of digits begins with a sign, so the sign is read back too. -/
theorem digits_ne_sign (m : Nat) (cs : List Char) : m.repr.toList ≠ '-' :: cs := by
  intro h
  have hdigit := isDigit_of_mem_repr (h ▸ List.mem_cons_self : '-' ∈ m.repr.toList)
  exact absurd hdigit (by decide)

theorem eq_of_repr_eq {i j : Int} (h : i.repr = j.repr) : i = j := by
  have h : i.repr.toList = j.repr.toList := congrArg String.toList h
  rcases repr_cases i with ⟨m, rfl, hm⟩ | ⟨m, rfl, hm⟩ <;>
    rcases repr_cases j with ⟨n, rfl, hn⟩ | ⟨n, rfl, hn⟩ <;> rw [hm, hn] at h
  · rw [eq_of_digits_eq h]
  · exact absurd h (digits_ne_sign m _)
  · exact absurd h.symm (digits_ne_sign n _)
  · rw [eq_of_digits_eq (List.cons.inj h).2]

theorem PlainName.isWord {name : String} (h : PlainName name) : IsWord name.toList :=
  ⟨fun hnil => h.ne_empty (String.toList_eq_nil_iff.mp hnil), h.plain⟩

namespace SExpr

variable {e d : SExpr}

theorem str_append (s : String) (r : List Char) :
    (SExpr.str s).text.toList ++ r = '"' :: (s.toList ++ '"' :: r) := by
  simp [text]

theorem list_append (items : List SExpr) (r : List Char) :
    (SExpr.list items).text.toList ++ r = '(' :: ((spaced items).toList ++ ')' :: r) := by
  simp [text]

theorem spaced_append (x : SExpr) (xs : List SExpr) (r : List Char) :
    (spaced (x :: xs)).toList ++ r = x.text.toList ++ ((restText xs).toList ++ r) := by
  simp [spaced_cons]

theorem restText_append (x : SExpr) (xs : List SExpr) (r : List Char) :
    (restText (x :: xs)).toList ++ r = ' ' :: (x.text.toList ++ ((restText xs).toList ++ r)) := by
  simp [restText]

theorem follows_restText (xs : List SExpr) (r : List Char) :
    Follows ((restText xs).toList ++ ')' :: r) := by
  intro c hc
  cases xs with
  | nil => exact Or.inr (by simpa [restText] using hc.symm)
  | cons x xs => exact Or.inl (by simpa [restText_append] using hc.symm)

/-- The first character tells a word, a string and a list apart. -/
theorem ReaderSafe.opening (h : e.ReaderSafe) : IsWord e.text.toList ∨
    ∀ r, ∃ c cs, e.text.toList ++ r = c :: cs ∧ (c = '"' ∨ c = '(') := by
  cases h with
  | int value => exact Or.inl (by rw [text]; exact isWord_repr _)
  | sym h => exact Or.inl (by rw [text]; exact h.isWord)
  | str _ => exact Or.inr fun r => ⟨_, _, str_append _ r, Or.inl rfl⟩
  | list _ => exact Or.inr fun r => ⟨_, _, list_append _ r, Or.inr rfl⟩

theorem ReaderSafe.append_ne (h : e.ReaderSafe) (r s : List Char) :
    e.text.toList ++ r ≠ ')' :: s := by
  intro heq
  rcases h.opening with hw | hopen
  · exact hw.append_ne (by decide) heq
  · obtain ⟨c, cs, hcs, rfl | rfl⟩ := hopen r <;> simp [hcs] at heq

/-- A safe expression that prints as a word is an integer or a symbol. -/
theorem ReaderSafe.cases_word (h : e.ReaderSafe) (hw : IsWord e.text.toList) :
    (∃ value, e = .int value) ∨ ∃ name, e = .sym name ∧ PlainName name := by
  cases h with
  | int value => exact Or.inl ⟨value, rfl⟩
  | sym h => exact Or.inr ⟨_, rfl, h⟩
  | str _ => exact absurd (str_append _ []) (hw.append_ne (by decide))
  | list _ => exact absurd (list_append _ []) (hw.append_ne (by decide))

theorem eq_of_word_eq (he : e.ReaderSafe) (hd : d.ReaderSafe) (hw : IsWord e.text.toList)
    (h : e.text = d.text) : e = d := by
  rcases he.cases_word hw with ⟨i, rfl⟩ | ⟨x, rfl, hx⟩ <;>
    rcases hd.cases_word (h ▸ hw) with ⟨j, rfl⟩ | ⟨y, rfl, hy⟩ <;> rw [text, text] at h
  · rw [Int32.toInt_inj.mp (eq_of_repr_eq h)]
  · exact absurd h.symm (hy.ne_int i)
  · exact absurd h (hx.ne_int j)
  · rw [h]

/-! ## Reading side by side -/

/-- Whatever follows it, the text of this expression is no other safe expression's. -/
def Determined (e : SExpr) : Prop :=
  ∀ d, d.ReaderSafe → ∀ r s, Follows r → Follows s →
    e.text.toList ++ r = d.text.toList ++ s → e = d ∧ r = s

theorem ReaderSafe.determined_of_word (he : e.ReaderSafe) (hw : IsWord e.text.toList) :
    e.Determined := by
  intro d hd r s hr hs heq
  rcases hd.opening with hwd | hopen
  · obtain ⟨htext, hrs⟩ := append_inj_of_stop hw.2 hwd.2 hr.delimits hs.delimits heq
    exact ⟨eq_of_word_eq he hd hw (String.toList_inj.mp htext), hrs⟩
  · obtain ⟨c, cs, hcs, hc⟩ := hopen s
    rw [hcs] at heq
    refine absurd heq (hw.append_ne ?_)
    rcases hc with rfl | rfl <;> decide

theorem determined_str {s : String} (hs : '"' ∉ s.toList) : (SExpr.str s).Determined := by
  intro d hd r r' _ _ heq
  rw [str_append] at heq
  cases hd with
  | int value => exact absurd heq.symm ((isWord_repr value.toInt).append_ne (by decide))
  | sym h => exact absurd heq.symm (h.isWord.append_ne (by decide))
  | @str s' hs' =>
      rw [str_append, List.cons.injEq] at heq
      obtain ⟨hss, hrr⟩ := append_inj_of_stop (p := (· = '"')) (fun c hc h => hs (h ▸ hc))
        (fun c hc h => hs' (h ▸ hc)) (by simp) (by simp) heq.2
      rw [String.toList_inj.mp hss]
      exact ⟨rfl, by simpa using hrr⟩
  | list _ => simp [list_append] at heq

/-- What is left behind a member says by its first character whether another one follows. -/
theorem restText_inj {xs ys : List SExpr} {r s : List Char} (hxs : ∀ x ∈ xs, x.Determined)
    (hys : ∀ y ∈ ys, y.ReaderSafe)
    (h : (restText xs).toList ++ ')' :: r = (restText ys).toList ++ ')' :: s) :
    xs = ys ∧ r = s := by
  induction xs generalizing ys with
  | nil =>
      cases ys with
      | nil => simpa [restText] using h
      | cons y ys => simp [restText] at h
  | cons x xs ih =>
      cases ys with
      | nil => simp [restText] at h
      | cons y ys =>
          rw [restText_append, restText_append, List.cons.injEq] at h
          obtain ⟨rfl, hrest⟩ := hxs x (by simp) y (hys y (by simp)) _ _ (follows_restText xs r)
            (follows_restText ys s) h.2
          obtain ⟨rfl, hrs⟩ := ih (fun z hz => hxs z (by simp [hz]))
            (fun z hz => hys z (by simp [hz])) hrest
          exact ⟨rfl, hrs⟩

theorem spaced_inj {xs ys : List SExpr} {r s : List Char} (hsafe : ∀ x ∈ xs, x.ReaderSafe)
    (hxs : ∀ x ∈ xs, x.Determined) (hys : ∀ y ∈ ys, y.ReaderSafe)
    (h : (spaced xs).toList ++ ')' :: r = (spaced ys).toList ++ ')' :: s) : xs = ys ∧ r = s := by
  cases xs with
  | nil =>
      cases ys with
      | nil => simpa [spaced] using h
      | cons y ys =>
          rw [spaced_append, spaced] at h
          exact absurd h.symm ((hys y (by simp)).append_ne _ _)
  | cons x xs =>
      cases ys with
      | nil =>
          rw [spaced_append, spaced] at h
          exact absurd h ((hsafe x (by simp)).append_ne _ _)
      | cons y ys =>
          rw [spaced_append, spaced_append] at h
          obtain ⟨rfl, hrest⟩ := hxs x (by simp) y (hys y (by simp)) _ _ (follows_restText xs r)
            (follows_restText ys s) h
          obtain ⟨rfl, hrs⟩ := restText_inj (fun z hz => hxs z (by simp [hz]))
            (fun z hz => hys z (by simp [hz])) hrest
          exact ⟨rfl, hrs⟩

theorem determined_list {items : List SExpr} (hsafe : ∀ x ∈ items, x.ReaderSafe)
    (hitems : ∀ x ∈ items, x.Determined) : (SExpr.list items).Determined := by
  intro d hd r s _ _ heq
  rw [list_append] at heq
  cases hd with
  | int value => exact absurd heq.symm ((isWord_repr value.toInt).append_ne (by decide))
  | sym h => exact absurd heq.symm (h.isWord.append_ne (by decide))
  | str _ => simp [str_append] at heq
  | list hsafe' =>
      rw [list_append, List.cons.injEq] at heq
      obtain ⟨rfl, hrs⟩ := spaced_inj hsafe hitems hsafe' heq.2
      exact ⟨rfl, hrs⟩

theorem ReaderSafe.determined (he : e.ReaderSafe) : e.Determined := by
  induction he with
  | int value => exact (ReaderSafe.int value).determined_of_word (isWord_repr value.toInt)
  | sym h => exact (ReaderSafe.sym h).determined_of_word h.isWord
  | str h => exact determined_str h
  | list h ih => exact determined_list h ih

theorem ReaderSafe.text_inj (he : e.ReaderSafe) (hd : d.ReaderSafe) : e.text = d.text ↔ e = d := by
  refine ⟨fun h => ?_, fun h => by rw [h]⟩
  exact (he.determined d hd [] [] follows_nil follows_nil (by rw [h])).1

end SExpr

/-- Values that are safe to read, on the heaps that two runs have left: printing both succeeds, and
the bytes are the same exactly if the values are the same expression. -/
theorem equal_bytes_iff_equal_values (names₁ names₂ : List String) (out₁ out₂ : Sink)
    (ops₁ ops₂ : List Operation) (h₁ : (Session.start names₁ out₁).permitsAll ops₁)
    (h₂ : (Session.start names₂ out₂).permitsAll ops₂) {v w : Handle}
    (hv : ((Session.start names₁ out₁).after ops₁).task.heap.ReaderSafe v)
    (hw : ((Session.start names₂ out₂).after ops₂).task.heap.ReaderSafe w) :
    let heap₁ := ((Session.start names₁ out₁).after ops₁).task.heap
    let heap₂ := ((Session.start names₂ out₂).after ops₂).task.heap
    ∃ bytes₁ bytes₂, heap₁.write v {} = .ok () ⟨.unlimited, bytes₁⟩ ∧
      heap₂.write w {} = .ok () ⟨.unlimited, bytes₂⟩ ∧
      (bytes₁ = bytes₂ ↔ ∃ e, heap₁.Denotes v e ∧ heap₂.Denotes w e) := by
  intro heap₁ heap₂
  have hs₁ : heap₁.Sound := ((Session.sound_start names₁ out₁).after h₁).heap
  have hs₂ : heap₂.Sound := ((Session.sound_start names₂ out₂).after h₂).heap
  obtain ⟨e, he, hesafe⟩ := hv
  obtain ⟨d, hd, hdsafe⟩ := hw
  refine ⟨_, _, hs₁.appends_write he.has he _, hs₂.appends_write hd.has hd _, ?_⟩
  rw [ByteArray.append_right_inj, String.toUTF8, String.toUTF8, String.toByteArray_inj,
    hesafe.text_inj hdsafe]
  constructor
  · rintro rfl
    exact ⟨e, he, hd⟩
  · rintro ⟨x, hx, hx'⟩
    rw [he.unique hx, hd.unique hx']

/-- Builds `("a b" x)` at once, and again from its end on another heap. -/
def listedRun : List Operation :=
  [.newAtom (.str "a b"), .newAtom (.sym "x"), .enter (.list [⟨2⟩, ⟨3⟩])]

/-- Builds the same list from its end. -/
def consedRun : List Operation :=
  [.newAtom (.sym "x"), .enter (.cons ⟨2⟩ .nil), .newAtom (.str "a b"), .enter (.cons ⟨4⟩ ⟨3⟩)]

theorem listed_and_consed_bytes :
    let heap₁ := ((Session.start [] {}).after listedRun).task.heap
    let heap₂ := ((Session.start ["y", "x"] {}).after consedRun).task.heap
    (Session.start [] {}).permitsAll listedRun ∧
    (Session.start ["y", "x"] {}).permitsAll consedRun ∧
    heap₁.ReaderSafe ⟨5⟩ ∧ heap₂.ReaderSafe ⟨5⟩ ∧
    ∃ bytes₁ bytes₂, heap₁.write ⟨5⟩ {} = .ok () ⟨.unlimited, bytes₁⟩ ∧
      heap₂.write ⟨5⟩ {} = .ok () ⟨.unlimited, bytes₂⟩ ∧
      (bytes₁ = bytes₂ ↔ ∃ e, heap₁.Denotes ⟨5⟩ e ∧ heap₂.Denotes ⟨5⟩ e) := by
  intro heap₁ heap₂
  have hrun₁ : (Session.start [] {}).permitsAll listedRun := by decide +kernel
  have hrun₂ : (Session.start ["y", "x"] {}).permitsAll consedRun := by decide +kernel
  have hx : PlainName "x" := by
    refine ⟨by decide, by simp [delimiters], fun value h => ?_⟩
    have h : ['x'] = value.toInt.repr.toList := congrArg String.toList h
    rcases repr_cases value.toInt with ⟨n, _, htext⟩ | ⟨n, _, htext⟩ <;> rw [htext] at h
    · have hdigit := isDigit_of_mem_repr (h ▸ List.mem_cons_self : 'x' ∈ n.repr.toList)
      exact absurd hdigit (by decide)
    · cases h
  have hsafe : (SExpr.list [.str "a b", .sym "x"]).ReaderSafe := by
    refine .list fun e he => ?_
    simp only [List.mem_cons, List.not_mem_nil, or_false] at he
    rcases he with rfl | rfl
    · exact .str (by decide)
    · exact .sym hx
  have hv : heap₁.ReaderSafe ⟨5⟩ := by
    have hfirst : heap₁.cell? ⟨5⟩ = some (.pair ⟨2, ⟨2⟩, ⟨4⟩⟩) := by decide +kernel
    have hsecond : heap₁.cell? ⟨4⟩ = some (.pair ⟨1, ⟨3⟩, .nil⟩) := by decide +kernel
    have hsym : heap₁.cell? ⟨3⟩ = some (.sym ⟨1⟩) := by decide +kernel
    exact ⟨_, .pair hfirst (.str (by decide +kernel))
      (.pair hsecond (.sym hsym (by decide +kernel)) .nil), hsafe⟩
  have hw : heap₂.ReaderSafe ⟨5⟩ := by
    have hfirst : heap₂.cell? ⟨5⟩ = some (.pair ⟨2, ⟨4⟩, ⟨3⟩⟩) := by decide +kernel
    have hsecond : heap₂.cell? ⟨3⟩ = some (.pair ⟨1, ⟨2⟩, .nil⟩) := by decide +kernel
    have hsym : heap₂.cell? ⟨2⟩ = some (.sym ⟨1⟩) := by decide +kernel
    exact ⟨_, .pair hfirst (.str (by decide +kernel))
      (.pair hsecond (.sym hsym (by decide +kernel)) .nil), hsafe⟩
  exact ⟨hrun₁, hrun₂, hv, hw, equal_bytes_iff_equal_values _ _ _ _ _ _ hrun₁ hrun₂ hv hw⟩

end LispHeap
