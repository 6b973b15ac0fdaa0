import LispHeap.Proofs.Growth
import LispHeap.Proofs.Looks

/-!
# Every list is proper

A pair remembers the length of the list that starts at it, and everybody trusts that number:
`length` returns it, a cursor reports it as the count of what is left, and every later pair adds one
to it. The number would be wrong if a rest were ever dotted, cyclic or taken from the wrong heap. No
operation checks for that, and handles are plain numbers that come from anywhere.

`Heap.Proper` is the invariant that makes the number right: a pair ends the list and has length one,
or it continues with a pair placed earlier and has one more than the length of that. It survives the
three additions of `Heap.Adds`, so it holds after every run, on whatever handles. The point of the
argument is that the length of a rest can be read only if the rest is the empty list or a pair that
is already there. A foreign handle that passes this read names a pair of this heap, and then it is
as good as any other.

Rests lead to smaller numbers, so walks along them end. `Proper.induction` is that fact as an
induction over lists, and the walks of this library are read off it.
-/

namespace LispHeap

namespace Heap

variable {heap : Heap} {l : Handle} {node : Pair}

/-- The pair at a handle ends its list, or continues with an earlier pair. -/
def Continues (heap : Heap) (l : Handle) (node : Pair) : Prop :=
  node.rest = .nil ∧ node.length = 1 ∨
    ∃ next, 1 < node.rest.index ∧ node.rest.index < l.index ∧
      heap.cell? node.rest = some (.pair next) ∧ node.length = next.length + 1

/-- The first box is a symbol, and every pair continues as it should. -/
structure Proper (heap : Heap) : Prop where
  first : ∃ id, heap.cell? .t = some (.sym id)
  continues : ∀ {l : Handle} {node : Pair},
    heap.cell? l = some (.pair node) → heap.Continues l node

/-- The empty list or a pair. -/
def IsList (heap : Heap) (l : Handle) : Prop :=
  l = .nil ∨ ∃ node, heap.cell? l = some (.pair node)

/-- The handles of the pairs from a handle on, up to the empty list. -/
inductive Spine (heap : Heap) : Handle → List Handle → Prop where
  | nil : Spine heap .nil []
  | cons {l : Handle} {node : Pair} {ls : List Handle} (h : heap.cell? l = some (.pair node))
      (hrest : Spine heap node.rest ls) : Spine heap l (l :: ls)

/-! ## The invariant is kept -/

theorem Continues.push (h : heap.Continues l node) (c : Cell) :
    (heap.push c).Continues l node := by
  rcases h with hend | ⟨next, hlo, hhi, hcell, hlen⟩
  · exact Or.inl hend
  · exact Or.inr ⟨next, hlo, hhi, cell?_push_of_some hcell, hlen⟩

theorem Proper.one_lt (hp : heap.Proper) (h : heap.cell? l = some (.pair node)) :
    1 < l.index := by
  obtain ⟨id, hid⟩ := hp.first
  have hpos := (cell?_bounds h).1
  rcases Nat.lt_or_ge 1 l.index with hlt | hge
  · exact hlt
  · have hl : l = .t := by
      cases l with
      | mk i => simp only [Handle.t] at *; congr 1; omega
    rw [hl, hid] at h
    cases h

theorem Proper.push_atom (hp : heap.Proper) {c : Cell} (hc : c.tag ≠ .pair) :
    (heap.push c).Proper := by
  obtain ⟨id, hid⟩ := hp.first
  refine ⟨⟨id, cell?_push_of_some hid⟩, fun {l node} h => ?_⟩
  rcases cell?_push_cases h with hold | ⟨_, hnew⟩
  · exact (hp.continues hold).push c
  · subst hnew
    exact absurd rfl hc

theorem Proper.push_pair (hp : heap.Proper) {head rest : Handle} {n : Nat}
    (hn : heap.listLength rest = .ok n) : (heap.push (.pair ⟨n + 1, head, rest⟩)).Proper := by
  obtain ⟨id, hid⟩ := hp.first
  refine ⟨⟨id, cell?_push_of_some hid⟩, fun {l node} h => ?_⟩
  rcases cell?_push_cases h with hold | ⟨hl, hnew⟩
  · exact (hp.continues hold).push _
  · injection hnew with hnode
    subst hnode
    rcases listLength_ok_cases hn with ⟨hrest, rfl⟩ | ⟨next, hnext, rfl⟩
    · exact Or.inl ⟨hrest, rfl⟩
    · have hle := (cell?_bounds hnext).2
      exact Or.inr ⟨next, hp.one_lt hnext, by simp only; omega, cell?_push_of_some hnext, rfl⟩

theorem Proper.adds {a b : Heap} (hp : a.Proper) (h : a.Adds b) : b.Proper := by
  cases h with
  | name name => exact ⟨hp.first, hp.continues⟩
  | atom hc => exact hp.push_atom hc
  | pair hn => exact hp.push_pair hn

theorem Proper.grows {a b : Heap} (hp : a.Proper) (h : a.Grows b) : b.Proper := by
  induction h with
  | refl => exact hp
  | tail _ hadds ih => exact ih.adds hadds

theorem size_fresh (names : List String) : (Task.fresh names).heap.size = 1 := rfl

theorem proper_fresh (names : List String) : (Task.fresh names).heap.Proper := by
  refine ⟨⟨_, rfl⟩, fun {l node} h => ?_⟩
  have hb := cell?_bounds h
  have hl : l = .t := by
    cases l with
    | mk i =>
        simp only [Handle.t, size_fresh] at *
        congr 1
        omega
  rw [hl] at h
  cases h

/-- No run, on whatever handles and however its calls end, leaves an improper list behind. -/
theorem proper_after (names : List String) (ops : List Operation) :
    ((Task.fresh names).after ops).heap.Proper :=
  (proper_fresh names).grows (after_grows _ ops)

/-! ## Walks end -/

/-- Induction over the lists of a heap: from the empty list, and from a rest to its pair. -/
theorem Proper.induction (hp : heap.Proper) {P : Handle → Prop} (nil : P .nil)
    (pair : ∀ l node, heap.cell? l = some (.pair node) → heap.IsList node.rest →
      P node.rest → P l) : ∀ l, heap.IsList l → P l := by
  have main : ∀ i l, l.index = i → heap.IsList l → P l := by
    intro i
    induction i using Nat.strongRecOn with
    | ind i ih =>
        intro l hi hl
        rcases hl with rfl | ⟨node, hnode⟩
        · exact nil
        · rcases hp.continues hnode with ⟨hrest, _⟩ | ⟨next, _, hlt, hnext, _⟩
          · refine pair l node hnode (Or.inl hrest) ?_
            rw [hrest]
            exact nil
          · exact pair l node hnode (Or.inr ⟨next, hnext⟩)
              (ih node.rest.index (by omega) node.rest rfl (Or.inr ⟨next, hnext⟩))
  exact fun l hl => main l.index l rfl hl

theorem Proper.isList_rest (hp : heap.Proper) (h : heap.cell? l = some (.pair node)) :
    heap.IsList node.rest := by
  rcases hp.continues h with ⟨hrest, _⟩ | ⟨next, _, _, hnext, _⟩
  · exact Or.inl hrest
  · exact Or.inr ⟨next, hnext⟩

theorem Proper.rest_lt (hp : heap.Proper) (h : heap.cell? l = some (.pair node)) :
    node.rest.index < l.index := by
  rcases hp.continues h with ⟨hrest, _⟩ | ⟨_, _, hlt, _, _⟩
  · rw [hrest]
    exact (cell?_bounds h).1
  · exact hlt

theorem Proper.listLength_rest (hp : heap.Proper) (h : heap.cell? l = some (.pair node)) :
    ∃ n, heap.listLength node.rest = .ok n ∧ node.length = n + 1 := by
  rcases hp.continues h with ⟨hrest, hlen⟩ | ⟨next, _, _, hnext, hlen⟩
  · exact ⟨0, by rw [hrest]; exact listLength_nil heap, hlen⟩
  · exact ⟨next.length, listLength_of_cell? hnext, hlen⟩

theorem Proper.length_of_rest (hp : heap.Proper) (h : heap.cell? l = some (.pair node)) {n : Nat}
    (hn : heap.listLength node.rest = .ok n) : node.length = n + 1 := by
  obtain ⟨m, hm, hlen⟩ := hp.listLength_rest h
  obtain rfl := Except.ok.inj (hm.symm.trans hn)
  exact hlen

/-- The remembered length is the number of pairs. -/
theorem Proper.listLength_spine (hp : heap.Proper) {ls : List Handle} (h : heap.Spine l ls) :
    heap.listLength l = .ok ls.length := by
  induction h with
  | nil => exact listLength_nil heap
  | cons hnode _ ih =>
      rw [listLength_of_cell? hnode, hp.length_of_rest hnode ih, List.length_cons]

/-- A list takes a box for each element, none of them the first of the heap, so its length stays
below the number of its first pair. -/
theorem Proper.length_lt (hp : heap.Proper) (h : heap.cell? l = some (.pair node)) :
    node.length < l.index := by
  have main : ∀ l, heap.IsList l → ∀ node, heap.cell? l = some (.pair node) →
      node.length < l.index := by
    refine hp.induction ?_ ?_
    · intro node hnil
      cases hnil
    · intro l node hnode _ ih node' hnode'
      obtain rfl : node = node' := by simpa [hnode] using hnode'
      have hone := hp.one_lt hnode
      rcases hp.continues hnode with ⟨_, hlen⟩ | ⟨next, _, hlt, hnext, hlen⟩
      · omega
      · have := ih next hnext
        omega
  exact main l (Or.inr ⟨node, h⟩) node h

theorem Proper.exists_spine (hp : heap.Proper) : ∀ l, heap.IsList l →
    ∃ ls, heap.Spine l ls ∧ heap.listLength l = .ok ls.length ∧
      (∀ x ∈ ls, x.index ≤ l.index) ∧ ls.Pairwise (fun x y => y.index < x.index) := by
  refine hp.induction ⟨[], .nil, rfl, by simp, List.Pairwise.nil⟩ ?_
  intro l node hnode _ ih
  obtain ⟨ls, hspine, _, hle, hdesc⟩ := ih
  have hlt := hp.rest_lt hnode
  have hwhole : heap.Spine l (l :: ls) := .cons hnode hspine
  refine ⟨l :: ls, hwhole, hp.listLength_spine hwhole, ?_, ?_⟩
  · intro x hx
    rcases List.mem_cons.mp hx with rfl | hx
    · exact Nat.le_refl _
    · have := hle x hx
      omega
  · refine List.Pairwise.cons (fun x hx => ?_) hdesc
    have := hle x hx
    omega

/-! ## Elements -/

theorem elementsWithin_nil (heap : Heap) (budget : Nat) :
    heap.elementsWithin budget .nil = .ok [] := by
  cases budget <;> rfl

theorem elementsWithin_succ {budget : Nat} (h : heap.cell? l = some (.pair node)) :
    heap.elementsWithin (budget + 1) l =
      (heap.elementsWithin budget node.rest).map (node.head :: ·) := by
  rw [elementsWithin, uncons?_of_cell? h]
  show (heap.elementsWithin budget node.rest).bind _ = _
  cases heap.elementsWithin budget node.rest <;> rfl

/-- Any two budgets that cover the number of a handle list the same elements. -/
theorem Proper.elementsWithin_congr (hp : heap.Proper) : ∀ l, heap.IsList l →
    ∀ b₁ b₂, l.index ≤ b₁ → l.index ≤ b₂ →
      heap.elementsWithin b₁ l = heap.elementsWithin b₂ l := by
  refine hp.induction ?_ ?_
  · intro b₁ b₂ _ _
    rw [elementsWithin_nil, elementsWithin_nil]
  · intro l node hnode _ ih b₁ b₂ h₁ h₂
    have hlt := hp.rest_lt hnode
    obtain ⟨a₁, rfl⟩ : ∃ a, b₁ = a + 1 := ⟨b₁ - 1, by omega⟩
    obtain ⟨a₂, rfl⟩ : ∃ a, b₂ = a + 1 := ⟨b₂ - 1, by omega⟩
    rw [elementsWithin_succ hnode, elementsWithin_succ hnode,
      ih a₁ a₂ (by omega) (by omega)]

theorem elements_nil (heap : Heap) : heap.elements .nil = .ok [] :=
  elementsWithin_nil heap heap.size

theorem Proper.elements_pair (hp : heap.Proper) (h : heap.cell? l = some (.pair node)) :
    heap.elements l = (heap.elements node.rest).map (node.head :: ·) := by
  have hle := (cell?_bounds h).2
  have hlt := hp.rest_lt h
  obtain ⟨s, hs⟩ : ∃ s, heap.size = s + 1 := ⟨heap.size - 1, by omega⟩
  rw [elements, elements, hs, elementsWithin_succ h,
    hp.elementsWithin_congr node.rest (hp.isList_rest h) s (s + 1) (by omega) (by omega)]

theorem Proper.exists_elements (hp : heap.Proper) : ∀ l, heap.IsList l →
    ∃ xs, heap.elements l = .ok xs ∧ heap.listLength l = .ok xs.length := by
  refine hp.induction ⟨[], elements_nil heap, listLength_nil heap⟩ ?_
  intro l node hnode _ ih
  obtain ⟨xs, hxs, hlen⟩ := ih
  refine ⟨node.head :: xs, ?_, ?_⟩
  · rw [hp.elements_pair hnode, hxs]
    rfl
  · rw [listLength_of_cell? hnode, hp.length_of_rest hnode hlen, List.length_cons]

end Heap

/-! ## Cursors -/

namespace Cursor

/-- The visits of a list that runs out behind these elements: each with the count from it on. -/
def countdown : List Handle → List Visit
  | [] => []
  | x :: xs => ⟨xs.length + 1, some x⟩ :: countdown xs

theorem visits_nil (heap : Heap) (k : Nat) :
    visits heap k (ofList .nil) = .ok (List.replicate k ⟨0, none⟩) := by
  induction k with
  | zero => rfl
  | succ k ih =>
      rw [visits]
      show (visits heap k (ofList .nil)).bind _ = _
      rw [ih]
      rfl

theorem remaining_ofList (heap : Heap) (l : Handle) :
    (ofList l).remaining heap = heap.listLength l := by
  show (heap.listLength l).bind (fun n => .ok (0 + n)) = _
  cases heap.listLength l with
  | error f => rfl
  | ok n =>
      show Except.ok (0 + n) = _
      rw [Nat.zero_add]

theorem next_pair {heap : Heap} {l : Handle} {node : Pair}
    (h : heap.cell? l = some (.pair node)) :
    (ofList l).next heap = .ok (some node.head, ofList node.rest) := by
  show (heap.uncons? l).bind _ = _
  rw [Heap.uncons?_of_cell? h]
  rfl

theorem visits_pair {heap : Heap} {l : Handle} {node : Pair} {k : Nat}
    (h : heap.cell? l = some (.pair node)) :
    visits heap (k + 1) (ofList l) =
      (visits heap k (ofList node.rest)).map (⟨node.length, some node.head⟩ :: ·) := by
  rw [visits, remaining_ofList, Heap.listLength_of_cell? h]
  show ((ofList l).next heap).bind _ = _
  rw [next_pair h]
  show (visits heap k (ofList node.rest)).bind _ = _
  cases visits heap k (ofList node.rest) <;> rfl

/-- A cursor gives out the elements of its list, and then nothing for as long as it is asked. -/
theorem visits_ofList {heap : Heap} (hp : heap.Proper) (k : Nat) : ∀ l, heap.IsList l →
    ∀ xs, heap.elements l = .ok xs →
      visits heap (xs.length + k) (ofList l) =
        .ok (countdown xs ++ List.replicate k ⟨0, none⟩) := by
  refine hp.induction ?_ ?_
  · intro xs hxs
    rw [Heap.elements_nil] at hxs
    obtain rfl := Except.ok.inj hxs
    rw [List.length_nil, Nat.zero_add, visits_nil]
    rfl
  · intro l node hnode hrest ih xs hxs
    obtain ⟨ys, hys, hlen⟩ := hp.exists_elements node.rest hrest
    rw [hp.elements_pair hnode, hys] at hxs
    obtain rfl := Except.ok.inj hxs
    rw [List.length_cons, Nat.add_right_comm, visits_pair hnode, ih ys hys,
      hp.length_of_rest hnode hlen]
    rfl

end Cursor

/-! ## After every run -/

theorem Heap.length_of_cell? {heap : Heap} {l : Handle} {node : Pair}
    (h : heap.cell? l = some (.pair node)) : heap.length l = .ok node.length := by
  rw [Heap.length, Heap.asList, Heap.tag_of_cell? h]
  show (heap.listLength l).mapError Failure.fault = _
  rw [Heap.listLength_of_cell? h]
  rfl

/-- After a run on any handles at all, each pair ends its list or continues with an earlier pair and
is one longer; its length stays below its number; its rests come down to the empty list; and a walk
gives out exactly as many elements as the pair says, without a fault. -/
theorem lists_proper_after_any_run (names : List String) (ops : List Operation) {i : Nat}
    {node : Pair} (h : ((Task.fresh names).after ops).heap.cell? ⟨i⟩ = some (.pair node)) :
    let heap := ((Task.fresh names).after ops).heap
    (node.rest = .nil ∧ node.length = 1 ∨
      ∃ next, 1 < node.rest.index ∧ node.rest.index < i ∧
        heap.cell? node.rest = some (.pair next) ∧ node.length = next.length + 1) ∧
    node.length ≤ i - 1 ∧
    (∃ spine, heap.Spine ⟨i⟩ spine ∧ spine.length = node.length ∧
      spine.Pairwise (fun x y => y.index < x.index)) ∧
    ∃ xs, xs.length = node.length ∧ heap.elements ⟨i⟩ = .ok xs ∧
      heap.length ⟨i⟩ = .ok node.length ∧
      ∀ k, Cursor.visits heap (node.length + k) (.ofList ⟨i⟩) =
        .ok (Cursor.countdown xs ++ List.replicate k ⟨0, none⟩) := by
  intro heap
  have hp : heap.Proper := Heap.proper_after names ops
  have hlist : heap.IsList ⟨i⟩ := Or.inr ⟨node, h⟩
  have hlen : heap.listLength ⟨i⟩ = .ok node.length := Heap.listLength_of_cell? h
  obtain ⟨spine, hspine, hspine_len, _, hdesc⟩ := hp.exists_spine ⟨i⟩ hlist
  obtain ⟨xs, hxs, hxs_len⟩ := hp.exists_elements ⟨i⟩ hlist
  have hcount : xs.length = node.length := Except.ok.inj (hxs_len.symm.trans hlen)
  refine ⟨hp.continues h, ?_, ⟨spine, hspine, ?_, hdesc⟩, xs, hcount, hxs,
    Heap.length_of_cell? h, fun k => ?_⟩
  · have hlt : node.length < i := hp.length_lt h
    omega
  · exact Except.ok.inj (hspine_len.symm.trans hlen)
  · rw [← hcount]
    exact Cursor.visits_ofList hp k ⟨i⟩ hlist xs hxs

/-- A run with heads from nowhere, a rest that is not there and an integer for a tail. -/
def strayRun : List Operation :=
  [.newAtom (.int 5), .enter (.cons ⟨90⟩ ⟨2⟩), .newPair .t ⟨91⟩, .newPair .t ⟨2⟩,
    .place ⟨#["x", "y"]⟩ (.sym "y"), .listOnto [⟨92⟩] ⟨4⟩]

theorem lists_proper_after_stray_run :
    ((Task.fresh ["a"]).after strayRun).heap.cell? ⟨6⟩ = some (.pair ⟨3, ⟨92⟩, ⟨4⟩⟩) ∧
    ∃ spine, ((Task.fresh ["a"]).after strayRun).heap.Spine ⟨6⟩ spine ∧ spine.length = 3 ∧
      spine.Pairwise (fun x y => y.index < x.index) := by
  have hcell : ((Task.fresh ["a"]).after strayRun).heap.cell? ⟨6⟩ =
      some (.pair ⟨3, ⟨92⟩, ⟨4⟩⟩) := by decide
  exact ⟨hcell, (lists_proper_after_any_run ["a"] strayRun hcell).2.2.1⟩

end LispHeap
