import LispHeap.Heap.Lists

/-!
# Reading a heap that grows

Every question to a heap ends in `cell?`, and a heap changes in two ways only: a box is pushed, or a
name is interned. This file says what `cell?` answers after either, and what the other readers
answer in terms of `cell?`. Nothing behind it has to open a reader or an array again.

The one case worth a thought is the pushed box itself. Its number is the old size plus one, so a
handle that found a box before the push still finds the same one, and a handle that finds a box
after it found it before or is that number.
-/

namespace LispHeap

theorem Handle.isNil_iff {v : Handle} : v.isNil = true ↔ v = .nil := by
  cases v with
  | mk i => simp [Handle.isNil, Handle.nil]

namespace Heap

variable {heap : Heap} {v l : Handle} {c d : Cell}

/-! ## The size of a heap -/

@[simp]
theorem size_push (heap : Heap) (d : Cell) : (heap.push d).size = heap.size + 1 := by
  simp [push, size]

@[simp]
theorem size_intern (heap : Heap) (name : String) : (heap.intern name).2.size = heap.size := rfl

/-! ## Boxes by number -/

theorem cell?_bounds (h : heap.cell? v = some c) : 0 < v.index ∧ v.index ≤ heap.size := by
  unfold cell? at h
  split at h
  · cases h
  · next i hi =>
      obtain ⟨hlt, _⟩ := Array.getElem?_eq_some_iff.mp h
      rw [size]
      omega

theorem exists_cell? (hpos : 0 < v.index) (hle : v.index ≤ heap.size) :
    ∃ c, heap.cell? v = some c := by
  unfold cell?
  split
  · next h0 => omega
  · next i hi =>
      have hlt : i < heap.cells.size := by rw [size] at hle; omega
      exact ⟨heap.cells[i], Array.getElem?_eq_getElem hlt⟩

theorem mem_cells_iff : c ∈ heap.cells.toList ↔ ∃ v, heap.cell? v = some c := by
  constructor
  · intro h
    obtain ⟨i, hi⟩ := List.mem_iff_getElem?.mp h
    rw [Array.getElem?_toList] at hi
    exact ⟨⟨i + 1⟩, hi⟩
  · rintro ⟨v, hv⟩
    unfold cell? at hv
    split at hv
    · cases hv
    · exact Array.mem_toList_iff.mpr (Array.mem_of_getElem? hv)

theorem ne_nil_of_cell? (h : heap.cell? v = some c) : v ≠ .nil := by
  rintro rfl
  cases h

theorem cell?_push_self (heap : Heap) (d : Cell) :
    (heap.push d).cell? ⟨heap.size + 1⟩ = some d := by
  simp [cell?, push, size]

theorem cell?_push_of_some (h : heap.cell? v = some c) : (heap.push d).cell? v = some c := by
  unfold cell? at h ⊢
  split at h
  · cases h
  · next i hi =>
      obtain ⟨hlt, _⟩ := Array.getElem?_eq_some_iff.mp h
      simp only [push]
      rw [Array.getElem?_push_lt hlt, ← h, Array.getElem?_eq_getElem hlt]

/-- A box that is there after a push was there before, or is the one that was pushed. -/
theorem cell?_push_cases (h : (heap.push d).cell? v = some c) :
    heap.cell? v = some c ∨ v.index = heap.size + 1 ∧ c = d := by
  have hb := cell?_bounds h
  rw [size_push] at hb
  rcases Nat.lt_or_ge heap.size v.index with hlt | hge
  · have hv : v = ⟨heap.size + 1⟩ := by
      cases v with
      | mk i => congr 1; simp only at hlt hb; omega
    subst hv
    rw [cell?_push_self] at h
    exact Or.inr ⟨rfl, (Option.some.inj h).symm⟩
  · obtain ⟨e, he⟩ := exists_cell? hb.1 hge
    rw [cell?_push_of_some he] at h
    exact Or.inl (he.trans h)

@[simp]
theorem cell?_intern (heap : Heap) (name : String) (v : Handle) :
    (heap.intern name).2.cell? v = heap.cell? v := rfl

/-! ## The other readers -/

theorem cell_of_cell? (h : heap.cell? v = some c) : heap.cell v = .ok c := by
  simp only [cell, h]

theorem view_nil (heap : Heap) : heap.view .nil = .ok none := rfl

theorem view_of_cell? (h : heap.cell? v = some c) : heap.view v = .ok (some c) := by
  have hv : ¬ v.isNil = true := fun hn => ne_nil_of_cell? h (Handle.isNil_iff.mp hn)
  rw [view, if_neg hv, cell_of_cell? h]
  rfl

/-- A look that answers is a look at the empty list or at a box. -/
theorem view_ok_cases {r : Option Cell} (h : heap.view v = .ok r) :
    v = .nil ∧ r = none ∨ ∃ c, heap.cell? v = some c ∧ r = some c := by
  by_cases hv : v.isNil = true
  · rw [view, if_pos hv] at h
    exact Or.inl ⟨Handle.isNil_iff.mp hv, (Except.ok.inj h).symm⟩
  · rw [view, if_neg hv, cell] at h
    cases hc : heap.cell? v with
    | none => rw [hc] at h; cases h
    | some c =>
        rw [hc] at h
        exact Or.inr ⟨c, rfl, (Except.ok.inj h).symm⟩

theorem view_error {f : Fault} (h : heap.view v = .error f) :
    f = .unallocated v ∧ v ≠ .nil ∧ heap.cell? v = none := by
  by_cases hv : v.isNil = true
  · rw [view, if_pos hv] at h
    cases h
  · rw [view, if_neg hv, cell] at h
    cases hc : heap.cell? v with
    | none =>
        rw [hc] at h
        exact ⟨(Except.error.inj h).symm, fun hn => hv (Handle.isNil_iff.mpr hn), rfl⟩
    | some c => rw [hc] at h; cases h

theorem tag_nil (heap : Heap) : heap.tag .nil = .ok none := rfl

theorem tag_of_cell? (h : heap.cell? v = some c) : heap.tag v = .ok (some c.tag) := by
  rw [tag, view_of_cell? h]
  rfl

theorem tag_ok_cases {r : Option Tag} (h : heap.tag v = .ok r) :
    v = .nil ∧ r = none ∨ ∃ c, heap.cell? v = some c ∧ r = some c.tag := by
  rw [tag] at h
  cases hv : heap.view v with
  | error f => rw [hv] at h; cases h
  | ok w =>
      rw [hv] at h
      have hr := Except.ok.inj h
      rcases view_ok_cases hv with ⟨hnil, rfl⟩ | ⟨c, hc, rfl⟩
      · exact Or.inl ⟨hnil, hr.symm⟩
      · exact Or.inr ⟨c, hc, hr.symm⟩

theorem symbolName_of_name? {id : SymbolId} {name : String}
    (h : heap.symbols.name? id = some name) : heap.symbolName id = .ok name := by
  simp only [symbolName, h]

theorem symbolName_error {id : SymbolId} {f : Fault} (h : heap.symbolName id = .error f) :
    f = .unknownSymbol heap.symbols.size id ∧ heap.symbols.size ≤ id.index := by
  rw [symbolName] at h
  cases hid : heap.symbols.name? id with
  | none =>
      rw [hid] at h
      exact ⟨(Except.error.inj h).symm, Array.getElem?_eq_none_iff.mp hid⟩
  | some name => rw [hid] at h; cases h

theorem pairAt_of_cell? {node : Pair} (h : heap.cell? v = some (.pair node)) :
    heap.pairAt v = .ok node := by
  rw [pairAt, cell_of_cell? h]
  rfl

theorem pairAt_ok {node : Pair} (h : heap.pairAt v = .ok node) :
    heap.cell? v = some (.pair node) := by
  rw [pairAt, cell] at h
  cases hc : heap.cell? v with
  | none => rw [hc] at h; cases h
  | some c =>
      rw [hc] at h
      cases c with
      | pair node' => rw [Except.ok.inj h]
      | int value => cases h
      | sym id => cases h
      | str text => cases h

theorem listLength_nil (heap : Heap) : heap.listLength .nil = .ok 0 := rfl

theorem listLength_of_cell? {node : Pair} (h : heap.cell? l = some (.pair node)) :
    heap.listLength l = .ok node.length := by
  have hl : ¬ l.isNil = true := fun hn => ne_nil_of_cell? h (Handle.isNil_iff.mp hn)
  rw [listLength, if_neg hl, pairAt_of_cell? h]
  rfl

theorem listLength_ok_cases {n : Nat} (h : heap.listLength l = .ok n) :
    l = .nil ∧ n = 0 ∨ ∃ node, heap.cell? l = some (.pair node) ∧ n = node.length := by
  by_cases hl : l.isNil = true
  · rw [listLength, if_pos hl] at h
    exact Or.inl ⟨Handle.isNil_iff.mp hl, (Except.ok.inj h).symm⟩
  · rw [listLength, if_neg hl] at h
    cases hp : heap.pairAt l with
    | error f => rw [hp] at h; cases h
    | ok node =>
        rw [hp] at h
        exact Or.inr ⟨node, pairAt_ok hp, (Except.ok.inj h).symm⟩

theorem uncons?_of_cell? {node : Pair} (h : heap.cell? l = some (.pair node)) :
    heap.uncons? l = .ok (some (node.head, node.rest)) := by
  have hl : ¬ l.isNil = true := fun hn => ne_nil_of_cell? h (Handle.isNil_iff.mp hn)
  rw [uncons?, if_neg hl, pairAt_of_cell? h]
  rfl

end Heap

end LispHeap
