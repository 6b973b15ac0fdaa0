import LispHeap.SymbolTable

/-!
# Names and their numbers

A table of names only ever gets longer at its end, so a number keeps the name it was given for. And
a name is added only when it is not there, so no name has two numbers. These two facts are all that
symbols need: the first says what a symbol prints as later on, the second that comparing numbers is
comparing names.
-/

namespace LispHeap

namespace SymbolTable

variable {table : SymbolTable} {id i j : SymbolId} {name other : String}

/-- No name is there twice. -/
def Distinct (table : SymbolTable) : Prop := table.names.toList.Nodup

theorem intern_of_find? (h : table.find? name = some id) : table.intern name = (id, table) := by
  rw [intern, h]

theorem intern_of_not_find? (h : table.find? name = none) :
    table.intern name = (⟨table.size⟩, ⟨table.names.push name⟩) := by
  rw [intern, h]

theorem name?_of_find? (h : table.find? name = some id) : table.name? id = some name := by
  rw [find?, Option.map_eq_some_iff] at h
  obtain ⟨k, hk, rfl⟩ := h
  obtain ⟨hlt, hget, _⟩ := List.idxOf?_eq_some_iff.mp hk
  show table.names[k]? = some name
  rw [← Array.getElem?_toList, List.getElem?_eq_getElem hlt, hget]

theorem not_mem_of_not_find? (h : table.find? name = none) : name ∉ table.names.toList := by
  rw [find?, Option.map_eq_none_iff] at h
  exact List.idxOf?_eq_none_iff.mp h

theorem index_lt_of_name? (h : table.name? id = some name) : id.index < table.size := by
  obtain ⟨hlt, _⟩ := Array.getElem?_eq_some_iff.mp h
  exact hlt

theorem exists_name? (h : id.index < table.size) : ∃ name, table.name? id = some name :=
  ⟨table.names[id.index], Array.getElem?_eq_getElem h⟩

/-- The number that a name is given has that name. -/
theorem name?_intern_self (table : SymbolTable) (name : String) :
    (table.intern name).2.name? (table.intern name).1 = some name := by
  cases h : table.find? name with
  | some id =>
      rw [intern_of_find? h]
      exact name?_of_find? h
  | none =>
      rw [intern_of_not_find? h]
      exact Array.getElem?_push_size

/-- A number keeps its name whatever is interned later. -/
theorem name?_intern_of_some (h : table.name? id = some name) :
    (table.intern other).2.name? id = some name := by
  cases hf : table.find? other with
  | some k =>
      rw [intern_of_find? hf]
      exact h
  | none =>
      rw [intern_of_not_find? hf]
      have hlt : id.index < table.names.size := index_lt_of_name? h
      show (table.names.push other)[id.index]? = some name
      rw [Array.getElem?_push_lt hlt, ← h, name?, Array.getElem?_eq_getElem hlt]

theorem size_le_intern (table : SymbolTable) (name : String) :
    table.size ≤ (table.intern name).2.size := by
  cases h : table.find? name with
  | some id => exact Nat.le_of_eq (by rw [intern_of_find? h])
  | none =>
      rw [intern_of_not_find? h]
      show table.names.size ≤ (table.names.push name).size
      rw [Array.size_push]
      omega

theorem Distinct.intern (hd : table.Distinct) (name : String) :
    (table.intern name).2.Distinct := by
  cases h : table.find? name with
  | some id =>
      rw [intern_of_find? h]
      exact hd
  | none =>
      rw [intern_of_not_find? h]
      show (table.names.push name).toList.Nodup
      rw [Array.toList_push, List.nodup_append]
      refine ⟨hd, by simp, fun a ha b hb hab => ?_⟩
      rw [List.mem_singleton] at hb
      exact not_mem_of_not_find? h (hb ▸ hab ▸ ha)

theorem distinct_internAll (names : List String) :
    (({} : SymbolTable).internAll names).Distinct := by
  have main : ∀ (names : List String) (table : SymbolTable), table.Distinct →
      (table.internAll names).Distinct := by
    intro names
    induction names with
    | nil => exact fun _ hd => hd
    | cons name names ih => exact fun table hd => ih _ (hd.intern name)
  exact main names {} List.nodup_nil

/-- Symbols of one table are equal exactly if their names are. -/
theorem Distinct.id_eq_iff (hd : table.Distinct) (hi : table.name? i = some name)
    (hj : table.name? j = some other) : i = j ↔ name = other := by
  constructor
  · rintro rfl
    exact Option.some.inj (hi.symm.trans hj)
  · rintro rfl
    have hlt : i.index < table.names.toList.length := index_lt_of_name? hi
    have hget : table.names.toList[i.index]? = table.names.toList[j.index]? := by
      rw [Array.getElem?_toList, Array.getElem?_toList]
      exact hi.trans hj.symm
    have hindex : i.index = j.index := (List.getElem?_inj hlt hd).mp hget
    cases i
    cases j
    exact congrArg SymbolId.mk hindex

end SymbolTable

end LispHeap
