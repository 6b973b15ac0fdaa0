import Mathlib.Data.Finset.Card
import LispHeap.Script.Machine
import LispHeap.Proofs.Lasting

/-!
# Symbols and names are one to one

A table of names is used in two directions, from a name to its number and back, and over a long
time: numbers that were given early are compared with numbers that are given late, and looked up
when the table has long since grown. `interning_is_bijective` settles what these uses rely on for a
run of internings as a whole. The table is the list of the names in the order of their first
occurrence, each number is a position in it, and the two directions are inverse to each other at all
times.

The order is a matter of one induction, on the run from its end: the last name is already there, and
nothing happens, or it is new, and then it comes last in the list of first occurrences too. That
numbers last follows from the table growing only at its end, and that they are compared like names
from no name being there twice.

A table that searches for a name has one collection that cannot disagree with itself. An
`IndexedTable` looks the name up in a map, and then two collections have to be kept in step. They
are, and it gives out the same numbers.

On a heap the run of internings is broken up by operations of all kinds, on whatever handles. None
of them does anything to the table but intern, so the same holds of the symbols in boxes.
-/

namespace LispHeap

namespace SymbolTable

variable {table : SymbolTable} {id : SymbolId} {name : String}

/-- Looking for a name is the inverse of looking up a number. -/
theorem Distinct.find?_eq_some_iff (hd : table.Distinct) :
    table.find? name = some id ↔ table.name? id = some name := by
  refine ⟨name?_of_find?, fun h => ?_⟩
  cases hf : table.find? name with
  | none =>
      have hmem : name ∈ table.names.toList := Array.mem_toList_iff.mpr (Array.mem_of_getElem? h)
      exact absurd hmem (not_mem_of_not_find? hf)
  | some k => rw [(hd.id_eq_iff (name?_of_find? hf) h).mpr rfl]

theorem toList_intern (table : SymbolTable) (name : String) :
    (table.intern name).2.names.toList =
      if name ∈ table.names.toList then table.names.toList else table.names.toList ++ [name] := by
  cases hf : table.find? name with
  | some id =>
      have hmem : name ∈ table.names.toList :=
        Array.mem_toList_iff.mpr (Array.mem_of_getElem? (name?_of_find? hf))
      rw [intern_of_find? hf, if_pos hmem]
  | none => rw [intern_of_not_find? hf, if_neg (not_mem_of_not_find? hf), Array.toList_push]

theorem internAll_append (table : SymbolTable) (xs ys : List String) :
    table.internAll (xs ++ ys) = (table.internAll xs).internAll ys :=
  List.foldl_append

theorem internAll_concat (table : SymbolTable) (names : List String) (name : String) :
    table.internAll (names ++ [name]) = ((table.internAll names).intern name).2 :=
  table.internAll_append names [name]

theorem name?_internAll_of_some (h : table.name? id = some name) (names : List String) :
    (table.internAll names).name? id = some name := by
  induction names generalizing table with
  | nil => exact h
  | cons other names ih => exact ih (name?_intern_of_some h)

/-- The names are there in the order of their first occurrence. -/
theorem toList_internAll (names : List String) :
    (({} : SymbolTable).internAll names).names.toList = names.eraseDups := by
  induction names using List.reverseRecOn with
  | nil => rfl
  | append_singleton names name ih =>
      rw [internAll_concat, toList_intern, ih, List.eraseDups_append]
      by_cases hmem : name ∈ names
      · have hold : [name].removeAll names = [] := by simp [List.removeAll, hmem]
        rw [if_pos (List.mem_eraseDups.mpr hmem), hold, List.eraseDups_nil, List.append_nil]
      · have hnew : [name].removeAll names = [name] := by simp [List.removeAll, hmem]
        rw [if_neg fun h => hmem (List.mem_eraseDups.mp h), hnew]
        rfl

theorem size_internAll (names : List String) :
    (({} : SymbolTable).internAll names).size = names.toFinset.card := by
  have hnodup : names.eraseDups.Nodup := toList_internAll names ▸ distinct_internAll names
  have hsame : names.eraseDups.toFinset = names.toFinset := by
    ext name
    rw [List.mem_toFinset, List.mem_toFinset, List.mem_eraseDups]
  rw [size, ← Array.length_toList, toList_internAll, ← List.toFinset_card_of_nodup hnodup, hsame]

end SymbolTable

/-! ## Moments of a run -/

/-- What a name is given at a moment of a run of internings, when the first `k` of them are done. -/
def givenAt (names : List String) (k : Nat) (name : String) : SymbolId :=
  ((({} : SymbolTable).internAll (names.take k)).intern name).1

section Moments

variable {names : List String} {k : Nat} {name : String}

theorem name?_givenAt (h : names[k]? = some name) {m : Nat} (hm : k < m) :
    (({} : SymbolTable).internAll (names.take m)).name? (givenAt names k name) = some name := by
  obtain ⟨d, rfl⟩ : ∃ d, m = k + 1 + d := ⟨m - (k + 1), by omega⟩
  rw [List.take_add, SymbolTable.internAll_append, List.take_add_one, h, Option.toList_some,
    SymbolTable.internAll_concat]
  exact SymbolTable.name?_internAll_of_some (SymbolTable.name?_intern_self _ name) _

/-- A name is given its position among the first occurrences, whenever it comes up. -/
theorem givenAt_eq (h : names[k]? = some name) :
    givenAt names k name = ⟨names.eraseDups.idxOf name⟩ := by
  obtain ⟨hlt, _⟩ := List.getElem?_eq_some_iff.mp h
  have hname := name?_givenAt h hlt
  rw [List.take_length] at hname
  have hfind := (SymbolTable.distinct_internAll names).find?_eq_some_iff.mpr hname
  rw [SymbolTable.find?, SymbolTable.toList_internAll] at hfind
  obtain ⟨i, hi, hgiven⟩ := Option.map_eq_some_iff.mp hfind
  rw [← hgiven, List.idxOf_eq_getD_idxOf?, hi, Option.getD_some]

theorem givenAt_eq_iff {i j : Nat} {a b : String} (ha : names[i]? = some a)
    (hb : names[j]? = some b) : givenAt names i a = givenAt names j b ↔ a = b := by
  obtain ⟨hi, _⟩ := List.getElem?_eq_some_iff.mp ha
  obtain ⟨hj, _⟩ := List.getElem?_eq_some_iff.mp hb
  have hname := name?_givenAt ha hi
  have hother := name?_givenAt hb hj
  rw [List.take_length] at hname hother
  exact (SymbolTable.distinct_internAll names).id_eq_iff hname hother

end Moments

/-! ## An index beside the names -/

/-- A table that need not search: beside the names it keeps a map from each to its number. -/
structure IndexedTable where
  names : Array String := #[]
  index : Std.HashMap String Nat := ∅

namespace IndexedTable

variable {indexed : IndexedTable} {table : SymbolTable}

/-- The number of a name, found in the map or given and noted there. -/
def intern (indexed : IndexedTable) (name : String) : SymbolId × IndexedTable :=
  match indexed.index[name]? with
  | some i => (⟨i⟩, indexed)
  | none =>
    let i := indexed.names.size
    (⟨i⟩, ⟨indexed.names.push name, indexed.index.insert name i⟩)

/-- The table in which all these names have numbers, given in this order. -/
def internAll (indexed : IndexedTable) (names : List String) : IndexedTable :=
  names.foldl (fun t name => (t.intern name).2) indexed

/-- The map is the inverse of the array. -/
def Consistent (indexed : IndexedTable) : Prop :=
  ∀ (name : String) (i : Nat), indexed.index[name]? = some i ↔ indexed.names[i]? = some name

theorem Consistent.intern (hc : indexed.Consistent) (name : String) :
    (indexed.intern name).2.Consistent := by
  rw [IndexedTable.intern]
  cases hname : indexed.index[name]? with
  | some i => exact hc
  | none =>
      intro other i
      show (indexed.index.insert name indexed.names.size)[other]? = some i ↔
        (indexed.names.push name)[i]? = some other
      rw [Std.HashMap.getElem?_insert, Array.getElem?_push]
      by_cases hother : name = other
      · -- The name was nowhere, so its only place is the new one.
        subst hother
        by_cases hi : i = indexed.names.size
        · simp [hi]
        · have hnone : indexed.names[i]? ≠ some name := by
            rw [ne_eq, ← hc, hname]
            exact nofun
          simp [hi, hnone, eq_comm]
      · -- Another name has the places it had, and the new one was none of them.
        by_cases hi : i = indexed.names.size
        · have hnone : indexed.index[other]? ≠ some i := by
            rw [ne_eq, hc, hi, Array.getElem?_eq_none (Nat.le_refl _)]
            exact nofun
          simp [hother, hi, hi ▸ hnone]
        · simp [hother, hi, hc other i]

/-- Two tables that hold the same names, of which one has an index. -/
structure Mirrors (indexed : IndexedTable) (table : SymbolTable) : Prop where
  names : indexed.names = table.names
  consistent : indexed.Consistent

/-- Interning gives the same with an index as without. -/
theorem Mirrors.intern (h : indexed.Mirrors table) (hd : table.Distinct) (name : String) :
    (indexed.intern name).1 = (table.intern name).1 ∧
      (indexed.intern name).2.Mirrors (table.intern name).2 := by
  have hfind : table.find? name = indexed.index[name]?.map SymbolId.mk := by
    cases hname : indexed.index[name]? with
    | some i =>
        have hi : table.name? ⟨i⟩ = some name := by
          rw [SymbolTable.name?, ← h.names]
          exact (h.consistent name i).mp hname
        exact hd.find?_eq_some_iff.mpr hi
    | none =>
        cases hf : table.find? name with
        | none => rfl
        | some id =>
            have hid := SymbolTable.name?_of_find? hf
            rw [SymbolTable.name?, ← h.names, ← h.consistent, hname] at hid
            cases hid
  have hkept := h.consistent.intern name
  rw [IndexedTable.intern] at hkept ⊢
  cases hname : indexed.index[name]? with
  | some i =>
      rw [hname] at hfind
      rw [SymbolTable.intern_of_find? hfind]
      exact ⟨rfl, h⟩
  | none =>
      rw [hname] at hfind hkept
      rw [SymbolTable.intern_of_not_find? hfind]
      exact ⟨by rw [h.names, SymbolTable.size], by rw [h.names], hkept⟩

theorem mirrors_internAll (names : List String) :
    (({} : IndexedTable).internAll names).Mirrors (({} : SymbolTable).internAll names) := by
  have main : ∀ (names : List String) (indexed : IndexedTable) (table : SymbolTable),
      indexed.Mirrors table → table.Distinct →
        (indexed.internAll names).Mirrors (table.internAll names) := by
    intro names
    induction names with
    | nil => exact fun _ _ h _ => h
    | cons name names ih =>
        exact fun indexed table h hd => ih _ _ (h.intern hd name).2 (hd.intern name)
  refine main names {} {} ⟨rfl, fun name i => ?_⟩ List.nodup_nil
  simp

end IndexedTable

/-! ## Symbols in boxes -/

theorem Heap.Grows.distinct {heap later : Heap} (h : heap.Grows later)
    (hd : heap.symbols.Distinct) : later.symbols.Distinct := by
  induction h with
  | refl => exact hd
  | tail _ hadds ih =>
      cases hadds with
      | name name => exact ih.intern name
      | atom _ | pair _ => exact ih

/-- A symbol box of a run from a new heap and the name that it was made from: `t`, or what a call
for a new symbol has returned. -/
inductive SymbolMade (names : List String) : List Operation → Handle → String → Prop where
  | t (ops : List Operation) : SymbolMade names ops .t "t"
  | new (earlier later : List Operation) {name : String} {v : Handle}
      (h : ((Operation.newAtom (.sym name)).perform ((Task.fresh names).after earlier)).1 =
        .returned v) : SymbolMade names (earlier ++ .newAtom (.sym name) :: later) v name

/-- A symbol box keeps the number that its name has in the table of the heap. -/
theorem SymbolMade.named {names : List String} {ops : List Operation} {v : Handle} {name : String}
    (h : SymbolMade names ops v name) :
    ∃ id, ((Task.fresh names).after ops).heap.cell? v = some (.sym id) ∧
      ((Task.fresh names).after ops).heap.symbols.name? id = some name := by
  cases h with
  | t =>
      obtain ⟨id, hid, hname⟩ := (Heap.sound_fresh names).truth
      have hgrows := after_grows (Task.fresh names) ops
      exact ⟨id, hgrows.cell?_of_some hid, hgrows.name?_of_some hname⟩
  | new earlier later h =>
      rw [Task.after_append]
      generalize (Task.fresh names).after earlier = task at h ⊢
      have hafter : task.after (.newAtom (.sym name) :: later) =
          ((task.naming (.sym name)).place (.sym (task.heap.symbols.intern name).1)).after
            later := by
        show (Outcome.ofOp _ (Op.newAtom (.sym name) task)).2.after later = _
        rw [newAtom_eq]
        rfl
      replace h : (Outcome.ofOp .returned (Op.newAtom (.sym name) task)).1 = _ := h
      rw [newAtom_eq] at h
      obtain rfl : ⟨task.heap.size + 1⟩ = v := Call.Value.handle.inj (Outcome.value.inj h)
      have hgrows := after_grows ((task.naming (.sym name)).place
        (.sym (task.heap.symbols.intern name).1)) later
      rw [hafter]
      refine ⟨_, hgrows.cell?_of_some (Heap.cell?_push_self _ _), hgrows.name?_of_some ?_⟩
      exact SymbolTable.name?_intern_self task.heap.symbols name

theorem SymbolMade.same {names : List String} {ops : List Operation} {v w : Handle}
    {a b : String} (hv : SymbolMade names ops v a) (hw : SymbolMade names ops w b) :
    let heap := ((Task.fresh names).after ops).heap
    ∃ i j, heap.cell? v = some (.sym i) ∧ heap.cell? w = some (.sym j) ∧
      Script.Run.sameContents (heap.cell? v) (heap.cell? w) = some (a == b) := by
  intro heap
  obtain ⟨i, hi, hname⟩ := hv.named
  obtain ⟨j, hj, hother⟩ := hw.named
  have hd : heap.symbols.Distinct :=
    (after_grows _ ops).distinct (Heap.sound_fresh names).distinct
  have hsame : (i == j) = (a == b) := by
    rw [Bool.eq_iff_iff, beq_iff_eq, beq_iff_eq]
    exact hd.id_eq_iff hname hother
  refine ⟨i, j, hi, hj, ?_⟩
  rw [hi, hj, ← hsame]
  rfl

/-- Of every run of internings from an empty table: what is given at two moments is the same exactly
if the names are, byte for byte; no name is there twice, and the table read from names to numbers is
the inverse of the table read from numbers to names; a map kept beside the names is that inverse
too, and interning by the map gives the same numbers; names are numbered in the order of their first
occurrence, and counted once; and a number has its name at every later moment. And on a heap made
with such a table, two symbol boxes that were made at any moments of a run, on whatever handles, are
equal exactly if their names are. -/
theorem interning_is_bijective (names : List String) :
    (∀ i j a b, names[i]? = some a → names[j]? = some b →
      (givenAt names i a = givenAt names j b ↔ a.toUTF8 = b.toUTF8)) ∧
    let table := ({} : SymbolTable).internAll names
    let indexed := ({} : IndexedTable).internAll names
    table.names.toList.Nodup ∧
    (∀ name id, table.find? name = some id ↔ table.name? id = some name) ∧
    (indexed.names = table.names ∧
      (∀ (name : String) (i : Nat),
        indexed.index[name]? = some i ↔ indexed.names[i]? = some name) ∧
      ∀ name, (indexed.intern name).1 = (table.intern name).1) ∧
    table.names.toList = names.eraseDups ∧
    table.size = names.toFinset.card ∧
    (∀ k name, names[k]? = some name →
      givenAt names k name = ⟨names.eraseDups.idxOf name⟩ ∧
      ∀ m, k < m → (({} : SymbolTable).internAll (names.take m)).name? (givenAt names k name) =
        some name) ∧
    ∀ ops v w a b, SymbolMade names ops v a → SymbolMade names ops w b →
      let heap := ((Task.fresh names).after ops).heap
      ∃ i j, heap.cell? v = some (.sym i) ∧ heap.cell? w = some (.sym j) ∧
        Script.Run.sameContents (heap.cell? v) (heap.cell? w) = some (a == b) := by
  refine ⟨fun i j a b ha hb => ?_, ?_⟩
  · rw [givenAt_eq_iff ha hb, String.toUTF8, String.toUTF8, String.toByteArray_inj]
  intro table indexed
  have hd : table.Distinct := SymbolTable.distinct_internAll names
  have hmirrors : indexed.Mirrors table := IndexedTable.mirrors_internAll names
  exact ⟨hd, fun name id => hd.find?_eq_some_iff,
    ⟨hmirrors.names, hmirrors.consistent, fun name => (hmirrors.intern hd name).1⟩,
    SymbolTable.toList_internAll names, SymbolTable.size_internAll names,
    fun k name hk => ⟨givenAt_eq hk, fun m => name?_givenAt hk⟩,
    fun ops v w a b hv hw => hv.same hw⟩

/-- Makes a symbol of a known name, an integer, and a symbol of the name that `t` has. -/
def namesakeRun : List Operation :=
  [.newAtom (.sym "x"), .newAtom (.int 1), .newAtom (.sym "t")]

theorem namesake_of_t_is_equal :
    SymbolMade ["x", "y", "x"] namesakeRun .t "t" ∧
    SymbolMade ["x", "y", "x"] namesakeRun ⟨4⟩ "t" ∧
    Script.Run.sameContents (((Task.fresh ["x", "y", "x"]).after namesakeRun).heap.cell? .t)
      (((Task.fresh ["x", "y", "x"]).after namesakeRun).heap.cell? ⟨4⟩) = some true ∧
    givenAt ["x", "y", "x"] 0 "x" = givenAt ["x", "y", "x"] 2 "x" := by
  have hfirst : SymbolMade ["x", "y", "x"] namesakeRun .t "t" := .t namesakeRun
  have hsecond : SymbolMade ["x", "y", "x"] namesakeRun ⟨4⟩ "t" :=
    .new [.newAtom (.sym "x"), .newAtom (.int 1)] [] (by decide +kernel)
  obtain ⟨hgiven, _, _, _, _, _, _, hboxes⟩ := interning_is_bijective ["x", "y", "x"]
  obtain ⟨_, _, _, _, hsame⟩ := hboxes namesakeRun .t ⟨4⟩ "t" "t" hfirst hsecond
  exact ⟨hfirst, hsecond, hsame, (hgiven 0 2 "x" "x" rfl rfl).mpr rfl⟩

end LispHeap
