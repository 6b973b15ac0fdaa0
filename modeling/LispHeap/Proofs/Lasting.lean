import LispHeap.Proofs.Journal
import LispHeap.Proofs.Limits
import LispHeap.Proofs.Sound

/-!
# What was seen once is seen again

Boxes and names are only ever added. So a question that a heap has answered is answered the same by
every heap that it grows into: the boxes and names that the answer was read off are still there. An
error is an answer in this sense. A fault is not, because a box that is missing now may be placed
later, and then the same question gets somewhere.

The relations here say this for one question at a time. `Lasts` compares the answers of two heaps
and `Repeats` two ways of writing to a sink, and both are closed under doing one thing after
another. So each reader takes one step for each reader that it uses. The exceptions are the walks,
which carry a budget that grows with the heap: there the induction is on the smaller budget, and a
walk that has ended within it does not notice the larger one.
-/

namespace LispHeap

/-! ## The names get more at their end -/

theorem SymbolTable.prefix_intern (table : SymbolTable) (name : String) :
    table.names.toList <+: (table.intern name).2.names.toList := by
  cases h : table.find? name with
  | some id => exact ⟨[], by rw [intern_of_find? h, List.append_nil]⟩
  | none =>
      rw [intern_of_not_find? h]
      show table.names.toList <+: (table.names.push name).toList
      rw [Array.toList_push]
      exact List.prefix_append _ _

namespace Heap.Grows

variable {heap later : Heap}

theorem names_prefix (h : heap.Grows later) :
    heap.symbols.names.toList <+: later.symbols.names.toList := by
  induction h with
  | refl => exact List.prefix_rfl
  | tail _ hadds ih =>
      cases hadds with
      | name name => exact ih.trans (SymbolTable.prefix_intern _ name)
      | atom _ | pair _ => exact ih

theorem symbols_size_le (h : heap.Grows later) : heap.symbols.size ≤ later.symbols.size := by
  have hle := h.names_prefix.length_le
  rw [Array.length_toList, Array.length_toList] at hle
  exact hle

theorem name?_of_some (h : heap.Grows later) {id : SymbolId} {name : String}
    (hid : heap.symbols.name? id = some name) : later.symbols.name? id = some name := by
  obtain ⟨added, hadded⟩ := h.names_prefix
  have hlt : id.index < heap.symbols.names.toList.length := SymbolTable.index_lt_of_name? hid
  rw [SymbolTable.name?, ← Array.getElem?_toList] at hid ⊢
  rw [← hadded, List.getElem?_append_left hlt, hid]

end Heap.Grows

/-! ## Answers that last -/

/-- No fault is an answer. -/
def Fault.Fatal (_ : Fault) : Prop := True

/-- A refusal is an answer, a fault is none. -/
def Failure.Fatal : Failure → Prop
  | .fault _ => True
  | .refused _ => False

/-- The earlier answer was none, or the later one is the same. -/
inductive Lasts {ε α : Type} (fatal : ε → Prop) (earlier later : Except ε α) : Prop where
  | lost {e : ε} (he : fatal e) (h : earlier = .error e)
  | same (h : later = earlier)

namespace Lasts

variable {ε α β : Type} {fatal : ε → Prop} {x y : Except ε α}

theorem rfl : Lasts fatal x x := .same (.refl x)

theorem bind (h : Lasts fatal x y) {f g : α → Except ε β} (hfg : ∀ a, Lasts fatal (f a) (g a)) :
    Lasts fatal (x >>= f) (y >>= g) := by
  cases h with
  | lost he hx =>
      subst hx
      exact .lost he (.refl _)
  | same hxy =>
      subst hxy
      cases y with
      | ok a => exact hfg a
      | error e => exact .rfl

theorem map (h : Lasts fatal x y) (f : α → β) : Lasts fatal (x.map f) (y.map f) := by
  cases h with
  | lost he hx =>
      subst hx
      exact .lost he (.refl _)
  | same hxy => exact .same (by rw [hxy])

theorem ok (h : Lasts fatal x y) {a : α} (hx : x = .ok a) : y = .ok a := by
  cases h with
  | lost _ he => cases hx.symm.trans he
  | same hxy => exact hxy.trans hx

theorem lift {x y : Except Fault α} (h : Lasts Fault.Fatal x y) :
    Lasts Failure.Fatal (x.mapError .fault) (y.mapError .fault) := by
  cases h with
  | @lost f _ hx =>
      subst hx
      exact .lost (e := .fault f) trivial (.refl _)
  | same hxy => exact .same (by rw [hxy])

end Lasts

/-- Writing was stopped by a fault at the earlier time, or goes the same way at the later. -/
def Repeats {α : Type} (earlier later : Writer α) : Prop :=
  ∀ sink, (∃ f left, earlier sink = .error (.fault f) left) ∨ later sink = earlier sink

namespace Repeats

variable {α β : Type} {w w' : Writer α}

theorem rfl : Repeats w w := fun _ => Or.inr (.refl _)

theorem throw_fault (f : Fault) : Repeats (throw (.fault f)) w :=
  fun sink => Or.inl ⟨f, sink, .refl _⟩

theorem bind (h : Repeats w w') {k k' : α → Writer β} (hk : ∀ a, Repeats (k a) (k' a)) :
    Repeats (w >>= k) (w' >>= k') := by
  intro sink
  show (∃ f left, EStateM.bind w k sink = .error (.fault f) left) ∨
    EStateM.bind w' k' sink = EStateM.bind w k sink
  rw [EStateM.bind, EStateM.bind]
  rcases h sink with ⟨f, left, hw⟩ | hw
  · rw [hw]
    exact Or.inl ⟨f, left, .refl _⟩
  · rw [hw]
    cases w sink with
    | ok a mid => exact hk a mid
    | error e mid => exact Or.inr (.refl _)

theorem await {x y : Except Fault α} (h : Lasts Fault.Fatal x y) :
    Repeats (Sink.await x) (Sink.await y) := by
  intro sink
  cases h with
  | lost _ hx =>
      subst hx
      exact Or.inl ⟨_, sink, .refl _⟩
  | same hxy =>
      subst hxy
      exact Or.inr (.refl _)

end Repeats

/-! ## The readers -/

namespace Heap.Grows

variable {heap later : Heap} (h : heap.Grows later)

include h

theorem cell (v : Handle) : Lasts Fault.Fatal (heap.cell v) (later.cell v) := by
  cases hc : heap.cell? v with
  | none => exact .lost trivial (by rw [Heap.cell, hc])
  | some c => exact .same (by rw [Heap.cell_of_cell? hc, Heap.cell_of_cell? (h.cell?_of_some hc)])

theorem symbolName (id : SymbolId) :
    Lasts Fault.Fatal (heap.symbolName id) (later.symbolName id) := by
  cases hid : heap.symbols.name? id with
  | none => exact .lost trivial (by rw [Heap.symbolName, hid])
  | some name =>
      refine .same ?_
      rw [Heap.symbolName_of_name? hid, Heap.symbolName_of_name? (h.name?_of_some hid)]

theorem view (v : Handle) : Lasts Fault.Fatal (heap.view v) (later.view v) := by
  rw [Heap.view, Heap.view]
  split
  · exact .rfl
  · exact (h.cell v).map some

theorem tag (v : Handle) : Lasts Fault.Fatal (heap.tag v) (later.tag v) := (h.view v).map _

theorem narrow (type : BoxType) (v : Handle) :
    Lasts Fault.Fatal (heap.narrow type v) (later.narrow type v) :=
  (h.tag v).bind fun _ => .rfl

theorem pairAt (l : Handle) : Lasts Fault.Fatal (heap.pairAt l) (later.pairAt l) :=
  (h.cell l).bind fun _ => .rfl

theorem listLength (l : Handle) : Lasts Fault.Fatal (heap.listLength l) (later.listLength l) := by
  rw [Heap.listLength, Heap.listLength]
  split
  · exact .rfl
  · exact (h.pairAt l).map _

theorem uncons? (l : Handle) : Lasts Fault.Fatal (heap.uncons? l) (later.uncons? l) := by
  rw [Heap.uncons?, Heap.uncons?]
  split
  · exact .rfl
  · exact (h.pairAt l).map _

theorem elementsWithin {budget budget' : Nat} (hle : budget ≤ budget') (l : Handle) :
    Lasts Fault.Fatal (heap.elementsWithin budget l) (later.elementsWithin budget' l) := by
  induction budget generalizing budget' l with
  | zero =>
      by_cases hl : l.isNil = true
      · rw [Handle.isNil_iff.mp hl, Heap.elementsWithin_nil, Heap.elementsWithin_nil]
        exact .rfl
      · rw [Heap.elementsWithin, if_neg hl]
        exact .lost trivial rfl
  | succ budget ih =>
      obtain ⟨larger, rfl⟩ : ∃ larger, budget' = larger + 1 := ⟨budget' - 1, by omega⟩
      rw [Heap.elementsWithin, Heap.elementsWithin]
      refine (h.uncons? l).bind fun found => ?_
      split
      · exact .rfl
      · exact (ih (by omega) _).bind fun _ => .rfl

theorem elements (l : Handle) : Lasts Fault.Fatal (heap.elements l) (later.elements l) :=
  h.elementsWithin h.size_le l

theorem remaining (c : Cursor) : Lasts Fault.Fatal (c.remaining heap) (c.remaining later) :=
  (h.listLength c.rest).bind fun _ => .rfl

theorem next (c : Cursor) : Lasts Fault.Fatal (c.next heap) (c.next later) := by
  rw [Cursor.next, Cursor.next]
  split
  · exact .rfl
  · exact (h.uncons? c.rest).bind fun _ => .rfl

theorem visits (count : Nat) (c : Cursor) :
    Lasts Fault.Fatal (Cursor.visits heap count c) (Cursor.visits later count c) := by
  induction count generalizing c with
  | zero => exact .rfl
  | succ count ih =>
      refine (h.remaining c).bind fun left => ?_
      refine (h.next c).bind fun found => ?_
      exact (ih found.2).bind fun _ => .rfl

theorem asPair (op : String) (v : Handle) :
    Lasts Failure.Fatal (heap.asPair op v) (later.asPair op v) := by
  rw [Heap.asPair_eq, Heap.asPair_eq]
  exact (h.view v).lift.bind fun _ => .rfl

theorem asList (op : String) (v : Handle) :
    Lasts Failure.Fatal (heap.asList op v) (later.asList op v) :=
  (h.tag v).lift.bind fun _ => .rfl

theorem step (link : Link) (v : Handle) :
    Lasts Failure.Fatal (heap.step link v) (later.step link v) := by
  cases link with
  | a => exact (h.asPair "car" v).bind fun _ => .rfl
  | d => exact (h.asPair "cdr" v).bind fun _ => .rfl

theorem follow (path : List Link) (v : Handle) :
    Lasts Failure.Fatal (heap.follow path v) (later.follow path v) := by
  induction path with
  | nil => exact .rfl
  | cons link path ih => exact ih.bind fun u => h.step link u

theorem length (v : Handle) : Lasts Failure.Fatal (heap.length v) (later.length v) :=
  (h.asList "length" v).bind fun l => (h.listLength l).lift

theorem eq (x y : Handle) : Lasts Fault.Fatal (heap.eq x y) (later.eq x y) :=
  (h.view x).bind fun _ => (h.view y).bind fun _ => .rfl

theorem tryEntry (key entry : Handle) {others others' : Except Fault Handle}
    (hothers : Lasts Fault.Fatal others others') :
    Lasts Fault.Fatal (heap.tryEntry key entry others) (later.tryEntry key entry others') := by
  rw [Heap.tryEntry, Heap.tryEntry]
  refine (h.view entry).bind fun found => ?_
  split
  · refine (h.eq key _).bind fun matched => ?_
    cases matched with
    | true => exact .rfl
    | false => exact hothers
  · exact hothers

theorem search (key : Handle) {budget budget' : Nat} (hle : budget ≤ budget') (l : Handle) :
    Lasts Fault.Fatal (heap.search key budget (.ofList l))
      (later.search key budget' (.ofList l)) := by
  induction budget generalizing budget' l with
  | zero =>
      by_cases hl : l.isNil = true
      · rw [Handle.isNil_iff.mp hl, Heap.search_nil, Heap.search_nil]
        exact .rfl
      · exact .lost trivial (heap.search_zero key hl)
  | succ budget ih =>
      obtain ⟨larger, rfl⟩ : ∃ larger, budget' = larger + 1 := ⟨budget' - 1, by omega⟩
      rw [Heap.search_succ, Heap.search_succ]
      refine (h.uncons? l).bind fun found => ?_
      split
      · exact .rfl
      · exact h.tryEntry key _ (ih (by omega) _)

theorem assoc (key alist : Handle) :
    Lasts Failure.Fatal (heap.assoc key alist) (later.assoc key alist) :=
  (h.asList "assoc" alist).bind fun l => (h.search key h.size_le l).lift

theorem asInts (op : String) (x y : Handle) :
    Lasts Failure.Fatal (heap.asInts op x y) (later.asInts op x y) := by
  rw [Heap.asInts_eq, Heap.asInts_eq]
  exact (h.view x).lift.bind fun _ => (h.view y).lift.bind fun _ => .rfl

/-! ## The printer -/

/-- The walk along a list, for two ways of writing its elements. -/
theorem writeRest {write write' : Handle → Writer Unit}
    (hw : ∀ v, Repeats (write v) (write' v)) {budget budget' : Nat} (hle : budget ≤ budget')
    (l : Handle) : Repeats (heap.writeRest write budget l) (later.writeRest write' budget' l) := by
  induction budget generalizing budget' l with
  | zero =>
      by_cases hl : l.isNil = true
      · obtain rfl := Handle.isNil_iff.mp hl
        cases budget' <;> exact .rfl
      · rw [Heap.writeRest, if_neg hl]
        exact .throw_fault _
  | succ budget ih =>
      obtain ⟨larger, rfl⟩ : ∃ larger, budget' = larger + 1 := ⟨budget' - 1, by omega⟩
      rw [Heap.writeRest, Heap.writeRest]
      refine (Repeats.await (h.uncons? l)).bind fun found => ?_
      split
      · exact .rfl
      · refine Repeats.rfl.bind fun _ => ?_
        exact (hw _).bind fun _ => ih (by omega) _

theorem writeWithin {depth depth' : Nat} (hle : depth ≤ depth') (v : Handle) :
    Repeats (heap.writeWithin depth v) (later.writeWithin depth' v) := by
  induction depth generalizing depth' v with
  | zero => exact .throw_fault _
  | succ depth ih =>
      obtain ⟨deeper, rfl⟩ : ∃ deeper, depth' = deeper + 1 := ⟨depth' - 1, by omega⟩
      have hdeeper : depth ≤ deeper := by omega
      rw [Heap.writeWithin_succ, Heap.writeWithin_succ]
      refine (Repeats.await (h.view v)).bind fun found => ?_
      split
      · exact .rfl
      · exact .rfl
      · exact (Repeats.await (h.symbolName _)).bind fun _ => .rfl
      · exact .rfl
      · refine Repeats.rfl.bind fun _ => ?_
        refine (ih hdeeper _).bind fun _ => ?_
        exact (h.writeRest (ih hdeeper) h.size_le _).bind fun _ => .rfl

-- The depth is taken from the sink, so the two writers have to be compared one sink at a time.
theorem write (v : Handle) : Repeats (heap.write v) (later.write v) := by
  intro sink
  have hdepth : heap.size + sink.room.depth + 1 ≤ later.size + sink.room.depth + 1 := by
    have := h.size_le
    omega
  exact h.writeWithin hdepth v sink

end Heap.Grows

/-! ## Heaps that remember -/

/-- Whatever the first heap answers, the second answers too. -/
structure Heap.Recalls (heap later : Heap) : Prop where
  tag : ∀ v, Lasts Fault.Fatal (heap.tag v) (later.tag v)
  view : ∀ v, Lasts Fault.Fatal (heap.view v) (later.view v)
  narrow : ∀ type v, Lasts Fault.Fatal (heap.narrow type v) (later.narrow type v)
  follow : ∀ path v, Lasts Failure.Fatal (heap.follow path v) (later.follow path v)
  length : ∀ v, Lasts Failure.Fatal (heap.length v) (later.length v)
  elements : ∀ l, Lasts Fault.Fatal (heap.elements l) (later.elements l)
  visits : ∀ count c, Lasts Fault.Fatal (Cursor.visits heap count c) (Cursor.visits later count c)
  eq : ∀ x y, Lasts Fault.Fatal (heap.eq x y) (later.eq x y)
  assoc : ∀ key alist, Lasts Failure.Fatal (heap.assoc key alist) (later.assoc key alist)
  gt : ∀ x y, Lasts Failure.Fatal (heap.gt x y) (later.gt x y)
  mul : ∀ x y, Lasts Failure.Fatal (heap.mul x y) (later.mul x y)
  sub : ∀ x y, Lasts Failure.Fatal (heap.sub x y) (later.sub x y)
  write : ∀ v, Repeats (heap.write v) (later.write v)

theorem Heap.Grows.recalls {heap later : Heap} (h : heap.Grows later) : heap.Recalls later where
  tag := h.tag
  view := h.view
  narrow := h.narrow
  follow := h.follow
  length := h.length
  elements := h.elements
  visits := h.visits
  eq := h.eq
  assoc := h.assoc
  gt x y := (h.asInts "GT" x y).bind fun _ => .rfl
  mul x y := (h.asInts "MUL" x y).bind fun _ => .rfl
  sub x y := (h.asInts "SUB" x y).bind fun _ => .rfl
  write := h.write

/-- A number beyond those of the boxes is new. -/
theorem Heap.Proper.new_of_lt {heap : Heap} (hp : heap.Proper) {v : Handle}
    (h : heap.size < v.index) : heap.size < v.index ∧ v ≠ .nil ∧ v ≠ .t ∧ ¬ heap.Has v := by
  obtain ⟨id, hid⟩ := hp.first
  have hsize : 0 < heap.size := (Heap.cell?_bounds hid).2
  refine ⟨h, ?_, ?_, Nat.not_le_of_lt h⟩
  · rintro rfl
    exact absurd h (Nat.not_lt_zero _)
  · rintro rfl
    exact absurd h (Nat.not_lt_of_le hsize)

/-- A run on any handles at all, on a heap with a limit or without one, adds boxes and names at the
end of those that are there. The numbers of its new boxes, as the log gives them, are none that
stood for a value before. Nor is the handle that the next operation gives, if that operation places
boxes: it is the number of the last one, unless the heap is full before. And every question that was
answered before the run is answered the same after it. -/
theorem values_never_change (limit : Option Nat) (names : List String)
    (ops later : List Operation) :
    let task := (Task.fresh names).afterWithin limit ops
    let task' := task.afterWithin limit later
    task.heap.cells.toList <+: task'.heap.cells.toList ∧
    task.heap.symbols.names.toList <+: task'.heap.symbols.names.toList ∧
    (∃ added, task'.heap.cells.toList = task.heap.cells.toList ++ added ∧
      task'.placements = task.placements ++ entriesFrom task.heap.size added ∧
      ∀ tag v, (tag, v) ∈ entriesFrom task.heap.size added →
        task.heap.size < v.index ∧ v ≠ .nil ∧ v ≠ .t ∧ ¬ task.heap.Has v) ∧
    (∀ op : Operation, let (outcome, left) := op.performWithin limit task'
      task'.heap.size < left.heap.size →
        (∃ v, outcome = .returned v ∧ v.index = left.heap.size ∧ ¬ task'.heap.Has v ∧
          task.heap.size < v.index ∧ v ≠ .nil ∧ v ≠ .t ∧ ¬ task.heap.Has v) ∨
        ∃ n, limit = some n ∧ left.heap.size = n ∧
          outcome = .stopped (.fault (.exhausted n))) ∧
    task.heap.Recalls task'.heap := by
  intro task task'
  have hp : task.heap.Proper := Heap.proper_afterWithin limit names ops
  have hgrows : task.heap.Grows task'.heap := afterWithin_grows limit task later
  obtain ⟨later', hlater, _⟩ := exists_run_of_afterWithin limit task later
  obtain ⟨added, hlogs⟩ := after_logs task later'
  rw [hlater] at hlogs
  refine ⟨hgrows.cells_prefix, hgrows.names_prefix, ⟨added, hlogs.cells, hlogs.log, ?_⟩, ?_,
    hgrows.recalls⟩
  · intro tag v hv
    exact hp.new_of_lt (lt_of_mem_entriesFrom hv)
  · intro op hplaced
    rcases performWithin_returns limit op task' hplaced with hreturned | hfull
    · have hlt := Nat.lt_of_le_of_lt hgrows.size_le hplaced
      exact Or.inl ⟨_, hreturned, rfl, Nat.not_le_of_lt hplaced, hp.new_of_lt hlt⟩
    · exact Or.inr hfull

end LispHeap
