import LispHeap.Proofs.Decisions

/-!
# The log names every new box

Placing a box records its kind and its number. Nothing else makes such a record, and nothing places
a box without one, so the log of a task can be held against its heap. This is what makes "a newly
allocated handle" something that can be spoken of: it is a handle that the log names from some
moment on. The numbers that a run adds to the log are the next ones, one after the other, whatever
the operations of the run are and however they end.

The same count of new boxes says where symbols come from. A symbol's number is stored unchecked, so
on this heap it may stand for another name than the one it was made for, or for none. Only two
operations put a symbol into a box: one interns the name first, and the other takes the number from
a table that its caller hands in.
-/

namespace LispHeap

/-- The box that a record names, if any. -/
def Record.placed? : Record → Option (Tag × Handle)
  | .placed tag h => some (tag, h)
  | _ => none

/-- The boxes that the log of a task names, in order. -/
def Task.placements (task : Task) : List (Tag × Handle) := task.log.toList.filterMap Record.placed?

/-- The entries of boxes that are placed behind the first `size`. -/
def entriesFrom (size : Nat) : List Cell → List (Tag × Handle)
  | [] => []
  | c :: cs => (c.tag, ⟨size + 1⟩) :: entriesFrom (size + 1) cs

theorem entriesFrom_append (size : Nat) (cs ds : List Cell) :
    entriesFrom size (cs ++ ds) = entriesFrom size cs ++ entriesFrom (size + cs.length) ds := by
  induction cs generalizing size with
  | nil => rfl
  | cons c cs ih =>
      rw [List.cons_append, entriesFrom, entriesFrom, ih, List.length_cons, List.cons_append,
        Nat.add_assoc, Nat.add_comm 1]

theorem lt_of_mem_entriesFrom {size : Nat} {cs : List Cell} {entry : Tag × Handle}
    (h : entry ∈ entriesFrom size cs) : size < entry.2.index := by
  induction cs generalizing size with
  | nil => cases h
  | cons c cs ih =>
      rcases List.mem_cons.mp h with rfl | h
      · exact Nat.lt_succ_self size
      · have := ih h
        omega

/-- One task came out of another by placing these boxes, each of which was recorded. -/
structure Task.Logs (task : Task) (added : List Cell) (left : Task) : Prop where
  cells : left.heap.cells.toList = task.heap.cells.toList ++ added
  log : left.placements = task.placements ++ entriesFrom task.heap.size added

/-- Some boxes were placed and recorded, with no symbols in them but these. -/
def Task.Extends (symbols : SymbolId → Prop) (task left : Task) : Prop :=
  ∃ added, task.Logs added left ∧ ∀ id, Cell.sym id ∈ added → symbols id

section Placing

variable {task mid left : Task}

theorem Task.Logs.of_eq (hcells : left.heap.cells = task.heap.cells)
    (hlog : left.placements = task.placements) : task.Logs [] left where
  cells := by rw [hcells, List.append_nil]
  log := by rw [hlog, entriesFrom, List.append_nil]

theorem Task.Logs.trans {cs ds : List Cell} (h : task.Logs cs mid) (h' : mid.Logs ds left) :
    task.Logs (cs ++ ds) left := by
  have hsize : mid.heap.size = task.heap.size + cs.length := by
    rw [Heap.size, ← Array.length_toList, h.cells, List.length_append, Array.length_toList,
      Heap.size]
  constructor
  · rw [h'.cells, h.cells, List.append_assoc]
  · rw [h'.log, h.log, hsize, entriesFrom_append, List.append_assoc]

theorem logs_place (task : Task) (c : Cell) : task.Logs [c] (task.place c) where
  cells := by simp [Task.place, Heap.push]
  log := by simp [Task.placements, Task.place, Record.placed?, entriesFrom]

theorem logs_placeAll (task : Task) (cs : List Cell) : task.Logs cs (task.placeAll cs) := by
  induction cs generalizing task with
  | nil => exact .of_eq rfl rfl
  | cons c cs ih => exact (logs_place task c).trans (ih (task.place c))

end Placing

/-! ## Operations and runs -/

theorem filterMap_notes (outcome : Outcome) : outcome.notes.filterMap Record.placed? = [] := by
  unfold Outcome.notes
  split <;> rfl

/-- Until the first box, nothing is recorded that names one. -/
theorem Operation.Places.logs {op : Operation} {task base : Task} {plan : Plan Outcome}
    (h : op.Places task base plan) : task.Logs [] base := by
  refine .of_eq h.cells ?_
  rw [Task.placements, h.log, List.filterMap_append, filterMap_notes, List.append_nil]
  rfl

theorem perform_extends (op : Operation) (task : Task) :
    Task.Extends (fun id => op.Gives task.heap.symbols id) task (op.perform task).2 := by
  obtain ⟨base, plan, hplaces, hfollows⟩ := exists_decision op task
  rw [Operation.perform, hfollows]
  exact ⟨plan.boxes, hplaces.logs.trans (logs_placeAll base plan.boxes), fun id => hplaces.gives⟩

theorem after_logs (task : Task) (ops : List Operation) :
    ∃ added, task.Logs added (task.after ops) := by
  induction ops generalizing task with
  | nil => exact ⟨[], .of_eq rfl rfl⟩
  | cons op ops ih =>
      obtain ⟨cs, hcs, _⟩ := perform_extends op task
      obtain ⟨ds, hds⟩ := ih (op.perform task).2
      exact ⟨cs ++ ds, hcs.trans hds⟩

end LispHeap
