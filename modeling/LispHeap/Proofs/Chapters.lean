import LispHeap.Proofs.Journal
import LispHeap.Proofs.Effects
import LispHeap.Proofs.Lasting

/-!
# The log of a run, call by call

The log can be written down from what the calls of a run did to the heap and how they ended, without
a look at the log itself. Each call adds a chapter: one record for each box that it has added, in
the order of the numbers, and then, if the task gave up on its own account, one more with the text.

A chapter never has records of both kinds, because a call that stops has placed nothing. That is
where decisions come in: an operation places boxes only after the last point at which it can stop.
So a chapter is read off the plan that the operation is known to have (`perform_passes`).

Put one after the other, the chapters are the log (`log_after`). Which calls leave a text behind is
then a question about outcomes: an entry point fails just where the operation behind it refuses, and
with the text of its error.
-/

namespace LispHeap

/-! ## Chapters -/

/-- Whether a record names a box. -/
def Record.isPlaced (r : Record) : Bool := r.placed?.isSome

/-- The records of boxes that are placed behind the first `size`. -/
def recordsFrom (size : Nat) (cells : List Cell) : List Record :=
  (entriesFrom size cells).map fun entry => .placed entry.1 entry.2

/-- What a call adds to the log: its new boxes, and then its end. -/
def Operation.chapter (op : Operation) (task : Task) : List Record :=
  recordsFrom task.heap.size ((op.perform task).2.heap.cells.toList.drop task.heap.size) ++
    (op.perform task).1.notes

/-- The chapters of a run. -/
def Task.chapters (task : Task) : List Operation → List (List Record)
  | [] => []
  | op :: ops => op.chapter task :: (op.perform task).2.chapters ops

section Records

theorem isPlaced_of_mem_recordsFrom {size : Nat} {cs : List Cell} {r : Record}
    (h : r ∈ recordsFrom size cs) : r.isPlaced = true := by
  obtain ⟨entry, _, rfl⟩ := List.mem_map.mp h
  rfl

theorem map_entriesFrom {β : Type} (f : Tag × Handle → β) (size : Nat) (cs : List Cell) :
    (entriesFrom size cs).map f = cs.mapIdx fun i c => f (c.tag, ⟨size + i + 1⟩) := by
  induction cs generalizing size with
  | nil => rfl
  | cons c cs ih =>
      rw [entriesFrom, List.map_cons, ih, List.mapIdx_cons]
      simp only [Nat.add_assoc, Nat.add_comm 1, Nat.add_zero]

theorem log_placeAll (task : Task) (cs : List Cell) :
    (task.placeAll cs).log.toList = task.log.toList ++ recordsFrom task.heap.size cs := by
  induction cs generalizing task with
  | nil => simp [recordsFrom, entriesFrom]
  | cons c cs ih =>
      have hsize : (task.place c).heap.size = task.heap.size + 1 := Heap.size_push task.heap c
      show ((task.place c).placeAll cs).log.toList = _
      rw [ih, hsize]
      simp [Task.place, recordsFrom, entriesFrom]

/-- The lines of the placed boxes, at a level that shows all. -/
theorem lines_placed (records : List Record) :
    Record.lines .trace (records.filter Record.isPlaced) =
      (records.filterMap Record.placed?).map fun entry => (Record.placed entry.1 entry.2).line := by
  induction records with
  | nil => rfl
  | cons r records ih =>
      cases r with
      | placed tag h => exact congrArg (_ :: ·) ih
      | panicked | launching | finished => exact ih

theorem notes_of_not_stopped {outcome : Outcome} (h : ∀ s, outcome ≠ .stopped s) :
    outcome.notes = [] := by
  cases outcome with
  | stopped s => exact absurd rfl (h s)
  | value | symbol | absent | refused => rfl

end Records

/-! ## What an operation records -/

/-- A call placed these boxes and ended like this, and both were recorded. If it stopped, there are
no boxes. -/
structure Task.Passes (task : Task) (boxes : List Cell) (outcome : Outcome) (left : Task) :
    Prop where
  cells : left.heap.cells.toList = task.heap.cells.toList ++ boxes
  log : left.log.toList = task.log.toList ++ (recordsFrom task.heap.size boxes ++ outcome.notes)
  stopped : ∀ s, outcome = .stopped s → boxes = []

theorem Operation.Places.passes {op : Operation} {task base : Task} {plan : Plan Outcome}
    (h : op.Places task base plan) :
    task.Passes plan.boxes plan.result (base.placeAll plan.boxes) := by
  have hcells : (base.placeAll plan.boxes).heap.cells.toList =
      task.heap.cells.toList ++ plan.boxes := by
    rw [base.cells_placeAll, h.cells]
  have hlog := log_placeAll base plan.boxes
  rw [h.log, h.size] at hlog
  by_cases hboxes : plan.boxes = []
  · refine ⟨hcells, ?_, fun _ _ => hboxes⟩
    rw [hlog, hboxes]
    exact List.append_nil _
  · have hresult := h.result hboxes
    refine ⟨hcells, ?_, fun s hs => ?_⟩
    · rw [hlog, hresult, List.append_assoc]
      exact congrArg (task.log.toList ++ ·) (List.append_nil _).symm
    · rw [hresult] at hs
      cases hs

theorem perform_passes (op : Operation) (task : Task) :
    ∃ boxes, task.Passes boxes (op.perform task).1 (op.perform task).2 := by
  obtain ⟨base, plan, hplaces, hfollows⟩ := exists_decision op task
  rw [Operation.perform, hfollows]
  exact ⟨plan.boxes, hplaces.passes⟩

section Reading

variable {task : Task} {op : Operation}

theorem Task.Passes.chapter_eq {boxes : List Cell}
    (h : task.Passes boxes (op.perform task).1 (op.perform task).2) :
    op.chapter task = recordsFrom task.heap.size boxes ++ (op.perform task).1.notes := by
  rw [Operation.chapter, h.cells, Heap.size, ← Array.length_toList, List.drop_left]

theorem log_perform (op : Operation) (task : Task) :
    (op.perform task).2.log.toList = task.log.toList ++ op.chapter task := by
  obtain ⟨boxes, h⟩ := perform_passes op task
  rw [h.log, h.chapter_eq]

theorem chapter_of_stopped {s : Stop} (h : (op.perform task).1 = .stopped s) :
    op.chapter task = (Outcome.stopped s).notes := by
  obtain ⟨boxes, hpasses⟩ := perform_passes op task
  rw [hpasses.chapter_eq, hpasses.stopped s h, h]
  rfl

theorem isPlaced_of_mem_chapter (h : ∀ s, (op.perform task).1 ≠ .stopped s) {r : Record}
    (hr : r ∈ op.chapter task) : r.isPlaced = true := by
  rw [Operation.chapter, notes_of_not_stopped h, List.append_nil] at hr
  exact isPlaced_of_mem_recordsFrom hr

/-- The log of a run is made of its chapters. -/
theorem log_after (task : Task) (ops : List Operation) :
    (task.after ops).log.toList = task.log.toList ++ (task.chapters ops).flatten := by
  induction ops generalizing task with
  | nil => exact (List.append_nil _).symm
  | cons op ops ih =>
      show ((op.perform task).2.after ops).log.toList = _
      rw [ih, log_perform, Task.chapters, List.flatten_cons, List.append_assoc]

end Reading

/-! ## Failing with an error -/

section Failing

variable {task : Task} {call : Call} {message : String}

theorem enter_failed_iff (h : call.printing = false) :
    ((Operation.enter call).perform task).1 = .stopped (.failed message) ↔
      call.complaint? task = some message := by
  show (Outcome.ofEntry (call.enter task)).1 = _ ↔ _
  rw [← plan_eq_failed_iff h, enter_eq_carryOut h]
  cases call.plan task.heap with
  | ok plan => constructor <;> intro h <;> cases h
  | error s =>
      show Outcome.stopped s = _ ↔ _
      rw [Outcome.stopped.injEq, Except.error.injEq]

/-- What there is to complain of is an error of the operation, or a length that is no integer. -/
theorem complaint?_eq_iff :
    call.complaint? task = some message ↔
      (∃ e, ((Operation.core call).perform task).1 = .refused e ∧ message = e.message) ∨
      ∃ n : Int, ((Operation.core call).perform task).1 = .value (.number n) ∧ 2147483648 ≤ n ∧
        message = "length: " ++ n.repr ++ " does not fit in an Int" := by
  rw [Call.complaint?]
  cases hrun : call.run? with
  | none => simp [perform_core_of_none hrun]
  | some op =>
      rw [perform_core_of_some hrun, Option.bind_some]
      cases op task with
      | ok v left =>
          cases v with
          | number n =>
              simp only [complaint, Outcome.ofOp]
              by_cases hn : n < 2147483648
              · have hle : ¬ 2147483648 ≤ n := by omega
                simp [hn, hle]
              · have hle : 2147483648 ≤ n := by omega
                simp [hn, hle, eq_comm]
          | handle | truth => simp [complaint, Outcome.ofOp]
      | error e left =>
          cases e with
          | refused e => simp [complaint, Outcome.ofOp, eq_comm]
          | fault f => simp [complaint, Outcome.ofOp]

end Failing

/-! ## The log and the heap -/

/-- What the log says of a call: the boxes it has added, if it did not stop; nothing, if it faulted;
and one text and nothing else, if the task gave up. -/
structure Operation.Recorded (op : Operation) (task : Task) : Prop where
  grows : (op.perform task).2.log.toList = task.log.toList ++ op.chapter task
  placed : (∀ s, (op.perform task).1 ≠ .stopped s) → ∀ r ∈ op.chapter task, r.isPlaced = true
  faulted : ∀ f, (op.perform task).1 = .stopped (.fault f) → op.chapter task = []
  failed : ∀ message, (op.perform task).1 = .stopped (.failed message) →
    op.chapter task = [.panicked message]

theorem Operation.recorded (op : Operation) (task : Task) : op.Recorded task where
  grows := log_perform op task
  placed h _ hr := isPlaced_of_mem_chapter h hr
  faulted _ h := chapter_of_stopped h
  failed _ h := chapter_of_stopped h

/-- The boxes of a task are all in its log, from the first. -/
theorem placements_eq (names : List String) (ops : List Operation) :
    ((Task.fresh names).after ops).placements =
      entriesFrom 0 ((Task.fresh names).after ops).heap.cells.toList := by
  obtain ⟨added, hlogs⟩ := after_logs (Task.fresh names) ops
  have hfirst : (Task.fresh names).placements =
      entriesFrom 0 (Task.fresh names).heap.cells.toList := rfl
  rw [hlogs.log, hlogs.cells, entriesFrom_append, hfirst, Array.length_toList, Nat.zero_add]
  rfl

/-- After every run on any handles at all, the log begins with the symbol `t` and has the chapters
of the calls after that. The boxes that are recorded are those of the heap, each once and in the
order of their numbers. A call is recorded as it goes, and the text of an entry point that fails is
that of the error of its operation, unless it is a length for which there is no integer. -/
theorem log_mirrors_heap (names : List String) (ops : List Operation) :
    let task := (Task.fresh names).after ops
    (∃ id, task.heap.cells[0]? = some (.sym id) ∧ task.heap.symbols.name? id = some "t") ∧
    task.log.toList = .placed .sym .t :: ((Task.fresh names).chapters ops).flatten ∧
    Record.lines .trace (task.log.toList.filter Record.isPlaced) =
      task.heap.cells.toList.mapIdx (fun i c =>
        "TRACE kons_runtime::boxed::heap: placed " ++ c.tag.name ++ " box at index " ++
          (i + 1).repr) ∧
    (∀ op : Operation, op.Recorded task) ∧
    ∀ call : Call, call.printing = false →
      (∀ e, ((Operation.core call).perform task).1 = .refused e →
        ((Operation.enter call).perform task).1 = .stopped (.failed e.message) ∧
        Record.lines .trace ((Operation.enter call).chapter task) =
          ["DEBUG kons_runtime::task: task panicked: " ++ e.message]) ∧
      ∀ message, ((Operation.enter call).perform task).1 = .stopped (.failed message) →
        (∃ e, ((Operation.core call).perform task).1 = .refused e ∧ message = e.message) ∨
        ∃ n : Int, ((Operation.core call).perform task).1 = .value (.number n) ∧
          2147483648 ≤ n ∧ message = "length: " ++ n.repr ++ " does not fit in an Int" := by
  intro task
  refine ⟨?_, ?_, ?_, fun op => op.recorded task, ?_⟩
  · obtain ⟨id, hid, hname⟩ := (Heap.sound_fresh names).truth
    have hgrows : (Task.fresh names).heap.Grows task.heap := after_grows (Task.fresh names) ops
    exact ⟨id, hgrows.cell?_of_some hid, hgrows.name?_of_some hname⟩
  · exact log_after (Task.fresh names) ops
  · have hplaced : task.log.toList.filterMap Record.placed? =
        entriesFrom 0 task.heap.cells.toList := placements_eq names ops
    rw [lines_placed, hplaced, map_entriesFrom]
    simp only [Nat.zero_add]
    rfl
  · intro call hprint
    constructor
    · intro e he
      have hfailed := (enter_failed_iff hprint).mpr (complaint?_eq_iff.mpr (.inl ⟨e, he, rfl⟩))
      refine ⟨hfailed, ?_⟩
      rw [chapter_of_stopped hfailed]
      rfl
    · intro message hfailed
      exact complaint?_eq_iff.mp ((enter_failed_iff hprint).mp hfailed)

/-- Makes an integer, takes it for a pair, multiplies it with a stray handle and lists the two. -/
def faultyRun : List Operation :=
  [.newAtom (.int 5), .enter (.access .car ⟨2⟩), .enter (.mul ⟨2⟩ ⟨90⟩), .enter (.list [⟨2⟩, ⟨90⟩])]

theorem faulty_run_is_recorded :
    let task := (Task.fresh []).after faultyRun
    let again := ((Operation.enter (.access .car ⟨2⟩)).perform task).2
    Record.lines .trace task.log.toList =
      ["TRACE kons_runtime::boxed::heap: placed Sym box at index 1",
        "TRACE kons_runtime::boxed::heap: placed Int box at index 2",
        "DEBUG kons_runtime::task: task panicked: Wrong type for car: Int (tag 0)",
        "TRACE kons_runtime::boxed::heap: placed Pair box at index 3",
        "TRACE kons_runtime::boxed::heap: placed Pair box at index 4"] ∧
    (Operation.enter (.mul ⟨2⟩ ⟨90⟩)).chapter task = [] ∧
    again.log.toList = task.log.toList ++ [.panicked "Wrong type for car: Int (tag 0)"] := by
  intro task again
  obtain ⟨_, hlog, _, hrecorded, hfails⟩ := log_mirrors_heap [] faultyRun
  have hcar : ((Operation.core (.access .car ⟨2⟩)).perform task).1 =
      .refused (.wrongType "car" (some .int)) := by rfl
  have hfailed := ((hfails (.access .car ⟨2⟩) rfl).1 _ hcar).1
  have hagain := (hrecorded (.enter (.access .car ⟨2⟩))).grows
  rw [(hrecorded (.enter (.access .car ⟨2⟩))).failed _ hfailed] at hagain
  have hfault : ((Operation.enter (.mul ⟨2⟩ ⟨90⟩)).perform task).1 =
      .stopped (.fault (.unallocated ⟨90⟩)) := by rfl
  refine ⟨?_, (hrecorded (.enter (.mul ⟨2⟩ ⟨90⟩))).faulted _ hfault, hagain⟩
  rw [hlog]
  rfl

end LispHeap
