import LispHeap.Script.Machine
import LispHeap.Proofs.OwnRuns

/-!
# A program does the same wherever it runs

A program makes atoms and calls entry points, and names its values by the instruction that gave
them. It knows no handle of the heap it runs on but the empty list and `t`. So its behaviour may not
depend on what the heap held before, on how many boxes there were or on which numbers the names of
its symbols have.

Run one program on two heaps with whatever past, and follow the two runs instruction by instruction.
Each instruction ends on both sides in the same way, with the same text if it stops; both heaps grow
by the same number of boxes; and the handles that are returned correspond by their distance from the
end of the old heap, have the same kind, contents and length, and print the same. The proof is one
step and an induction: the step is that operations keep twins in step, and the two heaps are twins
at the start because nothing has been added to either.
-/

namespace LispHeap

namespace Program

/-- What an instruction may be given; results are counted from the first instruction on. -/
inductive Operand where
  | nil
  | t
  | result (i : Nat)
  deriving DecidableEq

/-- A new atom, or a call of a primitive. -/
inductive Instruction where
  | make (atom : Atom)
  | call (primitive : Primitive) (args : List Operand)
  deriving DecidableEq

/-- How an instruction ended, with the tasks before and after it. -/
structure Event where
  outcome : Outcome
  before : Task
  after : Task

/-- The handle of an operand when these results are there. -/
def Operand.value (results : List Handle) : Operand → Handle
  | .nil => .nil
  | .t => .t
  | .result i => results.getD i .nil

/-- Carries out an instruction; a call with the wrong number of arguments is none. -/
def Instruction.perform (results : List Handle) : Instruction → Task → Outcome × Task
  | .make atom, task => (Operation.newAtom atom).perform task
  | .call primitive args, task =>
    match Call.make? primitive (args.map (·.value results)) with
    | some made => (Operation.enter made).perform task
    | none => (.absent, task)

/-- Carries out a program. The result of an instruction that returns no handle is the empty list. -/
def events : List Instruction → List Handle → Task → List Event
  | [], _, _ => []
  | i :: is, results, task =>
    let (outcome, left) := i.perform results task
    ⟨outcome, task, left⟩ :: events is (results ++ [outcome.handle?.getD .nil]) left

/-! ## What corresponds -/

/-- What can be seen of two returned handles, the first on a heap with `m` old boxes and the second
on one with `n`. -/
structure SeenAlike (m n : Nat) (heap₁ heap₂ : Heap) (v₁ v₂ : Handle) : Prop where
  place : Handle.Twin m n (heap₁.size - m) v₁ v₂
  kind : ∃ tag, heap₁.tag v₁ = .ok tag ∧ heap₂.tag v₂ = .ok tag
  subject : ∃ subject, Script.Run.subject heap₁ v₁ = .ok subject ∧
    Script.Run.subject heap₂ v₂ = .ok subject
  text : ∃ text, Appends (heap₁.write v₁) text ∧ Appends (heap₂.write v₂) text

/-- Outcomes of one instruction: handles that are related, or the same stop. -/
inductive EndsAlike (R : Handle → Handle → Prop) : Outcome → Outcome → Prop where
  | returned {v₁ v₂ : Handle} (h : R v₁ v₂) : EndsAlike R (.returned v₁) (.returned v₂)
  | absent : EndsAlike R .absent .absent
  | stopped (s : Stop) : EndsAlike R (.stopped s) (.stopped s)

/-- What two runs show of one instruction: the same end, growth and output. -/
structure Event.Alike (m n : Nat) (x y : Event) : Prop where
  outcome : EndsAlike (SeenAlike m n x.after.heap y.after.heap) x.outcome y.outcome
  growth : ∃ d, x.after.heap.size = x.before.heap.size + d ∧
    y.after.heap.size = y.before.heap.size + d
  printed : x.after.out = y.after.out

end Program

section

variable {m n k : Nat} {heap₁ heap₂ : Heap} {task₁ task₂ : Task} {v₁ v₂ : Handle}
  {results₁ results₂ : List Handle}

theorem Heap.Twin.subject (ht : Heap.Twin m n k heap₁ heap₂) (hv : Handle.Twin m n k v₁ v₂) :
    Agree Fault.Never Eq (Script.Run.subject heap₁ v₁) (Script.Run.subject heap₂ v₂) := by
  refine (ht.view hv).bind fun s₁ s₂ hs => ?_
  cases hs with
  | none => exact .ok rfl
  | some hc =>
      cases hc with
      | int value => exact .ok rfl
      | pair hpq => exact .ok (congrArg Script.Subject.pair hpq.length)
      | sym hi hj =>
          show Agree Fault.Never Eq ((heap₁.symbolName _).bind _) ((heap₂.symbolName _).bind _)
          rw [symbolName_of_name? hi, symbolName_of_name? hj]
          exact .ok rfl
      | str text => exact .ok rfl

namespace Program

theorem seenAlike_of_twin (ht : Heap.Twin m n k heap₁ heap₂) (hv : Handle.Twin m n k v₁ v₂) :
    SeenAlike m n heap₁ heap₂ v₁ v₂ := by
  have hk : heap₁.size - m = k := by rw [ht.size₁, Nat.add_sub_cancel_left]
  obtain ⟨tag, _, htag₁, htag₂, rfl⟩ := (ht.tag hv).values
  obtain ⟨subject, _, hsubject₁, hsubject₂, rfl⟩ := (ht.subject hv).values
  obtain ⟨e, he₁, he₂⟩ := ht.exists_emit hv
  refine ⟨hk ▸ hv, ⟨tag, htag₁, htag₂⟩, ⟨subject, hsubject₁, hsubject₂⟩, e.text, ?_, ?_⟩
  · rw [he₁]
    exact e.appends_emit
  · rw [he₂]
    exact e.appends_emit

theorem Operand.twin (hr : List.Forall₂ (Handle.Twin m n k) results₁ results₂) (o : Operand) :
    Handle.Twin m n k (o.value results₁) (o.value results₂) := by
  cases o with
  | nil => exact .nil
  | t => exact .t
  | result i =>
      show Handle.Twin m n k (results₁.getD i .nil) (results₂.getD i .nil)
      induction hr generalizing i with
      | nil => exact .nil
      | cons h _ ih =>
          cases i with
          | zero => exact h
          | succ i => exact ih i

theorem EndsAlike.imp {R S : Handle → Handle → Prop} {x y : Outcome} (h : EndsAlike R x y)
    (himp : ∀ v₁ v₂, R v₁ v₂ → S v₁ v₂) : EndsAlike S x y := by
  cases h with
  | returned hv => exact .returned (himp _ _ hv)
  | absent => exact .absent
  | stopped s => exact .stopped s

theorem EndsAlike.result {x y : Outcome} (h : EndsAlike (Handle.Twin m n k) x y) :
    Handle.Twin m n k (x.handle?.getD .nil) (y.handle?.getD .nil) := by
  cases h with
  | returned hv => exact hv
  | absent => exact .nil
  | stopped s => exact .nil

theorem endsAlike_ofEntry {r₁ r₂ : EStateM.Result Stop Task Handle}
    (h : Lockstep m n k Stop.Documented (Handles m n) r₁ r₂) :
    ∃ k', k ≤ k' ∧ Task.Twin m n k' (Outcome.ofEntry r₁).2 (Outcome.ofEntry r₂).2 ∧
      EndsAlike (Handle.Twin m n k') (Outcome.ofEntry r₁).1 (Outcome.ofEntry r₂).1 := by
  cases h with
  | ok hk ht hv => exact ⟨_, hk, ht, .returned hv⟩
  | error hk ht hs => exact ⟨_, hk, ht, .stopped _⟩

theorem Instruction.perform_twin (ht : Task.Twin m n k task₁ task₂)
    (hr : List.Forall₂ (Handle.Twin m n k) results₁ results₂) (i : Instruction) :
    ∃ k', k ≤ k' ∧ Task.Twin m n k' (i.perform results₁ task₁).2 (i.perform results₂ task₂).2 ∧
      EndsAlike (Handle.Twin m n k') (i.perform results₁ task₁).1
        (i.perform results₂ task₂).1 := by
  cases i with
  | make atom =>
      -- Placing an atom is no entry point, but as one it does the same and never stops.
      exact endsAlike_ofEntry (lockstep_ofOp (lockstep_newAtom atom ht))
  | call primitive args =>
      have hargs : List.Forall₂ (Handle.Twin m n k) (args.map (·.value results₁))
          (args.map (·.value results₂)) := by
        rw [List.forall₂_map_left_iff, List.forall₂_map_right_iff, List.forall₂_same]
        exact fun o _ => o.twin hr
      have hcall := Call.twin_make? primitive hargs
      rw [perform, perform]
      generalize Call.make? primitive (args.map (·.value results₁)) = made₁ at hcall ⊢
      generalize Call.make? primitive (args.map (·.value results₂)) = made₂ at hcall ⊢
      cases hcall with
      | none => exact ⟨k, Nat.le_refl k, ht, .absent⟩
      | some hc => exact endsAlike_ofEntry (lockstep_enter ht hc)

/-- From two tasks in step, a program runs alike. -/
theorem events_alike (program : List Instruction) (ht : Task.Twin m n k task₁ task₂)
    (hr : List.Forall₂ (Handle.Twin m n k) results₁ results₂) :
    List.Forall₂ (Event.Alike m n) (events program results₁ task₁)
      (events program results₂ task₂) := by
  induction program generalizing k task₁ task₂ results₁ results₂ with
  | nil => exact .nil
  | cons i is ih =>
      obtain ⟨k', hk, ht', hends⟩ := i.perform_twin ht hr
      have hr' : List.Forall₂ (Handle.Twin m n k')
          (results₁ ++ [(i.perform results₁ task₁).1.handle?.getD .nil])
          (results₂ ++ [(i.perform results₂ task₂).1.handle?.getD .nil]) :=
        List.rel_append (hr.imp fun _ _ hv => hv.mono hk) (.cons hends.result .nil)
      refine .cons ⟨hends.imp fun _ _ => seenAlike_of_twin ht'.heap, ⟨k' - k, ?_, ?_⟩, ht'.out⟩
        (ih ht' hr')
      · show (i.perform results₁ task₁).2.heap.size = task₁.heap.size + (k' - k)
        rw [ht'.heap.size₁, ht.heap.size₁]
        omega
      · show (i.perform results₂ task₂).2.heap.size = task₂.heap.size + (k' - k)
        rw [ht'.heap.size₂, ht.heap.size₂]
        omega

end Program

/-- Any two sound heaps are twins as long as nothing has been added to them. -/
theorem Heap.Sound.twin (hs₁ : heap₁.Sound) (hs₂ : heap₂.Sound) :
    Heap.Twin heap₁.size heap₂.size 0 heap₁ heap₂ :=
  ⟨hs₁, hs₂, rfl, rfl, fun hj => absurd hj (Nat.not_lt_zero _)⟩

end

/-- One program on the heaps that two runs have left, whatever these were. -/
theorem programs_run_alike (names₁ names₂ : List String) (out₁ out₂ : Sink)
    (ops₁ ops₂ : List Operation) (h₁ : (Session.start names₁ out₁).permitsAll ops₁)
    (h₂ : (Session.start names₂ out₂).permitsAll ops₂) (program : List Program.Instruction) :
    let heap₁ := ((Session.start names₁ out₁).after ops₁).task.heap
    let heap₂ := ((Session.start names₂ out₂).after ops₂).task.heap
    List.Forall₂ (Program.Event.Alike heap₁.size heap₂.size)
      (Program.events program [] { heap := heap₁ })
      (Program.events program [] { heap := heap₂ }) := by
  intro heap₁ heap₂
  have hs₁ : heap₁.Sound := ((Session.sound_start names₁ out₁).after h₁).heap
  have hs₂ : heap₂.Sound := ((Session.sound_start names₂ out₂).after h₂).heap
  exact Program.events_alike program ⟨hs₁.twin hs₂, rfl⟩ .nil

/-- Builds `(x 3)`, stops on the head of an integer, and looks up and prints what it built. -/
def lookupProgram : List Program.Instruction :=
  [.make (.sym "x"), .make (.int 3), .call .cons [.result 0, .result 1],
    .call (.access .car) [.result 1], .call .list [.result 2, .nil],
    .call .assoc [.result 0, .result 4], .call .print [.result 5]]

theorem lookup_program_runs_alike :
    (Session.start ["x"] ⟨.bounded 4, ByteArray.empty⟩).permitsAll carefulRun ∧
    (Session.start [] {}).permitsAll [.newAtom (.str "x")] ∧
    let heap₁ := ((Session.start ["x"] ⟨.bounded 4, ByteArray.empty⟩).after carefulRun).task.heap
    let heap₂ := ((Session.start [] {}).after [.newAtom (.str "x")]).task.heap
    List.Forall₂ (Program.Event.Alike heap₁.size heap₂.size)
      (Program.events lookupProgram [] { heap := heap₁ })
      (Program.events lookupProgram [] { heap := heap₂ }) := by
  have h₁ : (Session.start ["x"] ⟨.bounded 4, ByteArray.empty⟩).permitsAll carefulRun := by
    decide +kernel
  have h₂ : (Session.start [] {}).permitsAll [.newAtom (.str "x")] := by decide +kernel
  exact ⟨h₁, h₂, programs_run_alike _ _ _ _ _ _ h₁ h₂ lookupProgram⟩

end LispHeap
