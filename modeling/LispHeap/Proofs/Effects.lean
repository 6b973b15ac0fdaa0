import LispHeap.Proofs.Descriptors
import LispHeap.Proofs.Rendering

/-!
# What is seen of a call

Whoever calls an entry point gets a handle. Somebody who watches the task from outside sees less: a
call has printed a line, or it has stopped the task with a text, or there was nothing to be seen.
`Call.effect` says which, and says it without the entry point. What a call prints is the expression
that its argument reads as, and what stops it is what the operation behind the entry point answers:
its error, or a number for which there is no integer.

So an entry point and its operation are two readings of one primitive, and the point to be made is
that they fail together and with one text. An entry point decides before it places
(`enter_eq_carryOut`), so this is a matter of its plan: `plan_eq_failed_iff` goes through the
primitives once.
-/

namespace LispHeap

/-- What there is to be seen of a call from outside. -/
inductive Effect where
  | silent
  | printed (e : SExpr)
  | stopped (message : String)

/-! ## How a call ends -/

/-- The text of a refusal. -/
def refusal {α : Type} : Except Failure α → Option String
  | .error (.refused e) => some e.message
  | _ => none

/-- What a caller that needs a handle has to say about the end of an operation: its error, or that
there is no integer for its number. -/
def complaint : EStateM.Result Failure Task Call.Value → Option String
  | .error (.refused e) _ => some e.message
  | .ok (.number n) _ =>
    if n < 2147483648 then none else some ("length: " ++ n.repr ++ " does not fit in an Int")
  | _ => none

namespace Call

/-- What the operation behind a call has to say, on a task. -/
def complaint? (call : Call) (task : Task) : Option String :=
  call.run?.bind fun operation => complaint (operation task)

/-- A call prints the value that it is given, or is stopped by what the operation behind it says. -/
def effect (call : Call) (task : Task) : Effect :=
  match call with
  | .print v =>
    match task.heap.decode v with
    | .ok e => .printed e
    | .error _ => .silent
  | _ =>
    match call.complaint? task with
    | some message => .stopped message
    | none => .silent

theorem effect_of_not_printing {call : Call} (h : call.printing = false) (task : Task) :
    call.effect task =
      match call.complaint? task with
      | some message => .stopped message
      | none => .silent := by
  cases call with
  | print v => cases h
  | _ => rfl

end Call

section Complaints

variable {α β : Type} {task : Task} {message : String}

theorem refusal_map (x : Except Failure α) (f : α → β) : refusal (x.map f) = refusal x := by
  cases x with
  | ok a => rfl
  | error e => cases e <;> rfl

theorem refusal_fault (x : Except Fault α) : refusal (x.mapError .fault) = none := by
  cases x <;> rfl

theorem mapError_eq_failed_iff {x : Except Failure α} :
    x.mapError Failure.stop = .error (.failed message) ↔ refusal x = some message := by
  cases x with
  | ok a => simp [Except.mapError, refusal]
  | error e => cases e <;> simp [Except.mapError, Failure.stop, refusal]

theorem bind_eq_failed_iff {x : Except Failure α} {f : α → Except Stop β}
    (hf : ∀ a, ∃ b, f a = .ok b) :
    (x.mapError Failure.stop >>= f) = .error (.failed message) ↔ refusal x = some message := by
  rw [← mapError_eq_failed_iff]
  cases x with
  | ok a =>
      obtain ⟨b, hb⟩ := hf a
      show f a = _ ↔ Except.ok a = _
      simp [hb]
  | error e =>
      show Except.error e.stop = _ ↔ Except.error e.stop = _
      rw [Except.error.injEq, Except.error.injEq]

/-- An operation complains of nothing but its refusal, if no number that it gives is too large. -/
theorem complaint_map {op : Op α} {plan : Except Failure (Plan α)} {f : α → Call.Value}
    (h : op task = task.attempt plan) (hf : ∀ a left, complaint (.ok (f a) left) = none) :
    complaint ((f <$> op) task) = refusal plan := by
  rw [map_eq_attempt f h]
  cases plan with
  | ok plan => exact hf plan.result _
  | error e => cases e <;> rfl

theorem complaint_question {op : Op α} {answer : Except Failure α} {f : α → Call.Value}
    (h : op task = task.attempt (answer.map .found))
    (hf : ∀ a left, complaint (.ok (f a) left) = none) :
    complaint ((f <$> op) task) = refusal answer :=
  (complaint_map h hf).trans (refusal_map answer Plan.found)

theorem complaint_int32 (value : Int32) (left : Task) :
    complaint (.ok (.number value.toInt) left) = none :=
  if_pos (by have := value.toInt_lt; omega)

theorem complaint_natural (n : Nat) (left : Task) :
    complaint (.ok (.number n) left) =
      if n < 2147483648 then none
      else some ("length: " ++ n.repr ++ " does not fit in an Int") := by
  simp only [complaint]
  by_cases hn : n < 2147483648
  · rw [if_pos hn, if_pos (by omega)]
  · rw [if_neg hn, if_neg (by omega)]
    rfl

theorem plan_length_eq_failed_iff (v : Handle) :
    (Call.length v).plan task.heap = .error (.failed message) ↔
      (Call.length v).complaint? task = some message := by
  have hplan : (Call.length v).plan task.heap = (task.heap.length v).mapError Failure.stop >>=
      fun n => if n < 2147483648 then .ok (.number task.heap (.ofNat n))
        else .error (.failed ("length: " ++ n.repr ++ " does not fit in an Int")) := rfl
  have hend : (Call.length v).complaint? task =
      match task.heap.length v with
      | .ok n => complaint (.ok (.number n) task)
      | .error e => refusal (.error e : Except Failure Nat) := by
    rw [Call.complaint?, Call.run?, Call.runWithin?, Option.bind_some, map_eq_pure_bind]
    show complaint (EStateM.bind (Op.ask _) _ task) = _
    rw [EStateM.bind, Op.ask]
    cases task.heap.length v with
    | ok n => rfl
    | error e => cases e <;> rfl
  rw [hplan, hend]
  cases task.heap.length v with
  | ok n =>
      show (if n < 2147483648 then _ else _) = _ ↔ complaint (.ok (.number n) task) = _
      rw [complaint_natural]
      split
      · constructor <;> intro h <;> cases h
      · simp
  | error e =>
      cases e with
      | refused e =>
          show Except.error (Stop.failed e.message) = _ ↔ some e.message = _
          simp
      | fault f => constructor <;> intro h <;> cases h

/-- The plan of a call fails just where the operation behind it has a complaint, with its text. -/
theorem plan_eq_failed_iff {call : Call} (h : call.printing = false) :
    call.plan task.heap = .error (.failed message) ↔ call.complaint? task = some message := by
  have returns : ∀ plan : Plan Handle, ∃ p, (pure plan : Except Stop (Plan Handle)) = .ok p :=
    fun plan => ⟨plan, rfl⟩
  cases call with
  | cons head tail =>
      show (task.heap.consPlan head tail).mapError Failure.stop = _ ↔
        complaint ((.handle <$> Op.cons head tail) task) = _
      rw [complaint_map (cons_eq_attempt head tail task) fun _ _ => rfl]
      exact mapError_eq_failed_iff
  | append front back =>
      show (task.heap.appendPlan front back).mapError Failure.stop = _ ↔
        complaint ((.handle <$> Op.append front back) task) = _
      rw [complaint_map (append_eq_attempt front back task) fun _ _ => rfl]
      exact mapError_eq_failed_iff
  | list elems =>
      have hlist : Op.newList elems task = task.attempt (.ok (.list task.heap elems .nil 0)) :=
        listOnto_eq_attempt (Heap.listLength_nil task.heap) elems
      show _ ↔ complaint ((.handle <$> Op.newList elems) task) = _
      rw [complaint_map hlist fun _ _ => rfl]
      constructor <;> intro h <;> cases h
  | length v => exact plan_length_eq_failed_iff v
  | access | assoc | gt | assert =>
      show _ ↔ complaint _ = _
      rw [complaint_question (ask_eq_attempt _) fun _ _ => rfl]
      exact bind_eq_failed_iff fun a => returns _
  | atom | eq =>
      show _ ↔ complaint _ = _
      rw [complaint_question (look_eq_attempt _) fun _ _ => rfl]
      exact bind_eq_failed_iff fun a => returns _
  | mul | sub =>
      show _ ↔ complaint _ = _
      rw [complaint_question (ask_eq_attempt _) complaint_int32]
      exact bind_eq_failed_iff fun a => returns _
  | numberp v =>
      refine (bind_eq_failed_iff fun a => returns _).trans ?_
      show refusal ((task.heap.isA .int v).mapError .fault) = _ ↔ none = _
      rw [refusal_fault]
  | null | not | and | or => constructor <;> intro h <;> cases h
  | print v => cases h

end Complaints

/-! ## What it takes to return -/

section Entering

variable {task left : Task} {call : Call}

theorem enter_of_complaint (hprint : call.printing = false) {message : String}
    (h : call.complaint? task = some message) :
    ∃ left, call.enter task = .error (.failed message) left ∧ left.out = task.out := by
  rw [enter_eq_carryOut hprint, (plan_eq_failed_iff hprint).mpr h]
  exact ⟨_, rfl, rfl⟩

namespace Heap.Sound

/-- On values of a sound heap an entry point does not fault, so it stops with a text. -/
theorem failed_of_enter (hs : task.heap.Sound) (hargs : ∀ v ∈ call.handles, task.heap.Has v)
    {s : Stop} (h : call.enter task = .error s left) : ∃ message, s = .failed message := by
  have ht : Task.Twin 1 1 (task.heap.size - 1) task task := ⟨hs.twin_self, rfl⟩
  have hlock := lockstep_enter ht (call.twin_self fun v hv => (hargs v hv).twin_self)
  rw [h] at hlock
  cases hlock with
  | error _ _ hs => cases hs <;> exact ⟨_, rfl⟩

theorem enter_of_no_complaint (hs : task.heap.Sound)
    (hargs : ∀ v ∈ call.handles, task.heap.Has v) (hprint : call.printing = false)
    (h : call.complaint? task = none) :
    ∃ v left, call.enter task = .ok v left ∧ left.out = task.out := by
  have henter := enter_eq_carryOut hprint task
  cases hplan : call.plan task.heap with
  | ok plan =>
      rw [hplan] at henter
      exact ⟨_, _, henter, task.out_placeAll plan.boxes⟩
  | error s =>
      -- A fault would be no complaint, but on this heap there is none.
      rw [hplan] at henter
      obtain ⟨message, rfl⟩ := hs.failed_of_enter hargs henter
      rw [(plan_eq_failed_iff hprint).mp hplan] at h
      cases h

end Heap.Sound

end Entering

end LispHeap
