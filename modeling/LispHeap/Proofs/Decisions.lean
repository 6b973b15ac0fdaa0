import LispHeap.Proofs.Plans

/-!
# Operations decide before they place

What is known of entry points holds of every operation: before it places its first box, it is
settled which boxes are going to be placed and how the operation is going to end. Until then it may
have interned a name, recorded a failure or printed something, and nothing else. `Operation.Decides`
says so of a task, the task at that moment and the plan, and `exists_decision` goes through the
operations once to find both. Nothing behind it has to look at an operation to know what boxes it
places, what it records or where a limit stops it, because the plan is the same for every limit.

A plan has one of four shapes (`Operation.Places`): there is nothing to place, or one box with an
atom, be it of this heap or of another, or the pairs of a list. An operation that places boxes
returns the number of the last of them.
-/

namespace LispHeap

/-- What is recorded of the way a call has ended. -/
def Outcome.notes : Outcome → List Record
  | .stopped (.failed message) => [.panicked message]
  | _ => []

/-- The symbols that an operation puts into boxes, on a heap with these names. -/
def Operation.Gives (names : SymbolTable) (id : SymbolId) : Operation → Prop
  | .newAtom (.sym name) => id = (names.intern name).1
  | .place table (.sym name) => id = (table.intern name).1
  | _ => False

/-- What an operation has come to before its first box: the task as it is then, the boxes that are
going to be placed and the end. -/
inductive Operation.Places (op : Operation) (task : Task) : Task → Plan Outcome → Prop where
  | nothing {base : Task} {outcome : Outcome}
      (hheap : base.heap = task.heap ∨ ∃ name, base.heap = (task.heap.intern name).2)
      (hlog : base.log.toList = task.log.toList ++ outcome.notes) :
      Places op task base (.found outcome)
  | atom (atom : Atom)
      (hsym : ∀ name, atom = .sym name → op.Gives task.heap.symbols
        (task.heap.symbols.intern name).1) :
      Places op task (task.naming atom)
        ⟨[(atom.cell task.heap.symbols).1], .returned ⟨task.heap.size + 1⟩⟩
  | foreign (table : SymbolTable) (atom : Atom)
      (hsym : ∀ name, atom = .sym name → op.Gives task.heap.symbols (table.intern name).1) :
      Places op task task ⟨[(atom.cell table).1], .returned ⟨task.heap.size + 1⟩⟩
  | list {tail : Handle} {n : Nat} (hn : task.heap.listLength tail = .ok n) (x : Handle)
      (xs : List Handle) :
      Places op task task ⟨pairsOnto task.heap.size n tail (x :: xs),
        .returned ⟨task.heap.size + xs.length + 1⟩⟩

namespace Operation.Places

variable {op : Operation} {task base : Task} {plan : Plan Outcome}

theorem cells (h : op.Places task base plan) : base.heap.cells = task.heap.cells := by
  cases h with
  | nothing hheap hlog =>
      rcases hheap with hheap | ⟨name, hheap⟩
      · rw [hheap]
      · rw [hheap]
        rfl
  | atom | foreign | list => rfl

theorem size (h : op.Places task base plan) : base.heap.size = task.heap.size := by
  rw [Heap.size, h.cells, Heap.size]

theorem log (h : op.Places task base plan) :
    base.log.toList = task.log.toList ++ plan.result.notes := by
  cases h with
  | nothing hheap hlog => exact hlog
  | atom | foreign | list => exact (List.append_nil _).symm

/-- An operation that places boxes returns the number of the last of them. -/
theorem result (h : op.Places task base plan) (hne : plan.boxes ≠ []) :
    plan.result = .returned ⟨task.heap.size + plan.boxes.length⟩ := by
  cases h with
  | nothing hheap hlog => exact absurd rfl hne
  | atom | foreign => rfl
  | list hn x xs =>
      rw [length_pairsOnto]
      rfl

theorem gives (h : op.Places task base plan) {id : SymbolId} (hid : Cell.sym id ∈ plan.boxes) :
    op.Gives task.heap.symbols id := by
  have single : ∀ {atom : Atom} {table : SymbolTable}, Cell.sym id ∈ [(atom.cell table).1] →
      ∃ name, atom = .sym name ∧ id = (table.intern name).1 := by
    intro atom table hid
    cases atom with
    | sym name => exact ⟨name, rfl, Cell.sym.inj (List.mem_singleton.mp hid)⟩
    | int | str => cases List.mem_singleton.mp hid
  cases h with
  | nothing hheap hlog => cases hid
  | atom atom hsym =>
      obtain ⟨name, hatom, rfl⟩ := single hid
      exact hsym name hatom
  | foreign table atom hsym =>
      obtain ⟨name, hatom, rfl⟩ := single hid
      exact hsym name hatom
  | list hn x xs =>
      have htag : Tag.sym ∈ (pairsOnto task.heap.size _ _ (x :: xs)).map Cell.tag :=
        List.mem_map_of_mem hid
      rw [tags_pairsOnto] at htag
      exact absurd (List.eq_of_mem_replicate htag) (by decide)

end Operation.Places

/-! ## Decisions -/

/-- The end of an operation and the task as it is left, for a plan and the task that it is made
for. -/
def Task.settle (limit : Option Nat) (base : Task) (plan : Plan Outcome) : Outcome × Task :=
  match base.deliver Stop.fault limit plan with
  | .ok outcome left => (outcome, left)
  | .error s left => (.stopped s, left)

/-- Before its first box an operation has come to this task and this plan, whatever the limit. -/
structure Operation.Decides (op : Operation) (task base : Task) (plan : Plan Outcome) : Prop where
  places : op.Places task base plan
  follows : ∀ limit, op.performWithin limit task = base.settle limit plan

section Settling

variable {α β : Type} {limit : Option Nat} {base : Task} {cs : List Cell} {n : Nat}

theorem settle_of_le (h : ∀ n, limit = some n → cs.length ≤ n - base.heap.size)
    (outcome : Outcome) : base.settle limit ⟨cs, outcome⟩ = (outcome, base.placeAll cs) := by
  rw [Task.settle, Task.deliver_of_le h]

theorem settle_of_lt (h : n - base.heap.size < cs.length) (outcome : Outcome) :
    base.settle (some n) ⟨cs, outcome⟩ =
      (.stopped (.fault (.exhausted (base.heap.size + (n - base.heap.size)))),
        base.placeAll (cs.take (n - base.heap.size))) := by
  rw [Task.settle, Task.deliver_of_lt h]

theorem settle_found (limit : Option Nat) (base : Task) (outcome : Outcome) :
    base.settle limit (.found outcome) = (outcome, base) :=
  settle_of_le (fun _ _ => Nat.zero_le _) outcome

/-- What is made of the end of a delivery, whatever kind of stop a full heap is there. -/
theorem settle_eq_of_deliver {ε : Type} {raise : Fault → ε} {give : α → Outcome}
    {finish : EStateM.Result ε Task α → Outcome × Task}
    (hok : ∀ a left, finish (.ok a left) = (give a, left))
    (herror : ∀ f left, finish (.error (raise f) left) = (.stopped (.fault f), left))
    (limit : Option Nat) (base : Task) (plan : Plan α) :
    finish (base.deliver raise limit plan) =
      base.settle limit ⟨plan.boxes, give plan.result⟩ := by
  cases h : base.deliver raise limit plan with
  | ok a left =>
      obtain ⟨hfits, rfl, rfl⟩ := Task.deliver_ok h
      rw [hok, settle_of_le hfits]
  | error e left =>
      obtain ⟨n, rfl, hlt, rfl, rfl⟩ := Task.deliver_error h
      rw [herror, settle_of_lt hlt]

theorem ofOp_deliver (give : α → Outcome) (limit : Option Nat) (base : Task) (plan : Plan α) :
    Outcome.ofOp give (base.deliver Failure.fault limit plan) =
      base.settle limit ⟨plan.boxes, give plan.result⟩ :=
  settle_eq_of_deliver (fun _ _ => rfl) (fun _ _ => rfl) limit base plan

theorem ofEntry_deliver (limit : Option Nat) (base : Task) (plan : Plan Handle) :
    Outcome.ofEntry (base.deliver Stop.fault limit plan) =
      base.settle limit ⟨plan.boxes, .returned plan.result⟩ :=
  settle_eq_of_deliver (fun _ _ => rfl) (fun _ _ => rfl) limit base plan

theorem ofOp_map (give : β → Outcome) (f : α → β) (op : Op α) (task : Task) :
    Outcome.ofOp give ((f <$> op) task) = Outcome.ofOp (fun a => give (f a)) (op task) := by
  rw [map_eq_pure_bind]
  show Outcome.ofOp give (EStateM.bind op _ task) = _
  rw [EStateM.bind]
  cases op task with
  | ok a left => rfl
  | error e left => cases e <;> rfl

end Settling

section Deciding

variable {α : Type} {op : Operation} {task : Task}

theorem decides_nothing (base : Task) (outcome : Outcome)
    (hheap : base.heap = task.heap ∨ ∃ name, base.heap = (task.heap.intern name).2)
    (hlog : base.log.toList = task.log.toList ++ outcome.notes)
    (h : ∀ limit, op.performWithin limit task = (outcome, base)) :
    ∃ base plan, op.Decides task base plan :=
  ⟨base, .found outcome, .nothing hheap hlog, fun limit => by rw [h, settle_found]⟩

theorem decides_found (outcome : Outcome) (hnotes : outcome.notes = [])
    (h : ∀ limit, op.performWithin limit task = (outcome, task)) :
    ∃ base plan, op.Decides task base plan :=
  decides_nothing task outcome (Or.inl rfl) (by rw [hnotes, List.append_nil]) h

/-- An operation that stops has nothing left to do but to record it. -/
theorem decides_stop (base : Task) (s : Stop) (hheap : base.heap = task.heap)
    (hlog : base.log = task.log)
    (h : ∀ limit, op.performWithin limit task = (.stopped s, base.noting s)) :
    ∃ base plan, op.Decides task base plan := by
  refine decides_nothing (base.noting s) (.stopped s) (Or.inl ?_) ?_ h
  · rw [heap_noting, hheap]
  · cases s with
    | failed message => simp [Task.noting, Outcome.notes, hlog]
    | fault | thrown => simp [Task.noting, Outcome.notes, hlog]

/-- An operation that follows a plan, if there is one. -/
theorem decides_attempt (give : α → Outcome) (plan : Except Failure (Plan α))
    (hplan : ∀ p, plan = .ok p → op.Places task task ⟨p.boxes, give p.result⟩)
    (h : ∀ limit, op.performWithin limit task =
      Outcome.ofOp give (task.attemptWithin limit plan)) :
    ∃ base plan, op.Decides task base plan := by
  cases plan with
  | ok p =>
      refine ⟨task, ⟨p.boxes, give p.result⟩, hplan p rfl, fun limit => ?_⟩
      rw [h, Task.attemptWithin_ok, ofOp_deliver]
  | error e =>
      cases e with
      | refused e => exact decides_found (.refused e) rfl h
      | fault f => exact decides_found (.stopped (.fault f)) rfl h

theorem decides_carryOut (plan : Except Stop (Plan Handle))
    (hplan : ∀ p, plan = .ok p → op.Places task task ⟨p.boxes, .returned p.result⟩)
    (h : ∀ limit, op.performWithin limit task =
      Outcome.ofEntry (task.carryOutWithin limit plan)) :
    ∃ base plan, op.Decides task base plan := by
  cases plan with
  | ok p =>
      refine ⟨task, ⟨p.boxes, .returned p.result⟩, hplan p rfl, fun limit => ?_⟩
      rw [h, Task.carryOutWithin_ok, ofEntry_deliver]
  | error s => exact decides_stop task s rfl rfl h

end Deciding

/-! ## The shapes of plans -/

section Shapes

variable {α : Type} {op : Operation} {task : Task}

theorem places_found (a : α) (give : α → Outcome) (hnotes : (give a).notes = []) :
    op.Places task task ⟨(Plan.found a).boxes, give (Plan.found a).result⟩ :=
  .nothing (Or.inl rfl) (by rw [Plan.found, hnotes, List.append_nil])

theorem places_question {answer : Except Failure α} {p : Plan α} (give : α → Outcome)
    (hnotes : ∀ a, (give a).notes = []) (h : answer.map .found = .ok p) :
    op.Places task task ⟨p.boxes, give p.result⟩ := by
  cases answer with
  | ok a =>
      obtain rfl := Except.ok.inj h
      exact places_found a give (hnotes a)
  | error e => cases h

theorem places_number (task : Task) (value : Int32) :
    op.Places task task ⟨(Plan.number task.heap value).boxes,
      .returned (Plan.number task.heap value).result⟩ :=
  .atom (.int value) fun _ h => by cases h

theorem places_list {tail : Handle} {n : Nat} (hn : task.heap.listLength tail = .ok n)
    (elems : List Handle) :
    op.Places task task ⟨(Plan.list task.heap elems tail n).boxes,
      .returned (Plan.list task.heap elems tail n).result⟩ := by
  cases elems with
  | nil => exact places_found tail .returned rfl
  | cons x xs => exact .list hn x xs

theorem places_consPlan {head tail : Handle} {p : Plan Handle}
    (h : task.heap.consPlan head tail = .ok p) :
    op.Places task task ⟨p.boxes, .returned p.result⟩ := by
  rw [Heap.consPlan] at h
  obtain ⟨found, _, h⟩ := bind_eq_ok h
  split at h
  · obtain ⟨n, hn, h⟩ := bind_eq_ok h
    obtain rfl := Except.ok.inj h
    exact places_list (mapError_eq_ok hn) [head]
  · obtain ⟨n, hn, h⟩ := bind_eq_ok h
    obtain rfl := Except.ok.inj h
    exact places_list (mapError_eq_ok hn) [head]
  · obtain rfl := Except.ok.inj h
    exact places_list (Heap.listLength_nil task.heap) [head, tail]
  · cases h

theorem places_appendPlan {front back : Handle} {p : Plan Handle}
    (h : task.heap.appendPlan front back = .ok p) :
    op.Places task task ⟨p.boxes, .returned p.result⟩ := by
  rw [Heap.appendPlan] at h
  obtain ⟨_, _, h⟩ := bind_eq_ok h
  obtain ⟨_, _, h⟩ := bind_eq_ok h
  obtain ⟨elems, _, h⟩ := bind_eq_ok h
  obtain ⟨n, hn, h⟩ := bind_eq_ok h
  obtain rfl := Except.ok.inj h
  exact places_list (mapError_eq_ok hn) elems

theorem places_plan {call : Call} {p : Plan Handle} (h : call.plan task.heap = .ok p) :
    op.Places task task ⟨p.boxes, .returned p.result⟩ := by
  cases call with
  | cons head tail => exact places_consPlan (mapError_eq_ok h)
  | append front back => exact places_appendPlan (mapError_eq_ok h)
  | list elems =>
      obtain rfl := Except.ok.inj h
      exact places_list (Heap.listLength_nil task.heap) elems
  | length v =>
      obtain ⟨n, _, h⟩ := bind_eq_ok h
      split at h
      · obtain rfl := Except.ok.inj h
        exact places_number task _
      · cases h
  | mul | sub =>
      obtain ⟨value, _, h⟩ := bind_eq_ok h
      obtain rfl := Except.ok.inj h
      exact places_number task value
  | null | not | and | or | print =>
      obtain rfl := Except.ok.inj h
      exact places_found _ .returned rfl
  | access | assoc | atom | eq | numberp | assert | gt =>
      obtain ⟨_, _, h⟩ := bind_eq_ok h
      obtain rfl := Except.ok.inj h
      exact places_found _ .returned rfl

end Shapes

/-! ## The operations -/

section Operations

variable {α : Type} {op : Operation} {task : Task}

/-- An operation behind a primitive, with what it gives turned into a value. -/
theorem decides_core {call : Call} {f : α → Call.Value} {run : Option Nat → Op α}
    {plan : Except Failure (Plan α)}
    (hcall : ∀ limit, call.runWithin? limit = some (f <$> run limit))
    (hrun : ∀ limit, run limit task = task.attemptWithin limit plan)
    (hplan : ∀ p, plan = .ok p →
      (Operation.core call).Places task task ⟨p.boxes, .value (f p.result)⟩) :
    ∃ base plan, (Operation.core call).Decides task base plan := by
  refine decides_attempt (fun a => .value (f a)) plan hplan fun limit => ?_
  rw [Operation.performWithin, hcall, ← hrun]
  exact ofOp_map Outcome.value f (run limit) task

theorem exists_decision_core (call : Call) (task : Task) :
    ∃ base plan, (Operation.core call).Decides task base plan := by
  have asks : ∀ {β : Type} {f : β → Call.Value} {question : Heap → Except Failure β},
      (∀ limit, call.runWithin? limit = some (f <$> Op.ask question)) →
      ∃ base plan, (Operation.core call).Decides task base plan := fun {_ f _} hcall =>
    decides_core hcall (fun limit => ask_eq_attemptWithin limit _)
      fun p hp => places_question (fun a => .value (f a)) (fun a => rfl) hp
  have looks : ∀ {β : Type} {f : β → Call.Value} {question : Heap → Except Fault β},
      (∀ limit, call.runWithin? limit = some (f <$> Op.look question)) →
      ∃ base plan, (Operation.core call).Decides task base plan := fun {_ f _} hcall =>
    decides_core hcall (fun limit => look_eq_attemptWithin limit _)
      fun p hp => places_question (fun a => .value (f a)) (fun a => rfl) hp
  cases call with
  | cons head tail =>
      exact decides_core (fun _ => rfl) (fun limit => consWithin_eq_attempt limit head tail task)
        fun p hp => places_consPlan hp
  | append front back =>
      exact decides_core (fun _ => rfl)
        (fun limit => appendWithin_eq_attempt limit front back task)
        fun p hp => places_appendPlan hp
  | list elems =>
      have hnil := Heap.listLength_nil task.heap
      refine decides_core (fun _ => rfl) (fun limit => listOntoWithin_eq_attempt hnil elems)
        fun p hp => ?_
      obtain rfl := Except.ok.inj hp
      exact places_list hnil elems
  | null v => exact decides_found (.value (.truth v.isNil)) rfl fun _ => rfl
  | atom | eq => exact looks fun _ => rfl
  | access | length | assoc | assert | gt | mul | sub => exact asks fun _ => rfl
  | numberp | not | and | or | print => exact decides_found .absent rfl fun _ => rfl

theorem exists_decision_enter (call : Call) (task : Task) :
    ∃ base plan, (Operation.enter call).Decides task base plan := by
  cases hprint : call.printing with
  | false =>
      refine decides_carryOut (call.plan task.heap) (fun p hp => places_plan hp) fun limit => ?_
      rw [Operation.performWithin, enterWithin_eq_carryOut hprint]
  | true =>
      cases call with
      | print v =>
          have hprint := enter_print v task
          cases hout : task.heap.print v task.out with
          | ok _ out =>
              rw [hout] at hprint
              exact decides_nothing { task with out := out } (.returned .nil) (Or.inl rfl)
                (List.append_nil _).symm fun limit => congrArg Outcome.ofEntry hprint
          | error e out =>
              rw [hout] at hprint
              exact decides_stop { task with out := out } e.stop rfl rfl
                fun limit => congrArg Outcome.ofEntry hprint
      | _ => cases hprint

theorem exists_decision_listOnto (elems : List Handle) (tail : Handle) (task : Task)
    (h : ∀ limit, op.performWithin limit task =
      Outcome.ofOp .returned (Op.listOntoWithin limit elems tail task)) :
    ∃ base plan, op.Decides task base plan := by
  cases hn : task.heap.listLength tail with
  | ok n =>
      refine decides_attempt .returned (.ok (.list task.heap elems tail n)) ?_ fun limit => ?_
      · rintro p ⟨⟩
        exact places_list hn elems
      · rw [h, listOntoWithin_eq_attempt hn]
  | error f =>
      cases elems with
      | nil => exact decides_found (.returned tail) rfl h
      | cons x xs =>
          refine decides_found (.stopped (.fault f)) rfl fun limit => ?_
          rw [h, listOntoWithin_of_fault hn]
          rfl

end Operations

theorem exists_decision (op : Operation) (task : Task) :
    ∃ base plan, op.Decides task base plan := by
  cases op with
  | newAtom atom =>
      refine ⟨task.naming atom, _, .atom atom ?_, fun limit => ?_⟩
      · rintro name rfl
        rfl
      · rw [Operation.performWithin, newAtomWithin_eq, ofOp_deliver]
  | newPair head rest => exact exists_decision_listOnto [head] rest task fun _ => rfl
  | listOnto elems tail => exact exists_decision_listOnto elems tail task fun _ => rfl
  | intern name =>
      exact decides_nothing { task with heap := (task.heap.intern name).2 }
        (.symbol (task.heap.intern name).1) (Or.inr ⟨name, rfl⟩) (List.append_nil _).symm
        fun limit => rfl
  | place table atom =>
      refine ⟨task, _, .foreign table atom ?_, fun limit => ?_⟩
      · rintro name rfl
        rfl
      · rw [Operation.performWithin, placeWithin_eq, ofOp_deliver]
  | narrow type v =>
      have hnotes : ∀ found, (Outcome.ofNarrowed found).notes = [] := by
        intro found
        cases found <;> rfl
      exact decides_attempt .ofNarrowed _ (fun p hp => places_question _ hnotes hp)
        fun limit => congrArg (Outcome.ofOp .ofNarrowed) (look_eq_attemptWithin limit _)
  | core call => exact exists_decision_core call task
  | enter call => exact exists_decision_enter call task

end LispHeap
