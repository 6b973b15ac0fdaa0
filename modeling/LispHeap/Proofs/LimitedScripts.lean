import LispHeap.Proofs.Launches
import LispHeap.Proofs.Limits

/-!
# Scripts below the limit

The programs that are run have heaps with a limit, and what is said of launches and of answers is
said without one. The two are the same as long as no heap of a program would pass the limit.

`AgreeBelow` compares a computation that has a limit with one that has none. The second one never
takes a box away, so if it ends below the limit then it was below the limit all the time, and the
first one has done the same up to there. This is what lets the comparison go from the parts of a
computation to the whole (`AgreeBelow.bind`). What the parts do that place boxes is known from the
operations that they are, and all other parts are the same on both sides.
-/

namespace LispHeap

/-- The state at the end of a computation, however that ended. -/
def stateLeft {ε σ α : Type} : EStateM.Result ε σ α → σ
  | .ok _ s => s
  | .error _ s => s

/-- The second computation adds to the sizes of a state, and where none of them is more than `n` in
the end, the first one does the same. -/
structure AgreeBelow {ε σ ι α : Type} (size : σ → ι → Nat) (n : Nat)
    (limited whole : EStateM ε σ α) : Prop where
  grows : ∀ s i, size s i ≤ size (stateLeft (whole s)) i
  same : ∀ s, (∀ i, size (stateLeft (whole s)) i ≤ n) → limited s = whole s

namespace AgreeBelow

variable {ε σ ι α β : Type} {size : σ → ι → Nat} {n : Nat}

/-- A computation that changes no size agrees with itself. -/
theorem rfl_of_still {x : EStateM ε σ α} (h : ∀ s, size (stateLeft (x s)) = size s) :
    AgreeBelow size n x x :=
  ⟨fun s i => Nat.le_of_eq (congrFun (h s).symm i), fun _ _ => rfl⟩

theorem pure (a : α) : AgreeBelow size n (Pure.pure a : EStateM ε σ α) (Pure.pure a) :=
  rfl_of_still fun _ => rfl

theorem throw (e : ε) :
    AgreeBelow size n (MonadExcept.throw e : EStateM ε σ α) (MonadExcept.throw e) :=
  rfl_of_still fun _ => rfl

theorem bind {x y : EStateM ε σ α} {f g : α → EStateM ε σ β} (h : AgreeBelow size n x y)
    (hf : ∀ a, AgreeBelow size n (f a) (g a)) : AgreeBelow size n (x >>= f) (y >>= g) := by
  refine ⟨fun s i => ?_, fun s hs => ?_⟩
  · have hfirst := h.grows s i
    show size s i ≤ size (stateLeft (EStateM.bind y g s)) i
    rw [EStateM.bind]
    cases hy : y s with
    | ok a mid =>
        rw [hy] at hfirst
        exact Nat.le_trans hfirst ((hf a).grows mid i)
    | error e mid =>
        rw [hy] at hfirst
        exact hfirst
  · have hs : ∀ i, size (stateLeft (EStateM.bind y g s)) i ≤ n := hs
    show EStateM.bind x f s = EStateM.bind y g s
    rw [EStateM.bind] at hs
    -- The sizes in between are at most those at the end.
    have hmid : x s = y s := by
      refine h.same s fun i => ?_
      cases hy : y s with
      | ok a mid =>
          rw [hy] at hs
          exact Nat.le_trans ((hf a).grows mid i) (hs i)
      | error e mid =>
          rw [hy] at hs
          exact hs i
    rw [EStateM.bind, EStateM.bind, hmid]
    cases hy : y s with
    | ok a mid =>
        rw [hy] at hs
        exact (hf a).same mid hs
    | error e mid => rfl

theorem map {x y : EStateM ε σ α} (h : AgreeBelow size n x y) (f : α → β) :
    AgreeBelow size n (f <$> x) (f <$> y) := by
  rw [map_eq_pure_bind, map_eq_pure_bind]
  exact h.bind fun a => .pure (f a)

/-- To make something else of the end of a computation changes nothing, if no size is changed. -/
theorem through {ε' : Type} {x y : EStateM ε σ α} {f : EStateM ε σ α → EStateM ε' σ β}
    (h : AgreeBelow size n x y)
    (hsize : ∀ x s, size (stateLeft (f x s)) = size (stateLeft (x s)))
    (hcongr : ∀ s, x s = y s → f x s = f y s) : AgreeBelow size n (f x) (f y) := by
  refine ⟨fun s i => ?_, fun s hs => ?_⟩
  · rw [hsize]
    exact h.grows s i
  · exact hcongr s (h.same s fun i => hsize y s ▸ hs i)

end AgreeBelow

/-! ## Operations -/

/-- How many boxes the one heap of a task has. -/
def Task.boxes (task : Task) (_ : Unit) : Nat := task.heap.size

section Operations

variable {α : Type} {n : Nat}

theorem agree_ask (question : Heap → Except Failure α) :
    AgreeBelow Task.boxes n (Op.ask question) (Op.ask question) := by
  refine .rfl_of_still fun task => ?_
  rw [Op.ask]
  split <;> rfl

theorem agree_look (question : Heap → Except Fault α) :
    AgreeBelow Task.boxes n (Op.look question) (Op.look question) := by
  refine .rfl_of_still fun task => ?_
  rw [Op.look]
  split <;> rfl

theorem agree_place (c : Cell) :
    AgreeBelow Task.boxes n (Op.placeWithin (some n) c) (Op.placeWithin none c) := by
  have hgrown : ∀ task i, Task.boxes (stateLeft (Op.place c task)) i = task.heap.size + 1 :=
    fun task _ => Heap.size_push task.heap c
  refine ⟨fun task i => ?_, fun task hs => ?_⟩
  · show task.heap.size ≤ Task.boxes (stateLeft (Op.place c task)) i
    rw [hgrown]
    exact Nat.le_succ _
  · have hle : Task.boxes (stateLeft (Op.place c task)) () ≤ n := hs ()
    rw [hgrown] at hle
    exact if_pos hle

theorem agree_newAtom (atom : Atom) :
    AgreeBelow Task.boxes n (Op.newAtomWithin (some n) atom) (Op.newAtomWithin none atom) :=
  .bind (.rfl_of_still fun _ => rfl) fun c => agree_place c

theorem agree_newPair (head rest : Handle) :
    AgreeBelow Task.boxes n (Op.newPairWithin (some n) head rest)
      (Op.newPairWithin none head rest) :=
  .bind (agree_look _) fun _ => agree_place _

theorem agree_listOnto (elems : List Handle) (tail : Handle) :
    AgreeBelow Task.boxes n (Op.listOntoWithin (some n) elems tail)
      (Op.listOntoWithin none elems tail) := by
  induction elems with
  | nil => exact .pure tail
  | cons x xs ih => exact ih.bind fun l => agree_newPair x l

theorem agree_newInts (count : Nat) (start : Int32) :
    AgreeBelow Task.boxes n (Op.newIntsWithin (some n) count start)
      (Op.newIntsWithin none count start) := by
  induction count generalizing start with
  | zero => exact .pure []
  | succ count ih => exact .bind (agree_newAtom _) fun h => (ih _).bind fun _ => .pure _

theorem agree_nest (count : Nat) (v : Handle) :
    AgreeBelow Task.boxes n (Op.nestWithin (some n) count v) (Op.nestWithin none count v) := by
  induction count generalizing v with
  | zero => exact .pure v
  | succ count ih => exact .bind (agree_listOnto [v] .nil) fun l => ih l

/-- A call that is cut short would have ended above the limit. -/
theorem agree_of_bounded {ε : Type} {raise : Fault → ε} {x y : EStateM ε Task Handle}
    (hy : Growing y)
    (h : ∀ task : Task, task.heap.size ≤ n → Bounded raise n (y task) (x task)) :
    AgreeBelow Task.boxes n x y := by
  have hleft : ∀ task, stateLeft (y task) = taskLeft (y task) := fun task => by
    cases y task <;> rfl
  have hgrows : ∀ task : Task, task.heap.size ≤ (taskLeft (y task)).heap.size :=
    fun task => (hy task).size_le
  refine ⟨fun task _ => ?_, fun task hs => ?_⟩
  · rw [hleft]
    exact hgrows task
  · have hend : (taskLeft (y task)).heap.size ≤ n := hleft task ▸ hs ()
    cases h task (Nat.le_trans (hgrows task) hend) with
    | fits heq _ => exact heq
    | full hwhole hlt _ _ =>
        rw [hwhole] at hend
        exact absurd hlt (Nat.not_lt_of_le hend)

theorem agree_enter (call : Call) :
    AgreeBelow Task.boxes n (call.enterWithin (some n)) (call.enterWithin none) :=
  agree_of_bounded (growing_enter call) fun _ hsize => enterWithin_bounded hsize call

/-- The operations behind a primitive, of which there are two or none. -/
theorem agree_run? (call : Call) :
    (call.runWithin? (some n) = none ∧ call.runWithin? none = none) ∨
    ∃ limited whole, call.runWithin? (some n) = some limited ∧
      call.runWithin? none = some whole ∧ AgreeBelow Task.boxes n limited whole := by
  cases call with
  | cons head tail =>
      refine Or.inr ⟨_, _, rfl, rfl, AgreeBelow.map ?_ _⟩
      exact agree_of_bounded (growing_cons head tail) fun _ h => consWithin_bounded h head tail
  | append front back =>
      refine Or.inr ⟨_, _, rfl, rfl, AgreeBelow.map ?_ _⟩
      exact agree_of_bounded (growing_append front back) fun _ h =>
        appendWithin_bounded h front back
  | list elems => exact Or.inr ⟨_, _, rfl, rfl, (agree_listOnto elems .nil).map _⟩
  | null v => exact Or.inr ⟨_, _, rfl, rfl, .pure _⟩
  | atom | eq => exact Or.inr ⟨_, _, rfl, rfl, (agree_look _).map _⟩
  | access | length | assoc | assert | gt | mul | sub =>
      exact Or.inr ⟨_, _, rfl, rfl, (agree_ask _).map _⟩
  | numberp | not | and | or | print => exact Or.inl ⟨rfl, rfl⟩

end Operations

/-! ## Parts of a step -/

namespace Script

/-- How many boxes a heap of the machine has. -/
def Machine.boxes (m : Machine) (k : Nat) : Nat := (m.heaps[k]?.map Heap.size).getD 0

section Parts

variable {α : Type} {n : Nat}

theorem Machine.boxes_of_task? {m : Machine} {k : Nat} {task : Task} (h : m.task? k = some task) :
    m.boxes k = task.heap.size := by
  obtain ⟨heap, hheap, rfl⟩ := Option.map_eq_some_iff.mp h
  rw [boxes, hheap]
  rfl

theorem Machine.boxes_resume {m : Machine} {k : Nat} {task : Task} (h : m.task? k = some task)
    (left : Task) (j : Nat) :
    ((m.suspend k).resume k left).boxes j = if j = k then left.heap.size else m.boxes j := by
  obtain ⟨heap, hheap, _⟩ := Option.map_eq_some_iff.mp h
  have hk : k < m.heaps.size := (Array.getElem?_eq_some_iff.mp hheap).1
  by_cases hj : j = k
  · subst hj
    simp [boxes, resume, suspend, hk]
  · simp [boxes, resume, suspend, hj, Array.getElem?_setIfInBounds_ne (Ne.symm hj)]

theorem agree_inside {limited whole : Entry α} (h : AgreeBelow Task.boxes n limited whole)
    (k : Nat) : AgreeBelow Machine.boxes n (Run.enter k limited) (Run.enter k whole) := by
  have hleft : ∀ {m : Machine} {task : Task}, m.task? k = some task →
      stateLeft (Run.enter k whole m) = (m.suspend k).resume k (stateLeft (whole task)) := by
    intro m task htask
    cases hwhole : whole task <;> simp only [Run.enter, htask, hwhole, stateLeft]
  refine ⟨fun m j => ?_, fun m hs => ?_⟩
  · cases htask : m.task? k with
    | none =>
        have hstill : Run.enter k whole m = .error .malformed m := by rw [Run.enter, htask]
        exact Nat.le_of_eq (congrArg (fun r => (stateLeft r).boxes j) hstill).symm
    | some task =>
        rw [hleft htask, Machine.boxes_resume htask]
        split
        · next hj =>
            rw [hj, Machine.boxes_of_task? htask]
            exact h.grows task ()
        · exact Nat.le_refl _
  · cases htask : m.task? k with
    | none => rw [Run.enter, Run.enter, htask]
    | some task =>
        have hend := hs k
        rw [hleft htask, Machine.boxes_resume htask, if_pos rfl] at hend
        rw [Run.enter, Run.enter, htask]
        simp only [h.same task fun _ => hend]

theorem agree_op {limited whole : Op α} (h : AgreeBelow Task.boxes n limited whole) (k : Nat) :
    AgreeBelow Machine.boxes n (Run.op k limited) (Run.op k whole) := by
  refine agree_inside (h.through (fun op task => ?_) fun task heq => ?_) k
  · rw [Entry.ofOp]
    rcases op task with ⟨_, _⟩ | ⟨_ | _, _⟩ <;> rfl
  · rw [Entry.ofOp, Entry.ofOp, heq]

theorem agree_attempt {limited whole : Op α} (h : AgreeBelow Task.boxes n limited whole) (k : Nat) :
    AgreeBelow Machine.boxes n (Run.attempt k limited) (Run.attempt k whole) := by
  refine agree_inside (h.through (fun op task => ?_) fun task heq => ?_) k
  · rw [Run.answering]
    rcases op task with ⟨_, _⟩ | ⟨_ | _, _⟩ <;> rfl
  · rw [Run.answering, Run.answering, heq]

theorem agree_heap (k : Nat) : AgreeBelow Machine.boxes n (Run.heap k) (Run.heap k) := by
  refine .rfl_of_still fun m => ?_
  rw [Run.heap]
  split <;> rfl

theorem agree_register (k : Nat) :
    AgreeBelow Machine.boxes n (Run.register k) (Run.register k) := by
  refine .rfl_of_still fun m => ?_
  rw [Run.register]
  split <;> rfl

theorem agree_await (answer : Except Fault α) :
    AgreeBelow Machine.boxes n (Run.await answer) (Run.await answer) := by
  refine .rfl_of_still fun m => ?_
  cases answer <;> rfl

mutual

theorem agree_operand (k : Nat) : (x : Operand) →
    AgreeBelow Machine.boxes n (Run.operand (some n) k x) (Run.operand none k x)
  | .nil => by
      rw [Run.operand, Run.operand]
      exact .pure _
  | .truth => by
      rw [Run.operand, Run.operand]
      exact .pure _
  | .int value => by
      rw [Run.operand, Run.operand]
      exact agree_op (agree_newAtom (.int value)) k
  | .str text => by
      rw [Run.operand, Run.operand]
      exact agree_op (agree_newAtom (.str text)) k
  | .sym name => by
      rw [Run.operand, Run.operand]
      exact agree_op (agree_newAtom (.sym name)) k
  | .register r => by
      rw [Run.operand, Run.operand]
      exact agree_register r
  | .list items => by
      rw [Run.operand, Run.operand]
      exact (agree_operands k items).bind fun vs => agree_op (agree_listOnto vs .nil) k
  | .malformed => by
      rw [Run.operand, Run.operand]
      exact .throw _

theorem agree_operands (k : Nat) : (xs : List Operand) →
    AgreeBelow Machine.boxes n (Run.operands (some n) k xs) (Run.operands none k xs)
  | [] => by
      rw [Run.operands, Run.operands]
      exact .pure _
  | x :: xs => by
      rw [Run.operands, Run.operands]
      exact (agree_operand k x).bind fun _ => (agree_operands k xs).bind fun _ => .pure _

end

theorem agree_call (k : Nat) (name : String) (args : List Operand) :
    AgreeBelow Machine.boxes n (Run.call (some n) k name args) (Run.call none k name args) := by
  rw [Run.call, Run.call]
  split
  · exact .throw _
  · split
    · exact .throw _
    · refine (agree_operands k args).bind fun vs => ?_
      split
      · exact .pure _
      · exact .throw _

theorem agree_yieldAt (step : Step) (v : Handle) :
    AgreeBelow Machine.boxes n (Run.actWithin.yieldAt step v) (Run.actWithin.yieldAt step v) :=
  (agree_heap step.on).bind fun _ => .pure _

/-- The end of a step that yields the value of a call. -/
theorem agree_yield_call (step : Step) (call : Call) :
    AgreeBelow Machine.boxes n
      (Run.enter step.on (call.enterWithin (some n)) >>= Run.actWithin.yieldAt step)
      (Run.enter step.on (call.enterWithin none) >>= Run.actWithin.yieldAt step) :=
  (agree_inside (agree_enter call) step.on).bind fun v => agree_yieldAt step v

theorem agree_act (step : Step) :
    AgreeBelow Machine.boxes n (Run.actWithin (some n) step) (Run.actWithin none step) := by
  obtain ⟨action, on, source, quiet⟩ := step
  rw [Run.actWithin, Run.actWithin]
  refine (agree_heap _).bind fun _ => (agree_heap _).bind fun _ => ?_
  cases action with
  | value v | accept v => exact (agree_operand _ v).bind fun _ => agree_yieldAt _ _
  | ofBool b => exact agree_yieldAt _ _
  | call name args =>
      refine (agree_call _ name args).bind fun call => ?_
      cases call with
      | print v =>
          refine .bind (.rfl_of_still fun _ => rfl) fun m => ?_
          split
          · exact .throw _
          · exact agree_yield_call _ _
      | _ => exact agree_yield_call _ _
  | core name args =>
      refine (agree_call _ name args).bind fun call => ?_
      rcases agree_run? call with ⟨hlimited, hwhole⟩ | ⟨limited, whole, hlimited, hwhole, h⟩
      · rw [hlimited, hwhole]
        exact .throw _
      · rw [hlimited, hwhole]
        refine (agree_attempt h _).bind fun result => ?_
        split
        · exact agree_yieldAt _ _
        · exact .pure _
        · exact .pure _
        · exact .pure _
  | pair head rest =>
      refine (agree_operand _ head).bind fun x => (agree_operand _ rest).bind fun l => ?_
      refine (agree_heap _).bind fun heap => (agree_await _).bind fun found => ?_
      split
      · exact .pure _
      · exact (agree_op (agree_newPair _ _) _).bind fun _ => agree_yieldAt _ _
  | tail elems rest =>
      refine (agree_operands _ elems).bind fun xs => (agree_operand _ rest).bind fun l => ?_
      refine (agree_heap _).bind fun heap => (agree_await _).bind fun found => ?_
      split
      · exact .pure _
      · exact (agree_op (agree_listOnto _ _) _).bind fun _ => agree_yieldAt _ _
  | nest v count =>
      refine (agree_operand _ v).bind fun x => ?_
      exact (agree_op (agree_nest count x) _).bind fun _ => agree_yieldAt _ _
  | range start count =>
      refine (agree_op (agree_newInts count start) _).bind fun xs => ?_
      exact (agree_op (agree_listOnto xs .nil) _).bind fun _ => agree_yieldAt _ _
  | info v | narrow type v =>
      refine (agree_operand _ v).bind fun x => (agree_heap _).bind fun heap => ?_
      exact (agree_await _).bind fun _ => .pure _
  | get pointee v =>
      refine (agree_operand _ v).bind fun x => (agree_heap _).bind fun heap => ?_
      refine (agree_await _).bind fun found => ?_
      split
      · exact .pure _
      · exact (agree_heap _).bind fun _ => (agree_await _).bind fun _ => .pure _
  | symbolName v =>
      refine (agree_operand _ v).bind fun x => (agree_heap _).bind fun heap => ?_
      refine (agree_await _).bind fun found => ?_
      split
      · exact (agree_heap _).bind fun _ => (agree_await _).bind fun _ => .pure _
      · exact .pure _
  | sameValue x y =>
      refine (agree_operand _ x).bind fun v => (agree_operand _ y).bind fun w => ?_
      refine (agree_heap _).bind fun _ => (agree_await _).bind fun c => ?_
      refine (agree_heap _).bind fun _ => (agree_await _).bind fun d => ?_
      split <;> exact .pure _
  | handles args => exact (agree_operands _ args).bind fun _ => .pure _
  | walk fromNode v =>
      refine (agree_operand _ v).bind fun x => (agree_heap _).bind fun heap => ?_
      refine (agree_await _).bind fun found => ?_
      split
      · exact .pure _
      · exact (agree_await _).bind fun _ => .pure _
  | write newline room v =>
      refine (agree_operand _ v).bind fun x => (agree_heap _).bind fun heap => ?_
      split
      · exact .pure _
      · exact .throw _
      · exact .pure _
  | intern name =>
      refine (agree_op ?_ _).bind fun _ => .pure _
      exact .rfl_of_still fun _ => rfl
  | place atom =>
      refine (agree_op ?_ _).bind fun c => ?_
      · exact .rfl_of_still fun _ => rfl
      · exact (agree_op (agree_place c) _).bind fun _ => agree_yieldAt _ _
  | survey =>
      refine (agree_heap _).bind fun heap => (agree_await _).bind fun id => ?_
      exact (agree_await _).bind fun _ => .pure _
  | fail message =>
      refine agree_inside ?_ _
      exact .rfl_of_still fun _ => rfl
  | throw payload => exact .throw _
  | malformed => exact .throw _

end Parts

/-! ## Steps -/

/-- The machine after some steps, whatever each of them comes to. -/
def Machine.after (m : Machine) (steps : List Step) : Machine :=
  steps.foldl (fun m step => (m.perform step).2) m

section Steps

variable {m : Machine} {n : Nat} {steps : List Step}

theorem Machine.boxes_perform (m : Machine) (step : Step) :
    (m.perform step).2.boxes =
      (stateLeft (Run.actWithin none step { m with log := #[] })).boxes := by
  rw [perform, performWithin]
  rcases Run.actWithin none step { m with log := #[] } with ⟨_, _⟩ | ⟨_ | _, _⟩ <;> rfl

theorem Machine.boxes_le_perform (m : Machine) (step : Step) (k : Nat) :
    m.boxes k ≤ (m.perform step).2.boxes k := by
  rw [boxes_perform]
  exact (agree_act step (n := 0)).grows { m with log := #[] } k

theorem Machine.boxes_le_after (m : Machine) (steps : List Step) (k : Nat) :
    m.boxes k ≤ (m.after steps).boxes k := by
  induction steps generalizing m with
  | nil => exact Nat.le_refl _
  | cons step steps ih => exact Nat.le_trans (m.boxes_le_perform step k) (ih _)

theorem Machine.performWithin_eq {step : Step} (h : ∀ k, (m.perform step).2.boxes k ≤ n) :
    m.performWithin (some n) step = m.perform step := by
  have hact := (agree_act step).same { m with log := #[] } fun k => m.boxes_perform step ▸ h k
  rw [perform, performWithin, performWithin, hact]

/-- A step has room if those after it have. -/
theorem Machine.performWithin_of_after {step : Step}
    (h : ∀ k, (m.after (step :: steps)).boxes k ≤ n) :
    m.performWithin (some n) step = m.perform step :=
  performWithin_eq fun k => Nat.le_trans ((m.perform step).2.boxes_le_after steps k) (h k)

theorem performAll_within (h : ∀ k, (m.after steps).boxes k ≤ n) :
    Program.performAll (some n) m steps = Program.performAll none m steps := by
  induction steps generalizing m with
  | nil => rfl
  | cons step steps ih =>
      rw [Program.performAll, Program.performAll, Machine.performWithin_of_after h]
      show _ :: Program.performAll (some n) (m.perform step).2 steps = _
      rw [ih h]
      rfl

theorem performUntil_within (h : ∀ k, (m.after steps).boxes k ≤ n) :
    Program.performUntilWithin (some n) m steps = Program.performUntil m steps := by
  induction steps generalizing m with
  | nil => rfl
  | cons step steps ih =>
      rw [performUntil_cons, Program.performUntilWithin, Machine.performWithin_of_after h]
      have hrest : Program.performUntilWithin (some n) (m.perform step).2 steps =
          Program.performUntil (m.perform step).2 steps := ih h
      generalize m.perform step = next at hrest ⊢
      obtain ⟨report, m'⟩ := next
      cases hanswer : report.answer with
      | stopped s => simp only [hanswer]
      | _ => simp only [hanswer, hrest]

end Steps

/-! ## Programs -/

namespace Program

/-- The machine that a program starts on when all of its steps are performed. -/
def bare (p : Program) : Machine where
  heaps := ((p.heaps.map Task.fresh).map Task.heap).toArray

/-- A program that would not pass the limit with any of its heaps, if it went on after every stop,
gives the same answers and leaves the same behind as without a limit. -/
theorem runs_alike_below_limit (p : Program) (n : Nat) :
    ((∀ k, (p.bare.after p.steps).boxes k ≤ n) → p.run (some n) = p.run none) ∧
    ∀ out, (∀ k, ((p.machine out).after p.steps).boxes k ≤ n) →
      p.runTaskWithin (some n) out true = p.runTask out true ∧
      ∀ level, p.launchWithin (some n) level out = p.launch level out := by
  refine ⟨fun h => ?_, fun out h => ?_⟩
  · rw [run, run]
    exact congrArg (Outcome.mk _) (performAll_within h)
  · have htask : p.runTaskWithin (some n) out true = p.runTask out true := by
      rw [runTask_eq, ← performUntil_within h]
      rfl
    refine ⟨htask, fun level => ?_⟩
    rw [launchWithin, launch, htask]

end Program

end Script

end LispHeap
