import LispHeap.Proofs.Decisions

/-!
# Heaps with a limit

A heap whose boxes have numbers of 32 bits fills up. An operation on such a heap places the same
boxes as on one that never does, up to the last for which there is a number, and then it stops. So a
limit has two consequences and no others.

Below the limit nothing changes. An operation that has room for its boxes does what it does without
a limit (`performWithin_cases`), and so does a run that would not pass the limit at its end
(`afterWithin_eq_after`).

At the limit nothing new appears either. An operation that is cut short leaves a task that some
other operation leaves on a heap without a limit: an atom without a box has still interned its name,
and a list that is not finished is a shorter list, because the last pairs are placed first
(`pairsOnto_take`). Hence every task of a run with a limit is a task of a run without one
(`exists_run_of_afterWithin`). What is known of all tasks that runs lead to is known of those on
heaps that are full.
-/

namespace LispHeap

/-! ## One operation -/

section Operations

variable {op : Operation} {task base : Task} {plan : Plan Outcome} {n : Nat}

theorem Operation.Decides.size_perform (h : op.Decides task base plan) :
    (op.perform task).2.heap.size = task.heap.size + plan.boxes.length := by
  rw [Operation.perform, h.follows, ← h.places.size]
  exact base.size_placeAll plan.boxes

theorem Operation.Decides.performWithin_of_le (h : op.Decides task base plan)
    (hle : plan.boxes.length ≤ n - task.heap.size) :
    op.performWithin (some n) task = op.perform task := by
  rw [Operation.perform, h.follows, h.follows]
  refine settle_of_le ?_ plan.result
  rintro _ ⟨⟩
  rw [h.places.size]
  exact hle

theorem Operation.Decides.performWithin_of_lt (h : op.Decides task base plan)
    (hlt : n - task.heap.size < plan.boxes.length) :
    op.performWithin (some n) task =
      (.stopped (.fault (.exhausted (task.heap.size + (n - task.heap.size)))),
        base.placeAll (plan.boxes.take (n - task.heap.size))) := by
  rw [h.follows, ← h.places.size]
  rw [← h.places.size] at hlt
  exact settle_of_lt hlt plan.result

theorem Operation.Decides.size_performWithin_of_lt (h : op.Decides task base plan)
    (hlt : n - task.heap.size < plan.boxes.length) :
    (op.performWithin (some n) task).2.heap.size = task.heap.size + (n - task.heap.size) := by
  rw [h.performWithin_of_lt hlt, Task.size_placeAll, h.places.size, List.length_take,
    Nat.min_eq_left (Nat.le_of_lt hlt)]

/-- An operation either has room for what it places, and then a limit changes nothing, or it would
return with more boxes than there may be, and then it stops when there are as many as that. -/
theorem performWithin_cases (op : Operation) (hsize : task.heap.size ≤ n) :
    ((op.perform task).2.heap.size ≤ n ∧ op.performWithin (some n) task = op.perform task) ∨
    (n < (op.perform task).2.heap.size ∧ (∃ v, (op.perform task).1 = .returned v) ∧
      (op.performWithin (some n) task).1 = .stopped (.fault (.exhausted n)) ∧
      (op.performWithin (some n) task).2.heap.size = n) := by
  obtain ⟨base, plan, h⟩ := exists_decision op task
  rw [h.size_perform]
  rcases Nat.lt_or_ge (n - task.heap.size) plan.boxes.length with hlt | hle
  · have hboxes : plan.boxes ≠ [] := List.ne_nil_of_length_pos (by omega)
    have hroom : task.heap.size + (n - task.heap.size) = n := by omega
    refine Or.inr ⟨by omega, ⟨⟨task.heap.size + plan.boxes.length⟩, ?_⟩, ?_, ?_⟩
    · rw [Operation.perform, h.follows, ← h.places.result hboxes]
      rfl
    · rw [h.performWithin_of_lt hlt, hroom]
    · rw [h.size_performWithin_of_lt hlt, hroom]
  · exact Or.inl ⟨by omega, h.performWithin_of_le hle⟩

/-- An operation that has placed boxes gives the number of the last one, if it was not cut short. -/
theorem performWithin_returns (limit : Option Nat) (op : Operation) (task : Task)
    (hgrown : task.heap.size < (op.performWithin limit task).2.heap.size) :
    (op.performWithin limit task).1 = .returned ⟨(op.performWithin limit task).2.heap.size⟩ ∨
    ∃ n, limit = some n ∧ (op.performWithin limit task).2.heap.size = n ∧
      (op.performWithin limit task).1 = .stopped (.fault (.exhausted n)) := by
  obtain ⟨base, plan, h⟩ := exists_decision op task
  have whole : task.heap.size < (op.perform task).2.heap.size →
      (op.perform task).1 = .returned ⟨(op.perform task).2.heap.size⟩ := by
    rw [h.size_perform, Operation.perform, h.follows]
    intro hlt
    exact h.places.result (List.ne_nil_of_length_pos (by omega))
  cases limit with
  | none => exact Or.inl (whole hgrown)
  | some n =>
      rcases Nat.lt_or_ge (n - task.heap.size) plan.boxes.length with hlt | hle
      · have hfull := h.size_performWithin_of_lt hlt
        have hroom : task.heap.size + (n - task.heap.size) = n := by omega
        rw [hroom] at hfull
        refine Or.inr ⟨n, rfl, hfull, ?_⟩
        rw [h.performWithin_of_lt hlt, hroom]
      · rw [h.performWithin_of_le hle] at hgrown ⊢
        exact Or.inl (whole hgrown)

theorem size_performWithin_le (op : Operation) (hsize : task.heap.size ≤ n) :
    (op.performWithin (some n) task).2.heap.size ≤ n := by
  rcases performWithin_cases op hsize with ⟨hle, heq⟩ | ⟨_, _, _, hfull⟩
  · rw [heq]
    exact hle
  · exact Nat.le_of_eq hfull

end Operations

/-! ## Calls -/

/-- The end of a call on a heap with room for `n` boxes, next to its end on one without a limit: the
same, or a fault on a full heap where the call would have returned with more boxes than that. -/
inductive Bounded {ε : Type} (raise : Fault → ε) (n : Nat)
    (whole limited : EStateM.Result ε Task Handle) : Prop where
  | fits (h : limited = whole) (hsize : (taskLeft whole).heap.size ≤ n)
  | full {v : Handle} {left last : Task} (hwhole : whole = .ok v left) (hlt : n < left.heap.size)
      (h : limited = .error (raise (.exhausted n)) last) (hlast : last.heap.size = n)

section Calls

variable {ε : Type} {raise : Fault → ε} {task left : Task} {n : Nat}

theorem bounded_deliver (hsize : task.heap.size ≤ n) (plan : Plan Handle) :
    Bounded raise n (task.deliver raise none plan) (task.deliver raise (some n) plan) := by
  obtain ⟨boxes, v⟩ := plan
  have hwhole : task.deliver raise none ⟨boxes, v⟩ = .ok v (task.placeAll boxes) := rfl
  have hgrown := task.size_placeAll boxes
  rcases Nat.lt_or_ge (n - task.heap.size) boxes.length with hlt | hle
  · have hroom : task.heap.size + (n - task.heap.size) = n := by omega
    have hcut : task.deliver raise (some n) ⟨boxes, v⟩ = _ := Task.deliver_of_lt hlt v
    rw [hroom] at hcut
    refine .full hwhole (by omega) hcut ?_
    rw [Task.size_placeAll, List.length_take, Nat.min_eq_left (Nat.le_of_lt hlt), hroom]
  · have hfits : ∀ m, some n = some m → boxes.length ≤ m - task.heap.size := by
      rintro _ ⟨⟩
      exact hle
    refine .fits (Task.deliver_of_le hfits v) ?_
    show (task.placeAll boxes).heap.size ≤ n
    omega

theorem attemptWithin_bounded (hsize : task.heap.size ≤ n) (plan : Except Failure (Plan Handle)) :
    Bounded .fault n (task.attempt plan) (task.attemptWithin (some n) plan) := by
  cases plan with
  | ok plan => exact bounded_deliver hsize plan
  | error e => exact .fits rfl hsize

theorem consWithin_bounded (hsize : task.heap.size ≤ n) (x t : Handle) :
    Bounded .fault n (Op.cons x t task) (Op.consWithin (some n) x t task) := by
  rw [cons_eq_attempt, consWithin_eq_attempt]
  exact attemptWithin_bounded hsize _

theorem appendWithin_bounded (hsize : task.heap.size ≤ n) (front back : Handle) :
    Bounded .fault n (Op.append front back task) (Op.appendWithin (some n) front back task) := by
  rw [append_eq_attempt, appendWithin_eq_attempt]
  exact attemptWithin_bounded hsize _

theorem enterWithin_bounded (hsize : task.heap.size ≤ n) (call : Call) :
    Bounded .fault n (call.enter task) (call.enterWithin (some n) task) := by
  cases hprint : call.printing with
  | true =>
      cases call with
      | print v =>
          refine .fits rfl ?_
          rw [enter_print]
          cases task.heap.print v task.out with
          | ok _ out => exact hsize
          | error e out =>
              rw [taskLeft, heap_noting]
              exact hsize
      | _ => cases hprint
  | false =>
      rw [enter_eq_carryOut hprint, enterWithin_eq_carryOut hprint]
      cases call.plan task.heap with
      | ok plan => exact bounded_deliver hsize plan
      | error s =>
          refine .fits rfl ?_
          show (task.noting s).heap.size ≤ n
          rw [heap_noting]
          exact hsize

end Calls

/-! ## Runs below the limit -/

section Runs

variable {task : Task} {n : Nat} {ops : List Operation}

theorem size_afterWithin_le (hsize : task.heap.size ≤ n) (ops : List Operation) :
    (task.afterWithin (some n) ops).heap.size ≤ n := by
  induction ops generalizing task with
  | nil => exact hsize
  | cons op ops ih => exact ih (size_performWithin_le op hsize)

theorem size_afterWithin_fresh_le (names : List String) (ops : List Operation) :
    ((Task.fresh names).afterWithin (some Heap.maxSize) ops).heap.size ≤ Heap.maxSize := by
  refine size_afterWithin_le ?_ ops
  rw [Heap.size_fresh]
  decide

/-- A run that does not pass the limit is the same run without one. -/
theorem afterWithin_eq_after (h : (task.after ops).heap.size ≤ n) :
    task.afterWithin (some n) ops = task.after ops := by
  induction ops generalizing task with
  | nil => rfl
  | cons op ops ih =>
      have hlater : (op.perform task).2.heap.size ≤ ((op.perform task).2.after ops).heap.size :=
        (after_grows _ ops).size_le
      have hfirst : task.heap.size ≤ (op.perform task).2.heap.size :=
        (perform_grows op task).size_le
      have hend : ((op.perform task).2.after ops).heap.size ≤ n := h
      have hsize : task.heap.size ≤ n := by omega
      rcases performWithin_cases op hsize with ⟨_, heq⟩ | ⟨hlt, _⟩
      · show (op.performWithin (some n) task).2.afterWithin (some n) ops = _
        rw [heq]
        exact ih hend
      · omega

end Runs

/-! ## Runs at the limit -/

theorem pairsOnto_take (size n : Nat) (tail : Handle) {xs : List Handle} {k : Nat}
    (hk : k ≤ xs.length) :
    (pairsOnto size n tail xs).take k = pairsOnto size n tail (xs.drop (xs.length - k)) := by
  have hfirst := pairsOnto_prefix size n tail (List.drop_suffix (xs.length - k) xs)
  rw [List.prefix_iff_eq_take, length_pairsOnto, List.length_drop] at hfirst
  rw [hfirst]
  congr 1
  omega

/-- What is left of an operation that was cut short, some other operation leaves, or none. -/
theorem Operation.Places.exists_run {op : Operation} {task base : Task} {plan : Plan Outcome}
    (h : op.Places task base plan) {k : Nat} (hk : k < plan.boxes.length) :
    ∃ ops, task.after ops = base.placeAll (plan.boxes.take k) ∧
      ∀ table atom, Operation.place table atom ∉ ops := by
  cases h with
  | nothing hheap hlog => exact absurd hk (Nat.not_lt_zero k)
  | atom atom hsym =>
      obtain rfl : k = 0 := by simpa using hk
      cases atom with
      | sym name => exact ⟨[.intern name], rfl, by simp⟩
      | int | str => exact ⟨[], rfl, by simp⟩
  | foreign table atom hsym =>
      obtain rfl : k = 0 := by simpa using hk
      exact ⟨[], rfl, by simp⟩
  | @list tail n hn x xs =>
      rw [length_pairsOnto] at hk
      refine ⟨[.listOnto ((x :: xs).drop ((x :: xs).length - k)) tail], ?_, by simp⟩
      rw [pairsOnto_take _ _ _ (Nat.le_of_lt hk)]
      show (Outcome.ofOp .returned (Op.listOnto _ tail task)).2 = _
      rw [listOnto_of_length hn]
      rfl

theorem exists_run_of_performWithin (limit : Option Nat) (op : Operation) (task : Task) :
    ∃ ops, task.after ops = (op.performWithin limit task).2 ∧
      ∀ table atom, Operation.place table atom ∈ ops → Operation.place table atom = op := by
  have whole : ∀ table atom, Operation.place table atom ∈ [op] → Operation.place table atom = op :=
    fun _ _ => List.mem_singleton.mp
  cases limit with
  | none => exact ⟨[op], rfl, whole⟩
  | some n =>
      obtain ⟨base, plan, h⟩ := exists_decision op task
      rcases Nat.lt_or_ge (n - task.heap.size) plan.boxes.length with hlt | hle
      · obtain ⟨ops, hops, hnone⟩ := h.places.exists_run hlt
        refine ⟨ops, ?_, fun table atom hmem => absurd hmem (hnone table atom)⟩
        rw [hops, h.performWithin_of_lt hlt]
      · exact ⟨[op], by rw [h.performWithin_of_le hle]; rfl, whole⟩

/-- Every task that a run with a limit leads to, a run without one leads to, and it places no symbol
with a number from elsewhere that the first one does not place. -/
theorem exists_run_of_afterWithin (limit : Option Nat) (task : Task) (ops : List Operation) :
    ∃ ops', task.after ops' = task.afterWithin limit ops ∧
      ∀ table atom, Operation.place table atom ∈ ops' → Operation.place table atom ∈ ops := by
  induction ops generalizing task with
  | nil => exact ⟨[], rfl, fun _ _ => id⟩
  | cons op ops ih =>
      obtain ⟨first, hfirst, hplaced⟩ := exists_run_of_performWithin limit op task
      obtain ⟨later, hlater, hplaced'⟩ := ih (op.performWithin limit task).2
      refine ⟨first ++ later, ?_, fun table atom hmem => ?_⟩
      · rw [Task.after_append, hfirst, hlater]
        rfl
      · rcases List.mem_append.mp hmem with hmem | hmem
        · exact hplaced table atom hmem ▸ List.mem_cons_self
        · exact List.mem_cons_of_mem op (hplaced' table atom hmem)

theorem afterWithin_grows (limit : Option Nat) (task : Task) (ops : List Operation) :
    task.heap.Grows (task.afterWithin limit ops).heap := by
  obtain ⟨ops', hops, _⟩ := exists_run_of_afterWithin limit task ops
  rw [← hops]
  exact after_grows task ops'

theorem Heap.proper_afterWithin (limit : Option Nat) (names : List String) (ops : List Operation) :
    ((Task.fresh names).afterWithin limit ops).heap.Proper := by
  obtain ⟨ops', hops, _⟩ := exists_run_of_afterWithin limit (Task.fresh names) ops
  rw [← hops]
  exact Heap.proper_after names ops'

/-! ## A full heap -/

theorem size_after_numbers (task : Task) (k : Nat) :
    (task.after (List.replicate k (.newAtom (.int 0)))).heap.size = task.heap.size + k := by
  induction k generalizing task with
  | zero => rfl
  | succ k ih =>
      have hstep : ((Operation.newAtom (.int 0)).perform task).2.heap.size = task.heap.size + 1 :=
        Heap.size_push task.heap (.int 0)
      rw [List.replicate_succ]
      refine (ih ((Operation.newAtom (.int 0)).perform task).2).trans ?_
      rw [hstep, Nat.add_assoc, Nat.add_comm 1 k]

/-- A new heap that was given numbers until it was full. -/
theorem size_afterWithin_numbers (names : List String) (n : Nat) (hn : 0 < n) :
    ((Task.fresh names).afterWithin (some n)
      (List.replicate (n - 1) (.newAtom (.int 0)))).heap.size = n := by
  have hsize := size_after_numbers (Task.fresh names) (n - 1)
  rw [Heap.size_fresh, Nat.add_sub_cancel' hn] at hsize
  rw [afterWithin_eq_after (Nat.le_of_eq hsize), hsize]

/-- Not even a list of one element can be made then. -/
theorem consWithin_of_full {task : Task} {n : Nat} (hfull : task.heap.size = n) (x : Handle) :
    ∃ left, Op.consWithin (some n) x .nil task = .error (.fault (.exhausted n)) left := by
  cases consWithin_bounded (Nat.le_of_eq hfull) x .nil with
  | full _ _ hcut _ => exact ⟨_, hcut⟩
  | fits _ hfits =>
      have hgrown : (taskLeft (Op.cons x .nil task)).heap.size = task.heap.size + 1 :=
        Heap.size_push task.heap _
      omega

theorem enterWithin_of_full {task : Task} {n : Nat} (hfull : task.heap.size = n) (x : Handle) :
    ∃ left, (Call.cons x .nil).enterWithin (some n) task =
      .error (.fault (.exhausted n)) left := by
  obtain ⟨left, hcons⟩ := consWithin_of_full hfull x
  refine ⟨left, ?_⟩
  show Entry.ofOp (Op.consWithin (some n) x .nil) task = _
  rw [Entry.ofOp, hcons]

end LispHeap
