import LispHeap.Proofs.ProperLists

/-!
# Entry points decide before they place

An entry point looks at its arguments, and then it either gives up or places boxes. It never looks
again once the first box is there, at least not at anything that could be missing. So what it does
can be written down beforehand as a plan: the boxes that it is going to place, in the order of their
numbers, and the handle that it is going to return. A plan is computed from the heap alone.

`enterWithin_eq_carryOut` says that every entry point but the printing one carries out its plan, or
stops where the plan could not be made. Two operations have to be looked at for this, because they
place boxes one at a time and read a length in between: `Op.listOnto`, which reads it off the pair
that it has just placed, and `Op.append`, which collects all elements before it places the first
pair.

A heap with a limit may fill up half way. Then as many boxes of the plan are placed as there is room
for (`Task.deliver`), and this is all that a limit changes. Without one a call is all or nothing,
and how much it adds is a matter of reading the plan.
-/

namespace LispHeap

/-! ## Placing several boxes -/

namespace Task

/-- The task with one more box. -/
def place (task : Task) (c : Cell) : Task :=
  { task with
    heap := task.heap.push c
    log := task.log.push (.placed c.tag ⟨task.heap.size + 1⟩) }

/-- The task with these boxes, the first one first. -/
def placeAll (task : Task) (cells : List Cell) : Task := cells.foldl place task

variable (task : Task)

@[simp]
theorem placeAll_nil : task.placeAll [] = task := rfl

theorem placeAll_append (cs ds : List Cell) :
    task.placeAll (cs ++ ds) = (task.placeAll cs).placeAll ds :=
  List.foldl_append

theorem placeAll_concat (cs : List Cell) (c : Cell) :
    task.placeAll (cs ++ [c]) = (task.placeAll cs).place c :=
  task.placeAll_append cs [c]

@[simp]
theorem cells_placeAll (cs : List Cell) :
    (task.placeAll cs).heap.cells.toList = task.heap.cells.toList ++ cs := by
  induction cs generalizing task with
  | nil => simp
  | cons c cs ih =>
      show ((task.place c).placeAll cs).heap.cells.toList = _
      simp [ih, place, Heap.push]

@[simp]
theorem symbols_placeAll (cs : List Cell) :
    (task.placeAll cs).heap.symbols = task.heap.symbols := by
  induction cs generalizing task with
  | nil => rfl
  | cons c cs ih => exact ih (task.place c)

@[simp]
theorem out_placeAll (cs : List Cell) : (task.placeAll cs).out = task.out := by
  induction cs generalizing task with
  | nil => rfl
  | cons c cs ih => exact ih (task.place c)

@[simp]
theorem size_placeAll (cs : List Cell) :
    (task.placeAll cs).heap.size = task.heap.size + cs.length := by
  rw [Heap.size, Heap.size, ← Array.length_toList, cells_placeAll, List.length_append,
    Array.length_toList]

end Task

theorem place_eq (c : Cell) (task : Task) :
    Op.place c task = .ok ⟨task.heap.size + 1⟩ (task.place c) := by
  simp [Op.place, Task.place]

/-! ## Plans -/

/-- What is going to happen: these boxes are placed, in the order of their numbers, and this is
returned. -/
structure Plan (α : Type) where
  boxes : List Cell
  result : α

/-- The plan to place nothing. -/
def Plan.found {α : Type} (a : α) : Plan α := ⟨[], a⟩

namespace Task

variable {ε α β : Type} {raise : Fault → ε} {limit : Option Nat}

/-- What a plan comes to on a heap with a limit: all of its boxes and its result, or as many boxes
as there is room for and a fault. -/
def deliver (raise : Fault → ε) (limit : Option Nat) (task : Task) (plan : Plan α) :
    EStateM.Result ε Task α :=
  match limit with
  | none => .ok plan.result (task.placeAll plan.boxes)
  | some n =>
    if plan.boxes.length ≤ n - task.heap.size then .ok plan.result (task.placeAll plan.boxes)
    else
      .error (raise (.exhausted (task.heap.size + (n - task.heap.size))))
        (task.placeAll (plan.boxes.take (n - task.heap.size)))

section Delivering

variable {task mid left : Task} {plan : Plan α} {cs : List Cell} {a c : α} {e : ε} {n : Nat}

theorem deliver_of_le (h : ∀ n, limit = some n → cs.length ≤ n - task.heap.size) (a : α) :
    task.deliver raise limit ⟨cs, a⟩ = .ok a (task.placeAll cs) := by
  cases limit with
  | none => rfl
  | some n => rw [deliver, if_pos (h n rfl)]

theorem deliver_of_lt (h : n - task.heap.size < cs.length) (a : α) :
    task.deliver raise (some n) ⟨cs, a⟩ =
      .error (raise (.exhausted (task.heap.size + (n - task.heap.size))))
        (task.placeAll (cs.take (n - task.heap.size))) := by
  rw [deliver, if_neg (Nat.not_le_of_lt h)]

theorem deliver_ok (h : task.deliver raise limit plan = .ok a left) :
    (∀ n, limit = some n → plan.boxes.length ≤ n - task.heap.size) ∧ a = plan.result ∧
      left = task.placeAll plan.boxes := by
  have hfits : ∀ n, limit = some n → plan.boxes.length ≤ n - task.heap.size := by
    rintro n rfl
    rcases Nat.lt_or_ge (n - task.heap.size) plan.boxes.length with hlt | hle
    · rw [deliver_of_lt hlt plan.result] at h
      cases h
    · exact hle
  rw [deliver_of_le hfits plan.result] at h
  cases h
  exact ⟨hfits, rfl, rfl⟩

theorem deliver_error (h : task.deliver raise limit plan = .error e left) :
    ∃ n, limit = some n ∧ n - task.heap.size < plan.boxes.length ∧
      e = raise (.exhausted (task.heap.size + (n - task.heap.size))) ∧
      left = task.placeAll (plan.boxes.take (n - task.heap.size)) := by
  cases limit with
  | none => cases h
  | some n =>
      rcases Nat.lt_or_ge (n - task.heap.size) plan.boxes.length with hlt | hle
      · rw [deliver_of_lt hlt plan.result] at h
        cases h
        exact ⟨n, rfl, hlt, rfl, rfl⟩
      · rw [deliver, if_pos hle] at h
        cases h

@[simp]
theorem deliver_found (task : Task) (a : α) : task.deliver raise limit (.found a) = .ok a task :=
  deliver_of_le (fun _ _ => Nat.zero_le _) a

/-- A plan can be delivered in two parts, where the second one begins with the room that the first
one has left. -/
theorem deliver_append_of_ok (h : task.deliver raise limit ⟨cs, a⟩ = .ok c mid) (ds : List Cell)
    (b : β) : task.deliver raise limit ⟨cs ++ ds, b⟩ = mid.deliver raise limit ⟨ds, b⟩ := by
  obtain ⟨hfits, _, rfl⟩ := deliver_ok h
  have hsize := task.size_placeAll cs
  cases hrest : (task.placeAll cs).deliver raise limit (⟨ds, b⟩ : Plan β) with
  | ok r left =>
      obtain ⟨hds, rfl, rfl⟩ := deliver_ok hrest
      rw [← placeAll_append]
      refine deliver_of_le (fun n hn => ?_) _
      have hcs : cs.length ≤ n - task.heap.size := hfits n hn
      have hds : ds.length ≤ n - (task.placeAll cs).heap.size := hds n hn
      show (cs ++ ds).length ≤ n - task.heap.size
      rw [List.length_append]
      omega
  | error e left =>
      obtain ⟨n, rfl, hds, rfl, rfl⟩ := deliver_error hrest
      have hcs : cs.length ≤ n - task.heap.size := hfits n rfl
      have hds : n - (task.placeAll cs).heap.size < ds.length := hds
      have hroom : n - task.heap.size = cs.length + (n - (task.placeAll cs).heap.size) := by omega
      have hlt : n - task.heap.size < (cs ++ ds).length := by
        rw [List.length_append]
        omega
      rw [deliver_of_lt hlt, ← placeAll_append, hsize, Nat.add_assoc, ← hsize, ← hroom]
      simp only [hroom, List.take_length_add_append]

theorem deliver_append_of_error (h : task.deliver raise limit ⟨cs, a⟩ = .error e left)
    (ds : List Cell) (b : β) : task.deliver raise limit ⟨cs ++ ds, b⟩ = .error e left := by
  obtain ⟨n, rfl, hlt, rfl, rfl⟩ := deliver_error h
  have happend : n - task.heap.size < (cs ++ ds).length := by
    rw [List.length_append]
    exact Nat.lt_of_lt_of_le hlt (Nat.le_add_right _ _)
  rw [deliver_of_lt happend, List.take_append_of_le_length (Nat.le_of_lt hlt)]

end Delivering

end Task

theorem placeWithin_eq (limit : Option Nat) (c : Cell) (task : Task) :
    Op.placeWithin limit c task = task.deliver .fault limit ⟨[c], ⟨task.heap.size + 1⟩⟩ := by
  cases limit with
  | none => exact place_eq c task
  | some n =>
      rw [Op.placeWithin]
      split
      · next hlt =>
          rw [place_eq, Task.deliver_of_le]
          · rfl
          · rintro _ ⟨⟩
            show 1 ≤ n - task.heap.size
            omega
      · next hge =>
          have hroom : n - task.heap.size = 0 := by omega
          rw [Task.deliver_of_lt (by rw [hroom]; exact Nat.one_pos), hroom]
          rfl

/-- The task when the name of an atom is in its table. -/
def Task.naming (task : Task) (atom : Atom) : Task :=
  { task with heap := { task.heap with symbols := (atom.cell task.heap.symbols).2 } }

theorem newAtomWithin_eq (limit : Option Nat) (atom : Atom) (task : Task) :
    Op.newAtomWithin limit atom task = (task.naming atom).deliver .fault limit
      ⟨[(atom.cell task.heap.symbols).1], ⟨task.heap.size + 1⟩⟩ :=
  placeWithin_eq limit _ (task.naming atom)

theorem newAtom_eq (atom : Atom) (task : Task) :
    Op.newAtom atom task =
      .ok ⟨task.heap.size + 1⟩ ((task.naming atom).place (atom.cell task.heap.symbols).1) :=
  newAtomWithin_eq none atom task

/-! ## Lists in front of a list -/

/-- Where the list starts that puts elements in front of a tail, on a heap of this size. -/
def startOnto (size : Nat) (tail : Handle) : List Handle → Handle
  | [] => tail
  | _ :: xs => ⟨size + xs.length + 1⟩

/-- The pairs of that list in the order of their numbers, the last element first; the tail has `n`
elements. -/
def pairsOnto (size n : Nat) (tail : Handle) : List Handle → List Cell
  | [] => []
  | x :: xs => pairsOnto size n tail xs ++ [.pair ⟨n + xs.length + 1, x, startOnto size tail xs⟩]

@[simp]
theorem length_pairsOnto (size n : Nat) (tail : Handle) (xs : List Handle) :
    (pairsOnto size n tail xs).length = xs.length := by
  induction xs with
  | nil => rfl
  | cons x xs ih => simp [pairsOnto, ih]

theorem tags_pairsOnto (size n : Nat) (tail : Handle) (xs : List Handle) :
    (pairsOnto size n tail xs).map Cell.tag = List.replicate xs.length .pair := by
  induction xs with
  | nil => rfl
  | cons x xs ih =>
      rw [pairsOnto, List.map_append, ih, List.length_cons, List.replicate_succ']
      rfl

/-- The pairs of an end of the list are the first ones. -/
theorem pairsOnto_prefix (size n : Nat) (tail : Handle) {xs ys : List Handle} (h : ys <:+ xs) :
    pairsOnto size n tail ys <+: pairsOnto size n tail xs := by
  obtain ⟨zs, rfl⟩ := h
  induction zs with
  | nil => exact List.prefix_rfl
  | cons z zs ih => exact ih.trans (List.prefix_append _ _)

/-- A list in front of a tail of `n` elements. -/
def Plan.list (heap : Heap) (elems : List Handle) (tail : Handle) (n : Nat) : Plan Handle :=
  ⟨pairsOnto heap.size n tail elems, startOnto heap.size tail elems⟩

/-- A new integer. -/
def Plan.number (heap : Heap) (value : Int32) : Plan Handle := ⟨[.int value], ⟨heap.size + 1⟩⟩

section Lists

variable {limit : Option Nat} {task : Task} {tail : Handle} {n : Nat}

theorem newPairWithin_of_length (head : Handle) (hn : task.heap.listLength tail = .ok n) :
    Op.newPairWithin limit head tail task =
      task.deliver .fault limit ⟨[.pair ⟨n + 1, head, tail⟩], ⟨task.heap.size + 1⟩⟩ := by
  show EStateM.bind (Op.look (·.listLength tail)) _ task = _
  rw [EStateM.bind, Op.look, hn]
  exact placeWithin_eq limit _ task

theorem newPairWithin_of_fault {f : Fault} (head : Handle)
    (hf : task.heap.listLength tail = .error f) :
    Op.newPairWithin limit head tail task = .error (.fault f) task := by
  show EStateM.bind (Op.look (·.listLength tail)) _ task = _
  rw [EStateM.bind, Op.look, hf]

/-- The length that the next pair reads is the one that the last pair was given. -/
theorem listLength_startOnto (hn : task.heap.listLength tail = .ok n) (xs : List Handle) :
    (task.placeAll (pairsOnto task.heap.size n tail xs)).heap.listLength
      (startOnto task.heap.size tail xs) = .ok (n + xs.length) := by
  cases xs with
  | nil => exact hn
  | cons x xs =>
      have hsize := task.size_placeAll (pairsOnto task.heap.size n tail xs)
      rw [length_pairsOnto] at hsize
      rw [pairsOnto, Task.placeAll_concat, startOnto, ← hsize]
      exact Heap.listLength_of_cell? (Heap.cell?_push_self _ _)

theorem listOntoWithin_of_length (hn : task.heap.listLength tail = .ok n) (xs : List Handle) :
    Op.listOntoWithin limit xs tail task =
      task.deliver .fault limit (.list task.heap xs tail n) := by
  induction xs with
  | nil => exact (Task.deliver_found task tail).symm
  | cons x xs ih =>
      show EStateM.bind (Op.listOntoWithin limit xs tail) (Op.newPairWithin limit x) task =
        task.deliver .fault limit ⟨pairsOnto task.heap.size n tail xs ++ [_], _⟩
      rw [EStateM.bind, ih]
      cases hxs : task.deliver Failure.fault limit (.list task.heap xs tail n) with
      | ok l mid =>
          rw [Task.deliver_append_of_ok hxs]
          obtain ⟨_, rfl, rfl⟩ := Task.deliver_ok hxs
          have hsize := task.size_placeAll (pairsOnto task.heap.size n tail xs)
          rw [length_pairsOnto] at hsize
          refine (newPairWithin_of_length x (listLength_startOnto hn xs)).trans ?_
          rw [startOnto, ← hsize]
          rfl
      | error e left => exact (Task.deliver_append_of_error hxs _ _).symm

/-- A tail that is no list stops the innermost pair, which is the first to be placed. -/
theorem listOntoWithin_of_fault {f : Fault} (hf : task.heap.listLength tail = .error f) (x : Handle)
    (xs : List Handle) : Op.listOntoWithin limit (x :: xs) tail task = .error (.fault f) task := by
  induction xs generalizing x with
  | nil => exact newPairWithin_of_fault x hf
  | cons y ys ih =>
      show EStateM.bind (Op.listOntoWithin limit (y :: ys) tail) (Op.newPairWithin limit x) task = _
      rw [EStateM.bind, ih]

theorem listOnto_of_length (hn : task.heap.listLength tail = .ok n) (xs : List Handle) :
    Op.listOnto xs tail task = .ok (startOnto task.heap.size tail xs)
      (task.placeAll (pairsOnto task.heap.size n tail xs)) :=
  listOntoWithin_of_length hn xs

theorem listOnto_of_fault {f : Fault} (hf : task.heap.listLength tail = .error f) (x : Handle)
    (xs : List Handle) : Op.listOnto (x :: xs) tail task = .error (.fault f) task :=
  listOntoWithin_of_fault hf x xs

end Lists

/-! ## Plans of operations -/

namespace Heap

/-- What consing is going to do. -/
def consPlan (heap : Heap) (head tail : Handle) : Except Failure (Plan Handle) := do
  match ← heap.tag tail with
  | none => return .list heap [head] tail (← heap.listLength tail)
  | some .pair => return .list heap [head] tail (← heap.listLength tail)
  | some .int => return .list heap [head, tail] .nil 0
  | found => throw (.refused (.wrongType "cons" found))

/-- What appending is going to do. -/
def appendPlan (heap : Heap) (front back : Handle) : Except Failure (Plan Handle) := do
  let front ← heap.asList "append" front
  let back ← heap.asList "append" back
  let elems ← heap.elements front
  return .list heap elems back (← heap.listLength back)

end Heap

/-- How a failure of an operation stops an entry point. -/
def Failure.stop : Failure → Stop
  | .fault f => .fault f
  | .refused e => .failed e.message

instance : MonadLift (Except Failure) (Except Stop) where
  monadLift x := x.mapError Failure.stop

/-- A stop of the task's own account is recorded. -/
def Task.noting (task : Task) : Stop → Task
  | .failed message => { task with log := task.log.push (.panicked message) }
  | _ => task

namespace Task

variable {α : Type}

/-- What an operation comes to that follows a plan, if there is one. -/
def attemptWithin (limit : Option Nat) (task : Task) :
    Except Failure (Plan α) → EStateM.Result Failure Task α
  | .ok plan => task.deliver .fault limit plan
  | .error e => .error e task

theorem attemptWithin_ok (limit : Option Nat) (task : Task) (plan : Plan α) :
    task.attemptWithin limit (.ok plan) = task.deliver .fault limit plan := rfl

/-- The same without a limit: there is room for all of the plan. -/
def attempt (task : Task) (plan : Except Failure (Plan α)) : EStateM.Result Failure Task α :=
  task.attemptWithin none plan

/-- What an entry point comes to that follows a plan, if there is one. -/
def carryOutWithin (limit : Option Nat) (task : Task) :
    Except Stop (Plan α) → EStateM.Result Stop Task α
  | .ok plan => task.deliver .fault limit plan
  | .error s => .error s (task.noting s)

theorem carryOutWithin_ok (limit : Option Nat) (task : Task) (plan : Plan α) :
    task.carryOutWithin limit (.ok plan) = task.deliver .fault limit plan := rfl

/-- The same without a limit. -/
def carryOut (task : Task) (plan : Except Stop (Plan α)) : EStateM.Result Stop Task α :=
  task.carryOutWithin none plan

end Task

section Following

variable {α β : Type} {limit : Option Nat} {task : Task}

theorem ask_eq_attemptWithin (limit : Option Nat) (question : Heap → Except Failure α) :
    Op.ask question task = task.attemptWithin limit ((question task.heap).map .found) := by
  rw [Op.ask]
  cases question task.heap with
  | ok a => exact (task.deliver_found a).symm
  | error e => rfl

theorem look_eq_attemptWithin (limit : Option Nat) (question : Heap → Except Fault α) :
    Op.look question task =
      task.attemptWithin limit (((question task.heap).mapError .fault).map .found) := by
  rw [Op.look]
  cases question task.heap with
  | ok a => exact (task.deliver_found a).symm
  | error f => rfl

theorem ask_eq_attempt (question : Heap → Except Failure α) :
    Op.ask question task = task.attempt ((question task.heap).map .found) :=
  ask_eq_attemptWithin none question

theorem look_eq_attempt (question : Heap → Except Fault α) :
    Op.look question task = task.attempt (((question task.heap).mapError .fault).map .found) :=
  look_eq_attemptWithin none question

/-- To use the result of an operation otherwise does not change what it places. -/
theorem map_eq_attemptWithin {op : Op α} {plan : Except Failure (Plan α)} (f : α → β)
    (h : op task = task.attemptWithin limit plan) :
    (f <$> op) task = task.attemptWithin limit (plan.map fun p => ⟨p.boxes, f p.result⟩) := by
  rw [map_eq_pure_bind]
  show EStateM.bind op _ task = _
  rw [EStateM.bind, h]
  cases plan with
  | error e => rfl
  | ok plan =>
      rw [Task.attemptWithin_ok]
      cases hplan : task.deliver Failure.fault limit plan with
      | ok a left =>
          obtain ⟨hfits, rfl, rfl⟩ := Task.deliver_ok hplan
          exact (Task.deliver_of_le hfits (f plan.result)).symm
      | error e left =>
          obtain ⟨n, rfl, hlt, rfl, rfl⟩ := Task.deliver_error hplan
          exact (Task.deliver_of_lt hlt (f plan.result)).symm

theorem map_eq_attempt {op : Op α} {plan : Except Failure (Plan α)} (f : α → β)
    (h : op task = task.attempt plan) :
    (f <$> op) task = task.attempt (plan.map fun p => ⟨p.boxes, f p.result⟩) :=
  map_eq_attemptWithin f h

/-- A question leaves the task to what comes next as it was. -/
theorem ask_bind_eq_attempt {question : Heap → Except Failure β} {rest : β → Op α}
    {plan : β → Except Failure (Plan α)}
    (h : ∀ b, question task.heap = .ok b → rest b task = task.attemptWithin limit (plan b)) :
    (Op.ask question >>= rest) task = task.attemptWithin limit (question task.heap >>= plan) := by
  show EStateM.bind (Op.ask question) rest task = _
  rw [EStateM.bind, Op.ask]
  cases hq : question task.heap with
  | ok b => exact h b hq
  | error e => rfl

theorem look_bind_eq_attempt {question : Heap → Except Fault β} {rest : β → Op α}
    {plan : β → Except Failure (Plan α)}
    (h : ∀ b, question task.heap = .ok b → rest b task = task.attemptWithin limit (plan b)) :
    (Op.look question >>= rest) task =
      task.attemptWithin limit ((question task.heap).mapError .fault >>= plan) := by
  show EStateM.bind (Op.look question) rest task = _
  rw [EStateM.bind, Op.look]
  cases hq : question task.heap with
  | ok b => exact h b hq
  | error e => rfl

theorem ofOp_of_ok {op : Op α} {a : α} {left : Task} (h : op task = .ok a left) :
    Entry.ofOp op task = .ok a left := by
  rw [Entry.ofOp, h]

theorem ask_of_ok {question : Heap → Except Failure α} {a : α} (h : question task.heap = .ok a) :
    Op.ask question task = .ok a task := by
  rw [Op.ask, h]

theorem ofOp_eq_carryOut {op : Op α} {plan : Except Failure (Plan α)}
    (h : op task = task.attemptWithin limit plan) :
    Entry.ofOp op task = task.carryOutWithin limit (plan.mapError Failure.stop) := by
  rw [Entry.ofOp, h]
  cases plan with
  | ok plan =>
      rw [Task.attemptWithin_ok]
      cases hplan : task.deliver Failure.fault limit plan with
      | ok a left =>
          obtain ⟨hfits, rfl, rfl⟩ := Task.deliver_ok hplan
          exact (Task.deliver_of_le hfits plan.result).symm
      | error e left =>
          obtain ⟨n, rfl, hlt, rfl, rfl⟩ := Task.deliver_error hplan
          exact (Task.deliver_of_lt hlt plan.result).symm
  | error e => cases e <;> rfl

theorem ofOp_bind_eq_carryOut {op : Op β} {answer : Except Failure β} {rest : β → Entry α}
    {plan : β → Except Stop (Plan α)} (h : op task = task.attemptWithin limit (answer.map .found))
    (hrest : ∀ b, rest b task = task.carryOutWithin limit (plan b)) :
    (Entry.ofOp op >>= rest) task =
      task.carryOutWithin limit (answer.mapError Failure.stop >>= plan) := by
  show EStateM.bind (Entry.ofOp op) rest task = _
  rw [EStateM.bind, ofOp_eq_carryOut h]
  cases answer with
  | ok b =>
      have hfound : task.carryOutWithin limit (((Except.ok b : Except Failure β).map
          Plan.found).mapError Failure.stop) = .ok b task := Task.deliver_found task b
      rw [hfound]
      exact hrest b
  | error e => rfl

theorem ofOp_ask_eq_carryOutWithin (question : Heap → Except Failure α) :
    Entry.ofOp (.ask question) task =
      task.carryOutWithin limit (do return .found (← question task.heap)) := by
  rw [ofOp_eq_carryOut (ask_eq_attemptWithin limit question)]
  cases question task.heap <;> rfl

theorem ofOp_ask_eq_carryOut (question : Heap → Except Failure α) :
    Entry.ofOp (.ask question) task = task.carryOut (do return .found (← question task.heap)) :=
  ofOp_ask_eq_carryOutWithin question

theorem newInt_eq_attempt (value : Int32) :
    Op.newIntWithin limit value task =
      task.attemptWithin limit (.ok (.number task.heap value)) :=
  placeWithin_eq limit (.int value) task

theorem listOntoWithin_eq_attempt {tail : Handle} {n : Nat}
    (hn : task.heap.listLength tail = .ok n) (elems : List Handle) :
    Op.listOntoWithin limit elems tail task =
      task.attemptWithin limit (.ok (.list task.heap elems tail n)) :=
  listOntoWithin_of_length hn elems

theorem listOnto_eq_attempt {tail : Handle} {n : Nat} (hn : task.heap.listLength tail = .ok n)
    (elems : List Handle) :
    Op.listOnto elems tail task = task.attempt (.ok (.list task.heap elems tail n)) :=
  listOntoWithin_of_length hn elems

end Following

/-! ## The primitives -/

theorem Heap.asList_ok {heap : Heap} {op : String} {v l : Handle} (h : heap.asList op v = .ok l) :
    v = l ∧ heap.IsList l := by
  rw [asList] at h
  cases htag : heap.tag v with
  | error f => rw [htag] at h; cases h
  | ok found =>
      rw [htag] at h
      rcases tag_ok_cases htag with ⟨rfl, rfl⟩ | ⟨c, hc, rfl⟩
      · exact ⟨Except.ok.inj h, Or.inl (Except.ok.inj h).symm⟩
      · cases c with
        | pair node =>
            obtain rfl : v = l := Except.ok.inj h
            exact ⟨rfl, Or.inr ⟨node, hc⟩⟩
        | int _ | sym _ | str _ => cases h

theorem Heap.IsList.exists_length {heap : Heap} {l : Handle} (h : heap.IsList l) :
    ∃ n, heap.listLength l = .ok n := by
  rcases h with rfl | ⟨node, hnode⟩
  · exact ⟨0, listLength_nil heap⟩
  · exact ⟨node.length, listLength_of_cell? hnode⟩

theorem consWithin_eq_attempt (limit : Option Nat) (head tail : Handle) (task : Task) :
    Op.consWithin limit head tail task =
      task.attemptWithin limit (task.heap.consPlan head tail) := by
  rw [Op.consWithin, Heap.consPlan]
  refine look_bind_eq_attempt fun found hfound => ?_
  rcases Heap.tag_ok_cases hfound with ⟨rfl, rfl⟩ | ⟨c, hc, rfl⟩
  · exact newPairWithin_of_length head (Heap.listLength_nil task.heap)
  · cases c with
    | pair node =>
        have hn := Heap.listLength_of_cell? hc
        simp only [Cell.tag, hn]
        exact newPairWithin_of_length head hn
    | int value => exact listOntoWithin_eq_attempt (Heap.listLength_nil task.heap) [head, tail]
    | sym _ | str _ => rfl

theorem appendWithin_eq_attempt (limit : Option Nat) (front back : Handle) (task : Task) :
    Op.appendWithin limit front back task =
      task.attemptWithin limit (task.heap.appendPlan front back) := by
  rw [Op.appendWithin, Heap.appendPlan]
  refine ask_bind_eq_attempt fun front' _ => ?_
  refine ask_bind_eq_attempt fun back' hback => ?_
  refine look_bind_eq_attempt fun elems _ => ?_
  obtain ⟨n, hn⟩ := (Heap.asList_ok hback).2.exists_length
  rw [hn]
  exact listOntoWithin_eq_attempt hn elems

theorem cons_eq_attempt (head tail : Handle) (task : Task) :
    Op.cons head tail task = task.attempt (task.heap.consPlan head tail) :=
  consWithin_eq_attempt none head tail task

theorem append_eq_attempt (front back : Handle) (task : Task) :
    Op.append front back task = task.attempt (task.heap.appendPlan front back) :=
  appendWithin_eq_attempt none front back task

namespace Call

/-- Whether a call is one to the printer. -/
def printing : Call → Bool
  | .print _ => true
  | _ => false

/-- What an entry point is going to do. The printing one is left out: it places nothing. -/
def plan (heap : Heap) : Call → Except Stop (Plan Handle)
  | .cons head tail => heap.consPlan head tail
  | .access accessor v => do return .found (← heap.follow accessor.path v)
  | .list elems => return .list heap elems .nil 0
  | .length v => do
    let n ← heap.length v
    if n < 2147483648 then return .number heap (.ofNat n)
    else throw (.failed ("length: " ++ n.repr ++ " does not fit in an Int"))
  | .null v => return .found (.ofBool v.isNil)
  | .append front back => heap.appendPlan front back
  | .assoc key alist => do return .found (← heap.assoc key alist)
  | .atom v => do return .found (.ofBool (← heap.isAtom v))
  | .eq x y => do return .found (.ofBool (← heap.eq x y))
  | .numberp v => do return .found (.ofBool (← heap.isA .int v))
  | .not v => return .found (.ofBool v.isNil)
  | .and x y => return .found (.ofBool (!x.isNil && !y.isNil))
  | .or x y => return .found (.ofBool (!x.isNil || !y.isNil))
  | .assert v => do
    let checked : Except Failure Unit := (checkAssertion v).mapError .refused
    checked
    return .found .nil
  | .gt x y => do return .found (.ofBool (← heap.gt x y))
  | .mul x y => do return .number heap (← heap.mul x y)
  | .sub x y => do return .number heap (← heap.sub x y)
  | .print _ => return .found .nil

end Call

theorem enterWithin_eq_carryOut {call : Call} (h : call.printing = false) (limit : Option Nat)
    (task : Task) :
    call.enterWithin limit task = task.carryOutWithin limit (call.plan task.heap) := by
  have answers : ∀ v : Handle, (pure v : Entry Handle) task =
      task.carryOutWithin limit (.ok (.found v)) := fun v => (task.deliver_found v).symm
  cases call with
  | cons head tail => exact ofOp_eq_carryOut (consWithin_eq_attempt limit head tail task)
  | access accessor v => exact ofOp_ask_eq_carryOutWithin _
  | list elems => exact ofOp_eq_carryOut (listOntoWithin_eq_attempt (Heap.listLength_nil _) elems)
  | length v =>
      refine ofOp_bind_eq_carryOut (ask_eq_attemptWithin limit _) fun n => ?_
      split
      · exact ofOp_eq_carryOut (newInt_eq_attempt _)
      · rfl
  | append front back => exact ofOp_eq_carryOut (appendWithin_eq_attempt limit front back task)
  | assoc key alist => exact ofOp_ask_eq_carryOutWithin _
  | null v => exact answers _
  | not v => exact answers _
  | and x y => exact answers _
  | or x y => exact answers _
  | atom v => exact ofOp_bind_eq_carryOut (look_eq_attemptWithin limit _) fun b => answers _
  | eq x y => exact ofOp_bind_eq_carryOut (look_eq_attemptWithin limit _) fun b => answers _
  | numberp v => exact ofOp_bind_eq_carryOut (look_eq_attemptWithin limit _) fun b => answers _
  | assert v => exact ofOp_bind_eq_carryOut (ask_eq_attemptWithin limit _) fun _ => answers _
  | gt x y => exact ofOp_bind_eq_carryOut (ask_eq_attemptWithin limit _) fun b => answers _
  | mul x y =>
      exact ofOp_bind_eq_carryOut (ask_eq_attemptWithin limit _) fun n =>
        ofOp_eq_carryOut (newInt_eq_attempt n)
  | sub x y =>
      exact ofOp_bind_eq_carryOut (ask_eq_attemptWithin limit _) fun n =>
        ofOp_eq_carryOut (newInt_eq_attempt n)
  | print v => cases h

theorem enter_eq_carryOut {call : Call} (h : call.printing = false) (task : Task) :
    call.enter task = task.carryOut (call.plan task.heap) :=
  enterWithin_eq_carryOut h none task

/-! ## What a plan places -/

section Inversion

variable {ε ε' α β : Type}

theorem mapError_eq_ok {x : Except ε α} {f : ε → ε'} {a : α} (h : x.mapError f = .ok a) :
    x = .ok a := by
  cases x with
  | ok b => rw [Except.ok.inj h]
  | error e => cases h

theorem bind_eq_ok {x : Except ε α} {f : α → Except ε β} {b : β} (h : (x >>= f) = .ok b) :
    ∃ a, x = .ok a ∧ f a = .ok b := by
  cases x with
  | ok a => exact ⟨a, rfl, h⟩
  | error e => cases h

end Inversion

theorem Heap.asPair_ok {heap : Heap} {op : String} {v : Handle} {node : Pair}
    (h : heap.asPair op v = .ok node) : heap.cell? v = some (.pair node) := by
  rw [asPair_eq] at h
  obtain ⟨found, hfound, h⟩ := bind_eq_ok h
  rcases view_ok_cases (mapError_eq_ok hfound) with ⟨_, rfl⟩ | ⟨c, hc, rfl⟩
  · cases h
  · cases c with
    | pair node' => rw [hc, Except.ok.inj h]
    | int _ | sym _ | str _ => cases h

/-- The boxes that a call adds to a heap if it returns. -/
def Call.Adds (heap : Heap) (added : List Cell) : Call → Prop
  | .cons head tail =>
    (heap.IsList tail ∧ ∃ n, heap.listLength tail = .ok n ∧ added = [.pair ⟨n + 1, head, tail⟩]) ∨
    ∃ value, heap.cell? tail = some (.int value) ∧
      added = [.pair ⟨1, tail, .nil⟩, .pair ⟨2, head, ⟨heap.size + 1⟩⟩]
  | .list elems =>
    added = pairsOnto heap.size 0 .nil elems ∧
      added.map Cell.tag = List.replicate elems.length .pair
  | .append front back =>
    ∃ elems n, heap.elements front = .ok elems ∧ heap.length front = .ok elems.length ∧
      heap.listLength back = .ok n ∧ added = pairsOnto heap.size n back elems ∧
      added.map Cell.tag = List.replicate elems.length .pair
  | .length v => ∃ n, heap.length v = .ok n ∧ added = [.int (.ofNat n)]
  | .mul x y => ∃ value, heap.mul x y = .ok value ∧ added = [.int value]
  | .sub x y => ∃ value, heap.sub x y = .ok value ∧ added = [.int value]
  | .access .. | .null _ | .assoc .. | .atom _ | .eq .. | .numberp _ | .not _ | .and .. | .or ..
  | .assert _ | .gt .. | .print _ => added = []

section Adding

variable {heap : Heap} {plan : Plan Handle}

theorem adds_of_consPlan {head tail : Handle} (h : heap.consPlan head tail = .ok plan) :
    (Call.cons head tail).Adds heap plan.boxes := by
  rw [Heap.consPlan] at h
  obtain ⟨found, hfound, h⟩ := bind_eq_ok h
  rcases Heap.tag_ok_cases (mapError_eq_ok hfound) with ⟨rfl, rfl⟩ | ⟨c, hc, rfl⟩
  · obtain rfl := Except.ok.inj h
    exact Or.inl ⟨Or.inl rfl, 0, rfl, rfl⟩
  · cases c with
    | pair node =>
        obtain ⟨n, hn, h⟩ := bind_eq_ok h
        obtain rfl := Except.ok.inj h
        exact Or.inl ⟨Or.inr ⟨node, hc⟩, n, mapError_eq_ok hn, rfl⟩
    | int value =>
        obtain rfl := Except.ok.inj h
        exact Or.inr ⟨value, hc, rfl⟩
    | sym _ | str _ => cases h

theorem Heap.length_of_isList {l : Handle} (hl : heap.IsList l) :
    heap.length l = (heap.listLength l).mapError .fault := by
  rcases hl with rfl | ⟨node, hnode⟩
  · rfl
  · rw [length_of_cell? hnode, listLength_of_cell? hnode]
    rfl

theorem adds_of_appendPlan (hp : heap.Proper) {front back : Handle}
    (h : heap.appendPlan front back = .ok plan) :
    (Call.append front back).Adds heap plan.boxes := by
  rw [Heap.appendPlan] at h
  obtain ⟨l, hl, h⟩ := bind_eq_ok h
  obtain ⟨m, hm, h⟩ := bind_eq_ok h
  obtain ⟨elems, helems, h⟩ := bind_eq_ok h
  obtain ⟨n, hn, h⟩ := bind_eq_ok h
  obtain rfl := Except.ok.inj h
  obtain ⟨rfl, hlist⟩ := Heap.asList_ok hl
  obtain ⟨rfl, _⟩ := Heap.asList_ok hm
  have helems := mapError_eq_ok helems
  -- The walk gives as many elements as the first pair says, so that is how many pairs are placed.
  obtain ⟨xs, hxs, hlen⟩ := hp.exists_elements front hlist
  obtain rfl : xs = elems := Except.ok.inj (hxs.symm.trans helems)
  refine ⟨xs, n, hxs, ?_, mapError_eq_ok hn, rfl, tags_pairsOnto _ _ _ _⟩
  rw [Heap.length_of_isList hlist, hlen]
  rfl

theorem adds_of_plan (hp : heap.Proper) {call : Call} (h : call.plan heap = .ok plan) :
    call.Adds heap plan.boxes := by
  cases call with
  | cons head tail => exact adds_of_consPlan (mapError_eq_ok h)
  | append front back => exact adds_of_appendPlan hp (mapError_eq_ok h)
  | list elems =>
      obtain rfl := Except.ok.inj h
      exact ⟨rfl, tags_pairsOnto _ _ _ _⟩
  | length v =>
      obtain ⟨n, hn, h⟩ := bind_eq_ok h
      split at h
      · obtain rfl := Except.ok.inj h
        exact ⟨n, mapError_eq_ok hn, rfl⟩
      · cases h
  | mul x y =>
      obtain ⟨value, hvalue, h⟩ := bind_eq_ok h
      obtain rfl := Except.ok.inj h
      exact ⟨value, mapError_eq_ok hvalue, rfl⟩
  | sub x y =>
      obtain ⟨value, hvalue, h⟩ := bind_eq_ok h
      obtain rfl := Except.ok.inj h
      exact ⟨value, mapError_eq_ok hvalue, rfl⟩
  | null | not | and | or | print =>
      obtain rfl := Except.ok.inj h
      rfl
  | access | assoc | atom | eq | numberp | assert | gt =>
      obtain ⟨_, _, h⟩ := bind_eq_ok h
      obtain rfl := Except.ok.inj h
      rfl

end Adding

theorem heap_noting (task : Task) (s : Stop) : (task.noting s).heap = task.heap := by
  cases s <;> rfl

/-- A question leaves the task as it was. -/
theorem ask_leaves {α : Type} (question : Heap → Except Failure α) (task : Task) :
    taskLeft (Op.ask question task) = task := by
  rw [Op.ask]
  split <;> rfl

/-- An entry point that only asks may add to the log, but it leaves the heap as it was. -/
theorem ofOp_ask_leaves {α : Type} (question : Heap → Except Failure α) (task : Task) :
    (taskLeft (Entry.ofOp (.ask question) task)).heap = task.heap := by
  rw [ofOp_eq_carryOut (ask_eq_attempt question)]
  cases question task.heap with
  | ok a => rfl
  | error e => exact heap_noting task e.stop

/-- How the printing entry point is stopped when writing is. -/
def WriteStop.stop : WriteStop → Stop
  | .fault f => .fault f
  | e => .failed ("Unable to print: " ++ e.message)

theorem enter_print (v : Handle) (task : Task) :
    (Call.print v).enter task =
      match task.heap.print v task.out with
      | .ok _ out => .ok .nil { task with out := out }
      | .error e out => .error e.stop ({ task with out := out }.noting e.stop) := by
  show EStateM.bind (Entry.print v) _ task = _
  rw [EStateM.bind, Entry.print]
  cases task.heap.print v task.out with
  | ok _ out => rfl
  | error e out => cases e <;> rfl

/-- After a run on any handles at all, a call that stops leaves all boxes and names as they were. A
call that returns adds no name and just the boxes that it is there to add. -/
theorem calls_are_all_or_nothing (names : List String) (ops : List Operation) (call : Call) :
    let task := (Task.fresh names).after ops
    match call.enter task with
    | .error _ left => left.heap = task.heap
    | .ok _ left => left.heap.symbols = task.heap.symbols ∧ ∃ added,
        left.heap.cells.toList = task.heap.cells.toList ++ added ∧ call.Adds task.heap added := by
  intro task
  have hp : task.heap.Proper := Heap.proper_after names ops
  cases hprint : call.printing with
  | false =>
      rw [enter_eq_carryOut hprint]
      cases hplan : call.plan task.heap with
      | ok plan =>
          exact ⟨task.symbols_placeAll plan.boxes, plan.boxes, task.cells_placeAll plan.boxes,
            adds_of_plan hp hplan⟩
      | error s => exact heap_noting task s
  | true =>
      cases call with
      | print v =>
          rw [enter_print]
          cases task.heap.print v task.out with
          | ok _ out => exact ⟨rfl, [], (List.append_nil _).symm, rfl⟩
          | error e out => exact heap_noting _ e.stop
      | _ => cases hprint

end LispHeap
