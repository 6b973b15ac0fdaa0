import LispHeap.Primitive.Basic
import LispHeap.Heap.BoxType

/-!
# Runs

What can be said of a heap is said of every heap that some sequence of calls leads to. An
`Operation` is one such call with the handles it is given: a constructor, a look that narrows a
handle, the operation behind a primitive, or its entry point. `perform` carries it out and never
gets stuck: a call that refuses its arguments or stops leaves the task as the call left it, and the
run goes on with the next one.

A heap may have a limit of boxes, as in `performWithin` and `Task.afterWithin`; `perform` and
`Task.after` are the same without one.

Two kinds of run matter. In the first, every handle is a plain number and may come from anywhere, so
a run is no more than a list of operations (`Task.after`). In the second, a caller plays by the
rules: it uses the empty list, the symbol `t` and what earlier calls of the same run have returned,
and it passes a handle as a list only if a narrowing has found it to be one. `Session` keeps the
record that these rules need, and `Session.permits` states them.
-/

namespace LispHeap

/-- The handles that a call is given. -/
def Call.handles : Call → List Handle
  | .cons head tail => [head, tail]
  | .access _ v => [v]
  | .list elems => elems
  | .length v => [v]
  | .null v => [v]
  | .append front back => [front, back]
  | .assoc key alist => [key, alist]
  | .atom v => [v]
  | .eq x y => [x, y]
  | .numberp v => [v]
  | .not v => [v]
  | .and x y => [x, y]
  | .or x y => [x, y]
  | .assert v => [v]
  | .gt x y => [x, y]
  | .mul x y => [x, y]
  | .sub x y => [x, y]
  | .print v => [v]

/-- A type all of whose values are lists. -/
def BoxType.isList : BoxType → Bool
  | .list => true
  | .tagged .pair => true
  | _ => false

/-- A call on a task, with the handles that it is given. -/
inductive Operation where
  | newAtom (atom : Atom)
  | newPair (head rest : Handle)
  | listOnto (elems : List Handle) (tail : Handle)
  | intern (name : String)
  /-- Places a box that was made with the names of some table, be it the heap's own or not. -/
  | place (table : SymbolTable) (atom : Atom)
  | narrow (type : BoxType) (v : Handle)
  | core (call : Call)
  | enter (call : Call)

/-- How an operation ended. -/
inductive Outcome where
  | value (v : Call.Value)
  | symbol (id : SymbolId)
  /-- A narrowing that did not succeed, or a primitive without an operation behind it. -/
  | absent
  | refused (e : Error)
  | stopped (s : Stop)
  deriving DecidableEq

namespace Outcome

/-- The end of an operation that gives a handle. -/
def returned (h : Handle) : Outcome := .value (.handle h)

/-- The handle that was given, if any. -/
def handle? : Outcome → Option Handle
  | .value (.handle h) => some h
  | _ => none

/-- The end of an operation of the library, by what it gives. -/
def ofOp {α : Type} (give : α → Outcome) : EStateM.Result Failure Task α → Outcome × Task
  | .ok a task => (give a, task)
  | .error (.refused e) task => (.refused e, task)
  | .error (.fault f) task => (.stopped (.fault f), task)

/-- The end of an entry point. -/
def ofEntry : EStateM.Result Stop Task Handle → Outcome × Task
  | .ok h task => (.returned h, task)
  | .error s task => (.stopped s, task)

/-- The end of a narrowing. -/
def ofNarrowed : Option Handle → Outcome
  | some h => .returned h
  | none => .absent

end Outcome

namespace Operation

/-- The handles that may be any value. -/
def handles : Operation → List Handle
  | .newPair head _ => [head]
  | .listOnto elems _ => elems
  | .narrow _ v => [v]
  | .core call => call.handles
  | .enter call => call.handles
  | .newAtom _ | .intern _ | .place .. => []

/-- The handles that are taken to be lists without a look. -/
def lists : Operation → List Handle
  | .newPair _ rest => [rest]
  | .listOnto _ tail => [tail]
  | _ => []

/-- Whether it makes no use of a table of names from elsewhere. -/
def native : Operation → Bool
  | .place .. => false
  | _ => true

/-- Carries out an operation on a heap with a limit. -/
def performWithin (limit : Option Nat) : Operation → Task → Outcome × Task
  | .newAtom atom, task => Outcome.ofOp .returned (Op.newAtomWithin limit atom task)
  | .newPair head rest, task => Outcome.ofOp .returned (Op.newPairWithin limit head rest task)
  | .listOnto elems tail, task => Outcome.ofOp .returned (Op.listOntoWithin limit elems tail task)
  | .intern name, task => Outcome.ofOp .symbol (Op.intern name task)
  | .place table atom, task =>
    Outcome.ofOp .returned (Op.placeWithin limit (atom.cell table).1 task)
  | .narrow type v, task => Outcome.ofOp .ofNarrowed (Op.look (·.narrow type v) task)
  | .core call, task =>
    match call.runWithin? limit with
    | some operation => Outcome.ofOp .value (operation task)
    | none => (.absent, task)
  | .enter call, task => Outcome.ofEntry (call.enterWithin limit task)

/-- Carries out an operation: how it ended, and the task as it was left. -/
def perform (op : Operation) (task : Task) : Outcome × Task := op.performWithin none task

end Operation

/-- The task after a run on a heap with a limit. -/
def Task.afterWithin (limit : Option Nat) (task : Task) (ops : List Operation) : Task :=
  ops.foldl (fun task op => (op.performWithin limit task).2) task

/-- The task after a run. -/
def Task.after (task : Task) (ops : List Operation) : Task := task.afterWithin none ops

theorem Task.afterWithin_append (limit : Option Nat) (task : Task) (xs ys : List Operation) :
    task.afterWithin limit (xs ++ ys) = (task.afterWithin limit xs).afterWithin limit ys :=
  List.foldl_append

theorem Task.after_append (task : Task) (xs ys : List Operation) :
    task.after (xs ++ ys) = (task.after xs).after ys :=
  task.afterWithin_append none xs ys

/-! ## Runs on handles of their own -/

/-- A task, and what its caller may use. -/
structure Session where
  task : Task
  /-- The values: the empty list, `t` and every handle that a call has returned. -/
  known : List Handle
  /-- The lists: the empty list and every handle that was narrowed to a type of lists. -/
  lists : List Handle

namespace Session

/-- A new task, whose caller has the empty list and `t`. -/
def start (names : List String) (out : Sink) : Session where
  task := { Task.fresh names with out := out }
  known := [.nil, .t]
  lists := [.nil]

/-- What a caller that plays by the rules may do next. -/
def permits (s : Session) (op : Operation) : Prop :=
  (∀ h ∈ op.handles, h ∈ s.known) ∧ (∀ l ∈ op.lists, l ∈ s.lists) ∧ op.native = true

instance (s : Session) (op : Operation) : Decidable (s.permits op) :=
  inferInstanceAs (Decidable (_ ∧ _ ∧ _))

/-- What the end of an operation shows to be a list. -/
def narrowed (outcome : Outcome) : Operation → List Handle
  | .narrow type _ => if type.isList then outcome.handle?.toList else []
  | _ => []

/-- One operation, with what its caller may use afterwards. -/
def step (s : Session) (op : Operation) : Session :=
  let (outcome, task) := op.perform s.task
  { task := task
    known := outcome.handle?.toList ++ s.known
    lists := narrowed outcome op ++ s.lists }

/-- A run. -/
def after (s : Session) (ops : List Operation) : Session := ops.foldl step s

/-- Whether each operation of a run keeps to the rules at its turn. -/
def permitsAll (s : Session) : List Operation → Prop
  | [] => True
  | op :: ops => s.permits op ∧ (s.step op).permitsAll ops

instance decidablePermitsAll : (s : Session) → (ops : List Operation) → Decidable (s.permitsAll ops)
  | _, [] => inferInstanceAs (Decidable True)
  | s, op :: ops =>
    have := decidablePermitsAll (s.step op) ops
    inferInstanceAs (Decidable (_ ∧ _))

end Session

end LispHeap
