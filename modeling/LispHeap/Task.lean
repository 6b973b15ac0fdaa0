import LispHeap.Heap.Atom
import LispHeap.Printer
import LispHeap.Error
import LispHeap.Log

/-!
# Tasks

A task owns a heap, a log and the place it prints to. Operations run on a task in one of two
forms. An `Op` ends with a value or a failure and belongs to the library; an `Entry` is what
compiled code calls, and where an operation would refuse, an entry stops the task with the error's
text and records that it did. In both the task outlives the failure: boxes placed before it stay.

What places boxes comes in two forms. The one that ends in `Within` has a limit of boxes and faults
where the next one would pass it; without a limit, which is `none`, a heap never fills up. The other
form is the first one without a limit. Below the limit the two do the same.
-/

namespace LispHeap

/-- A heap, what was recorded of it, and where its values are printed. -/
structure Task where
  heap : Heap
  log : Array Record := #[]
  out : Sink := {}

/-- What was thrown by code that is not the task's own. -/
inductive Payload where
  /-- A text that was put together when it was thrown. -/
  | string (message : String)
  /-- A text that stands in the code. -/
  | literal (message : String)
  /-- Anything that is no text. -/
  | other
  deriving DecidableEq

/-- Why a task stops before its end. -/
inductive Stop where
  | fault (f : Fault)
  | failed (message : String)
  | thrown (payload : Payload)
  deriving DecidableEq

/-- The text that reports a stop. -/
def Stop.message : Stop → String
  | .fault f => f.message
  | .failed message => message
  | .thrown (.string message) => message
  | .thrown (.literal message) => message
  | .thrown .other => "Unexpected panic type"

/-- An operation of the library. -/
abbrev Op := EStateM Failure Task

/-- An entry point for compiled code. -/
abbrev Entry := EStateM Stop Task

namespace Op

/-- A question to the heap that changes nothing. -/
def ask {α : Type} (question : Heap → Except Failure α) : Op α := fun task =>
  match question task.heap with
  | .ok a => .ok a task
  | .error e => .error e task

/-- A question to the heap that no error can answer. -/
def look {α : Type} (question : Heap → Except Fault α) : Op α := fun task =>
  match question task.heap with
  | .ok a => .ok a task
  | .error f => .error (.fault f) task

/-! ## Placing boxes -/

/-- Adds a box to the heap and records it. -/
def place (c : Cell) : Op Handle := fun task =>
  let heap := task.heap.push c
  .ok ⟨heap.size⟩
    { task with heap := heap, log := task.log.push (.placed c.tag ⟨heap.size⟩) }

/-- Adds a box, unless the heap has as many as the limit allows. -/
def placeWithin (limit : Option Nat) (c : Cell) : Op Handle := fun task =>
  match limit with
  | none => place c task
  | some n =>
    if task.heap.size < n then place c task
    else .error (.fault (.exhausted task.heap.size)) task

/-- The number of a name, which is a new one if the heap does not know the name. -/
def intern (name : String) : Op SymbolId := fun task =>
  let (id, heap) := task.heap.intern name
  .ok id { task with heap := heap }

/-- The cell of an atom, made with the names of this task's heap. -/
def construct (atom : Atom) : Op Cell := fun task =>
  let (c, symbols) := atom.cell task.heap.symbols
  .ok c { task with heap := { task.heap with symbols := symbols } }

/-- A new box for an atom. A name is interned even if there is no number for the box. -/
def newAtomWithin (limit : Option Nat) (atom : Atom) : Op Handle := do
  placeWithin limit (← construct atom)

/-- A new box for an atom. -/
def newAtom (atom : Atom) : Op Handle := newAtomWithin none atom

/-- A new integer within a limit. -/
def newIntWithin (limit : Option Nat) (value : Int32) : Op Handle :=
  newAtomWithin limit (.int value)

/-- A new integer. -/
def newInt (value : Int32) : Op Handle := newAtom (.int value)

/-- A new string. -/
def newStr (text : String) : Op Handle := newAtom (.str text)

/-- A new box, even if the name is an old one. -/
def newSym (name : String) : Op Handle := newAtom (.sym name)

/-- A pair in front of a list. The head is not looked at; the list's length is, before the limit. -/
def newPairWithin (limit : Option Nat) (head rest : Handle) : Op Handle := do
  let n ← look (·.listLength rest)
  placeWithin limit (.pair ⟨n + 1, head, rest⟩)

/-- A pair in front of a list. -/
def newPair (head rest : Handle) : Op Handle := newPairWithin none head rest

/-- The elements in front of a list, one new pair each, the last one first. -/
def listOntoWithin (limit : Option Nat) : List Handle → Handle → Op Handle
  | [], tail => return tail
  | x :: xs, tail => do newPairWithin limit x (← listOntoWithin limit xs tail)

/-- The elements in front of a list. -/
def listOnto (elems : List Handle) (tail : Handle) : Op Handle := listOntoWithin none elems tail

/-- A new list within a limit. -/
def newListWithin (limit : Option Nat) (elems : List Handle) : Op Handle :=
  listOntoWithin limit elems .nil

/-- A new list. -/
def newList (elems : List Handle) : Op Handle := listOnto elems .nil

/-- One new integer for each of `n` numbers counted up from `start`, with wrapping. -/
def newIntsWithin (limit : Option Nat) : Nat → Int32 → Op (List Handle)
  | 0, _ => return []
  | n + 1, start => do
    let h ← newIntWithin limit start
    return h :: (← newIntsWithin limit n (start + 1))

/-- The value inside `n` lists of one element each. -/
def nestWithin (limit : Option Nat) : Nat → Handle → Op Handle
  | 0, v => return v
  | n + 1, v => do nestWithin limit n (← newListWithin limit [v])

end Op

namespace Task

/-- A heap with some names known beforehand and the symbol `t` as its first box. -/
def fresh (names : List String) : Task :=
  let bare : Task := { heap := { symbols := ({} : SymbolTable).internAll names } }
  match Op.newSym "t" bare with
  | .ok _ task => task
  | .error _ task => task

end Task

namespace Entry

/-- Stops the task with a message and records it. -/
def fail {α : Type} (message : String) : Entry α := fun task =>
  .error (.failed message) { task with log := task.log.push (.panicked message) }

/-- An operation whose refusal stops the task. -/
def ofOp {α : Type} (op : Op α) : Entry α := fun task =>
  match op task with
  | .ok a task => .ok a task
  | .error (.fault f) task => .error (.fault f) task
  | .error (.refused e) task => fail e.message task

/-- Prints a value and a newline to where the task prints to. -/
def print (v : Handle) : Entry Unit := fun task =>
  match task.heap.print v task.out with
  | .ok _ out => .ok () { task with out := out }
  | .error (.fault f) out => .error (.fault f) { task with out := out }
  | .error stop out => fail ("Unable to print: " ++ stop.message) { task with out := out }

end Entry

end LispHeap
