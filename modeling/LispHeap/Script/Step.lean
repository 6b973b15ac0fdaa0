import LispHeap.Primitive.Basic
import LispHeap.Heap.BoxType

/-!
# Scripts

A script drives one or more heaps step by step. Each step works on one heap, and some read a
second one. What a step yields goes into a register of its own, and later steps may use the handle
in it as an operand, on whichever heap they work. So a script can carry handles from one heap to
another, which is how the faults of the heap come to be seen.

Steps that ask for something that does not exist are malformed. A malformed part is found when its
turn comes, so what was built before it is there.
-/

namespace LispHeap.Script

/-- A value to be built or fetched. -/
inductive Operand where
  | nil
  | int (value : Int32)
  | str (text : String)
  | sym (name : String)
  | truth
  | register (k : Nat)
  | list (items : List Operand)
  | malformed
  deriving Inhabited

/-- What a typed handle points to: a box of one kind, or a list. -/
inductive Pointee where
  | box (tag : Tag)
  | list
  deriving DecidableEq

namespace Pointee

/-- The type of the handle. -/
def type : Pointee → BoxType
  | .box tag => .tagged tag
  | .list => .list

/-- What a handle of a type points to, unless that may be any value. -/
def ofType? : BoxType → Option Pointee
  | .any => none
  | .tagged tag => some (.box tag)
  | .list => some .list

end Pointee

/-- What a step does. -/
inductive Action where
  /-- Builds a value. -/
  | value (v : Operand)
  /-- Calls an entry point by name. -/
  | call (name : String) (args : List Operand)
  /-- Calls the operation behind an entry point. -/
  | core (name : String) (args : List Operand)
  /-- Puts a pair in front of a list of the second heap. -/
  | pair (head rest : Operand)
  /-- Puts elements in front of a list of the second heap. -/
  | tail (elems : List Operand) (tail : Operand)
  /-- Puts a value into `n` lists, one inside the other. -/
  | nest (v : Operand) (n : Nat)
  /-- A list of `n` numbers. -/
  | range (start : Int32) (n : Nat)
  | ofBool (b : Bool)
  /-- Everything that the heap tells about a value. -/
  | info (v : Operand)
  | narrow (type : BoxType) (v : Operand)
  /-- Narrows on the second heap and reads on the first. -/
  | get (pointee : Pointee) (v : Operand)
  /-- A symbol of the second heap, looked up in the names of the first. -/
  | symbolName (v : Operand)
  /-- Compares the contents of a box of each heap. -/
  | sameValue (x y : Operand)
  /-- A run of arguments, taken as a whole. -/
  | handles (args : List Operand)
  /-- Walks a list, from a list handle or from its first node. -/
  | walk (fromNode : Bool) (v : Operand)
  /-- Writes a value into a bounded sink, with or without a newline. -/
  | write (newline : Bool) (limit : Nat) (v : Operand)
  | intern (name : String)
  /-- Places a box made with the names of the second heap. -/
  | place (atom : Atom)
  /-- Tells about the heap as a whole. -/
  | survey
  /-- Passes a value through. -/
  | accept (v : Operand)
  /-- Stops with a message, in the task's own name. -/
  | fail (message : String)
  /-- Stops as if by foreign code. -/
  | throw (payload : Payload)
  | malformed

/-- An action and the heaps it works on. `source` is the second heap; `quiet` leaves out the
printed text of what the step yields. -/
structure Step where
  action : Action
  on : Nat := 0
  source : Nat := 0
  quiet : Bool := false

end LispHeap.Script
