import LispHeap.Task
import LispHeap.Heap.BoxType

/-!
# Numbers, kinds and truth

Integers have 32 bits and arithmetic wraps. An arithmetic primitive looks at both operands, the
left one first, before it accepts or refuses them. The empty list is the only false value.
-/

namespace LispHeap.Heap

/-- Two values that both have to be integers. -/
def asInts (heap : Heap) (op : String) (lhs rhs : Handle) : Except Failure (Int32 × Int32) := do
  match ← heap.narrow (.tagged .int) lhs, ← heap.narrow (.tagged .int) rhs with
  | some i, some j => return (← heap.intAt i, ← heap.intAt j)
  | _, _ => throw (.refused (.unexpectedTypes op (← heap.tag lhs) (← heap.tag rhs)))

/-- Whether the left integer is greater. -/
def gt (heap : Heap) (lhs rhs : Handle) : Except Failure Bool := do
  let (i, j) ← heap.asInts "GT" lhs rhs
  return j < i

/-- The product, with wrapping. -/
def mul (heap : Heap) (lhs rhs : Handle) : Except Failure Int32 := do
  let (i, j) ← heap.asInts "MUL" lhs rhs
  return i * j

/-- The difference, with wrapping. -/
def sub (heap : Heap) (lhs rhs : Handle) : Except Failure Int32 := do
  let (i, j) ← heap.asInts "SUB" lhs rhs
  return i - j

/-- Whether a value is in a box of this kind. -/
def isA (heap : Heap) (tag : Tag) (v : Handle) : Except Fault Bool := do
  return (← heap.tag v) == some tag

/-- Everything but a pair is an atom. -/
def isAtom (heap : Heap) (v : Handle) : Except Fault Bool := do
  return !(← heap.isA .pair v)

end LispHeap.Heap

namespace LispHeap

/-- Refuses the empty list. -/
def checkAssertion (v : Handle) : Except Error Unit :=
  if v.isNil then .error .assertionFailed else .ok ()

end LispHeap
