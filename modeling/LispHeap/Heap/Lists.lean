import LispHeap.Heap.Basic

/-!
# Reading lists

A list is the empty list or a pair whose rest is a list. Each pair remembers how many elements
start at it, so a length is read and not counted.

Nothing in the shape of a heap forbids a rest that leads back, so a walk along rests carries a
budget. The size of the heap covers every chain that ends, because such a chain visits no box
twice; a walk that runs out of it is one that never ends.
-/

namespace LispHeap

namespace Heap

/-- The number of elements of a list, as remembered by its first pair. -/
def listLength (heap : Heap) (l : Handle) : Except Fault Nat :=
  if l.isNil then .ok 0 else (heap.pairAt l).map Pair.length

/-- The first element of a list and the list of the others. -/
def uncons? (heap : Heap) (l : Handle) : Except Fault (Option (Handle × Handle)) :=
  if l.isNil then .ok none else (heap.pairAt l).map fun p => some (p.head, p.rest)

/-- The elements of a list of at most so many. -/
def elementsWithin (heap : Heap) : Nat → Handle → Except Fault (List Handle)
  | 0, l => if l.isNil then return [] else throw (.endless l)
  | budget + 1, l => do
    match ← heap.uncons? l with
    | none => return []
    | some (head, rest) => return head :: (← elementsWithin heap budget rest)

/-- The elements of a list in order. -/
def elements (heap : Heap) (l : Handle) : Except Fault (List Handle) :=
  heap.elementsWithin heap.size l

end Heap

/-- How many elements are to come: at least `lower`, and at most `upper` if that is known. -/
structure Bounds where
  lower : Nat
  upper : Option Nat
  deriving DecidableEq

namespace Bounds

/-- So many, no more and no fewer. -/
def exactly (n : Nat) : Bounds := ⟨n, some n⟩

/-- For one sequence behind another, where the most is known only if it is known of both. -/
def append (a b : Bounds) : Bounds where
  lower := a.lower + b.lower
  upper := do return (← a.upper) + (← b.upper)

end Bounds

/-- A place in a list: an element about to be given out, if any, and the list of what follows. -/
structure Cursor where
  first : Option Handle
  rest : Handle
  deriving DecidableEq

namespace Cursor

/-- At the start of a list. -/
def ofList (l : Handle) : Cursor := ⟨none, l⟩

/-- At the start of the list that begins with a given node. -/
def ofPair (node : Pair) : Cursor := ⟨some node.head, node.rest⟩

/-- Whether nothing is left, as far as that is known without a look. -/
def atEnd (c : Cursor) : Bool := c.first.isNone && c.rest.isNil

/-- How many elements are left. -/
def remaining (heap : Heap) (c : Cursor) : Except Fault Nat := do
  return c.first.toList.length + (← heap.listLength c.rest)

/-- What is said in advance of the elements that are left. -/
def bounds (heap : Heap) (c : Cursor) : Except Fault Bounds := do
  return (Bounds.exactly c.first.toList.length).append (.exactly (← heap.listLength c.rest))

/-- The next element, if any, and the place after it. -/
def next (heap : Heap) (c : Cursor) : Except Fault (Option Handle × Cursor) :=
  match c.first with
  | some h => .ok (some h, ofList c.rest)
  | none => do
    match ← heap.uncons? c.rest with
    | some (head, rest) => return (some head, ofList rest)
    | none => return (none, c)

/-- One call of `next`, with the count just before it. -/
structure Visit where
  remaining : Nat
  element : Option Handle
  deriving DecidableEq

/-- The first calls of `next`, as many as asked for, each with the count before it. -/
def visits (heap : Heap) : Nat → Cursor → Except Fault (List Visit)
  | 0, _ => return []
  | n + 1, c => do
    let count ← c.remaining heap
    let (element, after) ← c.next heap
    return ⟨count, element⟩ :: (← visits heap n after)

end Cursor

end LispHeap
