import LispHeap.Task
import LispHeap.Heap.BoxType

/-!
# List primitives

Lists built here are proper: the rest of a pair is a pair or the empty list. So `cons` accepts no
atom as a tail, with one exception of this Lisp: an integer tail is first put into a list of its
own. A symbol or a string as a tail is refused before anything is placed.

Operands are checked from left to right, and only by their tags. What has passed as a pair is then
read as one, which is a look of its own. Heads are never looked at by what stores them.
-/

namespace LispHeap

/-- One step of an accessor: `a` takes the head of a pair and `d` the rest. -/
inductive Link where
  | a
  | d
  deriving DecidableEq

namespace Heap

/-- A value that has to be a pair. -/
def asPair (heap : Heap) (op : String) (v : Handle) : Except Failure Pair := do
  match ← heap.narrow (.tagged .pair) v with
  | some p => heap.pairAt p
  | none => throw (.refused (.wrongType op (← heap.tag v)))

/-- A value that has to be a list. -/
def asList (heap : Heap) (op : String) (v : Handle) : Except Failure Handle := do
  match ← heap.tag v with
  | none => return v
  | some .pair => return v
  | found => throw (.refused (.wrongType op found))

/-- The head of a pair. -/
def car (heap : Heap) (v : Handle) : Except Failure Handle := do
  return (← heap.asPair "car" v).head

/-- The rest of a pair. -/
def cdr (heap : Heap) (v : Handle) : Except Failure Handle := do
  return (← heap.asPair "cdr" v).rest

/-- What one link leads to. -/
def step (heap : Heap) : Link → Handle → Except Failure Handle
  | .a => heap.car
  | .d => heap.cdr

/-- Follows a path of links from its last letter to its first, as in `cadr`. -/
def follow (heap : Heap) : List Link → Handle → Except Failure Handle
  | [], v => return v
  | link :: path, v => do heap.step link (← follow heap path v)

/-- The number of elements of a list. -/
def length (heap : Heap) (v : Handle) : Except Failure Nat := do
  heap.listLength (← heap.asList "length" v)

/-- Equality of atoms: the empty list, integers by value and symbols by name. Strings and pairs
equal nothing, not even themselves. Both values are always looked up. -/
def eq (heap : Heap) (x y : Handle) : Except Fault Bool := do
  let x ← heap.view x
  let y ← heap.view y
  match x, y with
  | none, none => return true
  | some (.int i), some (.int j) => return i == j
  | some (.sym i), some (.sym j) => return i == j
  | _, _ => return false

/-- The first entry from a place on that is a pair whose head equals the key, or the empty list. No
entry behind it is looked at. -/
def search (heap : Heap) (key : Handle) : Nat → Cursor → Except Fault Handle
  | 0, c => if c.atEnd then return .nil else throw (.endless c.rest)
  | budget + 1, c => do
    match ← c.next heap with
    | (none, _) => return .nil
    | (some entry, after) =>
      match ← heap.narrow (.tagged .pair) entry with
      | some p =>
        if ← heap.eq key (← heap.pairAt p).head then return entry
        else search heap key budget after
      | none => search heap key budget after

/-- The entry of an association list that has the key, or the empty list. -/
def assoc (heap : Heap) (key alist : Handle) : Except Failure Handle := do
  let l ← heap.asList "assoc" alist
  heap.search key heap.size (.ofList l)

end Heap

namespace Op

/-- A pair of a head and a tail that is a list, or an integer in a list of its own. -/
def consWithin (limit : Option Nat) (head tail : Handle) : Op Handle := do
  match ← look (·.tag tail) with
  | none => newPairWithin limit head tail
  | some .pair => newPairWithin limit head tail
  | some .int => do newPairWithin limit head (← newPairWithin limit tail .nil)
  | found => throw (.refused (.wrongType "cons" found))

/-- A pair of a head and a tail. -/
def cons (head tail : Handle) : Op Handle := consWithin none head tail

/-- The elements of the first list in front of the second, which is shared. -/
def appendWithin (limit : Option Nat) (front back : Handle) : Op Handle := do
  let front ← ask (·.asList "append" front)
  let back ← ask (·.asList "append" back)
  let elems ← look (·.elements front)
  listOntoWithin limit elems back

/-- The elements of the first list in front of the second. -/
def append (front back : Handle) : Op Handle := appendWithin none front back

end Op

end LispHeap
