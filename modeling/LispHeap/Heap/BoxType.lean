import LispHeap.Heap.Basic

/-!
# Types of boxed values

A type of values is a set of tags. `any` holds every value, `tagged` one kind of box, and `list`
the pairs together with the empty list. Narrowing checks a handle against a type by its tag; it
looks the handle up, so it faults on one that the heap does not have, whatever the type.
-/

namespace LispHeap

/-- A type of boxed values. -/
inductive BoxType where
  | any
  | tagged (tag : Tag)
  | list
  deriving DecidableEq, Inhabited

namespace BoxType

/-- The type of a name. -/
def ofName? : String → Option BoxType
  | "Any" => some .any
  | "List" => some .list
  | s => (Tag.ofName? s).map .tagged

/-- Membership by tag, where `none` is the empty list. -/
def accepts : BoxType → Option Tag → Bool
  | .any, _ => true
  | .tagged expected, found => found == some expected
  | .list, found => found == none || found == some .pair

end BoxType

/-- The handle itself if its value is of the type. -/
def Heap.narrow (heap : Heap) (type : BoxType) (h : Handle) : Except Fault (Option Handle) := do
  return if type.accepts (← heap.tag h) then some h else none

end LispHeap
