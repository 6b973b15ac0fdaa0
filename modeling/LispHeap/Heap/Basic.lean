import LispHeap.Tag
import LispHeap.SymbolTable

/-!
# The heap

Boxes are placed one after another and never move, change or go away. A handle is the number of a
box, counted from one; zero is the empty list, which is never allocated. Handles are plain
numbers: one may come from another heap, and then it names whatever box has that number here, or
none. So every look at a box can fault, and the only value that is known without a look is the
empty list.

The first box of a heap is the symbol `t`, the canonical true value. A number has 32 bits, so a heap
with `Heap.maxSize` boxes has no number left for another.
-/

namespace LispHeap

/-- The number of a box on some heap, or zero for the empty list. -/
structure Handle where
  index : Nat
  deriving DecidableEq, Inhabited

namespace Handle

/-- The empty list. -/
def nil : Handle := ⟨0⟩

/-- The symbol `t`, the first box of every heap. -/
def t : Handle := ⟨1⟩

/-- Whether it is the empty list. -/
def isNil (h : Handle) : Bool := h.index == 0

/-- Truth as a value: `t`, or the empty list. -/
def ofBool (b : Bool) : Handle := if b then t else nil

/-- The handle as its number. -/
def debug (h : Handle) : String := "Gc(" ++ h.index.repr ++ ")"

end Handle

/-- A list node. `length` counts the elements from this node to the end. -/
structure Pair where
  length : Nat
  head : Handle
  rest : Handle
  deriving DecidableEq, Inhabited

/-- The contents of a box. -/
inductive Cell where
  | int (value : Int32)
  | pair (node : Pair)
  | sym (id : SymbolId)
  | str (text : String)
  deriving DecidableEq

/-- The kind of a box. -/
def Cell.tag : Cell → Tag
  | .int _ => .int
  | .pair _ => .pair
  | .sym _ => .sym
  | .str _ => .str

/-- What can go wrong when a handle is taken at its word, or a box is to be added. -/
inductive Fault where
  /-- The heap has no box of that number. -/
  | unallocated (h : Handle)
  /-- The box is of another kind than the one it was read as. -/
  | mistyped (h : Handle) (expected : Tag)
  /-- The table of `size` names has no such number. -/
  | unknownSymbol (size : Nat) (id : SymbolId)
  /-- Following the value leads back to the value. -/
  | endless (h : Handle)
  /-- The heap has `size` boxes and no number for one more. -/
  | exhausted (size : Nat)
  deriving DecidableEq

/-- The text of a fault. -/
def Fault.message : Fault → String
  | .unallocated h =>
    "internal error: entered unreachable code: box index " ++ h.index.repr
      ++ " is not allocated on this heap"
  | .mistyped h expected =>
    "internal error: entered unreachable code: box at index " ++ h.index.repr
      ++ " is not a " ++ expected.name
  | .unknownSymbol size id =>
    "index out of bounds: the len is " ++ size.repr ++ " but the index is " ++ id.index.repr
  | .endless h => "internal error: box at index " ++ h.index.repr ++ " contains itself"
  | .exhausted size => "heap exhausted after " ++ size.repr ++ " boxes"

/-- Boxes in order of allocation, and the names of the symbols among them. -/
structure Heap where
  cells : Array Cell := #[]
  symbols : SymbolTable := {}
  deriving Inhabited

namespace Heap

/-- How many boxes a heap can have: one for each number of 32 bits but zero. -/
def maxSize : Nat := 4294967295

/-- How many boxes there are. -/
def size (heap : Heap) : Nat := heap.cells.size

/-- The box of a handle. -/
def cell? (heap : Heap) (h : Handle) : Option Cell :=
  match h.index with
  | 0 => none
  | i + 1 => heap.cells[i]?

/-- The box of a handle, which has to have one. -/
def cell (heap : Heap) (h : Handle) : Except Fault Cell :=
  match heap.cell? h with
  | some c => .ok c
  | none => .error (.unallocated h)

/-- The box behind a handle, or `none` for the empty list, which is not looked up. -/
def view (heap : Heap) (h : Handle) : Except Fault (Option Cell) :=
  if h.isNil then .ok none else (heap.cell h).map some

/-- The kind of a value. -/
def tag (heap : Heap) (h : Handle) : Except Fault (Option Tag) :=
  (heap.view h).map (·.map Cell.tag)

/-- The name of a symbol of this heap's table. -/
def symbolName (heap : Heap) (id : SymbolId) : Except Fault String :=
  match heap.symbols.name? id with
  | some name => .ok name
  | none => .error (.unknownSymbol heap.symbols.size id)

/-! ## Reading a box as the kind it is taken to be -/

/-- The box of a handle, read as an integer. -/
def intAt (heap : Heap) (h : Handle) : Except Fault Int32 := do
  match ← heap.cell h with
  | .int value => return value
  | _ => throw (.mistyped h .int)

/-- The box of a handle, read as a pair. -/
def pairAt (heap : Heap) (h : Handle) : Except Fault Pair := do
  match ← heap.cell h with
  | .pair node => return node
  | _ => throw (.mistyped h .pair)

/-- The box of a handle, read as a symbol. -/
def symAt (heap : Heap) (h : Handle) : Except Fault SymbolId := do
  match ← heap.cell h with
  | .sym id => return id
  | _ => throw (.mistyped h .sym)

/-- The box of a handle, read as a string. -/
def strAt (heap : Heap) (h : Handle) : Except Fault String := do
  match ← heap.cell h with
  | .str text => return text
  | _ => throw (.mistyped h .str)

/-! ## Growing -/

/-- Adds a box; its handle is the new size. -/
def push (heap : Heap) (c : Cell) : Heap := { heap with cells := heap.cells.push c }

/-- Gives a name its number. -/
def intern (heap : Heap) (name : String) : SymbolId × Heap :=
  let (id, symbols) := heap.symbols.intern name
  (id, { heap with symbols := symbols })

end Heap

end LispHeap
