import LispHeap.Task

/-!
# S-expressions

The value behind a handle, without the heap: an atom, or a list of values. The empty list is the
list without members. Building an expression places its parts from left to right and each list
after its members; decoding reads it back through the same questions that every other reader asks.

`text` is what the printer is meant to write. It is defined on expressions alone, so it knows
neither handles nor sinks nor the order in which a heap is searched.
-/

namespace LispHeap

/-- A value without a heap. -/
inductive SExpr where
  | int (value : Int32)
  | sym (name : String)
  | str (text : String)
  | list (items : List SExpr)
  deriving Inhabited

namespace SExpr

/-- The empty list. -/
def nil : SExpr := .list []

mutual

/-- The printed form. -/
def text : SExpr → String
  | .int value => value.toInt.repr
  | .sym name => name
  | .str s => "\"" ++ s ++ "\""
  | .list items => "(" ++ spaced items ++ ")"

/-- The printed forms with one space between neighbours. -/
def spaced : List SExpr → String
  | [] => ""
  | [x] => x.text
  | x :: xs => x.text ++ " " ++ spaced xs

end

mutual

/-- How many boxes it takes: one for each atom and one for each member of a list. -/
def boxes : SExpr → Nat
  | .int _ | .sym _ | .str _ => 1
  | .list items => boxesAll items + items.length

/-- How many boxes several expressions take. -/
def boxesAll : List SExpr → Nat
  | [] => 0
  | x :: xs => x.boxes + boxesAll xs

end

mutual

/-- Places an expression on the heap of a task. -/
def build : SExpr → Op Handle
  | .int value => .newInt value
  | .sym name => .newSym name
  | .str s => .newStr s
  | .list items => do .newList (← buildAll items)

/-- Places several expressions, the first one first. -/
def buildAll : List SExpr → Op (List Handle)
  | [] => return []
  | x :: xs => do
    let h ← build x
    return h :: (← buildAll xs)

end

end SExpr

namespace Heap

/-- The expression behind a handle, if it nests no deeper than this. -/
def decodeWithin (heap : Heap) : Nat → Handle → Except Fault SExpr
  | 0, v => throw (.endless v)
  | depth + 1, v => do
    match ← heap.view v with
    | none => return .nil
    | some (.int value) => return .int value
    | some (.sym id) => return .sym (← heap.symbolName id)
    | some (.str text) => return .str text
    | some (.pair _) => return .list (← (← heap.elements v).mapM (heap.decodeWithin depth))

/-- The expression behind a handle. No value that has one nests deeper than the heap has boxes. -/
def decode (heap : Heap) (v : Handle) : Except Fault SExpr :=
  heap.decodeWithin (heap.size + 1) v

end Heap

end LispHeap
