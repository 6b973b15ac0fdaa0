import LispHeap.Script.Step

/-!
# Answers of steps

Each kind of step answers in its own way. A step that yields a handle also tells what is to be
seen of it; if a look at the value faults, the fault is part of the answer and the handle is
yielded all the same.
-/

namespace LispHeap.Script

/-- What is to be seen of a yielded handle. `kind` is missing if it could not be read, `text` if
it could not be written or was not wanted. -/
structure Sight where
  kind : Option (Option Tag)
  text : Option String
  fault : Option Fault

/-- What the heap tells about a value. -/
inductive Subject where
  | nil
  | int (value : Int32)
  | pair (length : Nat)
  | sym (name : String)
  | str (text : String)

/-- The kind of the value. -/
def Subject.tag? : Subject → Option Tag
  | .nil => none
  | .int _ => some .int
  | .pair _ => some .pair
  | .sym _ => some .sym
  | .str _ => some .str

/-- What is read through a typed handle. -/
inductive Contents where
  | int (value : Int32)
  | sym (name : String) (id : SymbolId)
  | str (text : String)
  | pair (node : Pair)
  | emptyList
  | fullList (length : Nat)

/-- The cell that was read, unless it was read as a list. -/
def Contents.cell? : Contents → Option Cell
  | .int value => some (.int value)
  | .sym _ id => some (.sym id)
  | .str text => some (.str text)
  | .pair node => some (.pair node)
  | .emptyList | .fullList _ => none

/-- What comes of a step. -/
inductive Answer where
  | yielded (h : Handle) (sight : Sight)
  | truth (b : Bool)
  | number (n : Int)
  | refused (e : Error)
  /-- The value is not of the kind asked for. -/
  | absent
  | info (h : Handle) (subject : Subject)
  | narrowed (h : Option Handle)
  | contents (c : Contents)
  | name (text : String)
  | handles (hs : List Handle)
  | walked (fromNode : Bool) (visits : List Cursor.Visit)
  | written (bytes : ByteArray) (stop : Option WriteStop)
  | interned (id : SymbolId) (name : String)
  | survey (name : String) (id : SymbolId)
  | stopped (stop : Stop)
  | malformed

/-- The handle that goes into the step's register. -/
def Answer.register : Answer → Handle
  | .yielded h _ => h
  | _ => .nil

/-- An answer with the state of the heap after the step and the log of the step. -/
structure Report where
  answer : Answer
  boxes : Nat
  symbols : Nat
  log : List Record

/-! ## A run of arguments -/

/-- The debug text of a run of handles. -/
def debugHandles (hs : List Handle) : String :=
  "[" ++ ", ".intercalate (hs.map Handle.debug) ++ "]"

/-- How many different handles there are. -/
def distinctHandles (hs : List Handle) : Nat := hs.eraseDups.length

end LispHeap.Script
