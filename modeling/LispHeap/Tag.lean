/-!
# Kinds of box

A box holds an integer, a pair, a symbol or a string, and its tag says which. The empty list is
no box and has no tag, so wherever a value may be the empty list its tag is an `Option Tag`. The
numeric codes are shared with compiled code and never change.
-/

namespace LispHeap

/-- The kind of a box. -/
inductive Tag where
  | int
  | pair
  | sym
  | str
  deriving DecidableEq, Inhabited

namespace Tag

/-- The kinds in the order of their codes. -/
def all : List Tag := [.int, .pair, .sym, .str]

/-- The name of a kind. -/
def name : Tag → String
  | .int => "Int"
  | .pair => "Pair"
  | .sym => "Sym"
  | .str => "Str"

/-- The kind of a name. -/
def ofName? (s : String) : Option Tag := all.find? (·.name == s)

/-- The number that compiled code knows the tag by. -/
def code : Tag → Nat
  | .int => 0
  | .pair => 1
  | .sym => 2
  | .str => 3

/-- How an error message speaks of a value's kind; the empty list is `()`. -/
def describe : Option Tag → String
  | some t => t.name ++ " (tag " ++ t.code.repr ++ ")"
  | none => "()"

/-- How the debug text of an error shows a value's kind. -/
def debug : Option Tag → String
  | some t => "Some(" ++ t.name ++ ")"
  | none => "None"

end Tag

end LispHeap
