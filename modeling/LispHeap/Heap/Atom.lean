import LispHeap.Heap.Basic
import LispHeap.Text.Quoted

/-!
# Atoms

An atom is the contents of a box that is not a pair, given by value. Only a symbol needs a table
of names to become a cell, and it carries the number that this table gave it wherever it goes.
-/

namespace LispHeap

/-- The contents of a box that is no pair, with a symbol given by its name. -/
inductive Atom where
  | int (value : Int32)
  | sym (name : String)
  | str (text : String)
  deriving DecidableEq

/-- The cell of an atom, and the table with its name in it. -/
def Atom.cell (table : SymbolTable) : Atom → Cell × SymbolTable
  | .int value => (.int value, table)
  | .sym name =>
    let (id, table) := table.intern name
    (.sym id, table)
  | .str text => (.str text, table)

/-- The debug text of an integer, a symbol or a string; a pair has none. -/
def Cell.debug? : Cell → Option String
  | .int value => some ("Int(" ++ value.toInt.repr ++ ")")
  | .sym id => some ("Sym(" ++ id.debug ++ ")")
  | .str text => some ("Str(" ++ Text.quoted text ++ ")")
  | .pair _ => none

/-- The debug text of a cell read as a kind, if it is of that kind. -/
def Cell.debugAs? (tag : Tag) (c : Cell) : Option String :=
  if c.tag = tag then c.debug? else none

end LispHeap
