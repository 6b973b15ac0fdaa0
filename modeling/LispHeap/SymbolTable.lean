import LispHeap.Text.Hex

/-!
# Symbol names

Symbols are compared by number. The table gives each distinct name the next free number the first
time it is seen and the same number ever after, so two symbols of one table are equal exactly if
their names are. Names are compared character for character, without folding or normalisation.
-/

namespace LispHeap

/-- The number of a symbol name in some table. -/
structure SymbolId where
  index : Nat
  deriving DecidableEq, Inhabited

/-- A backquote and the number in hexadecimal. -/
def SymbolId.debug (id : SymbolId) : String := "`" ++ Text.hex id.index

/-- Distinct names in order of first occurrence; a name's position is its number. -/
structure SymbolTable where
  names : Array String := #[]
  deriving Inhabited

namespace SymbolTable

/-- How many names there are. -/
def size (table : SymbolTable) : Nat := table.names.size

/-- The number of a name that has one. -/
def find? (table : SymbolTable) (name : String) : Option SymbolId :=
  (table.names.toList.idxOf? name).map SymbolId.mk

/-- The name's number, and the table in which it has one. -/
def intern (table : SymbolTable) (name : String) : SymbolId × SymbolTable :=
  match table.find? name with
  | some id => (id, table)
  | none => (⟨table.size⟩, ⟨table.names.push name⟩)

/-- The table in which all these names have numbers, given in this order. -/
def internAll (table : SymbolTable) (names : List String) : SymbolTable :=
  names.foldl (fun t name => (t.intern name).2) table

/-- The name of a number. -/
def name? (table : SymbolTable) (id : SymbolId) : Option String := table.names[id.index]?

end SymbolTable

end LispHeap
