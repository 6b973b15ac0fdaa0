import LispHeap.SymbolTable

/-!
# Scripts for a symbol table

A short script on a new table: names are interned, and what came of it is asked for by the number
of the interning, counted from zero.
-/

namespace LispHeap.Script.Naming

/-- What a script may ask of a table. -/
inductive Step where
  | intern (name : String)
  /-- The name of the `k`-th interned symbol. -/
  | nameOf (k : Nat)
  /-- Whether two interned symbols are the same. -/
  | same (i j : Nat)

/-- What comes of a step. -/
inductive Answer where
  /-- The symbol, and the number of the first earlier one equal to it. -/
  | interned (id : SymbolId) (earlier : Option Nat)
  | name (text : String)
  | same (b : Bool)

/-- An answer with the size of the table after the step. -/
structure Report where
  answer : Answer
  size : Nat

/-- A table under way. -/
structure State where
  table : SymbolTable := {}
  /-- What each interning gave, in order. -/
  ids : Array SymbolId := #[]

/-- Carries out a step. -/
def act (s : State) : Step → Option (Answer × State)
  | .intern name =>
    let (id, table) := s.table.intern name
    some (.interned id (s.ids.idxOf? id), ⟨table, s.ids.push id⟩)
  | .nameOf k => do
    let name ← s.table.name? (← s.ids[k]?)
    return (.name name, s)
  | .same i j => do
    let x ← s.ids[i]?
    let y ← s.ids[j]?
    return (.same (x == y), s)

/-- Carries out the steps of a script, with some done. -/
def runFrom (s : State) : List Step → Option (List Report)
  | [] => some []
  | step :: steps => do
    let (answer, s) ← act s step
    return ⟨answer, s.table.size⟩ :: (← runFrom s steps)

/-- The answers of a script, unless it asks for a symbol that it has not interned. -/
def run (steps : List Step) : Option (List Report) := runFrom {} steps

end LispHeap.Script.Naming
