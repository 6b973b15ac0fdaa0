import LispHeap.Heap.Basic
import LispHeap.Text.Quoted

/-!
# Errors of primitives

A primitive that is given values it does not accept answers with an error: a value that names the
operation and the kinds it found. An error is an answer like any other and leaves the task
running. A fault is not: it says that a handle was not what it was taken for.
-/

namespace LispHeap

/-- Why a primitive refuses its arguments; `none` stands for the empty list. -/
inductive Error where
  | wrongType (op : String) (found : Option Tag)
  | unexpectedTypes (op : String) (lhs rhs : Option Tag)
  | assertionFailed
  deriving DecidableEq

namespace Error

/-- The name of the constructor. -/
def kind : Error → String
  | .wrongType .. => "WrongType"
  | .unexpectedTypes .. => "UnexpectedTypes"
  | .assertionFailed => "AssertionFailed"

/-- The text that a user sees. -/
def message : Error → String
  | .wrongType op found => "Wrong type for " ++ op ++ ": " ++ Tag.describe found
  | .unexpectedTypes op lhs rhs =>
    op ++ ": Unexpected types (" ++ Tag.describe lhs ++ ", " ++ Tag.describe rhs ++ ")"
  | .assertionFailed => "Assertion failed"

/-- The error as a record, fields in order of declaration. -/
def debug : Error → String
  | .wrongType op found =>
    "WrongType \x7b op: " ++ Text.quoted op ++ ", found: " ++ Tag.debug found ++ " \x7d"
  | .unexpectedTypes op lhs rhs =>
    "UnexpectedTypes \x7b op: " ++ Text.quoted op ++ ", lhs: " ++ Tag.debug lhs
      ++ ", rhs: " ++ Tag.debug rhs ++ " \x7d"
  | .assertionFailed => "AssertionFailed"

/-- For each error of a list, the position of the first one equal to it. -/
def firstOccurrences (errors : List Error) : List Nat :=
  errors.map fun e => errors.idxOf e

end Error

/-- Why an operation on a heap gives no value. -/
inductive Failure where
  | refused (e : Error)
  | fault (f : Fault)
  deriving DecidableEq

instance : MonadLift (Except Fault) (Except Failure) where
  monadLift x := x.mapError .fault

end LispHeap
