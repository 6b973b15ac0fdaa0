import LispHeap.Abi
import LispHeap.Primitive.Basic

/-!
# The export table

The descriptor of each primitive's entry point, in the order of export. The predicates that never
look at the heap do without the task.
-/

namespace LispHeap

namespace Primitive

/-- The Lisp type of the primitive, as written in the language. -/
def lispType : Primitive → String
  | .cons => "(Any Any -> Pair)"
  | .access .cdr => "(Any -> List)"
  | .access _ => "(Any -> Any)"
  | .list => "(Any ... -> List)"
  | .length => "(Any -> Int)"
  | .append => "(Any Any -> List)"
  | .mul | .sub => "(Any Any -> Int)"
  | .assoc | .eq | .and | .or | .gt => "(Any Any -> Any)"
  | .null | .atom | .numberp | .not | .assert => "(Any -> Any)"
  | .print => "(Any ->! ())"

/-- Whether the entry point is given the task that it runs in. -/
def takesTask : Primitive → Bool
  | .null | .not | .and | .or => false
  | _ => true

/-- The types of the parameters: any values, or all of them as one list. -/
def params (p : Primitive) : List ArgType :=
  match p.arity? with
  | some n => List.replicate n (.boxed .any)
  | none => [.argList]

/-- The type of the result. -/
def result : Primitive → ResultType
  | .cons => .inhabited (.boxed (.tagged .pair))
  | .access .cdr | .list | .append => .inhabited (.boxed .list)
  | .length | .mul | .sub => .inhabited (.boxed (.tagged .int))
  | .print => .void
  | _ => .inhabited (.boxed .any)

/-- The function behind the entry point: the primitive's name in lower case. -/
def function : Primitive → String
  | .gt => "stdlib_gt"
  | .mul => "stdlib_mul"
  | .sub => "stdlib_sub"
  | p => "stdlib_" ++ p.name

/-- All that compiled code is told of a primitive. -/
def descriptor (p : Primitive) : Descriptor where
  lispType := p.lispType
  takesTask := p.takesTask
  params := p.params
  result := p.result
  symbol := Descriptor.symbolOf p.function

end Primitive

/-- Every exported name with its descriptor. -/
def exports : List (String × Descriptor) :=
  Primitive.all.map fun p => (p.name, p.descriptor)

end LispHeap
