import LispHeap.Abi
import LispHeap.Signature.Token

/-!
# Function signatures

An entry point is declared by a Lisp type and the signature of the function behind it, as in
`fn car(task: &mut Task, value: Gc<Any>) -> Gc<Any>`. The descriptor follows from the two. A type
counts by the last name of its path and by its arguments. A first parameter that is a reference
and called `task` is the task itself: it is passed along and is not one of the parameters.

Readers take tokens and give back the tokens they left. Each one that calls another spends a unit
of budget, and no text needs more of them than it has tokens, plus one.
-/

namespace LispHeap

namespace Signature

/-- A type as written. Lifetimes are kept only as arguments. -/
inductive TypeExpr where
  | unit
  | reference (target : TypeExpr)
  | lifetime
  | named (name : String) (args : List TypeExpr)

mutual

/-- A type, and the tokens behind it. -/
def readType : Nat → List Token → Option (TypeExpr × List Token)
  | 0, _ => none
  | budget + 1, .mark '&' :: .word w :: ts => do
    let ts := if Token.isLifetime w then ts else .word w :: ts
    let ts := if ts.head? == some (.word "mut") then ts.tail else ts
    let (target, ts) ← readType budget ts
    return (.reference target, ts)
  | budget + 1, .mark '&' :: ts => do
    let (target, ts) ← readType budget ts
    return (.reference target, ts)
  | _ + 1, .mark '(' :: .mark ')' :: ts => some (.unit, ts)
  | budget + 1, .mark '(' :: ts => do
    match ← readType budget ts with
    | (type, .mark ')' :: ts) => return (type, ts)
    | _ => none
  | budget + 1, .word w :: ts =>
    if Token.isLifetime w then some (.lifetime, ts) else readPath budget w ts
  | _ + 1, _ => none

/-- A path whose last name so far has been read. -/
def readPath : Nat → String → List Token → Option (TypeExpr × List Token)
  | 0, _, _ => none
  | budget + 1, _, .mark ':' :: .mark ':' :: .word w :: ts => readPath budget w ts
  | budget + 1, name, .mark '<' :: ts => do
    let (args, ts) ← readArgs budget ts
    return (.named name args, ts)
  | _ + 1, name, ts => some (.named name [], ts)

/-- The rest of an argument list, up to its closing bracket. -/
def readArgs : Nat → List Token → Option (List TypeExpr × List Token)
  | 0, _ => none
  | budget + 1, ts => do
    match ← readType budget ts with
    | (type, .mark '>' :: ts) => return ([type], ts)
    | (type, .mark ',' :: ts) => do
      let (types, ts) ← readArgs budget ts
      return (type :: types, ts)
    | _ => none

end

/-- A named parameter. -/
structure Param where
  name : String
  type : TypeExpr

/-- A parameter, and the tokens behind it. -/
def readParam (ts : List Token) : Option (Param × List Token) :=
  let ts := if ts.head? == some (.word "mut") then ts.tail else ts
  match ts with
  | .word name :: .mark ':' :: ts => do
    let (type, ts) ← readType (ts.length + 1) ts
    return (⟨name, type⟩, ts)
  | _ => none

/-- The rest of a parameter list, up to its closing bracket. -/
def readParams : Nat → List Token → Option (List Param × List Token)
  | _, .mark ')' :: ts => some ([], ts)
  | 0, _ => none
  | budget + 1, ts => do
    match ← readParam ts with
    | (param, .mark ')' :: ts) => return ([param], ts)
    | (param, .mark ',' :: ts) => do
      let (params, ts) ← readParams budget ts
      return (param :: params, ts)
    | _ => none

/-- The type of the result; none written is the unit type. -/
def readResult : List Token → Option TypeExpr
  | [] => some .unit
  | .mark '-' :: .mark '>' :: ts =>
    match readType (ts.length + 1) ts with
    | some (type, []) => some type
    | _ => none
  | _ => none

end Signature

/-- The head of a function: its name, its parameters and the type of its result. -/
structure Signature where
  name : String
  params : List Signature.Param
  result : Signature.TypeExpr

namespace Signature

/-- The signature that a text stands for. -/
def parse? (text : String) : Option Signature :=
  match Token.scan text with
  | .word "fn" :: .word name :: .mark '(' :: ts => do
    let (params, ts) ← readParams ts.length ts
    let result ← readResult ts
    return ⟨name, params, result⟩
  | _ => none

namespace TypeExpr

/-- The type as that of a parameter. -/
def argType? : TypeExpr → Option ArgType
  | .named "i32" [] => some .int
  | .named "bool" [] => some .bool
  | .named "ArgList" [] | .named "ArgList" [.lifetime] => some .argList
  | .named "Gc" [.named name []] => (BoxType.ofName? name).map .boxed
  | _ => none

/-- The type as that of a result. -/
def resultType? : TypeExpr → Option ResultType
  | .unit => some .void
  | .named "Never" [] => some .never
  | type => type.argType?.map .inhabited

end TypeExpr

/-- The task, passed as a first parameter. -/
def Param.isTask (param : Param) : Bool :=
  match param.type with
  | .reference _ => param.name == "task"
  | _ => false

/-- Whether the task is passed, and the parameters without it. -/
def splitTask (s : Signature) : Bool × List Param :=
  match s.params with
  | param :: params => if param.isTask then (true, params) else (false, s.params)
  | [] => (false, [])

end Signature

namespace Descriptor

/-- The descriptor of a declared entry point, unless a type has no place at the boundary. -/
def ofSignature? (lispType : String) (s : Signature) : Option Descriptor := do
  let (takesTask, params) := s.splitTask
  let params ← params.mapM fun param => param.type.argType?
  let result ← s.result.resultType?
  return ⟨lispType, takesTask, params, result, symbolOf s.name⟩

/-- The same from the signature as it is written. -/
def ofDeclaration? (lispType signature : String) : Option Descriptor := do
  ofSignature? lispType (← Signature.parse? signature)

end Descriptor

end LispHeap
