import LispHeap.Heap.BoxType
import LispHeap.Text.Quoted

/-!
# Types at the boundary with compiled code

A parameter is an unboxed truth value or integer, a boxed value of some type, or a run of boxed
arguments of any length. A result may besides be nothing at all, or never come. A descriptor
gathers what compiled code has to know to call an entry point: its Lisp type as a text, whether
the task is passed along, the types of parameters and result, and the linker symbol.
-/

namespace LispHeap

/-- The type of a parameter. -/
inductive ArgType where
  | bool
  | int
  | boxed (type : BoxType)
  | argList
  deriving DecidableEq

/-- The type of a result. -/
inductive ResultType where
  | void
  | never
  | inhabited (type : ArgType)
  deriving DecidableEq

/-- The type as compiled code names it. -/
def BoxType.debug : BoxType → String
  | .any => "Any"
  | .tagged tag => "UniqueTagged(" ++ tag.name ++ ")"
  | .list => "List"

/-- The type of a parameter as compiled code names it. -/
def ArgType.debug : ArgType → String
  | .bool => "Bool"
  | .int => "Int"
  | .boxed type => "Boxed(" ++ type.debug ++ ")"
  | .argList => "ArgList"

namespace ResultType

/-- The type of a result as compiled code names it. -/
def debug : ResultType → String
  | .void => "Void"
  | .never => "Never"
  | .inhabited type => "Inhabited(" ++ type.debug ++ ")"

/-- The same type as a parameter, if a parameter can have it. -/
def argType? : ResultType → Option ArgType
  | .inhabited type => some type
  | _ => none

/-- The type that a short type name stands for; `tag:` names a type by its tag. -/
def ofName? : String → Option ResultType
  | "()" => some .void
  | "Never" => some .never
  | "i32" => some (.inhabited .int)
  | "bool" => some (.inhabited .bool)
  | "ArgList" => some (.inhabited .argList)
  | "Gc<Any>" => some (.inhabited (.boxed .any))
  | "Gc<List>" => some (.inhabited (.boxed .list))
  | "Gc<Int>" | "tag:Int" => some (.inhabited (.boxed (.tagged .int)))
  | "Gc<Pair>" | "tag:Pair" => some (.inhabited (.boxed (.tagged .pair)))
  | "Gc<Sym>" | "tag:Sym" => some (.inhabited (.boxed (.tagged .sym)))
  | "Gc<Str>" | "tag:Str" => some (.inhabited (.boxed (.tagged .str)))
  | _ => none

end ResultType

/-- What compiled code knows of an entry point. -/
structure Descriptor where
  lispType : String
  takesTask : Bool
  params : List ArgType
  result : ResultType
  symbol : String
  deriving DecidableEq

namespace Descriptor

/-- The linker symbol of the entry point of a function. -/
def symbolOf (function : String) : String := "kons_" ++ function ++ "_entry_point"

/-- The descriptor as a record, fields in order of declaration. -/
def debug (d : Descriptor) : String :=
  "RustFun \x7b lisp_type: " ++ Text.quoted d.lispType
    ++ ", takes_task: " ++ (if d.takesTask then "true" else "false")
    ++ ", params: [" ++ ", ".intercalate (d.params.map ArgType.debug)
    ++ "], ret: " ++ d.result.debug
    ++ ", symbol: " ++ Text.quoted d.symbol ++ " \x7d"

end Descriptor

end LispHeap
