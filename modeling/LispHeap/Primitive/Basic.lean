import LispHeap.Primitive.Lists
import LispHeap.Primitive.Numbers

/-!
# The primitives

Thirty operations are exported to compiled code. A `Primitive` is one of them by name, and a
`Call` is one together with as many arguments as it takes. `Call.enter` is the exported entry
point: it always gives a handle, so truth is `t` or the empty list and a number is a new box.
`Call.run?` is the operation behind it, where there is one of interest on its own: it gives plain
truth values and numbers and reports a refusal as an error. Both are the forms without a limit of
`Call.enterWithin` and `Call.runWithin?`.
-/

namespace LispHeap

/-- The exported accessors; the letters between `c` and `r` are the links they follow. -/
inductive Accessor where
  | car | cdr
  | caar | cadr | cdar | cddr
  | caaar | caadr | cadar | caddr | cdadr | cddar | cdddr
  deriving DecidableEq

namespace Accessor

/-- The links of an accessor in the order of its letters; the last one is followed first. -/
def path : Accessor → List Link
  | .car => [.a]
  | .cdr => [.d]
  | .caar => [.a, .a]
  | .cadr => [.a, .d]
  | .cdar => [.d, .a]
  | .cddr => [.d, .d]
  | .caaar => [.a, .a, .a]
  | .caadr => [.a, .a, .d]
  | .cadar => [.a, .d, .a]
  | .caddr => [.a, .d, .d]
  | .cdadr => [.d, .a, .d]
  | .cddar => [.d, .d, .a]
  | .cdddr => [.d, .d, .d]

/-- The name of an accessor. -/
def name : Accessor → String
  | .car => "car"
  | .cdr => "cdr"
  | .caar => "caar"
  | .cadr => "cadr"
  | .cdar => "cdar"
  | .cddr => "cddr"
  | .caaar => "caaar"
  | .caadr => "caadr"
  | .cadar => "cadar"
  | .caddr => "caddr"
  | .cdadr => "cdadr"
  | .cddar => "cddar"
  | .cdddr => "cdddr"

/-- The accessors in the order in which they are exported. -/
def all : List Accessor :=
  [.car, .cdr, .caar, .cadr, .cdar, .cddr,
    .caaar, .caadr, .cadar, .caddr, .cdadr, .cddar, .cdddr]

end Accessor

/-- The exported primitives. -/
inductive Primitive where
  | cons
  | access (accessor : Accessor)
  | list
  | length
  | null
  | append
  | assoc
  | atom
  | eq
  | numberp
  | not
  | and
  | or
  | assert
  | gt
  | mul
  | sub
  | print
  deriving DecidableEq

namespace Primitive

/-- The primitives in the order in which they are exported. -/
def all : List Primitive :=
  .cons :: Accessor.all.map .access ++
    [.list, .length, .null, .append, .assoc, .atom, .eq, .numberp, .not, .and, .or, .assert,
      .gt, .mul, .sub, .print]

/-- The name by which Lisp code knows the primitive. -/
def name : Primitive → String
  | .cons => "cons"
  | .access accessor => accessor.name
  | .list => "list"
  | .length => "length"
  | .null => "null"
  | .append => "append"
  | .assoc => "assoc"
  | .atom => "atom"
  | .eq => "eq"
  | .numberp => "numberp"
  | .not => "not"
  | .and => "and"
  | .or => "or"
  | .assert => "assert"
  | .gt => "GT"
  | .mul => "MUL"
  | .sub => "SUB"
  | .print => "print"

/-- The primitive of a name. -/
def ofName? (s : String) : Option Primitive := all.find? (·.name == s)

/-- How many arguments the primitive takes; `none` is any number. -/
def arity? : Primitive → Option Nat
  | .list => none
  | .cons | .append | .assoc | .eq | .and | .or | .gt | .mul | .sub => some 2
  | .access _ | .length | .null | .atom | .numberp | .not | .assert | .print => some 1

/-- Whether the primitive takes so many arguments. -/
def takes (p : Primitive) (count : Nat) : Bool :=
  match p.arity? with
  | some n => n == count
  | none => true

end Primitive

/-- A primitive with its arguments. -/
inductive Call where
  | cons (head tail : Handle)
  | access (accessor : Accessor) (v : Handle)
  | list (elems : List Handle)
  | length (v : Handle)
  | null (v : Handle)
  | append (front back : Handle)
  | assoc (key alist : Handle)
  | atom (v : Handle)
  | eq (x y : Handle)
  | numberp (v : Handle)
  | not (v : Handle)
  | and (x y : Handle)
  | or (x y : Handle)
  | assert (v : Handle)
  | gt (x y : Handle)
  | mul (x y : Handle)
  | sub (x y : Handle)
  | print (v : Handle)
  deriving DecidableEq

namespace Call

/-- The call of a primitive with these arguments, if it takes so many. -/
def make? : Primitive → List Handle → Option Call
  | .list, elems => some (.list elems)
  | .cons, [x, y] => some (.cons x y)
  | .append, [x, y] => some (.append x y)
  | .assoc, [x, y] => some (.assoc x y)
  | .eq, [x, y] => some (.eq x y)
  | .and, [x, y] => some (.and x y)
  | .or, [x, y] => some (.or x y)
  | .gt, [x, y] => some (.gt x y)
  | .mul, [x, y] => some (.mul x y)
  | .sub, [x, y] => some (.sub x y)
  | .access accessor, [v] => some (.access accessor v)
  | .length, [v] => some (.length v)
  | .null, [v] => some (.null v)
  | .atom, [v] => some (.atom v)
  | .numberp, [v] => some (.numberp v)
  | .not, [v] => some (.not v)
  | .assert, [v] => some (.assert v)
  | .print, [v] => some (.print v)
  | _, _ => none

/-- The exported entry point, for a heap with a limit. -/
def enterWithin (limit : Option Nat) : Call → Entry Handle
  | .cons head tail => .ofOp (.consWithin limit head tail)
  | .access accessor v => .ofOp (.ask (·.follow accessor.path v))
  | .list elems => .ofOp (.newListWithin limit elems)
  | .length v => do
    let n ← Entry.ofOp (.ask (·.length v))
    if n < 2147483648 then .ofOp (.newIntWithin limit (.ofNat n))
    else Entry.fail ("length: " ++ n.repr ++ " does not fit in an Int")
  | .null v => return .ofBool v.isNil
  | .append front back => .ofOp (.appendWithin limit front back)
  | .assoc key alist => .ofOp (.ask (·.assoc key alist))
  | .atom v => return .ofBool (← Entry.ofOp (.look (·.isAtom v)))
  | .eq x y => return .ofBool (← Entry.ofOp (.look (·.eq x y)))
  | .numberp v => return .ofBool (← Entry.ofOp (.look (·.isA .int v)))
  | .not v => return .ofBool v.isNil
  | .and x y => return .ofBool (!x.isNil && !y.isNil)
  | .or x y => return .ofBool (!x.isNil || !y.isNil)
  | .assert v => do
    Entry.ofOp (.ask fun _ => (checkAssertion v).mapError .refused)
    return .nil
  | .gt x y => return .ofBool (← Entry.ofOp (.ask (·.gt x y)))
  | .mul x y => do
    let product ← Entry.ofOp (.ask (·.mul x y))
    .ofOp (.newIntWithin limit product)
  | .sub x y => do
    let difference ← Entry.ofOp (.ask (·.sub x y))
    .ofOp (.newIntWithin limit difference)
  | .print v => do
    Entry.print v
    return .nil

/-- The exported entry point. -/
def enter (call : Call) : Entry Handle := call.enterWithin none

/-- What an operation gives when it is not wrapped into a handle. -/
inductive Value where
  | handle (h : Handle)
  | truth (b : Bool)
  | number (n : Int)
  deriving DecidableEq

/-- The operation behind the entry point, for the primitives that have one and a heap with a
limit. -/
def runWithin? (limit : Option Nat) : Call → Option (Op Value)
  | .cons head tail => some (.handle <$> Op.consWithin limit head tail)
  | .access accessor v => some (.handle <$> Op.ask (·.follow accessor.path v))
  | .list elems => some (.handle <$> Op.newListWithin limit elems)
  | .length v => some ((fun n => .number n) <$> Op.ask (·.length v))
  | .null v => some (return .truth v.isNil)
  | .append front back => some (.handle <$> Op.appendWithin limit front back)
  | .assoc key alist => some (.handle <$> Op.ask (·.assoc key alist))
  | .atom v => some (.truth <$> Op.look (·.isAtom v))
  | .eq x y => some (.truth <$> Op.look (·.eq x y))
  | .assert v =>
    some ((fun _ => .truth true) <$> Op.ask fun _ => (checkAssertion v).mapError .refused)
  | .gt x y => some (.truth <$> Op.ask (·.gt x y))
  | .mul x y => some ((fun n => .number n.toInt) <$> Op.ask (·.mul x y))
  | .sub x y => some ((fun n => .number n.toInt) <$> Op.ask (·.sub x y))
  | .numberp _ | .not _ | .and .. | .or .. | .print _ => none

/-- The operation behind the entry point, for the primitives that have one. -/
def run? (call : Call) : Option (Op Value) := call.runWithin? none

end Call

end LispHeap
