import LispHeap.Script.Answer

/-!
# Carrying out a step

The machine holds the heaps, the registers filled so far, the log of the step at hand and the
place that tasks print to. A step runs until it has an answer, until a task stops, or until a part
of it turns out to be malformed. In each case the heaps keep what was done. The limit of boxes is
the same for all heaps.
-/

namespace LispHeap.Script

/-- What a script works on. -/
structure Machine where
  heaps : Array Heap
  registers : Array Handle := #[]
  log : Array Record := #[]
  out : Sink := {}
  /-- Whether scripts may call `print`. -/
  mayPrint : Bool := false

namespace Machine

/-- A task on one of the heaps. -/
def task? (m : Machine) (k : Nat) : Option Task :=
  m.heaps[k]?.map fun heap => { heap := heap, log := m.log, out := m.out }

/-- The machine while a task runs on one of the heaps. What the task has is here no more, so that
the task alone holds it and a heap grows where it stands instead of being copied. -/
def suspend (m : Machine) (k : Nat) : Machine :=
  { m with heaps := m.heaps.setIfInBounds k {}, log := #[], out := {} }

/-- Takes over what a task on one of the heaps has done. -/
def resume (m : Machine) (k : Nat) (task : Task) : Machine :=
  { m with heaps := m.heaps.setIfInBounds k task.heap, log := task.log, out := task.out }

end Machine

/-- Why a step has no answer. -/
inductive Interrupt where
  | malformed
  | stop (s : Stop)

/-- A part of a step. -/
abbrev Run := EStateM Interrupt Machine

namespace Run

/-- The heap of a number that the script has to know. -/
def heap (k : Nat) : Run Heap := fun m =>
  match m.heaps[k]? with
  | some heap => .ok heap m
  | none => .error .malformed m

/-- Runs an entry point as part of a task on one of the heaps. -/
def enter {α : Type} (k : Nat) (entry : Entry α) : Run α := fun m =>
  match m.task? k with
  | none => .error .malformed m
  | some task =>
    let m := m.suspend k
    match entry task with
    | .ok a task => .ok a (m.resume k task)
    | .error s task => .error (.stop s) (m.resume k task)

/-- An operation whose refusal is an answer. -/
def answering {α : Type} (operation : Op α) : Entry (Except Error α) := fun task =>
  match operation task with
  | .ok a task => .ok (.ok a) task
  | .error (.refused e) task => .ok (.error e) task
  | .error (.fault f) task => .error (.fault f) task

/-- Runs an operation whose refusal is an answer. -/
def attempt {α : Type} (k : Nat) (operation : Op α) : Run (Except Error α) :=
  enter k (answering operation)

/-- Runs an operation whose refusal stops the task. -/
def op {α : Type} (k : Nat) (operation : Op α) : Run α := enter k (.ofOp operation)

/-- Takes an answer of a heap, where a fault stops the task. -/
def await {α : Type} (answer : Except Fault α) : Run α := fun m =>
  match answer with
  | .ok a => .ok a m
  | .error f => .error (.stop (.fault f)) m

/-- The handle in a register that has to be filled. -/
def register (k : Nat) : Run Handle := fun m =>
  match m.registers[k]? with
  | some h => .ok h m
  | none => .error .malformed m

mutual

/-- Builds an operand on a heap, parts first and from left to right. -/
def operand (limit : Option Nat) (k : Nat) : Operand → Run Handle
  | .nil => return .nil
  | .int value => op k (.newAtomWithin limit (.int value))
  | .str text => op k (.newAtomWithin limit (.str text))
  | .sym name => op k (.newAtomWithin limit (.sym name))
  | .truth => return .t
  | .register r => register r
  | .list items => do op k (.newListWithin limit (← operands limit k items))
  | .malformed => throw .malformed

/-- Builds several operands, the first one first. -/
def operands (limit : Option Nat) (k : Nat) : List Operand → Run (List Handle)
  | [] => return []
  | x :: xs => do
    let h ← operand limit k x
    return h :: (← operands limit k xs)

end

/-! ## Looking at values -/

/-- What is to be seen of a handle on a heap. -/
def sight (heap : Heap) (quiet : Bool) (h : Handle) : Sight :=
  match heap.tag h with
  | .error f => ⟨none, none, some f⟩
  | .ok kind =>
    if quiet then ⟨some kind, none, none⟩
    else
      match heap.write h {} with
      | .ok _ sink => ⟨some kind, sink.text?, none⟩
      | .error (.fault f) _ => ⟨some kind, none, some f⟩
      | .error _ _ => ⟨some kind, none, none⟩

/-- What the heap tells about a handle. -/
def subject (heap : Heap) (h : Handle) : Except Fault Subject := do
  match ← heap.view h with
  | none => return .nil
  | some (.int value) => return .int value
  | some (.pair node) => return .pair node.length
  | some (.sym id) => return .sym (← heap.symbolName id)
  | some (.str text) => return .str text

/-- Reads a typed handle. -/
def contents (heap : Heap) (pointee : Pointee) (h : Handle) : Except Fault Contents := do
  match pointee with
  | .box .int => return .int (← heap.intAt h)
  | .box .pair => return .pair (← heap.pairAt h)
  | .box .sym => do
    let id ← heap.symAt h
    return .sym (← heap.symbolName id) id
  | .box .str => return .str (← heap.strAt h)
  | .list => if h.isNil then return .emptyList else return .fullList (← heap.listLength h)

/-- Equality of the contents of two boxes of one kind that has it. -/
def sameContents : Option Cell → Option Cell → Option Bool
  | some (.int i), some (.int j) => some (i == j)
  | some (.sym i), some (.sym j) => some (i == j)
  | some (.str s), some (.str t) => some (s == t)
  | _, _ => none

/-- The calls that a walk of a list makes: one for each element, and then one that finds the end,
or two from a list handle. -/
def walk (heap : Heap) (fromNode : Bool) (h : Handle) : Except Fault (List Cursor.Visit) := do
  let cursor ← if fromNode then Cursor.ofPair <$> heap.pairAt h else pure (Cursor.ofList h)
  let count ← cursor.remaining heap
  cursor.visits heap (if fromNode then count + 1 else count + 2)

/-! ## Actions -/

/-- The call that a name and arguments stand for. A wrong count is found before any argument is
built, a primitive out of place after. -/
def call (limit : Option Nat) (k : Nat) (name : String) (args : List Operand) : Run Call := do
  match Primitive.ofName? name with
  | none => throw .malformed
  | some p =>
    if !p.takes args.length then throw .malformed
    match Call.make? p (← operands limit k args) with
    | some call => return call
    | none => throw .malformed

/-- A step's answer, on heaps with a limit. -/
def actWithin (limit : Option Nat) (step : Step) : Run Answer := do
  let _ ← heap step.on
  let _ ← heap step.source
  match step.action with
  | .value v => yieldAt (← operand limit step.on v)
  | .call name args =>
    match ← call limit step.on name args with
    | .print v => do
      if !(← get).mayPrint then throw .malformed
      yieldAt (← enter step.on ((Call.print v).enterWithin limit))
    | call => yieldAt (← enter step.on (call.enterWithin limit))
  | .core name args =>
    match (← call limit step.on name args).runWithin? limit with
    | none => throw .malformed
    | some operation =>
      match ← attempt step.on operation with
      | .ok (.handle h) => yieldAt h
      | .ok (.truth b) => return .truth b
      | .ok (.number n) => return .number n
      | .error e => return .refused e
  | .pair head rest => do
    let head ← operand limit step.on head
    let rest ← operand limit step.on rest
    match ← await ((← heap step.source).narrow .list rest) with
    | none => return .absent
    | some rest => yieldAt (← op step.on (.newPairWithin limit head rest))
  | .tail elems tail => do
    let elems ← operands limit step.on elems
    let tail ← operand limit step.on tail
    match ← await ((← heap step.source).narrow .list tail) with
    | none => return .absent
    | some tail => yieldAt (← op step.on (.listOntoWithin limit elems tail))
  | .nest v n => do
    let v ← operand limit step.on v
    yieldAt (← op step.on (.nestWithin limit n v))
  | .range start n => do
    let elems ← op step.on (.newIntsWithin limit n start)
    yieldAt (← op step.on (.newListWithin limit elems))
  | .ofBool b => yieldAt (.ofBool b)
  | .info v => do
    let h ← operand limit step.on v
    return .info h (← await (subject (← heap step.on) h))
  | .narrow type v => do
    let h ← operand limit step.on v
    return .narrowed (← await ((← heap step.on).narrow type h))
  | .get pointee v => do
    let h ← operand limit step.on v
    match ← await ((← heap step.source).narrow pointee.type h) with
    | none => return .absent
    | some h => return .contents (← await (contents (← heap step.on) pointee h))
  | .symbolName v => do
    let h ← operand limit step.on v
    match ← await ((← heap step.source).view h) with
    | some (.sym id) => return .name (← await ((← heap step.on).symbolName id))
    | _ => return .absent
  | .sameValue x y => do
    let x ← operand limit step.on x
    let y ← operand limit step.source y
    let x ← await ((← heap step.on).view x)
    let y ← await ((← heap step.source).view y)
    match sameContents x y with
    | some b => return .truth b
    | none => return .absent
  | .handles args => return .handles (← operands limit step.on args)
  | .walk fromNode v => do
    let h ← operand limit step.on v
    let heap ← heap step.on
    match ← await (heap.narrow (if fromNode then .tagged .pair else .list) h) with
    | none => return .absent
    | some h => return .walked fromNode (← await (walk heap fromNode h))
  | .write newline room v => do
    let h ← operand limit step.on v
    let heap ← heap step.on
    match (if newline then heap.print h else heap.write h) { room := .bounded room } with
    | .ok _ sink => return .written sink.bytes none
    | .error (.fault f) _ => throw (.stop (.fault f))
    | .error stop sink => return .written sink.bytes (some stop)
  | .intern name => return .interned (← op step.on (.intern name)) name
  | .place atom => do
    let c ← op step.source (.construct atom)
    yieldAt (← op step.on (.placeWithin limit c))
  | .survey => do
    let heap ← heap step.on
    let id ← await (heap.symAt .t)
    return .survey (← await (heap.symbolName id)) id
  | .accept v => yieldAt (← operand limit step.on v)
  | .fail message => enter step.on (.fail message)
  | .throw payload => throw (.stop (.thrown payload))
  | .malformed => throw .malformed
where
  /-- Answers with a handle as it is seen now. -/
  yieldAt (h : Handle) : Run Answer := do
    return .yielded h (sight (← heap step.on) step.quiet h)

/-- A step's answer. -/
def act (step : Step) : Run Answer := actWithin none step

end Run

namespace Machine

/-- The state of a heap next to an answer. -/
def report (m : Machine) (k : Nat) (answer : Answer) : Report where
  answer := answer
  boxes := (m.heaps[k]?.map Heap.size).getD 0
  symbols := (m.heaps[k]?.map (·.symbols.size)).getD 0
  log := m.log.toList

/-- Carries out a step and fills its register. A malformed step reports on the first heap. -/
def performWithin (limit : Option Nat) (m : Machine) (step : Step) : Report × Machine :=
  let (report, m) :=
    match Run.actWithin limit step { m with log := #[] } with
    | .ok answer m => (m.report step.on answer, m)
    | .error (.stop s) m => (m.report step.on (.stopped s), m)
    | .error .malformed m => (m.report 0 .malformed, m)
  (report, { m with registers := m.registers.push report.answer.register })

/-- Carries out a step on heaps without a limit. -/
def perform (m : Machine) (step : Step) : Report × Machine := m.performWithin none step

end Machine

end LispHeap.Script
