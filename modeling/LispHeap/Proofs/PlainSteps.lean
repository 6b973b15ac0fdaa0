import LispHeap.Script.Machine
import LispHeap.Proofs.Building
import LispHeap.Proofs.Effects

/-!
# Steps of a task of its own

A script may do many things, and on many heaps. A plain step does what compiled code does in a task
of its own: it makes values, calls an entry point, or stops the task. Its operands are built on the
spot or were yielded by earlier steps, so every handle that it passes on is the task's own, without
a rule that says so.

Such a step never goes wrong in a way that is not its effect. Of the machine this asks for little
(`Machine.Ready`): the first heap is sound, it has the values in the registers, and the task prints
to a sink without limit. The parts of a step keep this, so what is said of a step is put together
from its parts: `Returns` is for those that have no other end, and `Follows` for those that an
effect belongs to. Steps are taken apart with `Returns.bind` and never looked into again.
-/

namespace LispHeap

theorem Heap.Sound.has_ofBool {heap : Heap} (hs : heap.Sound) (b : Bool) :
    heap.Has (.ofBool b) := by
  cases b with
  | true => exact hs.has_t
  | false => exact Nat.zero_le _

namespace Script

/-! ## Plain steps -/

mutual

/-- Whether an operand is well formed and uses no register but the first `n`. -/
def Operand.known (n : Nat) : Operand → Bool
  | .register k => k < n
  | .list items => knownAll n items
  | .malformed => false
  | .nil | .int _ | .str _ | .sym _ | .truth => true

/-- The same for several operands. -/
def Operand.knownAll (n : Nat) : List Operand → Bool
  | [] => true
  | x :: xs => x.known n && knownAll n xs

end

/-- Whether an action, with `n` registers filled, makes values, calls an entry point with as many
arguments as it takes, or stops the task. -/
def Action.plain (n : Nat) : Action → Bool
  | .value v | .accept v => v.known n
  | .pair head rest => head.known n && rest.known n
  | .tail elems rest => Operand.knownAll n elems && rest.known n
  | .call name args =>
    match Primitive.ofName? name with
    | some p => p.takes args.length && Operand.knownAll n args
    | none => false
  | .ofBool _ | .fail _ | .throw _ => true
  | _ => false

/-- Whether a step is plain and stays on the first heap. -/
def Step.plain (n : Nat) (step : Step) : Bool :=
  step.on == 0 && step.source == 0 && step.action.plain n

/-- Whether steps are plain, each with one register more than the one before. -/
def plainFrom (n : Nat) : List Step → Bool
  | [] => true
  | step :: steps => step.plain n && plainFrom (n + 1) steps

namespace Machine

/-- The heap of the machine's own task, which is the first one. -/
def own (m : Machine) : Heap := m.heaps[0]?.getD {}

/-- The machine's own task. -/
def task (m : Machine) : Task := ⟨m.own, m.log, m.out⟩

/-- What is seen of an action of the machine's own task. -/
def effectOf (m : Machine) : Action → Effect
  | .call name args =>
    match Run.call none 0 name args m with
    | .ok call m => call.effect m.task
    | .error _ _ => .silent
  | .fail message => .stopped message
  | .throw (.string message) => .stopped message
  | .throw (.literal message) => .stopped message
  | .throw .other => .stopped "Unexpected panic type"
  | _ => .silent

/-- A step starts with an empty log. -/
def effect (m : Machine) (step : Step) : Effect :=
  { m with log := #[] }.effectOf step.action

end Machine

/-! ## Machines that are under way -/

/-- The machine's own task is in order: it has filled `n` registers with its own values, and this is
the text that it has printed. -/
structure Machine.Ready (m : Machine) (n : Nat) (text : String) : Prop where
  present : m.heaps[0]? = some m.own
  sound : m.own.Sound
  filled : m.registers.size = n
  known : ∀ v ∈ m.registers, m.own.Has v
  out : m.out = ⟨.unlimited, text.toUTF8⟩
  mayPrint : m.mayPrint = true

/-- The machine after its own task has done something. -/
def Machine.taking (m : Machine) (left : Task) : Machine := (m.suspend 0).resume 0 left

section Ready

variable {m : Machine} {n : Nat} {text text' : String} {left : Task}

theorem Machine.Ready.task_sound (hm : m.Ready n text) : m.task.heap.Sound := hm.sound

theorem Machine.heap_taking (hm : m.Ready n text) (left : Task) :
    (m.taking left).heaps[0]? = some left.heap := by
  have hsize : 0 < m.heaps.size := (Array.getElem?_eq_some_iff.mp hm.present).1
  simp [taking, resume, suspend, hsize]

theorem Machine.own_taking (hm : m.Ready n text) (left : Task) :
    (m.taking left).own = left.heap := by
  rw [own, heap_taking hm, Option.getD_some]

theorem Machine.Ready.taking (hm : m.Ready n text) (hs : left.heap.Sound)
    (hg : m.own.Grows left.heap) (hout : left.out = ⟨.unlimited, text'.toUTF8⟩) :
    (m.taking left).Ready n text' := by
  have hown := own_taking hm left
  refine ⟨?_, ?_, hm.filled, ?_, hout, hm.mayPrint⟩
  · rw [hown, heap_taking hm]
  · rw [hown]
    exact hs
  · rw [hown]
    exact fun v hv => (hm.known v hv).grows hg

end Ready

/-- A part of a step returns, and the machine is in order as before. -/
inductive Returns {α : Type} (n : Nat) (text : String) (good : Machine → α → Prop) :
    EStateM.Result Interrupt Machine α → Prop where
  | intro {a : α} {m : Machine} (hm : m.Ready n text) (ha : good m a) :
      Returns n text good (.ok a m)

/-- A part of a step comes to an end that looks like this from outside. -/
inductive Follows {α : Type} (n : Nat) (text : String) (good : Machine → α → Prop) :
    Effect → EStateM.Result Interrupt Machine α → Prop where
  | silent {r : EStateM.Result Interrupt Machine α} (h : Returns n text good r) :
      Follows n text good .silent r
  | printed {e : SExpr} {r : EStateM.Result Interrupt Machine α}
      (h : Returns n (text ++ (e.text ++ "\n")) good r) : Follows n text good (.printed e) r
  | stopped {s : Stop} {m : Machine} (hout : m.out = ⟨.unlimited, text.toUTF8⟩) :
      Follows n text good (.stopped s.message) (.error (.stop s) m)

section Rules

variable {α β : Type} {m : Machine} {n : Nat} {text : String} {good : Machine → α → Prop}

theorem bind_of_ok {x : Run α} {f : α → Run β} {a : α} {m' : Machine} (h : x m = .ok a m') :
    (x >>= f) m = f a m' := by
  show EStateM.bind x f m = _
  rw [EStateM.bind, h]

theorem Returns.bind {x : Run α} {f : α → Run β} {P : EStateM.Result Interrupt Machine β → Prop}
    (hx : Returns n text good (x m))
    (hf : ∀ a m', x m = .ok a m' → m'.Ready n text → good m' a → P (f a m')) :
    P ((x >>= f) m) := by
  generalize hr : x m = r at hx
  cases hx with
  | intro hm ha =>
      rw [bind_of_ok hr]
      exact hf _ _ hr hm ha

theorem Returns.mono {good' : Machine → α → Prop} {r : EStateM.Result Interrupt Machine α}
    (h : Returns n text good r) (himp : ∀ m a, good m a → good' m a) : Returns n text good' r := by
  cases h with
  | intro hm ha => exact .intro hm (himp _ _ ha)

theorem Follows.bind {good' : Machine → β → Prop} {effect : Effect} {x : Run α} {f : α → Run β}
    (hx : Follows n text good effect (x m))
    (hf : ∀ text' a m', m'.Ready n text' → good m' a → Returns n text' good' (f a m')) :
    Follows n text good' effect ((x >>= f) m) := by
  generalize hr : x m = r at hx
  cases hx with
  | silent h => exact .silent ((hr ▸ h).bind fun a m' _ hm ha => hf _ a m' hm ha)
  | printed h => exact .printed ((hr ▸ h).bind fun a m' _ hm ha => hf _ a m' hm ha)
  | stopped hout =>
      show Follows n text good' _ (EStateM.bind x f m)
      rw [EStateM.bind, hr]
      exact .stopped hout

theorem heap_eq (hm : m.Ready n text) : Run.heap 0 m = .ok m.own m := by
  rw [Run.heap, hm.present]

theorem enter_eq (hm : m.Ready n text) (entry : Entry α) :
    Run.enter 0 entry m =
      match entry m.task with
      | .ok a left => .ok a (m.taking left)
      | .error s left => .error (.stop s) (m.taking left) := by
  have htask : m.task? 0 = some m.task := by
    rw [Machine.task?, hm.present]
    rfl
  rw [Run.enter, htask]
  rfl

end Rules

/-! ## Parts of a step -/

/-- A value was built, and nothing was lost on the way. -/
def Built (m : Machine) (m' : Machine) (v : Handle) : Prop :=
  m.own.Grows m'.own ∧ ∃ e, m'.own.Denotes v e

/-- So many values were built, and nothing was lost on the way. -/
def BuiltAll (m : Machine) (count : Nat) (m' : Machine) (vs : List Handle) : Prop :=
  m.own.Grows m'.own ∧ vs.length = count ∧ ∃ es, List.Forall₂ m'.own.Denotes vs es

section Parts

variable {m : Machine} {n : Nat} {text : String}

theorem Built.has {m m' : Machine} {v : Handle} (h : Built m m' v) : m'.own.Has v := by
  obtain ⟨_, e, he⟩ := h
  exact he.has

theorem Built.after {m m₁ m₂ : Machine} {v : Handle} (h : Built m₁ m₂ v)
    (hg : m.own.Grows m₁.own) : Built m m₂ v :=
  ⟨hg.trans h.1, h.2⟩

theorem returns_built (hm : m.Ready n text) {op : Op Handle} {e : SExpr} {k : Nat}
    (h : ∃ v left, op m.task = .ok v left ∧ m.task.Builds k left ∧ left.heap.Denotes v e) :
    Returns n text (Built m) (Run.op 0 op m) := by
  obtain ⟨v, left, hv, hbuilds, hdenotes⟩ := h
  have hentry : Entry.ofOp op m.task = .ok v left := by rw [Entry.ofOp, hv]
  rw [Run.op, enter_eq hm, hentry]
  refine .intro (hm.taking hbuilds.sound hbuilds.grows (hbuilds.out.trans hm.out)) ?_
  rw [Built, Machine.own_taking hm]
  exact ⟨hbuilds.grows, e, hdenotes⟩

theorem returns_register (hm : m.Ready n text) {k : Nat} (hk : k < n) :
    Returns n text (Built m) (Run.register k m) := by
  have hlt : k < m.registers.size := hm.filled.symm ▸ hk
  rw [Run.register, Array.getElem?_eq_getElem hlt]
  have hhas := hm.known _ (Array.getElem_mem hlt)
  exact .intro hm ⟨.refl _, hm.sound.exists_denotes hhas⟩

mutual

theorem returns_operand : (x : Operand) → {m : Machine} → m.Ready n text → x.known n = true →
    Returns n text (Built m) (Run.operand none 0 x m)
  | .nil, m, hm, _ => by
      rw [Run.operand]
      exact .intro hm ⟨.refl _, _, .nil⟩
  | .int value, m, hm, _ => by
      rw [Run.operand]
      exact returns_built hm (newAtom_builds hm.task_sound (.int value))
  | .str s, m, hm, _ => by
      rw [Run.operand]
      exact returns_built hm (newAtom_builds hm.task_sound (.str s))
  | .sym name, m, hm, _ => by
      rw [Run.operand]
      exact returns_built hm (newAtom_builds hm.task_sound (.sym name))
  | .truth, m, hm, _ => by
      rw [Run.operand]
      exact .intro hm ⟨.refl _, hm.sound.exists_denotes hm.sound.has_t⟩
  | .register k, m, hm, hknown => by
      rw [Operand.known] at hknown
      rw [Run.operand]
      exact returns_register hm (of_decide_eq_true hknown)
  | .list items, m, hm, hknown => by
      rw [Operand.known] at hknown
      rw [Run.operand]
      refine (returns_operands items hm hknown).bind fun vs m₁ _ hm₁ hvs => ?_
      obtain ⟨hgrows, _, es, hes⟩ := hvs
      exact (returns_built hm₁ (newList_builds hm₁.task_sound hes)).mono
        fun m' v hv => hv.after hgrows
  | .malformed, m, _, hknown => by
      rw [Operand.known] at hknown
      cases hknown

theorem returns_operands : (xs : List Operand) → {m : Machine} → m.Ready n text →
    Operand.knownAll n xs = true → Returns n text (BuiltAll m xs.length) (Run.operands none 0 xs m)
  | [], m, hm, _ => by
      rw [Run.operands]
      exact .intro hm ⟨.refl _, rfl, [], .nil⟩
  | x :: xs, m, hm, hknown => by
      rw [Operand.knownAll, Bool.and_eq_true] at hknown
      rw [Run.operands]
      refine (returns_operand x hm hknown.1).bind fun v m₁ _ hm₁ hv => ?_
      refine (returns_operands xs hm₁ hknown.2).bind fun vs m₂ _ hm₂ hvs => ?_
      obtain ⟨hgrows, e, he⟩ := hv
      obtain ⟨hgrows', hlength, es, hes⟩ := hvs
      exact .intro hm₂ ⟨hgrows.trans hgrows', congrArg (· + 1) hlength, e :: es,
        .cons (he.grows hgrows') hes⟩

end

/-- The call of a plain step is made, with values of the heap as its arguments. -/
theorem returns_call (hm : m.Ready n text) {name : String} {args : List Operand}
    (hp : (Action.call name args).plain n = true) :
    Returns n text (fun m' call => ∀ v ∈ call.handles, m'.own.Has v)
      (Run.call none 0 name args m) := by
  rw [Action.plain] at hp
  rw [Run.call]
  cases hname : Primitive.ofName? name with
  | none => rw [hname] at hp; cases hp
  | some p =>
      rw [hname] at hp
      obtain ⟨htakes, hknown⟩ := Bool.and_eq_true_iff.mp hp
      simp only [htakes]
      refine (returns_operands args hm hknown).bind fun vs m₁ _ hm₁ hvs => ?_
      obtain ⟨_, hlength, es, hes⟩ := hvs
      obtain ⟨call, hmake, _, hhandles⟩ := Call.exists_make? (hlength.symm ▸ htakes)
      rw [hmake]
      exact .intro hm₁ (hhandles ▸ Heap.has_of_denotes hes)

/-- On a value of a sound heap, narrowing to lists gives the value itself or nothing. -/
theorem narrow_list {heap : Heap} {v : Handle} {e : SExpr} (h : heap.Denotes v e) :
    heap.narrow .list v = .ok none ∨
      (heap.narrow .list v = .ok (some v) ∧ ∃ xs, heap.Denotes v (.list xs)) := by
  cases h with
  | nil => exact Or.inr ⟨rfl, [], .nil⟩
  | pair h hhead hrest =>
      refine Or.inr ⟨?_, _, .pair h hhead hrest⟩
      rw [Heap.narrow, Heap.tag_of_cell? h]
      rfl
  | int h | str h | sym h _ =>
      refine Or.inl ?_
      rw [Heap.narrow, Heap.tag_of_cell? h]
      rfl

/-- The answer fills the next register with a value of the heap, and is no stop. -/
def Answered (m : Machine) (answer : Answer) : Prop :=
  m.own.Has answer.register ∧ ∀ s, answer ≠ .stopped s

theorem returns_yieldAt (step : Step) (hm : m.Ready n text) (hon : step.on = 0) {v : Handle}
    (hv : m.own.Has v) : Returns n text Answered (Run.actWithin.yieldAt step v m) := by
  rw [Run.actWithin.yieldAt, hon, bind_of_ok (heap_eq hm)]
  exact .intro hm ⟨hv, nofun⟩

/-- Where a list is asked for, another value is no stop: the answer is that there is none. -/
theorem returns_onto (step : Step) (hm : m.Ready n text) (hon : step.on = 0) {l : Handle}
    {e : SExpr} (he : m.own.Denotes l e) {build : Handle → Op Handle}
    (hbuild : ∀ xs, m.own.Denotes l (.list xs) → Returns n text (Built m) (Run.op 0 (build l) m)) :
    Returns n text Answered
      ((do match ← Run.await ((← Run.heap 0).narrow .list l) with
        | none => return .absent
        | some l => Run.actWithin.yieldAt step (← Run.op 0 (build l)) : Run Answer) m) := by
  rw [bind_of_ok (heap_eq hm)]
  rcases narrow_list he with hnone | ⟨hsome, xs, hxs⟩
  · rw [hnone]
    exact .intro hm ⟨Nat.zero_le _, nofun⟩
  · rw [hsome]
    exact (hbuild xs hxs).bind fun v m' _ hm' hv => returns_yieldAt step hm' hon hv.has

theorem follows_print (hm : m.Ready n text) {v : Handle} (hv : m.own.Has v) :
    Follows n text (fun m' v => m'.own.Has v) ((Call.print v).effect m.task)
      (Run.enter 0 (Call.print v).enter m) := by
  have hs := hm.task_sound
  have hhas : m.task.heap.Has v := hv
  obtain ⟨e, he⟩ := hs.exists_denotes hhas
  have htask : m.task = { m.task with out := ⟨.unlimited, text.toUTF8⟩ } := by
    rw [← hm.out]
    rfl
  have henter : (Call.print v).enter { m.task with out := ⟨.unlimited, text.toUTF8⟩ } =
      .ok .nil { m.task with out := ⟨.unlimited, text.toUTF8 ++ (e.text ++ "\n").toUTF8⟩ } :=
    enter_print_of_appends (hs.appends_print hhas he)
  rw [← htask] at henter
  rw [Call.effect, hs.decode_eq hhas he, enter_eq hm, henter]
  refine .printed (.intro (hm.taking hs (.refl _) ?_) (Nat.zero_le _))
  exact congrArg _ String.toByteArray_append.symm

/-- An entry point, called with values of the heap. -/
theorem follows_enter (hm : m.Ready n text) {call : Call}
    (hargs : ∀ v ∈ call.handles, m.own.Has v) :
    Follows n text (fun m' v => m'.own.Has v) (call.effect m.task) (Run.enter 0 call.enter m) := by
  have hs := hm.task_sound
  cases hprint : call.printing with
  | true =>
      cases call with
      | print v => exact follows_print hm (hargs v (List.mem_singleton_self v))
      | _ => cases hprint
  | false =>
      rw [Call.effect_of_not_printing hprint]
      cases hcomplaint : call.complaint? m.task with
      | some message =>
          obtain ⟨left, henter, hout⟩ := enter_of_complaint hprint hcomplaint
          rw [enter_eq hm, henter]
          exact .stopped (s := .failed message) (m := m.taking left) (hout.trans hm.out)
      | none =>
          obtain ⟨v, left, henter, hout⟩ := hs.enter_of_no_complaint hargs hprint hcomplaint
          obtain ⟨hleft, hv⟩ := hs.enter hargs henter
          have hgrows := growing_enter call m.task
          rw [henter] at hgrows
          rw [enter_eq hm, henter]
          refine .silent (.intro (hm.taking hleft hgrows (hout.trans hm.out)) ?_)
          rw [Machine.own_taking hm]
          exact hv

end Parts

/-! ## Steps -/

section Steps

variable {m : Machine} {n : Nat} {text : String}

/-- A plain step ends as its effect says. -/
theorem follows_act (hm : m.Ready n text) {step : Step} (hp : step.plain n = true) :
    Follows n text Answered (m.effectOf step.action) (Run.act step m) := by
  obtain ⟨action, on, source, quiet⟩ := step
  obtain ⟨hheaps, haction⟩ := Bool.and_eq_true_iff.mp hp
  obtain ⟨hon, hsource⟩ := Bool.and_eq_true_iff.mp hheaps
  obtain rfl : on = 0 := eq_of_beq hon
  obtain rfl : source = 0 := eq_of_beq hsource
  -- Both heaps of the step are the task's own, and asking for them changes nothing.
  rw [Run.act, Run.actWithin, bind_of_ok (heap_eq hm), bind_of_ok (heap_eq hm)]
  cases action with
  | value v | accept v =>
      exact .silent ((returns_operand v hm haction).bind fun _ m' _ hm' hv =>
        returns_yieldAt _ hm' rfl hv.has)
  | ofBool b => exact .silent (returns_yieldAt _ hm rfl (hm.sound.has_ofBool b))
  | pair head rest =>
      obtain ⟨hhead, hrest⟩ := Bool.and_eq_true_iff.mp haction
      refine .silent ((returns_operand head hm hhead).bind fun v m₁ _ hm₁ hv => ?_)
      refine (returns_operand rest hm₁ hrest).bind fun l m₂ _ hm₂ hl => ?_
      obtain ⟨_, x, hx⟩ := hv
      obtain ⟨hgrows, e, he⟩ := hl
      refine returns_onto _ hm₂ rfl he fun xs hxs => ?_
      exact returns_built hm₂ (newPair_builds hm₂.task_sound (hx.grows hgrows) hxs)
  | tail elems rest =>
      obtain ⟨helems, hrest⟩ := Bool.and_eq_true_iff.mp haction
      refine .silent ((returns_operands elems hm helems).bind fun vs m₁ _ hm₁ hvs => ?_)
      refine (returns_operand rest hm₁ hrest).bind fun l m₂ _ hm₂ hl => ?_
      obtain ⟨_, _, es, hes⟩ := hvs
      obtain ⟨hgrows, e, he⟩ := hl
      have hes' := hes.imp fun _ _ h => h.grows hgrows
      refine returns_onto _ hm₂ rfl he fun xs hxs => ?_
      exact returns_built hm₂ (listOnto_builds hm₂.task_sound hes' hxs)
  | call name args =>
      refine (returns_call hm haction).bind fun call m₁ hcall hm₁ hargs => ?_
      rw [Machine.effectOf, hcall]
      have henter := (follows_enter hm₁ hargs).bind fun _ v m₂ hm₂ hv =>
        returns_yieldAt ⟨.call name args, 0, 0, quiet⟩ hm₂ rfl hv
      cases call with
      | print v =>
          -- The guard that keeps other scripts from printing lets this one through.
          show Follows n text Answered _ ((if (!m₁.mayPrint) = true then _ else _ : Run Answer) m₁)
          rw [hm₁.mayPrint]
          exact henter
      | _ => exact henter
  | fail message =>
      have hfail : (Entry.fail message : Entry Answer) m.task =
          .error (.failed message) (m.task.noting (.failed message)) := rfl
      show Follows n text Answered _ (Run.enter 0 (Entry.fail message) m)
      rw [enter_eq hm, hfail]
      exact .stopped (s := .failed message) hm.out
  | throw payload =>
      cases payload with
      | string message => exact .stopped (s := .thrown (.string message)) hm.out
      | literal message => exact .stopped (s := .thrown (.literal message)) hm.out
      | other => exact .stopped (s := .thrown .other) hm.out
  | _ => cases haction

end Steps

end Script

end LispHeap
