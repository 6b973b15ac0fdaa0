import LispHeap.Script.Program
import LispHeap.Proofs.PlainSteps

/-!
# What is left of a launch

Nothing is seen of a launched task but three things: what it has printed, a line about an error if
there was one, and its exit status. A run may stop anywhere, by an error of a primitive, by its own
decision or by a throw of foreign code, and then the lines before it have to be there, none may come
after it, and its text, whatever it was thrown as, has to be the one that is reported.

`account` goes through the steps and writes down the effect of each, up to the first stop. It does
not print and knows of no bytes; an expression is noted as the expression it is. That a launch
leaves behind the text of this account is shown by an induction over the steps. The step lemma is
`follows_act`, and what the induction carries is a machine that is ready and the text so far.
-/

namespace LispHeap.Script

/-! ## Accounts -/

/-- What a task has printed, and what has stopped it. -/
structure Account where
  printed : List SExpr
  stop : Option String

namespace Account

/-- Each value on a line of its own. -/
def text (a : Account) : String := String.join (a.printed.map fun e => e.text ++ "\n")

/-- What is left of a process with this account. -/
def exit (a : Account) : Program.Exit :=
  match a.stop with
  | none => ⟨a.text, "", 0⟩
  | some message => ⟨a.text, "\x1b[1;31merror\x1b[0m: " ++ message ++ "\n", 1⟩

theorem text_nil (stop : Option String) : (Account.mk [] stop).text = "" := rfl

theorem text_cons (e : SExpr) (a : Account) :
    { a with printed := e :: a.printed }.text = e.text ++ "\n" ++ a.text :=
  String.join_cons

end Account

/-- The account of the steps up to the first stop. -/
def account : Machine → List Step → Account
  | _, [] => ⟨[], none⟩
  | m, step :: steps =>
    match m.effect step with
    | .silent => account (m.perform step).2 steps
    | .printed e =>
      let rest := account (m.perform step).2 steps
      { rest with printed := e :: rest.printed }
    | .stopped message => ⟨[], some message⟩

/-! ## Runs -/

section Runs

variable {m : Machine} {n : Nat} {text : String}

theorem Machine.Ready.push (hm : m.Ready n text) {v : Handle} (hv : m.own.Has v) :
    { m with registers := m.registers.push v }.Ready (n + 1) text := by
  refine ⟨hm.present, hm.sound, ?_, fun w hw => ?_, hm.out, hm.mayPrint⟩
  · rw [Array.size_push, hm.filled]
  · rcases Array.mem_push.mp hw with hw | rfl
    · exact hm.known w hw
    · exact hv

theorem Machine.Ready.clear (hm : m.Ready n text) : { m with log := #[] }.Ready n text :=
  ⟨hm.present, hm.sound, hm.filled, hm.known, hm.out, hm.mayPrint⟩

theorem performUntil_cons (m : Machine) (step : Step) (steps : List Step) :
    Program.performUntil m (step :: steps) =
      let (report, m) := m.perform step
      match report.answer with
      | .stopped s => ([], some (s, report.log), m.out)
      | _ =>
        let (reports, ending) := Program.performUntil m steps
        (report :: reports, ending) := rfl

theorem perform_of_ok {step : Step} {answer : Answer} {m' : Machine}
    (h : Run.act step { m with log := #[] } = .ok answer m') :
    m.perform step = (m'.report step.on answer,
      { m' with registers := m'.registers.push answer.register }) := by
  rw [Run.act] at h
  rw [Machine.perform, Machine.performWithin, h]
  rfl

theorem perform_of_stop {step : Step} {s : Stop} {m' : Machine}
    (h : Run.act step { m with log := #[] } = .error (.stop s) m') :
    m.perform step = (m'.report step.on (.stopped s),
      { m' with registers := m'.registers.push .nil }) := by
  rw [Run.act] at h
  rw [Machine.perform, Machine.performWithin, h]
  rfl

/-- A step that returns leaves the rest of the run to a machine that is ready for it. -/
theorem Returns.perform {step : Step}
    (h : Returns n text Answered (Run.act step { m with log := #[] })) :
    (m.perform step).2.Ready (n + 1) text ∧ ∀ steps : List Step,
      (Program.performUntil m (step :: steps)).2 =
        (Program.performUntil (m.perform step).2 steps).2 := by
  generalize hr : Run.act step { m with log := #[] } = r at h
  cases h with
  | @intro answer m' hm ha =>
      have hperform := perform_of_ok hr
      rw [hperform]
      refine ⟨hm.push ha.1, fun steps => ?_⟩
      rw [performUntil_cons, hperform]
      cases answer with
      | stopped s => exact absurd rfl (ha.2 s)
      | _ => rfl

theorem performUntil_of_stop {step : Step} {s : Stop} {m' : Machine}
    (h : Run.act step { m with log := #[] } = .error (.stop s) m') (steps : List Step) :
    Program.performUntil m (step :: steps) = ([], some (s, m'.log.toList), m'.out) := by
  rw [performUntil_cons, perform_of_stop h]
  rfl

/-- Steps up to the first stop come to what their account says. -/
theorem performUntil_eq_account {steps : List Step} (hm : m.Ready n text)
    (hp : plainFrom n steps = true) :
    (Program.performUntil m steps).2.1.map (·.1.message) = (account m steps).stop ∧
    (Program.performUntil m steps).2.2 =
      ⟨.unlimited, (text ++ (account m steps).text).toUTF8⟩ := by
  induction steps generalizing m n text with
  | nil =>
      refine ⟨rfl, hm.out.trans ?_⟩
      rw [account, Account.text_nil, String.append_empty]
  | cons step steps ih =>
      obtain ⟨hstep, hsteps⟩ := Bool.and_eq_true_iff.mp hp
      have hact : Follows n text Answered (m.effect step) (Run.act step { m with log := #[] }) :=
        follows_act hm.clear hstep
      -- Both sides go on from the machine that `act` leaves, so its result is what is split.
      rw [account]
      generalize m.effect step = effect at hact
      generalize hr : Run.act step { m with log := #[] } = r at hact
      cases hact with
      | silent h =>
          obtain ⟨hnext, hrest⟩ := Returns.perform (hr ▸ h)
          rw [hrest]
          exact ih hnext hsteps
      | printed h =>
          obtain ⟨hnext, hrest⟩ := Returns.perform (hr ▸ h)
          obtain ⟨hstop, hout⟩ := ih hnext hsteps
          rw [hrest]
          refine ⟨hstop, hout.trans ?_⟩
          rw [String.append_assoc, Account.text_cons]
      | stopped hout =>
          rw [performUntil_of_stop hr]
          refine ⟨rfl, hout.trans ?_⟩
          rw [Account.text_nil, String.append_empty]

/-- What follows a stop is not looked at. -/
theorem performUntil_append {steps : List Step}
    (h : (Program.performUntil m steps).2.1.isSome = true) (more : List Step) :
    Program.performUntil m (steps ++ more) = Program.performUntil m steps := by
  induction steps generalizing m with
  | nil => cases h
  | cons step steps ih =>
      rw [List.cons_append, performUntil_cons, performUntil_cons]
      rw [performUntil_cons] at h
      generalize m.perform step = next at h ⊢
      obtain ⟨report, m'⟩ := next
      cases hanswer : report.answer with
      | stopped s => simp only [hanswer]
      | _ =>
          simp only [hanswer] at h ⊢
          rw [ih h]

end Runs

/-! ## Launches -/

namespace Program

/-- The machine that a program starts on. -/
def machine (p : Program) (out : Sink) : Machine where
  heaps := (Task.fresh [] :: (p.heaps.drop 1).map Task.fresh).map Task.heap |>.toArray
  out := out
  mayPrint := true

theorem runTask_eq (p : Program) (out : Sink) :
    p.runTask out true =
      { setup := (Task.fresh []).log.toList
        beside := ((p.heaps.drop 1).map Task.fresh).flatMap (·.log.toList)
        reports := (performUntil (p.machine out) p.steps).1
        stopped := (performUntil (p.machine out) p.steps).2.1
        out := (performUntil (p.machine out) p.steps).2.2 } := rfl

theorem ready_machine (p : Program) : (p.machine (stdout false)).Ready 0 "" where
  present := rfl
  sound := Heap.sound_fresh []
  filled := rfl
  known v hv := absurd hv (Array.not_mem_empty v)
  out := rfl
  mayPrint := rfl

theorem lines_off (records : List Record) : Record.lines .off records = [] := by
  have hnone : records.filter LogLevel.off.shows = [] :=
    List.filter_eq_nil_iff.mpr fun _ _ => Bool.false_ne_true
  rw [Record.lines, hnone, List.map_nil]

theorem delivered_text (text : String) : (Sink.mk .unlimited text.toUTF8).delivered = text := by
  have hvalid : String.fromUTF8? text.toUTF8 = some text := dif_pos text.isValidUTF8
  rw [Sink.delivered, Sink.text?, hvalid, Option.getD_some]

end Program

/-- What is left of a launch is what the account of its steps says: the printed lines, and either
nothing more and status 0, or the first stop's line about an error and status 1. A task that is run
by itself reports that stop, or none. Steps after a stop make no difference to either. -/
theorem launches_end_at_first_stop (heaps : List (List String)) (steps : List Step)
    (h : plainFrom 0 steps = true) :
    let p : Program := ⟨heaps, steps⟩
    let out := Program.stdout false
    let a := account (p.machine out) steps
    p.launch .off out = a.exit ∧ (p.runTask out true).stopped.map (·.1.message) = a.stop ∧
      (a.stop.isSome = true → ∀ more,
        (Program.mk heaps (steps ++ more)).runTask out true = p.runTask out true ∧
        (Program.mk heaps (steps ++ more)).launch .off out = p.launch .off out) := by
  intro p out a
  obtain ⟨hstop, hout⟩ := performUntil_eq_account p.ready_machine h
  have hstopped : (p.runTask out true).stopped.map (·.1.message) = a.stop := hstop
  refine ⟨?_, hstopped, fun hsome more => ?_⟩
  · have hdelivered : (p.runTask out true).out.delivered = a.text := by
      show (Program.performUntil (p.machine out) steps).2.2.delivered = a.text
      rw [hout, Program.delivered_text, String.empty_append]
    rw [Program.launch, Program.TaskOutcome.exit, Account.exit, ← hstopped]
    simp only [hdelivered, Program.lines_off]
    cases (p.runTask out true).stopped with
    | none => rfl
    | some stop => rfl
  · have hsome' : (Program.performUntil (p.machine out) steps).2.1.isSome = true := by
      rw [← Option.isSome_map, hstop]
      exact hsome
    have hrun : (Program.mk heaps (steps ++ more)).runTask out true = p.runTask out true := by
      have hmore : Program.performUntil ((Program.mk heaps (steps ++ more)).machine out)
          (steps ++ more) = Program.performUntil (p.machine out) steps :=
        performUntil_append hsome' more
      rw [Program.runTask_eq, Program.runTask_eq, hmore]
    refine ⟨hrun, ?_⟩
    rw [Program.launch, Program.launch, hrun]

/-- Prints a list, asks for the first element of what printing yields, which is no pair, and would
print again. -/
def failingSteps : List Step :=
  [{ action := .value (.list [.int 3, .str "a b"]) }, { action := .call "print" [.register 0] },
    { action := .call "car" [.register 1] }, { action := .call "print" [.truth] }]

theorem failing_steps_end_at_car :
    plainFrom 0 failingSteps = true ∧
    (Program.mk [] failingSteps).launch .off (Program.stdout false) =
      ⟨"(3 \"a b\")\n", "\x1b[1;31merror\x1b[0m: Wrong type for car: ()\n", 1⟩ ∧
    ∀ more, (Program.mk [] (failingSteps ++ more)).launch .off (Program.stdout false) =
      (Program.mk [] failingSteps).launch .off (Program.stdout false) := by
  have hplain : plainFrom 0 failingSteps = true := by decide +kernel
  have hexit : (account ((Program.mk [] failingSteps).machine (Program.stdout false))
      failingSteps).exit =
        ⟨"(3 \"a b\")\n", "\x1b[1;31merror\x1b[0m: Wrong type for car: ()\n", 1⟩ := by
    decide +kernel
  have hstop : (account ((Program.mk [] failingSteps).machine (Program.stdout false))
      failingSteps).stop.isSome = true := by decide +kernel
  obtain ⟨hlaunch, _, hmore⟩ := launches_end_at_first_stop [] failingSteps hplain
  exact ⟨hplain, hlaunch.trans hexit, fun more => (hmore hstop more).2⟩

end LispHeap.Script
