import LispHeap.Script.Machine

/-!
# Programs

A program is a list of heaps, each given by the names that are known to it beforehand, and a list
of steps. It can be run in three ways. `Program.run` goes on after a step that stops and reports
on all of them. `Program.runTask` makes a task of the first heap and ends at the first stop.
`Program.launch` does the same in the manner of a whole process: nothing is seen of it but what it
prints, what it says about an error, and its exit status.
-/

namespace LispHeap.Script

/-- The heaps that a script works on, and its steps. -/
structure Program where
  /-- The names known to each heap beforehand. -/
  heaps : List (List String)
  steps : List Step

namespace Program

/-- Performs all steps. -/
def performAll (limit : Option Nat) : Machine → List Step → List Report
  | _, [] => []
  | m, step :: steps =>
    let (report, m) := m.performWithin limit step
    report :: performAll limit m steps

/-- Reports of the steps, and the records of making the heaps. -/
structure Outcome where
  setup : List Record
  reports : List Report

/-- Runs a program to its end, whatever its steps come to. -/
def run (limit : Option Nat) (p : Program) : Outcome :=
  let tasks := p.heaps.map Task.fresh
  { setup := tasks.flatMap (·.log.toList)
    reports := performAll limit { heaps := (tasks.map Task.heap).toArray } p.steps }

/-! ## Tasks -/

/-- How a task came to its end. -/
structure TaskOutcome where
  /-- The records of making the task. -/
  setup : List Record
  /-- The records of making the heaps beside the task's own. -/
  beside : List Record
  /-- The steps that completed. -/
  reports : List Report
  /-- The stop, if any, with the records of the step that it ended. -/
  stopped : Option (Stop × List Record)
  /-- What the task printed to. -/
  out : Sink

/-- Performs steps up to the first stop. -/
def performUntilWithin (limit : Option Nat) :
    Machine → List Step → List Report × Option (Stop × List Record) × Sink
  | m, [] => ([], none, m.out)
  | m, step :: steps =>
    let (report, m) := m.performWithin limit step
    match report.answer with
    | .stopped s => ([], some (s, report.log), m.out)
    | _ =>
      let (reports, ending) := performUntilWithin limit m steps
      (report :: reports, ending)

/-- Performs steps up to the first stop, without a limit. -/
def performUntil (m : Machine) (steps : List Step) :
    List Report × Option (Stop × List Record) × Sink :=
  performUntilWithin none m steps

/-- Runs the steps in a new task. The first heap is the task's own, whatever names were given. -/
def runTaskWithin (limit : Option Nat) (p : Program) (out : Sink) (mayPrint : Bool) :
    TaskOutcome :=
  let task := Task.fresh []
  let others := (p.heaps.drop 1).map Task.fresh
  let machine : Machine :=
    { heaps := (task :: others).map Task.heap |>.toArray, out := out, mayPrint := mayPrint }
  let (reports, stopped, out) := performUntilWithin limit machine p.steps
  { setup := task.log.toList, beside := others.flatMap (·.log.toList), reports := reports
    stopped := stopped, out := out }

/-- Runs the steps in a new task, without a limit. -/
def runTask (p : Program) (out : Sink) (mayPrint : Bool) : TaskOutcome :=
  p.runTaskWithin none out mayPrint

/-! ## Launches -/

/-- What is left of a process. -/
structure Exit where
  stdout : String
  stderr : String
  status : Nat
  deriving DecidableEq

/-- The line that reports an error, the word itself in bold red. -/
def errorLine (message : String) : String :=
  "\x1b[1;31merror\x1b[0m: " ++ message ++ "\n"

/-- What is left of a process when its task has come to this end. -/
def TaskOutcome.exit (level : LogLevel) (outcome : TaskOutcome) : Exit :=
  let records :=
    .launching :: outcome.setup ++ outcome.beside ++ outcome.reports.flatMap Report.log
  let lines (records : List Record) : String :=
    String.join ((Record.lines level records).map (· ++ "\n"))
  let stdout := outcome.out.delivered
  match outcome.stopped with
  | none => ⟨stdout, lines (records ++ [.finished]), 0⟩
  | some (stop, last) => ⟨stdout, lines (records ++ last) ++ errorLine stop.message, 1⟩

/-- Runs a program as a process of its own, on heaps with a limit. -/
def launchWithin (limit : Option Nat) (p : Program) (level : LogLevel) (out : Sink) : Exit :=
  (p.runTaskWithin limit out true).exit level

/-- Runs a program as a process of its own. -/
def launch (p : Program) (level : LogLevel) (out : Sink) : Exit := (p.runTask out true).exit level

/-- The standard output of a launch: a device without space buffers a line before it fails. -/
def stdout (full : Bool) : Sink := { room := if full then .stuck 1024 else .unlimited }

end Program

end LispHeap.Script
