/-
  Runs of the program.

  A run reads its arguments, builds options, generates the header, and prints or
  writes it. It stops at the first stage that fails, so options are judged before
  any file is read, and nothing is printed or written unless the whole header is
  there. `run` tells what a run does to a tree of files, with a parser of the command
  line, a maker of temporary files, and what comes from outside.
-/
import NodeHeader.CommandLine.Invocation
import NodeHeader.CommandLine.Report
import NodeHeader.Output

namespace NodeHeader.CommandLine

open NodeHeader.Files (Fault Interference Path Temporaries Tree)
open NodeHeader.Text (Bytes)

/-- Why a run failed: what was attempted, and the error. -/
structure Failure where
  attempt : String
  error : GenerationError
deriving DecidableEq, Repr

/-- The report of a failure. -/
def Failure.report (f : Failure) : String :=
  Report.text f.attempt f.error.causes

namespace Invocation

/-- The options of an invocation. -/
def options (i : Invocation) : Except Failure Options :=
  i.settings.toOptions.mapError fun error => ⟨"invalid generator options", error⟩

/-- The header that an invocation asks for, with a way to read files. -/
def document (i : Invocation) (o : Options) (read : Path → Except Fault Bytes) :
    Traced Failure Document := do
  .tell (.runStarted o.base i.defs)
  match i.defs with
  | some source =>
    (Header.ofReading (Table.ofContents source (read source)) o).mapError fun error =>
      ⟨"failed to generate from " ++ source.display, error⟩
  | none =>
    (Header.ofReading Builtin.table o).mapError fun error =>
      ⟨"failed to generate the built-in table", error⟩

/-- The failure to write a header. -/
def unwritten (i : Invocation) (error : GenerationError) : Failure :=
  ⟨"failed to write " ++ i.out.display, error⟩

end Invocation

/-! ### Outcomes -/

/-- What a run did. -/
structure Outcome where
  exitCode : Nat
  /-- The usage that was shown, if the run came no further. -/
  usage : Option Usage := none
  output : Bytes := []
  /-- The report of a failure; empty if there was none. -/
  report : String := ""
  /-- What was done, in order. -/
  events : List Event := []
  tree : Tree

/-- The entries of a run's log. -/
def Outcome.entries (o : Outcome) : List String :=
  o.events.filterMap Event.logEntry?

/-- The outcome of a run that failed after some events. -/
def Failure.outcome (f : Failure) (events : List Event) (tree : Tree) : Outcome :=
  { exitCode := 1, report := f.report, events, tree }

/-- The outcome of a run that broke off while it printed. What got through is out. -/
def unprinted (d : Document) (through : Nat) (fault : Fault) (events : List Event)
    (tree : Tree) : Outcome :=
  { exitCode := 101
    output := d.bytes.take through
    report := "failed printing to stdout: " ++ fault.message
    events
    tree }

namespace Invocation

/-- Prints or writes a finished header. -/
def deliver (i : Invocation) (T : Temporaries) (d : Document) (events : List Event) (t : Tree)
    (interference : Interference := {}) : Outcome :=
  if i.stdout then
    match interference.fault .print with
    | some fault => unprinted d interference.through fault events t
    | none => { exitCode := 0, output := d.bytes, events, tree := t }
  else
    match d.writeTo T t i.out interference with
    | (t', written) =>
      match written.result with
      | .error error => (i.unwritten error).outcome (events ++ written.events) t'
      | .ok () => { exitCode := 0, events := events ++ written.events, tree := t' }

/-- Carries out an invocation. -/
def run (i : Invocation) (T : Temporaries) (t : Tree) (interference : Interference := {}) :
    Outcome :=
  match i.options with
  | .error failure => failure.outcome [] t
  | .ok o =>
    let document := i.document o fun source => t.read source interference
    match document.result with
    | .error failure => failure.outcome document.events t
    | .ok d => i.deliver T d document.events t interference

end Invocation

/-- What a run with these arguments does to a tree of files. -/
def run (P : Parser) (T : Temporaries) (arguments : List Bytes) (t : Tree)
    (interference : Interference := {}) : Outcome :=
  match Invocation.read P arguments with
  | .error usage =>
    { exitCode := P.exitCode usage
      usage := some usage
      output := P.printed usage
      tree := t }
  | .ok i => i.run T t interference

end NodeHeader.CommandLine
