/-
  Events.

  What is done is told as a list of events, in order. An event is data; its
  wording, its level and its entry in the log of a run are functions of it.
-/
import NodeHeader.Files.Path

namespace NodeHeader

open NodeHeader.Files (Path)

/-- How much an event matters: `debug` for single steps, `info` for what the user asked for. -/
inductive Level where
  | debug
  | info
deriving DecidableEq, Repr

/-- The name of a level in a log. -/
def Level.label : Level → String
  | debug => "DEBUG"
  | info => "INFO"

/-- Something that was done. -/
inductive Event where
  /-- A run starts, for a base type, from a definitions file or the built-in table. -/
  | runStarted (base : String) (source : Option Path)
  | definitionsRead (source : Path)
  | nodeParsed (node : String) (fields line : Nat)
  /-- The declaration of a node was written. -/
  | nodeEmitted (node base : String) (fields : Nat)
  /-- A header was put together. -/
  | headerAssembled (fileName : String) (nodes lines : Nat)
  /-- A regular file gave way to a new one. -/
  | fileReplaced (target : Path)
  | fileWritten (size : Nat) (target : Path)
deriving DecidableEq, Repr

namespace Event

/-- The level of an event. -/
def level : Event → Level
  | runStarted .. | fileWritten .. => .info
  | definitionsRead .. | nodeParsed .. | nodeEmitted .. | headerAssembled .. | fileReplaced .. =>
    .debug

/-- The wording of an event. -/
def message : Event → String
  | runStarted base none => "Generating " ++ base ++ " from the built-in Dargon table"
  | runStarted base (some source) => "Generating " ++ base ++ " from " ++ source.display
  | definitionsRead source => "Read definitions from " ++ source.display
  | nodeParsed node fields line =>
    "Parsed node " ++ node ++ " with " ++ toString fields ++ " field(s) on line " ++ toString line
  | nodeEmitted node base fields =>
    "Emitted " ++ node ++ " : " ++ base ++ " with " ++ toString fields ++ " field(s)"
  | headerAssembled fileName nodes lines =>
    "Assembled " ++ fileName ++ " with " ++ toString nodes ++ " node(s), " ++ toString lines ++
      " line(s)"
  | fileReplaced target => "Replaced existing " ++ target.display
  | fileWritten size target =>
    "Wrote " ++ toString size ++ " bytes to " ++ target.display

/-- An event as an entry of a run's log, with the part of the program that tells it. Single
steps are left out of that log. -/
def logEntry? (e : Event) : Option String :=
  match e with
  | runStarted .. => some (e.level.label ++ " astgen: " ++ e.message)
  | fileWritten .. => some (e.level.label ++ " astgen_codegen::sink: " ++ e.message)
  | definitionsRead .. | nodeParsed .. | nodeEmitted .. | headerAssembled .. | fileReplaced .. =>
    none

end Event

end NodeHeader
