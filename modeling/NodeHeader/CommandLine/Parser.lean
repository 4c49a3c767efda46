/-
  Parsers of command lines.

  The arguments are parsed by a part that the program is given. `Parser` is what such a
  part offers, and `Parser.Lawful` the rules by which it goes for the options that are
  declared: it reads arguments from left to right, and each rule says what the next ones
  do, whatever came before them. What is said about command lines holds for every parser
  with these rules.
-/
import NodeHeader.CommandLine.Options

namespace NodeHeader.CommandLine

open NodeHeader.Text (Bytes)

/-- Why usage is shown instead of a run. -/
inductive Usage where
  | help
  /-- An argument is none of the program's. -/
  | unknownArgument
  /-- A value is attached to an option that takes none. -/
  | tooManyValues
  /-- An option is given twice. -/
  | argumentConflict
  /-- A value is missing or empty. -/
  | invalidValue
  /-- A value is no UTF-8 text. -/
  | invalidUtf8
  /-- An option is given without the one it depends on, or not given although it is needed. -/
  | missingRequiredArgument
deriving DecidableEq, Repr

/-- What a parser finds on a command line. -/
structure Matches where
  /-- Whether a flag is raised. -/
  flag : Flag → Bool
  /-- The values of an option, or the one that holds because none is given. -/
  values : Valued → List Bytes

/-- A parser of command lines. -/
structure Parser where
  /-- Takes in arguments behind those that made certain choices, and gives all choices. -/
  takeIn : List Choice → List Bytes → Except Usage (List Choice)
  /-- What is found once there are no more arguments. -/
  finish : List Choice → Except Usage Matches
  /-- The exit code with which usage is shown. -/
  exitCode : Usage → Nat
  /-- What goes to the standard output when usage is shown. -/
  printed : Usage → Bytes

namespace Parser

/-- What is found on a command line. -/
def parse (P : Parser) (arguments : List Bytes) : Except Usage Matches := do
  let choices ← P.takeIn [] arguments
  P.finish choices

/-! ### Rules -/

/-- Whether a choice can be made after others: nothing is chosen twice but what is collected, and
an option accepts its value. -/
def Fits (cs : List Choice) : Choice → Prop
  | .flag f => Choice.flag f ∉ cs
  | .valued v value => (v.isRepeatable = false → values v cs = []) ∧ v.Accepts value

/-- Parsing ends with an error. -/
def Fails {α : Type} (x : Except Usage α) : Prop :=
  ∃ usage, usage ≠ .help ∧ x = .error usage

/-- Arguments make a choice, wherever they stand, or are in error if the choice does not fit. -/
def ReadsAs (P : Parser) (part : List Bytes) (c : Choice) : Prop :=
  ∀ cs rest,
    (Fits cs c → P.takeIn cs (part ++ rest) = P.takeIn (cs ++ [c]) rest) ∧
    (¬ Fits cs c → Fails (P.takeIn cs (part ++ rest)))

/-- The rules by which arguments are parsed. -/
structure Lawful (P : Parser) : Prop where
  takeIn_nil (cs : List Choice) : P.takeIn cs [] = .ok cs
  /-- The mark makes no choice. -/
  takeIn_mark (cs : List Choice) : P.takeIn cs [mark] = .ok cs
  /-- All that follows the mark is no option, and nothing else is declared. -/
  fails_after_mark (cs : List Choice) (next : Bytes) (rest : List Bytes) :
    Fails (P.takeIn cs (mark :: next :: rest))
  /-- `--name` raises a flag. -/
  reads_flag (f : Flag) : P.ReadsAs [long f.name] (.flag f)
  /-- `--name=value` gives an option the value, which may be any. -/
  reads_attached (v : Valued) (value : Bytes) :
    P.ReadsAs [long v.name ++ equalsSign :: value] (.valued v value)
  /-- So does `--name value`, unless the value looks like an option. -/
  reads_separate (v : Valued) {value : Bytes} :
    IsValue value → P.ReadsAs [long v.name, value] (.valued v value)
  /-- `-l value` -/
  reads_short_separate {v : Valued} {letter : UInt8} {value : Bytes} :
    v.letter? = some letter → IsValue value → P.ReadsAs [[dash, letter], value] (.valued v value)
  /-- `-l=value`; the sign is not part of the value. -/
  reads_short_equals {v : Valued} {letter : UInt8} (value : Bytes) :
    v.letter? = some letter → P.ReadsAs [dash :: letter :: equalsSign :: value] (.valued v value)
  /-- `-lvalue` -/
  reads_short_attached {v : Valued} {letter first : UInt8} (others : Bytes) :
    v.letter? = some letter → first ≠ equalsSign →
    P.ReadsAs [dash :: letter :: first :: others] (.valued v (first :: others))
  /-- An option that takes a value does not stand last without one. -/
  fails_without_value {v : Valued} (cs : List Choice) {argument : Bytes} :
    argument = long v.name ∨ (∃ letter, v.letter? = some letter ∧ argument = [dash, letter]) →
    Fails (P.takeIn cs [argument])
  /-- It does not stand before an argument that looks like an option, either. -/
  fails_before_option {v : Valued} (cs : List Choice) {argument next : Bytes}
    (rest : List Bytes) :
    argument = long v.name ∨ (∃ letter, v.letter? = some letter ∧ argument = [dash, letter]) →
    ¬ IsValue next → Fails (P.takeIn cs (argument :: next :: rest))
  /-- A flag takes no value. -/
  fails_flag_with_value (f : Flag) (cs : List Choice) (value : Bytes) (rest : List Bytes) :
    Fails (P.takeIn cs ((long f.name ++ equalsSign :: value) :: rest))
  /-- Help is shown as soon as it is asked for. -/
  help (cs : List Choice) (rest : List Bytes) :
    P.takeIn cs (long Named.help.name :: rest) = .error .help
  /-- Whatever follows the letter for help. -/
  help_short {letter : UInt8} (cs : List Choice) (letters : Bytes) (rest : List Bytes) :
    Named.help.letter? = some letter →
    P.takeIn cs ((dash :: letter :: letters) :: rest) = .error .help
  /-- Help takes no value. -/
  fails_help_with_value (cs : List Choice) (value : Bytes) (rest : List Bytes) :
    Fails (P.takeIn cs ((long Named.help.name ++ equalsSign :: value) :: rest))
  /-- All other arguments are unknown; names are not abbreviated. -/
  fails_undeclared (cs : List Choice) {argument : Bytes} (rest : List Bytes) :
    ¬ IsDeclared argument → Fails (P.takeIn cs (argument :: rest))
  /-- An option is not given without the flag that it requires. -/
  fails_required {cs : List Choice} {v : Valued} {value : Bytes} {f : Flag} :
    Choice.valued v value ∈ cs → v.requires? = some f → Choice.flag f ∉ cs → Fails (P.finish cs)
  /-- Nothing else is asked of the choices together. -/
  exists_finish {cs : List Choice} :
    (∀ v value f, Choice.valued v value ∈ cs → v.requires? = some f → Choice.flag f ∈ cs) →
    ∃ found, P.finish cs = .ok found
  flag_iff {cs : List Choice} {found : Matches} (f : Flag) :
    P.finish cs = .ok found → (found.flag f = true ↔ Choice.flag f ∈ cs)
  /-- What is found is what was given. -/
  values_of_given {cs : List Choice} {found : Matches} {v : Valued} :
    P.finish cs = .ok found → values v cs ≠ [] → found.values v = values v cs
  /-- Where nothing was given, it is the default, if there is one. -/
  values_of_default {cs : List Choice} {found : Matches} {v : Valued} :
    P.finish cs = .ok found → values v cs = [] →
    found.values v = v.default?.toList.map Text.encode
  exitCode_help : P.exitCode .help = 0
  exitCode_error {usage : Usage} : usage ≠ .help → P.exitCode usage = 2
  /-- Errors are not shown on the standard output. -/
  printed_error {usage : Usage} : usage ≠ .help → P.printed usage = []

end Parser

end NodeHeader.CommandLine
