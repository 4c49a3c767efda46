/-
  A parser of command lines.

  `Parser.standard` keeps the rules of `Parser.Lawful`, and says of each error what it is.
  Arguments are read from left to right, and the first problem is the answer. One rule is
  less plain: when the value of an option is the next argument, it is judged only after
  the argument that follows it has been recognised. If that argument is unknown, or is a
  flag with a value attached, that is the problem which is shown.
-/
import NodeHeader.CommandLine.Parser

namespace NodeHeader.CommandLine

open NodeHeader.Text (Bytes)

/-! ### Arguments one by one -/

/-- What has a name, by its name. -/
def names : List (String × Named) :=
  ([.help, .flag .stdout, .flag .visitor, .valued .defs, .valued .out, .valued .base,
    .valued .namespaceName, .valued .addInclude, .valued .title, .valued .copyright,
    .valued .description, .valued .since, .valued .visitorReturn] : List Named).map
    fun named => (named.name, named)

/-- What an argument is. -/
inductive Argument where
  | help
  /-- An option that takes no value. -/
  | flag (flag : Flag)
  /-- An option that takes no value, with one attached. -/
  | overloaded
  /-- An option whose value is the next argument. -/
  | valued (valued : Valued)
  /-- An option with its value attached. -/
  | attached (valued : Valued) (value : Bytes)
  /-- The mark after which there are no options. -/
  | endOfOptions
  /-- Something written like an option that is none. -/
  | unknown
  /-- Something not written like an option. -/
  | plain
deriving DecidableEq, Repr

namespace Argument

/-- What the text after two dashes is, cut at its first equals sign. -/
def ofLong (text : Bytes) : Argument :=
  let name := text.takeWhile (· ≠ equalsSign)
  let named := (Text.decode? name).bind fun text => List.lookup text names
  match named, text.dropWhile (· ≠ equalsSign) with
  | none, _ => .unknown
  | some .help, [] => .help
  | some .help, _ :: _ => .overloaded
  | some (.flag f), [] => .flag f
  | some (.flag _), _ :: _ => .overloaded
  | some (.valued v), [] => .valued v
  | some (.valued v), _ :: value => .attached v value

/-- What the text after one dash is. Help is asked for whatever follows it. -/
def ofShort (letter : UInt8) (rest : Bytes) : Argument :=
  if Named.help.letter? = some letter then .help
  else if Valued.out.letter? = some letter then
    match rest with
    | [] => .valued .out
    | b :: value => if b = equalsSign then .attached .out value else .attached .out (b :: value)
  else .unknown

/-- What an argument is. -/
def ofBytes : Bytes → Argument
  | [] | [_] => .plain
  | b :: c :: rest =>
    if b = dash then
      if c = dash then if rest.isEmpty then .endOfOptions else ofLong rest
      else ofShort c rest
    else .plain

end Argument

/-! ### Taking them in -/

namespace Parser.Standard

/-- Makes a choice after others. -/
def choose (cs : List Choice) (c : Choice) : Except Usage (List Choice) :=
  match c with
  | .flag _ => if c ∈ cs then .error .argumentConflict else .ok (cs ++ [c])
  | .valued v value =>
    if v.isRepeatable = false ∧ values v cs ≠ [] then .error .argumentConflict
    else
      match v.kind with
      | .path => if value.isEmpty then .error .invalidValue else .ok (cs ++ [c])
      | .text => if (Text.decode? value).isNone then .error .invalidUtf8 else .ok (cs ++ [c])

/-- The problem of the next argument, if it cannot be right whatever stands before it. -/
def rejection? : List Bytes → Option Usage
  | [] => none
  | argument :: rest =>
    match Argument.ofBytes argument with
    | .unknown | .plain => some .unknownArgument
    | .overloaded => some .tooManyValues
    | .endOfOptions => if rest.isEmpty then none else some .unknownArgument
    | .help | .flag _ | .valued _ | .attached .. => none

/-- Takes in arguments from left to right. -/
def takeIn (cs : List Choice) : List Bytes → Except Usage (List Choice)
  | [] => .ok cs
  | argument :: rest =>
    match Argument.ofBytes argument with
    | .help => .error .help
    | .unknown | .plain => .error .unknownArgument
    | .overloaded => .error .tooManyValues
    | .endOfOptions => if rest.isEmpty then .ok cs else .error .unknownArgument
    | .flag f => do
      let cs' ← choose cs (.flag f)
      takeIn cs' rest
    | .attached v value => do
      let cs' ← choose cs (.valued v value)
      takeIn cs' rest
    | .valued v =>
      match rest with
      | [] => .error .invalidValue
      | value :: rest' =>
        if Argument.ofBytes value = .plain then do
          let cs' ← (choose cs (.valued v value)).mapError fun usage =>
            (rejection? rest').getD usage
          takeIn cs' rest'
        else .error ((rejection? rest).getD .invalidValue)

/-- Whether a choice is made without the flag that it requires. -/
def lacksFlag (cs : List Choice) : Choice → Bool
  | .flag _ => false
  | .valued v _ => v.requires?.any fun f => Choice.flag f ∉ cs

/-- The values of an option, or its default if none is given. -/
def valuesOrDefault (cs : List Choice) (v : Valued) : List Bytes :=
  if values v cs = [] then v.default?.toList.map Text.encode else values v cs

/-- What is found among choices. -/
def finish (cs : List Choice) : Except Usage Matches :=
  if cs.any (lacksFlag cs) then .error .missingRequiredArgument
  else .ok ⟨fun f => Choice.flag f ∈ cs, valuesOrDefault cs⟩

end Parser.Standard

/-- The exit code with which usage is shown. -/
def Usage.exitCode : Usage → Nat
  | help => 0
  | unknownArgument | tooManyValues | argumentConflict | invalidValue | invalidUtf8
  | missingRequiredArgument => 2

/-- The parser that takes in arguments one by one. What it shows of usage is not told. -/
def Parser.standard : Parser where
  takeIn := Standard.takeIn
  finish := Standard.finish
  exitCode := Usage.exitCode
  printed _ := []

end NodeHeader.CommandLine
