/-
  The options of the program, and how they are written.

  An option is a flag, or it takes a value. What is declared of each stands here: its
  name, the letter that some have, what its values are, whether it may be given more
  than once, the value that holds if none is given, and the flag that it depends on.

  An option is written `--name`, or with its letter `-l`. A value may be attached, as
  `--name=value`, `-lvalue` or `-l=value`; otherwise it is the next argument. Which
  choices arguments make is up to the parser.
-/
import NodeHeader.Text.Utf8

namespace NodeHeader.CommandLine

open NodeHeader.Text (Bytes)

/-! ### What is declared -/

/-- An option that takes a value. -/
inductive Valued where
  | defs
  | out
  | base
  | namespaceName
  | addInclude
  | title
  | copyright
  | description
  | since
  | visitorReturn
deriving DecidableEq, Repr

/-- An option that takes none. -/
inductive Flag where
  | stdout
  | visitor
deriving DecidableEq, Repr

/-- The name of a flag. -/
def Flag.name : Flag → String
  | stdout => "stdout"
  | visitor => "visitor"

/-- What the values of an option are. -/
inductive Kind where
  | path
  | text
deriving DecidableEq, Repr

namespace Valued

/-- The name of an option with a value. -/
def name : Valued → String
  | defs => "defs"
  | out => "out"
  | base => "base"
  | namespaceName => "namespace"
  | addInclude => "include"
  | title => "title"
  | copyright => "copyright"
  | description => "description"
  | since => "since"
  | visitorReturn => "visitor-return"

/-- The letter that an option has, too. -/
def letter? : Valued → Option UInt8
  | out => some 0x6F
  | defs | base | namespaceName | addInclude | title | copyright | description | since
  | visitorReturn => none

/-- What the values of an option are. -/
def kind : Valued → Kind
  | defs | out => .path
  | base | namespaceName | addInclude | title | copyright | description | since
  | visitorReturn => .text

/-- Whether an option collects its values. -/
def isRepeatable : Valued → Bool
  | addInclude => true
  | defs | out | base | namespaceName | title | copyright | description | since
  | visitorReturn => false

/-- The value that holds if none is given. -/
def default? : Valued → Option String
  | out => some "Expr.h"
  | base => some "Expr"
  | namespaceName => some "dargon"
  | visitorReturn => some "void"
  | defs | addInclude | title | copyright | description | since => none

/-- The flag without which an option must not be given. -/
def requires? : Valued → Option Flag
  | visitorReturn => some .visitor
  | defs | out | base | namespaceName | addInclude | title | copyright | description
  | since => none

/-- Whether an option accepts a value: a path must not be empty, and a text has to be one. -/
def Accepts (v : Valued) (value : Bytes) : Prop :=
  match v.kind with
  | .path => value ≠ []
  | .text => ∃ text, value = Text.encode text

end Valued

/-- What has a name on the command line. Besides the options this is help. -/
inductive Named where
  | help
  | flag (flag : Flag)
  | valued (valued : Valued)
deriving DecidableEq, Repr

namespace Named

/-- The name of an option or of help. -/
def name : Named → String
  | help => "help"
  | flag f => f.name
  | valued v => v.name

/-- The letter that it has, too. -/
def letter? : Named → Option UInt8
  | help => some 0x68
  | flag _ => none
  | valued v => v.letter?

end Named

/-! ### Choices -/

/-- A choice that is made on the command line. -/
inductive Choice where
  | flag (flag : Flag)
  /-- An option with its value. -/
  | valued (valued : Valued) (value : Bytes)
deriving DecidableEq, Repr

/-- The value that a choice gives to an option. -/
def Choice.value? (v : Valued) : Choice → Option Bytes
  | .flag _ => none
  | .valued v' value => if v' = v then some value else none

/-- The values that are given to an option, in order. -/
def values (v : Valued) (cs : List Choice) : List Bytes :=
  cs.filterMap (Choice.value? v)

/-! ### How they are written -/

/-- The byte of a dash. -/
def dash : UInt8 := 0x2D

/-- The byte between a name and the value attached to it. -/
def equalsSign : UInt8 := 0x3D

/-- The mark after which there are no options. -/
def mark : Bytes := [dash, dash]

/-- A name as an argument. -/
def long (name : String) : Bytes :=
  dash :: dash :: Text.encode name

/-- Whether an argument may be the value of the option before it: it does not start with a dash,
or is a dash alone. -/
def IsValue (argument : Bytes) : Prop :=
  argument.head? ≠ some dash ∨ argument = [dash]

instance (argument : Bytes) : Decidable (IsValue argument) :=
  inferInstanceAs (Decidable (_ ∨ _))

/-- The arguments that are written like something which has a name, or are the mark. -/
inductive IsDeclared : Bytes → Prop
  | mark : IsDeclared mark
  | long (named : Named) : IsDeclared (long named.name)
  | longWithValue (named : Named) (value : Bytes) :
    IsDeclared (long named.name ++ equalsSign :: value)
  | short {named : Named} {letter : UInt8} (h : named.letter? = some letter) (rest : Bytes) :
    IsDeclared (dash :: letter :: rest)

end NodeHeader.CommandLine
