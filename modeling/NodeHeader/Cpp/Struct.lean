/-
  Structs of C++ and how they are written.

  A struct is data: a name, a type it derives from, and its members in order.
  `Struct.lines` writes it, one member after another and each on lines of its own,
  so that what a header declares can be read off the data as well as off the text.
-/

namespace NodeHeader.Cpp

/-- One level of indentation inside a struct. -/
def indent : String := "    "

/-- A parameter of a function: a type and a name. -/
structure Parameter where
  typeName : String
  name : String
deriving DecidableEq, Repr

/-- A parameter as it is written. -/
def Parameter.text (p : Parameter) : String :=
  p.typeName ++ " " ++ p.name

/-- A member of a struct. -/
inductive Member where
  /-- A field that is set once. -/
  | field (typeName name : String)
  /-- A constructor that sets the field of each parameter's name to the parameter. -/
  | constructor (struct : String) (parameters : List Parameter)
  /-- A virtual destructor that does nothing. -/
  | destructor (struct : String)
  /-- A method that deriving structs have to define. -/
  | pureMethod (returnType name : String) (parameter : Parameter)
  /-- A definition of an inherited method, with a body of one statement. -/
  | override (returnType name : String) (parameter : Parameter) (statement : String)
deriving DecidableEq, Repr

namespace Member

/-- Texts as a list within a line. -/
def commaSeparated (texts : List String) : String :=
  ", ".intercalate texts

/-- The lines of a member. -/
def lines : Member → List String
  | field typeName name => [indent ++ "const " ++ typeName ++ " " ++ name ++ ";"]
  | constructor struct parameters =>
    [indent ++ struct ++ "(" ++ commaSeparated (parameters.map Parameter.text) ++ ")",
     indent ++ ": " ++
       commaSeparated (parameters.map fun p => p.name ++ "(" ++ p.name ++ ")") ++ "\x7b\x7d"]
  | destructor struct => [indent ++ "virtual ~" ++ struct ++ "() \x7b\x7d"]
  | pureMethod returnType name parameter =>
    [indent ++ "virtual " ++ returnType ++ " " ++ name ++ "(" ++ parameter.text ++ ") = 0;"]
  | override returnType name parameter statement =>
    [indent ++ returnType ++ " " ++ name ++ "(" ++ parameter.text ++ ") override \x7b",
     indent ++ indent ++ statement,
     indent ++ "\x7d"]

/-- The name that a member declares. Constructors and destructors declare none of their
own. -/
def declaredName? : Member → Option String
  | field _ name => some name
  | constructor .. => none
  | destructor .. => none
  | pureMethod _ name _ => some name
  | override _ name _ _ => some name

end Member

/-- A struct. -/
structure Struct where
  /-- What the comment before it says in brief, if there is one. -/
  brief : Option String := none
  name : String
  /-- The type it derives from, if any. -/
  parent : Option String := none
  members : List Member := []
deriving DecidableEq, Repr

namespace Struct

/-- The comment before a struct. -/
def comment (s : Struct) : List String :=
  match s.brief with
  | none => []
  | some brief => ["/**", " * @brief " ++ brief, " */"]

/-- The line that opens the body of a struct, and the label of its members if it derives
from another type. -/
def heading (s : Struct) : List String :=
  match s.parent with
  | none => ["struct " ++ s.name ++ " \x7b"]
  | some parent => ["struct " ++ s.name ++ " : public " ++ parent ++ " \x7b", "public:"]

/-- The lines of a struct. One without a parent and without members stands on one line. -/
def lines (s : Struct) : List String :=
  s.comment ++
    if s.parent.isNone && s.members.isEmpty then ["struct " ++ s.name ++ " \x7b \x7d;"]
    else s.heading ++ s.members.flatMap Member.lines ++ ["\x7d;"]

/-- The line that announces a struct without describing it. -/
def forward (name : String) : String :=
  "struct " ++ name ++ ";"

/-- The names that the members of a struct declare, in order. -/
def declaredNames (s : Struct) : List String :=
  s.members.filterMap Member.declaredName?

end Struct

end NodeHeader.Cpp
