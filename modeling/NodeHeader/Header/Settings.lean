/-
  Settings of a header.

  Settings say for which base type, in which namespace and with which includes,
  comment and visitor a header is written. They hold any texts; `Settings.checks`
  lists what has to hold of each, in the order in which they are judged, and
  `Options` are settings of which all of it holds. `Settings.build` passes from
  one to the other and names the first setting that is not acceptable.

  Settings are put together by a sequence of changes, of which each replaces one
  part; only an added include builds on what was there.
-/
import NodeHeader.Cpp.Identifier
import NodeHeader.Header.Metadata

namespace NodeHeader

/-! ### Settings -/

/-- The visitor that nodes accept. -/
structure Visitor where
  /-- What `Accept` and every `Visit` method return. -/
  returnType : String := "void"
deriving DecidableEq, Repr

/-- Whether the visitor's methods return nothing. -/
def Visitor.returnsVoid (v : Visitor) : Bool :=
  v.returnType = "void"

/-- What a header is written with, not yet judged. -/
structure Settings where
  /-- The type that every node derives from. -/
  base : String := "Expr"
  /-- The namespace around the declarations; empty for none. -/
  namespaceName : String := "dargon"
  /-- The included headers in order, each with its quotes or angle brackets. -/
  includes : List String := ["<string>"]
  /-- What the comment at the top says. -/
  metadata : Metadata := {}
  /-- The visitor, if nodes accept one. -/
  visitor : Option Visitor := none
deriving DecidableEq, Repr

/-- One change of settings. -/
inductive Change where
  | base (name : String)
  | namespaceName (name : String)
  /-- Adds a header to the included ones. -/
  | addInclude (header : String)
  | includes (headers : List String)
  | metadata (metadata : Metadata)
  | visitor (visitor : Visitor)
deriving DecidableEq, Repr

namespace Settings

/-- The settings after a change. -/
def apply (s : Settings) : Change → Settings
  | .base name => { s with base := name }
  | .namespaceName name => { s with namespaceName := name }
  | .addInclude header => { s with includes := s.includes ++ [header] }
  | .includes headers => { s with includes := headers }
  | .metadata metadata => { s with metadata }
  | .visitor visitor => { s with visitor := some visitor }

/-- The settings after changes, the first of them first. -/
def applyAll (s : Settings) (changes : List Change) : Settings :=
  changes.foldl apply s

end Settings

/-! ### Judging settings -/

/-- What a setting is called when it is refused. -/
inductive SettingName where
  | base
  | namespaceName
  | header
  | title
  | copyright
  | fileName
  | description
  | version
  | visitorReturn
deriving DecidableEq, Repr

/-- The name of a setting as users know it. -/
def SettingName.label : SettingName → String
  | base => "base"
  | namespaceName => "namespace"
  | header => "include"
  | title => "title"
  | copyright => "copyright"
  | fileName => "file_name"
  | description => "description"
  | version => "version"
  | visitorReturn => "visitor_return"

/-- Something that has to hold of a setting: the value that is shown if it does not, and
whether it does. -/
structure Check where
  setting : SettingName
  value : String
  holds : Bool
deriving DecidableEq, Repr

/-- Whether a text begins and ends as a header in angle brackets or in quotes, with something
but no blank between. -/
def isInclude (header : String) : Bool :=
  let cs := header.toList
  let bracketed := cs.head? = some '<' && cs.getLast? = some '>'
  let quoted := cs.head? = some '"' && cs.getLast? = some '"'
  (bracketed || quoted) && cs.length > 2 && !cs.any Text.isBlank

/-- What has to hold of the comment's texts. -/
def Metadata.checks (m : Metadata) : List Check :=
  [⟨.title, m.title, fitsCommentLine m.title⟩,
   ⟨.copyright, m.copyright, fitsCommentLine m.copyright⟩,
   ⟨.fileName, m.fileName, fitsCommentLine m.fileName⟩,
   ⟨.description, m.description, fitsCommentLine m.description⟩,
   ⟨.version, m.version, fitsCommentLine m.version⟩]

namespace Settings

/-- What has to hold of settings, in the order in which it is judged. A file name of blanks
alone is shown as an empty one. -/
def checks (s : Settings) : List Check :=
  ⟨.base, s.base, Cpp.isIdentifier s.base⟩ ::
  ⟨.namespaceName, s.namespaceName,
    s.namespaceName.isEmpty || Cpp.isIdentifier s.namespaceName⟩ ::
  s.includes.map (fun header => ⟨.header, header, isInclude header⟩) ++
  s.metadata.checks ++
  ⟨.fileName, "", !isBlankText s.metadata.fileName⟩ ::
  s.visitor.toList.map fun v => ⟨.visitorReturn, v.returnType, Cpp.isTypeName v.returnType⟩

/-- The first check that fails. -/
def firstFailure? (s : Settings) : Option Check :=
  s.checks.find? (!·.holds)

end Settings

/-- Settings that are acceptable in every part. -/
structure Options extends Settings where
  holds_checks : ∀ c ∈ toSettings.checks, c.holds = true
deriving DecidableEq

namespace Settings

/-- The settings as options, or the first check that fails. -/
def build (s : Settings) : Except Check Options :=
  match h : s.firstFailure? with
  | some failure => .error failure
  | none =>
    .ok { toSettings := s
          holds_checks := fun c hc => by simpa using List.find?_eq_none.1 h c hc }

end Settings

/-- The settings that nothing was changed of are acceptable. -/
def Options.default : Options where
  toSettings := {}
  holds_checks := by decide

end NodeHeader
