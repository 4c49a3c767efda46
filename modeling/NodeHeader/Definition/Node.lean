/-
  Nodes and their fields.

  A node is a name with an ordered, non-empty list of fields, each a type and a
  name. Values of both types are well formed by construction: `Field.make` and
  `Node.make` are the only ways in from text, and each refuses with the first
  rule that is broken.

  The main facts are `firstRepeat?_eq_none_iff`, which makes the distinctness of
  field names a consequence of one pass over them, and the proof fields of
  `Field` and `Node`.
-/
import NodeHeader.Cpp.Identifier

namespace NodeHeader

/-- Why a field, a node or a collection of nodes is not well formed. -/
inductive DeclarationError where
  | noFields (node : String)
  /-- A name that is no identifier, and what it was to name. -/
  | badName (role name : String)
  /-- A type that is no type reference, and the field that it was for. -/
  | badType (field typeName : String)
  /-- A field name that an earlier field of the node has. -/
  | repeatedField (node field : String)
  /-- A node name that an earlier node has. -/
  | repeatedNode (name : String)
deriving DecidableEq, Repr

/-- The wording of a broken rule. -/
def DeclarationError.message : DeclarationError → String
  | noFields node => "node '" ++ node ++ "' declares no fields"
  | badName role name => "invalid " ++ role ++ " name '" ++ name ++ "'"
  | badType field typeName => "invalid type '" ++ typeName ++ "' for field '" ++ field ++ "'"
  | repeatedField node field => "duplicate field '" ++ field ++ "' in node '" ++ node ++ "'"
  | repeatedNode name => "duplicate node definition: '" ++ name ++ "'"

/-- Accepts a name that is an identifier, and gives the proof of that; the role says in the error
what it was to name. -/
def checkName (role name : String) :
    Except DeclarationError (PLift (Cpp.isIdentifier name = true)) :=
  if h : Cpp.isIdentifier name = true then .ok ⟨h⟩ else .error (.badName role name)

theorem checkName_of_isIdentifier (role : String) {name : String}
    (h : Cpp.isIdentifier name = true) : checkName role name = .ok ⟨h⟩ :=
  dif_pos h

theorem checkName_of_not_isIdentifier (role : String) {name : String}
    (h : Cpp.isIdentifier name = false) : checkName role name = .error (.badName role name) :=
  dif_neg (Bool.eq_false_iff.1 h)

/-! ### Fields -/

/-- A field: a type reference and a name. -/
structure Field where
  typeName : String
  name : String
  isTypeName_typeName : Cpp.isTypeName typeName = true
  isIdentifier_name : Cpp.isIdentifier name = true
deriving DecidableEq

namespace Field

/-- The field of a type and a name. The name is judged before the type. -/
def make (typeName name : String) : Except DeclarationError Field := do
  let ⟨hn⟩ ← checkName "field" name
  if ht : Cpp.isTypeName typeName = true then
    return { typeName, name, isTypeName_typeName := ht, isIdentifier_name := hn }
  else .error (.badType name typeName)

/-- The field as it is written in a definition. -/
def text (f : Field) : String :=
  f.typeName ++ " " ++ f.name

end Field

/-! ### Repeated names -/

/-- The first element that was seen already or equals one before it. -/
def firstRepeat? {α : Type} [DecidableEq α] (seen : List α) : List α → Option α
  | [] => none
  | x :: rest => if x ∈ seen then some x else firstRepeat? (x :: seen) rest

/-- Nothing repeats exactly if no name occurs twice, or among those seen before. -/
theorem firstRepeat?_eq_none_iff {α : Type} [DecidableEq α] {seen xs : List α} :
    firstRepeat? seen xs = none ↔ xs.Nodup ∧ ∀ x ∈ xs, x ∉ seen := by
  induction xs generalizing seen with
  | nil => simp [firstRepeat?]
  | cons x rest ih =>
    by_cases h : x ∈ seen
    · simp [firstRepeat?, h]
    · simp only [firstRepeat?, h, if_false, ih, List.nodup_cons, List.mem_cons]
      grind

/-! ### Nodes -/

/-- A node: a name and its fields in declaration order. -/
structure Node where
  name : String
  fields : List Field
  isIdentifier_name : Cpp.isIdentifier name = true
  fields_ne_nil : fields ≠ []
  nodup_fields : (fields.map Field.name).Nodup
deriving DecidableEq

namespace Node

/-- The node of a name and its fields. The name is judged first, then the number of fields,
then their names. -/
def make (name : String) (fields : List Field) : Except DeclarationError Node := do
  let ⟨hn⟩ ← checkName "node" name
  if hf : fields = [] then .error (.noFields name)
  else
    match hr : firstRepeat? [] (fields.map Field.name) with
    | some field => .error (.repeatedField name field)
    | none =>
      return { name, fields, isIdentifier_name := hn, fields_ne_nil := hf,
               nodup_fields := (firstRepeat?_eq_none_iff.1 hr).1 }

/-- The node as an entry of a definition. -/
def text (n : Node) : String :=
  n.name ++ ": " ++ ", ".intercalate (n.fields.map Field.text)

end Node

end NodeHeader
