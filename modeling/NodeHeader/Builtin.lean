/-
  The built-in definitions: the expression tree of the Dargon language, for which
  a header is written if no definitions are given.
-/
import NodeHeader.Header.Generation

namespace NodeHeader.Builtin

/-- The entries of the expression nodes, in order. -/
def entries : List String :=
  ["Binary: Expr* left, Token op, Expr* right",
   "Grouping: Expr* expression",
   "Literal: std::string value",
   "Unary: Token op, Expr* right"]

/-- The headers that the expression nodes need. -/
def includes : List String :=
  ["<string>", "\"../lex/Token.h\""]

/-- The settings of the expression header. -/
def settings : Settings where
  base := "Expr"
  namespaceName := "dargon"
  includes := includes

/-- The table of the expression nodes. -/
def table : Traced DefinitionError Table :=
  Table.ofList entries

end NodeHeader.Builtin
