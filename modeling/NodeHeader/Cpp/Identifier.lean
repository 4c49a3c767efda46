/-
  Names and type references of C++.

  A name is an identifier that is no reserved word. A type reference is looser:
  it may carry scope qualifiers, declarator punctuation and brackets, but no
  white space and no comma, so that it stays one word of a definition.
-/

namespace NodeHeader.Cpp

/-- The reserved words of C++20, with the alternative spellings of operators. -/
def keywords : List String :=
  ["alignas", "alignof", "and", "and_eq", "asm", "auto", "bitand", "bitor", "bool", "break",
   "case", "catch", "char", "char8_t", "char16_t", "char32_t", "class", "co_await", "co_return",
   "co_yield", "compl", "concept", "const", "const_cast", "consteval", "constexpr", "constinit",
   "continue", "decltype", "default", "delete", "do", "double", "dynamic_cast", "else", "enum",
   "explicit", "export", "extern", "false", "float", "for", "friend", "goto", "if", "inline",
   "int", "long", "mutable", "namespace", "new", "noexcept", "not", "not_eq", "nullptr",
   "operator", "or", "or_eq", "private", "protected", "public", "register", "reinterpret_cast",
   "requires", "return", "short", "signed", "sizeof", "static", "static_assert", "static_cast",
   "struct", "switch", "template", "this", "thread_local", "throw", "true", "try", "typedef",
   "typeid", "typename", "union", "unsigned", "using", "virtual", "void", "volatile", "wchar_t",
   "while", "xor", "xor_eq"]

/-- Whether a name is a reserved word. -/
def isKeyword (name : String) : Bool :=
  keywords.contains name

/-! ### Characters -/

/-- Whether an identifier may start with the character. -/
def startsIdentifier (c : Char) : Bool :=
  c = '_' || c.isAlpha

/-- Whether the character may stand inside an identifier. -/
def isIdentifierChar (c : Char) : Bool :=
  c = '_' || c.isAlphanum

/-- Whether a type reference may start with the character. -/
def startsTypeName (c : Char) : Bool :=
  c = '_' || c = ':' || c.isAlpha

/-- Whether the character may stand inside a type reference. -/
def isTypeChar (c : Char) : Bool :=
  c.isAlphanum || "_:*&<>[]".toList.contains c

/-! ### Names and types -/

/-- Whether a text is an identifier and no reserved word. Letters and digits are those of
ASCII. -/
def isIdentifier (name : String) : Bool :=
  match name.toList with
  | [] => false
  | first :: rest => startsIdentifier first && rest.all isIdentifierChar && !isKeyword name

/-- Whether a text is acceptable as a type reference. -/
def isTypeName (typeName : String) : Bool :=
  match typeName.toList with
  | [] => false
  | first :: rest => startsTypeName first && (first :: rest).all isTypeChar

end NodeHeader.Cpp
