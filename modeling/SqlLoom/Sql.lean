/-
  SQL text as a list of PIECES.

  A statement is not built as a bare string.  Every part of it is one of four kinds of piece, and
  the kind says where the characters come from:

  * `code`     — words, numbers and punctuation that the library writes itself;
  * `name`     — an identifier, written between backticks;
  * `text`     — a string literal, written between single quotes;
  * `verbatim` — a fragment that the caller asked to be passed through unchanged.

  `Sql.text` is the only place where pieces become characters.  Quoting is therefore a property of
  the piece and not of the clause that contains it.
-/

namespace SqlLoom

/-- One lexical part of a statement. -/
inductive Piece where
  | code (source : String)
  | name (identifier : String)
  | text (content : String)
  | verbatim (source : String)
  deriving DecidableEq, Repr

/-- A statement, or a part of one. -/
abbrev Sql := List Piece

/-! ## Escaping -/

/-- Inside a string literal a single quote is written twice; nothing else changes. -/
def doubleQuotes : List Char → List Char
  | [] => []
  | c :: rest => if c = '\'' then '\'' :: '\'' :: doubleQuotes rest else c :: doubleQuotes rest

/-- Inside a backticked name a backtick or a backslash is written after a backslash. -/
def escapeName : List Char → List Char
  | [] => []
  | c :: rest =>
    if c = '\x60' ∨ c = '\\' then '\\' :: c :: escapeName rest else c :: escapeName rest

/-- The body of the string literal for `s`, without the quotes around it. -/
def escapeText (s : String) : String :=
  String.ofList (doubleQuotes s.toList)

/-! ## From pieces to characters -/

/-- The characters of one piece. -/
def Piece.chars : Piece → List Char
  | .code source => source.toList
  | .name identifier => '\x60' :: (escapeName identifier.toList ++ ['\x60'])
  | .text content => '\'' :: (doubleQuotes content.toList ++ ['\''])
  | .verbatim source => source.toList

namespace Sql

/-- The characters of a statement, piece after piece. -/
def chars (sql : Sql) : List Char :=
  sql.flatMap Piece.chars

/-- The statement as it is sent to the server. -/
def text (sql : Sql) : String :=
  String.ofList sql.chars

/-- Text that the library writes itself. -/
def code (source : String) : Sql :=
  [.code source]

/-- The parts one after the other, with `separator` between neighbours. -/
def joined (separator : String) (parts : List Sql) : Sql :=
  List.intercalate (code separator) parts

/-- The statement between round brackets. -/
def inParens (sql : Sql) : Sql :=
  code "(" ++ sql ++ code ")"

/-! The view `chars` turns concatenation of statements into concatenation of characters. -/

@[simp] theorem chars_nil : chars [] = [] := rfl

@[simp] theorem chars_cons (p : Piece) (sql : Sql) : chars (p :: sql) = p.chars ++ chars sql := rfl

@[simp] theorem chars_append (a b : Sql) : chars (a ++ b) = chars a ++ chars b :=
  List.flatMap_append

end Sql

/-- The string literal for `s`. -/
def quoteText (s : String) : String :=
  Sql.text [.text s]

end SqlLoom
