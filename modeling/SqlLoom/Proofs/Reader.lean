/-
  Reading a condition back.

  `readCondition` reads the text of a condition as a tree, the way SQL does: NOT binds tighter than
  AND, and AND tighter than OR.  It has three stages.

  1. `lex`       — characters to tokens, with texts and names closed.
  2. `lexemes`   — letters and digits in a row become a word; a keyword is a word, in small letters or
                   in capitals, and never a part of one.
  3. `run`       — one lexeme after the other, with a stack of the round brackets that are open.

  What the third stage knows is a `Reading`: the open groups, what the innermost one has so far, and
  its place.  Where an operand is expected, `(` opens a group and NOT negates what follows; anything
  else starts a LEAF.  A leaf is read up to the next AND, OR or `)` that is its own — round brackets
  belong to the leaf with all that is in them, BETWEEN takes the next AND with it, and so do the NOTs
  of NOT IN and IS NOT NULL, which stand inside, and of NOT EXISTS, which starts a leaf.  The text of
  a leaf has no blanks at its end.

  A leaf has no end of its own; it is over when something else begins.  So most lemmas are about
  `Reading.settled`, the reading with its last leaf closed.
-/
import SqlLoom.Proofs.Token
import SqlLoom.Proofs.Tree

namespace SqlLoom

/-! ## Lexemes -/

/-- A token, or a word of several. -/
inductive Lexeme where
  | text (content : String)
  | name (identifier : String)
  | word (letters : List Char)
  | mark (c : Char)
  deriving DecidableEq, Repr

/-- The characters of words. -/
def isWordChar (c : Char) : Bool :=
  c.isAlphanum || c == '_'

namespace Lexeme

/-- A letter in front of lexemes: it joins the word that it stands in front of. -/
def consLetter (c : Char) : List Lexeme → List Lexeme
  | .word letters :: rest => .word (c :: letters) :: rest
  | xs => .word [c] :: xs

/-- A token in front of lexemes. -/
def cons (t : Token) (xs : List Lexeme) : List Lexeme :=
  match t with
  | .text content => .text content :: xs
  | .name identifier => .name identifier :: xs
  | .char c => if isWordChar c then consLetter c xs else .mark c :: xs

/-- Whether the lexeme is a keyword, given in capitals. -/
def means (keyword : String) : Lexeme → Bool
  | .word letters => letters.map Char.toUpper == keyword.toList
  | _ => false

/-- The characters that a lexeme is written with. -/
def chars : Lexeme → List Char
  | .text content => (Token.text content).chars
  | .name identifier => (Token.name identifier).chars
  | .word letters => letters
  | .mark c => [c]

end Lexeme

/-- The lexemes of tokens. -/
def lexemes (ts : List Token) : List Lexeme :=
  ts.foldr Lexeme.cons []

/-! ## The reader -/

/-- What a group has so far: the operands of OR that are complete, and the operands of the AND that
    is being read. -/
structure Group where
  alternatives : List Tree := []
  operands : List Tree := []

namespace Group

/-- The group with one operand more. -/
def add (g : Group) (t : Tree) : Group :=
  { g with operands := g.operands ++ [t] }

/-- The group behind an OR. -/
def next (g : Group) : Group :=
  ⟨g.alternatives ++ [.conjunction g.operands], []⟩

/-- The tree of the whole group. -/
def tree (g : Group) : Tree :=
  .disjunction (g.alternatives ++ [.conjunction g.operands])

end Group

/-- Where in a group the reader is.  `nots` counts the NOTs in front of the operand. -/
inductive Place where
  /-- an operand is expected -/
  | operand (nots : Nat)
  /-- a NOT was read, which belongs to the leaf if EXISTS follows -/
  | negation (nots : Nat) (sofar : List Lexeme)
  /-- inside a leaf, with the depth of its brackets and whether an AND of BETWEEN is awaited -/
  | leaf (nots : Nat) (sofar : List Lexeme) (depth : Nat) (bounds : Bool)
  /-- an operand is complete -/
  | complete

/-- All that the reader knows: the groups around this one, each with the NOTs in front of this one,
    the group and the place in it. -/
structure Reading where
  outer : List (Nat × Group)
  group : Group
  place : Place

/-- The tree under several NOTs. -/
def negated : Nat → Tree → Tree
  | 0, t => t
  | nots + 1, t => .not (negated nots t)

/-- Characters without the blanks at the end. -/
def trimmed (cs : List Char) : List Char :=
  (cs.reverse.dropWhile (· = ' ')).reverse

/-- The text of a leaf. -/
def leafText (xs : List Lexeme) : String :=
  String.ofList (trimmed (xs.flatMap Lexeme.chars))

namespace Reading

/-- The reading with its last leaf closed, if it is one that may be. -/
def settled (r : Reading) : Option Reading :=
  match r.place with
  | .complete => some r
  | .leaf nots sofar 0 false =>
    some ⟨r.outer, r.group.add (negated nots (.leaf (leafText sofar))), .complete⟩
  | _ => none

/-- Behind a complete operand: a connective, or the end of the group. -/
def connect (r : Reading) (x : Lexeme) : Option Reading :=
  if x = .mark ' ' then some r
  else if x.means "AND" then some { r with place := .operand 0 }
  else if x.means "OR" then some { r with group := r.group.next, place := .operand 0 }
  else if x = .mark ')' then
    match r.outer with
    | [] => none
    | (nots, group) :: outer => some ⟨outer, group.add (negated nots r.group.tree), .complete⟩
  else none

/-- Inside a leaf. -/
def stepLeaf (r : Reading) (nots : Nat) (sofar : List Lexeme) (depth : Nat) (bounds : Bool)
    (x : Lexeme) : Option Reading :=
  if x = .mark '(' then some { r with place := .leaf nots (sofar ++ [x]) (depth + 1) bounds }
  else if 0 < depth then
    let depth := if x = .mark ')' then depth - 1 else depth
    some { r with place := .leaf nots (sofar ++ [x]) depth bounds }
  else if x.means "BETWEEN" then some { r with place := .leaf nots (sofar ++ [x]) 0 true }
  else if x.means "AND" && bounds then some { r with place := .leaf nots (sofar ++ [x]) 0 false }
  else if x.means "AND" || x.means "OR" || decide (x = .mark ')') then r.settled.bind (·.connect x)
  else some { r with place := .leaf nots (sofar ++ [x]) 0 bounds }

/-- Where an operand is expected. -/
def stepOperand (r : Reading) (nots : Nat) (x : Lexeme) : Option Reading :=
  if x = .mark ' ' then some { r with place := .operand nots }
  else if x = .mark '(' then some ⟨(nots, r.group) :: r.outer, {}, .operand 0⟩
  else if x.means "NOT" then some { r with place := .negation nots [x] }
  else r.stepLeaf nots [] 0 false x

/-- One lexeme. -/
def step (r : Reading) (x : Lexeme) : Option Reading :=
  match r.place with
  | .operand nots => r.stepOperand nots x
  | .negation nots sofar =>
    if x = .mark ' ' then some { r with place := .negation nots (sofar ++ [x]) }
    else if x.means "EXISTS" then some { r with place := .leaf nots (sofar ++ [x]) 0 false }
    else r.stepOperand (nots + 1) x
  | .leaf nots sofar depth bounds => r.stepLeaf nots sofar depth bounds x
  | .complete => r.connect x

/-- Several lexemes. -/
def run : List Lexeme → Reading → Option Reading
  | [], r => some r
  | x :: xs, r => (r.step x).bind (run xs)

/-- The tree, when everything is read. -/
def finish (r : Reading) : Option Tree :=
  match r.outer with
  | [] => some r.group.tree
  | _ => none

end Reading

/-- Reads a condition. -/
def readCondition (cs : List Char) : Option Tree := do
  let ts ← lex cs
  let r ← Reading.run (lexemes ts) ⟨[], {}, .operand 0⟩
  let r ← r.settled
  r.finish

example : readCondition "a = 1 AND b BETWEEN 2 AND 3 OR NOT (c IN (4, 5))".toList
    = some (.or [.and [.leaf "a = 1", .leaf "b BETWEEN 2 AND 3"], .not (.leaf "c IN (4, 5)")]) := by
  rfl
example : readCondition "NOT EXISTS (SELECT 1 OR 2) AND 'it''s OR' = \x60x OR y\x60".toList
    = some (.and [.leaf "NOT EXISTS (SELECT 1 OR 2)", .leaf "'it''s OR' = \x60x OR y\x60"]) := by
  rfl
example : readCondition "(a OR b".toList = none := by rfl

end SqlLoom
