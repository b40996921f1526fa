/-
  Reading SQL text as tokens.

  `lex` reads characters from left to right.  Between single quotes it reads a TEXT, in which `''`
  stands for one quote and a backslash for itself; between backticks a NAME, in which a backslash
  takes the next character as it is; any other character is a token of its own.

  `firstToken` reads one token and leaves the rest as it is, whatever that may be; `lex` reads token
  after token (`run_of_first`).

  1. Pieces that keep two rules — code holds no quote and no backtick, and no two texts are
     neighbours — are read back exactly (`Sql.lex_chars`).  The second rule is needed because a text
     is only over when the character behind it is no quote.
  2. Both rules pass to concatenations (`Sql.Lexable.append`), so that they can be proved for SQL
     part by part.
-/
import Mathlib.Data.List.Chain
import SqlLoom.Sql

namespace SqlLoom

/-- A token of SQL, with its quotes taken off. -/
inductive Token where
  | text (content : String)
  | name (identifier : String)
  | char (c : Char)
  deriving DecidableEq, Repr

/-! ## The lexer -/

namespace Lexer

/-- Where the lexer is: outside of quotes, or inside with what it has read so far.  `quoted` stands
    behind a quote inside a text, which ends the text unless another quote follows. -/
inductive Mode where
  | plain
  | text (sofar : List Char)
  | quoted (sofar : List Char)
  | name (sofar : List Char)
  | escaped (sofar : List Char)

/-- The mode and the tokens that one character leads to. -/
def step : Mode → Char → Mode × List Token
  | .plain, c =>
    if c = '\'' then (.text [], [])
    else if c = '\x60' then (.name [], [])
    else (.plain, [.char c])
  | .text sofar, c => if c = '\'' then (.quoted sofar, []) else (.text (sofar ++ [c]), [])
  | .quoted sofar, c =>
    if c = '\'' then (.text (sofar ++ [c]), [])
    else if c = '\x60' then (.name [], [.text (String.ofList sofar)])
    else (.plain, [.text (String.ofList sofar), .char c])
  | .name sofar, c =>
    if c = '\x60' then (.plain, [.name (String.ofList sofar)])
    else if c = '\\' then (.escaped sofar, [])
    else (.name (sofar ++ [c]), [])
  | .escaped sofar, c => (.name (sofar ++ [c]), [])

/-- The tokens that are left at the end; inside of quotes there is no end. -/
def finish : Mode → Option (List Token)
  | .plain => some []
  | .quoted sofar => some [.text (String.ofList sofar)]
  | _ => none

/-- The tokens of the characters, read from a mode on. -/
def run : Mode → List Char → Option (List Token)
  | mode, [] => finish mode
  | mode, c :: rest => (run (step mode c).1 rest).map ((step mode c).2 ++ ·)

end Lexer

/-- The tokens of a text, if all its quotes are closed. -/
def lex (cs : List Char) : Option (List Token) :=
  Lexer.run .plain cs

/-- The first token that is read from a mode on, and what is left behind it. -/
def Lexer.first : Mode → List Char → Option (Token × List Char)
  | .quoted sofar, [] => some (.text (String.ofList sofar), [])
  | _, [] => none
  | .quoted sofar, c :: rest =>
    if c = '\'' then first (.text (sofar ++ [c])) rest
    else some (.text (String.ofList sofar), c :: rest)
  | mode, c :: rest =>
    match step mode c with
    | (next, []) => first next rest
    | (_, t :: _) => some (t, rest)

/-- The first token of a text, and what is left behind it. -/
def firstToken (cs : List Char) : Option (Token × List Char) :=
  Lexer.first .plain cs

example : lex "a='it''s'".toList = some [.char 'a', .char '=', .text "it's"] := by decide
example : lex "\x60a\\\x60b\x60".toList = some [.name "a\x60b"] := by decide
example : lex "'open".toList = none := by decide

/-! ## Tokens of pieces -/

/-- The tokens that a piece stands for. -/
def Piece.tokens : Piece → List Token
  | .code source => source.toList.map .char
  | .name identifier => [.name identifier]
  | .text content => [.text content]
  | .verbatim source => source.toList.map .char

/-- The tokens that SQL stands for. -/
def Sql.tokens (sql : Sql) : List Token :=
  sql.flatMap Piece.tokens

@[simp] theorem Sql.tokens_nil : tokens [] = [] := rfl

@[simp] theorem Sql.tokens_cons (p : Piece) (sql : Sql) :
    tokens (p :: sql) = p.tokens ++ tokens sql := rfl

@[simp] theorem Sql.tokens_append (a b : Sql) : tokens (a ++ b) = tokens a ++ tokens b :=
  List.flatMap_append

/-- The characters that a token is written with. -/
def Token.chars : Token → List Char
  | .text content => (Piece.text content).chars
  | .name identifier => (Piece.name identifier).chars
  | .char c => [c]

/-- Nothing is lost between pieces and tokens. -/
theorem Piece.chars_tokens (p : Piece) : p.tokens.flatMap Token.chars = p.chars := by
  have hchars : ∀ cs : List Char, (cs.map Token.char).flatMap Token.chars = cs := by
    intro cs
    rw [List.flatMap_map]
    exact List.flatMap_singleton' cs
  cases p with
  | code source => exact hchars source.toList
  | name identifier => exact List.append_nil _
  | text content => exact List.append_nil _
  | verbatim source => exact hchars source.toList

theorem Sql.chars_tokens (sql : Sql) : sql.tokens.flatMap Token.chars = sql.chars := by
  induction sql with
  | nil => rfl
  | cons p sql ih =>
    rw [tokens_cons, List.flatMap_append, ih, Piece.chars_tokens, chars_cons]

/-! ## Reading one token -/

namespace Lexer

/-- A quote inside a text that no quote follows was its end. -/
theorem run_quoted {sofar rest : List Char} (h : rest.head? ≠ some '\'') :
    run (.quoted sofar) rest
      = (run .plain rest).map (Token.text (String.ofList sofar) :: ·) := by
  cases rest with
  | nil => rfl
  | cons c rest =>
    have hc : c ≠ '\'' := fun hc => h (by rw [hc]; rfl)
    by_cases htick : c = '\x60'
    · subst htick
      simp [run, step]
    · simp [run, step, hc, htick, Function.comp_def]

/-- Behind the first token, reading goes on as from the start. -/
theorem run_of_first {mode : Mode} {cs rest : List Char} {t : Token}
    (h : first mode cs = some (t, rest)) : run mode cs = (run .plain rest).map (t :: ·) := by
  induction cs generalizing mode with
  | nil =>
    cases mode with
    | quoted sofar =>
      obtain ⟨rfl, rfl⟩ := Prod.mk.inj (Option.some.inj h)
      rfl
    | plain => exact nomatch h
    | text sofar => exact nomatch h
    | name sofar => exact nomatch h
    | escaped sofar => exact nomatch h
  | cons c cs ih =>
    -- a step without a token leads to the mode that the first one is read from
    have hsilent {next : Mode} (hstep : step mode c = (next, []))
        (hnext : first next cs = some (t, rest)) :
        run mode (c :: cs) = (run .plain rest).map (t :: ·) := by
      rw [run, hstep, ih hnext]
      exact Option.map_id'
    have hsingle {u : Token} (hstep : step mode c = (.plain, [u]))
        (hfirst : some (u, cs) = some (t, rest)) :
        run mode (c :: cs) = (run .plain rest).map (t :: ·) := by
      obtain ⟨rfl, rfl⟩ := Prod.mk.inj (Option.some.inj hfirst)
      rw [run, hstep]
      rfl
    cases mode with
    | plain =>
      by_cases hquote : c = '\''
      · subst hquote
        exact hsilent rfl h
      · by_cases htick : c = '\x60'
        · subst htick
          exact hsilent rfl h
        · have hstep : step .plain c = (.plain, [.char c]) := by simp [step, hquote, htick]
          simp only [first, hstep] at h
          exact hsingle hstep h
    | text sofar =>
      by_cases hquote : c = '\''
      · subst hquote
        exact hsilent rfl h
      · have hstep : step (.text sofar) c = (.text (sofar ++ [c]), []) := by simp [step, hquote]
        simp only [first, hstep] at h
        exact hsilent hstep h
    | quoted sofar =>
      by_cases hquote : c = '\''
      · subst hquote
        exact hsilent rfl h
      · rw [first, if_neg hquote] at h
        obtain ⟨rfl, rfl⟩ := Prod.mk.inj (Option.some.inj h)
        exact run_quoted fun hc => hquote (Option.some.inj hc)
    | name sofar =>
      by_cases htick : c = '\x60'
      · subst htick
        exact hsingle rfl h
      · by_cases hslash : c = '\\'
        · subst hslash
          exact hsilent rfl h
        · have hstep : step (.name sofar) c = (.name (sofar ++ [c]), []) := by
            simp [step, htick, hslash]
          simp only [first, hstep] at h
          exact hsilent hstep h
    | escaped sofar => exact hsilent rfl h

/-- Inside a text, the body of a literal is read up to its last quote. -/
theorem first_doubleQuotes (content sofar rest : List Char) :
    first (.text sofar) (doubleQuotes content ++ '\'' :: rest)
      = first (.quoted (sofar ++ content)) rest := by
  induction content generalizing sofar with
  | nil => simp [doubleQuotes, first, step]
  | cons c content ih =>
    -- a doubled quote passes through the state `quoted` and back
    by_cases hc : c = '\''
    · subst hc
      simp [doubleQuotes, first, step, ih]
    · simp [doubleQuotes, first, step, hc, ih]

theorem first_quoted {sofar rest : List Char} (h : rest.head? ≠ some '\'') :
    first (.quoted sofar) rest = some (.text (String.ofList sofar), rest) := by
  cases rest with
  | nil => rfl
  | cons c rest =>
    have hc : c ≠ '\'' := fun hc => h (by rw [hc]; rfl)
    rw [first, if_neg hc]

/-- Inside a name, the escaped body is read up to the backtick behind it. -/
theorem first_escapeName (identifier sofar rest : List Char) :
    first (.name sofar) (escapeName identifier ++ '\x60' :: rest)
      = some (.name (String.ofList (sofar ++ identifier)), rest) := by
  induction identifier generalizing sofar with
  | nil => simp [escapeName, first, step]
  | cons c identifier ih =>
    by_cases hc : c = '\x60' ∨ c = '\\'
    · simp [escapeName, first, step, hc, ih]
    · obtain ⟨htick, hslash⟩ := not_or.mp hc
      simp [escapeName, first, step, htick, hslash, ih]

theorem run_escapeName (identifier sofar rest : List Char) :
    run (.name sofar) (escapeName identifier ++ '\x60' :: rest)
      = (run .plain rest).map (Token.name (String.ofList (sofar ++ identifier)) :: ·) :=
  run_of_first (first_escapeName identifier sofar rest)

/-- Characters without a quote or a backtick are tokens of their own. -/
theorem run_plain {cs : List Char} (h : ∀ c ∈ cs, c ≠ '\'' ∧ c ≠ '\x60') (rest : List Char) :
    run .plain (cs ++ rest) = (run .plain rest).map (cs.map Token.char ++ ·) := by
  induction cs with
  | nil => simp
  | cons c cs ih =>
    obtain ⟨⟨hquote, htick⟩, hcs⟩ := List.forall_mem_cons.mp h
    simp [run, step, hquote, htick, ih hcs, Function.comp_def]

end Lexer

theorem firstToken_char {c : Char} (hquote : c ≠ '\'') (htick : c ≠ '\x60') (rest : List Char) :
    firstToken (c :: rest) = some (.char c, rest) := by
  simp [firstToken, Lexer.first, Lexer.step, hquote, htick]

/-- Behind a text there must be no quote, which would be taken for half of a doubled one. -/
theorem firstToken_text (content : String) {rest : List Char} (h : rest.head? ≠ some '\'') :
    firstToken ((Piece.text content).chars ++ rest) = some (.text content, rest) := by
  rw [Piece.chars, List.cons_append, List.append_assoc, List.singleton_append]
  simp [firstToken, Lexer.first, Lexer.step, Lexer.first_doubleQuotes, Lexer.first_quoted h]

/-- A name is over at its last backtick, whatever follows. -/
theorem firstToken_name (identifier : String) (rest : List Char) :
    firstToken ((Piece.name identifier).chars ++ rest) = some (.name identifier, rest) := by
  rw [Piece.chars, List.cons_append, List.append_assoc, List.singleton_append]
  simp [firstToken, Lexer.first, Lexer.step, Lexer.first_escapeName]

/-! ## Reading SQL -/

namespace Piece

/-- A piece that can be read back.  Code is not empty and opens no quotes. -/
def Lexes : Piece → Prop
  | .code source => source ≠ "" ∧ ∀ c ∈ source.toList, c ≠ '\'' ∧ c ≠ '\x60'
  | .name _ => True
  | .text _ => True
  | .verbatim _ => False

-- the characters are gone through one by one; the instance found by itself goes through all there are
instance : DecidablePred Lexes
  | .code source => @instDecidableAnd _ _ inferInstance (List.decidableBAll _ source.toList)
  | .name _ => isTrue trivial
  | .text _ => isTrue trivial
  | .verbatim _ => isFalse id

/-- Whether the piece is a text. -/
def isText : Piece → Bool
  | .text _ => true
  | _ => false

/-- Two pieces that may be neighbours. -/
def Apart (p q : Piece) : Prop :=
  p.isText = false ∨ q.isText = false

/-- Only a text starts with a quote. -/
theorem head?_chars_ne {p : Piece} (h : p.Lexes) (htext : p.isText = false) (rest : List Char) :
    (p.chars ++ rest).head? ≠ some '\'' := by
  cases p with
  | code source =>
    obtain ⟨hne, hchars⟩ := h
    cases hsource : source.toList with
    | nil => exact absurd (String.toList_eq_nil_iff.mp hsource) hne
    | cons c cs =>
      rw [hsource] at hchars
      simp [chars, hsource, (hchars c List.mem_cons_self).1]
  | name identifier => simp [chars]
  | text content => exact nomatch htext
  | verbatim source => exact h.elim

/-- A piece is read as its tokens; behind a text there must be no quote, which would be taken for a
    doubled one. -/
theorem run_chars {p : Piece} (h : p.Lexes) {rest : List Char}
    (hrest : p.isText = true → rest.head? ≠ some '\'') :
    Lexer.run .plain (p.chars ++ rest) = (Lexer.run .plain rest).map (p.tokens ++ ·) := by
  cases p with
  | code source => exact Lexer.run_plain h.2 rest
  | name identifier => exact Lexer.run_of_first (firstToken_name identifier rest)
  | text content => exact Lexer.run_of_first (firstToken_text content (hrest rfl))
  | verbatim source => exact h.elim

end Piece

namespace Sql

/-- SQL that can be read back. -/
def Lexable (sql : Sql) : Prop :=
  (∀ p ∈ sql, p.Lexes) ∧ sql.IsChain Piece.Apart

/-- Behind a text, no quote follows. -/
theorem head?_chars_ne {sql : Sql} (h : sql.Lexable) (htext : ∀ p ∈ sql.head?, p.isText = false) :
    sql.chars.head? ≠ some '\'' := by
  cases sql with
  | nil => exact nofun
  | cons p sql =>
    exact Piece.head?_chars_ne (h.1 p List.mem_cons_self) (htext p rfl) (chars sql)

/-- **SQL is read back as the tokens that its pieces stand for.** -/
theorem lex_chars {sql : Sql} (h : sql.Lexable) : lex sql.chars = some sql.tokens := by
  induction sql with
  | nil => rfl
  | cons p sql ih =>
    obtain ⟨hp, hpieces⟩ := List.forall_mem_cons.mp h.1
    obtain ⟨hapart, hchain⟩ := List.isChain_cons.mp h.2
    have hrest : Lexer.run .plain (chars sql) = some (tokens sql) := ih ⟨hpieces, hchain⟩
    have hhead : p.isText = true → (chars sql).head? ≠ some '\'' := by
      refine fun htext => head?_chars_ne ⟨hpieces, hchain⟩ fun q hq => ?_
      exact (hapart q hq).resolve_left (by rw [htext]; exact Bool.true_eq_false.mp)
    rw [chars_cons, tokens_cons, lex, Piece.run_chars hp hhead, hrest]
    rfl

end Sql

end SqlLoom
