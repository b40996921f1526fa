/-
  Every test is a leaf.

  What is written for a test starts with a word, a name or a number, keeps its keywords inside round
  brackets or inside the test, and does not end with a blank.  So the reader takes all of it, and
  nothing else, as one leaf (`Predicate.adds_compare`), whatever balanced SQL is put in the place of
  the fragments in its brackets.

  The parts of a test are of two kinds.  Names and literals are made of characters that form no
  keyword and no bracket at all (`isQuietChar`).  Lists, subqueries and lambdas stand in brackets,
  and there it is enough that the brackets are balanced.
-/
import SqlLoom.Proofs.Reading
import SqlLoom.Proofs.Written.WellFormed

namespace SqlLoom

open Outcome
open Sql (code Adds Balanced IsSeam)

/-! ## Quiet characters -/

/-- A character that no bracket is, and none of the letters that every keyword has one of. -/
def isQuietChar (c : Char) : Bool :=
  !("BDO".toList.contains c.toUpper) && c != '(' && c != ')'

/-- A word in which a letter is missing is not the keyword. -/
theorem Lexeme.not_means {keyword : String} {d : Char} (hd : d ∈ keyword.toList) {x : Lexeme}
    (h : x.MadeOf (fun c => c.toUpper ≠ d)) : x.means keyword = false := by
  cases x with
  | word letters =>
    by_contra hmeans
    have heq : letters.map Char.toUpper = keyword.toList := by
      simpa [means] using hmeans
    rw [← heq, List.mem_map] at hd
    obtain ⟨c, hc, hupper⟩ := hd
    exact h c hc hupper
  | text content => rfl
  | name identifier => rfl
  | mark c => rfl

theorem Lexeme.MadeOf.imp {good fine : Char → Prop} (h : ∀ c, good c → fine c) {x : Lexeme}
    (hx : x.MadeOf good) : x.MadeOf fine := by
  cases x with
  | word letters => exact fun c hc => h c (hx c hc)
  | text content => trivial
  | name identifier => trivial
  | mark c => exact h c hx

theorem isQuietChar_iff {c : Char} : isQuietChar c = true ↔
    (c.toUpper ≠ 'B' ∧ c.toUpper ≠ 'D' ∧ c.toUpper ≠ 'O') ∧ c ≠ '(' ∧ c ≠ ')' := by
  simp [isQuietChar, and_assoc]

/-- Quiet characters make mild lexemes. -/
theorem Lexeme.isMild_of_quiet {x : Lexeme} (h : x.MadeOf (isQuietChar · = true)) :
    x.isMild = true := by
  have hbetween : x.means "BETWEEN" = false :=
    not_means (d := 'B') (by decide) (h.imp fun _ hc => (isQuietChar_iff.mp hc).1.1)
  have hand : x.means "AND" = false :=
    not_means (d := 'D') (by decide) (h.imp fun _ hc => (isQuietChar_iff.mp hc).1.2.1)
  have hor : x.means "OR" = false :=
    not_means (d := 'O') (by decide) (h.imp fun _ hc => (isQuietChar_iff.mp hc).1.2.2)
  have hbracket : x ≠ .mark '(' ∧ x ≠ .mark ')' := by
    constructor
    · rintro rfl
      exact (isQuietChar_iff.mp h).2.1 rfl
    · rintro rfl
      exact (isQuietChar_iff.mp h).2.2 rfl
  simp [isMild, hbetween, hand, hor, hbracket.1, hbracket.2]

/-- Digits have no capitals. -/
theorem toUpper_of_isDigit {c : Char} (h : c.isDigit = true) : c.toUpper = c := by
  have hle : c.val ≤ '9'.val := by
    simp only [Char.isDigit, Bool.and_eq_true, decide_eq_true_eq] at h
    exact h.2
  unfold Char.toUpper
  rw [dif_neg]
  rintro ⟨hlow, -⟩
  exact absurd (UInt32.le_trans hlow hle) (by decide)

theorem isQuietChar_of_isDigit {c : Char} (h : c.isDigit = true) : isQuietChar c = true := by
  have hother : ∀ d : Char, d.isDigit = false → c ≠ d := by
    rintro d hd rfl
    exact Bool.false_ne_true (hd.symm.trans h)
  refine isQuietChar_iff.mpr ⟨?_, hother _ rfl, hother _ rfl⟩
  rw [toUpper_of_isDigit h]
  exact ⟨hother _ rfl, hother _ rfl, hother _ rfl⟩

theorem isQuietChar_of_isLiteralChar {c : Char} (h : isLiteralChar c = true) :
    isQuietChar c = true := by
  have hword : ∀ d ∈ "NULLtruefalse[]\x7b\x7d:, ".toList, isQuietChar d = true :=
    List.all_eq_true.mp (by decide)
  rw [isLiteralChar, isNumberChar, Bool.or_eq_true] at h
  rcases h with h | h
  · simp only [Bool.or_eq_true, beq_iff_eq] at h
    rcases h with (((h | rfl) | rfl) | rfl) | rfl
    · exact isQuietChar_of_isDigit h
    all_goals decide
  · exact hword c (List.contains_iff_mem.mp h)

namespace Sql

/-- The pieces of literals make mild lexemes. -/
theorem isMild_of_isLiteral {sql : Sql} (h : ∀ p ∈ sql, p.IsLiteral) :
    ∀ x ∈ sql.lexemes, x.isMild = true := by
  have hchars : ∀ c, Token.char c ∈ sql.tokens → isQuietChar c = true := by
    intro c hc
    obtain ⟨p, hp, hc⟩ := List.mem_flatMap.mp hc
    have hliteral := h p hp
    cases p with
    | code s =>
      obtain ⟨d, hd, heq⟩ := List.mem_map.mp hc
      obtain rfl := Token.char.inj heq
      exact isQuietChar_of_isLiteralChar (hliteral.2 d hd)
    | text content => exact nomatch List.mem_singleton.mp hc
    | name identifier => exact hliteral.elim
    | verbatim source => exact hliteral.elim
  exact fun x hx => Lexeme.isMild_of_quiet (madeOf_of_mem_lexemes hchars x hx)

/-! ## Ends of leaves -/

/-- SQL that does not end with a blank. -/
def Tight (sql : Sql) : Prop :=
  sql.chars.getLast?.any (· ≠ ' ') = true

theorem tight_of_chars {sql : Sql} (front : List Char) {c : Char} (h : sql.chars = front ++ [c])
    (hc : c ≠ ' ') : Tight sql := by
  rw [Tight, h, List.getLast?_concat]
  simpa using hc

theorem Tight.append {b : Sql} (h : Tight b) (a : Sql) : Tight (a ++ b) := by
  have hlast : (chars b).getLast?.any (· ≠ ' ') = true := h
  show (chars (a ++ b)).getLast?.any (· ≠ ' ') = true
  rw [chars_append, List.getLast?_append]
  cases hb : (chars b).getLast? with
  | none =>
    rw [hb] at hlast
    exact nomatch hlast
  | some c =>
    rw [hb] at hlast
    exact hlast

theorem chars_code (s : String) : chars (code s) = s.toList :=
  List.append_nil _

theorem tight_code {s : String} (h : s.toList.getLast?.any (· ≠ ' ') = true) : Tight (code s) := by
  rw [Tight, chars_code]
  exact h

theorem tight_inParens (a : Sql) : Tight (inParens a) :=
  (tight_code (s := ")") rfl).append _

theorem tight_text (s : String) : Tight [.text s] :=
  tight_of_chars ('\'' :: doubleQuotes s.toList) (List.append_nil _) (by decide)

theorem tight_name (s : String) : Tight [.name s] :=
  tight_of_chars ('\x60' :: escapeName s.toList) (List.append_nil _) (by decide)

/-- Numbers do not end with a blank. -/
theorem tight_number {s : String} (h : IsNumberText s.toList) : Tight (code s) := by
  rcases List.eq_nil_or_concat' s.toList with hs | ⟨cs, c, hs⟩
  · exact absurd hs h.1
  · have hc : isNumberChar c = true := h.2 c (by rw [hs]; exact List.mem_concat_self)
    refine tight_of_chars cs ((chars_code s).trans hs) ?_
    rintro rfl
    exact absurd hc (by decide)

end Sql

open Sql (Tight)

theorem Value.tight_literal (v : Value) : Tight v.literal := by
  cases v with
  | null => exact Sql.tight_code rfl
  | bool b => cases b <;> exact Sql.tight_code rfl
  | int n => exact Sql.tight_number (isNumberText_decimalInt _)
  | float x =>
    show Tight x.literal
    unfold Binary64.literal
    split
    · exact Sql.tight_code rfl
    · exact Sql.tight_text _
    · refine Sql.tight_number ?_
      rw [String.toList_ofList]
      exact isNumberText_literalDigits _ _ _
  | text s => exact Sql.tight_text s
  | instant t => exact Sql.tight_text _
  | array items =>
    rw [Value.literal]
    exact (Sql.tight_code rfl).append _
  | map entries =>
    rw [Value.literal]
    exact (Sql.tight_code rfl).append _

/-! ## Leaves -/

namespace Sql

/-- SQL that a leaf takes whatever it awaits. -/
def Inner (sql : Sql) : Prop :=
  Lexeme.depthAfterAll 0 sql.lexemes = some 0

/-- SQL that starts a leaf and does not end it. -/
def Opens (sql : Sql) : Prop :=
  ∀ outer group, Reading.run sql.lexemes ⟨outer, group, .operand 0⟩
    = some ⟨outer, group, .leaf 0 sql.lexemes 0 false⟩

theorem inner_of_isMild {sql : Sql} (h : ∀ x ∈ sql.lexemes, x.isMild = true) : Inner sql :=
  Lexeme.depthAfterAll_of_isMild h 0

theorem inner_inParens {a : Sql} (h : Balanced a) : Inner (inParens a) :=
  depthAfterAll_inParens h 0

/-- A leaf that is open stays open behind SQL that it takes. -/
theorem Opens.append {a b : Sql} (ha : Opens a) (hb : Inner b)
    (hseam : (a ++ b).lexemes = a.lexemes ++ b.lexemes) : Opens (a ++ b) := by
  intro outer group
  rw [hseam, Reading.run_append, ha, Option.bind_some]
  exact Reading.run_leaf hb

/-- An open leaf, a connecting word of the test, and what the test is about. -/
theorem Opens.between {a b : Sql} {s : String} (ha : Opens a) (hseam : IsSeam s)
    (hs : ∀ x ∈ (code s).lexemes, x.isMild = true) (hb : Inner b) : Opens (a ++ code s ++ b) := by
  have hfirst : Opens (a ++ code s) :=
    ha.append (inner_of_isMild hs) (lexemes_append_code hseam a)
  refine hfirst.append hb ?_
  rw [lexemes_between hseam, lexemes_append_code hseam]

/-- BETWEEN waits for one AND and takes it. -/
theorem Opens.bounds {a low high : Sql} (ha : Opens a) (hlow : Inner low) (hhigh : Inner high) :
    Opens (a ++ code " BETWEEN " ++ (low ++ code " AND " ++ high)) := by
  intro outer group
  -- up to the AND the leaf is the same but for the AND that it waits for
  have hwait : ∀ sofar, Reading.run (code " BETWEEN ").lexemes ⟨outer, group, .leaf 0 sofar 0 false⟩
      = some ⟨outer, group, .leaf 0 (sofar ++ (code " BETWEEN ").lexemes) 0 true⟩ := by
    intro sofar
    show some _ = some _
    simp only [List.append_assoc]
    rfl
  have hfound : ∀ sofar, Reading.run (code " AND ").lexemes ⟨outer, group, .leaf 0 sofar 0 true⟩
      = some ⟨outer, group, .leaf 0 (sofar ++ (code " AND ").lexemes) 0 false⟩ := by
    intro sofar
    show some _ = some _
    simp only [List.append_assoc]
    rfl
  rw [lexemes_between (by decide), lexemes_between (by decide), Reading.run_append,
    Reading.run_append, ha, Option.bind_some, hwait, Option.bind_some, Reading.run_append,
    Reading.run_append, Reading.run_leaf hlow, Option.bind_some, hfound, Option.bind_some,
    Reading.run_leaf hhigh]
  simp only [List.append_assoc]

/-- Without blanks at the end there is nothing to trim. -/
theorem trimmed_chars {sql : Sql} (h : Tight sql) : trimmed sql.chars = sql.chars := by
  rcases List.eq_nil_or_concat' sql.chars with hnil | ⟨cs, c, hcs⟩
  · rw [hnil]
    rfl
  · have hc : c ≠ ' ' := by
      rw [Tight, hcs, List.getLast?_concat] at h
      simpa using h
    rw [hcs, trimmed, List.reverse_append, List.reverse_singleton, List.singleton_append,
      List.dropWhile_cons_of_neg (by simpa using hc), List.reverse_cons, List.reverse_reverse]

theorem chars_lexemes (sql : Sql) : sql.lexemes.flatMap Lexeme.chars = sql.chars := by
  rw [lexemes, SqlLoom.chars_lexemes, chars_tokens]

/-- SQL that opens a leaf and does not end with a blank is a leaf. -/
theorem Opens.adds {sql : Sql} (h : Opens sql) (htight : Tight sql) :
    Adds sql [.leaf sql.text] := by
  intro outer group
  refine ⟨_, h outer group, ?_⟩
  have htext : leafText sql.lexemes = sql.text := by
    rw [leafText, chars_lexemes, trimmed_chars htight, text]
  show some _ = _
  rw [htext]
  rfl

end Sql

open Sql (Inner Opens)

/-! ## The left side -/

namespace Lexeme

/-- A lexeme that starts a leaf. -/
def starts (x : Lexeme) : Bool :=
  x.isMild && decide (x ≠ .mark ' ') && !x.means "NOT"

theorem step_of_starts {x : Lexeme} (h : x.starts = true) (outer : List (Nat × Group))
    (group : Group) :
    Reading.step ⟨outer, group, .operand 0⟩ x = some ⟨outer, group, .leaf 0 [x] 0 false⟩ := by
  simp only [starts, isMild, Bool.and_eq_true, Bool.not_eq_true', Bool.or_eq_false_iff,
    decide_eq_true_eq] at h
  obtain ⟨⟨⟨⟨⟨⟨hbetween, hand⟩, hor⟩, hopen⟩, hclose⟩, hblank⟩, hnot⟩ := h
  show Reading.stepOperand _ 0 x = _
  rw [Reading.stepOperand, if_neg hblank, if_neg hopen, hnot]
  simp [Reading.stepLeaf, hbetween, hand, hor, hopen, hclose]

end Lexeme

theorem Sql.opens_of_starts {sql : Sql} {x : Lexeme} {xs : List Lexeme}
    (hsql : sql.lexemes = x :: xs) (hx : x.starts = true) (hxs : ∀ y ∈ xs, y.isMild = true) :
    Opens sql := by
  intro outer group
  rw [hsql, Reading.run, Lexeme.step_of_starts hx, Option.bind_some]
  exact Reading.run_leaf (Lexeme.depthAfterAll_of_isMild hxs 0)

/-- Numbers are words and points. -/
theorem Sql.opens_number {s : String} (h : IsNumberText s.toList) : Opens (code s) := by
  have hchars : ∀ c, Token.char c ∈ (code s).tokens → isNumberChar c = true := by
    intro c hc
    rw [tokens_code] at hc
    obtain ⟨d, hd, heq⟩ := List.mem_map.mp hc
    obtain rfl := Token.char.inj heq
    exact h.2 d hd
  have hmade := madeOf_of_mem_lexemes hchars
  have hliteral : ∀ c, isNumberChar c = true → isQuietChar c = true := by
    intro c hc
    refine isQuietChar_of_isLiteralChar ?_
    rw [isLiteralChar, hc]
    rfl
  have hmild : ∀ x ∈ (code s).lexemes, x.isMild = true :=
    fun x hx => Lexeme.isMild_of_quiet ((hmade x hx).imp hliteral)
  -- the first lexeme starts the leaf, so it takes more than to be mild
  cases hlexemes : (code s).lexemes with
  | nil =>
    have hempty := chars_lexemes (code s)
    rw [hlexemes, chars_code] at hempty
    exact absurd hempty.symm h.1
  | cons x xs =>
    rw [hlexemes] at hmild
    obtain ⟨hx, hxs⟩ := List.forall_mem_cons.mp hmild
    have hfirst : x.MadeOf (isNumberChar · = true) := by
      refine hmade x ?_
      show x ∈ (code s).lexemes
      rw [hlexemes]
      exact List.mem_cons_self
    have hblank : x ≠ .mark ' ' := by
      rintro rfl
      have hnumber : isNumberChar ' ' = true := hfirst
      exact absurd hnumber (by decide)
    have hnot : x.means "NOT" = false :=
      Lexeme.not_means (d := 'O') (by decide) (hfirst.imp fun c hc =>
        (isQuietChar_iff.mp (hliteral c hc)).1.2.2)
    refine opens_of_starts hlexemes ?_ hxs
    rw [Lexeme.starts, hx, hnot]
    simpa using hblank

theorem NameWrites.opens {s : String} {sql : Sql} (h : NameWrites .condition s sql) :
    Opens sql := by
  cases h.shape with
  | plain hplain =>
    rcases hplain with rfl | hnumber
    · exact Sql.opens_of_starts (x := .mark '*') rfl (by decide) nofun
    · exact Sql.opens_number (isNumberText_of_isNumber hnumber)
  | quoted => exact Sql.opens_of_starts (x := .name s) rfl rfl nofun
  | expression hcontext _ => exact nomatch hcontext
  | qualified table column =>
    have hrest : ∀ y ∈ [Lexeme.mark '.', .name column], y.isMild = true := by
      intro y hy
      rcases List.mem_cons.mp hy with rfl | hy
      · rfl
      · rw [List.mem_singleton.mp hy]
        rfl
    exact Sql.opens_of_starts (x := .name table) rfl rfl hrest

/-- A column that is given is written as a name. -/
theorem Column.Sound.nameWrites {c : Column} (hc : c.Sound) {sql : Sql}
    (h : Statement.leftSql c.joined = .ok sql) : NameWrites .condition c.joined sql := by
  have hne : c.joined ≠ "" := by
    intro hempty
    unfold Column.joined at hempty
    split at hempty
    · exact hc.1 (String.append_eq_empty_iff.mp hempty).2
    · exact hc.1 hempty
  unfold Statement.leftSql at h
  split at h
  · rename_i hempty
    exact absurd (String.isEmpty_iff.mp hempty) hne
  · exact nameSql_eq_ok.mp h

/-- The column of a test that has a left side. -/
theorem Statement.opens_leftSql {c : Column} (hc : c.Sound) {sql : Sql}
    (h : leftSql c.joined = .ok sql) : Opens sql :=
  (hc.nameWrites h).opens

/-! ## The right side -/

theorem Value.inner_literal (v : Value) : Inner v.literal :=
  Sql.inner_of_isMild (Sql.isMild_of_isLiteral v.isLiteral_of_mem_literal)

theorem Value.inner_tupleLiteral (vs : List Value) : Inner (tupleLiteral vs) := by
  refine Sql.inner_inParens (Sql.wellFormed_joined (by decide) fun part hpart => ?_).balanced
  obtain ⟨v, -, rfl⟩ := List.mem_map.mp hpart
  exact wellFormed_literal v

/-- What may stand on the right side of a test: a leaf takes it, and it does not end with a
    blank. -/
structure Sql.Closes (sql : Sql) : Prop where
  inner : Inner sql
  tight : Tight sql

open Sql (Closes)

theorem Value.closes_literal (v : Value) : Closes v.literal :=
  ⟨v.inner_literal, v.tight_literal⟩

theorem Statement.closes_listSql (items : List Value) : Closes (listSql items) := by
  unfold listSql
  split
  · exact ⟨rfl, Sql.tight_code rfl⟩
  · exact ⟨Value.inner_tupleLiteral items, Sql.tight_inParens _⟩

theorem NameWrites.closes {s : String} {sql : Sql} (h : NameWrites .condition s sql) :
    Closes sql := by
  cases h.shape with
  | plain hplain =>
    rcases hplain with rfl | hnumber
    · exact ⟨rfl, Sql.tight_code rfl⟩
    · have htext := isNumberText_of_isNumber hnumber
      refine ⟨Sql.inner_of_isMild (Sql.isMild_of_isLiteral fun p hp => ?_), Sql.tight_number htext⟩
      rw [List.mem_singleton.mp hp, ← String.ofList_toList (s := s)]
      exact Piece.isLiteral_code_of_number htext
  | quoted => exact ⟨rfl, Sql.tight_name s⟩
  | expression hcontext _ => exact nomatch hcontext
  | qualified table column =>
    exact ⟨rfl, (Sql.tight_name column).append [.name table, .code "."]⟩

/-- All SQL of a node has balanced brackets when something is put in the place of the fragments. -/
def Node.Balanced (put : String → Sql) (n : Node) : Prop :=
  ∀ top sql, n.Writes top sql → Sql.Balanced (sql.replaced put)

section Replaced

variable (put : String → Sql)

theorem Expr.closes_operand {e : Expr} (h : ∀ n ∈ e.parts, n.Balanced put) {sql : Sql}
    (hsql : e.WritesOperand sql) : Closes (sql.replaced put) := by
  cases e with
  | column c =>
    have hname := writesOperand_column.mp hsql
    rw [Sql.replaced_of_lexable put (hname.wellFormed nofun).lexable]
    exact hname.closes
  | value v label =>
    rw [writesOperand_value.mp hsql, Sql.replaced_of_lexable put v.wellFormed_literal.lexable]
    exact v.closes_literal
  | array items label =>
    rw [writesOperand_array.mp hsql,
      Sql.replaced_of_lexable put (Statement.wellFormed_listSql items).lexable]
    exact Statement.closes_listSql items
  | tuple items label =>
    rw [writesOperand_tuple.mp hsql,
      Sql.replaced_of_lexable put (Statement.wellFormed_listSql items).lexable]
    exact Statement.closes_listSql items
  | subquery s =>
    obtain ⟨q, body, hq, hbody, rfl⟩ := writesOperand_subquery.mp hsql
    have hpart : Node.select q ∈ s.parts := by simp [Subquery.parts, hq]
    rw [Sql.replaced_inParens]
    exact ⟨Sql.inner_inParens (h _ hpart true body hbody), Sql.tight_inParens _⟩
  | raw text label => exact absurd hsql not_writesOperand_raw
  | call function args label => exact absurd hsql not_writesOperand_call
  | cases branches otherwise label => exact absurd hsql not_writesOperand_cases

/-! ## Tests -/

/-- Reading does not see how the characters are cut into pieces. -/
theorem Sql.Opens.congr {a b : Sql} (h : Opens a) (htokens : a.tokens = b.tokens) : Opens b := by
  have hlexemes : a.lexemes = b.lexemes := congrArg SqlLoom.lexemes htokens
  intro outer group
  rw [← hlexemes]
  exact h outer group

namespace Statement

/-- A test of elements is a word and brackets. -/
theorem opens_elementTestSql {function : String} (hf : function ∈ ["arrayExists", "arrayAll"])
    {left right : Sql} (hl : Balanced left) (hr : Balanced right) :
    Opens (elementTestSql function left right) := by
  -- the same characters as a word and one pair of brackets
  let body : Sql := [.name "i"] ++ code " -> (" ++ [.name "i"] ++ code " IN " ++ right
    ++ code "), " ++ left
  have hbody : Balanced body := by
    intro depth
    have hinner : depthAfter depth (code " -> (").tokens = some (depth + 1) := rfl
    have hin : depthAfter (depth + 1) (code " IN ").tokens = some (depth + 1) := rfl
    have hclose : depthAfter (depth + 1) (code "), ").tokens = some depth := rfl
    have hi : ∀ d, depthAfter d (Sql.tokens [.name "i"]) = some d := fun _ => rfl
    have hleft : ∀ d, depthAfter d left.tokens = some d := hl
    have hright : ∀ d, depthAfter d right.tokens = some d := hr
    simp only [body, Sql.tokens_append, depthAfter_append, hinner, hin, hclose, hi, hleft, hright,
      Option.bind_some]
  have hword : Opens (code function) := by
    rcases List.mem_pair.mp hf with rfl | rfl
    · exact Sql.opens_of_starts (x := .word "arrayExists".toList) rfl (by decide) nofun
    · exact Sql.opens_of_starts (x := .word "arrayAll".toList) rfl (by decide) nofun
  have hall : Opens (code function ++ body.inParens) :=
    hword.append (Sql.inner_inParens hbody) (Sql.lexemes_seam_head rfl)
  refine hall.congr ?_
  simp [elementTestSql, body, Sql.inParens, code, Piece.tokens]

/-- EXISTS opens a leaf, also behind a NOT. -/
theorem opens_leading {operator : String} (h : operator ∈ TestForm.leading.operators) :
    Opens (code (operator ++ " ")) := by
  rcases List.mem_pair.mp h with rfl | rfl
  · exact fun _ _ => rfl
  · exact fun _ _ => rfl

theorem adds_testSql {operator : String} {left right sql : Sql}
    (hleft : TestForm.ofOperator operator ≠ .leading → Opens left) (hl : Balanced left)
    (hr : Balanced right) (hclose : Closes right) (h : testSql operator left right = .ok sql) :
    Adds sql [.leaf sql.text] := by
  unfold testSql at h
  cases hform : TestForm.ofOperator operator with
  | middle =>
    rw [hform] at h
    obtain rfl := ok_eq_ok.mp h
    have hmem := TestForm.mem_of_ofOperator hform nofun
    -- the operators of a form are a short list
    have hseam : ∀ o ∈ TestForm.middle.operators, IsSeam (" " ++ o ++ " ") := by decide
    have hmild : ∀ o ∈ TestForm.middle.operators,
        ∀ x ∈ (code (" " ++ o ++ " ")).lexemes, x.isMild = true := by decide
    have hopens := hleft (by rw [hform]; exact nofun)
    exact (hopens.between (hseam _ hmem) (hmild _ hmem) hclose.inner).adds (hclose.tight.append _)
  | leading =>
    rw [hform] at h
    obtain rfl := ok_eq_ok.mp h
    have hmem := TestForm.mem_of_ofOperator hform nofun
    have hlast : ∀ o ∈ TestForm.leading.operators,
        (code (o ++ " ")).tokens.getLast?.any Token.isLetter = false := by decide
    have hleaf := (opens_leading hmem).append hclose.inner (Sql.lexemes_seam_last (hlast _ hmem))
    exact hleaf.adds (hclose.tight.append _)
  | someElement =>
    rw [hform] at h
    obtain rfl := ok_eq_ok.mp h
    exact (opens_elementTestSql (by decide) hl hr).adds ((Sql.tight_code rfl).append _)
  | everyElement =>
    rw [hform] at h
    obtain rfl := ok_eq_ok.mp h
    exact (opens_elementTestSql (by decide) hl hr).adds ((Sql.tight_code rfl).append _)
  | suffix => rw [hform] at h; exact nomatch h
  | bounds => rw [hform] at h; exact nomatch h
  | unknown => rw [hform] at h; exact nomatch h

end Statement

/-- Only tests that take no left side may do without one. -/
theorem Predicate.Sound.column {c : Column} {operator : String} {right : Expr}
    (h : (Predicate.compare (.column c) operator right).Sound)
    (hform : Statement.TestForm.ofOperator operator ≠ .leading) : c.Sound := by
  rcases h with ⟨-, hleading⟩ | hc
  · refine absurd ?_ hform
    rw [takesNoLeft, Bool.or_eq_true, beq_iff_eq, beq_iff_eq] at hleading
    rcases hleading with rfl | rfl
    · decide
    · decide
  · exact hc

/-- **A test is a leaf with its own text.** -/
theorem Predicate.adds_compare {left right : Expr} {operator : String}
    (hsound : (Predicate.compare left operator right).Sound)
    (hright : (Node.operand right).Balanced put) (hparts : ∀ n ∈ right.parts, n.Balanced put)
    {top : Bool} {sql : Sql} (h : (Predicate.compare left operator right).Writes top sql) :
    Adds (sql.replaced put) [.leaf (sql.replaced put).text] := by
  obtain ⟨c, leftPart, rfl, hleft, htest⟩ := writes_compare.mp h
  have hopens : Statement.TestForm.ofOperator operator ≠ .leading → Opens leftPart :=
    fun hform => Statement.opens_leftSql (hsound.column hform) hleft
  have hwell := Statement.wellFormed_leftSql hleft
  have hsame : leftPart.replaced put = leftPart := Sql.replaced_of_lexable put hwell.lexable
  unfold TestWrites at htest
  cases hform : Statement.TestForm.ofOperator operator with
  | suffix =>
    rw [hform] at htest
    obtain ⟨-, rfl⟩ := htest
    have hmem := Statement.TestForm.mem_of_ofOperator hform nofun
    have hhead : ∀ o ∈ Statement.TestForm.suffix.operators,
        (code (" " ++ o)).tokens.head?.any Token.isLetter = false := by decide
    have hmild : ∀ o ∈ Statement.TestForm.suffix.operators,
        ∀ x ∈ (code (" " ++ o)).lexemes, x.isMild = true := by decide
    have htight : ∀ o ∈ Statement.TestForm.suffix.operators,
        (" " ++ o).toList.getLast?.any (· ≠ ' ') = true := by decide
    have hleaf := (hopens (by rw [hform]; exact nofun)).append (Sql.inner_of_isMild (hmild _ hmem))
      (Sql.lexemes_seam_head (hhead _ hmem))
    rw [Sql.replaced_append, Sql.replaced_code, hsame]
    exact hleaf.adds ((Sql.tight_code (htight _ hmem)).append _)
  | bounds =>
    rw [hform] at htest
    obtain ⟨low, high, -, rfl⟩ := htest
    have hleaf := (hopens (by rw [hform]; exact nofun)).bounds low.inner_literal high.inner_literal
    have hliteral : ∀ v : Value, v.literal.replaced put = v.literal :=
      fun v => Sql.replaced_of_lexable put v.wellFormed_literal.lexable
    simp only [Sql.replaced_append, Sql.replaced_code, hsame, hliteral]
    exact hleaf.adds ((high.tight_literal.append _).append _)
  | _ =>
    rw [hform] at htest
    obtain ⟨operand, hoperand, hsql⟩ := htest
    exact Statement.adds_testSql hopens hwell.balanced (hright true operand hoperand)
      (Expr.closes_operand put hparts hoperand) (Statement.replaced_testSql put hwell hsql)

end Replaced

end SqlLoom
