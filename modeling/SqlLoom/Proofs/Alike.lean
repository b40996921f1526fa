/-
  SQL that is the same but for the contents of strings.

  Two pieces are twins when they are the same, or texts that `R` links, and two lists of pieces when
  their pieces are.  A text that is the same on both sides without being linked is a date or an
  infinity: no string is left out of the SQL and replaced by something else.

  Every way to put SQL together makes alike SQL from alike parts (`Sql.Twin.joined`,
  `Value.Twin.literal`, `Statement.twin_callSql`, …).
-/
import SqlLoom.Proofs.Literal
import SqlLoom.Proofs.Token
import SqlLoom.Proofs.Twin
import SqlLoom.Statement.ToSql

namespace SqlLoom

open Outcome
open Sql (code)

variable {R : String → String → Prop}

/-! ## Alike SQL -/

/-- A text that stands for no string: the quoted time of an instant, or an infinity. -/
def IsFixedText (s : String) : Prop :=
  (∃ t : Instant, s = t.civilText) ∨ s = "inf" ∨ s = "-inf"

/-- The same piece, or two texts that are linked. -/
inductive Piece.Twin (R : String → String → Prop) : Piece → Piece → Prop where
  | same (p : Piece) (h : p.isText = false) : Piece.Twin R p p
  | fixed (s : String) (h : IsFixedText s) : Piece.Twin R (.text s) (.text s)
  | text {s t : String} (h : R s t) : Piece.Twin R (.text s) (.text t)

/-- SQL that is alike, piece by piece. -/
abbrev Sql.Twin (R : String → String → Prop) : Sql → Sql → Prop :=
  List.Forall₂ (Piece.Twin R)

namespace Sql

/-- SQL without texts. -/
def Textless (sql : Sql) : Prop :=
  ∀ p ∈ sql, p.isText = false

theorem textless_nil : Textless [] :=
  nofun

theorem textless_code (s : String) : Textless (code s) := by
  intro p hp
  rw [List.mem_singleton.mp hp]
  rfl

theorem Textless.append {a b : Sql} (ha : Textless a) (hb : Textless b) : Textless (a ++ b) :=
  List.forall_mem_append.mpr ⟨ha, hb⟩

theorem textless_joined (separator : String) {parts : List Sql} (h : ∀ part ∈ parts, Textless part) :
    Textless (joined separator parts) := by
  intro p hp
  rcases mem_joined hp with rfl | ⟨part, hpart, hp⟩
  · rfl
  · exact h part hpart p hp

theorem Textless.inParens {a : Sql} (ha : Textless a) : Textless a.inParens :=
  ((textless_code "(").append ha).append (textless_code ")")

/-- SQL without texts is like itself. -/
theorem Textless.twin {sql : Sql} (h : Textless sql) : Sql.Twin R sql sql :=
  List.forall₂_same.mpr fun p hp => .same p (h p hp)

theorem Twin.append {a a' b b' : Sql} (ha : Sql.Twin R a a') (hb : Sql.Twin R b b') :
    Sql.Twin R (a ++ b) (a' ++ b') :=
  List.rel_append ha hb

/-- The same code in front. -/
theorem Twin.behind {b b' : Sql} (s : String) (hb : Sql.Twin R b b') :
    Sql.Twin R (code s ++ b) (code s ++ b') :=
  (textless_code s).twin.append hb

/-- The same code behind. -/
theorem Twin.before {a a' : Sql} (ha : Sql.Twin R a a') (s : String) :
    Sql.Twin R (a ++ code s) (a' ++ code s) :=
  ha.append (textless_code s).twin

theorem Twin.inParens {a a' : Sql} (h : Sql.Twin R a a') : Sql.Twin R a.inParens a'.inParens :=
  (h.behind "(").before ")"

theorem Twin.joined (separator : String) {parts parts' : List Sql}
    (h : List.Forall₂ (Sql.Twin R) parts parts') :
    Sql.Twin R (joined separator parts) (joined separator parts') := by
  induction h with
  | nil => exact .nil
  | cons hpart hparts ih =>
    cases hparts with
    | nil => simpa [Sql.joined] using hpart
    | cons hnext hrest =>
      rw [Sql.joined, Sql.joined, List.intercalate_cons_cons, List.intercalate_cons_cons]
      exact (hpart.before _).append ih

end Sql

/-! ## Values -/

/-- Infinities are the only numbers that are written as texts. -/
theorem Binary64.twin_literal (x : Binary64) : Sql.Twin R x.literal x.literal := by
  unfold literal
  split
  · exact (Sql.textless_code _).twin
  · rename_i negative _
    refine .cons (.fixed _ (Or.inr ?_)) .nil
    cases negative with
    | true => exact Or.inr rfl
    | false => exact Or.inl rfl
  · exact (Sql.textless_code _).twin

mutual

/-- Literals of twins are alike. -/
theorem Value.Twin.literal : ∀ {v w : Value}, Value.Twin R v w → Sql.Twin R v.literal w.literal
  | .null, _, h => by cases h; exact (Sql.textless_code _).twin
  | .bool b, _, h => by cases h; exact (Sql.textless_code _).twin
  | .int n, _, h => by cases h; exact (Sql.textless_code _).twin
  | .float x, _, h => by cases h; exact x.twin_literal
  | .text s, _, h => by cases h with | text h => exact .cons (.text h) .nil
  | .instant t, _, h => by cases h; exact .cons (.fixed _ (Or.inl ⟨t, rfl⟩)) .nil
  | .array vs, _, h => by
    cases h with
    | array h => exact ((Sql.Twin.joined ", " (Value.twin_literals h)).behind _).before _
  | .map es, _, h => by
    cases h with
    | map h => exact ((Sql.Twin.joined ", " (Value.twin_entryLiterals h)).behind _).before _

theorem Value.twin_literals : ∀ {vs ws : List Value}, Values.Twin R vs ws →
    List.Forall₂ (Sql.Twin R) (literals vs) (literals ws)
  | [], _, h => by cases h; exact .nil
  | v :: vs, _, h => by cases h with | cons h hs => exact .cons h.literal (Value.twin_literals hs)

theorem Value.twin_entryLiterals : ∀ {es fs : List (String × Value)},
    List.Forall₂ (Entry.Twin R) es fs →
      List.Forall₂ (Sql.Twin R) (entryLiterals es) (entryLiterals fs)
  | [], _, h => by cases h; exact .nil
  | (k, v) :: es, _, h => by
    cases h with
    | cons h hs =>
      obtain ⟨hkey, h⟩ := h
      refine .cons (.cons (.text hkey) ?_) (Value.twin_entryLiterals hs)
      exact h.literal.behind ": "

end

theorem Value.twin_tupleLiteral {vs ws : List Value} (h : Values.Twin R vs ws) :
    Sql.Twin R (tupleLiteral vs) (tupleLiteral ws) := by
  rw [tupleLiteral, tupleLiteral, ← literals_eq_map, ← literals_eq_map]
  exact (Sql.Twin.joined ", " (Value.twin_literals h)).inParens

/-! ## Phrases -/

namespace Statement

theorem twin_listSql {vs ws : List Value} (h : Values.Twin R vs ws) :
    Sql.Twin R (listSql vs) (listSql ws) := by
  -- an empty list is written in its own way
  cases h with
  | nil => exact (Sql.textless_code _).twin
  | cons h hs => exact Value.twin_tupleLiteral (.cons h hs)

theorem twin_clause (keyword separator : String) {parts parts' : List Sql}
    (h : List.Forall₂ (Sql.Twin R) parts parts') :
    Sql.Twin R (clause keyword separator parts) (clause keyword separator parts') := by
  cases h with
  | nil => exact .nil
  | cons h hs => exact (Sql.Twin.joined separator (.cons h hs)).behind keyword

theorem textless_clause (keyword separator : String) {parts : List Sql}
    (h : ∀ part ∈ parts, part.Textless) : (clause keyword separator parts).Textless := by
  unfold clause
  split
  · exact Sql.textless_nil
  · exact (Sql.textless_code keyword).append (Sql.textless_joined separator h)

theorem twin_assignmentSql {name : Sql} (hname : name.Textless) {v w : Value}
    (h : Value.Twin R v w) : Sql.Twin R (assignmentSql name v) (assignmentSql name w) :=
  (hname.append (Sql.textless_code _)).twin.append h.literal

theorem twin_settingsSql {settings settings' : Record} (h : Record.Twin R settings settings') :
    Sql.Twin R (settingsSql settings) (settingsSql settings') := by
  refine twin_clause " SETTINGS " ", " ?_
  rw [List.forall₂_map_left_iff, List.forall₂_map_right_iff]
  refine h.imp fun ⟨key, v⟩ ⟨key', w⟩ ⟨hkey, hvalue⟩ => ?_
  obtain rfl : key = key' := hkey
  exact twin_assignmentSql (Sql.textless_code key) hvalue

theorem twin_elementTestSql (function : String) {left right right' : Sql} (hl : left.Textless)
    (h : Sql.Twin R right right') :
    Sql.Twin R (elementTestSql function left right) (elementTestSql function left right') := by
  have hname : Sql.Textless [.name "i"] := by simp [Sql.Textless, Piece.isText]
  have hhead := ((((Sql.textless_code (function ++ "(")).append hname).append
    (Sql.textless_code " -> (")).append hname).append (Sql.textless_code " IN ")
  exact (((hhead.twin.append h).before "), ").append hl.twin).before ")"

/-- Tests with the same left side and alike right sides. -/
theorem twin_testSql {operator : String} {left right right' sql : Sql} (hl : left.Textless)
    (h : Sql.Twin R right right') (hsql : testSql operator left right = .ok sql) :
    ∃ sql', testSql operator left right' = .ok sql' ∧ Sql.Twin R sql sql' := by
  unfold testSql at hsql ⊢
  cases hform : TestForm.ofOperator operator with
  | middle =>
    rw [hform] at hsql
    obtain rfl := ok_eq_ok.mp hsql
    exact ⟨_, rfl, (hl.append (Sql.textless_code _)).twin.append h⟩
  | leading =>
    rw [hform] at hsql
    obtain rfl := ok_eq_ok.mp hsql
    exact ⟨_, rfl, h.behind _⟩
  | someElement =>
    rw [hform] at hsql
    obtain rfl := ok_eq_ok.mp hsql
    exact ⟨_, rfl, twin_elementTestSql _ hl h⟩
  | everyElement =>
    rw [hform] at hsql
    obtain rfl := ok_eq_ok.mp hsql
    exact ⟨_, rfl, twin_elementTestSql _ hl h⟩
  | suffix => rw [hform] at hsql; exact nomatch hsql
  | bounds => rw [hform] at hsql; exact nomatch hsql
  | unknown => rw [hform] at hsql; exact nomatch hsql

/-- Brackets depend on how many operands there are. -/
theorem twin_andSql (grouped top : Bool) {parts parts' : List Sql}
    (h : List.Forall₂ (Sql.Twin R) parts parts') :
    Sql.Twin R (andSql grouped top parts) (andSql grouped top parts') := by
  have hbody := Sql.Twin.joined " AND " h
  unfold andSql
  rw [h.length_eq]
  simp only
  split
  · exact hbody.inParens
  · exact hbody

theorem twin_orSql {parts parts' : List Sql} (h : List.Forall₂ (Sql.Twin R) parts parts') :
    Sql.Twin R (orSql parts) (orSql parts') :=
  (Sql.Twin.joined " OR " h).inParens

/-- Which form a call has depends on how many arguments there are. -/
theorem twin_callSql (form : CallForm) (function : String) {args args' : List Sql}
    (h : List.Forall₂ (Sql.Twin R) args args') :
    Sql.Twin R (callSql form function args) (callSql form function args') := by
  have hplain : Sql.Twin R (code function ++ (Sql.joined ", " args).inParens)
      (code function ++ (Sql.joined ", " args').inParens) :=
    (Sql.Twin.joined ", " h).inParens.behind _
  match form, args, args', h with
  | .plain, _, _, _ => exact hplain
  | .cast, [], _, .nil => exact hplain
  | .cast, [_], _, .cons _ .nil => exact hplain
  | .cast, [_, _], _, .cons h₁ (.cons h₂ .nil) =>
    exact (((h₁.behind _).before _).append h₂).before _
  | .cast, _ :: _ :: _ :: _, _, .cons _ (.cons _ (.cons _ _)) => exact hplain
  | .quantile, [], _, .nil => exact hplain
  | .quantile, [_], _, .cons _ .nil => exact hplain
  | .quantile, [_, _], _, .cons h₁ (.cons h₂ .nil) =>
    exact (((h₁.behind _).before _).append h₂).before _
  | .quantile, _ :: _ :: _ :: _, _, .cons _ (.cons _ (.cons _ _)) => exact hplain

end Statement

end SqlLoom
