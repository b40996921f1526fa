/-
  What is written for expressions and conditions.

  A query becomes SQL in two passes: the step to a statement, and the writing of it.  Both follow
  the tree, so together they are one relation between a part of a query and its SQL:

      e.Writes sql            an expression, anywhere but at the side of a test
      e.WritesOperand sql     an expression at the side of a test
      p.Writes top sql        a condition, at the top of its clause or below another one
      q.Writes sql            a SELECT

  For each form of the tree one lemma says how its SQL is put together from the SQL of its parts
  (`Expr.writes_call`, `Predicate.writes_and`, …).  Everything that is proved about SQL goes through
  them; nothing else looks at the two passes.
-/
import SqlLoom.Proofs.Outcome
import SqlLoom.Proofs.Quoting
import SqlLoom.Statement.OfQuery
import SqlLoom.Statement.ToSql

namespace SqlLoom

open Outcome
open Sql (code)

/-! ## The relation -/

/-- The SQL of an expression. -/
def Expr.Writes (e : Expr) (sql : Sql) : Prop :=
  ∃ x, Statement.ofExpr e = .ok x ∧ Statement.exprSql x = .ok sql

/-- The SQL of an expression at the right side of a test. -/
def Expr.WritesOperand (e : Expr) (sql : Sql) : Prop :=
  ∃ x, Statement.ofOperand e = .ok x ∧ Statement.operandSql x = .ok sql

/-- The SQL of a condition. -/
def Predicate.Writes (top : Bool) (p : Predicate) (sql : Sql) : Prop :=
  ∃ x, Statement.ofPredicate p = .ok x ∧ Statement.predicateSql top x = .ok sql

/-- The SQL of a SELECT. -/
def Select.Writes (q : Select) (sql : Sql) : Prop :=
  ∃ x, Statement.ofSelect q = .ok x ∧ Statement.selectSql x = .ok sql

/-- The SQL of a name. -/
def NameWrites (context : Identifier.Context) (s : String) (sql : Sql) : Prop :=
  Identifier.quote context s = .ok sql

/-- ` AS label`, or nothing. -/
def LabelWrites : Option String → Sql → Prop
  | none, sql => sql = []
  | some label, sql => ∃ name, NameWrites .selection label name ∧ sql = code " AS " ++ name

/-- The query of a subquery, in brackets. -/
def Subquery.Writes (s : Subquery) (sql : Sql) : Prop :=
  ∃ q body, s.select = some q ∧ q.Writes body ∧ sql = Sql.inParens body

/-- A branch of a CASE, with both of its parts. -/
def Branch.Writes (b : Branch) (sql : Sql) : Prop :=
  ∃ p e condition result, b = ⟨some p, some e⟩ ∧ p.Writes true condition ∧ e.Writes result
    ∧ sql = code " WHEN " ++ condition ++ code " THEN " ++ result

/-- ` ELSE e`, or nothing. -/
def OtherwiseWrites : Option Expr → Sql → Prop
  | none, sql => sql = []
  | some e, sql => ∃ body, e.Writes body ∧ sql = code " ELSE " ++ body

/-- A source of rows. -/
def Source.Writes : Source → Sql → Prop
  | .table name, sql => NameWrites .selection name sql
  | .subquery s, sql => s.Writes sql

/-! ## Names -/

theorem nameSql_eq_ok {context : Identifier.Context} {s : String} {sql : Sql} :
    Statement.nameSql context s = .ok sql ↔ NameWrites context s sql :=
  mapError_eq_ok

theorem namesSql_eq_ok {names : List String} {parts : List Sql} :
    Statement.namesSql names = .ok parts ↔ List.Forall₂ (NameWrites .selection) names parts := by
  refine forall₂_of_steps Statement.namesSql rfl fun s rest parts => ?_
  simp only [Statement.namesSql, bind_eq_ok, pure_eq_ok, nameSql_eq_ok]

theorem labelSql_eq_ok {label : Option String} {sql : Sql} :
    Statement.labelSql label = .ok sql ↔ LabelWrites label sql := by
  cases label with
  | none => simp only [Statement.labelSql, ok_eq_ok, LabelWrites]
  | some label =>
    simp only [Statement.labelSql, bind_eq_ok, pure_eq_ok, nameSql_eq_ok, LabelWrites]

/-- A name is written in one of four ways.  The third is the only one that does not quote, apart from
    `*` and numbers. -/
inductive NameShape (context : Identifier.Context) (s : String) : Sql → Prop where
  | plain (h : s = "*" ∨ Identifier.isNumber s.toList = true) : NameShape context s (code s)
  | quoted : NameShape context s [.name s]
  | expression (hcontext : context = .selection) (h : '(' ∈ s.toList) :
      NameShape context s [.verbatim s]
  | qualified (table column : String) : NameShape context s [.name table, .code ".", .name column]

theorem NameWrites.shape {context : Identifier.Context} {s : String} {sql : Sql}
    (h : NameWrites context s sql) : NameShape context s sql := by
  have hverdict := Identifier.verdict_quote context s
  rw [h] at hverdict
  cases hverdict with
  | plain hplain => exact .plain (hplain.imp_right Identifier.isNumber_iff.mpr)
  | expression hcontext hbracket => exact .expression hcontext hbracket
  | whole => exact .quoted
  | parted => exact .qualified _ _

/-! ## The two passes over lists

  Either pass takes the items of a list one after the other, so it relates the lists item by item. -/

namespace Statement

theorem ofExprs_eq_ok {es : List SqlLoom.Expr} {xs : List Expr} :
    ofExprs es = .ok xs ↔ List.Forall₂ (fun e x => ofExpr e = .ok x) es xs := by
  refine forall₂_of_steps ofExprs rfl fun e rest xs => ?_
  simp only [ofExprs, bind_eq_ok, pure_eq_ok]

theorem argsSql_eq_ok {lastFirst : Bool} {xs : List Expr} {parts : List Sql} :
    argsSql lastFirst xs = .ok parts ↔ List.Forall₂ (fun x sql => exprSql x = .ok sql) xs parts := by
  refine forall₂_of_steps (argsSql lastFirst) rfl fun x rest parts => ?_
  cases lastFirst with
  | true =>
    simp only [argsSql, if_true, bind_eq_ok, pure_eq_ok]
    exact ⟨fun ⟨ps, hps, p, hp, h⟩ => ⟨p, hp, ps, hps, h⟩,
      fun ⟨p, hp, ps, hps, h⟩ => ⟨ps, hps, p, hp, h⟩⟩
  | false => simp only [argsSql, Bool.false_eq_true, if_false, bind_eq_ok, pure_eq_ok]

theorem ofPredicates_eq_ok {ps : List SqlLoom.Predicate} {xs : List Predicate} :
    ofPredicates ps = .ok xs ↔ List.Forall₂ (fun p x => ofPredicate p = .ok x) ps xs := by
  refine forall₂_of_steps ofPredicates rfl fun p rest xs => ?_
  simp only [ofPredicates, bind_eq_ok, pure_eq_ok]

/-- The step fails on one of the conditions. -/
theorem exists_fault_of_ofPredicates {ps : List SqlLoom.Predicate} {f : Unsupported}
    (h : ofPredicates ps = .error f) : ∃ p ∈ ps, ofPredicate p = .error f :=
  exists_fault_of_each ofPredicates ofPredicate rfl (fun _ _ => ⟨_, rfl⟩) h

/-- Conditions that are not selected are not looked at. -/
theorem predicatesSql_eq_ok {keep : Predicate → Bool} {top : Bool} {xs : List Predicate}
    {parts : List Sql} :
    predicatesSql keep top xs = .ok parts
      ↔ List.Forall₂ (fun x sql => predicateSql top x = .ok sql) (xs.filter keep) parts := by
  induction xs generalizing parts with
  | nil => rw [predicatesSql, ok_eq_ok, List.filter_nil, List.forall₂_nil_left_iff]
  | cons x xs ih =>
    cases hk : keep x with
    | true =>
      simp only [predicatesSql, hk, if_true, bind_eq_ok, pure_eq_ok, List.filter_cons, ih,
        List.forall₂_cons_left_iff]
      exact ⟨fun ⟨p, hp, ps, hps, h⟩ => ⟨p, ps, hp, hps, h⟩,
        fun ⟨p, ps, hp, hps, h⟩ => ⟨p, hp, ps, hps, h⟩⟩
    | false => simp [predicatesSql, hk, ih]

/-- Writing fails on one of the conditions. -/
theorem exists_fault_of_predicatesSql {keep : Predicate → Bool} {top : Bool} {xs : List Predicate}
    {f : Unwritable} (h : predicatesSql keep top xs = .error f) :
    ∃ x ∈ xs, predicateSql top x = .error f := by
  refine exists_fault_of_steps (predicatesSql keep top) rfl (fun x rest h => ?_) h
  rw [predicatesSql] at h
  split at h
  · rcases bind_eq_error.mp h with h | ⟨sql, -, h⟩
    · exact .inl h
    · exact .inr (bind_pure_eq_error.mp h)
  · exact .inr h

theorem ofBranches_eq_ok {bs : List SqlLoom.Branch} {xs : List Branch} :
    ofBranches bs = .ok xs ↔ List.Forall₂ (fun b x => ofBranch b = .ok x) bs xs := by
  refine forall₂_of_steps ofBranches rfl fun b rest xs => ?_
  simp only [ofBranches, bind_eq_ok, pure_eq_ok]

/-- A written branch. -/
def BranchSql : Branch → Sql → Prop
  | ⟨p, e⟩, sql => ∃ condition result, conditionSql p = .ok condition
      ∧ resultSql e = .ok result ∧ sql = code " WHEN " ++ condition ++ code " THEN " ++ result

theorem branchesSql_eq_ok {xs : List Branch} {parts : List Sql} :
    branchesSql xs = .ok parts ↔ List.Forall₂ BranchSql xs parts := by
  refine forall₂_of_steps branchesSql rfl fun x rest parts => ?_
  obtain ⟨p, e⟩ := x
  simp only [branchesSql, bind_eq_ok, pure_eq_ok, BranchSql]
  constructor
  · rintro ⟨result, hr, condition, hc, ps, hps, rfl⟩
    exact ⟨_, ⟨condition, result, hc, hr, rfl⟩, ps, hps, rfl⟩
  · rintro ⟨_, ⟨condition, result, hc, hr, rfl⟩, ps, hps, rfl⟩
    exact ⟨result, hr, condition, hc, ps, hps, rfl⟩

end Statement

/-! ## Expressions and subqueries -/

/-- The pieces of one item are found by doing both passes to it. -/
theorem writes_exprs {lastFirst : Bool} {es : List Expr} {parts : List Sql} :
    (∃ xs, Statement.ofExprs es = .ok xs ∧ Statement.argsSql lastFirst xs = .ok parts)
      ↔ List.Forall₂ Expr.Writes es parts := by
  simp only [Statement.ofExprs_eq_ok, Statement.argsSql_eq_ok]
  exact forall₂_exists

/-- A subquery with its query is written in brackets, wherever it stands. -/
theorem Subquery.writes_iff {s : Subquery} {sql : Sql} :
    (∃ x, Statement.ofSubquery s = .ok x ∧ Statement.subquerySql (some x) = .ok sql)
      ↔ s.Writes sql := by
  obtain ⟨select, label⟩ := s
  cases select with
  | none =>
    constructor
    · rintro ⟨_, h, -⟩
      exact nomatch h
    · rintro ⟨_, _, h, -⟩
      exact nomatch h
  | some q =>
    simp only [Statement.ofSubquery, Statement.subquerySql, bind_eq_ok, pure_eq_ok, Writes]
    constructor
    · rintro ⟨x, hx, body, hbody, rfl⟩
      exact ⟨q, body, rfl, ⟨x, hx, hbody⟩, rfl⟩
    · rintro ⟨_, body, hq, ⟨x, hx, hbody⟩, rfl⟩
      cases hq
      exact ⟨x, hx, body, hbody, rfl⟩

/-- A source of rows, through both passes. -/
theorem Source.writes_iff {s : Source} {sql : Sql} :
    (∃ x, Statement.ofSource s = .ok x ∧ Statement.sourceSql x = .ok sql) ↔ s.Writes sql := by
  cases s with
  | table name =>
    simp only [Statement.ofSource, ok_eq_ok, exists_eq_left, Statement.sourceSql, nameSql_eq_ok,
      Writes]
  | subquery s =>
    rw [Writes, ← Subquery.writes_iff]
    simp only [Statement.ofSource, bind_eq_ok, pure_eq_ok]
    constructor
    · rintro ⟨_, ⟨x, hx, rfl⟩, h⟩
      exact ⟨x, hx, h⟩
    · rintro ⟨x, hx, h⟩
      exact ⟨_, ⟨x, hx, rfl⟩, h⟩

namespace Expr

theorem writes_column {c : Column} {sql : Sql} :
    (column c).Writes sql ↔ NameWrites .selection c.joined sql := by
  have hstep : Statement.ofExpr (column c) = .ok (.column c.joined c.label) := rfl
  exact (exists_of_eq_ok hstep).trans nameSql_eq_ok

theorem writes_value {v : Value} {label : Option String} {sql : Sql} :
    (value v label).Writes sql ↔ sql = v.literal := by
  have hstep : Statement.ofExpr (value v label) = .ok (.value v label) := rfl
  exact (exists_of_eq_ok hstep).trans ok_eq_ok

theorem writes_array {items : List Value} {label : Option String} {sql : Sql} :
    (array items label).Writes sql ↔ sql = (Value.array items).literal := by
  have hstep : Statement.ofExpr (array items label) = .ok (.array items label) := rfl
  exact (exists_of_eq_ok hstep).trans ok_eq_ok

theorem writes_tuple {items : List Value} {label : Option String} {sql : Sql} :
    (tuple items label).Writes sql ↔ sql = Value.tupleLiteral items := by
  have hstep : Statement.ofExpr (tuple items label) = .ok (.tuple items label) := rfl
  exact (exists_of_eq_ok hstep).trans ok_eq_ok

theorem writes_subquery {s : Subquery} {sql : Sql} :
    (subquery s).Writes sql ↔ s.Writes sql := by
  rw [← Subquery.writes_iff]
  simp only [Writes, Statement.ofExpr, bind_eq_ok, pure_eq_ok]
  constructor
  · rintro ⟨_, ⟨x, hx, rfl⟩, h⟩
    exact ⟨x, hx, h⟩
  · rintro ⟨x, hx, h⟩
    exact ⟨_, ⟨x, hx, rfl⟩, h⟩

theorem writes_raw {text : String} {label : Option String} {sql : Sql} :
    (raw text label).Writes sql ↔ sql = [.verbatim text] := by
  have hstep : Statement.ofExpr (raw text label) = .ok (.raw text label) := rfl
  exact (exists_of_eq_ok hstep).trans ok_eq_ok

end Expr

/-- The way in which a call is written only depends on how many arguments there are. -/
def Statement.CallForm.ofArity (function : String) (arity : Nat) : Statement.CallForm :=
  if arity = 2 ∧ function = "cast" then .cast
  else if arity = 2 ∧ function = "quantile" then .quantile
  else .plain

theorem Statement.CallForm.ofCall_eq (function : String) (args : List Statement.Expr) :
    ofCall function args = ofArity function args.length :=
  rfl

namespace Expr

theorem writes_call {function : String} {args : List Expr} {label : Option String} {sql : Sql} :
    (call function args label).Writes sql
      ↔ ∃ parts, List.Forall₂ Expr.Writes args parts
          ∧ sql = Statement.callSql (.ofArity function args.length) function parts := by
  simp only [Writes, Statement.ofExpr, bind_eq_ok, pure_eq_ok]
  constructor
  · rintro ⟨_, ⟨xs, hxs, rfl⟩, h⟩
    obtain ⟨parts, hparts, h⟩ := bind_eq_ok.mp h
    have hlength : xs.length = args.length :=
      (Statement.ofExprs_eq_ok.mp hxs).length_eq.symm
    rw [pure_eq_ok, Statement.CallForm.ofCall_eq, hlength] at h
    exact ⟨parts, writes_exprs.mp ⟨xs, hxs, hparts⟩, h⟩
  · rintro ⟨parts, hparts, rfl⟩
    -- in whichever order the arguments are taken, they are the same
    have hform : ∀ lastFirst, ∃ xs, Statement.ofExprs args = .ok xs
        ∧ Statement.argsSql lastFirst xs = .ok parts :=
      fun lastFirst => writes_exprs.mpr hparts
    obtain ⟨xs, hxs, hargs⟩ := hform
      (decide (Statement.CallForm.ofArity function args.length ≠ .plain))
    have hlength : xs.length = args.length :=
      (Statement.ofExprs_eq_ok.mp hxs).length_eq.symm
    refine ⟨_, ⟨xs, hxs, rfl⟩, ?_⟩
    rw [Statement.exprSql, bind_eq_ok]
    simp only [Statement.CallForm.ofCall_eq, hlength]
    exact ⟨parts, hargs, rfl⟩

/-- The branches of a CASE, through both passes. -/
theorem writes_branches {bs : List Branch} {parts : List Sql} :
    (∃ xs, Statement.ofBranches bs = .ok xs ∧ Statement.branchesSql xs = .ok parts)
      ↔ List.Forall₂ Branch.Writes bs parts := by
  simp only [Statement.ofBranches_eq_ok, Statement.branchesSql_eq_ok]
  refine forall₂_both fun b sql => ?_
  constructor
  · rintro ⟨x, hx, h⟩
    match b, hx with
    | ⟨some p, some e⟩, hx =>
      rw [Statement.ofBranch] at hx
      obtain ⟨y, hy, hx⟩ := bind_eq_ok.mp hx
      obtain ⟨z, hz, hx⟩ := bind_eq_ok.mp hx
      obtain rfl := pure_eq_ok.mp hx
      obtain ⟨condition, result, hc, hr, rfl⟩ := h
      rw [Statement.conditionSql] at hc
      rw [Statement.resultSql] at hr
      exact ⟨p, e, condition, result, rfl, ⟨y, hy, hc⟩, ⟨z, hz, hr⟩, rfl⟩
  · rintro ⟨p, e, condition, result, rfl, ⟨y, hy, hc⟩, ⟨z, hz, hr⟩, rfl⟩
    refine ⟨⟨some y, some z⟩, ?_, condition, result, hc, hr, rfl⟩
    rw [Statement.ofBranch, hy, hz]
    rfl

/-- The ELSE part, through both passes. -/
theorem writes_otherwise {otherwise : Option Expr} {sql : Sql} :
    (∃ x, Statement.ofOtherwise otherwise = .ok x ∧ Statement.otherwiseSql x = .ok sql)
      ↔ OtherwiseWrites otherwise sql := by
  cases otherwise with
  | none =>
    simp only [Statement.ofOtherwise, ok_eq_ok, exists_eq_left, Statement.otherwiseSql,
      OtherwiseWrites]
  | some e =>
    simp only [Statement.ofOtherwise, bind_eq_ok, pure_eq_ok, OtherwiseWrites]
    constructor
    · rintro ⟨_, ⟨x, hx, rfl⟩, h⟩
      rw [Statement.otherwiseSql] at h
      obtain ⟨body, hbody, h⟩ := bind_eq_ok.mp h
      exact ⟨body, ⟨x, hx, hbody⟩, pure_eq_ok.mp h⟩
    · rintro ⟨body, ⟨x, hx, hbody⟩, rfl⟩
      refine ⟨_, ⟨x, hx, rfl⟩, ?_⟩
      rw [Statement.otherwiseSql, hbody]
      rfl

theorem writes_cases {branches : List Branch} {otherwise : Option Expr} {label : Option String}
    {sql : Sql} :
    (cases branches otherwise label).Writes sql
      ↔ ∃ parts rest, List.Forall₂ Branch.Writes branches parts ∧ OtherwiseWrites otherwise rest
          ∧ sql = code "CASE" ++ parts.flatten ++ rest ++ code " END" := by
  simp only [Writes, Statement.ofExpr, bind_eq_ok, pure_eq_ok]
  constructor
  · rintro ⟨_, ⟨bs, hbs, o, ho, rfl⟩, h⟩
    obtain ⟨parts, hparts, h⟩ := bind_eq_ok.mp h
    obtain ⟨rest, hrest, h⟩ := bind_eq_ok.mp h
    exact ⟨parts, rest, writes_branches.mp ⟨bs, hbs, hparts⟩, writes_otherwise.mp ⟨o, ho, hrest⟩,
      pure_eq_ok.mp h⟩
  · rintro ⟨parts, rest, hparts, hrest, rfl⟩
    obtain ⟨bs, hbs, hparts⟩ := writes_branches.mpr hparts
    obtain ⟨o, ho, hrest⟩ := writes_otherwise.mpr hrest
    refine ⟨_, ⟨bs, hbs, o, ho, rfl⟩, ?_⟩
    rw [Statement.exprSql, hparts, hrest]
    rfl

/-! ## Operands -/

theorem writesOperand_value {v : Value} {label : Option String} {sql : Sql} :
    (value v label).WritesOperand sql ↔ sql = v.literal := by
  have hstep : Statement.ofOperand (value v label) = .ok (.value v) := rfl
  exact (exists_of_eq_ok hstep).trans ok_eq_ok

theorem writesOperand_array {items : List Value} {label : Option String} {sql : Sql} :
    (array items label).WritesOperand sql ↔ sql = Statement.listSql items := by
  have hstep : Statement.ofOperand (array items label) = .ok (.list items) := rfl
  exact (exists_of_eq_ok hstep).trans ok_eq_ok

theorem writesOperand_tuple {items : List Value} {label : Option String} {sql : Sql} :
    (tuple items label).WritesOperand sql ↔ sql = Statement.listSql items := by
  have hstep : Statement.ofOperand (tuple items label) = .ok (.list items) := rfl
  exact (exists_of_eq_ok hstep).trans ok_eq_ok

theorem writesOperand_column {c : Column} {sql : Sql} :
    (column c).WritesOperand sql ↔ NameWrites .condition c.joined sql := by
  have hstep : Statement.ofOperand (column c) = .ok (.column c.joined) := rfl
  exact (exists_of_eq_ok hstep).trans nameSql_eq_ok

theorem writesOperand_subquery {s : Subquery} {sql : Sql} :
    (subquery s).WritesOperand sql ↔ s.Writes sql := by
  rw [← Subquery.writes_iff]
  simp only [WritesOperand, Statement.ofOperand, bind_eq_ok, pure_eq_ok]
  constructor
  · rintro ⟨_, ⟨x, hx, rfl⟩, h⟩
    exact ⟨x, hx, h⟩
  · rintro ⟨x, hx, h⟩
    exact ⟨_, ⟨x, hx, rfl⟩, h⟩

/-- Raw SQL, calls and CASE expressions are no operands. -/
theorem not_writesOperand_raw {text : String} {label : Option String} {sql : Sql} :
    ¬ (raw text label).WritesOperand sql :=
  fun ⟨_, h, _⟩ => nomatch h

theorem not_writesOperand_call {function : String} {args : List Expr} {label : Option String}
    {sql : Sql} : ¬ (call function args label).WritesOperand sql :=
  fun ⟨_, h, _⟩ => nomatch h

theorem not_writesOperand_cases {branches : List Branch} {otherwise : Option Expr}
    {label : Option String} {sql : Sql} : ¬ (cases branches otherwise label).WritesOperand sql :=
  fun ⟨_, h, _⟩ => nomatch h

end Expr

/-! ## Conditions -/

/-- An expression that the step to a statement takes as the right side of a test. -/
def Expr.IsOperand (e : Expr) : Prop :=
  Succeeds (Statement.ofOperand e)

/-- The bounds that a list expression holds. -/
def Expr.Bounds : Expr → Value → Value → Prop
  | .array items _, low, high => items = [low, high]
  | .tuple items _, low, high => items = [low, high]
  | _, _, _ => False

/-- A test with its left side written.  IS NULL drops its right side, and BETWEEN takes it apart. -/
def TestWrites (operator : String) (left : Sql) (right : Expr) (sql : Sql) : Prop :=
  match Statement.TestForm.ofOperator operator with
  | .suffix => right.IsOperand ∧ sql = left ++ code (" " ++ operator)
  | .bounds => ∃ low high, right.Bounds low high
      ∧ sql = left ++ code " BETWEEN " ++ (low.literal ++ code " AND " ++ high.literal)
  | _ => ∃ operand, right.WritesOperand operand
      ∧ Statement.testSql operator left operand = .ok sql

/-- The bounds of BETWEEN, through both passes. -/
theorem Expr.writes_bounds {e : Expr} {sql : Sql} :
    (∃ x, Statement.ofOperand e = .ok x ∧ Statement.boundsSql x = .ok sql)
      ↔ ∃ low high, e.Bounds low high ∧ sql = low.literal ++ code " AND " ++ high.literal := by
  have hlist : ∀ items : List Value, Statement.boundsSql (.list items) = .ok sql
      ↔ ∃ low high, items = [low, high]
          ∧ sql = low.literal ++ code " AND " ++ high.literal := by
    intro items
    match items with
    | [] => exact ⟨nofun, nofun⟩
    | [_] => exact ⟨nofun, nofun⟩
    | [low, high] =>
      rw [Statement.boundsSql, ok_eq_ok]
      exact ⟨fun h => ⟨low, high, rfl, h⟩, fun ⟨_, _, hitems, h⟩ => by cases hitems; exact h⟩
    | _ :: _ :: _ :: _ => exact ⟨nofun, nofun⟩
  cases e with
  | array items label =>
    simp only [Statement.ofOperand, ok_eq_ok, exists_eq_left, hlist, Bounds]
  | tuple items label =>
    simp only [Statement.ofOperand, ok_eq_ok, exists_eq_left, hlist, Bounds]
  | subquery s =>
    simp only [Statement.ofOperand, bind_eq_ok, pure_eq_ok, Bounds, false_and, exists_false,
      iff_false, not_exists, not_and]
    rintro _ ⟨_, -, rfl⟩
    exact nofun
  | column c => exact ⟨fun ⟨_, h, h'⟩ => by cases h; exact (nomatch h'), nofun⟩
  | value v label => exact ⟨fun ⟨_, h, h'⟩ => by cases h; exact (nomatch h'), nofun⟩
  | raw text label => exact ⟨fun ⟨_, h, _⟩ => (nomatch h), nofun⟩
  | call function args label => exact ⟨fun ⟨_, h, _⟩ => (nomatch h), nofun⟩
  | cases branches otherwise label => exact ⟨fun ⟨_, h, _⟩ => (nomatch h), nofun⟩

namespace Predicate

/-- A test is written from the SQL of its column and of its right side. -/
theorem writes_compare {top : Bool} {left right : Expr} {operator : String} {sql : Sql} :
    (compare left operator right).Writes top sql
      ↔ ∃ c leftPart, left = .column c ∧ Statement.leftSql c.joined = .ok leftPart
          ∧ TestWrites operator leftPart right sql := by
  constructor
  · rintro ⟨_, hp, h⟩
    match left, hp with
    | .column c, hp =>
      rw [Statement.ofPredicate] at hp
      obtain ⟨x, hx, hp⟩ := bind_eq_ok.mp hp
      obtain rfl := pure_eq_ok.mp hp
      rw [Statement.predicateSql] at h
      obtain ⟨leftPart, hleft, h⟩ := bind_eq_ok.mp h
      refine ⟨c, leftPart, rfl, hleft, ?_⟩
      -- only three kinds of form matter: no right side, two bounds, and one operand
      unfold TestWrites
      generalize Statement.TestForm.ofOperator operator = form at h ⊢
      cases form with
      | suffix => exact ⟨⟨x, hx⟩, pure_eq_ok.mp h⟩
      | bounds =>
        obtain ⟨bounds, hbounds, h⟩ := bind_eq_ok.mp h
        obtain ⟨low, high, hb, rfl⟩ := Expr.writes_bounds.mp ⟨x, hx, hbounds⟩
        exact ⟨low, high, hb, pure_eq_ok.mp h⟩
      | _ =>
        obtain ⟨operand, hoperand, h⟩ := bind_eq_ok.mp h
        exact ⟨operand, ⟨x, hx, hoperand⟩, h⟩
  · rintro ⟨c, leftPart, rfl, hleft, h⟩
    have hstep : ∀ x, Statement.ofOperand right = .ok x →
        Statement.ofPredicate (compare (.column c) operator right)
          = .ok (.compare c.joined operator x false) := by
      intro x hx
      rw [Statement.ofPredicate, hx]
      rfl
    have hsql : ∀ x, Statement.predicateSql top (.compare c.joined operator x false)
        = match Statement.TestForm.ofOperator operator with
          | .suffix => .ok (leftPart ++ code (" " ++ operator))
          | .bounds => do return leftPart ++ code " BETWEEN " ++ (← Statement.boundsSql x)
          | _ => Statement.operandSql x >>= Statement.testSql operator leftPart := by
      intro x
      rw [Statement.predicateSql, hleft]
      rfl
    unfold TestWrites at h
    generalize Statement.TestForm.ofOperator operator = form at h hsql
    cases form with
    | suffix =>
      obtain ⟨⟨x, hx⟩, rfl⟩ := h
      exact ⟨_, hstep x hx, hsql x⟩
    | bounds =>
      obtain ⟨low, high, hb, rfl⟩ := h
      obtain ⟨x, hx, hbounds⟩ := Expr.writes_bounds.mpr ⟨low, high, hb, rfl⟩
      refine ⟨_, hstep x hx, (hsql x).trans ?_⟩
      rw [hbounds]
      rfl
    | _ =>
      obtain ⟨operand, ⟨x, hx, hoperand⟩, h⟩ := h
      refine ⟨_, hstep x hx, (hsql x).trans ?_⟩
      rw [hoperand]
      exact h

/-- The operands of a connective stand below it. -/
theorem writes_children {ps : List Predicate} {parts : List Sql} :
    (∃ xs, Statement.ofPredicates ps = .ok xs
        ∧ Statement.predicatesSql (fun _ => true) false xs = .ok parts)
      ↔ List.Forall₂ (Writes false) ps parts := by
  simp only [Statement.ofPredicates_eq_ok, Statement.predicatesSql_eq_ok, List.filter_true]
  exact forall₂_exists

theorem writes_and {top grouped : Bool} {children : List Predicate} {sql : Sql} :
    (and children grouped).Writes top sql
      ↔ ∃ parts, List.Forall₂ (Writes false) children parts
          ∧ sql = Statement.andSql grouped top parts := by
  simp only [Writes, Statement.ofPredicate, bind_eq_ok, pure_eq_ok]
  constructor
  · rintro ⟨_, ⟨xs, hxs, rfl⟩, h⟩
    rw [Statement.predicateSql] at h
    obtain ⟨parts, hparts, h⟩ := bind_eq_ok.mp h
    exact ⟨parts, writes_children.mp ⟨xs, hxs, hparts⟩, pure_eq_ok.mp h⟩
  · rintro ⟨parts, hparts, rfl⟩
    obtain ⟨xs, hxs, hparts⟩ := writes_children.mpr hparts
    refine ⟨_, ⟨xs, hxs, rfl⟩, ?_⟩
    rw [Statement.predicateSql, hparts]
    rfl

theorem writes_or {top : Bool} {children : List Predicate} {sql : Sql} :
    (or children).Writes top sql
      ↔ ∃ parts, List.Forall₂ (Writes false) children parts ∧ sql = Statement.orSql parts := by
  simp only [Writes, Statement.ofPredicate, bind_eq_ok, pure_eq_ok]
  constructor
  · rintro ⟨_, ⟨xs, hxs, rfl⟩, h⟩
    rw [Statement.predicateSql] at h
    obtain ⟨parts, hparts, h⟩ := bind_eq_ok.mp h
    exact ⟨parts, writes_children.mp ⟨xs, hxs, hparts⟩, pure_eq_ok.mp h⟩
  · rintro ⟨parts, hparts, rfl⟩
    obtain ⟨xs, hxs, hparts⟩ := writes_children.mpr hparts
    refine ⟨_, ⟨xs, hxs, rfl⟩, ?_⟩
    rw [Statement.predicateSql, hparts]
    rfl

theorem writes_not {top : Bool} {child : Option Predicate} {sql : Sql} :
    (not child).Writes top sql
      ↔ ∃ p body, child = some p ∧ p.Writes true body
          ∧ sql = code "NOT " ++ Sql.inParens body := by
  cases child with
  | none =>
    constructor
    · rintro ⟨_, h, -⟩
      exact nomatch h
    · rintro ⟨_, _, h, -⟩
      exact nomatch h
  | some p =>
    simp only [Writes, Statement.ofPredicate, bind_eq_ok, pure_eq_ok]
    constructor
    · rintro ⟨_, ⟨x, hx, rfl⟩, h⟩
      rw [Statement.predicateSql] at h
      obtain ⟨body, hbody, h⟩ := bind_eq_ok.mp h
      exact ⟨p, body, rfl, ⟨x, hx, hbody⟩, pure_eq_ok.mp h⟩
    · rintro ⟨_, body, hp, ⟨x, hx, hbody⟩, rfl⟩
      cases hp
      refine ⟨_, ⟨x, hx, rfl⟩, ?_⟩
      rw [Statement.predicateSql, hbody]
      rfl

theorem writes_raw {top : Bool} {text : String} {sql : Sql} :
    (raw text).Writes top sql ↔ sql = [.verbatim text] := by
  simp only [Writes, Statement.ofPredicate, ok_eq_ok, exists_eq_left, Statement.predicateSql]

/-- What is written at one place can be written at the other: only brackets depend on `top`. -/
theorem writes_elsewhere {p : Predicate} {top : Bool} {sql : Sql} (h : p.Writes top sql)
    (top' : Bool) : ∃ sql', p.Writes top' sql' := by
  cases p with
  | compare left operator right => exact ⟨sql, writes_compare.mpr (writes_compare.mp h)⟩
  | and children grouped =>
    obtain ⟨parts, hparts, -⟩ := writes_and.mp h
    exact ⟨_, writes_and.mpr ⟨parts, hparts, rfl⟩⟩
  | or children => exact ⟨sql, writes_or.mpr (writes_or.mp h)⟩
  | not child => exact ⟨sql, writes_not.mpr (writes_not.mp h)⟩
  | raw text => exact ⟨sql, writes_raw.mpr (writes_raw.mp h)⟩

end Predicate

end SqlLoom
