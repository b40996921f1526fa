/-
  Which queries compile.

  A query is refused in one of three places: by the check, by the step to a statement, or by the
  writing.  The report speaks of the first two.  What is left to the writing is local again, and
  only matters where something is written (`Node.shown`):

  * a name must pass the quoting of its context;
  * the operator of a test must be one of eighteen;
  * the right side of BETWEEN must be a list of two values.

  So there is a rule for each node (`Node.Acceptable`), and the same plan as for the check:

  1. a node that has a counterpart in a statement can be written exactly when it keeps its rule and
     all parts that show can be written (`Node.writable_iff`);
  2. by induction, when every node that shows keeps its rule (`Node.writable_iff_every_shown`);
  3. a query compiles exactly when its report is valid and all that shows keeps its rule.
-/
import SqlLoom.Proofs.Steps
import SqlLoom.Proofs.Written.Conditions

namespace SqlLoom

open Outcome
open Sql (code)

/-! ## The rule of one node -/

/-- A name that can be written where it stands. -/
def Passes (context : Identifier.Context) (s : String) : Prop :=
  Succeeds (Identifier.quote context s)

/-- An alias that can be written, if there is one. -/
def LabelPasses (label : Option String) : Prop :=
  ∀ s ∈ label, Passes .selection s

/-- The operators that tests can be written with. -/
def testOperators : List String :=
  ["=", "!=", ">", ">=", "<", "<=", "IN", "NOT IN", "LIKE", "ILIKE", "IS NULL", "IS NOT NULL",
    "BETWEEN", "EXISTS", "NOT EXISTS", "HAS ANY", "HAS ALL", "IN TUPLE"]

/-- A column anywhere but at the side of a test. -/
def Expr.Acceptable : Expr → Prop
  | .column c => Passes .selection c.joined
  | _ => True

/-- A column at the right side of a test. -/
def Expr.AcceptableOperand : Expr → Prop
  | .column c => Passes .condition c.joined
  | _ => True

/-- The left side of a test and its operator.  Only an empty left side is not written. -/
def Predicate.Acceptable : Predicate → Prop
  | .compare (.column c) operator right =>
    (c.joined ≠ "" → Passes .condition c.joined) ∧ operator ∈ testOperators
      ∧ (operator = "BETWEEN" → ∃ low high, right.Bounds low high)
  | _ => True

/-- The name of a table. -/
def Source.Acceptable : Source → Prop
  | .table name => Passes .selection name
  | .subquery _ => True

/-- The names that stand in the clauses of a SELECT.  Aliases of expressions are only written in the
    select list. -/
structure Select.Acceptable (q : Select) : Prop where
  withs : ∀ w ∈ q.withs, Passes .selection w.name
  columns : ∀ e ∈ q.columns, LabelPasses e.label
  source : ∀ f ∈ q.source, f.source.Acceptable ∧ LabelPasses f.label
  joins : ∀ j ∈ q.joins, j.source.Acceptable ∧ LabelPasses j.label
  groupBy : ∀ c ∈ q.groupBy, Passes .selection c.joined
  orderBy : ∀ item ∈ q.orderBy, Passes .selection item.column.joined

/-- The rule of a node. -/
def Node.Acceptable : Node → Prop
  | .expr e => e.Acceptable
  | .operand e => e.AcceptableOperand
  | .predicate p => p.Acceptable
  | .select q => q.Acceptable

/-- The names in the statement around the nodes. -/
def Query.NamesPass : Query → Prop
  | .select _ => True
  | .insert q => Passes .selection q.table ∧ ∀ c ∈ q.columns, Passes .selection c
  | .update q => Passes .selection q.table ∧ ∀ entry ∈ q.assignments, Passes .selection entry.1
  | .delete q => Passes .selection q.table

/-- `q.Emits n`: the node `n` shows somewhere in the SQL of the query. -/
def Query.Emits (q : Query) (n : Node) : Prop :=
  ∃ m ∈ q.parts, n.Shows m

/-- A node that has SQL. -/
def Node.Writable (n : Node) : Prop :=
  ∃ sql, n.Writes true sql

/-! ## Names and parts -/

theorem exists_labelWrites {label : Option String} :
    (∃ sql, LabelWrites label sql) ↔ LabelPasses label := by
  cases label with
  | none => exact ⟨fun _ => nofun, fun _ => ⟨[], rfl⟩⟩
  | some s =>
    constructor
    · rintro ⟨_, name, hname, -⟩ _ hs
      obtain rfl := Option.some.inj hs
      exact ⟨name, hname⟩
    · intro h
      obtain ⟨name, hname⟩ := h s rfl
      exact ⟨_, name, hname, rfl⟩

/-- A condition has SQL at both places or at none. -/
theorem Predicate.exists_writes {p : Predicate} {top : Bool} :
    (∃ sql, p.Writes top sql) ↔ (Node.predicate p).Writable := by
  constructor
  · rintro ⟨sql, h⟩
    exact Predicate.writes_elsewhere h true
  · rintro ⟨sql, h⟩
    exact Predicate.writes_elsewhere h top

theorem Subquery.exists_writes {s : Subquery} (h : s.select.isSome) :
    (∃ sql, s.Writes sql) ↔ ∀ n ∈ s.parts, n.Writable := by
  obtain ⟨select, label⟩ := s
  obtain ⟨q, rfl⟩ := Option.isSome_iff_exists.mp h
  have hparts : (Subquery.mk (some q) label).parts = [.select q] := rfl
  rw [hparts, List.forall_mem_singleton]
  constructor
  · rintro ⟨_, _, body, hq, hbody, -⟩
    cases hq
    exact ⟨body, hbody⟩
  · rintro ⟨body, hbody⟩
    exact ⟨_, q, body, rfl, hbody, rfl⟩

theorem Source.exists_writes {s : Source} (h : s.Fits) :
    (∃ sql, s.Writes sql) ↔ s.Acceptable ∧ ∀ n ∈ s.parts, n.Writable := by
  cases s with
  | table name => exact ⟨fun h => ⟨h, nofun⟩, And.left⟩
  | subquery s => exact (Subquery.exists_writes h).trans (true_and _).symm.to_iff

theorem Branch.exists_writes {b : Branch} (h : b.Complete) :
    (∃ sql, b.Writes sql) ↔ ∀ n ∈ b.parts, n.Writable := by
  obtain ⟨condition, result⟩ := b
  obtain ⟨p, rfl⟩ := Option.isSome_iff_exists.mp h.1
  obtain ⟨e, rfl⟩ := Option.isSome_iff_exists.mp h.2
  have hparts : (Branch.mk (some p) (some e)).parts = [.predicate p, .expr e] := rfl
  rw [hparts, List.forall_mem_cons, List.forall_mem_singleton]
  constructor
  · rintro ⟨_, _, _, condition, result, hb, hc, hr, -⟩
    cases hb
    exact ⟨⟨condition, hc⟩, result, hr⟩
  · rintro ⟨⟨condition, hc⟩, result, hr⟩
    exact ⟨_, p, e, condition, result, rfl, hc, hr, rfl⟩

theorem exists_otherwiseWrites {otherwise : Option Expr} :
    (∃ sql, OtherwiseWrites otherwise sql) ↔
      ∀ n ∈ otherwise.toList.map Node.expr, n.Writable := by
  cases otherwise with
  | none => exact ⟨fun _ => nofun, fun _ => ⟨[], rfl⟩⟩
  | some e =>
    rw [Option.toList_some, List.map_singleton, List.forall_mem_singleton]
    constructor
    · rintro ⟨_, body, hbody, -⟩
      exact ⟨body, hbody⟩
    · rintro ⟨body, hbody⟩
      exact ⟨_, body, hbody, rfl⟩

theorem exists_clauseWrites {keyword : String} {clause : Option Predicate} :
    (∃ sql, ClauseWrites keyword clause sql) ↔ ∀ n ∈ clauseParts clause, n.Writable := by
  cases clause with
  | none => exact ⟨fun _ => nofun, fun _ => ⟨[], rfl⟩⟩
  | some p =>
    have hparts : clauseParts (some p) = [.predicate p] := rfl
    rw [hparts, List.forall_mem_singleton]
    constructor
    · rintro ⟨_, body, hbody, -⟩
      exact ⟨body, hbody⟩
    · rintro ⟨body, hbody⟩
      exact ⟨_, body, hbody, rfl⟩

/-! ## Expressions -/

/-- What is written without a look at its parts is accepted, and has none. -/
theorem writable_leaf {writes : Sql → Prop} {a : Sql} (h : ∀ sql, writes sql ↔ sql = a) :
    (∃ sql, writes sql) ↔ True ∧ ∀ n ∈ ([] : List Node), n.Writable :=
  ⟨fun _ => ⟨trivial, nofun⟩, fun _ => ⟨a, (h a).mpr rfl⟩⟩

theorem Expr.writable_iff {e : Expr} (h : e.Fits) :
    (Node.expr e).Writable ↔ e.Acceptable ∧ ∀ n ∈ e.parts, n.Writable := by
  show (∃ sql, e.Writes sql) ↔ _
  cases e with
  | column c =>
    simp only [writes_column]
    exact ⟨fun h => ⟨h, nofun⟩, And.left⟩
  | value v label => exact writable_leaf fun _ => writes_value
  | array items label => exact writable_leaf fun _ => writes_array
  | tuple items label => exact writable_leaf fun _ => writes_tuple
  | raw text label => exact writable_leaf fun _ => writes_raw
  | subquery s =>
    simp only [writes_subquery]
    exact (Subquery.exists_writes h).trans (true_and _).symm.to_iff
  | call function args label =>
    have hargs : (∃ parts, List.Forall₂ Expr.Writes args parts)
        ↔ ∀ n ∈ args.map Node.expr, n.Writable := by
      rw [forall₂_total, List.forall_mem_map]
      rfl
    simp only [writes_call]
    constructor
    · rintro ⟨_, parts, hparts, -⟩
      exact ⟨trivial, hargs.mp ⟨parts, hparts⟩⟩
    · rintro ⟨-, h⟩
      obtain ⟨parts, hparts⟩ := hargs.mpr h
      exact ⟨_, parts, hparts, rfl⟩
  | cases branches otherwise label =>
    have hbranches : (∃ parts, List.Forall₂ Branch.Writes branches parts)
        ↔ ∀ n ∈ branches.flatMap Branch.parts, n.Writable := by
      rw [forall₂_total, List.forall_mem_flatMap]
      exact forall₂_congr fun b hb => Branch.exists_writes (h b hb)
    simp only [writes_cases, parts, List.forall_mem_append, ← hbranches, ← exists_otherwiseWrites]
    constructor
    · rintro ⟨_, parts, rest, hparts, hrest, -⟩
      exact ⟨trivial, ⟨parts, hparts⟩, rest, hrest⟩
    · rintro ⟨-, ⟨parts, hparts⟩, rest, hrest⟩
      exact ⟨_, parts, rest, hparts, hrest, rfl⟩

theorem Expr.writable_operand_iff {e : Expr} (h : e.FitsOperand) :
    (Node.operand e).Writable ↔ e.AcceptableOperand ∧ ∀ n ∈ e.parts, n.Writable := by
  show (∃ sql, e.WritesOperand sql) ↔ _
  cases e with
  | column c =>
    simp only [writesOperand_column]
    exact ⟨fun h => ⟨h, nofun⟩, And.left⟩
  | value v label => exact writable_leaf fun _ => writesOperand_value
  | array items label => exact writable_leaf fun _ => writesOperand_array
  | tuple items label => exact writable_leaf fun _ => writesOperand_tuple
  | subquery s =>
    simp only [writesOperand_subquery]
    exact (Subquery.exists_writes h).trans (true_and _).symm.to_iff
  | raw text label => exact h.elim
  | call function args label => exact h.elim
  | cases branches otherwise label => exact h.elim

/-! ## Conditions -/

theorem succeeds_leftSql {left : String} :
    Succeeds (Statement.leftSql left) ↔ (left ≠ "" → Passes .condition left) := by
  unfold Statement.leftSql
  by_cases hleft : left = ""
  · subst hleft
    exact ⟨fun _ h => absurd rfl h, fun _ => succeeds_ok []⟩
  · rw [if_neg (by rwa [String.isEmpty_iff])]
    simp only [Succeeds, nameSql_eq_ok]
    exact ⟨fun h _ => h, fun h => h hleft⟩

theorem mem_testOperators_iff {operator : String} :
    operator ∈ testOperators ↔ Statement.TestForm.ofOperator operator ≠ .unknown := by
  constructor
  · have hall : ∀ o ∈ testOperators, Statement.TestForm.ofOperator o ≠ .unknown := by decide
    exact hall operator
  · intro h
    have hall : ∀ form : Statement.TestForm, ∀ o ∈ form.operators, o ∈ testOperators := by
      rintro (_ | _ | _ | _ | _ | _ | _) <;> decide
    exact hall _ _ (Statement.TestForm.mem_operators h)

theorem eq_between_iff {operator : String} :
    operator = "BETWEEN" ↔ Statement.TestForm.ofOperator operator = .bounds := by
  constructor
  · rintro rfl
    decide
  · intro h
    exact List.mem_singleton.mp (Statement.TestForm.mem_of_ofOperator h nofun)

section Operand

/-! Apart from the two forms that look at their right side in a way of their own, all tests are
  written from the SQL of an operand. -/

variable {operator : String} (hsuffix : Statement.TestForm.ofOperator operator ≠ .suffix)
  (hbounds : Statement.TestForm.ofOperator operator ≠ .bounds)

include hsuffix hbounds

theorem testWrites_operand {left sql : Sql} {right : Expr} :
    TestWrites operator left right sql
      ↔ ∃ operand, right.WritesOperand operand
          ∧ Statement.testSql operator left operand = .ok sql := by
  unfold TestWrites
  split
  · exact absurd ‹_› hsuffix
  · exact absurd ‹_› hbounds
  · exact Iff.rfl

theorem shown_operand {left right : Expr} :
    (Node.predicate (.compare left operator right)).shown = leftParts left ++ [.operand right] := by
  simp only [Node.shown]

/-- Such a test has SQL unless its operator is not known. -/
theorem succeeds_testSql {left operand : Sql} :
    Succeeds (Statement.testSql operator left operand) ↔ operator ∈ testOperators := by
  rw [mem_testOperators_iff]
  unfold Statement.testSql
  cases hform : Statement.TestForm.ofOperator operator with
  | suffix => exact absurd hform hsuffix
  | bounds => exact absurd hform hbounds
  | unknown => exact ⟨fun h => absurd h (not_succeeds_error _), fun h => absurd rfl h⟩
  | middle => exact ⟨fun _ => nofun, fun _ => succeeds_ok _⟩
  | leading => exact ⟨fun _ => nofun, fun _ => succeeds_ok _⟩
  | someElement => exact ⟨fun _ => nofun, fun _ => succeeds_ok _⟩
  | everyElement => exact ⟨fun _ => nofun, fun _ => succeeds_ok _⟩

end Operand

/-- Whatever stands to its left, a test can be written when its operator is known and its right side
    is what the operator takes. -/
theorem exists_testWrites {operator : String} {left : Sql} {c : Column} {right : Expr}
    (h : right.IsOperand) :
    (∃ sql, TestWrites operator left right sql)
      ↔ (operator ∈ testOperators ∧ (operator = "BETWEEN" → ∃ low high, right.Bounds low high))
        ∧ ∀ n ∈ (Node.predicate (.compare (.column c) operator right)).shown, n.Writable := by
  by_cases hsuffix : Statement.TestForm.ofOperator operator = .suffix
  · -- the right side is there, and nothing of it shows
    have hknown : operator ∈ testOperators := by
      rw [mem_testOperators_iff, hsuffix]
      decide
    have hother : operator ≠ "BETWEEN" := by
      rw [Ne, eq_between_iff, hsuffix]
      decide
    simp only [TestWrites, Node.shown, hsuffix]
    constructor
    · intro _
      exact ⟨⟨hknown, fun hop => absurd hop hother⟩, List.forall_mem_nil _⟩
    · intro _
      exact ⟨_, h, rfl⟩
  by_cases hbounds : Statement.TestForm.ofOperator operator = .bounds
  · have hknown : operator ∈ testOperators := by
      rw [mem_testOperators_iff, hbounds]
      decide
    simp only [TestWrites, Node.shown, hbounds]
    constructor
    · rintro ⟨_, low, high, hb, -⟩
      exact ⟨⟨hknown, fun _ => ⟨low, high, hb⟩⟩, List.forall_mem_nil _⟩
    · rintro ⟨⟨-, hb⟩, -⟩
      obtain ⟨low, high, hb⟩ := hb (eq_between_iff.mpr hbounds)
      exact ⟨_, low, high, hb, rfl⟩
  · have hother : operator ≠ "BETWEEN" := fun hop => hbounds (eq_between_iff.mp hop)
    simp only [testWrites_operand hsuffix hbounds]
    rw [shown_operand hsuffix hbounds, leftParts, List.nil_append, List.forall_mem_singleton]
    constructor
    · rintro ⟨sql, operand, hwrites, hok⟩
      have hknown := (succeeds_testSql hsuffix hbounds).mp ⟨sql, hok⟩
      exact ⟨⟨hknown, fun hop => absurd hop hother⟩, operand, hwrites⟩
    · rintro ⟨⟨hknown, -⟩, operand, hwrites⟩
      obtain ⟨sql, hok⟩ := (succeeds_testSql hsuffix hbounds).mpr hknown
      exact ⟨sql, operand, hwrites, hok⟩

theorem exists_writes_children {children : List Predicate} :
    (∃ parts, List.Forall₂ (Predicate.Writes false) children parts)
      ↔ ∀ n ∈ children.map Node.predicate, n.Writable := by
  rw [forall₂_total, List.forall_mem_map]
  exact forall₂_congr fun p _ => Predicate.exists_writes

namespace Predicate

/-! A connective is written exactly when its operands are. -/

theorem writable_and {children : List Predicate} {grouped : Bool} :
    (Node.predicate (.and children grouped)).Writable
      ↔ ∀ n ∈ children.map Node.predicate, n.Writable := by
  rw [← exists_writes_children]
  constructor
  · rintro ⟨_, h⟩
    obtain ⟨parts, hparts, -⟩ := writes_and.mp h
    exact ⟨parts, hparts⟩
  · rintro ⟨parts, hparts⟩
    exact ⟨_, writes_and.mpr ⟨parts, hparts, rfl⟩⟩

theorem writable_or {children : List Predicate} :
    (Node.predicate (.or children)).Writable
      ↔ ∀ n ∈ children.map Node.predicate, n.Writable := by
  rw [← exists_writes_children]
  constructor
  · rintro ⟨_, h⟩
    obtain ⟨parts, hparts, -⟩ := writes_or.mp h
    exact ⟨parts, hparts⟩
  · rintro ⟨parts, hparts⟩
    exact ⟨_, writes_or.mpr ⟨parts, hparts, rfl⟩⟩

theorem writable_not {p : Predicate} :
    (Node.predicate (.not (some p))).Writable ↔ (Node.predicate p).Writable := by
  constructor
  · rintro ⟨_, h⟩
    obtain ⟨_, body, hp, hbody, -⟩ := writes_not.mp h
    obtain rfl := Option.some.inj hp
    exact ⟨body, hbody⟩
  · rintro ⟨body, hbody⟩
    exact ⟨_, writes_not.mpr ⟨p, body, rfl, hbody, rfl⟩⟩

end Predicate

theorem Predicate.writable_iff {p : Predicate} (h : (Node.predicate p).Steps) :
    (Node.predicate p).Writable ↔ p.Acceptable ∧ ∀ n ∈ (Node.predicate p).shown, n.Writable := by
  obtain ⟨hfits, hparts⟩ := Predicate.steps_iff.mp h
  show (∃ sql, p.Writes true sql) ↔ _
  cases p with
  | compare left operator right =>
    cases left with
    | column c =>
      have hright : right.IsOperand :=
        hparts (.operand right) (List.mem_append_right _ (List.mem_singleton.mpr rfl))
      simp only [writes_compare]
      rw [Acceptable, ← succeeds_leftSql, and_assoc]
      constructor
      · rintro ⟨sql, c', leftPart, hc, hleft, htest⟩
        cases hc
        exact ⟨⟨leftPart, hleft⟩, (exists_testWrites hright).mp ⟨sql, htest⟩⟩
      · rintro ⟨⟨leftPart, hleft⟩, hrest⟩
        obtain ⟨sql, htest⟩ := (exists_testWrites hright).mpr hrest
        exact ⟨sql, c, leftPart, rfl, hleft, htest⟩
    | _ => exact hfits.elim
  | and children grouped => exact writable_and.trans (true_and _).symm.to_iff
  | or children => exact writable_or.trans (true_and _).symm.to_iff
  | not child =>
    obtain ⟨p, rfl⟩ := Option.isSome_iff_exists.mp hfits
    have hshown : (Node.predicate (.not (some p))).shown = [.predicate p] := rfl
    rw [hshown, List.forall_mem_singleton]
    exact writable_not.trans (true_and _).symm.to_iff
  | raw text => exact writable_leaf fun _ => writes_raw

/-! ## A SELECT -/

theorem exists_writesColumns {columns : List Expr} :
    (∃ parts, List.Forall₂ Expr.WritesColumn columns parts)
      ↔ (∀ e ∈ columns, LabelPasses e.label) ∧ ∀ n ∈ columns.map Node.expr, n.Writable := by
  rw [forall₂_total, List.forall_mem_map, ← forall₂_and]
  refine forall₂_congr fun e _ => ?_
  rw [← exists_labelWrites]
  constructor
  · rintro ⟨_, body, label, hbody, hlabel, -⟩
    exact ⟨⟨label, hlabel⟩, body, hbody⟩
  · rintro ⟨⟨label, hlabel⟩, body, hbody⟩
    exact ⟨_, body, label, hbody, hlabel, rfl⟩

theorem exists_fromWrites {source : Option FromClause} (h : ∀ f ∈ source, f.source.Fits) :
    (∃ sql, FromWrites source sql)
      ↔ (∀ f ∈ source, f.source.Acceptable ∧ LabelPasses f.label)
        ∧ ∀ n ∈ source.toList.flatMap (·.source.parts), n.Writable := by
  cases source with
  | none => exact ⟨fun _ => ⟨nofun, nofun⟩, fun _ => ⟨[], rfl⟩⟩
  | some f =>
    have hsource := Source.exists_writes (h f rfl)
    simp only [FromWrites, Option.mem_some_iff, forall_eq', Option.toList_some,
      List.flatMap_singleton, ← exists_labelWrites]
    rw [and_right_comm, ← hsource]
    constructor
    · rintro ⟨_, source, label, hs, hl, -⟩
      exact ⟨⟨source, hs⟩, label, hl⟩
    · rintro ⟨⟨source, hs⟩, label, hl⟩
      exact ⟨_, source, label, hs, hl, rfl⟩

theorem exists_writesJoins {joins : List JoinClause} (h : ∀ j ∈ joins, j.source.Fits) :
    (∃ parts, List.Forall₂ JoinClause.Writes joins parts)
      ↔ (∀ j ∈ joins, j.source.Acceptable ∧ LabelPasses j.label)
        ∧ ∀ n ∈ joins.flatMap JoinClause.parts, n.Writable := by
  rw [forall₂_total, List.forall_mem_flatMap, ← forall₂_and]
  refine forall₂_congr fun j hj => ?_
  have hsource := Source.exists_writes (h j hj)
  rw [JoinClause.parts, List.forall_mem_append, List.forall_mem_singleton, ← exists_labelWrites]
  constructor
  · rintro ⟨_, source, label, condition, hs, hl, hc, -⟩
    obtain ⟨hname, hparts⟩ := hsource.mp ⟨source, hs⟩
    exact ⟨⟨hname, label, hl⟩, hparts, condition, hc⟩
  · rintro ⟨⟨hname, label, hl⟩, hparts, condition, hc⟩
    obtain ⟨source, hs⟩ := hsource.mpr ⟨hname, hparts⟩
    exact ⟨_, source, label, condition, hs, hl, hc, rfl⟩

theorem exists_writesWiths {withs : List WithClause} (h : ∀ w ∈ withs, w.query.select.isSome) :
    (∃ parts, List.Forall₂ WithClause.Writes withs parts)
      ↔ (∀ w ∈ withs, Passes .selection w.name)
        ∧ ∀ n ∈ withs.flatMap (·.query.parts), n.Writable := by
  rw [forall₂_total, List.forall_mem_flatMap, ← forall₂_and]
  refine forall₂_congr fun w hw => ?_
  rw [← Subquery.exists_writes (h w hw)]
  constructor
  · rintro ⟨_, name, query, hn, hq, -⟩
    exact ⟨⟨name, hn⟩, query, hq⟩
  · rintro ⟨⟨name, hn⟩, query, hq⟩
    exact ⟨_, name, query, hn, hq, rfl⟩

theorem exists_writesUnions {unions : List UnionMember}
    (h : ∀ u ∈ unions, u.query.select.isSome) :
    (∃ parts, List.Forall₂ UnionMember.Writes unions parts)
      ↔ ∀ n ∈ unions.flatMap (·.query.parts), n.Writable := by
  rw [forall₂_total, List.forall_mem_flatMap]
  refine forall₂_congr fun u hu => ?_
  rw [← Subquery.exists_writes (h u hu)]
  -- a member differs from a subquery in its brackets only
  constructor
  · rintro ⟨_, q, body, hq, hbody, -⟩
    exact ⟨_, q, body, hq, hbody, rfl⟩
  · rintro ⟨_, q, body, hq, hbody, -⟩
    exact ⟨_, q, body, hq, hbody, rfl⟩

theorem exists_writesItems {items : List OrderItem} :
    (∃ parts, List.Forall₂ OrderItem.Writes items parts)
      ↔ ∀ item ∈ items, Passes .selection item.column.joined := by
  rw [forall₂_total]
  refine forall₂_congr fun item _ => ?_
  constructor
  · rintro ⟨_, name, hname, -⟩
    exact ⟨name, hname⟩
  · rintro ⟨name, hname⟩
    exact ⟨_, name, hname, rfl⟩

theorem Select.writable_iff {q : Select} (h : q.Fits) :
    (Node.select q).Writable ↔ q.Acceptable ∧ ∀ n ∈ q.parts, n.Writable := by
  have hgroup : (∃ parts, List.Forall₂ (fun c => NameWrites .selection c.joined) q.groupBy parts)
      ↔ ∀ c ∈ q.groupBy, Passes .selection c.joined := forall₂_total
  -- `a` are about the SELECT itself, `p` about its parts
  simp only [parts, List.forall_mem_append]
  constructor
  · rintro ⟨_, hsql⟩
    obtain ⟨c, hc, -⟩ := Select.writes_iff.mp hsql
    obtain ⟨a₁, p₁⟩ := (exists_writesWiths h.withs).mp ⟨_, hc.withs⟩
    obtain ⟨a₂, p₂⟩ := exists_writesColumns.mp ⟨_, hc.columns⟩
    obtain ⟨a₃, p₃⟩ := (exists_fromWrites h.source).mp ⟨_, hc.source⟩
    obtain ⟨a₄, p₄⟩ := (exists_writesJoins h.joins).mp ⟨_, hc.joins⟩
    have p₅ := exists_clauseWrites.mp ⟨_, hc.prewhere⟩
    have p₆ := exists_clauseWrites.mp ⟨_, hc.filter⟩
    have a₅ := hgroup.mp ⟨_, hc.groupBy⟩
    have p₇ := exists_clauseWrites.mp ⟨_, hc.having⟩
    have a₆ := exists_writesItems.mp ⟨_, hc.orderBy⟩
    have p₈ := (exists_writesUnions h.unions).mp ⟨_, hc.unions⟩
    exact ⟨⟨a₁, a₂, a₃, a₄, a₅, a₆⟩, ⟨⟨⟨⟨⟨⟨p₁, p₂⟩, p₃⟩, p₄⟩, p₅⟩, p₆⟩, p₇⟩, p₈⟩
  · rintro ⟨⟨a₁, a₂, a₃, a₄, a₅, a₆⟩, ⟨⟨⟨⟨⟨⟨p₁, p₂⟩, p₃⟩, p₄⟩, p₅⟩, p₆⟩, p₇⟩, p₈⟩
    obtain ⟨withs, hwiths⟩ := (exists_writesWiths h.withs).mpr ⟨a₁, p₁⟩
    obtain ⟨columns, hcolumns⟩ := exists_writesColumns.mpr ⟨a₂, p₂⟩
    obtain ⟨source, hsource⟩ := (exists_fromWrites h.source).mpr ⟨a₃, p₃⟩
    obtain ⟨joins, hjoins⟩ := (exists_writesJoins h.joins).mpr ⟨a₄, p₄⟩
    obtain ⟨prewhere, hprewhere⟩ := exists_clauseWrites.mpr p₅
    obtain ⟨filter, hfilter⟩ := exists_clauseWrites.mpr p₆
    obtain ⟨groupBy, hgroupBy⟩ := hgroup.mpr a₅
    obtain ⟨having, hhaving⟩ := exists_clauseWrites.mpr p₇
    obtain ⟨orderBy, horderBy⟩ := exists_writesItems.mpr a₆
    obtain ⟨unions, hunions⟩ := (exists_writesUnions h.unions).mpr p₈
    refine ⟨_, Select.writes_iff.mpr ⟨⟨withs, columns, source, joins, prewhere, filter, groupBy,
      having, orderBy, unions⟩, ?_, rfl⟩⟩
    exact ⟨hwiths, hcolumns, hsource, hjoins, hprewhere, hfilter, hgroupBy, hhaving, horderBy,
      hunions⟩

/-! ## Nodes -/

namespace Node

/-- A node can be written when it keeps its rule, and all of its parts that show can be. -/
theorem writable_iff {n : Node} (h : n.Steps) :
    n.Writable ↔ n.Acceptable ∧ ∀ m ∈ n.shown, m.Writable := by
  have hfits := (steps_iff.mp h).1
  cases n with
  | expr e => exact Expr.writable_iff hfits
  | operand e => exact Expr.writable_operand_iff hfits
  | predicate p => exact Predicate.writable_iff h
  | select q => exact Select.writable_iff hfits

/-- A node can be written exactly when all that shows in it keeps its rule. -/
theorem writable_iff_every_shown {n : Node} (h : n.Steps) :
    n.Writable ↔ ∀ m : Node, m.Shows n → m.Acceptable := by
  induction n using induction with
  | step n ih =>
    have hparts : ∀ m ∈ n.shown, (m.Writable ↔ ∀ l : Node, l.Shows m → l.Acceptable) := by
      intro m hm
      have hpart := mem_parts_of_mem_shown hm
      exact ih m hpart ((steps_iff.mp h).2 m hpart)
    rw [writable_iff h]
    constructor
    · rintro ⟨hn, hshown⟩ l hl
      rcases Relation.ReflTransGen.cases_head hl with rfl | ⟨m, hm, hlm⟩
      · exact hn
      · exact (hparts m hm).mp (hshown m hm) l hlm
    · intro hall
      refine ⟨hall n .refl, fun m hm => (hparts m hm).mpr fun l hl => ?_⟩
      exact hall l (.head hm hl)

end Node

/-! ## Whole queries -/

namespace Query

/-- Something is written for a query when its names pass and its topmost nodes can be written. -/
theorem exists_writes {q : Query} :
    (∃ sql, q.Writes sql) ↔ q.NamesPass ∧ ∀ n ∈ q.parts, n.Writable := by
  cases q with
  | select q =>
    rw [parts, List.forall_mem_singleton]
    exact (true_and _).symm.to_iff
  | insert q =>
    have hcolumns : (∃ columns, List.Forall₂ (NameWrites .selection) q.columns columns)
        ↔ ∀ c ∈ q.columns, Passes .selection c := forall₂_total
    constructor
    · rintro ⟨_, table, columns, ht, hc, -⟩
      exact ⟨⟨⟨table, ht⟩, hcolumns.mp ⟨columns, hc⟩⟩, List.forall_mem_nil _⟩
    · rintro ⟨⟨⟨table, ht⟩, hc⟩, -⟩
      obtain ⟨columns, hc⟩ := hcolumns.mpr hc
      exact ⟨_, table, columns, ht, hc, rfl⟩
  | update q =>
    have hassignments : (∃ parts, List.Forall₂ AssignmentWrites q.assignments parts)
        ↔ ∀ entry ∈ q.assignments, Passes .selection entry.1 := by
      rw [forall₂_total]
      refine forall₂_congr fun entry _ => ?_
      constructor
      · rintro ⟨_, name, hname, -⟩
        exact ⟨name, hname⟩
      · rintro ⟨name, hname⟩
        exact ⟨_, name, hname, rfl⟩
    constructor
    · rintro ⟨_, table, assignments, filter, ht, ha, hf, -⟩
      exact ⟨⟨⟨table, ht⟩, hassignments.mp ⟨assignments, ha⟩⟩, exists_clauseWrites.mp ⟨filter, hf⟩⟩
    · rintro ⟨⟨⟨table, ht⟩, ha⟩, hf⟩
      obtain ⟨assignments, ha⟩ := hassignments.mpr ha
      obtain ⟨filter, hf⟩ := exists_clauseWrites.mpr hf
      exact ⟨_, table, assignments, filter, ht, ha, hf, rfl⟩
  | delete q =>
    constructor
    · rintro ⟨_, table, filter, ht, hf, -⟩
      exact ⟨⟨table, ht⟩, exists_clauseWrites.mp ⟨filter, hf⟩⟩
    · rintro ⟨⟨table, ht⟩, hf⟩
      obtain ⟨filter, hf⟩ := exists_clauseWrites.mpr hf
      exact ⟨_, table, filter, ht, hf, rfl⟩

/-- The topmost nodes can be written exactly when all that shows keeps its rule. -/
theorem writable_parts_iff {q : Query} (hsteps : ∀ n ∈ q.parts, n.Steps) :
    (∀ n ∈ q.parts, n.Writable) ↔ ∀ n, q.Emits n → n.Acceptable := by
  constructor
  · rintro hall n ⟨m, hm, hn⟩
    exact (Node.writable_iff_every_shown (hsteps m hm)).mp (hall m hm) n hn
  · intro hall m hm
    exact (Node.writable_iff_every_shown (hsteps m hm)).mpr fun n hn => hall n ⟨m, hm, hn⟩

/-- The text of the SQL is there when the SQL is. -/
theorem succeeds_toSql {q : Query} : Succeeds q.toSql ↔ Succeeds q.compile := by
  simp only [Succeeds, toSql, mapError_eq_ok]
  exact succeeds_map

/-- A query with a valid report that is refused has a statement that cannot be written. -/
theorem toSql_of_valid {q : Query} (h : q.report.valid = true) {e : Error}
    (he : q.toSql = .error e) :
    ∃ s f, Statement.ofQuery q = .ok s ∧ s.toSql = .error f
      ∧ e = f.toError.wrap .validation "Query validation failed" := by
  obtain ⟨-, s, hs⟩ := valid_report_iff.mp h
  have hcompile : q.compile = s.toSql.mapError .unwritable := by
    show q.checked.accepted >>= _ = _
    rw [accepted_of_valid h hs]
    rfl
  rw [toSql, hcompile] at he
  cases hsql : s.toSql with
  | ok sql =>
    rw [hsql] at he
    cases he
  | error f =>
    rw [hsql] at he
    exact ⟨s, f, hs, hsql, (Except.error.inj he).symm⟩

end Query

/-- **Exactly these queries compile.**  The report is valid, the names around the nodes pass, and
    every node that shows in the SQL, at any depth, keeps its rule.  A query whose report is not
    valid is refused with the errors of the report; any other one that is refused, with the fault of
    the writing. -/
theorem compiles_exactly_when_acceptable (q : Query) :
    ((∃ sql, q.toSql = .ok sql)
        ↔ q.report.valid = true ∧ q.NamesPass ∧ ∀ n, q.Emits n → n.Acceptable)
      ∧ (q.report.valid = false → q.toSql = .error (.invalid
          ("Query validation failed: " ++ String.intercalate ", " q.report.errors) "query" none))
      ∧ (q.report.valid = true → ∀ e, q.toSql = .error e →
          ∃ s f, Statement.ofQuery q = .ok s ∧ s.toSql = .error f
            ∧ e = f.toError.wrap .validation "Query validation failed") := by
  refine ⟨?_, Query.toSql_of_not_valid, fun h e he => Query.toSql_of_valid h he⟩
  refine Query.succeeds_toSql.trans ?_
  simp only [Succeeds, Query.compile_iff, exists_and_left, Query.exists_writes,
    Query.valid_report_iff]
  constructor
  · rintro ⟨hclean, hnames, hparts⟩
    obtain ⟨sql, hsql⟩ := Query.exists_writes.mpr ⟨hnames, hparts⟩
    obtain ⟨s, hs, -⟩ := Query.writes_iff.mpr hsql
    have hsteps := succeeds_ofQuery.mp ⟨s, hs⟩
    exact ⟨⟨hclean, s, hs⟩, hnames, (Query.writable_parts_iff hsteps).mp hparts⟩
  · rintro ⟨⟨hclean, hstatement⟩, hnames, hall⟩
    have hsteps := succeeds_ofQuery.mp hstatement
    exact ⟨hclean, hnames, (Query.writable_parts_iff hsteps).mpr hall⟩

/-- The two ways to be refused: a table without a name, and a name with two dots. -/
theorem refusals_of_two_deletes :
    (Query.delete { table := "" }).report.valid = false
      ∧ (Query.delete { table := "" }).toSql = .error (.invalid ("Query validation failed: "
          ++ "Invalid table identifier: must be a non-empty string") "query" none)
      ∧ (Query.delete { table := "a.b.c" }).report.valid = true
      ∧ ∃ s f e, Statement.ofQuery (.delete { table := "a.b.c" }) = .ok s ∧ s.toSql = .error f
        ∧ e = f.toError.wrap .validation "Query validation failed"
        ∧ (Query.delete { table := "a.b.c" }).toSql = .error e := by
  have hempty : (Query.delete { table := "" }).report.valid = false := by decide
  have hdots : (Query.delete { table := "a.b.c" }).report.valid = true := by decide
  have hfault : (Query.delete { table := "a.b.c" }).toSql = .error
      ((Statement.Unwritable.identifier (.tooManyParts "a.b.c")).toError.wrap .validation
        "Query validation failed") := by
    with_unfolding_all rfl
  obtain ⟨s, f, hs, hf, he⟩ :=
    (compiles_exactly_when_acceptable (.delete { table := "a.b.c" })).2.2 hdots _ hfault
  exact ⟨hempty, (compiles_exactly_when_acceptable (.delete { table := "" })).2.1 hempty, hdots,
    s, f, _, hs, hf, he, hfault⟩

end SqlLoom
