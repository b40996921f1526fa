/-
  When a query has a statement.

  The step to a statement fails on a few forms only, and each is a matter of one node (`Node.Fits`):
  a test whose left side is no column or whose right side is computed, an incomplete CASE branch, a
  NOT without operand, a subquery without query.  A node steps exactly when it fits and all of its
  parts step (`Node.steps_iff`).
-/
import SqlLoom.Proofs.Findings
import SqlLoom.Proofs.Outcome
import SqlLoom.Statement.OfQuery

namespace SqlLoom

open Outcome
open Statement (ofExpr ofExprs ofOtherwise ofBranch ofBranches ofPredicate ofPredicates ofClause
  ofOperand ofSubquery ofSource ofFrom ofJoins ofWiths ofUnions ofSelect)

/-! ## The rule of one node -/

/-- What an expression has to be for the step. -/
def Expr.Fits : Expr → Prop
  | .subquery s => s.select.isSome
  | .cases branches _ _ => ∀ b ∈ branches, b.Complete
  | _ => True

/-- What an expression at the side of a test has to be for the step. -/
def Expr.FitsOperand : Expr → Prop
  | .subquery s => s.select.isSome
  | .raw _ _ => False
  | .call _ _ _ => False
  | .cases _ _ _ => False
  | _ => True

/-- What a condition has to be for the step. -/
def Predicate.Fits : Predicate → Prop
  | .compare (.column _) _ _ => True
  | .compare _ _ _ => False
  | .not child => child.isSome
  | _ => True

/-- A table, or a subquery with its query. -/
def Source.Fits : Source → Prop
  | .table _ => True
  | .subquery s => s.select.isSome

/-- What a SELECT has to be for the step. -/
structure Select.Fits (q : Select) : Prop where
  withs : ∀ w ∈ q.withs, w.query.select.isSome
  source : ∀ f ∈ q.source, f.source.Fits
  joins : ∀ j ∈ q.joins, j.source.Fits
  unions : ∀ u ∈ q.unions, u.query.select.isSome

/-- The rule of a node. -/
def Node.Fits : Node → Prop
  | .expr e => e.Fits
  | .operand e => e.FitsOperand
  | .predicate p => p.Fits
  | .select q => q.Fits

/-- A node that has a counterpart in a statement. -/
def Node.Steps : Node → Prop
  | .expr e => Succeeds (ofExpr e)
  | .operand e => Succeeds (ofOperand e)
  | .predicate p => Succeeds (ofPredicate p)
  | .select q => Succeeds (ofSelect q)

/-! ## Lists and optional parts -/

theorem succeeds_ofExprs {es : List Expr} :
    Succeeds (ofExprs es) ↔ ∀ e ∈ es, Succeeds (ofExpr e) := by
  induction es with
  | nil => exact ⟨fun _ => nofun, fun _ => succeeds_ok []⟩
  | cons e es ih => rw [ofExprs, succeeds_bind₂, ih, List.forall_mem_cons]

theorem succeeds_ofPredicates {ps : List Predicate} :
    Succeeds (ofPredicates ps) ↔ ∀ p ∈ ps, Succeeds (ofPredicate p) := by
  induction ps with
  | nil => exact ⟨fun _ => nofun, fun _ => succeeds_ok []⟩
  | cons p ps ih => rw [ofPredicates, succeeds_bind₂, ih, List.forall_mem_cons]

theorem succeeds_ofSubquery {s : Subquery} :
    Succeeds (ofSubquery s) ↔ s.select.isSome ∧ ∀ n ∈ s.parts, n.Steps := by
  obtain ⟨select, label⟩ := s
  cases select with
  | none => exact ⟨fun h => absurd h (not_succeeds_error _), fun h => nomatch h.1⟩
  | some q =>
    constructor
    · intro h
      refine ⟨rfl, fun n hn => ?_⟩
      rw [List.mem_singleton.mp hn]
      exact h
    · rintro ⟨-, h⟩
      exact h (.select q) (List.mem_singleton.mpr rfl)

theorem succeeds_ofBranch {b : Branch} :
    Succeeds (ofBranch b) ↔ b.Complete ∧ ∀ n ∈ b.parts, n.Steps := by
  obtain ⟨condition, result⟩ := b
  cases condition with
  | none => exact ⟨fun h => absurd h (not_succeeds_error _), fun h => nomatch h.1.1⟩
  | some p =>
    cases result with
    | none => exact ⟨fun h => absurd h (not_succeeds_error _), fun h => nomatch h.1.2⟩
    | some e =>
      have hparts : (∀ n ∈ (Branch.mk (some p) (some e)).parts, n.Steps)
          ↔ Succeeds (ofPredicate p) ∧ Succeeds (ofExpr e) := by
        simp [Branch.parts, Node.Steps]
      rw [hparts, ofBranch, succeeds_bind₂]
      exact ⟨fun h => ⟨⟨rfl, rfl⟩, h⟩, And.right⟩

theorem succeeds_ofBranches {bs : List Branch} :
    Succeeds (ofBranches bs)
      ↔ (∀ b ∈ bs, b.Complete) ∧ ∀ n ∈ bs.flatMap Branch.parts, n.Steps := by
  induction bs with
  | nil => exact ⟨fun _ => ⟨nofun, nofun⟩, fun _ => succeeds_ok []⟩
  | cons b bs ih =>
    rw [ofBranches, succeeds_bind₂, ih, succeeds_ofBranch, List.forall_mem_cons, List.flatMap_cons,
      List.forall_mem_append]
    exact and_and_and_comm

theorem succeeds_ofOtherwise {otherwise : Option Expr} :
    Succeeds (ofOtherwise otherwise) ↔ ∀ n ∈ otherwise.toList.map Node.expr, n.Steps := by
  cases otherwise with
  | none => exact ⟨fun _ => nofun, fun _ => succeeds_ok none⟩
  | some e =>
    rw [ofOtherwise, succeeds_bind_pure]
    simp [Node.Steps]

theorem succeeds_ofClause {clause : Option Predicate} :
    Succeeds (ofClause clause) ↔ ∀ n ∈ clauseParts clause, n.Steps := by
  cases clause with
  | none => exact ⟨fun _ => nofun, fun _ => succeeds_ok []⟩
  | some p =>
    rw [ofClause, succeeds_bind_pure]
    simp [clauseParts, Node.Steps]

theorem succeeds_ofSource {s : Source} :
    Succeeds (ofSource s) ↔ s.Fits ∧ ∀ n ∈ s.parts, n.Steps := by
  cases s with
  | table name => exact ⟨fun _ => ⟨trivial, nofun⟩, fun _ => succeeds_ok _⟩
  | subquery s =>
    rw [ofSource, succeeds_bind_pure]
    exact succeeds_ofSubquery

theorem succeeds_ofFrom {source : Option FromClause} :
    Succeeds (ofFrom source) ↔ (∀ f ∈ source, f.source.Fits)
      ∧ ∀ n ∈ source.toList.flatMap (·.source.parts), n.Steps := by
  cases source with
  | none => exact ⟨fun _ => ⟨nofun, nofun⟩, fun _ => succeeds_ok none⟩
  | some f =>
    obtain ⟨source, label⟩ := f
    rw [ofFrom, succeeds_bind_pure, succeeds_ofSource]
    simp

theorem succeeds_ofJoins {joins : List JoinClause} :
    Succeeds (ofJoins joins) ↔ (∀ j ∈ joins, j.source.Fits)
      ∧ ∀ n ∈ joins.flatMap JoinClause.parts, n.Steps := by
  induction joins with
  | nil => exact ⟨fun _ => ⟨nofun, nofun⟩, fun _ => succeeds_ok []⟩
  | cons j joins ih =>
    obtain ⟨kind, source, label, condition⟩ := j
    rw [ofJoins, succeeds_bind fun _ => succeeds_bind₂, ih, succeeds_ofSource]
    simp only [List.forall_mem_cons, List.flatMap_cons, List.forall_mem_append, JoinClause.parts,
      Node.Steps]
    tauto

theorem succeeds_ofWiths {withs : List WithClause} :
    Succeeds (ofWiths withs) ↔ (∀ w ∈ withs, w.query.select.isSome)
      ∧ ∀ n ∈ withs.flatMap (·.query.parts), n.Steps := by
  induction withs with
  | nil => exact ⟨fun _ => ⟨nofun, nofun⟩, fun _ => succeeds_ok []⟩
  | cons w withs ih =>
    obtain ⟨name, query⟩ := w
    rw [ofWiths, succeeds_bind₂, ih, succeeds_ofSubquery, List.forall_mem_cons, List.flatMap_cons,
      List.forall_mem_append]
    exact and_and_and_comm

theorem succeeds_ofUnions {unions : List UnionMember} :
    Succeeds (ofUnions unions) ↔ (∀ u ∈ unions, u.query.select.isSome)
      ∧ ∀ n ∈ unions.flatMap (·.query.parts), n.Steps := by
  induction unions with
  | nil => exact ⟨fun _ => ⟨nofun, nofun⟩, fun _ => succeeds_ok []⟩
  | cons u unions ih =>
    obtain ⟨operator, query⟩ := u
    rw [ofUnions, succeeds_bind₂, ih, succeeds_ofSubquery, List.forall_mem_cons, List.flatMap_cons,
      List.forall_mem_append]
    exact and_and_and_comm

/-! ## Nodes -/

/-- A form that always has a counterpart, and has no parts. -/
theorem succeeds_leaf {α : Type} (a : α) :
    Succeeds (.ok a : Except Statement.Unsupported α) ↔ True ∧ ∀ n ∈ ([] : List Node), n.Steps :=
  ⟨fun _ => ⟨trivial, nofun⟩, fun _ => succeeds_ok a⟩

theorem Expr.steps_iff {e : Expr} :
    (Node.expr e).Steps ↔ e.Fits ∧ ∀ n ∈ e.parts, n.Steps := by
  show Succeeds (ofExpr e) ↔ _
  cases e with
  | subquery s =>
    rw [ofExpr, succeeds_bind_pure]
    exact succeeds_ofSubquery
  | call function args label =>
    rw [ofExpr, succeeds_bind_pure, succeeds_ofExprs]
    simp [Fits, parts, Node.Steps]
  | cases branches otherwise label =>
    rw [ofExpr, succeeds_bind₂, succeeds_ofBranches, succeeds_ofOtherwise, parts,
      List.forall_mem_append, and_assoc]
    rfl
  | column c => exact succeeds_leaf _
  | value v label => exact succeeds_leaf _
  | array items label => exact succeeds_leaf _
  | tuple items label => exact succeeds_leaf _
  | raw sql label => exact succeeds_leaf _

theorem Expr.stepsOperand_iff {e : Expr} :
    (Node.operand e).Steps ↔ e.FitsOperand ∧ ∀ n ∈ e.parts, n.Steps := by
  show Succeeds (ofOperand e) ↔ _
  cases e with
  | subquery s =>
    rw [ofOperand, succeeds_bind_pure]
    exact succeeds_ofSubquery
  | column c => exact succeeds_leaf _
  | value v label => exact succeeds_leaf _
  | array items label => exact succeeds_leaf _
  | tuple items label => exact succeeds_leaf _
  | raw sql label => exact ⟨fun h => absurd h (not_succeeds_error _), fun h => h.1.elim⟩
  | call function args label =>
    exact ⟨fun h => absurd h (not_succeeds_error _), fun h => h.1.elim⟩
  | cases branches otherwise label =>
    exact ⟨fun h => absurd h (not_succeeds_error _), fun h => h.1.elim⟩

theorem Predicate.steps_iff {p : Predicate} :
    (Node.predicate p).Steps ↔ p.Fits ∧ ∀ n ∈ p.parts, n.Steps := by
  show Succeeds (ofPredicate p) ↔ _
  cases p with
  | compare left operator right =>
    cases left with
    | column c =>
      rw [ofPredicate, succeeds_bind_pure]
      simp [Fits, parts, leftParts, Node.Steps]
    | _ => exact ⟨fun h => absurd h (not_succeeds_error _), fun h => h.1.elim⟩
  | and children grouped =>
    rw [ofPredicate, succeeds_bind_pure, succeeds_ofPredicates]
    simp [Fits, parts, Node.Steps]
  | or children =>
    rw [ofPredicate, succeeds_bind_pure, succeeds_ofPredicates]
    simp [Fits, parts, Node.Steps]
  | not child =>
    cases child with
    | none => exact ⟨fun h => absurd h (not_succeeds_error _), fun h => absurd h.1 Bool.false_ne_true⟩
    | some p =>
      rw [ofPredicate, succeeds_bind_pure]
      simp [Fits, parts, Node.Steps]
  | raw sql => exact succeeds_leaf _

theorem Select.steps_iff {q : Select} :
    (Node.select q).Steps ↔ q.Fits ∧ ∀ n ∈ q.parts, n.Steps := by
  show Succeeds (ofSelect q) ↔ _
  obtain ⟨columns, source, joins, withs, prewhere, filter, groupBy, having, orderBy, limit, offset,
    final, settings, format, unions, recorded⟩ := q
  -- the eight steps that can fail, in the order in which they are taken
  have hsteps : Succeeds (ofSelect ⟨columns, source, joins, withs, prewhere, filter, groupBy,
      having, orderBy, limit, offset, final, settings, format, unions, recorded⟩)
      ↔ Succeeds (ofWiths withs) ∧ Succeeds (ofExprs columns) ∧ Succeeds (ofFrom source)
        ∧ Succeeds (ofJoins joins) ∧ Succeeds (ofClause prewhere) ∧ Succeeds (ofClause filter)
        ∧ Succeeds (ofClause having) ∧ Succeeds (ofUnions unions) := by
    rw [ofSelect]
    exact succeeds_bind fun _ => succeeds_bind fun _ => succeeds_bind fun _ => succeeds_bind
      fun _ => succeeds_bind fun _ => succeeds_bind fun _ => succeeds_bind fun _ =>
        succeeds_bind_pure
  have hcolumns : (∀ e ∈ columns, Succeeds (ofExpr e)) ↔ ∀ n ∈ columns.map Node.expr, n.Steps := by
    rw [List.forall_mem_map]
    rfl
  rw [hsteps, succeeds_ofWiths, succeeds_ofExprs, hcolumns, succeeds_ofFrom, succeeds_ofJoins,
    succeeds_ofClause, succeeds_ofClause, succeeds_ofClause, succeeds_ofUnions]
  simp only [parts, List.forall_mem_append]
  -- `h` are about the SELECT itself, `p` about its parts
  constructor
  · rintro ⟨⟨h₁, p₁⟩, p₂, ⟨h₂, p₃⟩, ⟨h₃, p₄⟩, p₅, p₆, p₇, h₄, p₈⟩
    exact ⟨⟨h₁, h₂, h₃, h₄⟩, ⟨⟨⟨⟨⟨⟨p₁, p₂⟩, p₃⟩, p₄⟩, p₅⟩, p₆⟩, p₇⟩, p₈⟩
  · rintro ⟨⟨h₁, h₂, h₃, h₄⟩, ⟨⟨⟨⟨⟨⟨p₁, p₂⟩, p₃⟩, p₄⟩, p₅⟩, p₆⟩, p₇⟩, p₈⟩
    exact ⟨⟨h₁, p₁⟩, p₂, ⟨h₂, p₃⟩, ⟨h₃, p₄⟩, p₅, p₆, p₇, h₄, p₈⟩

/-- A node steps exactly when it fits and all of its parts step. -/
theorem Node.steps_iff {n : Node} : n.Steps ↔ n.Fits ∧ ∀ m ∈ n.parts, m.Steps := by
  cases n with
  | expr e => exact Expr.steps_iff
  | operand e => exact Expr.stepsOperand_iff
  | predicate p => exact Predicate.steps_iff
  | select q => exact Select.steps_iff

/-- A query has a statement exactly when its topmost nodes step. -/
theorem succeeds_ofQuery {q : Query} :
    Succeeds (Statement.ofQuery q) ↔ ∀ n ∈ q.parts, n.Steps := by
  cases q with
  | select q =>
    rw [Query.parts, List.forall_mem_singleton]
    rfl
  | insert q => exact ⟨fun _ => List.forall_mem_nil _, fun _ => succeeds_ok _⟩
  | update q => exact succeeds_bind_pure.trans succeeds_ofClause
  | delete q => exact succeeds_bind_pure.trans succeeds_ofClause

end SqlLoom
