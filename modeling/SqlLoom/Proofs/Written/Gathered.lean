/-
  Conditions given one after the other.

  The first condition stands as it is; each further one is added to what there is.  What there is
  changes its form on the way — one condition, a group that was asked for, or an AND that only
  collects — and so may what is added.  Seen through `conjuncts` the forms are one, a list of
  operands, and adding is `++`:

      conjuncts (conjoin (some a) b)  =  conjuncts a ++ conjuncts b

  1. `conjoin_assoc`, `gather_cons_cons`  — adding is associative, and a whole run of additions is
     one flat AND;
  2. `writes_collected`                   — which is written with AND between its operands and no
     brackets around them, at the top of a clause or not;
  3. `filter_eq_gather`                   — the WHERE tree of a builder is such a run, over the
     conditions that could be lowered.
-/
import SqlLoom.Proofs.Written.Fragment

namespace SqlLoom

open Sql (code)

namespace Predicate

/-! ## One condition after the other -/

/-- What is left of conditions that are given one after the other. -/
def gather (ps : List Predicate) : Option Predicate :=
  ps.foldl (fun tree p => some (conjoin tree p)) none

/-- What does not only collect is its own operand. -/
theorem conjuncts_of_ne {p : Predicate} (h : ∀ children, p ≠ .and children false) :
    p.conjuncts = [p] := by
  unfold conjuncts
  split
  · rename_i children
    exact absurd rfl (h children)
  · rfl

theorem conjuncts_conjoin (a b : Predicate) :
    (conjoin (some a) b).conjuncts = a.conjuncts ++ b.conjuncts := rfl

theorem conjoin_assoc (tree : Option Predicate) (b c : Predicate) :
    conjoin (some (conjoin tree b)) c = conjoin tree (conjoin (some b) c) := by
  cases tree with
  | none => rfl
  | some a =>
    show Predicate.and ((conjoin (some a) b).conjuncts ++ c.conjuncts) false
      = .and (a.conjuncts ++ (conjoin (some b) c).conjuncts) false
    rw [conjuncts_conjoin, conjuncts_conjoin, List.append_assoc]

/-- Behind a first condition, all operands are in one list. -/
theorem foldl_conjoin (p q : Predicate) (rest : List Predicate) :
    (q :: rest).foldl (fun tree r => some (conjoin tree r)) (some p)
      = some (.and ((p :: q :: rest).flatMap conjuncts) false) := by
  -- the tree so far takes the place of the first condition
  induction rest generalizing p q with
  | nil => simp [conjoin]
  | cons r rest ih =>
    rw [List.foldl_cons, ih]
    simp only [List.flatMap_cons, conjuncts_conjoin, List.append_assoc]

theorem gather_cons_cons (p q : Predicate) (rest : List Predicate) :
    gather (p :: q :: rest) = some (.and ((p :: q :: rest).flatMap conjuncts) false) :=
  foldl_conjoin p q rest

/-! ## Their SQL -/

/-- An AND that only collects has no brackets of its own. -/
theorem writes_collected {top : Bool} {children : List Predicate} {sql : Sql} :
    (and children false).Writes top sql
      ↔ ∃ parts, List.Forall₂ (Writes false) children parts ∧ sql = Sql.joined " AND " parts :=
  writes_and

/-- The clause of a run of conditions. -/
theorem clauseWrites_gather {keyword : String} {p q : Predicate} {rest : List Predicate}
    {sql : Sql} :
    ClauseWrites keyword (gather (p :: q :: rest)) sql
      ↔ ∃ parts, List.Forall₂ (Writes false) ((p :: q :: rest).flatMap conjuncts) parts
          ∧ sql = code keyword ++ Sql.joined " AND " parts := by
  rw [gather_cons_cons]
  constructor
  · rintro ⟨body, hbody, rfl⟩
    obtain ⟨parts, hparts, rfl⟩ := writes_collected.mp hbody
    exact ⟨parts, hparts, rfl⟩
  · rintro ⟨parts, hparts, rfl⟩
    exact ⟨_, writes_collected.mpr ⟨parts, hparts, rfl⟩, rfl⟩

end Predicate

/-! ## The WHERE tree -/

namespace History

/-- What the conditions for WHERE are lowered to, in order; those that cannot be lowered are out. -/
def predicates (h : History) : List Predicate :=
  h.filters.filterMap (·.toPredicate.toOption)

theorem foldl_collect_eq (conditions : List Condition) (tree : Option Predicate) :
    conditions.foldl (fun tree c => Clause.collect tree (.filter, c)) tree
      = (conditions.filterMap (·.toPredicate.toOption)).foldl
          (fun tree p => some (Predicate.conjoin tree p)) tree := by
  induction conditions generalizing tree with
  | nil => rfl
  | cons c conditions ih =>
    rw [List.foldl_cons, ih]
    cases hc : c.toPredicate with
    | ok p => simp [Clause.collect, hc, Except.toOption]
    | error f => simp [Clause.collect, hc, Except.toOption]

theorem filter_eq_gather (h : History) : h.query.filter = Predicate.gather h.predicates := by
  rw [filter_eq_foldl, foldl_collect_eq, predicates, Predicate.gather]

/-- The SQL of a builder has the operands of all its conditions for WHERE, one behind the other. -/
theorem collected_of_compile {h : History} {sql : Sql} (hsql : h.query.compile = .ok sql)
    {p q : Predicate} {rest : List Predicate} (hp : h.predicates = p :: q :: rest) :
    ∃ parts, List.Forall₂ (Predicate.Writes false) (h.predicates.flatMap Predicate.conjuncts) parts
      ∧ code " WHERE " ++ Sql.joined " AND " parts <:+: sql := by
  have hfilter : h.query.filter = some (.and (h.predicates.flatMap Predicate.conjuncts) false) := by
    rw [filter_eq_gather, hp, Predicate.gather_cons_cons]
  obtain ⟨-, hwrites⟩ := Query.compile_iff.mp hsql
  obtain ⟨_, ⟨body, hbody, rfl⟩, hinfix⟩ :=
    Query.holds_condition hwrites (Query.condition_of_filter hfilter)
  obtain ⟨parts, hparts, rfl⟩ := Predicate.writes_collected.mp hbody
  exact ⟨parts, hparts, hinfix⟩

end History

/-! ## The result -/

namespace Predicate

/-- **Repeated conditions gather flatly, in order and associatively.**  No operand is lost, doubled
    or moved, and groups that were asked for stay together. -/
theorem repeated_conditions_gather_flatly :
    (∀ p : Predicate, gather [p] = some p)
      ∧ (∀ (p q : Predicate) rest,
          gather (p :: q :: rest) = some (.and ((p :: q :: rest).flatMap conjuncts) false))
      ∧ (∀ children, (Predicate.and children false).conjuncts = children)
      ∧ (∀ p : Predicate, (∀ children, p ≠ .and children false) → p.conjuncts = [p])
      ∧ (∀ (tree : Option Predicate) b c,
          conjoin (some (conjoin tree b)) c = conjoin tree (conjoin (some b) c))
      ∧ (∀ keyword (p q : Predicate) rest sql, ClauseWrites keyword (gather (p :: q :: rest)) sql
          ↔ ∃ parts, List.Forall₂ (Writes false) ((p :: q :: rest).flatMap conjuncts) parts
              ∧ sql = code keyword ++ Sql.joined " AND " parts)
      ∧ (∀ h : History, h.query.filter = gather h.predicates)
      ∧ ∀ (h : History) sql p q rest, h.query.compile = .ok sql → h.predicates = p :: q :: rest →
          ∃ parts, List.Forall₂ (Writes false) (h.predicates.flatMap conjuncts) parts
            ∧ code " WHERE " ++ Sql.joined " AND " parts <:+: sql := by
  refine ⟨fun _ => rfl, gather_cons_cons, fun _ => rfl, fun _ h => conjuncts_of_ne h, conjoin_assoc,
    fun _ _ _ _ _ => clauseWrites_gather, History.filter_eq_gather, ?_⟩
  exact fun h sql p q rest hsql hp => History.collected_of_compile hsql hp

end Predicate

/-- A record with two columns, a group that was asked for, and one more condition. -/
def History.repeated : History :=
  .delete "t"
    [.addFilter (.record
        [("a", .operator (.compare .eq (.value (.int 1)))), ("b", .operator .isNull)]),
      .addFilter (.combined (.and [.raw "c", .raw "d"])),
      .addFilter (.raw "e")]

/-- The record comes apart, the group does not, and the operands are still in order. -/
theorem Predicate.repeated_conditions_gather_flatly_of_repeated :
    ∃ sql parts, History.repeated.query.compile = .ok sql
      ∧ sql.text = "ALTER TABLE \x60t\x60 DELETE WHERE "
          ++ "\x60a\x60 = 1 AND \x60b\x60 IS NULL AND (c AND d) AND e"
      ∧ List.Forall₂ (Predicate.Writes false)
          (History.repeated.predicates.flatMap Predicate.conjuncts) parts
      ∧ code " WHERE " ++ Sql.joined " AND " parts <:+: sql := by
  obtain ⟨parts, hparts, hinfix⟩ := Predicate.repeated_conditions_gather_flatly.2.2.2.2.2.2.2
    History.repeated _ _ _ _ rfl rfl
  exact ⟨_, parts, rfl, rfl, hparts, hinfix⟩

end SqlLoom
