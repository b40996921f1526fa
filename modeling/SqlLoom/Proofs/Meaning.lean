/-
  What a condition means, and what its lowering means.

  A truth assignment `env` says which leaves hold — a leaf is the predicate of one operator under one
  column, or a raw fragment.  It gives a meaning to both sides of lowering:

  * `Predicate.holds`  — the truth of a lowered tree;
  * `Condition.holds`  — the truth of a condition, with the column in scope for its bare operators.
    A column that is paired with a combinator is in scope at every depth of nested combinators; a
    record names its own columns and is the AND of its entries.

  1. A lowered condition means what the condition means (`holds_of_lower`), so that the WHERE tree
     of a builder is the conjunction of the conditions given to it.
  2. Lowering fails exactly on a FLAWED condition, one in which some operator, combinator or record,
     at any depth, is no good (`lowers_iff_not_flawed`).
-/
import Mathlib.Tactic.ByContra
import SqlLoom.Proofs.History
import SqlLoom.Proofs.Outcome

namespace SqlLoom

open Outcome

/-! ## The truth of a predicate -/

namespace Predicate

mutual

/-- The truth of a tree.  NOT without an operand has no meaning and does not hold. -/
def holds (env : Predicate → Bool) : Predicate → Bool
  | .compare left operator right => env (.compare left operator right)
  | .and children _ => allHold env children
  | .or children => anyHolds env children
  | .not child => negandFails env child
  | .raw sql => env (.raw sql)

/-- Every one of the trees holds. -/
def allHold (env : Predicate → Bool) : List Predicate → Bool
  | [] => true
  | p :: rest => holds env p && allHold env rest

/-- One of the trees holds. -/
def anyHolds (env : Predicate → Bool) : List Predicate → Bool
  | [] => false
  | p :: rest => holds env p || anyHolds env rest

/-- There is an operand and it does not hold. -/
def negandFails (env : Predicate → Bool) : Option Predicate → Bool
  | none => false
  | some p => !holds env p

end

theorem allHold_append (env : Predicate → Bool) (ps qs : List Predicate) :
    allHold env (ps ++ qs) = (allHold env ps && allHold env qs) := by
  induction ps with
  | nil => rfl
  | cons p ps ih => simp only [List.cons_append, allHold, ih, Bool.and_assoc]

theorem allHold_eq_all (env : Predicate → Bool) (ps : List Predicate) :
    allHold env ps = ps.all (·.holds env) := by
  induction ps with
  | nil => rfl
  | cons p ps ih => rw [allHold, ih, List.all_cons]

theorem anyHolds_eq_any (env : Predicate → Bool) (ps : List Predicate) :
    anyHolds env ps = ps.any (·.holds env) := by
  induction ps with
  | nil => rfl
  | cons p ps ih => rw [anyHolds, ih, List.any_cons]

/-- The operands of an AND hold together exactly when it does. -/
theorem allHold_conjuncts (env : Predicate → Bool) (p : Predicate) :
    allHold env p.conjuncts = p.holds env := by
  unfold conjuncts
  split
  · rfl
  · simp [allHold]

/-- Conjoining adds one predicate to those that have to hold. -/
theorem holds_conjoin (env : Predicate → Bool) (tree : Option Predicate) (p : Predicate) :
    (conjoin tree p).holds env = (tree.all (·.holds env) && p.holds env) := by
  cases tree with
  | none => rfl
  | some current =>
    rw [conjoin, holds, allHold_append, allHold_conjuncts, allHold_conjuncts]
    rfl

end Predicate

/-! ## The truth of a condition -/

/-- The truth of an operator about the column in scope. -/
def Operator.holds (env : Predicate → Bool) (scope : Option String) (op : Operator) : Bool :=
  match scope with
  | none => false
  | some column =>
    match op.toPredicate column with
    | .ok p => env p
    | .error _ => false

mutual

/-- The truth of a condition, with the column in scope. -/
def Condition.holds (env : Predicate → Bool) (scope : Option String) : Condition → Bool
  | .operator op => op.holds env scope
  | .combined c => c.holds env scope
  | .record entries => entriesHold env entries
  | .raw sql => env (.raw sql)

/-- The truth of a combinator: all of its conditions, one of them, or not its single one. -/
def Combinator.holds (env : Predicate → Bool) (scope : Option String) : Combinator → Bool
  | ⟨.and, conditions⟩ => conditionsHold env scope conditions
  | ⟨.or, conditions⟩ => someConditionHolds env scope conditions
  | ⟨.not, conditions⟩ => !conditionsHold env scope conditions

/-- Every one of the conditions holds. -/
def conditionsHold (env : Predicate → Bool) (scope : Option String) : List Condition → Bool
  | [] => true
  | c :: rest => c.holds env scope && conditionsHold env scope rest

/-- One of the conditions holds. -/
def someConditionHolds (env : Predicate → Bool) (scope : Option String) : List Condition → Bool
  | [] => false
  | c :: rest => c.holds env scope || someConditionHolds env scope rest

/-- Every entry of a record holds, each about its own column. -/
def entriesHold (env : Predicate → Bool) : List (String × ColumnTest) → Bool
  | [] => true
  | (column, test) :: rest => test.holds env column && entriesHold env rest

/-- The truth of one column's test. -/
def ColumnTest.holds (env : Predicate → Bool) (column : String) : ColumnTest → Bool
  | .operator op => op.holds env (some column)
  | .combined c => c.holds env (some column)

end

/-! ## Lowering keeps the meaning -/

namespace Lowering

/-- The predicate of an operator is a leaf: a test. -/
theorem compare_of_toPredicate {column : String} {op : Operator} {p : Predicate}
    (h : op.toPredicate column = .ok p) :
    ∃ left operator right, p = .compare left operator right := by
  unfold Operator.toPredicate at h
  split at h <;>
    · obtain ⟨operand, -, rfl⟩ := map_eq_ok.mp h
      exact ⟨_, _, _, rfl⟩

theorem holds_of_toPredicate (env : Predicate → Bool) {column : String} {op : Operator}
    {p : Predicate} (h : op.toPredicate column = .ok p) :
    p.holds env = op.holds env (some column) := by
  have hop : op.holds env (some column) = env p := by simp only [Operator.holds, h]
  obtain ⟨left, operator, right, rfl⟩ := compare_of_toPredicate h
  rw [hop, Predicate.holds]

theorem holds_combineRecord (env : Predicate → Bool) (ps : List Predicate) :
    (combineRecord ps).holds env = Predicate.allHold env ps := by
  unfold combineRecord
  split
  · simp [Predicate.allHold]
  · rfl

mutual

theorem holds_of_lower (env : Predicate → Bool) (scope : Option String) :
    ∀ (c : Condition) {p : Predicate}, lower scope c = .ok p → p.holds env = c.holds env scope
  | .operator op, p, h => by
    cases scope with
    | none => exact nomatch h
    | some column => exact holds_of_toPredicate env h
  | .combined c, p, h => by
    rw [lower_combined] at h
    exact holds_of_lowerCombinator env scope c h
  | .record [], p, h => by
    rw [lower_record] at h
    exact nomatch h
  | .record (entry :: entries), p, h => by
    rw [lower_record, lowerRecord_cons] at h
    obtain ⟨ps, hps, rfl⟩ := map_eq_ok.mp h
    rw [holds_combineRecord, holds_of_lowerEntries env (entry :: entries) hps]
    rfl
  | .raw sql, p, h => by
    rw [lower_raw] at h
    cases h
    rfl

theorem holds_of_lowerCombinator (env : Predicate → Bool) (scope : Option String) :
    ∀ (c : Combinator) {p : Predicate},
      lowerCombinator scope c = .ok p → p.holds env = c.holds env scope
  | ⟨connective, []⟩, p, h => by
    rw [lowerCombinator_nil] at h
    exact nomatch h
  | ⟨connective, c :: cs⟩, p, h => by
    rw [lowerCombinator_cons] at h
    obtain ⟨ps, hps, hp⟩ := bind_eq_ok.mp h
    obtain ⟨hall, hany⟩ := holds_of_lowerAll env scope (c :: cs) hps
    cases connective with
    | and => cases hp; exact hall
    | or => cases hp; exact hany
    | not =>
      -- NOT lowers only over a single operand, and then "all" is that one
      match ps, hp with
      | [child], hp =>
        cases hp
        have : (child.holds env && true) = conditionsHold env scope (c :: cs) := hall
        rw [Combinator.holds, ← this, Bool.and_true]
        rfl

theorem holds_of_lowerAll (env : Predicate → Bool) (scope : Option String) :
    ∀ (cs : List Condition) {ps : List Predicate}, lowerAll scope cs = .ok ps →
      Predicate.allHold env ps = conditionsHold env scope cs
        ∧ Predicate.anyHolds env ps = someConditionHolds env scope cs
  | [], ps, h => by
    rw [lowerAll_nil] at h
    cases h
    exact ⟨rfl, rfl⟩
  | c :: cs, ps, h => by
    rw [lowerAll_cons] at h
    obtain ⟨p, hp, h⟩ := bind_eq_ok.mp h
    obtain ⟨qs, hqs, h⟩ := bind_eq_ok.mp h
    cases h
    obtain ⟨hall, hany⟩ := holds_of_lowerAll env scope cs hqs
    have hc := holds_of_lower env scope c hp
    exact ⟨by rw [Predicate.allHold, conditionsHold, hc, hall],
      by rw [Predicate.anyHolds, someConditionHolds, hc, hany]⟩

theorem holds_of_lowerEntries (env : Predicate → Bool) :
    ∀ (entries : List (String × ColumnTest)) {ps : List Predicate},
      lowerEntries entries = .ok ps → Predicate.allHold env ps = entriesHold env entries
  | [], ps, h => by cases h; rfl
  | (column, test) :: rest, ps, h => by
    obtain ⟨p, hp, h⟩ := bind_eq_ok.mp h
    obtain ⟨qs, hqs, h⟩ := bind_eq_ok.mp h
    cases h
    rw [Predicate.allHold, entriesHold, holds_of_lowerTest env column test hp,
      holds_of_lowerEntries env rest hqs]

theorem holds_of_lowerTest (env : Predicate → Bool) (column : String) :
    ∀ (test : ColumnTest) {p : Predicate},
      lowerTest column test = .ok p → p.holds env = test.holds env column
  | .operator _, _, h => holds_of_toPredicate env h
  | .combined c, _, h => holds_of_lowerCombinator env (some column) c h

end

end Lowering

/-! ## The WHERE tree -/

/-- One more condition that can be lowered is one more thing to hold. -/
theorem Clause.holds_collect (env : Predicate → Bool) (tree : Option Predicate) {c : Condition}
    {p : Predicate} (h : c.toPredicate = .ok p) :
    (collect tree (filter, c)).all (·.holds env) = (tree.all (·.holds env) && c.holds env none) := by
  have hp : p.holds env = c.holds env none := Lowering.holds_of_lower env none c h
  have hc : collect tree (filter, c) = some (Predicate.conjoin tree p) := by
    simp only [collect, h]
  rw [hc, Option.all_some, Predicate.holds_conjoin, hp]

/-- Only the conditions for WHERE are collected. -/
theorem foldl_collect (given : List Given) (tree : Option Predicate) :
    given.foldl Clause.collect tree
      = (given.filterMap Clause.filter?).foldl (fun tree c => Clause.collect tree (.filter, c))
          tree := by
  induction given generalizing tree with
  | nil => rfl
  | cons g given ih =>
    obtain ⟨clause, c⟩ := g
    cases clause with
    | filter => exact ih (Clause.collect tree (.filter, c))
    | prewhere => exact ih tree
    | having => exact ih tree
    | join => exact ih tree

/-- Conditions that can be lowered are all collected: what is left of them is their conjunction. -/
theorem holds_foldl_collect (env : Predicate → Bool) (conditions : List Condition)
    (tree : Option Predicate) (h : ∀ c ∈ conditions, ∃ p, c.toPredicate = .ok p) :
    (conditions.foldl (fun tree c => Clause.collect tree (.filter, c)) tree).all (·.holds env)
      = (tree.all (·.holds env) && conditions.all (·.holds env none)) := by
  -- the tree so far is what the conditions before have left
  induction conditions generalizing tree with
  | nil => exact (Bool.and_true _).symm
  | cons c conditions ih =>
    obtain ⟨⟨p, hp⟩, hrest⟩ := List.forall_mem_cons.mp h
    rw [List.foldl_cons, ih _ hrest, Clause.holds_collect env tree hp, List.all_cons,
      Bool.and_assoc]

/-- A tree that is there stays, and the first condition that can be lowered makes one. -/
theorem foldl_collect_eq_none (conditions : List Condition) (tree : Option Predicate)
    (h : ∀ c ∈ conditions, ∃ p, c.toPredicate = .ok p) :
    conditions.foldl (fun tree c => Clause.collect tree (.filter, c)) tree = none
      ↔ tree = none ∧ conditions = [] := by
  induction conditions generalizing tree with
  | nil => exact ⟨fun h => ⟨h, rfl⟩, And.left⟩
  | cons c conditions ih =>
    obtain ⟨⟨p, hp⟩, hrest⟩ := List.forall_mem_cons.mp h
    have hc : Clause.collect tree (.filter, c) = some (Predicate.conjoin tree p) := by
      simp only [Clause.collect, hp]
    rw [List.foldl_cons, ih _ hrest, hc]
    exact ⟨fun h => absurd h.1 (Option.some_ne_none _), fun h => absurd h.2 (List.cons_ne_nil _ _)⟩

/-! ## Flaws

  A flaw is a place where lowering has no answer.  Everything else is lowered. -/

/-- The operands that a test takes. -/
def OperatorKind.takes : OperatorKind → Operand → Bool
  | .eq, x | .ne, x | .gt, x | .gte, x | .lt, x | .lte, x | .like, x | .ilike, x =>
    match x with
    | .value _ | .subquery _ => true
    | _ => false
  | .isIn, x | .notIn, x =>
    match x with
    | .list _ | .subquery _ => true
    | _ => false
  | .hasAny, x | .hasAll, x | .inTuple, x =>
    match x with
    | .list _ => true
    | _ => false
  | .between, x =>
    match x with
    | .list items => items.length == 2
    | _ => false
  | .eqColumn, x =>
    match x with
    | .column _ => true
    | _ => false
  | .hasRows, x | .hasNoRows, x =>
    match x with
    | .subquery _ => true
    | _ => false
  | .isNull, _ | .isNotNull, _ => true

mutual

/-- A condition with a flaw in it, at any depth, when `scope` is the column for bare operators. -/
inductive Condition.Flawed : Option String → Condition → Prop where
  | bare (op : Operator) : Condition.Flawed none (.operator op)
  | unsuited (column : String) (op : Operator) (h : op.kind.takes op.operand = false) :
      Condition.Flawed (some column) (.operator op)
  | combined {scope : Option String} {c : Combinator} (h : Combinator.Flawed scope c) :
      Condition.Flawed scope (.combined c)
  | emptyRecord (scope : Option String) : Condition.Flawed scope (.record [])
  | entry {scope : Option String} {column : String} {test : ColumnTest}
      {entries : List (String × ColumnTest)} (hmem : (column, test) ∈ entries)
      (h : ColumnTest.Flawed column test) : Condition.Flawed scope (.record entries)

/-- A combinator with a flaw in it. -/
inductive Combinator.Flawed : Option String → Combinator → Prop where
  | empty (scope : Option String) (connective : Connective) :
      Combinator.Flawed scope ⟨connective, []⟩
  | notOne (scope : Option String) (conditions : List Condition) (h : conditions.length ≠ 1) :
      Combinator.Flawed scope ⟨.not, conditions⟩
  | part {scope : Option String} {connective : Connective} {conditions : List Condition}
      {c : Condition} (hmem : c ∈ conditions) (h : Condition.Flawed scope c) :
      Combinator.Flawed scope ⟨connective, conditions⟩

/-- A column's test with a flaw in it. -/
inductive ColumnTest.Flawed : String → ColumnTest → Prop where
  | unsuited (column : String) (op : Operator) (h : op.kind.takes op.operand = false) :
      ColumnTest.Flawed column (.operator op)
  | combined {column : String} {c : Combinator} (h : Combinator.Flawed (some column) c) :
      ColumnTest.Flawed column (.combined c)

end

namespace Lowering

/-- An operator has a predicate exactly when it takes the operand that it holds. -/
theorem succeeds_toPredicate (column : String) (op : Operator) :
    Succeeds (op.toPredicate column) ↔ op.kind.takes op.operand = true := by
  obtain ⟨kind, operand⟩ := op
  -- only BETWEEN looks into its operand
  cases kind <;> simp only [Operator.toPredicate, succeeds_map] <;> cases operand <;>
    first
      | exact ⟨fun _ => rfl, fun _ => succeeds_ok _⟩
      | exact ⟨fun h => absurd h (not_succeeds_error _), fun h => nomatch h⟩
      | skip
  case between.list items =>
    match items with
    | [low, high] => exact ⟨fun _ => rfl, fun _ => succeeds_ok _⟩
    | [] => exact ⟨fun h => absurd h (not_succeeds_error _), fun h => nomatch h⟩
    | [_] => exact ⟨fun h => absurd h (not_succeeds_error _), fun h => nomatch h⟩
    | _ :: _ :: _ :: rest =>
      refine ⟨fun h => absurd h (not_succeeds_error _), fun h => ?_⟩
      simp [OperatorKind.takes] at h

theorem succeeds_operatorIn (scope : Option String) (op : Operator) :
    Succeeds (operatorIn scope op) ↔ ¬ (Condition.operator op).Flawed scope := by
  cases scope with
  | none => exact ⟨fun h => absurd h (not_succeeds_error _), fun h => absurd (.bare op) h⟩
  | some column =>
    have hop : Succeeds (operatorIn (some column) op) ↔ op.kind.takes op.operand = true :=
      succeeds_toPredicate column op
    rw [hop]
    constructor
    · rintro htakes (_ | ⟨_, _, hno⟩)
      exact Bool.false_ne_true (hno.symm.trans htakes)
    · intro hflaw
      exact eq_true_of_ne_false fun hno => hflaw (.unsuited column op hno)

/-- The operands of a connective are combined unless it is a NOT of several. -/
theorem succeeds_combine (connective : Connective) (ps : List Predicate) :
    Succeeds (combine connective ps) ↔ (connective = .not → ps.length = 1) := by
  cases connective with
  | and => exact ⟨fun _ => nofun, fun _ => succeeds_ok _⟩
  | or => exact ⟨fun _ => nofun, fun _ => succeeds_ok _⟩
  | not =>
    match ps with
    | [p] => exact ⟨fun _ _ => rfl, fun _ => succeeds_ok _⟩
    | [] => exact ⟨fun h => absurd h (not_succeeds_error _), fun h => nomatch h rfl⟩
    | _ :: _ :: rest =>
      refine ⟨fun h => absurd h (not_succeeds_error _), fun h => ?_⟩
      have := h rfl
      simp at this

theorem length_of_lowerAll {scope : Option String} {cs : List Condition} {ps : List Predicate}
    (h : lowerAll scope cs = .ok ps) : ps.length = cs.length := by
  induction cs generalizing ps with
  | nil =>
    rw [lowerAll_nil] at h
    cases h
    rfl
  | cons c cs ih =>
    rw [lowerAll_cons] at h
    obtain ⟨p, -, h⟩ := bind_eq_ok.mp h
    obtain ⟨qs, hqs, h⟩ := bind_eq_ok.mp h
    cases h
    rw [List.length_cons, List.length_cons, ih hqs]

/-- A combinator of one or more conditions has no flaw exactly when none of them has and their
    number suits it. -/
theorem not_flawed_combinator {scope : Option String} {connective : Connective}
    {cs : List Condition} (hne : cs ≠ []) :
    ¬ (⟨connective, cs⟩ : Combinator).Flawed scope
      ↔ (∀ c ∈ cs, ¬ c.Flawed scope) ∧ (connective = .not → cs.length = 1) := by
  constructor
  · intro h
    refine ⟨fun c hc hflaw => h (.part hc hflaw), ?_⟩
    rintro rfl
    by_contra hlength
    exact h (.notOne scope cs hlength)
  · rintro ⟨hparts, hnot⟩ (_ | ⟨_, _, hlength⟩ | ⟨hc, hflaw⟩)
    · exact hne rfl
    · exact hlength (hnot rfl)
    · exact hparts _ hc hflaw

mutual

/-- A condition is lowered exactly when there is no flaw in it. -/
theorem succeeds_lower (scope : Option String) :
    ∀ c : Condition, Succeeds (lower scope c) ↔ ¬ c.Flawed scope
  | .operator op => by
    rw [lower_operator]
    exact succeeds_operatorIn scope op
  | .combined c => by
    rw [lower_combined, succeeds_lowerCombinator scope c, not_iff_not]
    exact ⟨.combined, fun | .combined h => h⟩
  | .record [] => by
    rw [lower_record]
    exact ⟨fun h => absurd h (not_succeeds_error _), fun h => absurd (.emptyRecord scope) h⟩
  | .record (entry :: entries) => by
    rw [lower_record, lowerRecord_cons, succeeds_map, succeeds_lowerEntries (entry :: entries)]
    constructor
    · rintro hentries (_ | _ | _ | _ | ⟨hmem, hflaw⟩)
      exact hentries _ hmem hflaw
    · exact fun h e he hflaw => h (.entry he hflaw)
  | .raw sql => by
    rw [lower_raw]
    exact ⟨fun _ => nofun, fun _ => succeeds_ok _⟩

theorem succeeds_lowerCombinator (scope : Option String) :
    ∀ c : Combinator, Succeeds (lowerCombinator scope c) ↔ ¬ c.Flawed scope
  | ⟨connective, []⟩ => by
    rw [lowerCombinator_nil]
    exact ⟨fun h => absurd h (not_succeeds_error _), fun h => absurd (.empty scope connective) h⟩
  | ⟨connective, c :: cs⟩ => by
    rw [lowerCombinator_cons, not_flawed_combinator (List.cons_ne_nil c cs), ← succeeds_lowerAll scope (c :: cs)]
    constructor
    · rintro ⟨p, h⟩
      obtain ⟨ps, hps, hp⟩ := bind_eq_ok.mp h
      -- NOT counts the predicates, the flaw counts the conditions
      have hcount := (succeeds_combine connective ps).mp ⟨p, hp⟩
      rw [length_of_lowerAll hps] at hcount
      exact ⟨⟨ps, hps⟩, hcount⟩
    · rintro ⟨⟨ps, hps⟩, hcount⟩
      rw [← length_of_lowerAll hps] at hcount
      obtain ⟨p, hp⟩ := (succeeds_combine connective ps).mpr hcount
      exact ⟨p, bind_eq_ok.mpr ⟨ps, hps, hp⟩⟩

theorem succeeds_lowerAll (scope : Option String) :
    ∀ cs : List Condition, Succeeds (lowerAll scope cs) ↔ ∀ c ∈ cs, ¬ c.Flawed scope
  | [] => by
    rw [lowerAll_nil]
    exact ⟨fun _ => nofun, fun _ => succeeds_ok _⟩
  | c :: cs => by
    rw [lowerAll_cons, succeeds_bind₂, succeeds_lower scope c, succeeds_lowerAll scope cs,
      List.forall_mem_cons]

theorem succeeds_lowerEntries :
    ∀ entries : List (String × ColumnTest),
      Succeeds (lowerEntries entries) ↔ ∀ e ∈ entries, ¬ e.2.Flawed e.1
  | [] => ⟨fun _ => nofun, fun _ => succeeds_ok _⟩
  | (column, test) :: rest => by
    rw [lowerEntries, succeeds_bind₂, succeeds_lowerTest column test, succeeds_lowerEntries rest,
      List.forall_mem_cons]

theorem succeeds_lowerTest (column : String) :
    ∀ test : ColumnTest, Succeeds (lowerTest column test) ↔ ¬ test.Flawed column
  | .operator op => by
    rw [lowerTest, succeeds_toPredicate]
    constructor
    · rintro htakes (⟨_, _, hno⟩ | _)
      exact Bool.false_ne_true (hno.symm.trans htakes)
    · intro hflaw
      exact eq_true_of_ne_false fun hno => hflaw (.unsuited column op hno)
  | .combined c => by
    refine (succeeds_lowerCombinator (some column) c).trans (not_congr ?_)
    exact ⟨.combined, fun | .combined h => h⟩

end

end Lowering

/-! ## The two sides of lowering -/

/-- **Headline.**  The WHERE tree of a builder means what its conditions mean together, and a
    condition is refused exactly when there is a flaw in it. -/
theorem lowering_keeps_meaning_and_refuses_flaws :
    (∀ (h : History) (env : Predicate → Bool),
      (∀ c ∈ h.filters, ∃ p, c.toPredicate = .ok p) →
        (h.query.filter = none ↔ h.filters = [])
          ∧ h.query.filter.all (·.holds env) = h.filters.all (·.holds env none))
    ∧ ∀ c : Condition, (∃ f, c.toPredicate = .error f) ↔ c.Flawed none := by
  constructor
  · intro h env hlow
    rw [History.filter_query, foldl_collect]
    constructor
    · refine (foldl_collect_eq_none h.filters none hlow).trans ?_
      exact ⟨And.right, fun hnil => ⟨rfl, hnil⟩⟩
    · exact (holds_foldl_collect env h.filters none hlow).trans (Bool.true_and _)
  · intro c
    rw [Outcome.fails_iff]
    exact (not_congr (Lowering.succeeds_lower none c)).trans not_not

/-- A column with a choice, then a raw fragment: both are given for WHERE and both count. -/
theorem lowering_keeps_meaning_of_choice_and_fragment :
    let choice : Condition :=
      .pair "a" (.combined (.or [.operator (.like "x%"), .operator .isNull]))
    let history : History := .delete "t" [.addFilter choice, .addFilter (.raw "b")]
    history.filters = [choice, .raw "b"]
      ∧ ∀ env, history.query.filter.all (·.holds env)
          = (choice.holds env none && env (.raw "b")) := by
  intro choice history
  refine ⟨rfl, fun env => ?_⟩
  have hlow : ∀ c ∈ history.filters, ∃ p, c.toPredicate = .ok p := by
    intro c hc
    have hcases : c = choice ∨ c = .raw "b" := by
      simpa [history, History.filters, History.given, Delete.Call.given, Clause.filter?] using hc
    rcases hcases with rfl | rfl
    · exact ⟨_, rfl⟩
    · exact ⟨_, rfl⟩
  rw [(lowering_keeps_meaning_and_refuses_flaws.1 history env hlow).2]
  show (choice.holds env none && (env (.raw "b") && true)) = _
  rw [Bool.and_true]

end SqlLoom
