/-
  A column paired with a combinator is paired with each of its operators.

      {age: or [= 1, and [> 2, raw, {b: = 3}]]}   =   or [{age: = 1}, and [{age: > 2}, raw, {b: = 3}]]

  There are two ways to lower a combinator.  `applyColumn` hands a column down to the bare operators in
  it; `combinatorToPredicate` has no column to hand down, and a bare operator is a fault.  `pairWith`
  gives each bare operator its column beforehand; it goes down through combinators and stops at
  records, which name columns of their own.  The second way on the result is the first way on the
  original — the same tree, or the same fault (`combinatorToPredicate_pairWith`).

  The two recursions are followed side by side, with one case for each kind of condition.  They part
  only at bare operators: there the second one finds a record with one entry, which stands for its
  test.
-/
import SqlLoom.Condition.Lowering

namespace SqlLoom

/-! ## Columns given beforehand -/

mutual

/-- The condition, with the column given to each bare operator. -/
def Condition.pairWith (column : String) : Condition → Condition
  | .operator op => .pair column (.operator op)
  | .combined c => .combined (c.pairWith column)
  | .record entries => .record entries
  | .raw sql => .raw sql

/-- The combinator, with the column given to each bare operator. -/
def Combinator.pairWith (column : String) : Combinator → Combinator
  | ⟨connective, conditions⟩ => ⟨connective, conditionsPairWith column conditions⟩

/-- The conditions, in order, with the column given to each bare operator. -/
def conditionsPairWith (column : String) : List Condition → List Condition
  | [] => []
  | c :: rest => c.pairWith column :: conditionsPairWith column rest

end

/-! ## Two ways to lower -/

namespace Lowering

/-- A record with one entry stands for its test. -/
theorem lowerRecord_singleton (column : String) (test : ColumnTest) :
    lowerRecord [(column, test)] = lowerTest column test := by
  rw [lowerRecord, lowerEntries]
  cases lowerTest column test with
  | ok p => rfl
  | error f => rfl

/-- No condition comes or goes, so a combinator does not become empty, and neither does it cease to
    be. -/
theorem requireConditions_pairWith (column : String) (c : Combinator) :
    requireConditions (c.pairWith column) = requireConditions c := by
  obtain ⟨connective, conditions⟩ := c
  cases conditions <;> rfl

mutual

/-- With its column given beforehand, a condition is lowered as with the column handed down. -/
theorem conditionToPredicate_pairWith (column : String) :
    ∀ c : Condition, conditionToPredicate (c.pairWith column) = applyColumnTo column c
  | .operator op => lowerRecord_singleton column (.operator op)
  | .combined c => combinatorToPredicate_pairWith column c
  | .record _ => rfl
  | .raw _ => rfl

theorem combinatorToPredicate_pairWith (column : String) :
    ∀ c : Combinator, combinatorToPredicate (c.pairWith column) = applyColumn column c
  | ⟨connective, conditions⟩ => by
    have hrequired := requireConditions_pairWith column ⟨connective, conditions⟩
    rw [Combinator.pairWith] at hrequired ⊢
    rw [combinatorToPredicate, applyColumn, hrequired,
      conditionsToPredicates_pairWith column conditions]

/-- The first condition that fails is the same one. -/
theorem conditionsToPredicates_pairWith (column : String) :
    ∀ cs : List Condition,
      conditionsToPredicates (conditionsPairWith column cs) = applyColumnEach column cs
  | [] => rfl
  | c :: cs => by
    rw [conditionsPairWith, conditionsToPredicates, applyColumnEach,
      conditionToPredicate_pairWith column c, conditionsToPredicates_pairWith column cs]

end

/-- **A column that is handed down and a column given to each operator come to the same**: the same
    predicate, or the same fault. -/
theorem column_in_scope_is_column_of_each (column : String) (c : Combinator) :
    applyColumn column c = combinatorToPredicate (c.pairWith column)
      ∧ (Condition.pair column (.combined c)).toPredicate
          = (Condition.combined (c.pairWith column)).toPredicate := by
  have hpaired := combinatorToPredicate_pairWith column c
  exact ⟨hpaired.symm, (lowerRecord_singleton column (.combined c)).trans hpaired.symm⟩

/-- The operator of the record keeps its own column, and the fault is that of the inner NOT, which is
    met before the operator behind it. -/
example :
    let c : Combinator := .or [.operator .isNull, .record [("b", .operator .isNull)],
      .combined ⟨.not, []⟩, .operator ⟨.eq, .nothing⟩]
    c.pairWith "a" = .or [.pair "a" (.operator .isNull), .record [("b", .operator .isNull)],
        .combined ⟨.not, []⟩, .pair "a" (.operator ⟨.eq, .nothing⟩)]
      ∧ applyColumn "a" c = .error (.emptyCombinator .not) :=
  ⟨rfl, rfl⟩

end Lowering

end SqlLoom
