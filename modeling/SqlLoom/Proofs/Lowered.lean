/-
  What a lowered condition is made of.

  Lowering turns a condition into a tree of connectives.  At its leaves stand the tests of the
  condition, each about the column that its operator was paired with, and raw SQL; nothing else.

  1. `Condition.tests`   — the operators of a condition, with their columns;
  2. `Test.Lowered`      — the four forms that a lowered test has (`Test.lowered`);
  3. `Lowering.Closed`   — the induction over lowered conditions: what holds of a predicate of one
     test and passes through the connectives holds of every lowered condition
     (`Lowering.Closed.of_lower`).

  Two properties come at once.  The check never misses the operand of a NOT in a lowered condition
  (`Lowering.negand_given`), and the step to a statement only fails on a subquery
  (`Lowering.step_fault`).
-/
import SqlLoom.Condition.Lowering
import SqlLoom.Proofs.Written.Tree
import SqlLoom.Query.Findings

namespace SqlLoom

open Outcome
open Statement (TestForm)

/-! ## The tests of a condition -/

/-- An operator with the column that it is about. -/
structure Test where
  column : String
  operator : Operator

mutual

/-- The tests of a condition, with the column in scope. -/
def Condition.tests (scope : Option String) : Condition → List Test
  | .operator op => scope.toList.map (⟨·, op⟩)
  | .combined c => c.tests scope
  | .record entries => entryTests entries
  | .raw _ => []

/-- The tests of a combinator. -/
def Combinator.tests (scope : Option String) : Combinator → List Test
  | ⟨_, conditions⟩ => conditionTests scope conditions

/-- The tests of several conditions, in order. -/
def conditionTests (scope : Option String) : List Condition → List Test
  | [] => []
  | c :: rest => c.tests scope ++ conditionTests scope rest

/-- The tests of the entries of a record, each about its own column. -/
def entryTests : List (String × ColumnTest) → List Test
  | [] => []
  | (column, test) :: rest => test.tests column ++ entryTests rest

/-- The tests of one column. -/
def ColumnTest.tests (column : String) : ColumnTest → List Test
  | .operator op => [⟨column, op⟩]
  | .combined c => c.tests (some column)

end

/-! ## What a test names -/

/-- The column that an operand names. -/
def Operand.names : Operand → List String
  | .column name => [name]
  | _ => []

/-- The subquery that an operand is, if it is one. -/
def Operand.subquery? : Operand → Option Subquery
  | .subquery s => some s
  | _ => none

/-- The expression that stands for an operand. -/
def Operand.toExpr : Operand → Expr
  | .nothing => .lit .null
  | .value v => .lit v
  | .list items => .array items none
  | .column name => .named name
  | .subquery s => .subquery s

/-- Whether a test is written from the SQL of its operand. -/
def Statement.TestForm.takesOperand : TestForm → Bool
  | .suffix => false
  | .bounds => false
  | .unknown => false
  | _ => true

namespace Test

/-- The predicate of a test. -/
def toPredicate (t : Test) : Except Lowering.Fault Predicate :=
  t.operator.toPredicate t.column

/-- The columns of a test.  EXISTS has none, and an equality of columns has two. -/
def names (t : Test) : List String :=
  match t.operator.kind with
  | .hasRows => []
  | .hasNoRows => []
  | .eqColumn => t.column :: t.operator.operand.names
  | _ => [t.column]

/-- The subquery of a test, unless it is dropped. -/
def subquery? (t : Test) : Option Subquery :=
  match t.operator.kind with
  | .isNull => none
  | .isNotNull => none
  | _ => t.operator.operand.subquery?

/-- The form of a lowered test. -/
inductive Lowered (t : Test) : Predicate → Prop where
  /-- IS NULL and IS NOT NULL. -/
  | dropped {operator : String} (hform : TestForm.ofOperator operator = .suffix)
      (hnames : t.names = [t.column]) (hquery : t.subquery? = none) :
      Lowered t (.compare (.named t.column) operator (.lit .null))
  | bounds {low high : Value} (hnames : t.names = [t.column]) (hquery : t.subquery? = none) :
      Lowered t (.compare (.named t.column) "BETWEEN" (.tuple [low, high] none))
  /-- A column and an operand. -/
  | operand {operator : String} (hform : (TestForm.ofOperator operator).takesOperand = true)
      (hleft : TestForm.ofOperator operator ≠ .leading)
      (hnames : t.names = t.column :: t.operator.operand.names)
      (hquery : t.subquery? = t.operator.operand.subquery?) :
      Lowered t (.compare (.named t.column) operator t.operator.operand.toExpr)
  /-- EXISTS and NOT EXISTS. -/
  | rows {operator : String} {s : Subquery} (hform : TestForm.ofOperator operator = .leading)
      (hnames : t.names = []) (hquery : t.subquery? = some s) :
      Lowered t (.compare (.column .absent) operator (.subquery s))

end Test

namespace Operator

variable {op : Operator} {e : Expr}

/-- Values, lists and subqueries are taken as they are. -/
theorem eq_toExpr_of_operand
    (h : op.scalarOperand = .ok e ∨ op.memberOperand = .ok e ∨ op.listOperand = .ok e) :
    e = op.operand.toExpr ∧ op.operand.names = [] := by
  obtain ⟨kind, operand⟩ := op
  cases operand <;> rcases h with h | h | h <;>
    first
      | exact ⟨ok_eq_ok.mp h, rfl⟩
      | exact nomatch h

theorem columnOperand_eq_ok (h : op.columnOperand = .ok e) : e = op.operand.toExpr := by
  unfold columnOperand at h
  split at h
  · rename_i name hoperand
    rw [hoperand]
    exact ok_eq_ok.mp h
  · exact nomatch h

theorem existsOperand_eq_ok (h : op.existsOperand = .ok e) :
    ∃ s, op.operand = .subquery s ∧ e = .subquery s := by
  unfold existsOperand at h
  split at h
  · rename_i s hoperand
    exact ⟨s, hoperand, ok_eq_ok.mp h⟩
  · exact nomatch h

theorem boundsOperand_eq_ok (h : op.boundsOperand = .ok e) :
    ∃ low high, op.operand = .list [low, high] ∧ e = .tuple [low, high] none := by
  unfold boundsOperand at h
  split at h
  · rename_i low high hoperand
    exact ⟨low, high, hoperand, ok_eq_ok.mp h⟩
  · exact nomatch h

end Operator

/-- A lowered test has one of the four forms. -/
theorem Test.lowered {t : Test} {p : Predicate} (h : t.toPredicate = .ok p) : t.Lowered p := by
  obtain ⟨column, kind, operand⟩ := t
  cases kind
  case eq | ne | gt | gte | lt | lte | like | ilike =>
    obtain ⟨e, he, rfl⟩ := map_eq_ok.mp h
    obtain ⟨rfl, hnames⟩ := Operator.eq_toExpr_of_operand (.inl he)
    exact .operand (by decide) (by decide) (congrArg (column :: ·) hnames.symm) rfl
  case isIn | notIn =>
    obtain ⟨e, he, rfl⟩ := map_eq_ok.mp h
    obtain ⟨rfl, hnames⟩ := Operator.eq_toExpr_of_operand (.inr (.inl he))
    exact .operand (by decide) (by decide) (congrArg (column :: ·) hnames.symm) rfl
  case hasAny | hasAll | inTuple =>
    obtain ⟨e, he, rfl⟩ := map_eq_ok.mp h
    obtain ⟨rfl, hnames⟩ := Operator.eq_toExpr_of_operand (.inr (.inr he))
    exact .operand (by decide) (by decide) (congrArg (column :: ·) hnames.symm) rfl
  case eqColumn =>
    obtain ⟨e, he, rfl⟩ := map_eq_ok.mp h
    obtain rfl := Operator.columnOperand_eq_ok he
    exact .operand (by decide) (by decide) rfl rfl
  case between =>
    obtain ⟨e, he, rfl⟩ := map_eq_ok.mp h
    obtain ⟨low, high, hoperand, rfl⟩ := Operator.boundsOperand_eq_ok he
    cases hoperand
    exact .bounds rfl rfl
  case isNull | isNotNull =>
    obtain rfl := ok_eq_ok.mp h
    exact .dropped (by decide) rfl rfl
  case hasRows | hasNoRows =>
    obtain ⟨e, he, rfl⟩ := map_eq_ok.mp h
    obtain ⟨s, hoperand, rfl⟩ := Operator.existsOperand_eq_ok he
    cases hoperand
    exact .rows (by decide) rfl rfl

/-! ## The induction -/

namespace Lowering

/-- A property of predicates, with the tests in them, that a lowered test has and that passes
    through raw SQL and through the connectives.  Lowering makes no AND and no OR without an
    operand. -/
structure Closed (P : Predicate → List Test → Prop) : Prop where
  test : ∀ {t p}, t.Lowered p → P p [t]
  raw : ∀ sql, P (.raw sql) []
  and : ∀ {children tests} (grouped : Bool), children ≠ [] → List.Forall₂ P children tests →
    P (.and children grouped) tests.flatten
  or : ∀ {children tests}, children ≠ [] → List.Forall₂ P children tests →
    P (.or children) tests.flatten
  not : ∀ {p tests}, P p tests → P (.not (some p)) tests

theorem ne_nil_of_lowerAll {scope : Option String} {c : Condition} {cs : List Condition}
    {ps : List Predicate} (h : lowerAll scope (c :: cs) = .ok ps) : ps ≠ [] := by
  rw [lowerAll_cons] at h
  obtain ⟨p, -, h⟩ := bind_eq_ok.mp h
  obtain ⟨qs, -, h⟩ := bind_eq_ok.mp h
  obtain rfl := pure_eq_ok.mp h
  exact List.cons_ne_nil p qs

theorem ne_nil_of_lowerEntries {entry : String × ColumnTest} {entries : ConditionRecord}
    {ps : List Predicate} (h : lowerEntries (entry :: entries) = .ok ps) : ps ≠ [] := by
  obtain ⟨p, -, h⟩ := bind_eq_ok.mp h
  obtain ⟨qs, -, h⟩ := bind_eq_ok.mp h
  obtain rfl := pure_eq_ok.mp h
  exact List.cons_ne_nil p qs

namespace Closed

variable {P : Predicate → List Test → Prop}

/-- A combinator passes on what all of its operands have. -/
theorem of_combine (closed : Closed P) {connective : Connective} {children : List Predicate}
    {tests : List (List Test)} (hne : children ≠ []) (h : List.Forall₂ P children tests)
    {p : Predicate} (hp : combine connective children = .ok p) : P p tests.flatten := by
  cases connective with
  | and =>
    obtain rfl := ok_eq_ok.mp hp
    exact closed.and true hne h
  | or =>
    obtain rfl := ok_eq_ok.mp hp
    exact closed.or hne h
  | not =>
    match h, hp with
    | .cons hchild .nil, hp =>
      obtain rfl := ok_eq_ok.mp hp
      simpa using closed.not hchild

theorem of_combineRecord (closed : Closed P) {children : List Predicate}
    {tests : List (List Test)} (hne : children ≠ []) (h : List.Forall₂ P children tests) :
    P (combineRecord children) tests.flatten := by
  unfold combineRecord
  split
  · match h with
    | .cons honly .nil => simpa using honly
  · exact closed.and false hne h

mutual

/-- What passes through lowering holds of every lowered condition. -/
theorem of_lower (closed : Closed P) (scope : Option String) :
    ∀ (c : Condition) {p : Predicate}, lower scope c = .ok p → P p (c.tests scope)
  | .operator op, p, h => by
    cases scope with
    | none => exact nomatch h
    | some column => exact closed.test (Test.lowered (t := ⟨column, op⟩) h)
  | .combined c, p, h => by
    rw [lower_combined] at h
    exact of_lowerCombinator closed scope c h
  | .record [], p, h => by
    rw [lower_record] at h
    exact nomatch h
  | .record (entry :: entries), p, h => by
    rw [lower_record, lowerRecord_cons] at h
    obtain ⟨ps, hps, rfl⟩ := map_eq_ok.mp h
    obtain ⟨tests, htests, heq⟩ := of_lowerEntries closed (entry :: entries) hps
    rw [Condition.tests, heq]
    exact closed.of_combineRecord (ne_nil_of_lowerEntries hps) htests
  | .raw sql, p, h => by
    rw [lower_raw] at h
    obtain rfl := ok_eq_ok.mp h
    exact closed.raw sql

theorem of_lowerCombinator (closed : Closed P) (scope : Option String) :
    ∀ (c : Combinator) {p : Predicate}, lowerCombinator scope c = .ok p → P p (c.tests scope)
  | ⟨connective, []⟩, p, h => by
    rw [lowerCombinator_nil] at h
    exact nomatch h
  | ⟨connective, c :: cs⟩, p, h => by
    rw [lowerCombinator_cons] at h
    obtain ⟨ps, hps, hp⟩ := bind_eq_ok.mp h
    obtain ⟨tests, htests, heq⟩ := of_lowerAll closed scope (c :: cs) hps
    rw [Combinator.tests, heq]
    exact closed.of_combine (ne_nil_of_lowerAll hps) htests hp

theorem of_lowerAll (closed : Closed P) (scope : Option String) :
    ∀ (cs : List Condition) {ps : List Predicate}, lowerAll scope cs = .ok ps →
      ∃ tests, List.Forall₂ P ps tests ∧ conditionTests scope cs = tests.flatten
  | [], ps, h => by
    rw [lowerAll_nil] at h
    obtain rfl := ok_eq_ok.mp h
    exact ⟨[], .nil, rfl⟩
  | c :: cs, ps, h => by
    rw [lowerAll_cons] at h
    obtain ⟨p, hp, h⟩ := bind_eq_ok.mp h
    obtain ⟨qs, hqs, h⟩ := bind_eq_ok.mp h
    obtain rfl := pure_eq_ok.mp h
    obtain ⟨tests, htests, heq⟩ := of_lowerAll closed scope cs hqs
    refine ⟨c.tests scope :: tests, .cons (of_lower closed scope c hp) htests, ?_⟩
    rw [conditionTests, heq, List.flatten_cons]

theorem of_lowerEntries (closed : Closed P) :
    ∀ (entries : List (String × ColumnTest)) {ps : List Predicate}, lowerEntries entries = .ok ps →
      ∃ tests, List.Forall₂ P ps tests ∧ entryTests entries = tests.flatten
  | [], ps, h => by
    obtain rfl := ok_eq_ok.mp h
    exact ⟨[], .nil, rfl⟩
  | (column, test) :: rest, ps, h => by
    obtain ⟨p, hp, h⟩ := bind_eq_ok.mp h
    obtain ⟨qs, hqs, h⟩ := bind_eq_ok.mp h
    obtain rfl := pure_eq_ok.mp h
    obtain ⟨tests, htests, heq⟩ := of_lowerEntries closed rest hqs
    refine ⟨test.tests column :: tests, .cons (of_lowerTest closed column test hp) htests, ?_⟩
    rw [entryTests, heq, List.flatten_cons]

theorem of_lowerTest (closed : Closed P) (column : String) :
    ∀ (test : ColumnTest) {p : Predicate}, lowerTest column test = .ok p → P p (test.tests column)
  | .operator op, _, h => closed.test (Test.lowered (t := ⟨column, op⟩) h)
  | .combined c, _, h => of_lowerCombinator closed (some column) c h

end

/-- A fault that a connective only has from an operand, and raw SQL never has, is a fault of one of
    the tests. -/
theorem of_faults {fault : Predicate → Prop} {blame : Test → Prop}
    (test : ∀ {t p}, t.Lowered p → fault p → blame t) (raw : ∀ sql, ¬ fault (.raw sql))
    (and : ∀ children grouped, fault (.and children grouped) → ∃ p ∈ children, fault p)
    (or : ∀ children, fault (.or children) → ∃ p ∈ children, fault p)
    (not : ∀ p, fault (.not (some p)) → fault p) :
    Closed fun p tests => fault p → ∃ t ∈ tests, blame t := by
  have hchildren : ∀ {children tests},
      List.Forall₂ (fun p ts => fault p → ∃ t ∈ ts, blame t) children tests →
        (∃ p ∈ children, fault p) → ∃ t ∈ tests.flatten, blame t := by
    rintro children tests h ⟨p, hp, hfault⟩
    obtain ⟨ts, hts, hblame⟩ := exists_of_forall₂ h hp
    obtain ⟨t, ht, hblame⟩ := hblame hfault
    exact ⟨t, List.mem_flatten.mpr ⟨ts, hts, ht⟩, hblame⟩
  exact {
    test := fun h hfault => ⟨_, List.mem_singleton.mpr rfl, test h hfault⟩
    raw := fun sql hfault => absurd hfault (raw sql)
    and := fun grouped _ h hfault => hchildren h (and _ grouped hfault)
    or := fun _ h hfault => hchildren h (or _ hfault)
    not := fun h hfault => h (not _ hfault) }

end Closed

end Lowering

/-! ## The check -/

theorem missingNegand_not_mem_nameFindings (what name : String) :
    Problem.missingNegand ∉ (nameFindings what name).problems := by
  unfold nameFindings Findings.require
  split <;> simp [Findings.nothing, Findings.problem, Findings.add]

theorem missingNegand_not_mem_labelFindings (what : String) (label : Option String) :
    Problem.missingNegand ∉ (labelFindings what label).problems := by
  cases label with
  | none => exact List.not_mem_nil
  | some name => exact missingNegand_not_mem_nameFindings what name

theorem Column.missingNegand_not_mem (c : Column) :
    Problem.missingNegand ∉ c.findings.problems := by
  rw [findings, Findings.problems_append, List.mem_append, not_or]
  exact ⟨missingNegand_not_mem_nameFindings _ _, missingNegand_not_mem_labelFindings _ _⟩

/-- What is missing inside a subquery is told in the line about the subquery. -/
theorem Subquery.missingNegand_not_mem (s : Subquery) :
    Problem.missingNegand ∉ s.findings.problems := by
  obtain ⟨select, label⟩ := s
  cases select with
  | none => simp [findings, Findings.problem, Findings.nothing, Findings.add]
  | some q =>
    rw [findings, Findings.problems_within]
    split
    · exact List.not_mem_nil
    · simp

theorem Operand.missingNegand_not_mem (x : Operand) :
    Problem.missingNegand ∉ x.toExpr.findings.problems := by
  cases x with
  | nothing => exact List.not_mem_nil
  | value v => exact List.not_mem_nil
  | list items => exact List.not_mem_nil
  | column name =>
    rw [toExpr, Expr.named, Expr.findings, Findings.problems_append,
      Findings.problems_nothing_append, List.mem_append, not_or]
    exact ⟨Column.missingNegand_not_mem _, missingNegand_not_mem_labelFindings _ _⟩
  | subquery s =>
    rw [toExpr, Expr.findings, Findings.problems_append, Findings.problems_nothing_append,
      List.mem_append, not_or]
    exact ⟨s.missingNegand_not_mem, missingNegand_not_mem_labelFindings _ _⟩

/-- The problems of several conditions are those of each. -/
theorem mem_problems_predicateFindings {ps : List Predicate} {x : Problem} :
    x ∈ (predicateFindings ps).problems ↔ ∃ p ∈ ps, x ∈ p.findings.problems := by
  induction ps with
  | nil => simp [predicateFindings, Findings.nothing]
  | cons p ps ih => simp [predicateFindings, ih]

theorem Predicate.missingNegand_not_mem_compare (c : Column) (operator : String) {right : Expr}
    (h : Problem.missingNegand ∉ right.findings.problems) :
    Problem.missingNegand ∉ (compare (.column c) operator right).findings.problems := by
  rw [findings, Findings.problems_append, Findings.problems_nothing_append, List.mem_append, not_or]
  refine ⟨?_, h⟩
  split
  · exact List.not_mem_nil
  · exact c.missingNegand_not_mem

theorem Test.Lowered.missingNegand_not_mem {t : Test} {p : Predicate} (h : t.Lowered p) :
    Problem.missingNegand ∉ p.findings.problems := by
  cases h with
  | dropped => exact Predicate.missingNegand_not_mem_compare _ _ List.not_mem_nil
  | bounds => exact Predicate.missingNegand_not_mem_compare _ _ List.not_mem_nil
  | operand => exact Predicate.missingNegand_not_mem_compare _ _ (Operand.missingNegand_not_mem _)
  | rows =>
    exact Predicate.missingNegand_not_mem_compare _ _ (Operand.missingNegand_not_mem (.subquery _))

/-- The check finds the operand of every NOT in a lowered condition. -/
theorem Lowering.negand_given {scope : Option String} {c : Condition} {p : Predicate}
    (h : lower scope c = .ok p) : Problem.missingNegand ∉ p.findings.problems := by
  have closed : Closed fun p tests =>
      Problem.missingNegand ∈ p.findings.problems → ∃ t ∈ tests, False := by
    refine .of_faults (fun h hmem => h.missingNegand_not_mem hmem) ?_ ?_ ?_ ?_
    · exact fun sql => List.not_mem_nil
    · intro children grouped hmem
      rw [Predicate.findings, Findings.problems_nothing_append] at hmem
      exact mem_problems_predicateFindings.mp hmem
    · intro children hmem
      rw [Predicate.findings, Findings.problems_nothing_append] at hmem
      exact mem_problems_predicateFindings.mp hmem
    · intro p hmem
      rw [Predicate.findings, negandFindings, Findings.problems_nothing_append] at hmem
      exact hmem
  intro hmissing
  obtain ⟨_, -, hno⟩ := closed.of_lower scope c h hmissing
  exact hno

/-! ## The step to a statement -/

/-- The faults that the step to a statement can meet in a test: those of its subquery. -/
def Test.StepFault (t : Test) (f : Statement.Unsupported) : Prop :=
  ∃ s ∈ t.subquery?, Statement.ofSubquery s = .error f

theorem Operand.step_fault {x : Operand} {f : Statement.Unsupported}
    (h : Statement.ofOperand x.toExpr = .error f) :
    ∃ s ∈ x.subquery?, Statement.ofSubquery s = .error f := by
  cases x with
  | nothing => exact nomatch h
  | value v => exact nomatch h
  | list items => exact nomatch h
  | column name => exact nomatch h
  | subquery s =>
    rw [toExpr, Statement.ofOperand] at h
    exact ⟨s, rfl, bind_pure_eq_error.mp h⟩

theorem Predicate.step_fault_compare {c : Column} {operator : String} {right : Expr}
    {f : Statement.Unsupported}
    (h : Statement.ofPredicate (.compare (.column c) operator right) = .error f) :
    Statement.ofOperand right = .error f := by
  rw [Statement.ofPredicate] at h
  exact bind_pure_eq_error.mp h

theorem Test.Lowered.step_fault {t : Test} {p : Predicate} (h : t.Lowered p)
    {f : Statement.Unsupported} (hf : Statement.ofPredicate p = .error f) : t.StepFault f := by
  cases h with
  | dropped => exact nomatch Predicate.step_fault_compare hf
  | bounds => exact nomatch Predicate.step_fault_compare hf
  | operand hform hleft hnames hquery =>
    rw [StepFault, hquery]
    exact Operand.step_fault (Predicate.step_fault_compare hf)
  | rows hform hnames hquery =>
    rw [StepFault, hquery]
    exact Operand.step_fault (x := .subquery _) (Predicate.step_fault_compare hf)

/-- The step to a statement meets no fault in a lowered condition but those of its subqueries. -/
theorem Lowering.step_fault {scope : Option String} {c : Condition} {p : Predicate}
    (h : lower scope c = .ok p) {f : Statement.Unsupported}
    (hf : Statement.ofPredicate p = .error f) : ∃ t ∈ c.tests scope, t.StepFault f := by
  have closed : Closed fun p tests =>
      Statement.ofPredicate p = .error f → ∃ t ∈ tests, t.StepFault f := by
    refine .of_faults (fun h hf => h.step_fault hf) (fun sql => nofun) ?_ ?_ ?_
    · intro children grouped hf
      rw [Statement.ofPredicate] at hf
      exact Statement.exists_fault_of_ofPredicates (bind_pure_eq_error.mp hf)
    · intro children hf
      rw [Statement.ofPredicate] at hf
      exact Statement.exists_fault_of_ofPredicates (bind_pure_eq_error.mp hf)
    · intro p hf
      rw [Statement.ofPredicate] at hf
      exact bind_pure_eq_error.mp hf
  exact closed.of_lower scope c h hf

end SqlLoom
