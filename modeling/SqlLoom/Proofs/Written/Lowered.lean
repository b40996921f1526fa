/-
  Lowered conditions compile.

  The operators of tests are texts, and three places have to agree about them: lowering puts them
  down, the check asks which of them have no left side, and writing looks up their form.  That they
  do agree is a matter of the four forms of a lowered test (`Test.Lowered`):

  1. a lowered test compiles exactly when its columns are `Nameable` and its subquery `Stands` on
     its own (`Test.Lowered.compiles_iff`), and what goes wrong in the writing goes wrong there
     (`Test.Lowered.write_fault`);
  2. both pass through the connectives, so they hold of lowered conditions (`Lowering.compiles_iff`,
     `Lowering.write_fault`);
  3. a DELETE adds nothing to its condition but a table (`deletes_of_lowered_conditions`).
-/
import Mathlib.Data.List.TakeWhile
import SqlLoom.Proofs.Lowered
import SqlLoom.Proofs.Written.Acceptance

namespace SqlLoom

open Outcome
open Statement (TestForm)

/-! ## The writing -/

/-- The faults that writing can meet in a test: a name that is none, or one in its subquery. -/
def Test.WriteFault (t : Test) (f : Statement.Unwritable) : Prop :=
  (∃ name ∈ t.names, ∃ g, f = .identifier g ∧ Identifier.quote .condition name = .error g)
    ∨ ∃ s ∈ t.subquery?, ∃ x, Statement.ofSubquery s = .ok x
        ∧ Statement.subquerySql (some x) = .error f

/-- A condition that has a statement which cannot be written. -/
def Predicate.WriteFault (p : Predicate) (f : Statement.Unwritable) : Prop :=
  ∃ top x, Statement.ofPredicate p = .ok x ∧ Statement.predicateSql top x = .error f

namespace Statement

theorem nameSql_eq_error {context : Identifier.Context} {s : String} {f : Unwritable} :
    nameSql context s = .error f
      ↔ ∃ g, f = .identifier g ∧ Identifier.quote context s = .error g := by
  rw [nameSql, mapError_eq_error]
  exact exists_congr fun g => and_comm

theorem leftSql_eq_error {left : String} {f : Unwritable} (h : leftSql left = .error f) :
    nameSql .condition left = .error f := by
  unfold leftSql at h
  split at h
  · exact nomatch h
  · exact h

section Compare

variable {top early : Bool} {left operator : String} {right : Operand} {f : Unwritable}

theorem compare_eq_error_of_suffix (hform : TestForm.ofOperator operator = .suffix)
    (h : predicateSql top (.compare left operator right early) = .error f) :
    leftSql left = .error f := by
  rw [predicateSql] at h
  rcases bind_eq_error.mp h with h | ⟨leftPart, -, h⟩
  · exact h
  · rw [hform] at h
    cases h

theorem compare_eq_error_of_bounds {low high : Value}
    (h : predicateSql top (.compare left "BETWEEN" (.list [low, high]) early) = .error f) :
    leftSql left = .error f := by
  rw [predicateSql] at h
  rcases bind_eq_error.mp h with h | ⟨leftPart, -, h⟩
  · exact h
  · cases h

/-- A test with an operand fails on one of its sides, not on its operator. -/
theorem compare_eq_error_of_operand (hform : (TestForm.ofOperator operator).takesOperand = true)
    (h : predicateSql top (.compare left operator right early) = .error f) :
    leftSql left = .error f ∨ operandSql right = .error f := by
  rw [predicateSql] at h
  rcases bind_eq_error.mp h with h | ⟨leftPart, -, h⟩
  · exact .inl h
  · unfold testSql at h
    generalize TestForm.ofOperator operator = form at h hform
    cases form with
    | suffix => cases hform
    | bounds => cases hform
    | unknown => cases hform
    | _ =>
      rcases bind_eq_error.mp h with h | ⟨rightPart, -, h⟩
      · exact .inr h
      · cases h

end Compare

end Statement

/-- The operands of a connective are written one after the other. -/
theorem Predicate.exists_writeFault {children : List Predicate} {xs : List Statement.Predicate}
    (hxs : Statement.ofPredicates children = .ok xs) {f : Statement.Unwritable}
    (hf : Statement.predicatesSql (fun _ => true) false xs = .error f) :
    ∃ p ∈ children, p.WriteFault f := by
  obtain ⟨x, hx, hf⟩ := Statement.exists_fault_of_predicatesSql hf
  have hlinked := forall₂_swap (Statement.ofPredicates_eq_ok.mp hxs) (fun _ _ _ h => h)
  obtain ⟨p, hp, hstep⟩ := exists_of_forall₂ hlinked hx
  exact ⟨p, hp, false, x, hstep, hf⟩

theorem leftSql_named_fault {name : String} {f : Statement.Unwritable}
    (h : Statement.leftSql (Column.ofText name).joined = .error f) :
    ∃ g, f = .identifier g ∧ Identifier.quote .condition name = .error g := by
  rw [Column.joined_ofText] at h
  exact Statement.nameSql_eq_error.mp (Statement.leftSql_eq_error h)

theorem Operand.write_fault {x : Operand} {y : Statement.Operand} {f : Statement.Unwritable}
    (hy : Statement.ofOperand x.toExpr = .ok y) (h : Statement.operandSql y = .error f) :
    (∃ name ∈ x.names, ∃ g, f = .identifier g ∧ Identifier.quote .condition name = .error g)
      ∨ ∃ s ∈ x.subquery?, ∃ z, Statement.ofSubquery s = .ok z
          ∧ Statement.subquerySql (some z) = .error f := by
  cases x with
  | nothing | value _ | list _ =>
    obtain rfl := ok_eq_ok.mp hy
    exact nomatch h
  | column name =>
    obtain rfl := ok_eq_ok.mp hy
    have hname : Statement.nameSql .condition (Column.ofText name).joined = .error f := h
    rw [Column.joined_ofText] at hname
    exact .inl ⟨name, List.mem_singleton.mpr rfl, Statement.nameSql_eq_error.mp hname⟩
  | subquery s =>
    rw [toExpr, Statement.ofOperand] at hy
    obtain ⟨z, hz, hy⟩ := bind_eq_ok.mp hy
    obtain rfl := pure_eq_ok.mp hy
    exact .inr ⟨s, rfl, z, hz, h⟩

/-- The statement of a test. -/
theorem Predicate.ofPredicate_compare_eq_ok {c : Column} {operator : String} {right : Expr}
    {x : Statement.Predicate}
    (h : Statement.ofPredicate (.compare (.column c) operator right) = .ok x) :
    ∃ y, Statement.ofOperand right = .ok y ∧ x = .compare c.joined operator y false := by
  rw [Statement.ofPredicate] at h
  obtain ⟨y, hy, h⟩ := bind_eq_ok.mp h
  exact ⟨y, hy, pure_eq_ok.mp h⟩

theorem Test.Lowered.write_fault {t : Test} {p : Predicate} (h : t.Lowered p)
    {f : Statement.Unwritable} (hf : p.WriteFault f) : t.WriteFault f := by
  obtain ⟨top, x, hx, hf⟩ := hf
  cases h with
  | dropped hform hnames hquery =>
    obtain ⟨y, -, rfl⟩ := Predicate.ofPredicate_compare_eq_ok hx
    have hleft := Statement.compare_eq_error_of_suffix hform hf
    exact .inl ⟨t.column, by simp [hnames], leftSql_named_fault hleft⟩
  | bounds hnames hquery =>
    obtain ⟨y, hy, rfl⟩ := Predicate.ofPredicate_compare_eq_ok hx
    obtain rfl := ok_eq_ok.mp hy
    have hleft := Statement.compare_eq_error_of_bounds hf
    exact .inl ⟨t.column, by simp [hnames], leftSql_named_fault hleft⟩
  | operand hform hleft hnames hquery =>
    obtain ⟨y, hy, rfl⟩ := Predicate.ofPredicate_compare_eq_ok hx
    rw [WriteFault, hnames, hquery, List.exists_mem_cons_iff, or_assoc]
    rcases Statement.compare_eq_error_of_operand hform hf with hleft | hright
    · exact .inl (leftSql_named_fault hleft)
    · exact .inr (Operand.write_fault hy hright)
  | rows hform hnames hquery =>
    obtain ⟨y, hy, rfl⟩ := Predicate.ofPredicate_compare_eq_ok hx
    rw [WriteFault, hquery]
    rcases Statement.compare_eq_error_of_operand (by rw [hform]; rfl) hf with hleft | hright
    · exact nomatch hleft
    · rcases Operand.write_fault (x := .subquery _) hy hright with ⟨_, hname, -⟩ | hquery
      · exact absurd hname List.not_mem_nil
      · exact .inr hquery

/-- Writing meets no fault in a lowered condition but those of its names and of its subqueries. -/
theorem Lowering.write_fault {scope : Option String} {c : Condition} {p : Predicate}
    (h : lower scope c = .ok p) {f : Statement.Unwritable} (hf : p.WriteFault f) :
    ∃ t ∈ c.tests scope, t.WriteFault f := by
  have closed : Closed fun p tests => p.WriteFault f → ∃ t ∈ tests, t.WriteFault f := by
    refine .of_faults (fun h hf => h.write_fault hf) ?_ ?_ ?_ ?_
    · rintro sql ⟨top, x, hx, hf⟩
      obtain rfl := ok_eq_ok.mp hx
      exact nomatch hf
    · rintro children grouped ⟨top, x, hx, hf⟩
      rw [Statement.ofPredicate] at hx
      obtain ⟨xs, hxs, hx⟩ := bind_eq_ok.mp hx
      obtain rfl := pure_eq_ok.mp hx
      rw [Statement.predicateSql] at hf
      exact Predicate.exists_writeFault hxs (bind_pure_eq_error.mp hf)
    · rintro children ⟨top, x, hx, hf⟩
      rw [Statement.ofPredicate] at hx
      obtain ⟨xs, hxs, hx⟩ := bind_eq_ok.mp hx
      obtain rfl := pure_eq_ok.mp hx
      rw [Statement.predicateSql] at hf
      exact Predicate.exists_writeFault hxs (bind_pure_eq_error.mp hf)
    · rintro p ⟨top, x, hx, hf⟩
      rw [Statement.ofPredicate] at hx
      obtain ⟨y, hy, hx⟩ := bind_eq_ok.mp hx
      obtain rfl := pure_eq_ok.mp hx
      rw [Statement.predicateSql] at hf
      exact ⟨true, y, hy, bind_pure_eq_error.mp hf⟩
  exact closed.of_lower scope c h hf

/-! ## Nodes that compile -/

/-- A node that the check has nothing against, and that can be written. -/
def Node.Compiles (n : Node) : Prop :=
  n.findings.clean = true ∧ n.Writable

theorem compiles_select {q : Select} :
    (Node.select q).Compiles ↔ Succeeds (Query.select q).toSql := by
  rw [Query.succeeds_toSql]
  simp only [Succeeds, Query.compile_iff, exists_and_left]
  exact Iff.rfl

theorem compiles_and {children : List Predicate} {grouped : Bool} :
    (Node.predicate (.and children grouped)).Compiles
      ↔ ∀ p ∈ children, (Node.predicate p).Compiles := by
  have hclean : (Node.predicate (.and children grouped)).findings.clean = true
      ↔ ∀ p ∈ children, p.findings.clean = true := by
    rw [Node.findings_predicate, Predicate.findings, Findings.clean_nothing_append,
      clean_predicateFindings_iff]
  rw [Node.Compiles, hclean, Predicate.writable_and, List.forall_mem_map, ← forall₂_and]
  exact Iff.rfl

theorem compiles_or {children : List Predicate} :
    (Node.predicate (.or children)).Compiles ↔ ∀ p ∈ children, (Node.predicate p).Compiles := by
  have hclean : (Node.predicate (.or children)).findings.clean = true
      ↔ ∀ p ∈ children, p.findings.clean = true := by
    rw [Node.findings_predicate, Predicate.findings, Findings.clean_nothing_append,
      clean_predicateFindings_iff]
  rw [Node.Compiles, hclean, Predicate.writable_or, List.forall_mem_map, ← forall₂_and]
  exact Iff.rfl

theorem compiles_not {p : Predicate} :
    (Node.predicate (.not (some p))).Compiles ↔ (Node.predicate p).Compiles := by
  have hclean : (Node.predicate (.not (some p))).findings.clean = true
      ↔ p.findings.clean = true := by
    rw [Node.findings_predicate, Predicate.findings, negandFindings, Findings.clean_nothing_append]
  exact and_congr hclean Predicate.writable_not

theorem compiles_raw (sql : String) : (Node.predicate (.raw sql)).Compiles :=
  ⟨rfl, _, Predicate.writes_raw.mpr rfl⟩

/-- A test compiles when its left side does and its right side is taken, whatever stands to the
    left of it. -/
theorem compiles_compare {c : Column} {operator : String} {right : Expr} {taken : Prop}
    (h : ∀ left, (∃ sql, TestWrites operator left right sql) ↔ taken) :
    (Node.predicate (.compare (.column c) operator right)).Compiles
      ↔ ((c.name = "" ∧ takesNoLeft operator = true ∨ c.Sound)
          ∧ (c.joined ≠ "" → Passes .condition c.joined))
        ∧ right.findings.clean = true ∧ taken := by
  have hclean : (Node.predicate (.compare (.column c) operator right)).findings.clean = true
      ↔ (c.name = "" ∧ takesNoLeft operator = true ∨ c.Sound) ∧ right.findings.clean = true := by
    refine Predicate.clean_iff.trans (and_congr Iff.rfl ?_)
    exact List.forall_mem_singleton
  have hwritable : (Node.predicate (.compare (.column c) operator right)).Writable
      ↔ (c.joined ≠ "" → Passes .condition c.joined) ∧ taken := by
    rw [← succeeds_leftSql]
    constructor
    · rintro ⟨sql, hsql⟩
      obtain ⟨_, left, hc, hleft, htest⟩ := Predicate.writes_compare.mp hsql
      cases hc
      exact ⟨⟨left, hleft⟩, (h left).mp ⟨sql, htest⟩⟩
    · rintro ⟨⟨left, hleft⟩, htaken⟩
      obtain ⟨sql, htest⟩ := (h left).mpr htaken
      exact ⟨sql, Predicate.writes_compare.mpr ⟨c, left, rfl, hleft, htest⟩⟩
  rw [Node.Compiles, hclean, hwritable]
  exact and_and_and_comm

/-! ## Names of columns -/

/-- A text that can be the column of a test: it is not empty, has something on both sides of its
    first dot, if it has one, and passes the quoting of names. -/
structure Nameable (s : String) : Prop where
  given : s ≠ ""
  sides : ∀ front back, s.toList = front ++ '.' :: back → '.' ∉ front → front ≠ [] ∧ back ≠ []
  passes : Passes .condition s

namespace Column

theorem ofText_of_no_dot {s : String} (h : '.' ∉ s.toList) : ofText s = { name := s } := by
  have hdrop : s.toList.dropWhile (· ≠ '.') = [] := by
    rw [List.dropWhile_eq_nil_iff]
    rintro c hc
    simpa using ne_of_mem_of_not_mem hc h
  unfold ofText
  rw [hdrop]

theorem ofText_of_dot {s : String} {front back : List Char}
    (h : s.toList = front ++ '.' :: back) (hfront : '.' ∉ front) :
    ofText s = { name := String.ofList back, table := some (String.ofList front) } := by
  have hpass : ∀ c ∈ front, (decide (c ≠ '.')) = true := by
    rintro c hc
    simpa using ne_of_mem_of_not_mem hc hfront
  have hdrop : s.toList.dropWhile (· ≠ '.') = '.' :: back := by
    rw [h, List.dropWhile_append_of_pos hpass]
    rfl
  have htake : s.toList.takeWhile (· ≠ '.') = front := by
    rw [h, List.takeWhile_append_of_pos hpass]
    exact List.append_nil front
  unfold ofText
  rw [hdrop, htake]

end Column

theorem nameable_iff {s : String} :
    Nameable s ↔ (Column.ofText s).Sound ∧ Passes .condition s := by
  by_cases hdot : '.' ∈ s.toList
  · obtain ⟨front, back, hs, hfront⟩ := List.eq_append_cons_of_mem hdot
    rw [Column.ofText_of_dot hs hfront]
    have hsound : (⟨String.ofList back, some (String.ofList front), none⟩ : Column).Sound
        ↔ front ≠ [] ∧ back ≠ [] := by
      simp [Column.Sound, and_comm]
    rw [hsound]
    constructor
    · rintro ⟨-, hsides, hpasses⟩
      exact ⟨hsides front back hs hfront, hpasses⟩
    · rintro ⟨hparts, hpasses⟩
      refine ⟨?_, fun front' back' hs' hfront' => ?_, hpasses⟩
      · rintro rfl
        exact absurd hdot List.not_mem_nil
      -- there is one first dot only
      · have hsame := (Column.ofText_of_dot hs hfront).symm.trans (Column.ofText_of_dot hs' hfront')
        simp only [Column.mk.injEq, Option.some.injEq, String.ofList_inj, and_true] at hsame
        rw [← hsame.1, ← hsame.2]
        exact hparts
  · rw [Column.ofText_of_no_dot hdot]
    constructor
    · rintro ⟨hgiven, -, hpasses⟩
      exact ⟨⟨hgiven, (Option.some_ne_none _).symm⟩, hpasses⟩
    · rintro ⟨⟨hgiven, -⟩, hpasses⟩
      refine ⟨hgiven, fun front back hs => ?_, hpasses⟩
      rw [hs] at hdot
      exact absurd (List.mem_append_right front List.mem_cons_self) hdot

/-! ## Operands -/

/-- A subquery with a query that compiles on its own, and without an empty alias. -/
structure Subquery.Stands (s : Subquery) : Prop where
  compiles : ∃ q, s.select = some q ∧ Succeeds (Query.select q).toSql
  label : s.label ≠ some ""

theorem Subquery.stands_iff {q : Select} {label : Option String} :
    Subquery.Stands ⟨some q, label⟩ ↔ (Node.select q).Compiles ∧ label ≠ some "" := by
  rw [compiles_select]
  constructor
  · rintro ⟨⟨_, hq, hcompiles⟩, hlabel⟩
    obtain rfl := Option.some.inj hq
    exact ⟨hcompiles, hlabel⟩
  · rintro ⟨hcompiles, hlabel⟩
    exact ⟨⟨q, rfl, hcompiles⟩, hlabel⟩

theorem compiles_subquery {s : Subquery} : (Node.operand (.subquery s)).Compiles ↔ s.Stands := by
  obtain ⟨select, label⟩ := s
  cases select with
  | none =>
    constructor
    · rintro ⟨hclean, -⟩
      exact absurd (Expr.clean_iff.mp hclean).1.1 Bool.false_ne_true
    · rintro ⟨⟨_, hq, -⟩, -⟩
      exact nomatch hq
  | some q =>
    have hclean : (Node.operand (.subquery ⟨some q, label⟩)).findings.clean = true
        ↔ q.findings.clean = true ∧ label ≠ some "" := by
      rw [Node.findings_operand, Expr.findings, Subquery.findings, Findings.clean_append,
        Findings.clean_nothing_append, Findings.clean_within, Select.valid_findings,
        Bool.and_eq_true, clean_labelFindings_iff]
    have hwritable : (Node.operand (.subquery ⟨some q, label⟩)).Writable
        ↔ (Node.select q).Writable := by
      refine (exists_congr fun sql => Expr.writesOperand_subquery).trans ?_
      exact (Subquery.exists_writes rfl).trans List.forall_mem_singleton
    rw [Node.Compiles, hclean, hwritable, Subquery.stands_iff]
    exact and_right_comm

/-- A column on the right side of a test. -/
theorem compiles_named {name : String} :
    (Node.operand (.named name)).Compiles ↔ Nameable name := by
  have hlabel : (Column.ofText name).label = none := by
    unfold Column.ofText
    split <;> rfl
  have hclean : (Node.operand (.named name)).findings.clean = true
      ↔ (Column.ofText name).Sound := by
    rw [Node.findings_operand, Expr.named, Expr.findings, hlabel, Findings.clean_append,
      Findings.clean_nothing_append, Bool.and_eq_true, Column.clean_iff]
    exact and_iff_left rfl
  have hwritable : (Node.operand (.named name)).Writable ↔ Passes .condition name := by
    refine (exists_congr fun sql => Expr.writesOperand_column).trans ?_
    rw [Column.joined_ofText]
    exact Iff.rfl
  rw [Node.Compiles, hclean, hwritable, nameable_iff]

/-- A column on the left side of a test that takes one. -/
theorem left_compiles_iff {name operator : String}
    (hform : TestForm.ofOperator operator ≠ .leading) :
    (((Column.ofText name).name = "" ∧ takesNoLeft operator = true ∨ (Column.ofText name).Sound)
        ∧ ((Column.ofText name).joined ≠ "" → Passes .condition (Column.ofText name).joined))
      ↔ Nameable name := by
  have htakes : ¬ takesNoLeft operator = true := by
    intro h
    rw [takesNoLeft, Bool.or_eq_true, beq_iff_eq, beq_iff_eq] at h
    rcases h with rfl | rfl
    · exact hform (by decide)
    · exact hform (by decide)
  rw [Column.joined_ofText, nameable_iff, or_iff_right fun h => htakes h.2]
  refine and_congr_right fun hsound => ⟨fun h => h ?_, fun h _ => h⟩
  rintro rfl
  exact hsound.1 rfl

theorem compiles_operand {x : Operand} :
    (Node.operand x.toExpr).Compiles
      ↔ (∀ name ∈ x.names, Nameable name) ∧ ∀ s ∈ x.subquery?, s.Stands := by
  cases x with
  | nothing | value _ =>
    exact ⟨fun _ => ⟨nofun, nofun⟩, fun _ => ⟨rfl, _, Expr.writesOperand_value.mpr rfl⟩⟩
  | list _ =>
    exact ⟨fun _ => ⟨nofun, nofun⟩, fun _ => ⟨rfl, _, Expr.writesOperand_array.mpr rfl⟩⟩
  | column name =>
    refine compiles_named.trans ?_
    exact ⟨fun h => ⟨List.forall_mem_singleton.mpr h, nofun⟩,
      fun h => List.forall_mem_singleton.mp h.1⟩
  | subquery s =>
    refine compiles_subquery.trans ?_
    exact ⟨fun h => ⟨nofun, fun s' hs => Option.some.inj hs ▸ h⟩, fun h => h.2 s rfl⟩

/-! ## Tests -/

/-- A test whose columns and whose subquery are in order. -/
def Test.Compiles (t : Test) : Prop :=
  (∀ name ∈ t.names, Nameable name) ∧ ∀ s ∈ t.subquery?, s.Stands

/-- A test that is written from its operand takes whatever can be written. -/
theorem exists_testWrites_operand {operator : String} {right : Expr}
    (hform : (TestForm.ofOperator operator).takesOperand = true) (left : Sql) :
    (∃ sql, TestWrites operator left right sql) ↔ (Node.operand right).Writable := by
  have hform_ne (form : TestForm) (hnone : form.takesOperand = false) :
      TestForm.ofOperator operator ≠ form := by
    rintro rfl
    exact Bool.false_ne_true (hnone.symm.trans hform)
  have hsuffix := hform_ne .suffix rfl
  have hbounds := hform_ne .bounds rfl
  have hknown : operator ∈ testOperators := mem_testOperators_iff.mpr (hform_ne .unknown rfl)
  simp only [testWrites_operand hsuffix hbounds]
  constructor
  · rintro ⟨_, operand, hoperand, -⟩
    exact ⟨operand, hoperand⟩
  · rintro ⟨operand, hoperand⟩
    obtain ⟨sql, hsql⟩ := (succeeds_testSql hsuffix hbounds).mpr hknown
    exact ⟨sql, operand, hoperand, hsql⟩

/-- A test of a column whose right side always fits. -/
theorem compiles_column_test {name operator : String} {right : Expr}
    (hform : TestForm.ofOperator operator ≠ .leading) (hclean : right.findings.clean = true)
    (htaken : ∀ left, ∃ sql, TestWrites operator left right sql) :
    (Node.predicate (.compare (.named name) operator right)).Compiles ↔ Nameable name := by
  rw [Expr.named, compiles_compare fun left => iff_true_intro (htaken left),
    left_compiles_iff hform]
  exact and_iff_left ⟨hclean, trivial⟩

theorem Test.Lowered.compiles_iff {t : Test} {p : Predicate} (h : t.Lowered p) :
    (Node.predicate p).Compiles ↔ t.Compiles := by
  cases h with
  | @dropped operator hform hnames hquery =>
    have htaken : ∀ left, ∃ sql, TestWrites operator left (.lit .null) sql := by
      intro left
      unfold TestWrites
      rw [hform]
      exact ⟨_, ⟨_, rfl⟩, rfl⟩
    rw [compiles_column_test (by rw [hform]; decide) rfl htaken]
    simp [Test.Compiles, hnames, hquery]
  | @bounds low high hnames hquery =>
    have htaken : ∀ left, ∃ sql, TestWrites "BETWEEN" left (.tuple [low, high] none) sql :=
      fun left => ⟨_, low, high, rfl, rfl⟩
    rw [compiles_column_test (by decide) rfl htaken]
    simp [Test.Compiles, hnames, hquery]
  | operand hform hleft hnames hquery =>
    rw [Expr.named, compiles_compare (exists_testWrites_operand hform), left_compiles_iff hleft,
      Test.Compiles, hnames, hquery, List.forall_mem_cons, and_assoc, ← compiles_operand]
    exact Iff.rfl
  | @rows operator s hform hnames hquery =>
    have hall : ∀ o ∈ TestForm.leading.operators, takesNoLeft o = true := by decide
    have htakes := hall _ (TestForm.mem_of_ofOperator hform (by decide))
    have hcompiles : (Node.predicate (.compare (.column .absent) operator (.subquery s))).Compiles
        ↔ _ := compiles_compare (exists_testWrites_operand (by rw [hform]; rfl))
    rw [hcompiles, and_iff_right ⟨.inl ⟨rfl, htakes⟩, fun h => absurd rfl h⟩, Test.Compiles, hnames,
      hquery]
    refine (compiles_operand (x := .subquery s)).trans ?_
    exact Iff.rfl

/-- A lowered condition compiles exactly when its tests do. -/
theorem Lowering.compiles_iff {scope : Option String} {c : Condition} {p : Predicate}
    (h : lower scope c = .ok p) :
    (Node.predicate p).Compiles ↔ ∀ t ∈ c.tests scope, t.Compiles := by
  have closed : Closed fun p tests => (Node.predicate p).Compiles ↔ ∀ t ∈ tests, t.Compiles := {
    test := fun h => h.compiles_iff.trans List.forall_mem_singleton.symm
    raw := fun sql => iff_of_true (compiles_raw sql) (List.forall_mem_nil _)
    and := fun grouped _ h => compiles_and.trans (forall_flatten_of_forall₂ h)
    or := fun _ h => compiles_or.trans (forall_flatten_of_forall₂ h)
    not := fun h => compiles_not.trans h }
  exact closed.of_lower scope c h

/-! ## The DELETE of a condition -/

/-- The DELETE of the rows that a condition selects. -/
def deleteWhere (table : String) (p : Predicate) : Query :=
  .delete { table, filter := some p }

/-- A name without a dot is always written. -/
theorem passes_of_no_dot {context : Identifier.Context} {s : String} (h : '.' ∉ s.toList) :
    Passes context s := by
  cases hquote : Identifier.quote context s with
  | ok sql => exact ⟨sql, hquote⟩
  | error f =>
    have hverdict := Identifier.verdict_quote context s
    rw [hquote] at hverdict
    cases hverdict with
    | refused hdot => exact absurd hdot h

/-- A simple name is not empty, and it is always written. -/
theorem simple_table {table : String} (h : Identifier.isSimple table = true) :
    table ≠ "" ∧ Passes .selection table := by
  obtain ⟨hne, htail⟩ := Identifier.isTail_of_isSimple h
  refine ⟨hne, passes_of_no_dot fun hdot => ?_⟩
  exact absurd (htail '.' hdot) (by decide)

section DeleteWhere

variable {table : String} {p : Predicate}

theorem succeeds_deleteWhere (htable : Identifier.isSimple table = true) :
    Succeeds (deleteWhere table p).toSql ↔ (Node.predicate p).Compiles := by
  obtain ⟨hne, hpasses⟩ := simple_table htable
  have hroot : (deleteWhere table p).RootSound := ⟨hne, rfl, nofun⟩
  have hnames : (deleteWhere table p).NamesPass := hpasses
  have hparts : (deleteWhere table p).parts = [.predicate p] := rfl
  rw [Query.succeeds_toSql]
  simp only [Succeeds, Query.compile_iff, exists_and_left, Query.exists_writes, Query.clean_iff,
    hparts, List.forall_mem_singleton, and_iff_right hroot, and_iff_right hnames]
  exact Iff.rfl

theorem missingNegand_of_deleteWhere
    (h : Problem.missingNegand ∈ (deleteWhere table p).findings.problems) :
    Problem.missingNegand ∈ p.findings.problems := by
  have hproblems : (deleteWhere table p).findings.problems
      = (nameFindings "table" table).problems ++ p.findings.problems := by
    simp [deleteWhere, Query.findings, Delete.findings, clauseFindings, recordedFindings,
      settingsFindings, Findings.concat, Findings.nothing]
  rw [hproblems] at h
  rcases List.mem_append.mp h with h | h
  · exact absurd h (missingNegand_not_mem_nameFindings _ _)
  · exact h

theorem step_fault_of_deleteWhere {f : Statement.Unsupported}
    (h : Statement.ofQuery (deleteWhere table p) = .error f) :
    Statement.ofPredicate p = .error f :=
  bind_pure_eq_error.mp (bind_pure_eq_error.mp h)

theorem write_fault_of_deleteWhere (htable : Identifier.isSimple table = true) {x : Statement}
    (hx : Statement.ofQuery (deleteWhere table p) = .ok x) {f : Statement.Unwritable}
    (h : x.toSql = .error f) : p.WriteFault f := by
  obtain ⟨xs, hxs, hx⟩ := bind_eq_ok.mp hx
  obtain rfl := pure_eq_ok.mp hx
  obtain ⟨y, hy, hxs⟩ := bind_eq_ok.mp hxs
  obtain rfl := pure_eq_ok.mp hxs
  rcases bind_eq_error.mp h with htarget | ⟨_, -, h⟩
  · obtain ⟨g, -, hquote⟩ := Statement.nameSql_eq_error.mp htarget
    obtain ⟨sql, hsql⟩ := (simple_table htable).2
    exact nomatch hquote.symm.trans hsql
  · have hfilter := bind_pure_eq_error.mp h
    obtain ⟨z, hz, hfault⟩ :=
      Statement.exists_fault_of_predicatesSql (bind_pure_eq_error.mp hfilter)
    rw [List.mem_singleton.mp hz] at hfault
    exact ⟨_, y, hy, hfault⟩

end DeleteWhere

/-- **Headline.**  The DELETE of a lowered condition compiles exactly when the columns of all of its
    tests are names and all of their subqueries stand on their own.  When it does not, the fault
    lies there: the check misses no operand of NOT, the step to a statement fails on a subquery
    only, and the writing on a name or inside a subquery. -/
theorem deletes_of_lowered_conditions {c : Condition} {p : Predicate} (h : c.toPredicate = .ok p)
    {table : String} (htable : Identifier.isSimple table = true) :
    (Succeeds (deleteWhere table p).toSql ↔ ∀ t ∈ c.tests none, t.Compiles)
      ∧ Problem.missingNegand ∉ (deleteWhere table p).findings.problems
      ∧ (∀ f, Statement.ofQuery (deleteWhere table p) = .error f →
          ∃ t ∈ c.tests none, t.StepFault f)
      ∧ ∀ x f, Statement.ofQuery (deleteWhere table p) = .ok x → x.toSql = .error f →
          ∃ t ∈ c.tests none, t.WriteFault f := by
  have hlowered : Lowering.lower none c = .ok p := h
  refine ⟨(succeeds_deleteWhere htable).trans (Lowering.compiles_iff hlowered),
    fun hmissing => ?_, fun f hf => ?_, fun x f hx hf => ?_⟩
  · exact Lowering.negand_given hlowered (missingNegand_of_deleteWhere hmissing)
  · exact Lowering.step_fault hlowered (step_fault_of_deleteWhere hf)
  · exact Lowering.write_fault hlowered (write_fault_of_deleteWhere htable hx hf)

/-- Two tests below connectives: a number, and a subquery under a qualified column. -/
theorem deletes_of_lowered_conditions_with_subquery :
    let ids : Select :=
      { Select.empty with columns := [.named "id"], source := some ⟨.table "u", none⟩ }
    let c : Condition := .combined (.or [
      .pair "a" (.operator (.compare .gt (.value (.int 1)))),
      .combined (.not (.pair "t.b" (.operator ⟨.isIn, .subquery ⟨some ids, none⟩⟩)))])
    let p : Predicate := .or [.compare (.named "a") ">" (.lit (.int 1)),
      .not (some (.compare (.named "t.b") "IN" (.subquery ⟨some ids, none⟩)))]
    c.toPredicate = .ok p ∧ Identifier.isSimple "t" = true
      ∧ (deleteWhere "t" p).toSql = .ok ("ALTER TABLE \x60t\x60 DELETE WHERE "
          ++ "(\x60a\x60 > 1 OR NOT (\x60t\x60.\x60b\x60 IN (SELECT \x60id\x60 FROM \x60u\x60)))")
      ∧ ∀ t ∈ c.tests none, t.Compiles := by
  intro ids c p
  have hlowered : c.toPredicate = .ok p := rfl
  have htable : Identifier.isSimple "t" = true := by decide
  have htext : (deleteWhere "t" p).toSql = .ok ("ALTER TABLE \x60t\x60 DELETE WHERE "
      ++ "(\x60a\x60 > 1 OR NOT (\x60t\x60.\x60b\x60 IN (SELECT \x60id\x60 FROM \x60u\x60)))") := by
    decide +kernel
  have hcompiles := (deletes_of_lowered_conditions hlowered htable).1.mp ⟨_, htext⟩
  exact ⟨hlowered, htable, htext, hcompiles⟩

/-- **An empty alias stops a query that compiles on its own.**  Aliases of operands are not written,
    but the check looks at them.  And a subquery brings faults of its own, here a NOT without an
    operand, into the report. -/
theorem empty_alias_stops_delete :
    (¬ ∀ (c : Condition) (p : Predicate) (table : String), c.toPredicate = .ok p →
      Identifier.isSimple table = true →
        (Succeeds (deleteWhere table p).toSql ↔ ∀ t ∈ c.tests none,
          (∀ name ∈ t.names, Nameable name)
            ∧ ∀ s ∈ t.subquery?, ∃ q, s.select = some q ∧ Succeeds (Query.select q).toSql))
    ∧ ∃ (c : Condition) (p : Predicate), c.toPredicate = .ok p
        ∧ "NOT predicate has no operand" ∈ (deleteWhere "t" p).report.errors := by
  constructor
  · intro h
    let ids : Select :=
      { Select.empty with columns := [.named "id"], source := some ⟨.table "u", none⟩ }
    let c : Condition := .pair "a" (.operator ⟨.isIn, .subquery ⟨some ids, some ""⟩⟩)
    let p : Predicate := .compare (.named "a") "IN" (.subquery ⟨some ids, some ""⟩)
    have htext : (Query.select ids).toSql = .ok "SELECT \x60id\x60 FROM \x60u\x60" := by
      with_unfolding_all rfl
    have ha : Nameable "a" :=
      nameable_iff.mpr ⟨⟨by decide, by decide⟩, passes_of_no_dot (by decide)⟩
    have htests : ∀ t ∈ c.tests none, (∀ name ∈ t.names, Nameable name)
        ∧ ∀ s ∈ t.subquery?, ∃ q, s.select = some q ∧ Succeeds (Query.select q).toSql := by
      intro t ht
      obtain rfl : t = ⟨"a", ⟨.isIn, .subquery ⟨some ids, some ""⟩⟩⟩ := List.mem_singleton.mp ht
      refine ⟨List.forall_mem_singleton.mpr ha, fun s hs => ?_⟩
      obtain rfl := Option.some.inj hs
      exact ⟨ids, rfl, _, htext⟩
    have hrefused : (deleteWhere "t" p).findings.clean = false := rfl
    obtain ⟨text, htext⟩ := (h c p "t" rfl (by decide)).mpr htests
    obtain ⟨sql, hsql, -⟩ := Query.toSql_eq_ok.mp htext
    exact Bool.false_ne_true (hrefused.symm.trans (Query.compile_iff.mp hsql).1)
  · let unfinished : Select := { Select.empty with filter := some (.not none) }
    let c : Condition := .pair "a" (.operator ⟨.isIn, .subquery ⟨some unfinished, none⟩⟩)
    exact ⟨c, _, rfl, by decide⟩

end SqlLoom
