/-
  When a query is clean.

  Checking a query collects findings from all over the tree, some merged and some folded into one
  line.  Here the outcome is read back as a rule for each node.

  1. THE FLAG.  Whether a part is folded into a line is decided by its flag, and a query is refused by
     its flag too, while merging looks at problems only.  The two agree: each check starts from
     findings whose flag is in step with their problems, and whatever is taken over then keeps it so
     (`Expr.inStep_findings` and its likes).
  2. THE PROBLEMS.  A node has a clean bill exactly when it is `Sound` — it keeps the rules that are
     about the node itself — and each of its parts has one.  By induction a query is clean exactly when
     all of its nodes are sound (`Query.clean_iff_every`).
-/
import Mathlib.Tactic.Tauto
import SqlLoom.Proofs.Parts
import SqlLoom.Query.Findings

namespace SqlLoom

/-! ## Clean findings

  Whether findings are clean only depends on how they are put together. -/

namespace Findings

/-- Whether no rule is broken. -/
def clean (f : Findings) : Bool :=
  f.problems.isEmpty

theorem InStep.valid_eq_clean {f : Findings} (h : f.InStep) : f.valid = f.clean :=
  h.valid_eq

@[simp] theorem clean_nothing : nothing.clean = true := rfl

@[simp] theorem clean_problem (p : Problem) : (problem p).clean = false := rfl

@[simp] theorem clean_rawUse (u : RawUse) : (rawUse u).clean = true := rfl

@[simp] theorem clean_require (holds : Bool) (p : Problem) : (require holds p).clean = holds := by
  cases holds <;> rfl

@[simp] theorem clean_append (a b : Findings) : (a ++ b).clean = (a.clean && b.clean) := by
  simp only [clean, problems_append]
  cases a.problems <;> rfl

theorem clean_nothing_append (f : Findings) : (nothing ++ f).clean = f.clean := by
  rw [clean_append, clean_nothing, Bool.true_and]

/-- A line is written by the flag. -/
@[simp] theorem clean_within (part : Part) (f : Findings) : (f.within part).clean = f.valid := by
  rw [clean, problems_within]
  cases f.valid <;> rfl

theorem clean_concat_iff {fs : List Findings} :
    (concat fs).clean = true ↔ ∀ f ∈ fs, f.clean = true := by
  induction fs with
  | nil => simp [concat]
  | cons f fs ih =>
    have hc : (concat (f :: fs)).clean = (f.clean && (concat fs).clean) := clean_append f (concat fs)
    rw [hc, Bool.and_eq_true, ih, List.forall_mem_cons]

end Findings

/-! ## Flags -/

section Flags

open Findings

theorem recordedFindings_eq (messages : List String) :
    recordedFindings messages
      = { valid := messages.isEmpty, problems := messages.map .recorded } := by
  rw [recordedFindings, ← List.foldl_map, foldl_add]
  simp [nothing]

theorem inStep_recordedFindings (messages : List String) :
    (recordedFindings messages).InStep := by
  simp [InStep, Report.InStep, report, recordedFindings_eq, Problem.messages_eq_map]

theorem inStep_nameFindings (what name : String) : (nameFindings what name).InStep :=
  inStep_require _ _

theorem Expr.inStep_findings (e : Expr) : e.findings.InStep := by
  cases e with
  | raw sql label => exact (inStep_rawUse _).append _
  | call function args label => exact ((inStep_require _ _).append _).append _
  | cases branches otherwise label => exact (((inStep_require _ _).append _).append _).append _
  | column c => exact (inStep_nothing.append _).append _
  | subquery s => exact (inStep_nothing.append _).append _
  | _ => exact inStep_nothing.append _

theorem Predicate.inStep_findings (p : Predicate) : p.findings.InStep := by
  cases p with
  | compare left operator right => cases left <;> exact (inStep_nothing.append _).append _
  | and children grouped => exact inStep_nothing.append _
  | or children => exact inStep_nothing.append _
  | not child =>
    cases child with
    | none => exact inStep_add _ _
    | some p => exact inStep_nothing.append _
  | raw sql => exact inStep_rawUse _

theorem Select.inStep_findings (q : Select) : q.findings.InStep := by
  cases q
  rw [findings]
  iterate 13 refine InStep.append ?_ _
  exact inStep_recordedFindings _

theorem Query.inStep_findings (q : Query) : q.findings.InStep := by
  cases q with
  | select q => exact q.inStep_findings
  | insert q => exact ((inStep_nameFindings _ _).append _).append _
  | update q =>
    exact (((((inStep_nameFindings _ _).append _).append _).append _).append _).append _
  | delete q => exact (((inStep_nameFindings _ _).append _).append _).append _

/-! The parts that are told in one line. -/

@[simp] theorem Expr.valid_findings (e : Expr) : e.findings.valid = e.findings.clean :=
  e.inStep_findings.valid_eq_clean

@[simp] theorem Predicate.valid_findings (p : Predicate) : p.findings.valid = p.findings.clean :=
  p.inStep_findings.valid_eq_clean

@[simp] theorem Select.valid_findings (q : Select) : q.findings.valid = q.findings.clean :=
  q.inStep_findings.valid_eq_clean

end Flags

/-! ## Rules of single nodes -/

/-- Column and table of a reference are given. -/
def Column.Sound (c : Column) : Prop :=
  c.name ≠ "" ∧ c.table ≠ some ""

/-- Both parts of a branch are there. -/
def Branch.Complete (b : Branch) : Prop :=
  b.condition.isSome ∧ b.result.isSome

/-- What an expression has to keep, its parts apart. -/
def Expr.Sound : Expr → Prop
  | .column c => c.Sound ∧ c.label ≠ some ""
  | .value _ label => label ≠ some ""
  | .array _ label => label ≠ some ""
  | .tuple _ label => label ≠ some ""
  | .subquery s => s.select.isSome ∧ s.label ≠ some ""
  | .raw _ label => label ≠ some ""
  | .call function _ label => Identifier.isSimple function ∧ label ≠ some ""
  | .cases branches _ label => branches ≠ [] ∧ (∀ b ∈ branches, b.Complete) ∧ label ≠ some ""

/-- What a condition has to keep, its parts apart.  A test that takes no left side may have an empty
    column there. -/
def Predicate.Sound : Predicate → Prop
  | .compare (.column c) operator _ => (c.name = "" ∧ takesNoLeft operator) ∨ c.Sound
  | .not child => child.isSome
  | _ => True

/-- A table has a name, and a subquery a query. -/
def Source.Sound : Source → Prop
  | .table name => name ≠ ""
  | .subquery s => s.select.isSome

/-- What a SELECT has to keep, its parts apart. -/
structure Select.Sound (q : Select) : Prop where
  recorded : q.recorded = []
  withs : ∀ w ∈ q.withs, w.name ≠ "" ∧ w.query.select.isSome
  source : ∀ f ∈ q.source, f.source.Sound ∧ f.label ≠ some ""
  joins : ∀ j ∈ q.joins, j.source.Sound ∧ j.label ≠ some ""
  groupBy : ∀ c ∈ q.groupBy, c.Sound
  orderBy : ∀ item ∈ q.orderBy, item.column.Sound
  limit : ∀ n ∈ q.limit, 0 ≤ n
  offset : ∀ n ∈ q.offset, 0 ≤ n
  settings : ∀ entry ∈ q.settings, Identifier.isSimple entry.1
  unions : ∀ u ∈ q.unions, u.query.select.isSome

/-- The rule of a node. -/
def Node.Sound : Node → Prop
  | .expr e => e.Sound
  | .operand e => e.Sound
  | .predicate p => p.Sound
  | .select q => q.Sound

/-- What the statement around the nodes has to keep. -/
def Query.RootSound : Query → Prop
  | .select _ => True
  | .insert q =>
    q.table ≠ "" ∧ (∀ c ∈ q.columns, c ≠ "")
      ∧ (q.columns = [] ∨ ∀ row ∈ q.rows, row.length = q.columns.length)
  | .update q =>
    q.table ≠ "" ∧ q.recorded = [] ∧ q.assignments ≠ [] ∧ (∀ entry ∈ q.assignments, entry.1 ≠ "")
      ∧ ∀ entry ∈ q.settings, Identifier.isSimple entry.1
  | .delete q =>
    q.table ≠ "" ∧ q.recorded = [] ∧ ∀ entry ∈ q.settings, Identifier.isSimple entry.1

/-- The findings about a node. -/
def Node.findings : Node → Findings
  | .expr e => e.findings
  | .operand e => e.findings
  | .predicate p => p.findings
  | .select q => q.findings

@[simp] theorem Node.findings_expr (e : Expr) : (expr e).findings = e.findings := rfl

@[simp] theorem Node.findings_operand (e : Expr) : (operand e).findings = e.findings := rfl

@[simp] theorem Node.findings_predicate (p : Predicate) : (predicate p).findings = p.findings := rfl

@[simp] theorem Node.findings_select (q : Select) : (select q).findings = q.findings := rfl

/-! ## Leaves of the check -/

theorem clean_nameFindings_iff {what name : String} :
    (nameFindings what name).clean = true ↔ name ≠ "" := by
  rw [nameFindings, Findings.clean_require, Bool.not_eq_true', ← Bool.not_eq_true,
    String.isEmpty_iff]

theorem clean_labelFindings_iff {what : String} {label : Option String} :
    (labelFindings what label).clean = true ↔ label ≠ some "" := by
  cases label with
  | none => simp [labelFindings]
  | some name => simp [labelFindings, clean_nameFindings_iff]

theorem Column.clean_iff {c : Column} : c.findings.clean = true ↔ c.Sound := by
  rw [Column.findings, Findings.clean_append, Bool.and_eq_true, clean_nameFindings_iff,
    clean_labelFindings_iff, Column.Sound]

theorem clean_settingsFindings_iff {settings : Record} :
    (settingsFindings settings).clean = true ↔
      ∀ entry ∈ settings, Identifier.isSimple entry.1 = true := by
  rw [settingsFindings, Findings.clean_concat_iff, List.forall_mem_map]
  simp only [Findings.clean_require]

theorem clean_recordedFindings_iff {messages : List String} :
    (recordedFindings messages).clean = true ↔ messages = [] := by
  simp [recordedFindings_eq, Findings.clean]

theorem clean_countFindings_iff {p : Problem} {count : Option Int64} :
    (countFindings p count).clean = true ↔ ∀ n ∈ count, 0 ≤ n := by
  cases count <;> simp [countFindings]

theorem Subquery.clean_iff {s : Subquery} :
    s.findings.clean = true ↔ s.select.isSome ∧ ∀ n ∈ s.parts, n.findings.clean = true := by
  obtain ⟨select, label⟩ := s
  cases select <;> simp [findings, parts]

theorem Source.clean_iff {s : Source} :
    s.findings.clean = true ↔ s.Sound ∧ ∀ n ∈ s.parts, n.findings.clean = true := by
  cases s with
  | table name => simp [findings, Sound, parts, clean_nameFindings_iff]
  | subquery s => simp only [findings, Sound, parts, Subquery.clean_iff]

theorem clean_clauseFindings_iff {clause : Option Predicate} :
    (clauseFindings clause).clean = true ↔ ∀ n ∈ clauseParts clause, n.findings.clean = true := by
  cases clause <;> simp [clauseFindings, clauseParts]

/-! ## Lists of parts -/

theorem clean_columnFindings_iff {es : List Expr} :
    (columnFindings es).clean = true ↔ ∀ e ∈ es, e.findings.clean = true := by
  induction es with
  | nil => simp [columnFindings]
  | cons e es ih => simp [columnFindings, ih]

theorem clean_argumentFindings_iff {index : Nat} {es : List Expr} :
    (argumentFindings index es).clean = true ↔ ∀ e ∈ es, e.findings.clean = true := by
  induction es generalizing index with
  | nil => simp [argumentFindings]
  | cons e es ih => simp [argumentFindings, ih]

theorem clean_predicateFindings_iff {ps : List Predicate} :
    (predicateFindings ps).clean = true ↔ ∀ p ∈ ps, p.findings.clean = true := by
  induction ps with
  | nil => simp [predicateFindings]
  | cons p ps ih => simp [predicateFindings, ih]

/-- An incomplete branch is never clean; the parts of a complete one are all visited. -/
theorem Branch.clean_iff {index : Nat} {b : Branch} :
    (b.findings index).clean = true ↔ b.Complete ∧ ∀ n ∈ b.parts, n.findings.clean = true := by
  obtain ⟨condition, result⟩ := b
  cases condition <;> cases result <;> simp [findings, Complete, parts]

theorem clean_branchFindings_iff {index : Nat} {bs : List Branch} :
    (branchFindings index bs).clean = true ↔
      (∀ b ∈ bs, b.Complete) ∧ ∀ n ∈ bs.flatMap Branch.parts, n.findings.clean = true := by
  induction bs generalizing index with
  | nil => simp [branchFindings]
  | cons b bs ih =>
    simp only [branchFindings, Findings.clean_append, Bool.and_eq_true, Branch.clean_iff, ih,
      List.forall_mem_cons, List.flatMap_cons, List.forall_mem_append]
    exact and_and_and_comm

theorem clean_fromFindings_iff {source : Option FromClause} :
    (fromFindings source).clean = true ↔
      (∀ f ∈ source, f.source.Sound ∧ f.label ≠ some "")
        ∧ ∀ n ∈ source.toList.flatMap (·.source.parts), n.findings.clean = true := by
  cases source with
  | none => simp [fromFindings]
  | some f =>
    obtain ⟨source, label⟩ := f
    simp [fromFindings, Source.clean_iff, clean_labelFindings_iff, and_right_comm]

theorem clean_joinFindings_iff {joins : List JoinClause} :
    (joinFindings joins).clean = true ↔
      (∀ j ∈ joins, j.source.Sound ∧ j.label ≠ some "")
        ∧ ∀ n ∈ joins.flatMap JoinClause.parts, n.findings.clean = true := by
  induction joins with
  | nil => simp [joinFindings]
  | cons j joins ih =>
    obtain ⟨kind, source, label, condition⟩ := j
    simp only [joinFindings, Findings.clean_append, Bool.and_eq_true, Source.clean_iff,
      clean_labelFindings_iff, ih, List.forall_mem_cons, List.flatMap_cons, List.forall_mem_append,
      JoinClause.parts, Node.findings_predicate]
    tauto

theorem clean_withFindings_iff {withs : List WithClause} :
    (withFindings withs).clean = true ↔
      (∀ w ∈ withs, w.name ≠ "" ∧ w.query.select.isSome)
        ∧ ∀ n ∈ withs.flatMap (·.query.parts), n.findings.clean = true := by
  induction withs with
  | nil => simp [withFindings]
  | cons w withs ih =>
    obtain ⟨name, query⟩ := w
    simp only [withFindings, Findings.clean_append, Bool.and_eq_true, clean_nameFindings_iff,
      Subquery.clean_iff, ih, List.forall_mem_cons, List.flatMap_cons, List.forall_mem_append]
    tauto

theorem clean_unionFindings_iff {unions : List UnionMember} :
    (unionFindings unions).clean = true ↔
      (∀ u ∈ unions, u.query.select.isSome)
        ∧ ∀ n ∈ unions.flatMap (·.query.parts), n.findings.clean = true := by
  induction unions with
  | nil => simp [unionFindings]
  | cons u unions ih =>
    obtain ⟨operator, query⟩ := u
    simp only [unionFindings, Findings.clean_append, Bool.and_eq_true, Subquery.clean_iff, ih,
      List.forall_mem_cons, List.flatMap_cons, List.forall_mem_append]
    exact and_and_and_comm

theorem clean_columnsOf_iff {cs : List Column} :
    (Findings.concat (cs.map Column.findings)).clean = true ↔ ∀ c ∈ cs, c.Sound := by
  rw [Findings.clean_concat_iff, List.forall_mem_map]
  simp only [Column.clean_iff]

/-! ## Nodes -/

theorem Expr.clean_iff {e : Expr} :
    e.findings.clean = true ↔ e.Sound ∧ ∀ n ∈ e.parts, n.findings.clean = true := by
  cases e with
  | column c => simp [findings, Sound, parts, Column.clean_iff, clean_labelFindings_iff]
  | value v label => simp [findings, Sound, parts, clean_labelFindings_iff]
  | array items label => simp [findings, Sound, parts, clean_labelFindings_iff]
  | tuple items label => simp [findings, Sound, parts, clean_labelFindings_iff]
  | subquery s =>
    simp [findings, Sound, parts, Subquery.clean_iff, clean_labelFindings_iff, and_right_comm]
  | raw sql label => simp [findings, Sound, parts, clean_labelFindings_iff]
  | call function args label =>
    simp only [findings, Sound, parts, Findings.clean_append, Findings.clean_require,
      Bool.and_eq_true, clean_argumentFindings_iff, clean_labelFindings_iff, List.forall_mem_map,
      Node.findings_expr]
    exact and_right_comm
  | cases branches otherwise label =>
    have ho : (otherwiseFindings otherwise).clean = true ↔
        ∀ n ∈ otherwise.toList.map Node.expr, n.findings.clean = true := by
      cases otherwise <;> simp [otherwiseFindings]
    simp only [findings, Sound, parts, Findings.clean_append, Findings.clean_require,
      Bool.and_eq_true, clean_branchFindings_iff, clean_labelFindings_iff, ho,
      List.forall_mem_append, Bool.not_eq_true', List.isEmpty_eq_false_iff]
    tauto

theorem Predicate.clean_iff {p : Predicate} :
    p.findings.clean = true ↔ p.Sound ∧ ∀ n ∈ p.parts, n.findings.clean = true := by
  cases p with
  | compare left operator right =>
    cases left with
    | column c =>
      by_cases hc : c.name = "" ∧ takesNoLeft operator = true
      · simp [findings, Sound, parts, leftParts, hc]
      · have hf : (c.name.isEmpty && takesNoLeft operator) = false := by
          simpa [String.isEmpty_iff] using hc
        simp [findings, Sound, parts, leftParts, hf, hc, Column.clean_iff]
    | _ => simp [findings, Sound, parts, leftParts]
  | and children grouped =>
    simp [findings, Sound, parts, clean_predicateFindings_iff]
  | or children => simp [findings, Sound, parts, clean_predicateFindings_iff]
  | not child => cases child <;> simp [findings, negandFindings, Sound, parts]
  | raw sql => simp [findings, Sound, parts]

theorem Select.clean_iff {q : Select} :
    q.findings.clean = true ↔ q.Sound ∧ ∀ n ∈ q.parts, n.findings.clean = true := by
  obtain ⟨columns, source, joins, withs, prewhere, filter, groupBy, having, orderBy, limit, offset,
    final, settings, format, unions, recorded⟩ := q
  have ho : (Findings.concat (orderBy.map (·.column.findings))).clean = true ↔
      ∀ item ∈ orderBy, item.column.Sound := by
    rw [Findings.clean_concat_iff, List.forall_mem_map]
    simp only [Column.clean_iff]
  have hc : (columnFindings columns).clean = true ↔
      ∀ n ∈ columns.map Node.expr, n.findings.clean = true := by
    rw [clean_columnFindings_iff, List.forall_mem_map]
    rfl
  simp only [findings, Findings.clean_append, Bool.and_eq_true, clean_recordedFindings_iff,
    clean_withFindings_iff, hc, clean_fromFindings_iff, clean_joinFindings_iff,
    clean_clauseFindings_iff, clean_columnsOf_iff, ho, clean_countFindings_iff,
    clean_settingsFindings_iff, clean_unionFindings_iff, parts, List.forall_mem_append]
  constructor
  · rintro ⟨⟨⟨⟨⟨⟨⟨⟨⟨⟨⟨⟨⟨h₁, h₂, p₁⟩, p₂⟩, h₃, p₃⟩, h₄, p₄⟩, p₅⟩, p₆⟩, h₅⟩, p₇⟩, h₆⟩, h₇⟩, h₈⟩, h₉⟩,
      h₁₀, p₈⟩
    exact ⟨⟨h₁, h₂, h₃, h₄, h₅, h₆, h₇, h₈, h₉, h₁₀⟩, ⟨⟨⟨⟨⟨⟨p₁, p₂⟩, p₃⟩, p₄⟩, p₅⟩, p₆⟩, p₇⟩, p₈⟩
  · rintro ⟨⟨h₁, h₂, h₃, h₄, h₅, h₆, h₇, h₈, h₉, h₁₀⟩, ⟨⟨⟨⟨⟨⟨p₁, p₂⟩, p₃⟩, p₄⟩, p₅⟩, p₆⟩, p₇⟩, p₈⟩
    exact ⟨⟨⟨⟨⟨⟨⟨⟨⟨⟨⟨⟨⟨h₁, h₂, p₁⟩, p₂⟩, h₃, p₃⟩, h₄, p₄⟩, p₅⟩, p₆⟩, h₅⟩, p₇⟩, h₆⟩, h₇⟩, h₈⟩, h₉⟩,
      h₁₀, p₈⟩

namespace Node

theorem clean_iff {n : Node} :
    n.findings.clean = true ↔ n.Sound ∧ ∀ m ∈ n.parts, m.findings.clean = true := by
  cases n with
  | expr e => exact Expr.clean_iff
  | operand e => exact Expr.clean_iff
  | predicate p => exact Predicate.clean_iff
  | select q => exact Select.clean_iff

/-- A node is clean exactly when it and all nodes below it are sound. -/
theorem clean_iff_every {n : Node} : n.findings.clean = true ↔ n.Every Sound := by
  constructor
  -- downwards, to be clean is a rule that passes to the parts; upwards, the parts come first
  · intro h m hm
    have hclean : n.Every (fun n => n.findings.clean = true) :=
      every_of_step (fun _ h => (clean_iff.mp h).2) h
    exact (clean_iff.mp (hclean m hm)).1
  · induction n using induction with
    | step n ih => exact fun h => clean_iff.mpr ⟨h.here, fun m hm => ih m hm (h.below hm)⟩

end Node

/-! ## Whole queries -/

theorem clean_rowFindings_iff {width index : Nat} {rows : List Row} :
    (rowFindings width index rows).clean = true ↔ ∀ row ∈ rows, row.length = width := by
  induction rows generalizing index with
  | nil => simp [rowFindings]
  | cons row rows ih => simp [rowFindings, ih]

/-- The names of a list are all given. -/
theorem clean_namesOf_iff {what : String} {names : List String} :
    (Findings.concat (names.map (nameFindings what))).clean = true ↔ ∀ s ∈ names, s ≠ "" := by
  rw [Findings.clean_concat_iff, List.forall_mem_map]
  simp only [clean_nameFindings_iff]

theorem Insert.clean_iff {q : Insert} :
    q.findings.clean = true ↔ (Query.insert q).RootSound := by
  have hrows : (if q.columns.isEmpty then Findings.nothing
      else rowFindings q.columns.length 0 q.rows).clean = true ↔
      q.columns = [] ∨ ∀ row ∈ q.rows, row.length = q.columns.length := by
    cases hc : q.columns with
    | nil => simp
    | cons c cs => simp [clean_rowFindings_iff]
  rw [findings, Findings.clean_append, Findings.clean_append, Bool.and_eq_true, Bool.and_eq_true,
    clean_nameFindings_iff, clean_namesOf_iff, hrows, and_assoc]
  rfl

theorem Update.clean_iff {q : Update} :
    q.findings.clean = true ↔
      (Query.update q).RootSound ∧ ∀ n ∈ clauseParts q.filter, n.findings.clean = true := by
  have hkeys : (Findings.concat (q.assignments.map fun entry =>
      nameFindings "column" entry.1)).clean = true ↔ ∀ entry ∈ q.assignments, entry.1 ≠ "" := by
    rw [Findings.clean_concat_iff, List.forall_mem_map]
    simp only [clean_nameFindings_iff]
  simp only [findings, Findings.clean_append, Bool.and_eq_true, clean_nameFindings_iff,
    clean_recordedFindings_iff, Findings.clean_require, hkeys, clean_clauseFindings_iff,
    clean_settingsFindings_iff, Query.RootSound, Bool.not_eq_true', List.isEmpty_eq_false_iff]
  tauto

theorem Delete.clean_iff {q : Delete} :
    q.findings.clean = true ↔
      (Query.delete q).RootSound ∧ ∀ n ∈ clauseParts q.filter, n.findings.clean = true := by
  simp only [findings, Findings.clean_append, Bool.and_eq_true, clean_nameFindings_iff,
    clean_recordedFindings_iff, clean_clauseFindings_iff, clean_settingsFindings_iff,
    Query.RootSound]
  tauto

namespace Query

theorem clean_iff {q : Query} :
    q.findings.clean = true ↔ q.RootSound ∧ ∀ n ∈ q.parts, n.findings.clean = true := by
  cases q with
  | select q => simp [findings, RootSound, parts]
  | insert q => simpa [findings, parts] using Insert.clean_iff
  | update q => exact Update.clean_iff
  | delete q => exact Delete.clean_iff

/-- A query is clean exactly when all of its nodes are sound, and so is the statement around
    them. -/
theorem clean_iff_every {q : Query} :
    q.findings.clean = true ↔ q.RootSound ∧ q.Every Node.Sound := by
  rw [clean_iff]
  constructor
  · rintro ⟨hroot, hparts⟩
    refine ⟨hroot, ?_⟩
    rintro n ⟨m, hm, hn⟩
    exact Node.clean_iff_every.mp (hparts m hm) n hn
  · rintro ⟨hroot, hevery⟩
    exact ⟨hroot, fun n hn => Node.clean_iff_every.mpr (hevery.part hn)⟩

end Query

/-! ## The report of the check -/

/-- The flag in the report of a query says whether the query is clean. -/
theorem Query.valid_report_findings (q : Query) : q.findings.report.valid = q.findings.clean :=
  q.inStep_findings.valid_eq_clean

/-- **The check finds what is wrong, and nothing else.**  Its report is valid exactly when it has no
    error, and exactly when every node of the query, at any depth, keeps its own rule, and so does
    the statement around the nodes. -/
theorem valid_iff_every_node_is_sound (q : Query) :
    (q.findings.report.valid = true ↔ q.findings.report.errors = [])
      ∧ (q.findings.report.valid = true ↔ q.RootSound ∧ q.Every Node.Sound) := by
  constructor
  · exact q.inStep_findings.valid_iff
  · rw [Query.valid_report_findings]
    exact Query.clean_iff_every

end SqlLoom
