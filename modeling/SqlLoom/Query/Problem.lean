/-
  What can be wrong with a query, and what is worth a warning.

  FINDINGS are a report whose errors are still `Problem`s and not words, with what was said in the log
  meanwhile.  They are put together in two ways.  `append` takes over the problems of another part one
  by one and does not look at its flag.  `nest` does look: when the flag is down, the problems of the
  part become one problem, told `within` the part.  Both take over warnings and log entries as they
  are.

  The only warnings are about raw SQL.  A place where it is used leaves two traces, a warning and an
  entry in the log, and the two go separate ways from there.

  What `append` and `nest` make of findings is said here field by field, so that nothing else has to
  look into them.  In words they are what they are for reports, and so flag and problems stay in step
  (`Findings.InStep`).
-/
import SqlLoom.Log
import SqlLoom.Number.Decimal
import SqlLoom.Report

namespace SqlLoom

/-- The parts of a query whose problems are told in one line. -/
inductive Part where
  | argument (index : Nat)
  | caseCondition (index : Nat)
  | caseResult (index : Nat)
  | caseOtherwise
  | subquery
  deriving DecidableEq, Repr

/-- What a line about a part starts with. -/
def Part.lead : Part → String
  | argument index => "Function argument " ++ decimalNat index ++ ": "
  | caseCondition index => "Case condition " ++ decimalNat index ++ ": "
  | caseResult index => "Case then " ++ decimalNat index ++ ": "
  | caseOtherwise => "Case else: "
  | subquery => "Subquery validation failed: "

/-- A rule that a query breaks. -/
inductive Problem where
  /-- Something that was noticed while the query was put together. -/
  | recorded (message : String)
  | emptyIdentifier (what : String)
  | functionName (name : String)
  | settingName (name : String)
  | noBranch
  | incompleteBranch (index : Nat)
  | missingNegand
  | emptySubquery
  | negativeLimit
  | negativeOffset
  | rowWidth (row found expected : Nat)
  | noAssignment
  | within (part : Part) (problems : List Problem)

namespace Problem

mutual

/-- The problem in words. -/
def message : Problem → String
  | recorded message => message
  | emptyIdentifier what => "Invalid " ++ what ++ " identifier: must be a non-empty string"
  | functionName name => "Invalid function name '" ++ name ++ "'"
  | settingName name => "Invalid setting name '" ++ name ++ "'"
  | noBranch => "CASE expression requires at least one WHEN branch"
  | incompleteBranch index => "CASE branch " ++ decimalNat index ++ " is incomplete"
  | missingNegand => "NOT predicate has no operand"
  | emptySubquery => "Subquery is empty"
  | negativeLimit => "LIMIT must be non-negative"
  | negativeOffset => "OFFSET must be non-negative"
  | rowWidth row found expected =>
    "Row " ++ decimalNat row ++ " has " ++ decimalNat found ++ " values, expected "
      ++ decimalNat expected
  | noAssignment => "UPDATE requires at least one SET assignment"
  | within part problems => part.lead ++ String.intercalate ", " (messages problems)

/-- Several problems in words. -/
def messages : List Problem → List String
  | [] => []
  | p :: rest => message p :: messages rest

end

theorem messages_eq_map (ps : List Problem) : messages ps = ps.map message := by
  induction ps with
  | nil => rfl
  | cons p ps ih => simp [messages, ih]

end Problem

/-- A place where SQL is used as it was given. -/
inductive RawUse where
  | predicate (sql : String)
  | expression (sql : String)
  deriving DecidableEq, Repr

namespace RawUse

/-- The warning about any raw SQL. -/
def warning : String :=
  "Raw SQL expression used - ensure it is safe from SQL injection"

/-- The line about one place. -/
def message : RawUse → String
  | predicate sql => "raw SQL predicate: " ++ sql
  | expression sql => "raw SQL expression: " ++ sql

/-- What is said in the log about one place. -/
def entry (u : RawUse) : LogEntry :=
  ⟨.warn, "QueryValidator", u.message⟩

end RawUse

/-- The outcome of checking a query or a part of it, and what was said on the way. -/
structure Findings where
  valid : Bool := true
  problems : List Problem := []
  warnings : List String := []
  rawLog : Log := []

namespace Findings

/-- Nothing to report. -/
def nothing : Findings := {}

/-- One problem more, which makes the findings invalid. -/
def add (f : Findings) (p : Problem) : Findings :=
  { f with valid := false, problems := f.problems ++ [p] }

/-- One warning more. -/
def warn (f : Findings) (message : String) : Findings :=
  { f with warnings := f.warnings ++ [message] }

/-- Something more that was said. -/
def say (f : Findings) (entry : LogEntry) : Findings :=
  { f with rawLog := f.rawLog ++ [entry] }

/-- One problem. -/
def problem (p : Problem) : Findings :=
  nothing.add p

/-- A rule that must hold; the problem is there when it does not. -/
def require (holds : Bool) (p : Problem) : Findings :=
  if holds then nothing else problem p

/-- One use of raw SQL: it is told in the log, and warned about. -/
def rawUse (u : RawUse) : Findings :=
  (nothing.say u.entry).warn RawUse.warning

/-- Takes over the findings of another part, problem by problem. -/
def append (f other : Findings) : Findings :=
  let g := other.problems.foldl add f
  let g := other.warnings.foldl warn g
  other.rawLog.foldl say g

instance : Append Findings := ⟨append⟩

/-- The findings of several parts. -/
def concat (fs : List Findings) : Findings :=
  fs.foldr append nothing

/-- Takes over the findings of a part that is reported in one line. -/
def nest (f : Findings) (part : Part) (inner : Findings) : Findings :=
  let g := inner.warnings.foldl warn f
  let g := if inner.valid then g else g.add (.within part inner.problems)
  inner.rawLog.foldl say g

/-- The findings of a part, in one line. -/
def within (part : Part) (f : Findings) : Findings :=
  nothing.nest part f

/-- The report of the findings. -/
def report (f : Findings) : Report :=
  ⟨f.valid, Problem.messages f.problems, f.warnings⟩

/-! ## What is taken over -/

theorem foldl_add (ps : List Problem) (f : Findings) :
    ps.foldl add f = { f with valid := f.valid && ps.isEmpty, problems := f.problems ++ ps } := by
  induction ps generalizing f with
  | nil => simp
  | cons p ps ih => rw [List.foldl_cons, ih]; simp [add]

theorem foldl_warn (messages : List String) (f : Findings) :
    messages.foldl warn f = { f with warnings := f.warnings ++ messages } := by
  induction messages generalizing f with
  | nil => simp
  | cons message rest ih => rw [List.foldl_cons, ih]; simp [warn]

theorem foldl_say (log : Log) (f : Findings) :
    log.foldl say f = { f with rawLog := f.rawLog ++ log } := by
  induction log generalizing f with
  | nil => simp
  | cons entry rest ih => rw [List.foldl_cons, ih]; simp [say]

theorem append_eq (f other : Findings) :
    f ++ other
      = ⟨f.valid && other.problems.isEmpty, f.problems ++ other.problems,
          f.warnings ++ other.warnings, f.rawLog ++ other.rawLog⟩ := by
  show f.append other = _
  rw [append, foldl_add, foldl_warn, foldl_say]

@[simp] theorem problems_append (f other : Findings) :
    (f ++ other).problems = f.problems ++ other.problems := by
  rw [append_eq]

/-- What is taken over by findings without problems is all that there is. -/
theorem problems_nothing_append (f : Findings) : (nothing ++ f).problems = f.problems := by
  rw [problems_append]
  rfl

@[simp] theorem warnings_append (f other : Findings) :
    (f ++ other).warnings = f.warnings ++ other.warnings := by
  rw [append_eq]

@[simp] theorem rawLog_append (f other : Findings) :
    (f ++ other).rawLog = f.rawLog ++ other.rawLog := by
  rw [append_eq]

theorem within_eq (part : Part) (f : Findings) :
    f.within part
      = ⟨f.valid, if f.valid then [] else [.within part f.problems], f.warnings, f.rawLog⟩ := by
  rw [within, nest, foldl_warn, foldl_say]
  cases f.valid <;> simp [nothing, add]

/-- The line of a part is taken over as any other problem is. -/
theorem append_within (f : Findings) (part : Part) (inner : Findings) :
    f ++ inner.within part = f.nest part inner := by
  rw [append_eq, within_eq, nest, foldl_warn, foldl_say]
  cases inner.valid <;> simp [add]

@[simp] theorem problems_within (part : Part) (f : Findings) :
    (f.within part).problems = if f.valid then [] else [.within part f.problems] := by
  rw [within_eq]

@[simp] theorem warnings_within (part : Part) (f : Findings) :
    (f.within part).warnings = f.warnings := by
  rw [within_eq]

@[simp] theorem rawLog_within (part : Part) (f : Findings) : (f.within part).rawLog = f.rawLog := by
  rw [within_eq]

/-! ## In words

  A problem more is an error more, and taking over findings is taking over their report. -/

theorem report_add (f : Findings) (p : Problem) :
    (f.add p).report = f.report.addError p.message := by
  simp [report, add, Report.addError, Problem.messages_eq_map]

theorem report_append (f other : Findings) :
    (f ++ other).report = f.report.merge other.report := by
  rw [append_eq, Report.merge_eq]
  simp [report, Problem.messages_eq_map]

/-- The flag says whether there is no problem. -/
def InStep (f : Findings) : Prop :=
  f.report.InStep

theorem InStep.valid_eq {f : Findings} (h : f.InStep) : f.valid = f.problems.isEmpty := by
  have hwords : f.valid = (Problem.messages f.problems).isEmpty := h
  rw [hwords, Problem.messages_eq_map, List.isEmpty_map]

theorem inStep_nothing : nothing.InStep :=
  Report.inStep_empty

theorem inStep_add (f : Findings) (p : Problem) : (f.add p).InStep := by
  rw [InStep, report_add]
  exact .addError _

theorem inStep_require (holds : Bool) (p : Problem) : (require holds p).InStep := by
  cases holds
  · exact inStep_add _ p
  · exact inStep_nothing

theorem inStep_rawUse (u : RawUse) : (rawUse u).InStep :=
  Report.InStep.addWarning Report.inStep_empty RawUse.warning

/-- The flag of what is taken over does not matter. -/
theorem InStep.append {f : Findings} (h : f.InStep) (other : Findings) : (f ++ other).InStep := by
  rw [InStep, report_append]
  exact Report.InStep.merge h _ _

/-- The flag of a part decides whether it has a line, and is not taken over otherwise. -/
theorem InStep.nest {f : Findings} (h : f.InStep) (part : Part) (inner : Findings) :
    (f.nest part inner).InStep := by
  rw [← append_within]
  exact h.append _

end Findings

end SqlLoom
