/-
  Reports of a check: errors, which make a query unusable, and warnings, which do not.

  A report carries a flag beside its errors, and whoever asks whether a query is usable reads the
  flag.  Only `addError` lowers it, and nothing raises it again.  Taking over another report means to
  add its errors one by one; the flag of the other report is not looked at.

  So flag and errors stay IN STEP: a report that starts empty and is only ever added to is valid
  exactly when it has no error (`InStep.addError`, `InStep.addWarning`, `InStep.merge`).
-/

namespace SqlLoom

/-- The errors and warnings of a check, in the order in which they were met, and whether the check
    was passed. -/
structure Report where
  valid : Bool := true
  errors : List String := []
  warnings : List String := []
  deriving DecidableEq, Repr

namespace Report

/-- The report with one error more, which makes it invalid. -/
def addError (r : Report) (message : String) : Report :=
  { r with valid := false, errors := r.errors ++ [message] }

/-- The report with one warning more. -/
def addWarning (r : Report) (message : String) : Report :=
  { r with warnings := r.warnings ++ [message] }

/-- Takes over another report: its errors, with a lead in front of each, then its warnings as they
    are. -/
def merge (r other : Report) (lead : String := "") : Report :=
  let r := other.errors.foldl (fun r message => r.addError (lead ++ message)) r
  other.warnings.foldl addWarning r

/-- The errors in one line. -/
def summary (r : Report) : String :=
  String.intercalate ", " r.errors

/-! ## What a merge leaves -/

theorem foldl_addError (lead : String) (messages : List String) (r : Report) :
    messages.foldl (fun r message => r.addError (lead ++ message)) r
      = ⟨r.valid && messages.isEmpty, r.errors ++ messages.map (lead ++ ·), r.warnings⟩ := by
  induction messages generalizing r with
  | nil => simp
  | cons message rest ih => rw [List.foldl_cons, ih]; simp [addError]

theorem foldl_addWarning (messages : List String) (r : Report) :
    messages.foldl addWarning r = { r with warnings := r.warnings ++ messages } := by
  induction messages generalizing r with
  | nil => simp
  | cons message rest ih => rw [List.foldl_cons, ih]; simp [addWarning]

theorem merge_eq (r other : Report) (lead : String) :
    r.merge other lead
      = ⟨r.valid && other.errors.isEmpty, r.errors ++ other.errors.map (lead ++ ·),
          r.warnings ++ other.warnings⟩ := by
  rw [merge, foldl_addError, foldl_addWarning]

/-- Without a lead, errors are taken over as they are. -/
theorem errors_merge (r other : Report) : (r.merge other).errors = r.errors ++ other.errors := by
  simp [merge_eq]

theorem warnings_merge (r other : Report) (lead : String) :
    (r.merge other lead).warnings = r.warnings ++ other.warnings := by
  rw [merge_eq]

/-! ## Flag and errors -/

/-- The flag says whether there is no error. -/
def InStep (r : Report) : Prop :=
  r.valid = r.errors.isEmpty

theorem InStep.valid_iff {r : Report} (h : r.InStep) : r.valid = true ↔ r.errors = [] := by
  rw [h, List.isEmpty_iff]

theorem inStep_empty : InStep {} := rfl

theorem InStep.addError {r : Report} (message : String) : (r.addError message).InStep := by
  simp [InStep, Report.addError]

theorem InStep.addWarning {r : Report} (h : r.InStep) (message : String) :
    (r.addWarning message).InStep := h

theorem InStep.merge {r : Report} (h : r.InStep) (other : Report) (lead : String) :
    (r.merge other lead).InStep := by
  rw [InStep, merge_eq, h]
  cases r.errors <;> simp

/-- A merge is valid exactly when both reports are. -/
theorem valid_merge (r : Report) {other : Report} (h : other.InStep) (lead : String) :
    (r.merge other lead).valid = (r.valid && other.valid) := by
  rw [merge_eq, h]

end Report

end SqlLoom
