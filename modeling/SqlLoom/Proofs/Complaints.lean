/-
  A condition is never silently lost.

  A condition that cannot be lowered leaves its clause as it was, or empty, and the only trace of it
  is the complaint that the builder records.  Here is what becomes of that trace, whatever calls
  follow:

  * the report of the query holds the complaints, in order (`infix_of_recorded`);
  * the query is refused before anything is sent (`toSql_of_not_clean`);
  * so is every query that has the SELECT somewhere inside (`not_clean_of_has`).

  The other way round: when an UPDATE or a DELETE compiles, a WHERE clause is there exactly when a
  condition was given (`where_written_iff`).
-/
import SqlLoom.Builder.Run
import SqlLoom.Proofs.Findings
import SqlLoom.Proofs.Literal
import SqlLoom.Proofs.Meaning
import SqlLoom.Proofs.Written.Query

namespace SqlLoom

open Outcome
open Sql (code)

/-! ## The trace of a complaint -/

namespace Query

/-- What was recorded stands among the findings. -/
theorem problems_split (q : Query) : ∃ before after,
    q.findings.problems = before ++ q.recorded.map Problem.recorded ++ after := by
  cases q with
  | select q =>
    obtain ⟨columns, source, joins, withs, prewhere, filter, groupBy, having, orderBy, limit,
      offset, final, settings, format, unions, recorded⟩ := q
    simp only [findings, Select.findings, recordedFindings_eq, Findings.problems_append,
      List.append_assoc]
    -- a SELECT reports what was recorded before anything else
    exact ⟨[], _, rfl⟩
  | insert q => exact ⟨[], q.findings.problems, rfl⟩
  | update q =>
    simp only [findings, Update.findings, recordedFindings_eq, Findings.problems_append,
      List.append_assoc]
    exact ⟨_, _, rfl⟩
  | delete q =>
    simp only [findings, Delete.findings, recordedFindings_eq, Findings.problems_append,
      List.append_assoc]
    exact ⟨_, _, rfl⟩

/-- What was recorded is reported, in order. -/
theorem infix_of_recorded (q : Query) : q.recorded <:+: q.report.errors := by
  obtain ⟨before, after, hproblems⟩ := q.problems_split
  have hwords : (q.recorded.map Problem.recorded).map Problem.message = q.recorded := by
    rw [List.map_map]
    exact List.map_id'' (fun _ => rfl) q.recorded
  have hfindings : Problem.messages q.findings.problems
      = before.map Problem.message ++ q.recorded ++ after.map Problem.message := by
    rw [Problem.messages_eq_map, hproblems, List.map_append, List.map_append, hwords]
  -- the step to a statement only adds errors at the end
  have hreport : q.report.errors = Problem.messages q.findings.problems
      ++ (Statement.stepReport (Statement.ofQuery q)).errors := Report.errors_merge _ _
  rw [hreport, hfindings, List.append_assoc]
  exact List.infix_append _ _ _

/-- A report with something in it is not valid. -/
theorem not_valid_of_recorded {q : Query} (h : q.recorded ≠ []) : q.report.valid = false := by
  rw [← Bool.not_eq_true, q.inStep_report.valid_iff]
  intro hnil
  have hinfix := q.infix_of_recorded
  rw [hnil] at hinfix
  exact h (List.infix_nil.mp hinfix)

/-- A query with something recorded is not clean. -/
theorem not_clean_of_recorded {q : Query} (h : q.recorded ≠ []) : q.findings.clean = false := by
  obtain ⟨before, after, hproblems⟩ := q.problems_split
  refine List.isEmpty_eq_false_iff.mpr ?_
  rw [hproblems]
  simp [h]

/-- Nor is a query that has such a SELECT somewhere inside. -/
theorem not_clean_of_has {outer : Query} {q : Select} (hhas : outer.Has (.select q))
    (h : q.recorded ≠ []) : outer.findings.clean = false := by
  rw [← Bool.not_eq_true, clean_iff_every]
  rintro ⟨-, hsound⟩
  have hq : q.Sound := hsound (.select q) hhas
  exact h hq.recorded

/-- A query that is not clean is refused as invalid. -/
theorem toSql_of_not_clean {q : Query} (h : q.findings.clean = false) :
    ∃ e, q.toSql = .error e ∧ e.kind = .validation := by
  have hvalid : q.report.valid = false := by
    rw [← Bool.not_eq_true, valid_report_iff, h]
    exact fun hboth => Bool.false_ne_true hboth.1
  exact ⟨_, toSql_of_not_valid hvalid, rfl⟩

/-! ## Nothing is sent -/

/-- The runner behind each way to run a query. -/
def runnersAfter (runner : Runner) : Query → List Runner
  | select q => [(q.run runner).2, (q.stream runner).2]
  | insert q => [((Query.insert q).command [] q.format runner).2]
  | update q => [(q.run runner).2]
  | delete q => [(q.run runner).2]

/-- A query that is refused leaves the runner as it was, whichever way it is run. -/
theorem runner_of_toSql_error {q : Query} {e : Error} (h : q.toSql = .error e) (runner : Runner) :
    ∀ r ∈ q.runnersAfter runner, r = runner := by
  intro r hr
  cases q with
  | select q =>
    have hrun : (q.run runner).2 = runner := by rw [Select.run, h]
    have hstream : (q.stream runner).2 = runner := by
      rw [Select.stream, h]
      split <;> rfl
    rcases List.mem_cons.mp hr with rfl | hr
    · exact hrun
    · rw [List.mem_singleton.mp hr, hstream]
  | insert q =>
    rw [List.mem_singleton.mp hr, command, h]
  | update q =>
    rw [List.mem_singleton.mp hr, Update.run, command, h]
  | delete q =>
    rw [List.mem_singleton.mp hr, Delete.run, command, h]

end Query

/-! ## The WHERE clause of a change -/

/-- The code that starts a WHERE clause. -/
def wherePiece : Piece :=
  .code " WHERE "

theorem wherePiece_not_mem_code {s : String} (h : s ≠ " WHERE ") : wherePiece ∉ code s := by
  intro hmem
  exact h (Piece.code.inj (List.mem_singleton.mp hmem)).symm

/-- Names are not keywords: the only names that are written as code are `*` and numbers. -/
theorem wherePiece_not_mem_name {s : String} {sql : Sql} (h : NameWrites .selection s sql) :
    wherePiece ∉ sql := by
  cases h.shape with
  | plain hs =>
    refine wherePiece_not_mem_code ?_
    rintro rfl
    exact absurd hs (by decide)
  | quoted => simp [wherePiece]
  | expression => simp [wherePiece]
  | qualified table column => simp [wherePiece]

theorem wherePiece_not_mem_literal (v : Value) : wherePiece ∉ v.literal := by
  intro h
  obtain ⟨-, hchars⟩ := Value.isLiteral_of_mem_literal v _ h
  -- no literal has a capital W in its code
  have hW := hchars 'W' (by decide)
  exact absurd hW (by decide)

/-- What stands in a clause is its keyword, a separator, or stands in one of the parts. -/
theorem Statement.mem_clause {keyword separator : String} {parts : List Sql} {p : Piece}
    (h : p ∈ clause keyword separator parts) :
    p = .code keyword ∨ p = .code separator ∨ ∃ part ∈ parts, p ∈ part := by
  unfold clause at h
  split at h
  · exact absurd h List.not_mem_nil
  · rcases List.mem_append.mp h with h | h
    · exact Or.inl (List.mem_singleton.mp h)
    · exact Or.inr (Sql.mem_joined h)

theorem wherePiece_not_mem_assignment {name : Sql} {v : Value} (h : wherePiece ∉ name) :
    wherePiece ∉ Statement.assignmentSql name v := by
  intro hmem
  rcases List.mem_append.mp hmem with hmem | hmem
  · rcases List.mem_append.mp hmem with hmem | hmem
    · exact h hmem
    · exact absurd (List.mem_singleton.mp hmem) (by decide)
  · exact wherePiece_not_mem_literal v hmem

theorem wherePiece_not_mem_assignments {assignments : Record} {parts : List Sql}
    (h : List.Forall₂ AssignmentWrites assignments parts) :
    wherePiece ∉ Statement.clause " " ", " parts := by
  have hparts : ∀ part ∈ parts, wherePiece ∉ part := by
    induction h with
    | nil => exact nofun
    | cons hentry _ ih =>
      obtain ⟨name, hname, rfl⟩ := hentry
      exact List.forall_mem_cons.mpr
        ⟨wherePiece_not_mem_assignment (wherePiece_not_mem_name hname), ih⟩
  intro hmem
  rcases Statement.mem_clause hmem with h | h | ⟨part, hpart, h⟩
  · exact absurd h (by decide)
  · exact absurd h (by decide)
  · exact hparts part hpart h

theorem wherePiece_not_mem_settings {settings : Record}
    (h : ∀ entry ∈ settings, Identifier.isSimple entry.1 = true) :
    wherePiece ∉ Statement.settingsSql settings := by
  intro hmem
  rcases Statement.mem_clause hmem with hp | hp | ⟨part, hpart, hp⟩
  · exact absurd hp (by decide)
  · exact absurd hp (by decide)
  · obtain ⟨⟨key, v⟩, hentry, rfl⟩ := List.mem_map.mp hpart
    have hsimple : Identifier.isSimple key = true := h _ hentry
    have hkey : key ≠ " WHERE " := by
      rintro rfl
      exact absurd hsimple (by decide)
    exact wherePiece_not_mem_assignment (wherePiece_not_mem_code hkey) hp

/-- A condition is written behind its keyword, and a missing one not at all. -/
theorem wherePiece_mem_clause {filter : Option Predicate} {sql : Sql}
    (h : ClauseWrites " WHERE " filter sql) : wherePiece ∈ sql ↔ filter ≠ none := by
  cases filter with
  | none =>
    obtain rfl : sql = [] := h
    simp
  | some p =>
    obtain ⟨body, -, rfl⟩ := h
    simp [wherePiece, code]

/-- The SQL of an UPDATE has a WHERE clause exactly when there is a WHERE tree. -/
theorem Update.where_written_iff {q : Update} {sql : Sql}
    (h : (Query.update q).compile = .ok sql) : wherePiece ∈ sql ↔ q.filter ≠ none := by
  obtain ⟨hclean, table, assignments, filter, htable, hassignments, hfilter, rfl⟩ :=
    Query.compile_iff.mp h
  obtain ⟨⟨-, -, -, -, hsettings⟩, -⟩ := Query.clean_iff.mp hclean
  rw [← wherePiece_mem_clause hfilter]
  -- the keyword stands in none of the other parts
  have halter : wherePiece ∉ code "ALTER TABLE " := wherePiece_not_mem_code (by decide)
  have hupdate : wherePiece ∉ code " UPDATE" := wherePiece_not_mem_code (by decide)
  simp only [List.mem_append, halter, hupdate, wherePiece_not_mem_name htable,
    wherePiece_not_mem_assignments hassignments, wherePiece_not_mem_settings hsettings, false_or,
    or_false]

/-- The SQL of a DELETE has a WHERE clause exactly when there is a WHERE tree. -/
theorem Delete.where_written_iff {q : Delete} {sql : Sql}
    (h : (Query.delete q).compile = .ok sql) : wherePiece ∈ sql ↔ q.filter ≠ none := by
  obtain ⟨hclean, table, filter, htable, hfilter, rfl⟩ := Query.compile_iff.mp h
  obtain ⟨⟨-, -, hsettings⟩, -⟩ := Query.clean_iff.mp hclean
  rw [← wherePiece_mem_clause hfilter]
  have halter : wherePiece ∉ code "ALTER TABLE " := wherePiece_not_mem_code (by decide)
  have hdelete : wherePiece ∉ code " DELETE" := wherePiece_not_mem_code (by decide)
  simp only [List.mem_append, halter, hdelete, wherePiece_not_mem_name htable,
    wherePiece_not_mem_settings hsettings, false_or, or_false]

namespace History

/-- Whether the builder is one of an UPDATE or of a DELETE. -/
def isChange : History → Bool
  | select _ _ => false
  | update _ _ => true
  | delete _ _ => true

/-- There is a complaint for every condition that cannot be lowered. -/
theorem complaints_ne_nil {h : History} {g : Given} (hg : g ∈ h.given) {f : Lowering.Fault}
    (hf : g.2.toPredicate = .error f) : h.complaints ≠ [] := by
  have hcomplaint : Clause.complaint? g = some (g.1.complaint f) := by
    rw [Clause.complaint?, hf]
  exact List.ne_nil_of_mem (List.mem_filterMap.mpr ⟨g, hg, hcomplaint⟩)

/-- The only clause of a change that takes a condition is WHERE. -/
theorem clause_of_change {h : History} (hchange : h.isChange = true) :
    ∀ g ∈ h.given, g.1 = .filter := by
  intro g hg
  cases h with
  | select columns calls => exact nomatch hchange
  | update table calls =>
    obtain ⟨call, -, hg⟩ := List.mem_flatMap.mp hg
    cases call with
    | addFilter condition => rw [List.mem_singleton.mp hg]
    | assign values => exact absurd hg List.not_mem_nil
    | setSettings settings => exact absurd hg List.not_mem_nil
  | delete table calls =>
    obtain ⟨call, -, hg⟩ := List.mem_flatMap.mp hg
    cases call with
    | addFilter condition => rw [List.mem_singleton.mp hg]
    | setSettings settings => exact absurd hg List.not_mem_nil

theorem filters_eq_nil_of_change {h : History} (hchange : h.isChange = true) :
    h.filters = [] ↔ h.given = [] := by
  constructor
  · intro hnil
    rw [filters, List.filterMap_eq_nil_iff] at hnil
    refine List.eq_nil_iff_forall_not_mem.mpr fun g hg => ?_
    obtain ⟨clause, c⟩ := g
    obtain rfl : clause = .filter := clause_of_change hchange _ hg
    exact absurd (hnil _ hg) (Option.some_ne_none c)
  · intro hnil
    rw [filters, hnil]
    rfl

/-- The SQL of a change has a WHERE clause exactly when a condition was given. -/
theorem where_written_iff {h : History} (hchange : h.isChange = true)
    (hlow : ∀ c ∈ h.filters, ∃ p, c.toPredicate = .ok p) {sql : Sql}
    (hsql : h.query.compile = .ok sql) : wherePiece ∈ sql ↔ h.given ≠ [] := by
  have htree : h.query.filter = none ↔ h.given = [] := by
    rw [filter_query, foldl_collect, ← filters_eq_nil_of_change hchange]
    refine (foldl_collect_eq_none h.filters none hlow).trans ?_
    exact ⟨And.right, fun hnil => ⟨rfl, hnil⟩⟩
  rw [Ne, ← htree]
  cases h with
  | select columns calls => exact nomatch hchange
  | update table calls => exact Update.where_written_iff hsql
  | delete table calls => exact Delete.where_written_iff hsql

end History

/-- **Headline.**  Once a condition was given that cannot be lowered, the query carries exactly the
    complaints, reports them, is refused, sends nothing, and spoils every query around it.  And a
    change that compiles has a WHERE clause exactly when it was given a condition. -/
theorem failed_conditions_are_never_lost :
    (∀ h : History, (∃ g ∈ h.given, ∃ f, g.2.toPredicate = .error f) →
      h.query.recorded = h.complaints
        ∧ h.query.report.valid = false
        ∧ h.complaints <:+: h.query.report.errors
        ∧ (∃ e, h.query.toSql = .error e ∧ e.kind = .validation)
        ∧ (∀ runner, ∀ r ∈ h.query.runnersAfter runner, r = runner)
        ∧ ∀ (q : Select) (outer : Query), h.query = .select q → outer.Has (.select q) →
            ∃ e, outer.toSql = .error e ∧ e.kind = .validation)
    ∧ ∀ h : History, h.isChange = true →
        (∀ c ∈ h.filters, ∃ p, c.toPredicate = .ok p) →
          ∀ text, h.query.toSql = .ok text →
            ∃ sql : Sql, sql.text = text ∧ h.query.compile = .ok sql
              ∧ (wherePiece ∈ sql ↔ h.given ≠ []) := by
  constructor
  · rintro h ⟨g, hg, f, hf⟩
    have hrecorded : h.query.recorded ≠ [] := by
      rw [h.recorded_query]
      exact h.complaints_ne_nil hg hf
    obtain ⟨e, he, hkind⟩ := Query.toSql_of_not_clean (Query.not_clean_of_recorded hrecorded)
    refine ⟨h.recorded_query, Query.not_valid_of_recorded hrecorded, ?_, ⟨e, he, hkind⟩,
      Query.runner_of_toSql_error he, ?_⟩
    · rw [← h.recorded_query]
      exact h.query.infix_of_recorded
    · intro q outer hq hhas
      rw [hq] at hrecorded
      exact Query.toSql_of_not_clean (Query.not_clean_of_has hhas hrecorded)
  · intro h hchange hlow text htext
    rw [Query.toSql, mapError_eq_ok, map_eq_ok] at htext
    obtain ⟨sql, hsql, rfl⟩ := htext
    exact ⟨sql, rfl, hsql, History.where_written_iff hchange hlow hsql⟩

/-- An empty record is given for WHERE, then a good condition; the SELECT is the source of another.
    And a DELETE with one condition. -/
theorem failed_conditions_are_never_lost_of_empty_record :
    let history : History := .select [] [.addFilter (.record []), .addFilter (.raw "b")]
    let inner := (Select.ofColumns []).applyAll [.addFilter (.record []), .addFilter (.raw "b")]
    let outer : Query :=
      .select { Select.empty with source := some ⟨.subquery (inner.asSubquery none), none⟩ }
    history.query.recorded = ["WHERE: Empty condition record"]
      ∧ (∃ e, outer.toSql = .error e ∧ e.kind = .validation)
      ∧ ∃ sql : Sql, sql.text = "ALTER TABLE \x60t\x60 DELETE WHERE b" ∧ wherePiece ∈ sql := by
  intro history inner outer
  let change : History := .delete "t" [.addFilter (.raw "b")]
  have hfailed : ∃ g ∈ history.given, ∃ f, g.2.toPredicate = .error f :=
    ⟨(.filter, .record []), List.mem_cons_self, .emptyRecord, rfl⟩
  have hhas : outer.Has (.select inner) := by
    refine ⟨.select _, List.mem_singleton.mpr rfl, Node.Within.of_mem_parts ?_⟩
    simp [Node.parts, Select.parts, Select.empty, Source.parts, Subquery.parts, Select.asSubquery]
  have hlow : ∀ c ∈ change.filters, ∃ p, c.toPredicate = .ok p := by
    intro c hc
    obtain rfl : c = .raw "b" := List.mem_singleton.mp hc
    exact ⟨_, rfl⟩
  obtain ⟨hrecorded, -, -, -, -, houter⟩ := failed_conditions_are_never_lost.1 history hfailed
  obtain ⟨sql, htext, -, hwhere⟩ := failed_conditions_are_never_lost.2 change rfl hlow
    "ALTER TABLE \x60t\x60 DELETE WHERE b" (by rfl)
  exact ⟨hrecorded.trans (by decide), houter inner outer rfl hhas, sql, htext,
    hwhere.mpr (List.cons_ne_nil _ _)⟩

end SqlLoom
