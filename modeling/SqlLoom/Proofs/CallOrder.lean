/-
  Calls for different clauses may come in any order.

  A builder's state falls into parts, one for each group of calls, and a call writes the part of its
  group only.  So the calls of one group are all that its part depends on, and two lists of calls
  that agree group by group build the same query.  One thing is shared by all groups: the complaints
  about conditions that cannot be lowered, which are recorded in the order of the calls.

  1. `Parted` — what a builder has to show: a call writes its own part, from that part alone, and
     leaves every other part as it was.  `Parted.part_foldl` is the run: induction over the calls,
     with the state of one part as the invariant.
  2. `Select.Group`, `Update.Group` — the groups of calls, and the parts they write.
  3. `Query.Reordered` — the same query, with the recorded complaints in another order.  It compiles
     to the same text, or is refused for the same reasons (`Reordered.agree`): whether it compiles
     depends on whether there are complaints, never on their order.
-/
import Mathlib.Data.List.Count
import SqlLoom.Proofs.Complaints
import SqlLoom.Proofs.History

namespace SqlLoom

/-! ## States with a part for each group of calls -/

/-- A state falls into parts, one for each group of calls.  `part g s` is `s` with all else
    blanked out. -/
structure Parted {σ κ γ : Type} (apply : σ → κ → σ) (group : κ → γ) (part : γ → σ → σ) :
    Prop where
  /-- What a call writes into its own part is computed from that part. -/
  own : ∀ s k, part (group k) (apply s k) = part (group k) (apply (part (group k) s) k)
  /-- A call leaves the parts of the other groups alone. -/
  other : ∀ s k g, group k ≠ g → part g (apply s k) = part g s

namespace Parted

variable {σ κ γ : Type} [DecidableEq γ] {apply : σ → κ → σ} {group : κ → γ} {part : γ → σ → σ}

/-- A part after some calls is what the calls of its group make of it. -/
theorem part_foldl (h : Parted apply group part) (g : γ) (s : σ) (calls : List κ) :
    part g (calls.foldl apply s)
      = (calls.filter (group · = g)).foldl (fun t k => part g (apply t k)) (part g s) := by
  induction calls generalizing s with
  | nil => rfl
  | cons k calls ih =>
    rw [List.foldl_cons, ih]
    by_cases hg : group k = g
    · subst hg
      have hkeep : (k :: calls).filter (group · = group k)
          = k :: calls.filter (group · = group k) := List.filter_cons_of_pos (decide_eq_true rfl)
      rw [hkeep, List.foldl_cons, ← h.own]
    · have hskip : (k :: calls).filter (group · = g) = calls.filter (group · = g) :=
        List.filter_cons_of_neg (by simpa using hg)
      rw [hskip, h.other s k g hg]

/-- Calls that agree in the group of a part leave that part the same. -/
theorem part_foldl_eq (h : Parted apply group part) {g : γ} {calls calls' : List κ}
    (hcalls : calls.filter (group · = g) = calls'.filter (group · = g)) (s : σ) :
    part g (calls.foldl apply s) = part g (calls'.foldl apply s) := by
  rw [h.part_foldl, h.part_foldl, hcalls]

end Parted

/-- What can be read off a part is the same in two states with the same parts. -/
theorem eq_of_part {σ γ α : Type} {part : γ → σ → σ} {s t : σ} (hparts : ∀ g, part g s = part g t)
    (g : γ) (get : σ → α) (hget : ∀ s, get (part g s) = get s) : get s = get t := by
  rw [← hget s, ← hget t, hparts g]

/-- Lists that agree group by group hold the same calls. -/
theorem perm_of_groups {κ γ : Type} [DecidableEq γ] (group : κ → γ) {calls calls' : List κ}
    (h : ∀ g, calls.filter (group · = g) = calls'.filter (group · = g)) : calls.Perm calls' := by
  classical
  refine List.perm_iff_count.mpr fun k => ?_
  -- a call stands as often in a list as among the calls of its group
  have hcount (l : List κ) : (l.filter (group · = group k)).count k = l.count k :=
    List.count_filter (decide_eq_true rfl)
  rw [← hcount, h, hcount]

/-- The complaints about conditions, with the conditions given in another order. -/
theorem perm_foldl_record {κ : Type} (given : κ → List Given) {calls calls' : List κ}
    (h : calls.Perm calls') (recorded : List String) :
    ((calls.flatMap given).foldl record recorded).Perm
      ((calls'.flatMap given).foldl record recorded) := by
  rw [foldl_record, foldl_record]
  have hgiven : (calls.flatMap given).Perm (calls'.flatMap given) := h.flatMap_right given
  exact (hgiven.filterMap Clause.complaint?).append_left recorded

/-- What a clause makes of a condition does not depend on what was recorded before. -/
theorem Clause.take_fst {α : Type} (clause : Clause) (c : Condition)
    (recorded recorded' : List String) (place : Predicate → α) (failed : α) :
    (clause.take c recorded place failed).1 = (clause.take c recorded' place failed).1 := by
  cases h : c.toPredicate with
  | ok p => simp only [take, h]
  | error f => simp only [take, h]

/-! ## The groups of a SELECT -/

namespace Select

/-- The groups of calls on a SELECT: one for each clause. -/
inductive Group where
  | withs
  | source
  | joins
  | prewhere
  | filter
  | groupBy
  | having
  | orderBy
  | limit
  | final
  | settings
  | format
  | unions
  deriving DecidableEq, Repr

/-- The clause that a call is for. -/
def Call.group : Call → Group
  | .addWith .. => .withs
  | .setSource .. => .source
  | .addJoin .. => .joins
  | .setPrewhere _ => .prewhere
  | .addFilter _ => .filter
  | .setGroupBy _ => .groupBy
  | .setHaving _ => .having
  | .setOrderBy _ => .orderBy
  | .setLimit .. => .limit
  | .setFinal => .final
  | .setSettings _ => .settings
  | .setFormat _ => .format
  | .addUnion .. => .unions

/-- A SELECT with one clause left of it. -/
def part (g : Group) (q : Select) : Select :=
  match g with
  | .withs => { empty with withs := q.withs }
  | .source => { empty with source := q.source }
  | .joins => { empty with joins := q.joins }
  | .prewhere => { empty with prewhere := q.prewhere }
  | .filter => { empty with filter := q.filter }
  | .groupBy => { empty with groupBy := q.groupBy }
  | .having => { empty with having := q.having }
  | .orderBy => { empty with orderBy := q.orderBy }
  | .limit => { empty with limit := q.limit, offset := q.offset }
  | .final => { empty with final := q.final }
  | .settings => { empty with settings := q.settings }
  | .format => { empty with format := q.format }
  | .unions => { empty with unions := q.unions }

/-- A call writes the clause that it is for, and no other one. -/
theorem parted : Parted apply Call.group part where
  own q call := by
    cases call with
    | addJoin => exact congrArg (fun joins => { empty with joins }) (Clause.take_fst ..)
    | setPrewhere => exact congrArg (fun prewhere => { empty with prewhere }) (Clause.take_fst ..)
    | addFilter => exact congrArg (fun filter => { empty with filter }) (Clause.take_fst ..)
    | setHaving => exact congrArg (fun having => { empty with having }) (Clause.take_fst ..)
    | addWith | setSource | setGroupBy | setOrderBy | setLimit | setFinal | setSettings | setFormat
    | addUnion => rfl
  other q call g hne := by
    cases call <;> cases g <;> first | rfl | exact absurd rfl hne

theorem columns_apply (q : Select) (call : Call) : (q.apply call).columns = q.columns := by
  cases call <;> rfl

theorem columns_applyAll (q : Select) (calls : List Call) :
    (q.applyAll calls).columns = q.columns := by
  induction calls generalizing q with
  | nil => rfl
  | cons call calls ih => exact (ih (q.apply call)).trans (q.columns_apply call)

theorem recorded_applyAll (q : Select) (calls : List Call) :
    (q.applyAll calls).recorded = (calls.flatMap Call.given).foldl record q.recorded :=
  foldl_given recorded_apply q calls

/-- A SELECT is its columns, its clauses and its complaints. -/
theorem eq_of_parts {q r : Select} (hcolumns : q.columns = r.columns)
    (hparts : ∀ g, q.part g = r.part g) : r = { q with recorded := r.recorded } := by
  have hwiths := eq_of_part hparts .withs Select.withs fun _ => rfl
  have hsource := eq_of_part hparts .source Select.source fun _ => rfl
  have hjoins := eq_of_part hparts .joins Select.joins fun _ => rfl
  have hprewhere := eq_of_part hparts .prewhere Select.prewhere fun _ => rfl
  have hfilter := eq_of_part hparts .filter Select.filter fun _ => rfl
  have hgroupBy := eq_of_part hparts .groupBy Select.groupBy fun _ => rfl
  have hhaving := eq_of_part hparts .having Select.having fun _ => rfl
  have horderBy := eq_of_part hparts .orderBy Select.orderBy fun _ => rfl
  have hlimit := eq_of_part hparts .limit Select.limit fun _ => rfl
  have hoffset := eq_of_part hparts .limit Select.offset fun _ => rfl
  have hfinal := eq_of_part hparts .final Select.final fun _ => rfl
  have hsettings := eq_of_part hparts .settings Select.settings fun _ => rfl
  have hformat := eq_of_part hparts .format Select.format fun _ => rfl
  have hunions := eq_of_part hparts .unions Select.unions fun _ => rfl
  rw [hcolumns, hwiths, hsource, hjoins, hprewhere, hfilter, hgroupBy, hhaving, horderBy, hlimit,
    hoffset, hfinal, hsettings, hformat, hunions]
  cases r
  rfl

end Select

/-! ## The groups of an UPDATE -/

namespace Update

/-- The groups of calls on an UPDATE. -/
inductive Group where
  | assignments
  | filter
  | settings
  deriving DecidableEq, Repr

/-- The clause that a call is for. -/
def Call.group : Call → Group
  | .assign _ => .assignments
  | .addFilter _ => .filter
  | .setSettings _ => .settings

/-- An UPDATE with one clause left of it. -/
def part (g : Group) (q : Update) : Update :=
  match g with
  | .assignments => { table := "", assignments := q.assignments }
  | .filter => { table := "", filter := q.filter }
  | .settings => { table := "", settings := q.settings }

/-- A call writes the clause that it is for, and no other one. -/
theorem parted : Parted apply Call.group part where
  own q call := by
    cases call with
    | addFilter =>
      exact congrArg (fun filter => ({ table := "", filter } : Update)) (Clause.take_fst ..)
    | assign | setSettings => rfl
  other q call g hne := by
    cases call <;> cases g <;> first | rfl | exact absurd rfl hne

theorem table_applyAll (q : Update) (calls : List Call) : (q.applyAll calls).table = q.table := by
  induction calls generalizing q with
  | nil => rfl
  | cons call calls ih =>
    have htable : (q.apply call).table = q.table := by cases call <;> rfl
    exact (ih (q.apply call)).trans htable

theorem recorded_applyAll (q : Update) (calls : List Call) :
    (q.applyAll calls).recorded = (calls.flatMap Call.given).foldl record q.recorded :=
  foldl_given recorded_apply q calls

/-- An UPDATE is its table, its clauses and its complaints. -/
theorem eq_of_parts {q r : Update} (htable : q.table = r.table)
    (hparts : ∀ g, q.part g = r.part g) : r = { q with recorded := r.recorded } := by
  have hassignments := eq_of_part hparts .assignments Update.assignments fun _ => rfl
  have hfilter := eq_of_part hparts .filter Update.filter fun _ => rfl
  have hsettings := eq_of_part hparts .settings Update.settings fun _ => rfl
  rw [htable, hassignments, hfilter, hsettings]

end Update

/-! ## Complaints in another order -/

namespace Query

/-- The second query is the first one with its complaints in another order. -/
inductive Reordered : Query → Query → Prop
  | select (q : Select) {recorded : List String} (h : q.recorded.Perm recorded) :
    Reordered (.select q) (.select { q with recorded })
  | update (q : Update) {recorded : List String} (h : q.recorded.Perm recorded) :
    Reordered (.update q) (.update { q with recorded })

/-- Two queries give the same text or are both refused, and the same errors are reported. -/
structure Agree (q r : Query) : Prop where
  outcome : (∃ text, q.toSql = .ok text ∧ r.toSql = .ok text)
    ∨ ∃ e e', q.toSql = .error e ∧ r.toSql = .error e'
  errors : q.report.errors.Perm r.report.errors

namespace Reordered

theorem recorded_perm {q r : Query} (h : Reordered q r) : q.recorded.Perm r.recorded := by
  cases h with
  | select q h => exact h
  | update q h => exact h

theorem ofQuery_eq {q r : Query} (h : Reordered q r) :
    Statement.ofQuery q = Statement.ofQuery r := by
  cases h with
  | select q h =>
    obtain ⟨⟩ := q
    simp only [Statement.ofQuery, Statement.ofSelect]
  | update q h => rfl

/-- Without complaints there is nothing to put in another order. -/
theorem eq_of_nil {q r : Query} (h : Reordered q r) (hnil : q.recorded = []) : q = r := by
  have hsame {recorded recorded' : List String} (hperm : recorded.Perm recorded')
      (hnil : recorded = []) : recorded' = recorded := by
    subst hnil
    exact hperm.nil_eq.symm
  cases h with
  | select q h =>
    rw [hsame h hnil]
    cases q
    rfl
  | update q h => rw [hsame h hnil]

theorem problems_perm {q r : Query} (h : Reordered q r) :
    q.findings.problems.Perm r.findings.problems := by
  cases h with
  | @select q recorded h =>
    obtain ⟨⟩ := q
    simp only [findings, Select.findings, recordedFindings_eq, Findings.problems_append,
      List.append_assoc]
    exact (h.map Problem.recorded).append_right _
  | @update q recorded h =>
    simp only [findings, Update.findings, recordedFindings_eq, Findings.problems_append,
      List.append_assoc]
    exact ((h.map Problem.recorded).append_right _).append_left _

/-- The statement does not depend on the complaints, and whether there are any does not depend on
    their order. -/
theorem agree {q r : Query} (h : Reordered q r) : Agree q r where
  outcome := by
    by_cases hnil : q.recorded = []
    · rw [← h.eq_of_nil hnil]
      cases htext : q.toSql with
      | ok text => exact .inl ⟨text, rfl, rfl⟩
      | error e => exact .inr ⟨e, e, rfl, rfl⟩
    · have hnil' : r.recorded ≠ [] := fun h' => hnil (h' ▸ h.recorded_perm).eq_nil
      obtain ⟨e, he, -⟩ := toSql_of_not_clean (not_clean_of_recorded hnil)
      obtain ⟨e', he', -⟩ := toSql_of_not_clean (not_clean_of_recorded hnil')
      exact .inr ⟨e, e', he, he'⟩
  errors := by
    have hproblems : (Problem.messages q.findings.problems).Perm
        (Problem.messages r.findings.problems) := by
      rw [Problem.messages_eq_map, Problem.messages_eq_map]
      exact h.problems_perm.map Problem.message
    rw [report_eq, report_eq, Report.errors_merge, Report.errors_merge, ← h.ofQuery_eq]
    exact hproblems.append_right _

end Reordered

end Query

/-- **Headline.**  Take two lists of calls that agree in each group, on any query to start with.
    The two queries are the same up to the order of their complaints; so both compile, to the same
    text, or both are refused, and the same errors are reported. -/
theorem calls_of_other_clauses_commute :
    (∀ (q : Select) (calls calls' : List Select.Call),
      (∀ g, calls.filter (·.group = g) = calls'.filter (·.group = g)) →
        ∃ recorded, (q.applyAll calls).recorded.Perm recorded
          ∧ q.applyAll calls' = { q.applyAll calls with recorded }
          ∧ Query.Agree (.select (q.applyAll calls)) (.select (q.applyAll calls')))
    ∧ ∀ (q : Update) (calls calls' : List Update.Call),
        (∀ g, calls.filter (·.group = g) = calls'.filter (·.group = g)) →
          ∃ recorded, (q.applyAll calls).recorded.Perm recorded
            ∧ q.applyAll calls' = { q.applyAll calls with recorded }
            ∧ Query.Agree (.update (q.applyAll calls)) (.update (q.applyAll calls')) := by
  constructor
  · intro q calls calls' hcalls
    have hrecorded : (q.applyAll calls).recorded.Perm (q.applyAll calls').recorded := by
      rw [Select.recorded_applyAll, Select.recorded_applyAll]
      exact perm_foldl_record Select.Call.given (perm_of_groups Select.Call.group hcalls) _
    have hcolumns : (q.applyAll calls).columns = (q.applyAll calls').columns := by
      rw [Select.columns_applyAll, Select.columns_applyAll]
    have hsame := Select.eq_of_parts hcolumns fun g => Select.parted.part_foldl_eq (hcalls g) q
    refine ⟨_, hrecorded, hsame, ?_⟩
    rw [hsame]
    exact (Query.Reordered.select _ hrecorded).agree
  · intro q calls calls' hcalls
    have hrecorded : (q.applyAll calls).recorded.Perm (q.applyAll calls').recorded := by
      rw [Update.recorded_applyAll, Update.recorded_applyAll]
      exact perm_foldl_record Update.Call.given (perm_of_groups Update.Call.group hcalls) _
    have htable : (q.applyAll calls).table = (q.applyAll calls').table := by
      rw [Update.table_applyAll, Update.table_applyAll]
    have hsame := Update.eq_of_parts htable fun g => Update.parted.part_foldl_eq (hcalls g) q
    refine ⟨_, hrecorded, hsame, ?_⟩
    rw [hsame]
    exact (Query.Reordered.update _ hrecorded).agree

/-- Two conditions that cannot be lowered and a limit that is given twice: the complaints change
    places, and the last limit stays.  And an UPDATE that is given its condition first, or last. -/
theorem calls_of_other_clauses_commute_with_complaints :
    let calls : List Select.Call :=
      [.addFilter (.record []), .setHaving (.record []), .setLimit 5 none, .setLimit 1 none]
    let calls' : List Select.Call :=
      [.setLimit 5 none, .setHaving (.record []), .setLimit 1 none, .addFilter (.record [])]
    let changes : List Update.Call := [.addFilter (.raw "b"), .assign [("a", .int 1)]]
    let changes' : List Update.Call := [.assign [("a", .int 1)], .addFilter (.raw "b")]
    Select.empty.applyAll calls' = { Select.empty.applyAll calls with
        recorded := ["HAVING: Empty condition record", "WHERE: Empty condition record"] }
      ∧ Query.Agree (.select (Select.empty.applyAll calls)) (.select (Select.empty.applyAll calls'))
      ∧ Query.Agree (.update (Update.applyAll { table := "t" } changes))
          (.update (Update.applyAll { table := "t" } changes')) := by
  intro calls calls' changes changes'
  obtain ⟨recorded, -, hsame, hagree⟩ := calls_of_other_clauses_commute.1 Select.empty calls calls'
    (by intro g; cases g <;> rfl)
  obtain ⟨_, -, -, hupdate⟩ := calls_of_other_clauses_commute.2 { table := "t" } changes changes'
    (by intro g; cases g <;> rfl)
  have hrecorded : recorded = (Select.empty.applyAll calls').recorded := by rw [hsame]
  have hwords : (Select.empty.applyAll calls').recorded
      = ["HAVING: Empty condition record", "WHERE: Empty condition record"] := by decide
  rw [hrecorded, hwords] at hsame
  exact ⟨hsame, hagree, hupdate⟩

end SqlLoom
