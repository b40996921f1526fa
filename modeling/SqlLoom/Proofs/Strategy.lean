/-
  The last data given to an INSERT decides what is sent.

  Two histories of calls are compared: a whole one, and the same without some of the calls that gave
  data before the last one did.  When the last call gave records or a stream, the two runs agree,
  except for one thing that is left of the abandoned data: literal rows stay in the query, and their
  width is checked against the columns whatever is sent.

  1. `Thinned`: a history without some of its calls that give data;
  2. `Alike`: the drafts agree in everything that no data call changes — thinning a history keeps
     this, call by call;
  3. `Twin`: after the last data call they also agree in the data that is to be sent, and the calls
     behind it keep this;
  4. `Twin.run_eq`: twins run alike when the widths of the rows they keep are complained about
     alike, and `run_of_misfit`: rows of another width block the run.
-/
import SqlLoom.Proofs.Sending

namespace SqlLoom

/-! ## The rows that are kept -/

namespace Insert

/-- What the check has against the widths of the rows. -/
def widthFindings (q : Insert) : Findings :=
  if q.columns.isEmpty then .nothing else rowFindings q.columns.length 0 q.rows

/-- The rows are as wide as there are columns, if columns are given. -/
def Fits (q : Insert) : Prop :=
  q.columns = [] ∨ ∀ row ∈ q.rows, row.length = q.columns.length

theorem rowFindings_of_fitting {width index : Nat} {rows : List Row}
    (h : ∀ row ∈ rows, row.length = width) : rowFindings width index rows = .nothing := by
  induction rows generalizing index with
  | nil => rfl
  | cons row rows ih =>
    obtain ⟨hrow, hrows⟩ := List.forall_mem_cons.mp h
    simp only [rowFindings, hrow, beq_self_eq_true, ih hrows]
    rfl

/-- Rows that fit the columns are not complained about. -/
theorem widthFindings_of_fits {q : Insert} (h : q.Fits) : q.widthFindings = .nothing := by
  unfold widthFindings
  rcases h with hc | hrows
  · rw [hc]; rfl
  · rw [rowFindings_of_fitting hrows, ite_self]

/-- The report on an INSERT is that of the check: the step to a statement never fails. -/
theorem report_eq (q : Insert) : (Query.insert q).report = q.findings.report.merge {} :=
  rfl

theorem not_valid_of_misfit {q : Insert} (h : ¬ q.Fits) :
    (Query.insert q).report.valid = false := by
  rw [Bool.eq_false_iff]
  intro hvalid
  obtain ⟨-, -, hrows⟩ := Insert.clean_iff.mp (Query.valid_report_iff.mp hvalid).1
  exact h hrows

end Insert

namespace InsertDraft

/-! ## Thinning a history -/

/-- The first history is the second one without some of its calls that give data. -/
inductive Thinned : List Call → List Call → Prop
  | nil : Thinned [] []
  | keep (call : Call) {calls calls' : List Call} (rest : Thinned calls calls') :
    Thinned (call :: calls) (call :: calls')
  | drop {call : Call} (data : call.strategy? ≠ none) {calls calls' : List Call}
    (rest : Thinned calls calls') : Thinned calls (call :: calls')

/-- Two drafts agree in what no call with data changes. -/
structure Alike (d d' : InsertDraft) : Prop where
  table : d.query.table = d'.query.table
  columns : d.query.columns = d'.query.columns
  format : d.query.format = d'.query.format

theorem Alike.refl (d : InsertDraft) : Alike d d :=
  ⟨rfl, rfl, rfl⟩

theorem Alike.apply {d d' : InsertDraft} (h : Alike d d') (call : Call) :
    Alike (d.apply call) (d'.apply call) := by
  obtain ⟨htable, hcolumns, hformat⟩ := h
  cases call <;> exact ⟨by assumption, by first | rfl | assumption, by first | rfl | assumption⟩

/-- Data leaves table, columns and format alone. -/
theorem Alike.apply_data {d d' : InsertDraft} (h : Alike d d') {call : Call}
    (hdata : call.strategy? ≠ none) : Alike d (d'.apply call) := by
  cases call with
  | setColumns | setFormat => exact absurd rfl hdata
  | setRows | addRow | setObjects | setStream => exact ⟨h.table, h.columns, h.format⟩

theorem Alike.applyAll {calls calls' : List Call} (hthin : Thinned calls calls')
    {d d' : InsertDraft} (h : Alike d d') : Alike (d.applyAll calls) (d'.applyAll calls') := by
  induction hthin generalizing d d' with
  | nil => exact h
  | keep call _ ih => exact ih (h.apply call)
  | drop hdata _ ih => exact ih (h.apply_data hdata)

/-! ## From the last data on -/

/-- Two drafts agree in what is sent beside the SQL, and in all that decides how. -/
structure Twin (d d' : InsertDraft) : Prop extends Alike d d' where
  strategy : d.strategy = d'.strategy
  beside : d.strategy ≠ .values
  objects : d.strategy = .objects → d.objects = d'.objects
  stream : d.strategy = .stream → d.stream = d'.stream

/-- A call gives data that is sent beside the SQL. -/
def Call.Beside (call : Call) : Prop :=
  call.strategy? = some .objects ∨ call.strategy? = some .stream

theorem Alike.twin {d d' : InsertDraft} (h : Alike d d') {call : Call} (hlast : call.Beside) :
    Twin (d.apply call) (d'.apply call) := by
  have happly := h.apply call
  cases call with
  | setObjects objects => exact ⟨happly, rfl, nofun, fun _ => rfl, nofun⟩
  | setStream text => exact ⟨happly, rfl, nofun, nofun, fun _ => rfl⟩
  | setColumns | setFormat | setRows | addRow =>
    rcases hlast with hlast | hlast <;> exact nomatch hlast

theorem Twin.apply {d d' : InsertDraft} (h : Twin d d') {call : Call}
    (hnone : call.strategy? = none) : Twin (d.apply call) (d'.apply call) := by
  have happly := h.toAlike.apply call
  cases call with
  | setColumns | setFormat => exact ⟨happly, h.strategy, h.beside, h.objects, h.stream⟩
  | setRows | addRow | setObjects | setStream => exact nomatch hnone

theorem Twin.applyAll {calls : List Call} (hnone : ∀ call ∈ calls, call.strategy? = none)
    {d d' : InsertDraft} (h : Twin d d') : Twin (d.applyAll calls) (d'.applyAll calls) := by
  induction calls generalizing d d' with
  | nil => exact h
  | cons call calls ih =>
    obtain ⟨hcall, hcalls⟩ := List.forall_mem_cons.mp hnone
    exact ih hcalls (h.apply hcall)

/-! ## The run -/

theorem Twin.payload_eq {d d' : InsertDraft} (h : Twin d d') : d.payload = d'.payload := by
  unfold payload
  rw [← h.strategy, ← h.format]
  cases hs : d.strategy with
  | values => exact absurd hs h.beside
  | objects =>
    rw [h.objects hs]
    match d'.objects with
    | none => rfl
    | some [] => rfl
    | some (_ :: _) => rfl
  | stream =>
    rw [h.stream hs]
    cases d'.stream <;> rfl

theorem Twin.report_eq {d d' : InsertDraft} (h : Twin d d')
    (hwidths : d.query.widthFindings = d'.query.widthFindings) :
    (Query.insert d.query).report = (Query.insert d'.query).report := by
  have hfindings : d.query.findings = d'.query.findings := by
    show _ ++ _ ++ d.query.widthFindings = _ ++ _ ++ d'.query.widthFindings
    rw [h.table, h.columns, hwidths]
  rw [Insert.report_eq, Insert.report_eq, hfindings]

theorem Twin.run_eq {d d' : InsertDraft} (h : Twin d d')
    (hwidths : d.query.widthFindings = d'.query.widthFindings) (runner : Runner) :
    d.run runner = d'.run runner := by
  have hrequest : d.insertRequest = d'.insertRequest := by
    unfold insertRequest
    rw [h.report_eq hwidths, h.payload_eq, h.table, h.columns]
  have hbeside' : d'.strategy ≠ .values := h.strategy ▸ h.beside
  rw [run_of_not_values h.beside, run_of_not_values hbeside', hrequest]

/-- Rows that do not fit the columns block the run of any other data. -/
theorem run_of_misfit {d : InsertDraft} (hbeside : d.strategy ≠ .values)
    (hmisfit : ¬ d.query.Fits) (runner : Runner) :
    d.run runner = (.error (Fault.invalid (Query.insert d.query).report).toError, runner) := by
  have hrequest : d.insertRequest = .error (.invalid (Query.insert d.query).report) := by
    simp only [insertRequest, Insert.not_valid_of_misfit hmisfit, Bool.false_eq_true, if_false]
  rw [run_of_not_values hbeside, hrequest]

theorem applyAll_split (d : InsertDraft) (earlier later : List Call) (last : Call) :
    d.applyAll (earlier ++ last :: later) = ((d.applyAll earlier).apply last).applyAll later := by
  unfold applyAll
  rw [List.foldl_append, List.foldl_cons]

/-- **The last data decides.**  Take away any of the calls that gave data before the last one did,
    where the last one gave records or a stream.  If the rows that are then left in the query are
    complained about as before — as when none of them is — then every run ends as before, and makes
    the same call with the same request. -/
theorem run_eq_of_thinned (table : String) {earlier earlier' later : List Call} {last : Call}
    (hlast : last.Beside) (hlater : ∀ call ∈ later, call.strategy? = none)
    (hthin : Thinned earlier' earlier)
    (hwidths : ((into table).applyAll (earlier' ++ last :: later)).query.widthFindings
      = ((into table).applyAll (earlier ++ last :: later)).query.widthFindings)
    (runner : Runner) :
    ((into table).applyAll (earlier' ++ last :: later)).run runner
      = ((into table).applyAll (earlier ++ last :: later)).run runner := by
  refine Twin.run_eq ?_ hwidths runner
  rw [applyAll_split, applyAll_split]
  exact (((Alike.refl _).applyAll hthin).twin hlast).applyAll hlater

/-- Rows that fit the columns are left behind without a trace. -/
theorem run_eq_of_thinned_rows :
    ((into "t").applyAll ([.setColumns ["a"]] ++ .setObjects [[("a", .int 1)]] :: [])).run {}
      = ((into "t").applyAll ([.setColumns ["a"], .setRows [[.int 1]]]
          ++ .setObjects [[("a", .int 1)]] :: [])).run {} :=
  run_eq_of_thinned "t" (.inl rfl) (List.forall_mem_nil _) (.keep _ (.drop (by decide) .nil))
    ((Insert.widthFindings_of_fits (.inr (by decide))).trans
      (Insert.widthFindings_of_fits (.inr (by decide))).symm) {}

/-- **Abandoned rows can block a run.**  The last data is not all that counts: rows of another width
    than the columns stop records that are given after them. -/
theorem run_ne_of_misfit :
    ¬ ∀ (table : String) (earlier earlier' later : List Call) (last : Call) (runner : Runner),
      last.Beside → (∀ call ∈ later, call.strategy? = none) → Thinned earlier' earlier →
      ((into table).applyAll (earlier' ++ last :: later)).run runner
        = ((into table).applyAll (earlier ++ last :: later)).run runner := by
  intro h
  have hrun := h "t" [.setColumns ["a"], .setRows [[.int 1, .int 2]]] [.setColumns ["a"]] []
    (.setObjects [[("a", .int 1)]]) {} (.inl rfl) (List.forall_mem_nil _)
    (.keep _ (.drop (by decide) .nil))
  have hblocked := hrun.trans (run_of_misfit (by decide) (not_or.mpr (by decide)) {})
  -- without the rows the records are sent
  exact absurd (congrArg (fun outcome => outcome.2.calls.length) hblocked) (by decide)

end InsertDraft

end SqlLoom
