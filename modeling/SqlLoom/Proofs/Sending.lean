/-
  What a run sends.

  A run of a builder either makes one call of the runner or refuses.  Which of the two is said here
  without the order in which the builders look at things: a relation says which call is *due*, and
  `Delivers` that the run makes the call that is due and no other, and that it leaves the runner
  alone when none is.

  The development has three steps:

  1. two ways to deliver: the one call that is due is noted (`delivers_note`), or none is due and
     the run ends in a validation error (`delivers_error`); a check in front of a run
     (`Delivers.guarded`) and a query that is compiled first (`delivers_compiled`) come down to
     these;
  2. the strategy of an INSERT is that of the last call that gave data (`strategy_applyAll`), by
     induction on the calls;
  3. each builder delivers what is due, whatever calls were made on it.
-/
import SqlLoom.Builder.Run
import SqlLoom.Proofs.Closed
import SqlLoom.Proofs.Written.Query

namespace SqlLoom

/-- What the compiler has to say against a query is always a failed validation. -/
theorem Query.code_of_toSql {q : Query} {e : Error} (h : q.toSql = .error e) :
    e.code = "VALIDATION_ERROR" := by
  unfold Query.toSql at h
  cases hc : q.compile with
  | ok sql => rw [hc] at h; exact nomatch h
  | error fault =>
    rw [hc] at h
    obtain rfl : fault.toError = e := Except.error.inj h
    cases fault with
    | invalid report => rfl
    | unwritable f =>
      -- what is missing in a CASE branch has no code of its own, but nothing is
      have hf := meetsHole_of_compile hc
      cases f with
      | missingBranchPart => exact nomatch hf
      | _ => rfl

namespace Runner

/-- The runner can tell a call from no call. -/
theorem note_ne (r : Runner) (call : RunnerCall) : r.note call ≠ r := by
  intro h
  have hlength := congrArg (fun r => r.calls.length) h
  simp [note] at hlength

/-- The runner can tell one call from another. -/
theorem note_inj {r : Runner} {call call' : RunnerCall} :
    r.note call = r.note call' ↔ call = call' := by
  simp [note]

end Runner

/-! ## Delivering what is due -/

/-- A run on a runner makes exactly the calls that are due, at most one, and without one it leaves
    the runner as it was and ends in a failed validation. -/
structure Delivers {α : Type} (due : RunnerCall → Prop) (runner : Runner)
    (outcome : Except Error α × Runner) : Prop where
  sent : ∀ call, outcome.2 = runner.note call ↔ due call
  once : outcome.2 = runner ∨ ∃ call, outcome.2 = runner.note call
  kept : (∀ call, ¬ due call) →
    outcome.2 = runner ∧ ∃ e, outcome.1 = .error e ∧ e.code = "VALIDATION_ERROR"

section Delivers

variable {α : Type} {due : RunnerCall → Prop} {runner : Runner} {outcome : Except Error α × Runner}

theorem delivers_note (call : RunnerCall) (hdue : ∀ call', due call' ↔ call' = call)
    (hnote : outcome.2 = runner.note call) : Delivers due runner outcome where
  sent call' := by rw [hnote, Runner.note_inj, hdue, eq_comm]
  once := .inr ⟨call, hnote⟩
  kept hnone := absurd ((hdue call).mpr rfl) (hnone call)

theorem delivers_error {e : Error} (hdue : ∀ call, ¬ due call) (he : e.code = "VALIDATION_ERROR") :
    Delivers due runner ((.error e, runner) : Except Error α × Runner) where
  sent call := ⟨fun h => absurd h.symm (runner.note_ne call), fun h => absurd h (hdue call)⟩
  once := .inl rfl
  kept _ := ⟨rfl, e, rfl, he⟩

/-- Two ways to say which call is due. -/
theorem Delivers.of_iff {due' : RunnerCall → Prop} (h : Delivers due runner outcome)
    (hdue : ∀ call, due' call ↔ due call) : Delivers due' runner outcome := by
  obtain rfl : due' = due := funext fun call => propext (hdue call)
  exact h

/-- A check in front of a run. -/
theorem Delivers.guarded {e : Error} (check : Bool) (he : e.code = "VALIDATION_ERROR")
    (h : Delivers due runner outcome) :
    Delivers (fun call => check = true ∧ due call) runner
      (if check then outcome else (.error e, runner)) := by
  cases check with
  | true => exact h.of_iff fun _ => and_iff_right rfl
  | false => exact delivers_error (fun _ hdue => nomatch hdue.1) he

/-- A query that is compiled first, and then sent in one call. -/
theorem delivers_compiled (q : Query) (request : String → RunnerCall)
    (answer : String → Except Error α × Runner)
    (hnote : ∀ sql, (answer sql).2 = runner.note (request sql)) :
    Delivers (fun call => ∃ sql, q.toSql = .ok sql ∧ call = request sql) runner
      (match q.toSql with
        | .ok sql => answer sql
        | .error e => (.error e, runner)) := by
  cases h : q.toSql with
  | ok sql =>
    refine delivers_note (request sql) (fun call => ⟨?_, fun hcall => ⟨sql, rfl, hcall⟩⟩) (hnote sql)
    rintro ⟨sql', hsql, hcall⟩
    rwa [Except.ok.inj hsql]
  | error e => exact delivers_error (fun _ ⟨_, hsql, _⟩ => nomatch hsql) (Query.code_of_toSql h)

end Delivers

/-! ## SELECT, UPDATE and DELETE -/

namespace Select

/-- The call that asks for the rows of a SELECT. -/
def Executes (q : Select) (call : RunnerCall) : Prop :=
  ∃ sql, (Query.select q).toSql = .ok sql ∧ call = .execute ⟨sql, q.settings, q.format⟩

/-- The call that asks for the chunks of a SELECT. -/
def Streams (q : Select) (call : RunnerCall) : Prop :=
  isStreamable (q.format.getD "JSONEachRow") = true
    ∧ ∃ sql, (Query.select q).toSql = .ok sql
      ∧ call = .stream ⟨sql, q.settings, some (q.format.getD "JSONEachRow")⟩

theorem run_delivers (q : Select) (runner : Runner) : Delivers q.Executes runner (q.run runner) :=
  delivers_compiled (.select q) _ _ fun _ => rfl

theorem stream_delivers (q : Select) (runner : Runner) :
    Delivers q.Streams runner (q.stream runner) :=
  (delivers_compiled (.select q) _ (fun sql => runner.stream ⟨sql, q.settings, _⟩)
    fun _ => rfl).guarded (isStreamable q.streamFormat) rfl

end Select

namespace Query

/-- The call that gives a query as a command. -/
def Commands (q : Query) (settings : Record) (format : Option String) (call : RunnerCall) : Prop :=
  ∃ sql, q.toSql = .ok sql ∧ call = .command ⟨sql, settings, format⟩

theorem command_delivers (q : Query) (settings : Record) (format : Option String)
    (runner : Runner) :
    Delivers (q.Commands settings format) runner (q.command settings format runner) :=
  delivers_compiled q _ _ fun _ => rfl

end Query

/-! ## INSERT -/

namespace InsertDraft

/-- The strategy that a call chooses, if it gives data. -/
def Call.strategy? : Call → Option InsertStrategy
  | .setRows _ => some .values
  | .addRow _ => some .values
  | .setObjects _ => some .objects
  | .setStream _ => some .stream
  | .setColumns _ => none
  | .setFormat _ => none

/-- The strategy that the last call with data chooses.  Without such a call it is that of literal
    rows. -/
def lastStrategy (calls : List Call) : InsertStrategy :=
  (calls.filterMap Call.strategy?).getLast?.getD .values

theorem strategy_apply (d : InsertDraft) (call : Call) :
    (d.apply call).strategy = call.strategy?.getD d.strategy := by
  cases call <;> rfl

theorem strategy_foldl (d : InsertDraft) (calls : List Call) :
    (d.applyAll calls).strategy
      = (calls.filterMap Call.strategy?).getLast?.getD d.strategy := by
  induction calls generalizing d with
  | nil => rfl
  | cons call calls ih =>
    show ((d.apply call).applyAll calls).strategy = _
    rw [ih, strategy_apply, List.filterMap_cons]
    cases call.strategy? with
    | none => rfl
    | some strategy =>
      rw [List.getLast?_cons]
      cases (calls.filterMap Call.strategy?).getLast? <;> rfl

theorem strategy_applyAll (table : String) (calls : List Call) :
    ((into table).applyAll calls).strategy = lastStrategy calls :=
  strategy_foldl _ _

/-- The call that sends an INSERT by a strategy. -/
def Sends (d : InsertDraft) (strategy : InsertStrategy) (call : RunnerCall) : Prop :=
  match strategy with
  | .values => d.query.rows ≠ [] ∧ (Query.insert d.query).Commands [] d.query.format call
  | .objects =>
    (Query.insert d.query).report.valid = true ∧ ∃ records, d.objects = some records
      ∧ records ≠ [] ∧ call = .insert ⟨d.query.table, .records records,
        d.query.format.getD "JSONEachRow", d.query.columns⟩
  | .stream =>
    (Query.insert d.query).report.valid = true ∧ ∃ text, d.stream = some text
      ∧ call = .insert ⟨d.query.table, .stream text,
        d.query.format.getD "JSONCompactEachRow", d.query.columns⟩

/-- The data to be sent beside the SQL is there exactly when the strategy in force has some. -/
theorem insertRequest_iff {d : InsertDraft} (hstrategy : d.strategy ≠ .values)
    {request : InsertRequest} :
    d.insertRequest = .ok request ↔ d.Sends d.strategy (.insert request) := by
  unfold insertRequest
  cases hvalid : (Query.insert d.query).report.valid with
  | false =>
    cases hs : d.strategy with
    | values => exact absurd hs hstrategy
    | objects => simp [Sends, hvalid]
    | stream => simp [Sends, hvalid]
  | true =>
    cases hs : d.strategy with
    | values => exact absurd hs hstrategy
    | objects =>
      match ho : d.objects with
      | none => simp [Sends, payload, Except.map, hvalid, hs, ho]
      | some [] => simp [Sends, payload, Except.map, hvalid, hs, ho]
      | some (record :: records) =>
        simp [Sends, payload, Except.map, hvalid, hs, ho, defaultObjectsFormat, eq_comm]
    | stream =>
      cases ht : d.stream with
      | none => simp [Sends, payload, Except.map, hvalid, hs, ht]
      | some text =>
        simp [Sends, payload, Except.map, hvalid, hs, ht, defaultInsertStreamFormat, eq_comm]

/-- Without literal rows in force, data is only ever sent beside the SQL. -/
theorem Sends.insert {d : InsertDraft} {strategy : InsertStrategy} {call : RunnerCall}
    (hstrategy : strategy ≠ .values) (h : d.Sends strategy call) :
    ∃ request, call = .insert request := by
  cases strategy with
  | values => exact absurd rfl hstrategy
  | objects =>
    obtain ⟨-, _, -, -, hcall⟩ := h
    exact ⟨_, hcall⟩
  | stream =>
    obtain ⟨-, _, -, hcall⟩ := h
    exact ⟨_, hcall⟩

/-- The reasons why an INSERT is not sent are all failed validations. -/
theorem Fault.code_toError (f : Fault) : f.toError.code = "VALIDATION_ERROR" := by
  cases f <;> rfl

theorem run_of_not_values {d : InsertDraft} (hstrategy : d.strategy ≠ .values) (runner : Runner) :
    d.run runner = match d.insertRequest with
      | .ok request => runner.insert request
      | .error f => (.error f.toError, runner) := by
  unfold run
  cases hs : d.strategy with
  | values => exact absurd hs hstrategy
  | objects => rfl
  | stream => rfl

/-- An INSERT delivers what its strategy sends. -/
theorem run_delivers (d : InsertDraft) (runner : Runner) :
    Delivers (d.Sends d.strategy) runner (d.run runner) := by
  by_cases hstrategy : d.strategy = .values
  · unfold run
    rw [hstrategy]
    cases hrows : d.query.rows with
    | nil => exact delivers_error (fun _ hdue => hdue.1 hrows) rfl
    | cons row rows =>
      refine (Query.command_delivers (.insert d.query) [] d.query.format runner).of_iff fun _ => ?_
      exact and_iff_right (by rw [hrows]; exact List.cons_ne_nil _ _)
  · rw [run_of_not_values hstrategy]
    cases h : d.insertRequest with
    | ok request =>
      refine delivers_note (.insert request) (fun call => ⟨fun hdue => ?_, ?_⟩) rfl
      · obtain ⟨request', rfl⟩ := hdue.insert hstrategy
        have h' := (insertRequest_iff hstrategy).mpr hdue
        rw [Except.ok.inj (h.symm.trans h')]
      · rintro rfl
        exact (insertRequest_iff hstrategy).mp h
    | error f =>
      refine delivers_error (fun call hdue => ?_) f.code_toError
      obtain ⟨request, rfl⟩ := hdue.insert hstrategy
      exact nomatch h.symm.trans ((insertRequest_iff hstrategy).mpr hdue)

end InsertDraft

/-! ## Every builder -/

/-- **A run makes the call that is due and no other.**  Whatever calls were made on a builder, and
    whatever the runner was asked before:

    * a SELECT is executed, and an UPDATE or a DELETE given as a command, exactly when it compiles,
      with the SQL of the query and its settings;
    * a SELECT is streamed exactly when, besides, its format can be read chunk by chunk;
    * an INSERT is sent by the strategy of the last call that gave data — literal rows as a
      command without settings, if there is a row and the query compiles; records or a stream
      beside the SQL, if there are some and the report on the query is valid.

    A run makes at most one call.  When none is due the runner stays as it is, and the run ends in
    a failed validation. -/
theorem run_delivers_what_is_due (runner : Runner) :
    (∀ columns calls, let q := (Select.ofColumns columns).applyAll calls
      Delivers q.Executes runner (q.run runner) ∧ Delivers q.Streams runner (q.stream runner))
    ∧ (∀ table calls, let q := Update.applyAll { table } calls
      Delivers ((Query.update q).Commands q.settings none) runner (q.run runner))
    ∧ (∀ table calls, let q := Delete.applyAll { table } calls
      Delivers ((Query.delete q).Commands q.settings none) runner (q.run runner))
    ∧ (∀ table calls, let d := (InsertDraft.into table).applyAll calls
      Delivers (d.Sends (InsertDraft.lastStrategy calls)) runner (d.run runner)) := by
  refine ⟨fun columns calls => ⟨Select.run_delivers _ runner, Select.stream_delivers _ runner⟩,
    fun table calls => Query.command_delivers _ _ _ runner,
    fun table calls => Query.command_delivers _ _ _ runner, fun table calls => ?_⟩
  have h := InsertDraft.run_delivers ((InsertDraft.into table).applyAll calls) runner
  rwa [InsertDraft.strategy_applyAll] at h

end SqlLoom
