/-
  Every use of raw SQL is reported, once.

  1. THE OCCURRENCES.  The check goes through the tree from a node to the nodes below it, and leaves
     out only what stands in a branch of a CASE that lacks one of its parts (`Node.reached`).
     `Node.visited` lists the nodes in that order, a node as often as it stands there, and
     `Node.rawUses` are those among them that are raw SQL.
  2. TRACES.  A use of raw SQL leaves a warning and an entry in the log.  These are two lists, filled
     in two places, but whatever puts findings together treats them alike: a part that stands in a
     call, a CASE or a subquery has its problems told in one line, a part that is in trouble is still
     a part, and neither touches the two lists.  A `Trace` is a list with this behaviour, and what
     follows is said once for both.
  3. ONE NODE.  The entries about a node are its own, and those about the nodes that it reaches, in the
     same order (`Trace.read_node`).
  4. ALL NODES, by induction over the tree (`Trace.read_node_eq`), and whole queries.
  5. WHAT IS SAID.  The step to a statement and the writing of it add no warnings to the report or to
     the log.
-/
import Mathlib.Data.List.Basic
import SqlLoom.Compile
import SqlLoom.Proofs.Findings

namespace SqlLoom

/-! ## Occurrences -/

/-- The use of raw SQL that a node is, if it is one. -/
def Node.rawUse : Node → Option RawUse
  | .expr (.raw sql _) => some (.expression sql)
  | .operand (.raw sql _) => some (.expression sql)
  | .predicate (.raw sql) => some (.predicate sql)
  | _ => none

/-- The parts of a branch that has both. -/
def Branch.reached : Branch → List Node
  | ⟨some condition, some result⟩ => [.predicate condition, .expr result]
  | _ => []

/-- The nodes directly below an expression, apart from those in incomplete branches. -/
def Expr.reached : Expr → List Node
  | .cases branches otherwise _ => branches.flatMap Branch.reached ++ otherwise.toList.map .expr
  | e => e.parts

/-- The nodes directly below a node that the check goes on to. -/
def Node.reached : Node → List Node
  | .expr e => e.reached
  | .operand e => e.reached
  | .predicate p => p.parts
  | .select q => q.parts

theorem Branch.mem_parts_of_mem_reached {b : Branch} {n : Node} (h : n ∈ b.reached) :
    n ∈ b.parts := by
  obtain ⟨condition, result⟩ := b
  cases condition <;> cases result <;> simp_all [reached, parts]

theorem Expr.mem_parts_of_mem_reached {e : Expr} {n : Node} (h : n ∈ e.reached) : n ∈ e.parts := by
  cases e
  case cases branches otherwise label =>
    rcases List.mem_append.mp h with h | h
    · obtain ⟨b, hb, hn⟩ := List.mem_flatMap.mp h
      exact List.mem_append_left _
        (List.mem_flatMap.mpr ⟨b, hb, Branch.mem_parts_of_mem_reached hn⟩)
    · exact List.mem_append_right _ h
  all_goals exact h

namespace Node

theorem mem_parts_of_mem_reached {m n : Node} (h : m ∈ n.reached) : m ∈ n.parts := by
  cases n with
  | expr e => exact Expr.mem_parts_of_mem_reached h
  | operand e => exact Expr.mem_parts_of_mem_reached h
  | predicate p => exact h
  | select q => exact h

/-- The nodes that the check comes to, in the order in which it does. -/
def visited (n : Node) : List Node :=
  n :: n.reached.attach.flatMap fun m => m.val.visited
termination_by sizeOf n
decreasing_by exact sizeOf_lt_of_mem_parts (mem_parts_of_mem_reached m.property)

theorem visited_eq (n : Node) : n.visited = n :: n.reached.flatMap visited := by
  rw [visited, List.flatMap_subtype (g := visited) fun _ _ => rfl, List.unattach_attach]

/-- The occurrences of raw SQL among them. -/
def rawUses (n : Node) : List RawUse :=
  n.visited.filterMap rawUse

theorem rawUses_eq (n : Node) : n.rawUses = n.rawUse.toList ++ n.reached.flatMap rawUses := by
  have hhead : ∀ ns : List Node, (n :: ns).filterMap rawUse = n.rawUse.toList ++ ns.filterMap rawUse := by
    intro ns
    cases h : n.rawUse <;> simp [h]
  rw [rawUses, visited_eq, hhead, List.filterMap_flatMap]
  rfl

end Node

/-- The occurrences of raw SQL in a query. -/
def Query.rawUses (q : Query) : List RawUse :=
  q.parts.flatMap Node.rawUses

/-! ## Traces -/

/-- A list in findings to which a use of raw SQL adds one entry, and nothing else adds any. -/
structure Trace (α : Type) where
  /-- The list. -/
  read : Findings → List α
  /-- The entry about a use. -/
  about : RawUse → α
  nothing : read .nothing = []
  add (f : Findings) (p : Problem) : read (f.add p) = read f
  rawUse (u : RawUse) : read (.rawUse u) = [about u]
  append (f g : Findings) : read (f ++ g) = read f ++ read g
  within (part : Part) (f : Findings) : read (f.within part) = read f

attribute [simp] Trace.nothing Trace.rawUse Trace.append Trace.within

namespace Trace

/-- The warnings. -/
def warnings : Trace String where
  read := Findings.warnings
  about := fun _ => RawUse.warning
  nothing := rfl
  add := fun _ _ => rfl
  rawUse := fun _ => rfl
  append := Findings.warnings_append
  within := Findings.warnings_within

/-- What is said in the log. -/
def rawLog : Trace LogEntry where
  read := Findings.rawLog
  about := RawUse.entry
  nothing := rfl
  add := fun _ _ => rfl
  rawUse := fun _ => rfl
  append := Findings.rawLog_append
  within := Findings.rawLog_within

variable {α : Type} (t : Trace α)

@[simp] theorem read_problem (p : Problem) : t.read (.problem p) = [] :=
  (t.add _ p).trans t.nothing

@[simp] theorem read_require (holds : Bool) (p : Problem) : t.read (.require holds p) = [] := by
  cases holds
  · exact t.read_problem p
  · exact t.nothing

/-- Findings without entries may be passed over. -/
theorem read_unless {c : Prop} [Decidable c] {f : Findings} (h : t.read f = []) :
    t.read (if c then .nothing else f) = [] := by
  split
  · exact t.nothing
  · exact h

/-- Findings that have no entries do not have them together either. -/
theorem read_concat {β : Type} {xs : List β} {f : β → Findings} (h : ∀ x, t.read (f x) = []) :
    t.read (.concat (xs.map f)) = [] := by
  induction xs with
  | nil => exact t.nothing
  | cons x xs ih =>
    show t.read (f x ++ .concat (xs.map f)) = []
    rw [t.append, h, ih, List.append_nil]

section Leaves

/-! Names, counts, settings and what was recorded are no uses of raw SQL. -/

@[simp] theorem read_nameFindings (what name : String) : t.read (nameFindings what name) = [] :=
  t.read_require _ _

@[simp] theorem read_labelFindings (what : String) (label : Option String) :
    t.read (labelFindings what label) = [] := by
  cases label <;> simp [labelFindings]

@[simp] theorem read_column (c : Column) : t.read c.findings = [] := by
  simp [Column.findings]

@[simp] theorem read_settingsFindings (settings : Record) :
    t.read (settingsFindings settings) = [] :=
  t.read_concat fun _ => t.read_require _ _

@[simp] theorem read_recordedFindings (messages : List String) :
    t.read (recordedFindings messages) = [] := by
  have hadd : ∀ f : Findings,
      t.read (messages.foldl (fun f message => f.add (.recorded message)) f) = t.read f := by
    induction messages with
    | nil => exact fun f => rfl
    | cons message rest ih => exact fun f => (ih _).trans (t.add f _)
  exact (hadd _).trans t.nothing

@[simp] theorem read_countFindings (p : Problem) (count : Option Int64) :
    t.read (countFindings p count) = [] := by
  cases count <;> simp [countFindings]

@[simp] theorem read_rowFindings (width index : Nat) (rows : List Row) :
    t.read (rowFindings width index rows) = [] := by
  induction rows generalizing index with
  | nil => exact t.nothing
  | cons row rows ih => simp [rowFindings, ih]

end Leaves

/-- The entries about some nodes. -/
def found (ns : List Node) : List α :=
  ns.flatMap fun n => t.read n.findings

@[simp] theorem found_nil : t.found [] = [] := rfl

@[simp] theorem found_cons (n : Node) (ns : List Node) :
    t.found (n :: ns) = t.read n.findings ++ t.found ns := rfl

@[simp] theorem found_append (ms ns : List Node) :
    t.found (ms ++ ns) = t.found ms ++ t.found ns :=
  List.flatMap_append

theorem read_columnFindings (es : List Expr) :
    t.read (columnFindings es) = t.found (es.map .expr) := by
  induction es with
  | nil => exact t.nothing
  | cons e es ih => simp [columnFindings, ih]

theorem read_argumentFindings (index : Nat) (es : List Expr) :
    t.read (argumentFindings index es) = t.found (es.map .expr) := by
  induction es generalizing index with
  | nil => exact t.nothing
  | cons e es ih => simp [argumentFindings, ih]

theorem read_predicateFindings (ps : List Predicate) :
    t.read (predicateFindings ps) = t.found (ps.map .predicate) := by
  induction ps with
  | nil => exact t.nothing
  | cons p ps ih => simp [predicateFindings, ih]

theorem read_branch (index : Nat) (b : Branch) :
    t.read (b.findings index) = t.found b.reached := by
  obtain ⟨condition, result⟩ := b
  cases condition <;> cases result <;> simp [Branch.findings, Branch.reached]

theorem read_branchFindings (index : Nat) (bs : List Branch) :
    t.read (branchFindings index bs) = t.found (bs.flatMap Branch.reached) := by
  induction bs generalizing index with
  | nil => exact t.nothing
  | cons b bs ih => simp [branchFindings, read_branch, ih]

theorem read_otherwiseFindings (otherwise : Option Expr) :
    t.read (otherwiseFindings otherwise) = t.found (otherwise.toList.map .expr) := by
  cases otherwise <;> simp [otherwiseFindings]

theorem read_clauseFindings (clause : Option Predicate) :
    t.read (clauseFindings clause) = t.found (clauseParts clause) := by
  cases clause <;> simp [clauseFindings, clauseParts]

theorem read_subquery (s : Subquery) : t.read s.findings = t.found s.parts := by
  obtain ⟨select, label⟩ := s
  cases select <;> simp [Subquery.findings, Subquery.parts]

theorem read_source (s : Source) : t.read s.findings = t.found s.parts := by
  cases s with
  | table name => simp [Source.findings, Source.parts]
  | subquery s => exact t.read_subquery s

theorem read_fromFindings (source : Option FromClause) :
    t.read (fromFindings source) = t.found (source.toList.flatMap (·.source.parts)) := by
  cases source with
  | none => exact t.nothing
  | some f =>
    obtain ⟨source, label⟩ := f
    simp [fromFindings, read_source]

theorem read_joinFindings (joins : List JoinClause) :
    t.read (joinFindings joins) = t.found (joins.flatMap JoinClause.parts) := by
  induction joins with
  | nil => exact t.nothing
  | cons j joins ih =>
    obtain ⟨kind, source, label, condition⟩ := j
    simp [joinFindings, JoinClause.parts, read_source, ih]

theorem read_withFindings (withs : List WithClause) :
    t.read (withFindings withs) = t.found (withs.flatMap (·.query.parts)) := by
  induction withs with
  | nil => exact t.nothing
  | cons w withs ih =>
    obtain ⟨name, query⟩ := w
    simp [withFindings, read_subquery, ih]

theorem read_unionFindings (unions : List UnionMember) :
    t.read (unionFindings unions) = t.found (unions.flatMap (·.query.parts)) := by
  induction unions with
  | nil => exact t.nothing
  | cons u unions ih =>
    obtain ⟨operator, query⟩ := u
    simp [unionFindings, read_subquery, ih]

/-! ## One node at a time -/

/-- The entry about a node itself, if it is a use. -/
def own (n : Node) : List α :=
  n.rawUse.toList.map t.about

theorem read_expr (e : Expr) :
    t.read e.findings = t.own (.expr e) ++ t.found e.reached := by
  cases e with
  | subquery s => simp [Expr.findings, own, Node.rawUse, Expr.reached, Expr.parts, read_subquery]
  | call function args label =>
    simp [Expr.findings, own, Node.rawUse, Expr.reached, Expr.parts, read_argumentFindings]
  | cases branches otherwise label =>
    simp [Expr.findings, own, Node.rawUse, Expr.reached, read_branchFindings,
      read_otherwiseFindings]
  | _ => simp [Expr.findings, own, Node.rawUse, Expr.reached, Expr.parts]

theorem read_predicate (p : Predicate) :
    t.read p.findings = t.own (.predicate p) ++ t.found p.parts := by
  cases p with
  | compare left operator right =>
    cases left with
    | column c =>
      simp [Predicate.findings, own, Node.rawUse, Predicate.parts, leftParts,
        t.read_unless (t.read_column c)]
    | _ => simp [Predicate.findings, own, Node.rawUse, Predicate.parts, leftParts]
  | and children grouped =>
    simp [Predicate.findings, own, Node.rawUse, Predicate.parts, read_predicateFindings]
  | or children =>
    simp [Predicate.findings, own, Node.rawUse, Predicate.parts, read_predicateFindings]
  | not child =>
    cases child <;> simp [Predicate.findings, negandFindings, own, Node.rawUse, Predicate.parts]
  | raw sql => simp [Predicate.findings, own, Node.rawUse, Predicate.parts]

theorem read_select (q : Select) : t.read q.findings = t.found q.parts := by
  obtain ⟨columns, source, joins, withs, prewhere, filter, groupBy, having, orderBy, limit, offset,
    final, settings, format, unions, recorded⟩ := q
  have hgroup : t.read (.concat (groupBy.map Column.findings)) = [] :=
    t.read_concat t.read_column
  have horder : t.read (.concat (orderBy.map (·.column.findings))) = [] :=
    t.read_concat fun item => t.read_column item.column
  simp [Select.findings, Select.parts, read_withFindings, read_columnFindings, read_fromFindings,
    read_joinFindings, read_clauseFindings, read_unionFindings, hgroup, horder]

/-- **What is found about a node** is the node itself and what is found about the nodes it
    reaches. -/
theorem read_node (n : Node) : t.read n.findings = t.own n ++ t.found n.reached := by
  cases n with
  | expr e => exact t.read_expr e
  | operand e =>
    have hplace : t.own (.operand e) = t.own (.expr e) := by cases e <;> rfl
    rw [hplace]
    exact t.read_expr e
  | predicate p => exact t.read_predicate p
  | select q => exact t.read_select q

/-- **All uses are found, at any depth.** -/
theorem read_node_eq (n : Node) : t.read n.findings = n.rawUses.map t.about := by
  induction n using Node.induction with
  | step n ih =>
    have hbelow : t.found n.reached = (n.reached.flatMap Node.rawUses).map t.about := by
      rw [List.map_flatMap]
      exact List.flatMap_congr fun m hm => ih m (Node.mem_parts_of_mem_reached hm)
    rw [read_node, hbelow, own, ← List.map_append, ← Node.rawUses_eq]

/-! ## Whole queries -/

theorem read_query (q : Query) : t.read q.findings = t.found q.parts := by
  cases q with
  | select q => simp [Query.findings, Query.parts]
  | insert q =>
    have hcolumns : t.read (.concat (q.columns.map (nameFindings "column"))) = [] :=
      t.read_concat (t.read_nameFindings "column")
    simp [Query.findings, Insert.findings, Query.parts, hcolumns,
      t.read_unless (t.read_rowFindings q.columns.length 0 q.rows)]
  | update q =>
    have hkeys :
        t.read (.concat (q.assignments.map fun entry => nameFindings "column" entry.1)) = [] :=
      t.read_concat fun entry => t.read_nameFindings "column" entry.1
    simp [Query.findings, Update.findings, Query.parts, read_clauseFindings, hkeys]
  | delete q => simp [Query.findings, Delete.findings, Query.parts, read_clauseFindings]

/-- **The check finds every use of raw SQL in a query.** -/
theorem read_query_eq (q : Query) : t.read q.findings = q.rawUses.map t.about := by
  rw [read_query, Query.rawUses, List.map_flatMap]
  exact List.flatMap_congr fun n _ => t.read_node_eq n

end Trace

/-! ## Warnings in reports and logs -/

/-- The warnings in a log. -/
def Log.warnings (log : Log) : Log :=
  log.filter fun entry => entry.level = .warn

namespace Log

@[simp] theorem warnings_append (a b : Log) :
    Log.warnings (a ++ b) = Log.warnings a ++ Log.warnings b :=
  List.filter_append _ _

theorem warnings_map_entry (us : List RawUse) :
    Log.warnings (us.map RawUse.entry) = us.map RawUse.entry := by
  refine List.filter_eq_self.mpr fun entry h => ?_
  obtain ⟨u, -, rfl⟩ := List.mem_map.mp h
  rfl

end Log

namespace Query

/-- The check warns of each use. -/
theorem warnings_findings (q : Query) :
    q.findings.report.warnings = q.rawUses.map fun _ => RawUse.warning :=
  Trace.warnings.read_query_eq q

/-- The check logs each use; the problems are told at another level. -/
theorem warnings_log (q : Query) :
    Log.warnings q.findings.log = q.rawUses.map RawUse.entry := by
  have hproblems : Log.warnings (if q.findings.valid then [] else
      [⟨.debug, "QueryValidator",
        "query validation failed: " ++ q.findings.report.summary⟩]) = [] := by
    split <;> rfl
  have hlog : q.findings.rawLog = q.rawUses.map RawUse.entry := Trace.rawLog.read_query_eq q
  rw [Findings.log, Log.warnings_append, hproblems, List.append_nil, hlog, Log.warnings_map_entry]

/-- The step to a statement gives no warnings. -/
theorem warnings_report (q : Query) :
    q.report.warnings = q.rawUses.map fun _ => RawUse.warning := by
  have hstep : (Statement.stepReport (Statement.ofQuery q)).warnings = [] := by
    cases Statement.ofQuery q <;> rfl
  show (q.findings.report.merge (Statement.stepReport (Statement.ofQuery q))).warnings = _
  rw [Report.warnings_merge, hstep, List.append_nil, warnings_findings]

theorem warnings_reportLog (q : Query) :
    Log.warnings q.reportLog = q.rawUses.map RawUse.entry := by
  have hstep : Log.warnings (Statement.stepLog (Statement.ofQuery q)) = [] := by
    cases Statement.ofQuery q <;> rfl
  show Log.warnings (q.findings.log ++ Statement.stepLog (Statement.ofQuery q)) = _
  rw [Log.warnings_append, hstep, List.append_nil, warnings_log]

/-- Nor does the writing. -/
theorem warnings_compileLog (q : Query) :
    Log.warnings q.compileLog = q.rawUses.map RawUse.entry := by
  have hwrite : ∀ s : Statement, Log.warnings s.writeLog = [] := by
    intro s
    unfold Statement.writeLog
    split <;> rfl
  show Log.warnings (q.reportLog ++ _) = _
  rw [Log.warnings_append, warnings_reportLog]
  refine (congrArg _ ?_).trans (List.append_nil _)
  split
  · rfl
  · rw [Log.warnings_append, hwrite, List.nil_append]
    split <;> rfl

end Query

end SqlLoom
