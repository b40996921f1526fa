/-
  What is passed through unchanged: raw SQL, which the report knows, and names with brackets.

  SQL keeps track of fragments that stand in it as they were given.  Here they are followed back to
  the query.

  1. A RULE OF FRAGMENTS (`Sql.Passes`) says what each fragment of some SQL has to be.  SQL that is
     put together from parts keeps it when the parts do, and literals and punctuation always do.
  2. THE SOURCES.  A node gives its own raw SQL, if it is raw, and the names that it writes outside of
     conditions (`Node.Gives`).  A name in a condition is always quoted.
  3. THE WAY DOWN.  If all nodes below a node give only what keeps the rule, so does its SQL
     (`Node.passes`), by induction over the tree, and so does the SQL of the query.
  4. THE REPORT.  Each use of raw SQL has its warning.  When a query compiles, its branches are
     complete, so nothing was left out; and when there is no warning either, there is no raw SQL in
     the query, and each fragment in its SQL is one of its names.
-/
import SqlLoom.Proofs.RawUses
import SqlLoom.Proofs.Written.WellFormed

namespace SqlLoom

open Outcome
open Sql (code)

/-! ## Rules of fragments -/

/-- Each fragment that is passed through unchanged keeps a rule. -/
def Sql.Passes (P : String → Prop) (sql : Sql) : Prop :=
  ∀ s, .verbatim s ∈ sql → P s

section Passes

variable {P : String → Prop}

namespace Sql

@[simp] theorem passes_nil : Passes P [] :=
  fun _ h => absurd h List.not_mem_nil

@[simp] theorem passes_append {a b : Sql} : Passes P (a ++ b) ↔ a.Passes P ∧ b.Passes P := by
  simp only [Passes, List.mem_append, or_imp, forall_and]

@[simp] theorem passes_code {s : String} : Passes P (code s) :=
  fun _ h => nomatch List.mem_singleton.mp h

@[simp] theorem passes_name_cons {s : String} {sql : Sql} :
    Passes P (.name s :: sql) ↔ sql.Passes P := by
  simp [Passes]

@[simp] theorem passes_verbatim {s : String} : Passes P [.verbatim s] ↔ P s := by
  simp [Passes]

@[simp] theorem passes_inParens {sql : Sql} : Passes P sql.inParens ↔ sql.Passes P := by
  simp [inParens]

theorem passes_joined {separator : String} {parts : List Sql} (h : ∀ part ∈ parts, part.Passes P) :
    Passes P (joined separator parts) := by
  intro s hs
  rcases mem_joined hs with hs | ⟨part, hpart, hs⟩
  · exact nomatch hs
  · exact h part hpart s hs

theorem passes_flatten {parts : List Sql} (h : ∀ part ∈ parts, part.Passes P) :
    Passes P parts.flatten := by
  intro s hs
  obtain ⟨part, hpart, hs⟩ := List.mem_flatten.mp hs
  exact h part hpart s hs

/-- There are no fragments in SQL that can be read back. -/
theorem passes_of_wellFormed {sql : Sql} (h : WellFormed sql) : sql.Passes P :=
  fun _ hs => (h.lexable.1 _ hs).elim

end Sql

namespace Statement

theorem passes_clause {keyword separator : String} {parts : List Sql}
    (h : ∀ part ∈ parts, part.Passes P) : Sql.Passes P (clause keyword separator parts) := by
  unfold clause
  split
  · exact Sql.passes_nil
  · exact Sql.passes_append.mpr ⟨Sql.passes_code, Sql.passes_joined h⟩

theorem passes_andSql {grouped top : Bool} {parts : List Sql} (h : ∀ part ∈ parts, part.Passes P) :
    Sql.Passes P (andSql grouped top parts) := by
  unfold andSql
  simp only
  split
  · exact Sql.passes_inParens.mpr (Sql.passes_joined h)
  · exact Sql.passes_joined h

theorem passes_callSql {form : CallForm} {function : String} {args : List Sql}
    (h : ∀ arg ∈ args, arg.Passes P) : Sql.Passes P (callSql form function args) := by
  unfold callSql
  split
  · simp only [List.forall_mem_cons] at h
    simp [h]
  · simp only [List.forall_mem_cons] at h
    simp [h]
  · simp [Sql.passes_joined h]

theorem passes_testSql {operator : String} {left right sql : Sql} (hleft : left.Passes P)
    (hright : right.Passes P) (h : testSql operator left right = .ok sql) : sql.Passes P := by
  unfold testSql at h
  split at h
  case h_5 => exact nomatch h
  all_goals
    obtain rfl := ok_eq_ok.mp h
    simp [elementTestSql, hleft, hright]

theorem passes_settingsSql {settings : Record} : Sql.Passes P (settingsSql settings) := by
  refine passes_clause fun part hpart => ?_
  obtain ⟨⟨key, v⟩, -, rfl⟩ := List.mem_map.mp hpart
  simp [assignmentSql, Sql.passes_of_wellFormed v.wellFormed_literal]

end Statement

/-! ## What a node gives -/

/-- The SQL that is used as it was given. -/
def RawUse.source : RawUse → String
  | .predicate sql => sql
  | .expression sql => sql

/-- The name of a table. -/
def Source.names : Source → List String
  | .table name => [name]
  | .subquery _ => []

/-- The names of a SELECT that stand outside of conditions, those in its parts apart. -/
def Select.names (q : Select) : List String :=
  q.withs.map (·.name) ++ q.columns.flatMap (·.label.toList)
    ++ q.source.toList.flatMap (fun f => f.source.names ++ f.label.toList)
    ++ q.joins.flatMap (fun j => j.source.names ++ j.label.toList)
    ++ q.groupBy.map (·.joined) ++ q.orderBy.map (·.column.joined)

/-- The names that a node writes itself, outside of conditions. -/
def Node.names : Node → List String
  | .expr (.column c) => [c.joined]
  | .select q => q.names
  | _ => []

/-- The names of the statement around the nodes. -/
def Query.rootNames : Query → List String
  | .select _ => []
  | .insert q => q.table :: q.columns
  | .update q => q.table :: q.assignments.map (·.1)
  | .delete q => [q.table]

/-- A name that stands somewhere in a query, outside of its conditions. -/
def Query.Names (q : Query) (s : String) : Prop :=
  s ∈ q.rootNames ∨ ∃ n, q.Has n ∧ s ∈ n.names

/-- What a node could pass through unchanged keeps a rule. -/
structure Node.Gives (P : String → Prop) (n : Node) : Prop where
  raw : ∀ u ∈ n.rawUse, P u.source
  names : ∀ s ∈ n.names, P s

/-- What is passed through unchanged in the SQL of a node keeps a rule. -/
def Node.Passes (P : String → Prop) (n : Node) : Prop :=
  ∀ top sql, n.Writes top sql → sql.Passes P

/-! ## The way down -/

theorem NameWrites.passes {context : Identifier.Context} {s : String} {sql : Sql}
    (h : NameWrites context s sql) (hs : context = .selection → P s) : sql.Passes P := by
  cases h.shape with
  | plain => exact Sql.passes_code
  | quoted => exact Sql.passes_name_cons.mpr Sql.passes_nil
  | expression hcontext => exact Sql.passes_verbatim.mpr (hs hcontext)
  | qualified table column =>
    show Sql.Passes P (.name table :: (code "." ++ [.name column]))
    simp

theorem LabelWrites.passes {label : Option String} {sql : Sql} (h : LabelWrites label sql)
    (hs : ∀ s ∈ label, P s) : sql.Passes P := by
  cases label with
  | none =>
    obtain rfl : sql = [] := h
    exact Sql.passes_nil
  | some s =>
    obtain ⟨name, hname, rfl⟩ := h
    exact Sql.passes_append.mpr ⟨Sql.passes_code, hname.passes fun _ => hs s rfl⟩

theorem Subquery.passes {s : Subquery} (h : ∀ n ∈ s.parts, n.Passes P) {sql : Sql}
    (hs : s.Writes sql) : sql.Passes P := by
  obtain ⟨q, body, hq, hbody, rfl⟩ := hs
  have hpart : Node.select q ∈ s.parts := by simp [parts, hq]
  exact Sql.passes_inParens.mpr (h _ hpart true body hbody)

theorem Branch.passes {b : Branch} (h : ∀ n ∈ b.parts, n.Passes P) {sql : Sql}
    (hb : b.Writes sql) : sql.Passes P := by
  obtain ⟨p, e, condition, result, rfl, hp, he, rfl⟩ := hb
  have hcondition : condition.Passes P := h (.predicate p) (by simp [parts]) true condition hp
  have hresult : result.Passes P := h (.expr e) (by simp [parts]) true result he
  simp [hcondition, hresult]

theorem OtherwiseWrites.passes {otherwise : Option Expr}
    (h : ∀ n ∈ otherwise.toList.map Node.expr, n.Passes P) {sql : Sql}
    (ho : OtherwiseWrites otherwise sql) : sql.Passes P := by
  cases otherwise with
  | none =>
    obtain rfl : sql = [] := ho
    exact Sql.passes_nil
  | some e =>
    obtain ⟨body, hbody, rfl⟩ := ho
    have hresult : body.Passes P := h (.expr e) (by simp) true body hbody
    simp [hresult]

theorem Expr.passes_step {e : Expr} (hgives : (Node.expr e).Gives P)
    (h : ∀ n ∈ e.parts, n.Passes P) : (Node.expr e).Passes P := by
  intro top sql hsql
  cases e with
  | column c =>
    exact (writes_column.mp hsql).passes fun _ => hgives.names _ (List.mem_singleton.mpr rfl)
  | value v label =>
    rw [writes_value.mp hsql]
    exact Sql.passes_of_wellFormed v.wellFormed_literal
  | array items label =>
    rw [writes_array.mp hsql]
    exact Sql.passes_of_wellFormed (Value.wellFormed_literal _)
  | tuple items label =>
    rw [writes_tuple.mp hsql]
    exact Sql.passes_of_wellFormed (Value.wellFormed_tupleLiteral items)
  | subquery s => exact Subquery.passes h (writes_subquery.mp hsql)
  | raw text label =>
    rw [writes_raw.mp hsql]
    exact Sql.passes_verbatim.mpr (hgives.raw _ rfl)
  | call function args label =>
    obtain ⟨parts, hparts, rfl⟩ := writes_call.mp hsql
    refine Statement.passes_callSql (forall_of_forall₂ hparts fun e he sql => ?_)
    exact h (.expr e) (List.mem_map.mpr ⟨e, he, rfl⟩) true sql
  | cases branches otherwise label =>
    obtain ⟨parts, rest, hparts, hrest, rfl⟩ := writes_cases.mp hsql
    have hbranches : Sql.Passes P parts.flatten := by
      refine Sql.passes_flatten (forall_of_forall₂ hparts fun b hb sql hwrites => ?_)
      refine Branch.passes (fun n hn => h n ?_) hwrites
      exact List.mem_append_left _ (List.mem_flatMap.mpr ⟨b, hb, hn⟩)
    have hotherwise : rest.Passes P :=
      hrest.passes fun n hn => h n (List.mem_append_right _ hn)
    simp [hbranches, hotherwise]

theorem Expr.passesOperand_step {e : Expr} (h : ∀ n ∈ e.parts, n.Passes P) :
    (Node.operand e).Passes P := by
  intro top sql hsql
  cases e with
  | column c => exact (writesOperand_column.mp hsql).passes nofun
  | value v label =>
    rw [writesOperand_value.mp hsql]
    exact Sql.passes_of_wellFormed v.wellFormed_literal
  | array items label =>
    rw [writesOperand_array.mp hsql]
    exact Sql.passes_of_wellFormed (Statement.wellFormed_listSql items)
  | tuple items label =>
    rw [writesOperand_tuple.mp hsql]
    exact Sql.passes_of_wellFormed (Statement.wellFormed_listSql items)
  | subquery s => exact Subquery.passes h (writesOperand_subquery.mp hsql)
  | raw text label => exact absurd hsql not_writesOperand_raw
  | call function args label => exact absurd hsql not_writesOperand_call
  | cases branches otherwise label => exact absurd hsql not_writesOperand_cases

theorem TestWrites.passes {operator : String} {left : Sql} {right : Expr} {sql : Sql}
    (h : TestWrites operator left right sql) (hleft : left.Passes P)
    (hright : (Node.operand right).Passes P) : sql.Passes P := by
  unfold TestWrites at h
  split at h
  · obtain ⟨-, rfl⟩ := h
    simp [hleft]
  · obtain ⟨low, high, -, rfl⟩ := h
    simp [hleft, Sql.passes_of_wellFormed low.wellFormed_literal,
      Sql.passes_of_wellFormed high.wellFormed_literal]
  · obtain ⟨operand, hoperand, h⟩ := h
    exact Statement.passes_testSql hleft (hright true operand hoperand) h

theorem Predicate.passes_step {p : Predicate} (hgives : (Node.predicate p).Gives P)
    (h : ∀ n ∈ p.parts, n.Passes P) : (Node.predicate p).Passes P := by
  intro top sql hsql
  have hchildren : ∀ {ps : List Predicate} {parts : List Sql},
      (∀ n ∈ ps.map Node.predicate, n.Passes P) → List.Forall₂ (Predicate.Writes false) ps parts →
      ∀ part ∈ parts, part.Passes P := by
    intro ps parts hps hparts
    exact forall_of_forall₂ hparts fun q hq sql =>
      hps (.predicate q) (List.mem_map.mpr ⟨q, hq, rfl⟩) false sql
  cases p with
  | compare left operator right =>
    obtain ⟨c, leftPart, rfl, hleft, htest⟩ := writes_compare.mp hsql
    exact htest.passes (Sql.passes_of_wellFormed (Statement.wellFormed_leftSql hleft))
      (h _ (List.mem_singleton.mpr rfl))
  | and children grouped =>
    obtain ⟨parts, hparts, rfl⟩ := writes_and.mp hsql
    exact Statement.passes_andSql (hchildren h hparts)
  | or children =>
    obtain ⟨parts, hparts, rfl⟩ := writes_or.mp hsql
    exact Sql.passes_inParens.mpr (Sql.passes_joined (hchildren h hparts))
  | not child =>
    obtain ⟨q, body, rfl, hbody, rfl⟩ := writes_not.mp hsql
    have hnegand : body.Passes P := h _ (List.mem_singleton.mpr rfl) true body hbody
    simp [hnegand]
  | raw text =>
    rw [writes_raw.mp hsql]
    exact Sql.passes_verbatim.mpr (hgives.raw _ rfl)

theorem Source.passes {s : Source} (hnames : ∀ name ∈ s.names, P name)
    (h : ∀ n ∈ s.parts, n.Passes P) {sql : Sql} (hs : s.Writes sql) : sql.Passes P := by
  cases s with
  | table name => exact NameWrites.passes hs fun _ => hnames name (List.mem_singleton.mpr rfl)
  | subquery s => exact Subquery.passes h hs

theorem FromWrites.passes {source : Option FromClause}
    (hnames : ∀ name ∈ source.toList.flatMap (fun f => f.source.names ++ f.label.toList), P name)
    (h : ∀ n ∈ source.toList.flatMap (·.source.parts), n.Passes P) {sql : Sql}
    (hs : FromWrites source sql) : sql.Passes P := by
  cases source with
  | none =>
    obtain rfl : sql = [] := hs
    exact Sql.passes_nil
  | some f =>
    obtain ⟨source, label, hsource, hlabel, rfl⟩ := hs
    simp only [Option.toList_some, List.flatMap_singleton, List.forall_mem_append,
      Option.mem_toList] at hnames h
    have hbody : source.Passes P := Source.passes hnames.1 h hsource
    simp [hbody, hlabel.passes hnames.2]

theorem JoinClause.passes {j : JoinClause}
    (hnames : ∀ name ∈ j.source.names ++ j.label.toList, P name) (h : ∀ n ∈ j.parts, n.Passes P)
    {sql : Sql} (hj : j.Writes sql) : sql.Passes P := by
  obtain ⟨source, label, condition, hsource, hlabel, hcondition, rfl⟩ := hj
  simp only [List.forall_mem_append, Option.mem_toList] at hnames
  have hbody : source.Passes P :=
    Source.passes hnames.1 (fun n hn => h n (List.mem_append_left _ hn)) hsource
  have hon : condition.Passes P :=
    h (.predicate j.condition) (List.mem_append_right _ (List.mem_singleton.mpr rfl)) true _
      hcondition
  simp [hbody, hlabel.passes hnames.2, hon]

theorem ClauseWrites.passes {keyword : String} {clause : Option Predicate}
    (h : ∀ n ∈ clauseParts clause, n.Passes P) {sql : Sql}
    (hs : ClauseWrites keyword clause sql) : sql.Passes P := by
  cases clause with
  | none =>
    obtain rfl : sql = [] := hs
    exact Sql.passes_nil
  | some p =>
    obtain ⟨body, hbody, rfl⟩ := hs
    have hcondition : body.Passes P := h (.predicate p) (List.mem_singleton.mpr rfl) true body hbody
    simp [hcondition]

theorem Select.passes_step {q : Select} (hgives : (Node.select q).Gives P)
    (h : ∀ n ∈ q.parts, n.Passes P) : (Node.select q).Passes P := by
  intro top sql hsql
  obtain ⟨c, hc, rfl⟩ := Select.writes_iff.mp hsql
  have hnames : ∀ s ∈ q.names, P s := hgives.names
  simp only [names, List.forall_mem_append, List.forall_mem_map, List.mem_flatMap,
    forall_exists_index, and_imp] at hnames
  simp only [parts, List.forall_mem_append] at h
  obtain ⟨⟨⟨⟨⟨nwiths, nlabels⟩, nsource⟩, njoins⟩, ngroupBy⟩, norderBy⟩ := hnames
  obtain ⟨⟨⟨⟨⟨⟨⟨hwiths, hcolumns⟩, hsource⟩, hjoins⟩, hprewhere⟩, hfilter⟩, hhaving⟩, hunions⟩ := h
  have withs : Sql.Passes P (withPart c.withs) := by
    have hparts : ∀ part ∈ c.withs, part.Passes P := by
      refine forall_of_forall₂ hc.withs fun w hw sql hwrites => ?_
      obtain ⟨name, query, hname, hquery, rfl⟩ := hwrites
      have hbody : query.Passes P := Subquery.passes
        (fun n hn => hwiths n (List.mem_flatMap.mpr ⟨w, hw, hn⟩)) hquery
      simp [hname.passes fun _ => nwiths w hw, hbody]
    unfold withPart
    split
    · exact Sql.passes_nil
    · simp [Sql.passes_joined hparts]
  have columns : Sql.Passes P (columnPart c.columns) := by
    have hparts : ∀ part ∈ c.columns, part.Passes P := by
      refine forall_of_forall₂ hc.columns fun e he sql hwrites => ?_
      obtain ⟨body, label, hbody, hlabel, rfl⟩ := hwrites
      have hentry : body.Passes P :=
        hcolumns (.expr e) (List.mem_map.mpr ⟨e, he, rfl⟩) true body hbody
      have halias : label.Passes P :=
        hlabel.passes fun s hs => nlabels s e he (Option.mem_toList.mpr hs)
      exact Sql.passes_append.mpr ⟨hentry, halias⟩
    unfold columnPart
    split
    · exact Sql.passes_code
    · exact Sql.passes_joined hparts
  have source : c.source.Passes P :=
    hc.source.passes (by simpa only [List.mem_flatMap, forall_exists_index, and_imp] using nsource)
      hsource
  have joins : Sql.Passes P c.joins.flatten :=
    Sql.passes_flatten <| forall_of_forall₂ hc.joins fun j hj _ =>
      JoinClause.passes (fun s hs => njoins s j hj hs)
        fun n hn => hjoins n (List.mem_flatMap.mpr ⟨j, hj, hn⟩)
  have groupBy : Sql.Passes P (Statement.clause " GROUP BY " ", " c.groupBy) :=
    Statement.passes_clause <| forall_of_forall₂ hc.groupBy fun col hcol _ hwrites =>
      hwrites.passes fun _ => ngroupBy col hcol
  have orderBy : Sql.Passes P (Statement.clause " ORDER BY " ", " c.orderBy) := by
    refine Statement.passes_clause (forall_of_forall₂ hc.orderBy fun item hitem _ hwrites => ?_)
    obtain ⟨name, hname, rfl⟩ := hwrites
    simp [hname.passes fun _ => norderBy item hitem]
  have tail : q.tailPart.Passes P := by
    have hlimit : Sql.Passes P (Statement.limitSql q.limit q.offset) :=
      Sql.passes_of_wellFormed (Statement.trailing_limitSql _ _).wellFormed
    have hfinal : Sql.Passes P (if q.final then code " FINAL" else []) := by
      split <;> simp
    exact Sql.passes_append.mpr ⟨Sql.passes_append.mpr ⟨hlimit, hfinal⟩, Statement.passes_settingsSql⟩
  have unions : Sql.Passes P c.unions.flatten := by
    refine Sql.passes_flatten (forall_of_forall₂ hc.unions fun u hu sql hwrites => ?_)
    obtain ⟨member, body, hmember, hbody, rfl⟩ := hwrites
    have hpart : Node.select member ∈ u.query.parts := by simp [Subquery.parts, hmember]
    have hquery : body.Passes P :=
      hunions _ (List.mem_flatMap.mpr ⟨u, hu, hpart⟩) true body hbody
    simp [hquery]
  simp [assemble, withs, columns, source, joins, hc.prewhere.passes hprewhere,
    hc.filter.passes hfilter, groupBy, hc.having.passes hhaving, orderBy, tail, unions]

/-- **What is passed through in the SQL of a node was given by a node below it.** -/
theorem Node.passes {n : Node} (h : n.Every (Node.Gives P)) : n.Passes P := by
  induction n using Node.induction with
  | step n ih =>
    have hparts : ∀ m ∈ n.parts, m.Passes P := fun m hm => ih m hm (h.below hm)
    cases n with
    | expr e => exact Expr.passes_step h.here hparts
    | operand e => exact Expr.passesOperand_step hparts
    | predicate p => exact Predicate.passes_step h.here hparts
    | select q => exact Select.passes_step h.here hparts

/-- The same for whole queries. -/
theorem Query.passes {q : Query} {sql : Sql} (hroot : ∀ s ∈ q.rootNames, P s)
    (hnodes : q.Every (Node.Gives P)) (h : q.Writes sql) : sql.Passes P := by
  have hparts : ∀ n ∈ q.parts, n.Passes P := fun n hn => Node.passes (hnodes.part hn)
  cases q with
  | select q => exact hparts _ (List.mem_singleton.mpr rfl) true sql h
  | insert q =>
    obtain ⟨table, columns, htable, hcolumns, rfl⟩ := h
    obtain ⟨htname, hcnames⟩ := List.forall_mem_cons.mp hroot
    have hlist : Sql.Passes P (insertColumnPart columns) := by
      have hnames : ∀ part ∈ columns, part.Passes P :=
        forall_of_forall₂ hcolumns fun c hc _ hwrites => hwrites.passes fun _ => hcnames c hc
      unfold insertColumnPart
      split
      · exact Sql.passes_nil
      · simp [Sql.passes_joined hnames]
    have hrows : Sql.Passes P (Statement.clause " " ", " (q.rows.map Value.tupleLiteral)) := by
      refine Statement.passes_clause (List.forall_mem_map.mpr fun row _ => ?_)
      exact Sql.passes_of_wellFormed (Value.wellFormed_tupleLiteral row)
    simp [htable.passes fun _ => htname, hlist, hrows]
  | update q =>
    obtain ⟨table, assignments, filter, htable, hassignments, hfilter, rfl⟩ := h
    obtain ⟨htname, hknames⟩ := List.forall_mem_cons.mp hroot
    have hlist : Sql.Passes P (Statement.clause " " ", " assignments) := by
      refine Statement.passes_clause (forall_of_forall₂ hassignments fun entry hentry _ hwrites => ?_)
      obtain ⟨name, hname, rfl⟩ := hwrites
      have hkey : name.Passes P :=
        hname.passes fun _ => hknames _ (List.mem_map.mpr ⟨entry, hentry, rfl⟩)
      simp [Statement.assignmentSql, hkey, Sql.passes_of_wellFormed entry.2.wellFormed_literal]
    simp [htable.passes fun _ => htname, hlist, hfilter.passes hparts, Statement.passes_settingsSql]
  | delete q =>
    obtain ⟨table, filter, htable, hfilter, rfl⟩ := h
    have htname := hroot q.table (List.mem_singleton.mpr rfl)
    simp [htable.passes fun _ => htname, hfilter.passes hparts, Statement.passes_settingsSql]

end Passes

/-! ## What the report knows -/

/-- The check goes on to both parts of a complete branch. -/
theorem Branch.reached_eq_parts {b : Branch} (h : b.Complete) : b.reached = b.parts := by
  obtain ⟨condition, result⟩ := b
  obtain ⟨hcondition, hresult⟩ := h
  cases condition with
  | none => exact nomatch hcondition
  | some p =>
    cases result with
    | none => exact nomatch hresult
    | some e => rfl

theorem Expr.reached_eq_parts {e : Expr} (h : e.Sound) : e.reached = e.parts := by
  cases e with
  | cases branches otherwise label =>
    obtain ⟨-, hbranches, -⟩ := h
    have heach : branches.flatMap Branch.reached = branches.flatMap Branch.parts :=
      List.flatMap_congr fun b hb => Branch.reached_eq_parts (hbranches b hb)
    rw [reached, heach, parts]
  | _ => rfl

namespace Node

/-- A raw node is all that is not free of raw SQL. -/
theorem rawFree_iff {n : Node} : n.RawFree ↔ n.rawUse = none := by
  cases n with
  | expr e => cases e <;> simp [RawFree, rawUse]
  | operand e => cases e <;> simp [RawFree, rawUse]
  | predicate p => cases p <;> simp [RawFree, rawUse]
  | select q => simp [RawFree, rawUse]

/-- At a sound node the check leaves nothing out. -/
theorem reached_eq_parts {n : Node} (h : n.Sound) : n.reached = n.parts := by
  cases n with
  | expr e => exact Expr.reached_eq_parts h
  | operand e => exact Expr.reached_eq_parts h
  | predicate p => rfl
  | select q => rfl

/-- The check comes to every node below a sound one. -/
theorem mem_visited {m n : Node} (h : n.Every Sound) (hm : m.Within n) : m ∈ n.visited := by
  induction n using induction with
  | step n ih =>
    rw [visited_eq]
    rcases Relation.ReflTransGen.cases_head hm with rfl | ⟨part, hpart, hbelow⟩
    · exact List.mem_cons_self
    · have hreached : part ∈ n.reached := by
        rw [reached_eq_parts h.here]
        exact hpart
      exact List.mem_cons_of_mem _
        (List.mem_flatMap.mpr ⟨part, hreached, ih part hpart (h.below hpart) hbelow⟩)

end Node

namespace Query

/-- Every raw node of a sound query is among its uses of raw SQL. -/
theorem mem_rawUses {q : Query} (h : q.Every Node.Sound) {n : Node} (hn : q.Has n) {u : RawUse}
    (hu : u ∈ n.rawUse) : u ∈ q.rawUses := by
  obtain ⟨root, hroot, hn⟩ := hn
  have hvisited : n ∈ root.visited := Node.mem_visited (h.part hroot) hn
  exact List.mem_flatMap.mpr ⟨root, hroot, List.mem_filterMap.mpr ⟨n, hvisited, hu⟩⟩

/-- **What is passed through unchanged is a name, or the report knows it.** -/
theorem names_or_reported {q : Query} {sql : Sql} (h : q.compile = .ok sql) {s : String}
    (hs : .verbatim s ∈ sql) : q.Names s ∨ ∃ u ∈ q.rawUses, u.source = s := by
  obtain ⟨hclean, hwrites⟩ := compile_iff.mp h
  obtain ⟨-, hsound⟩ := clean_iff_every.mp hclean
  have hgives : q.Every (Node.Gives fun s => q.Names s ∨ ∃ u ∈ q.rawUses, u.source = s) := by
    intro n hn
    exact
      { raw := fun u hu => Or.inr ⟨u, mem_rawUses hsound hn hu, rfl⟩
        names := fun s hs => Or.inl (Or.inr ⟨n, hn, hs⟩) }
  exact Query.passes (fun s hs => Or.inl (Or.inl hs)) hgives hwrites s hs

/-- A query that compiles without a warning has no raw SQL. -/
theorem rawUses_eq_nil {q : Query} (h : q.report.warnings = []) : q.rawUses = [] := by
  rw [warnings_report] at h
  exact List.map_eq_nil_iff.mp h

/-- **Raw SQL is always reported.**  The check gives one warning and one log entry for each occurrence
    of raw SQL, in the order of the tree, whether the query is valid or not; and checking or compiling
    a query says nothing else at that level.  **And what is not reported is not there**: a query that
    compiles without a warning has no raw SQL in it, and all that is passed through unchanged in its
    SQL are names of its own. -/
theorem raw_sql_is_always_reported (q : Query) :
    (q.findings.report.warnings = q.rawUses.map (fun _ => RawUse.warning)
      ∧ Log.warnings q.findings.log = q.rawUses.map RawUse.entry)
    ∧ (q.report.warnings = q.rawUses.map (fun _ => RawUse.warning)
      ∧ Log.warnings q.reportLog = q.rawUses.map RawUse.entry
      ∧ Log.warnings q.compileLog = q.rawUses.map RawUse.entry)
    ∧ ∀ sql, q.compile = .ok sql → q.report.warnings = [] →
        q.RawFree ∧ ∀ s, .verbatim s ∈ sql → q.Names s := by
  refine ⟨⟨q.warnings_findings, q.warnings_log⟩,
    ⟨q.warnings_report, q.warnings_reportLog, q.warnings_compileLog⟩, ?_⟩
  intro sql hsql hwarnings
  have hnone := rawUses_eq_nil hwarnings
  obtain ⟨hclean, -⟩ := compile_iff.mp hsql
  obtain ⟨-, hsound⟩ := clean_iff_every.mp hclean
  constructor
  · intro n hn
    rw [Node.rawFree_iff, Option.eq_none_iff_forall_not_mem]
    intro u hu
    have hmem := mem_rawUses hsound hn hu
    rw [hnone] at hmem
    exact absurd hmem List.not_mem_nil
  · intro s hs
    rcases names_or_reported hsql hs with hname | ⟨u, hu, -⟩
    · exact hname
    · rw [hnone] at hu
      exact absurd hu List.not_mem_nil

/-- Two uses in a call without a name, one of them in the condition of a CASE. -/
def audited : Query :=
  .select { Select.empty with
    columns := [.call "" [.raw "a" none,
      .cases [⟨some (.not (some (.raw "b"))), some (.lit .null)⟩, ⟨some (.raw "c"), none⟩] none none]
      none] }

/-- A count, written as a name. -/
def counted : Query :=
  .select { Select.empty with columns := [.column { name := "count(*)" }] }

/-- The invalid query is reported twice, its incomplete branch not at all.  The other one compiles
    without a warning, and the name is passed through. -/
theorem raw_sql_is_reported_in_invalid_query :
    (audited.report.valid = false ∧ audited.report.warnings = [RawUse.warning, RawUse.warning]
      ∧ audited.rawUses.length = 2)
    ∧ ∃ sql, counted.compile = .ok sql ∧ counted.report.warnings = []
        ∧ .verbatim "count(*)" ∈ sql ∧ counted.RawFree ∧ counted.Names "count(*)" := by
  have hlength : audited.report.warnings.length = audited.rawUses.length := by
    rw [(raw_sql_is_always_reported audited).2.1.1, List.length_map]
  refine ⟨⟨rfl, rfl, hlength.symm.trans rfl⟩, [.code "SELECT ", .verbatim "count(*)"], rfl, rfl, ?_⟩
  have hmem : Piece.verbatim "count(*)" ∈ [.code "SELECT ", .verbatim "count(*)"] := by decide
  obtain ⟨hfree, hnames⟩ := (raw_sql_is_always_reported counted).2.2 _ rfl rfl
  exact ⟨hmem, hfree, hnames _ hmem⟩

end Query

end SqlLoom
