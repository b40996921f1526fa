/-
  Where conditions stand in SQL.

  The conditions of a query are those of its clauses and of the branches of its CASE expressions, at
  any depth (`Query.Condition`).  Each of them is written in the SQL of the query, behind its keyword
  (`Query.holds_condition`): the SQL of a node is a stretch of the SQL of the node above it.

  There is one exception, and `Node.shown` leaves it out.  IS NULL has a right side that is not
  written, and the list on the right side of BETWEEN is taken apart, but has nothing below it.
-/
import SqlLoom.Proofs.Written.WellFormed

namespace SqlLoom

open Outcome
open Sql (code)

/-! ## The conditions of a query -/

/-- The condition of a clause with the keyword in front of it. -/
def clauseConditions (keyword : String) (clause : Option Predicate) : List (String × Predicate) :=
  clause.toList.map (keyword, ·)

/-- The conditions of a node, without those below it. -/
def Node.conditions : Node → List (String × Predicate)
  | .expr (.cases branches _ _) => branches.flatMap fun b => clauseConditions " WHEN " b.condition
  | .select q =>
    q.joins.map (fun j => (" ON ", j.condition)) ++ clauseConditions " PREWHERE " q.prewhere
      ++ clauseConditions " WHERE " q.filter ++ clauseConditions " HAVING " q.having
  | _ => []

/-- The parts of a node that show in its SQL. -/
def Node.shown : Node → List Node
  | .predicate (.compare left operator right) =>
    match Statement.TestForm.ofOperator operator with
    | .suffix => []
    | .bounds => []
    | _ => leftParts left ++ [.operand right]
  | n => n.parts

/-- `m.Shows n`: the node `m` is `n` or shows in it, at any depth. -/
def Node.Shows (m n : Node) : Prop :=
  Relation.ReflTransGen (fun a b => b ∈ a.shown) n m

theorem Node.mem_parts_of_mem_shown {m n : Node} (h : m ∈ n.shown) : m ∈ n.parts := by
  unfold shown at h
  split at h
  · split at h
    · exact absurd h List.not_mem_nil
    · exact absurd h List.not_mem_nil
    · exact h
  · exact h

theorem Node.Shows.within {m n : Node} (h : m.Shows n) : m.Within n :=
  Relation.ReflTransGen.mono (fun _ _ hab => mem_parts_of_mem_shown hab) _ _ h

/-- The conditions of the statement around the nodes. -/
def Query.ownConditions : Query → List (String × Predicate)
  | .select _ => []
  | .insert _ => []
  | .update q => clauseConditions " WHERE " q.filter
  | .delete q => clauseConditions " WHERE " q.filter

/-- `q.Condition keyword p`: somewhere in the query, `p` is the condition behind `keyword`. -/
def Query.Condition (q : Query) (keyword : String) (p : Predicate) : Prop :=
  (keyword, p) ∈ q.ownConditions
    ∨ ∃ n ∈ q.parts, ∃ m : Node, m.Shows n ∧ (keyword, p) ∈ m.conditions

/-! ### They are nodes of the query -/

theorem mem_clauseParts_of_mem_clauseConditions {keyword keyword' : String}
    {clause : Option Predicate} {p : Predicate}
    (h : (keyword, p) ∈ clauseConditions keyword' clause) : .predicate p ∈ clauseParts clause := by
  obtain ⟨r, hr, heq⟩ := List.mem_map.mp h
  obtain ⟨-, rfl⟩ := Prod.mk.inj heq
  exact List.mem_map.mpr ⟨r, hr, rfl⟩

theorem Node.mem_parts_of_mem_conditions {n : Node} {keyword : String} {p : Predicate}
    (h : (keyword, p) ∈ n.conditions) : .predicate p ∈ n.parts := by
  unfold conditions at h
  split at h
  · obtain ⟨b, hb, h⟩ := List.mem_flatMap.mp h
    have hpart : .predicate p ∈ b.parts :=
      List.mem_append_left _ (mem_clauseParts_of_mem_clauseConditions h)
    exact List.mem_append_left _ (List.mem_flatMap.mpr ⟨b, hb, hpart⟩)
  · simp only [List.mem_append] at h
    simp only [parts, Select.parts, List.mem_append]
    rcases h with ((h | h) | h) | h
    · obtain ⟨j, hj, heq⟩ := List.mem_map.mp h
      obtain ⟨-, rfl⟩ := Prod.mk.inj heq
      have hpart : .predicate j.condition ∈ j.parts :=
        List.mem_append_right _ (List.mem_singleton.mpr rfl)
      simp only [List.mem_flatMap.mpr ⟨j, hj, hpart⟩, or_true, true_or]
    · simp only [mem_clauseParts_of_mem_clauseConditions h, or_true, true_or]
    · simp only [mem_clauseParts_of_mem_clauseConditions h, or_true, true_or]
    · simp only [mem_clauseParts_of_mem_clauseConditions h, or_true, true_or]
  · exact absurd h List.not_mem_nil

theorem Query.has_of_condition {q : Query} {keyword : String} {p : Predicate}
    (h : q.Condition keyword p) : q.Has (.predicate p) := by
  rcases h with h | ⟨n, hn, m, hm, h⟩
  · cases q with
    | select q => exact absurd h List.not_mem_nil
    | insert q => exact absurd h List.not_mem_nil
    | update q => exact has_of_mem_parts (mem_clauseParts_of_mem_clauseConditions h)
    | delete q => exact has_of_mem_parts (mem_clauseParts_of_mem_clauseConditions h)
  · have hpart : (Node.predicate p).Within m := .of_mem_parts (Node.mem_parts_of_mem_conditions h)
    exact ⟨n, hn, hpart.trans hm.within⟩

/-! ## Stretches of SQL -/

/-- Somewhere in the SQL, what is asked for is written. -/
def Sql.Holds (writes : Sql → Prop) (sql : Sql) : Prop :=
  ∃ part, writes part ∧ part <:+: sql

namespace Sql

variable {writes : Sql → Prop} {a b : Sql}

theorem holds_self (h : writes a) : Holds writes a :=
  ⟨a, h, List.infix_rfl⟩

theorem Holds.mono (h : Holds writes a) (hab : a <:+: b) : Holds writes b := by
  obtain ⟨part, hpart, hinfix⟩ := h
  exact ⟨part, hpart, hinfix.trans hab⟩

theorem Holds.left (h : Holds writes a) : Holds writes (a ++ b) :=
  h.mono List.infix_append_left

theorem Holds.right (h : Holds writes b) : Holds writes (a ++ b) :=
  h.mono List.infix_append_right

theorem Holds.inParens (h : Holds writes a) : Holds writes a.inParens :=
  h.right.left

theorem Holds.flatten {parts : List Sql} (ha : a ∈ parts) (h : Holds writes a) :
    Holds writes parts.flatten :=
  h.mono (List.infix_of_mem_flatten ha)

theorem Holds.joined {separator : String} {parts : List Sql} (ha : a ∈ parts)
    (h : Holds writes a) : Holds writes (joined separator parts) := by
  induction parts with
  | nil => exact absurd ha List.not_mem_nil
  | cons part parts ih =>
    cases parts with
    | nil =>
      obtain rfl := List.mem_singleton.mp ha
      rw [Sql.joined, List.intercalate_singleton]
      exact h
    | cons next parts =>
      rw [Sql.joined, List.intercalate_cons_cons]
      rcases List.mem_cons.mp ha with rfl | ha
      · exact h.left.left
      · exact (ih ha).right

end Sql

/-- The SQL of a node, at the top or not. -/
def Node.Written (n : Node) (sql : Sql) : Prop :=
  ∃ top, n.Writes top sql

/-- A condition at the top, behind its keyword. -/
def WrittenBehind (keyword : String) (p : Predicate) (sql : Sql) : Prop :=
  ∃ body, p.Writes true body ∧ sql = code keyword ++ body

theorem holds_expr {e : Expr} {sql : Sql} (h : e.Writes sql) :
    sql.Holds (Node.expr e).Written :=
  Sql.holds_self ⟨true, h⟩

theorem holds_predicate {p : Predicate} {top : Bool} {sql : Sql} (h : p.Writes top sql) :
    sql.Holds (Node.predicate p).Written :=
  Sql.holds_self ⟨top, h⟩

theorem holds_select {q : Select} {sql : Sql} (h : q.Writes sql) :
    sql.Holds (Node.select q).Written :=
  Sql.holds_self ⟨true, h⟩

/-! ## Clauses -/

theorem ClauseWrites.holds {keyword : String} {clause : Option Predicate} {sql : Sql}
    (h : ClauseWrites keyword clause sql) :
    (∀ n ∈ clauseParts clause, sql.Holds n.Written)
      ∧ ∀ entry ∈ clauseConditions keyword clause, sql.Holds (WrittenBehind entry.1 entry.2) := by
  cases clause with
  | none => exact ⟨nofun, nofun⟩
  | some p =>
    obtain ⟨body, hbody, rfl⟩ := h
    constructor
    · intro n hn
      rw [List.mem_singleton.mp hn]
      exact (holds_predicate hbody).right
    · intro entry hentry
      rw [List.mem_singleton.mp hentry]
      exact Sql.holds_self ⟨body, hbody, rfl⟩

/-! ## Expressions -/

theorem Subquery.holds {s : Subquery} {sql : Sql} (h : s.Writes sql) :
    ∀ n ∈ s.parts, sql.Holds n.Written := by
  obtain ⟨q, body, hq, hbody, rfl⟩ := h
  intro n hn
  obtain ⟨select, label⟩ := s
  obtain rfl : select = some q := hq
  rw [List.mem_singleton.mp hn]
  exact (holds_select hbody).inParens

theorem Branch.holds {b : Branch} {sql : Sql} (h : b.Writes sql) :
    (∀ n ∈ b.parts, sql.Holds n.Written)
      ∧ ∀ entry ∈ clauseConditions " WHEN " b.condition,
        sql.Holds (WrittenBehind entry.1 entry.2) := by
  obtain ⟨p, e, condition, result, rfl, hcondition, hresult, rfl⟩ := h
  have hclause : ClauseWrites " WHEN " (some p) (code " WHEN " ++ condition) :=
    ⟨condition, hcondition, rfl⟩
  constructor
  · intro n hn
    rcases List.mem_append.mp hn with hn | hn
    · exact (hclause.holds.1 n hn).left.left
    · rw [List.mem_singleton.mp hn]
      exact (holds_expr hresult).right
  · intro entry hentry
    exact (hclause.holds.2 entry hentry).left.left

/-- An argument of a call is written in it, whichever form the call has. -/
theorem Statement.holds_callSql {writes : Sql → Prop} (form : CallForm) (function : String)
    {args : List Sql} {arg : Sql} (harg : arg ∈ args) (h : arg.Holds writes) :
    (callSql form function args).Holds writes := by
  unfold callSql
  split
  · rcases List.mem_pair.mp harg with rfl | rfl
    · exact h.right.left.left.left
    · exact h.right.left
  · rcases List.mem_pair.mp harg with rfl | rfl
    · exact h.right.left.left.left
    · exact h.right.left
  · exact (h.joined harg).inParens.right

theorem Expr.holds_parts {e : Expr} {sql : Sql} (h : e.Writes sql) :
    ∀ n ∈ e.parts, sql.Holds n.Written := by
  cases e with
  | subquery s => exact Subquery.holds (writes_subquery.mp h)
  | call function args label =>
    obtain ⟨parts, hparts, rfl⟩ := writes_call.mp h
    intro n hn
    obtain ⟨a, ha, rfl⟩ := List.mem_map.mp hn
    obtain ⟨part, hpart, hwrites⟩ := exists_of_forall₂ hparts ha
    exact Statement.holds_callSql _ function hpart (holds_expr hwrites)
  | cases branches otherwise label =>
    obtain ⟨parts, rest, hparts, hrest, rfl⟩ := writes_cases.mp h
    intro n hn
    rcases List.mem_append.mp hn with hn | hn
    · obtain ⟨b, hb, hn⟩ := List.mem_flatMap.mp hn
      obtain ⟨part, hpart, hwrites⟩ := exists_of_forall₂ hparts hb
      exact (((Branch.holds hwrites).1 n hn).flatten hpart).right.left.left
    · cases otherwise with
      | none => exact absurd hn List.not_mem_nil
      | some o =>
        obtain ⟨body, hbody, rfl⟩ := hrest
        rw [List.mem_singleton.mp hn]
        exact (holds_expr hbody).right.right.left
  | column c => exact nofun
  | value v label => exact nofun
  | array items label => exact nofun
  | tuple items label => exact nofun
  | raw text label => exact nofun

theorem Expr.holds_conditions {e : Expr} {sql : Sql} (h : e.Writes sql) :
    ∀ entry ∈ (Node.expr e).conditions, sql.Holds (WrittenBehind entry.1 entry.2) := by
  cases e with
  | cases branches otherwise label =>
    obtain ⟨parts, rest, hparts, hrest, rfl⟩ := writes_cases.mp h
    intro entry hentry
    obtain ⟨b, hb, hentry⟩ := List.mem_flatMap.mp hentry
    obtain ⟨part, hpart, hwrites⟩ := exists_of_forall₂ hparts hb
    exact (((Branch.holds hwrites).2 entry hentry).flatten hpart).right.left.left
  | _ => exact nofun

theorem Expr.holds_operandParts {e : Expr} {sql : Sql} (h : e.WritesOperand sql) :
    ∀ n ∈ e.parts, sql.Holds n.Written := by
  cases e with
  | subquery s => exact Subquery.holds (writesOperand_subquery.mp h)
  | call function args label => exact absurd h not_writesOperand_call
  | cases branches otherwise label => exact absurd h not_writesOperand_cases
  | column c => exact nofun
  | value v label => exact nofun
  | array items label => exact nofun
  | tuple items label => exact nofun
  | raw text label => exact nofun

/-! ## Conditions -/

theorem Statement.holds_testSql {writes : Sql → Prop} {operator : String} {left right sql : Sql}
    (h : testSql operator left right = .ok sql) (hr : right.Holds writes) : sql.Holds writes := by
  unfold testSql at h
  split at h
  · obtain rfl := ok_eq_ok.mp h
    exact hr.right
  · obtain rfl := ok_eq_ok.mp h
    exact hr.right
  · obtain rfl := ok_eq_ok.mp h
    exact hr.right.left.left.left
  · obtain rfl := ok_eq_ok.mp h
    exact hr.right.left.left.left
  · exact nomatch h

theorem Statement.holds_andSql {writes : Sql → Prop} {grouped top : Bool} {parts : List Sql}
    {part : Sql} (hpart : part ∈ parts) (h : part.Holds writes) :
    (andSql grouped top parts).Holds writes := by
  have hbody : (Sql.joined " AND " parts).Holds writes := h.joined hpart
  unfold andSql
  simp only
  split
  · exact hbody.inParens
  · exact hbody

theorem Predicate.holds_shown {p : Predicate} {top : Bool} {sql : Sql} (h : p.Writes top sql) :
    ∀ n ∈ (Node.predicate p).shown, sql.Holds n.Written := by
  intro n hn
  cases p with
  | compare left operator right =>
    obtain ⟨c, leftPart, rfl, -, htest⟩ := writes_compare.mp h
    unfold TestWrites at htest
    simp only [Node.shown] at hn
    generalize hform : Statement.TestForm.ofOperator operator = form at hn htest
    cases form with
    | suffix => exact absurd hn List.not_mem_nil
    | bounds => exact absurd hn List.not_mem_nil
    | _ =>
      obtain ⟨operand, hoperand, hsql⟩ := htest
      rw [List.mem_singleton.mp hn]
      exact Statement.holds_testSql hsql (Sql.holds_self ⟨true, hoperand⟩)
  | and children grouped =>
    obtain ⟨parts, hparts, rfl⟩ := writes_and.mp h
    obtain ⟨q, hq, rfl⟩ := List.mem_map.mp hn
    obtain ⟨part, hpart, hwrites⟩ := exists_of_forall₂ hparts hq
    exact Statement.holds_andSql hpart (holds_predicate hwrites)
  | or children =>
    obtain ⟨parts, hparts, rfl⟩ := writes_or.mp h
    obtain ⟨q, hq, rfl⟩ := List.mem_map.mp hn
    obtain ⟨part, hpart, hwrites⟩ := exists_of_forall₂ hparts hq
    exact ((holds_predicate hwrites).joined hpart).inParens
  | not child =>
    obtain ⟨q, body, rfl, hbody, rfl⟩ := writes_not.mp h
    rw [List.mem_singleton.mp hn]
    exact (holds_predicate hbody).inParens.right
  | raw text => exact absurd hn List.not_mem_nil

/-! ## SELECTs -/

theorem Source.holds {s : Source} {sql : Sql} (h : s.Writes sql) :
    ∀ n ∈ s.parts, sql.Holds n.Written := by
  cases s with
  | table name => exact nofun
  | subquery s => exact Subquery.holds h

theorem FromWrites.holds {source : Option FromClause} {sql : Sql} (h : FromWrites source sql) :
    ∀ n ∈ source.toList.flatMap (·.source.parts), sql.Holds n.Written := by
  cases source with
  | none => exact nofun
  | some f =>
    obtain ⟨source, label, hsource, -, rfl⟩ := h
    intro n hn
    rw [Option.toList_some, List.flatMap_singleton] at hn
    exact (Source.holds hsource n hn).right.left

theorem JoinClause.holds {j : JoinClause} {sql : Sql} (h : j.Writes sql) :
    (∀ n ∈ j.parts, sql.Holds n.Written)
      ∧ sql.Holds (WrittenBehind " ON " j.condition) := by
  obtain ⟨source, label, condition, hsource, -, hcondition, rfl⟩ := h
  constructor
  · intro n hn
    rcases List.mem_append.mp hn with hn | hn
    · exact (Source.holds hsource n hn).right.left.left.left
    · rw [List.mem_singleton.mp hn]
      exact (holds_predicate hcondition).right
  · have hbehind : WrittenBehind " ON " j.condition (code " ON " ++ condition) :=
      ⟨condition, hcondition, rfl⟩
    -- keyword and condition stand next to each other at the end
    rw [List.append_assoc]
    exact (Sql.holds_self hbehind).right

theorem UnionMember.holds {u : UnionMember} {sql : Sql} (h : u.Writes sql) :
    ∀ n ∈ u.query.parts, sql.Holds n.Written := by
  obtain ⟨q, body, hq, hbody, rfl⟩ := h
  intro n hn
  rw [Subquery.parts, hq] at hn
  rw [List.mem_singleton.mp hn]
  exact (holds_select hbody).right

/-- The clauses that have parts stand in the SQL of a SELECT. -/
theorem Select.infix_assemble (q : Select) (c : SelectClauses) {part : Sql}
    (h : part ∈ [withPart c.withs, columnPart c.columns, c.source, c.joins.flatten, c.prewhere,
      c.filter, c.having, c.unions.flatten]) : part <:+: q.assemble c := by
  have hall : q.assemble c = [withPart c.withs, code "SELECT ", columnPart c.columns, c.source,
      c.joins.flatten, c.prewhere, c.filter, Statement.clause " GROUP BY " ", " c.groupBy, c.having,
      Statement.clause " ORDER BY " ", " c.orderBy, q.tailPart, c.unions.flatten].flatten := by
    simp only [assemble, List.flatten_cons, List.flatten_nil, List.append_nil, List.append_assoc]
  rw [hall]
  refine List.infix_of_mem_flatten (List.Sublist.mem h ?_)
  simp

theorem holds_withPart {writes : Sql → Prop} {withs : List Sql} {part : Sql} (hpart : part ∈ withs)
    (h : part.Holds writes) : (withPart withs).Holds writes := by
  have hne : withs.isEmpty = false := List.isEmpty_eq_false_iff_exists_mem.mpr ⟨part, hpart⟩
  rw [withPart, hne]
  exact (h.joined hpart).right.left

theorem holds_columnPart {writes : Sql → Prop} {columns : List Sql} {part : Sql}
    (hpart : part ∈ columns) (h : part.Holds writes) : (columnPart columns).Holds writes := by
  have hne : columns.isEmpty = false := List.isEmpty_eq_false_iff_exists_mem.mpr ⟨part, hpart⟩
  rw [columnPart, hne]
  exact h.joined hpart

theorem Select.holds_parts {q : Select} {sql : Sql} (h : q.Writes sql) :
    ∀ n ∈ q.parts, sql.Holds n.Written := by
  obtain ⟨c, hc, rfl⟩ := writes_iff.mp h
  intro n hn
  simp only [parts, List.mem_append] at hn
  rcases hn with (((((((hn | hn) | hn) | hn) | hn) | hn) | hn) | hn)
  · obtain ⟨w, hw, hn⟩ := List.mem_flatMap.mp hn
    obtain ⟨part, hpart, name, query, -, hquery, rfl⟩ := exists_of_forall₂ hc.withs hw
    have hin : (withPart c.withs).Holds n.Written :=
      holds_withPart hpart (Subquery.holds hquery n hn).right
    exact hin.mono (q.infix_assemble c (by simp))
  · obtain ⟨e, he, rfl⟩ := List.mem_map.mp hn
    obtain ⟨part, hpart, body, label, hbody, -, rfl⟩ := exists_of_forall₂ hc.columns he
    have hin : (columnPart c.columns).Holds (Node.expr e).Written :=
      holds_columnPart hpart (holds_expr hbody).left
    exact hin.mono (q.infix_assemble c (by simp))
  · exact (hc.source.holds n hn).mono (q.infix_assemble c (by simp))
  · obtain ⟨j, hj, hn⟩ := List.mem_flatMap.mp hn
    obtain ⟨part, hpart, hwrites⟩ := exists_of_forall₂ hc.joins hj
    have hin : Sql.Holds n.Written c.joins.flatten :=
      ((JoinClause.holds hwrites).1 n hn).flatten hpart
    exact hin.mono (q.infix_assemble c (by simp))
  · exact (hc.prewhere.holds.1 n hn).mono (q.infix_assemble c (by simp))
  · exact (hc.filter.holds.1 n hn).mono (q.infix_assemble c (by simp))
  · exact (hc.having.holds.1 n hn).mono (q.infix_assemble c (by simp))
  · obtain ⟨u, hu, hn⟩ := List.mem_flatMap.mp hn
    obtain ⟨part, hpart, hwrites⟩ := exists_of_forall₂ hc.unions hu
    have hin : Sql.Holds n.Written c.unions.flatten :=
      (UnionMember.holds hwrites n hn).flatten hpart
    exact hin.mono (q.infix_assemble c (by simp))

theorem Select.holds_conditions {q : Select} {sql : Sql} (h : q.Writes sql) :
    ∀ entry ∈ (Node.select q).conditions, sql.Holds (WrittenBehind entry.1 entry.2) := by
  obtain ⟨c, hc, rfl⟩ := writes_iff.mp h
  intro entry hentry
  simp only [Node.conditions, List.mem_append] at hentry
  rcases hentry with ((hentry | hentry) | hentry) | hentry
  · obtain ⟨j, hj, rfl⟩ := List.mem_map.mp hentry
    obtain ⟨part, hpart, hwrites⟩ := exists_of_forall₂ hc.joins hj
    have hin : Sql.Holds (WrittenBehind " ON " j.condition) c.joins.flatten :=
      (JoinClause.holds hwrites).2.flatten hpart
    exact hin.mono (q.infix_assemble c (by simp))
  · exact (hc.prewhere.holds.2 entry hentry).mono (q.infix_assemble c (by simp))
  · exact (hc.filter.holds.2 entry hentry).mono (q.infix_assemble c (by simp))
  · exact (hc.having.holds.2 entry hentry).mono (q.infix_assemble c (by simp))

/-! ## Nodes and queries -/

theorem Node.holds_shown {n : Node} {top : Bool} {sql : Sql} (h : n.Writes top sql) :
    ∀ m ∈ n.shown, sql.Holds m.Written := by
  cases n with
  | expr e => exact Expr.holds_parts h
  | operand e => exact Expr.holds_operandParts h
  | predicate p => exact Predicate.holds_shown h
  | select q => exact Select.holds_parts h

theorem Node.holds_conditions {n : Node} {top : Bool} {sql : Sql} (h : n.Writes top sql) :
    ∀ entry ∈ n.conditions, sql.Holds (WrittenBehind entry.1 entry.2) := by
  cases n with
  | expr e => exact Expr.holds_conditions h
  | operand e => exact nofun
  | predicate p => exact nofun
  | select q => exact Select.holds_conditions h

/-- What shows in a node is written wherever the node is. -/
theorem Node.Shows.holds {m n : Node} (h : m.Shows n) {sql : Sql} (hn : sql.Holds n.Written) :
    sql.Holds m.Written := by
  induction h with
  | refl => exact hn
  | tail _ hstep ih =>
    -- a stretch of a stretch is a stretch
    obtain ⟨part, ⟨top, hpart⟩, hinfix⟩ := ih
    exact (holds_shown hpart _ hstep).mono hinfix

namespace Query

theorem holds_parts {q : Query} {sql : Sql} (h : q.Writes sql) :
    (∀ n ∈ q.parts, sql.Holds n.Written)
      ∧ ∀ entry ∈ q.ownConditions, sql.Holds (WrittenBehind entry.1 entry.2) := by
  cases q with
  | select q =>
    refine ⟨fun n hn => ?_, nofun⟩
    rw [List.mem_singleton.mp hn]
    exact holds_select h
  | insert q => exact ⟨nofun, nofun⟩
  | update q =>
    obtain ⟨table, assignments, filter, -, -, hfilter, rfl⟩ := h
    obtain ⟨hparts, hconditions⟩ := hfilter.holds
    exact ⟨fun n hn => (hparts n hn).right.left,
      fun entry hentry => (hconditions entry hentry).right.left⟩
  | delete q =>
    obtain ⟨table, filter, -, hfilter, rfl⟩ := h
    obtain ⟨hparts, hconditions⟩ := hfilter.holds
    exact ⟨fun n hn => (hparts n hn).right.left,
      fun entry hentry => (hconditions entry hentry).right.left⟩

/-- **Every condition of a query is written behind its keyword.** -/
theorem holds_condition {q : Query} {sql : Sql} (h : q.Writes sql) {keyword : String}
    {p : Predicate} (hp : q.Condition keyword p) : sql.Holds (WrittenBehind keyword p) := by
  obtain ⟨hparts, hown⟩ := holds_parts h
  rcases hp with hp | ⟨n, hn, m, hm, hp⟩
  · exact hown _ hp
  · obtain ⟨part, ⟨top, hpart⟩, hinfix⟩ := hm.holds (hparts n hn)
    exact (Node.holds_conditions hpart _ hp).mono hinfix

end Query

end SqlLoom
