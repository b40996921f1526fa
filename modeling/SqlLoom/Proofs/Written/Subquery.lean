/-
  Queries inside queries.

  A query that stands inside another one is checked, turned into a statement and written just as it
  would be on its own.  `Query.Embeds enclosure s` says that the SELECT `s` is a subquery somewhere
  in a query, at any depth; `enclosure` tells subqueries in brackets from members of a UNION.

  1. `Node.subqueries` — the SELECTs that stand directly in a node, each with its enclosure, and
     `Node.select_mem_parts`: no SELECT below a node is left out;
  2. `Node.KeptIn` — one node below another one, not counting the right side of IS NULL, which is
     dropped; on the way down, what is written for a node is a stretch of what is written for the
     whole (`Node.KeptIn.holds`);
  3. `Query.holds_embedded` — so what is written for an embedded SELECT is such a stretch, brackets
     or keyword included, and `Query.clean_embedded` — the check of the whole covers it.

  The right side of BETWEEN is on the way, too.  A query with a subquery there is never written.
-/
import SqlLoom.Proofs.Written.Acceptance

namespace SqlLoom

open Outcome
open Sql (code)

/-! ## Enclosures -/

/-- How a query stands inside another one. -/
inductive Enclosure where
  /-- In brackets: as a source, a WITH query, an expression or an operand. -/
  | bracketed
  /-- As a member of a UNION, behind the keyword and without brackets. -/
  | member (operator : SetOperator)
  deriving DecidableEq, Repr

namespace Enclosure

/-- The text of a query with what encloses it. -/
def around : Enclosure → String → String
  | bracketed, s => "(" ++ s ++ ")"
  | member operator, s => " " ++ operator.keyword ++ " " ++ s

/-- The SQL of a query with what encloses it. -/
def wrap : Enclosure → Sql → Sql
  | bracketed, sql => sql.inParens
  | member operator, sql => code (" " ++ operator.keyword ++ " ") ++ sql

/-- A SELECT, written with what encloses it. -/
def Written (enclosure : Enclosure) (q : Select) (sql : Sql) : Prop :=
  ∃ body, q.Writes body ∧ sql = enclosure.wrap body

end Enclosure

/-- The query of a subquery, if it is there, with its enclosure. -/
def Subquery.enclosedBy (enclosure : Enclosure) (s : Subquery) : List (Enclosure × Select) :=
  s.select.toList.map (enclosure, ·)

/-- The query that rows come from, if it is one. -/
def Source.subqueries : Source → List (Enclosure × Select)
  | .table _ => []
  | .subquery s => s.enclosedBy .bracketed

/-- The query that an expression is, if it is one. -/
def Expr.subqueries : Expr → List (Enclosure × Select)
  | .subquery s => s.enclosedBy .bracketed
  | _ => []

/-- The queries in the clauses of a SELECT. -/
def Select.subqueries (q : Select) : List (Enclosure × Select) :=
  q.withs.flatMap (·.query.enclosedBy .bracketed)
    ++ q.source.toList.flatMap (·.source.subqueries)
    ++ q.joins.flatMap (·.source.subqueries)
    ++ q.unions.flatMap (fun u => u.query.enclosedBy (.member u.operator))

/-- The queries that stand directly in a node. -/
def Node.subqueries : Node → List (Enclosure × Select)
  | .expr e => e.subqueries
  | .operand e => e.subqueries
  | .predicate _ => []
  | .select q => q.subqueries

/-- The parts of a node, without the right side that IS NULL and IS NOT NULL drop. -/
def Node.kept : Node → List Node
  | .predicate (.compare left operator right) =>
    leftParts left
      ++ if operator = "IS NULL" ∨ operator = "IS NOT NULL" then [] else [.operand right]
  | n => n.parts

/-- `m.KeptIn n`: the node `m` is `n` or stands below it, at any depth, and not at a right side that
    is dropped. -/
def Node.KeptIn (m n : Node) : Prop :=
  Relation.ReflTransGen (fun a b => b ∈ a.kept) n m

/-- The SELECT is a subquery somewhere in the query, and no test drops it. -/
def Query.Embeds (q : Query) (enclosure : Enclosure) (s : Select) : Prop :=
  ∃ root ∈ q.parts, ∃ n : Node, n.KeptIn root ∧ (enclosure, s) ∈ n.subqueries

/-! ## Subqueries and parts -/

theorem Node.mem_parts_of_mem_kept {m n : Node} (h : m ∈ n.kept) : m ∈ n.parts := by
  unfold kept at h
  split at h
  · split at h
    · rw [List.append_nil] at h
      exact List.mem_append_left _ h
    · exact h
  · exact h

theorem Node.KeptIn.within {m n : Node} (h : m.KeptIn n) : m.Within n :=
  Relation.ReflTransGen.mono (fun _ _ hab => mem_parts_of_mem_kept hab) _ _ h

theorem Subquery.select_mem_parts {s : Subquery} {q : Select} :
    .select q ∈ s.parts ↔ s.select = some q := by
  simp [parts]

theorem Subquery.mem_enclosedBy {s : Subquery} {enclosure enclosure' : Enclosure} {q : Select} :
    (enclosure, q) ∈ s.enclosedBy enclosure' ↔ enclosure = enclosure' ∧ s.select = some q := by
  simp [enclosedBy, and_comm, eq_comm]

theorem Source.mem_subqueries {s : Source} {enclosure : Enclosure} {q : Select} :
    (enclosure, q) ∈ s.subqueries ↔ enclosure = .bracketed ∧ .select q ∈ s.parts := by
  cases s with
  | table name => simp [parts, subqueries]
  | subquery s => rw [subqueries, parts, Subquery.mem_enclosedBy, Subquery.select_mem_parts]

theorem Expr.mem_subqueries {e : Expr} {enclosure : Enclosure} {q : Select} :
    (enclosure, q) ∈ e.subqueries ↔ enclosure = .bracketed ∧ .select q ∈ e.parts := by
  cases e with
  | subquery s => rw [subqueries, parts, Subquery.mem_enclosedBy, Subquery.select_mem_parts]
  | _ => simp [parts, subqueries, Branch.parts]

theorem Predicate.select_not_mem_parts {p : Predicate} {q : Select} : .select q ∉ p.parts := by
  cases p with
  | compare left operator right =>
    rcases leftParts_eq_or left with hleft | hleft <;> simp [parts, hleft]
  | _ => simp [parts]

theorem Select.select_mem_parts {q r : Select} :
    .select q ∈ r.parts ↔ (∃ w ∈ r.withs, w.query.select = some q)
      ∨ (∃ f ∈ r.source, .select q ∈ f.source.parts) ∨ (∃ j ∈ r.joins, .select q ∈ j.source.parts)
      ∨ ∃ u ∈ r.unions, u.query.select = some q := by
  simp [parts, JoinClause.parts, clauseParts, Subquery.select_mem_parts]

theorem Select.mem_subqueries {r : Select} {enclosure : Enclosure} {q : Select} :
    (enclosure, q) ∈ r.subqueries
      ↔ (∃ w ∈ r.withs, enclosure = .bracketed ∧ w.query.select = some q)
        ∨ (∃ f ∈ r.source, enclosure = .bracketed ∧ .select q ∈ f.source.parts)
        ∨ (∃ j ∈ r.joins, enclosure = .bracketed ∧ .select q ∈ j.source.parts)
        ∨ ∃ u ∈ r.unions, enclosure = .member u.operator ∧ u.query.select = some q := by
  simp [subqueries, Subquery.mem_enclosedBy, Source.mem_subqueries]

/-- The SELECTs directly below a node are its subqueries, and no other ones. -/
theorem Node.select_mem_parts {n : Node} {q : Select} :
    .select q ∈ n.parts ↔ ∃ enclosure, (enclosure, q) ∈ n.subqueries := by
  cases n with
  | expr e => simp only [parts, subqueries, Expr.mem_subqueries, exists_eq_left]
  | operand e => simp only [parts, subqueries, Expr.mem_subqueries, exists_eq_left]
  | predicate p =>
    simp only [parts, subqueries, p.select_not_mem_parts, List.not_mem_nil, exists_false]
  | select r =>
    simp only [parts, subqueries, Select.select_mem_parts, Select.mem_subqueries]
    constructor
    · rintro (⟨w, hw, hq⟩ | ⟨f, hf, hq⟩ | ⟨j, hj, hq⟩ | ⟨u, hu, hq⟩)
      · exact ⟨.bracketed, .inl ⟨w, hw, rfl, hq⟩⟩
      · exact ⟨.bracketed, .inr (.inl ⟨f, hf, rfl, hq⟩)⟩
      · exact ⟨.bracketed, .inr (.inr (.inl ⟨j, hj, rfl, hq⟩))⟩
      · exact ⟨.member u.operator, .inr (.inr (.inr ⟨u, hu, rfl, hq⟩))⟩
    · rintro ⟨enclosure, ⟨w, hw, -, hq⟩ | ⟨f, hf, -, hq⟩ | ⟨j, hj, -, hq⟩ | ⟨u, hu, -, hq⟩⟩
      · exact .inl ⟨w, hw, hq⟩
      · exact .inr (.inl ⟨f, hf, hq⟩)
      · exact .inr (.inr (.inl ⟨j, hj, hq⟩))
      · exact .inr (.inr (.inr ⟨u, hu, hq⟩))

/-! ## Subqueries in their nodes -/

theorem Subquery.holds_enclosed {s : Subquery} {q : Select} {sql : Sql} (h : sql.Holds s.Writes)
    (hq : s.select = some q) : sql.Holds (Enclosure.bracketed.Written q) := by
  obtain ⟨_, ⟨r, body, hr, hbody, rfl⟩, hinfix⟩ := h
  obtain rfl : r = q := Option.some.inj (hr.symm.trans hq)
  exact ⟨body.inParens, ⟨body, hbody, rfl⟩, hinfix⟩

theorem Source.holds_enclosed {s : Source} {q : Select} {sql : Sql} (h : sql.Holds s.Writes)
    (hq : .select q ∈ s.parts) : sql.Holds (Enclosure.bracketed.Written q) := by
  cases s with
  | table name => exact absurd hq List.not_mem_nil
  | subquery s => exact Subquery.holds_enclosed h (Subquery.select_mem_parts.mp hq)

theorem UnionMember.holds_enclosed {u : UnionMember} {q : Select} {sql : Sql} (h : u.Writes sql)
    (hq : u.query.select = some q) : sql.Holds ((Enclosure.member u.operator).Written q) := by
  obtain ⟨r, body, hr, hbody, rfl⟩ := h
  obtain rfl : r = q := Option.some.inj (hr.symm.trans hq)
  exact Sql.holds_self ⟨body, hbody, rfl⟩

theorem Expr.holds_enclosed {e : Expr} {enclosure : Enclosure} {q : Select} {sql : Sql}
    (h : ∀ s, e = .subquery s → s.Writes sql) (hq : (enclosure, q) ∈ e.subqueries) :
    sql.Holds (enclosure.Written q) := by
  cases e with
  | subquery s =>
    obtain ⟨rfl, hselect⟩ := Subquery.mem_enclosedBy.mp hq
    exact Subquery.holds_enclosed (Sql.holds_self (h s rfl)) hselect
  | _ => exact absurd hq List.not_mem_nil

theorem Select.holds_enclosed {r : Select} {enclosure : Enclosure} {q : Select} {sql : Sql}
    (h : r.Writes sql) (hq : (enclosure, q) ∈ r.subqueries) : sql.Holds (enclosure.Written q) := by
  obtain ⟨c, hc, rfl⟩ := writes_iff.mp h
  rcases mem_subqueries.mp hq with ⟨w, hw, rfl, hw'⟩ | ⟨f, hf, rfl, hf'⟩ | ⟨j, hj, rfl, hj'⟩
    | ⟨u, hu, rfl, hu'⟩
  · obtain ⟨part, hpart, name, query, -, hquery, rfl⟩ := exists_of_forall₂ hc.withs hw
    have hin : (withPart c.withs).Holds w.query.Writes :=
      holds_withPart hpart (Sql.holds_self hquery).right
    exact Subquery.holds_enclosed (hin.mono (r.infix_assemble c (by simp))) hw'
  · have hsource := hc.source
    rw [Option.mem_def.mp hf] at hsource
    obtain ⟨source, label, hwrites, -, hsql⟩ := hsource
    have hin : c.source.Holds f.source.Writes := by
      rw [hsql]
      exact (Sql.holds_self hwrites).right.left
    exact Source.holds_enclosed (hin.mono (r.infix_assemble c (by simp))) hf'
  · obtain ⟨part, hpart, source, label, condition, hwrites, -, -, rfl⟩ :=
      exists_of_forall₂ hc.joins hj
    have hin : Sql.Holds j.source.Writes c.joins.flatten :=
      (Sql.holds_self hwrites).right.left.left.left.flatten hpart
    exact Source.holds_enclosed (hin.mono (r.infix_assemble c (by simp))) hj'
  · obtain ⟨part, hpart, hwrites⟩ := exists_of_forall₂ hc.unions hu
    have hin : Sql.Holds ((Enclosure.member u.operator).Written q) c.unions.flatten :=
      (UnionMember.holds_enclosed hwrites hu').flatten hpart
    exact hin.mono (r.infix_assemble c (by simp))

/-- A subquery is written in its node, with what encloses it. -/
theorem Node.holds_subqueries {n : Node} {top : Bool} {sql : Sql} (h : n.Writes top sql)
    {enclosure : Enclosure} {q : Select} (hq : (enclosure, q) ∈ n.subqueries) :
    sql.Holds (enclosure.Written q) := by
  cases n with
  | expr e =>
    refine Expr.holds_enclosed (fun s hs => ?_) hq
    subst hs
    exact Expr.writes_subquery.mp h
  | operand e =>
    refine Expr.holds_enclosed (fun s hs => ?_) hq
    subst hs
    exact Expr.writesOperand_subquery.mp h
  | predicate p => exact absurd hq List.not_mem_nil
  | select r => exact Select.holds_enclosed h hq

/-! ## On the way down -/

/-- What is written for a part is written in its node.  The list of BETWEEN is taken apart, and has
    no parts. -/
theorem Node.holds_part {n : Node} {top : Bool} {sql : Sql} (h : n.Writes top sql) {m : Node}
    (hm : m ∈ n.kept) : sql.Holds m.Written ∨ m.parts = [] := by
  cases n with
  | expr e => exact .inl (holds_shown h m hm)
  | operand e => exact .inl (holds_shown h m hm)
  | select q => exact .inl (holds_shown h m hm)
  | predicate p =>
    cases p with
    | and | or | not | raw => exact .inl (Predicate.holds_shown h m hm)
    | compare left operator right =>
      obtain ⟨c, leftPart, rfl, -, htest⟩ := Predicate.writes_compare.mp h
      have hright : m ∈ if operator = "IS NULL" ∨ operator = "IS NOT NULL" then []
          else [Node.operand right] := hm
      split at hright
      · exact absurd hright List.not_mem_nil
      · rename_i hoperator
        obtain rfl : m = .operand right := List.mem_singleton.mp hright
        unfold TestWrites at htest
        generalize hform : Statement.TestForm.ofOperator operator = form at htest
        cases form with
        | suffix =>
          have hmem := Statement.TestForm.mem_of_ofOperator hform nofun
          exact absurd (List.mem_pair.mp hmem) hoperator
        | bounds =>
          obtain ⟨low, high, hbounds, -⟩ := htest
          cases right with
          | array items label => exact .inr rfl
          | tuple items label => exact .inr rfl
          | _ => exact hbounds.elim
        | _ =>
          obtain ⟨operand, hoperand, hsql⟩ := htest
          exact .inl (Statement.holds_testSql hsql (Sql.holds_self ⟨true, hoperand⟩))

/-- What is written for a node is written wherever the node is, or there is nothing below it. -/
theorem Node.KeptIn.holds {m n : Node} (h : m.KeptIn n) {sql : Sql} (hn : sql.Holds n.Written) :
    sql.Holds m.Written ∨ m.parts = [] := by
  induction h with
  | refl => exact .inl hn
  | tail _ hstep ih =>
    rcases ih with ⟨part, ⟨top, hpart⟩, hinfix⟩ | hnone
    · exact (holds_part hpart hstep).imp_left fun hholds => hholds.mono hinfix
    · have hmem := mem_parts_of_mem_kept hstep
      rw [hnone] at hmem
      exact absurd hmem List.not_mem_nil

namespace Query

/-- **An embedded SELECT is written in the whole query**, with what encloses it. -/
theorem holds_embedded {q : Query} {sql : Sql} (h : q.Writes sql) {enclosure : Enclosure}
    {s : Select} (hs : q.Embeds enclosure s) : sql.Holds (enclosure.Written s) := by
  obtain ⟨root, hroot, n, hn, hs⟩ := hs
  rcases hn.holds ((holds_parts h).1 root hroot) with ⟨part, ⟨top, hpart⟩, hinfix⟩ | hnone
  · exact (Node.holds_subqueries hpart hs).mono hinfix
  · have hmem : .select s ∈ n.parts := Node.select_mem_parts.mpr ⟨enclosure, hs⟩
    rw [hnone] at hmem
    exact absurd hmem List.not_mem_nil

/-- The check of the whole query covers an embedded SELECT. -/
theorem clean_embedded {q : Query} (h : q.findings.clean = true) {enclosure : Enclosure}
    {s : Select} (hs : q.Embeds enclosure s) : (Query.select s).findings.clean = true := by
  obtain ⟨root, hroot, n, hn, hs⟩ := hs
  have hsound : root.Every Node.Sound := Node.clean_iff_every.mp ((clean_iff.mp h).2 root hroot)
  have hwithin : (Node.select s).Within root :=
    (Node.Within.of_mem_parts (Node.select_mem_parts.mpr ⟨enclosure, hs⟩)).trans hn.within
  have hbelow : (Node.select s).Every Node.Sound := fun m hm => hsound m (hm.trans hwithin)
  exact Node.clean_iff_every.mpr hbelow

end Query

/-! ## Texts -/

theorem Sql.text_append (a b : Sql) : (a ++ b).text = a.text ++ b.text := by
  rw [text, chars_append, String.ofList_append]
  rfl

theorem Enclosure.text_wrap (enclosure : Enclosure) (sql : Sql) :
    (enclosure.wrap sql).text = enclosure.around sql.text := by
  have hcode : ∀ s : String, (code s).text = s := by
    intro s
    simp [code, Sql.text, Piece.chars]
  cases enclosure with
  | bracketed => simp only [wrap, around, Sql.inParens, Sql.text_append, hcode]
  | member operator => simp only [wrap, around, Sql.text_append, hcode]

/-- **Headline.**  A query with a subquery at any depth compiles only if the subquery compiles on
    its own, and then its SQL contains that of the subquery to the letter, in brackets or, for a
    member of a UNION, behind the keyword.  So a subquery that does not compile spoils the whole. -/
theorem subqueries_compile_as_on_their_own {q : Query} {enclosure : Enclosure} {s : Select}
    (h : q.Embeds enclosure s) :
    (∀ text, q.toSql = .ok text →
      ∃ sub before after, (Query.select s).toSql = .ok sub
        ∧ text = before ++ enclosure.around sub ++ after)
    ∧ ((∃ e, (Query.select s).toSql = .error e) → ∃ e, q.toSql = .error e) := by
  have hforward : ∀ text, q.toSql = .ok text →
      ∃ sub before after, (Query.select s).toSql = .ok sub
        ∧ text = before ++ enclosure.around sub ++ after := by
    intro text htext
    obtain ⟨sql, hsql, rfl⟩ := Query.toSql_eq_ok.mp htext
    obtain ⟨hclean, hwrites⟩ := Query.compile_iff.mp hsql
    obtain ⟨_, ⟨body, hbody, rfl⟩, before, after, hsplit⟩ := Query.holds_embedded hwrites h
    have hsub : (Query.select s).compile = .ok body :=
      Query.compile_iff.mpr ⟨Query.clean_embedded hclean h, hbody⟩
    refine ⟨body.text, Sql.text before, Sql.text after, ?_, ?_⟩
    · exact Query.toSql_eq_ok.mpr ⟨body, hsub, rfl⟩
    · rw [← hsplit, Sql.text_append, Sql.text_append, Enclosure.text_wrap]
  refine ⟨hforward, ?_⟩
  rintro ⟨e, he⟩
  cases htext : q.toSql with
  | error e' => exact ⟨e', rfl⟩
  | ok text =>
    obtain ⟨sub, -, -, hsub, -⟩ := hforward text htext
    exact nomatch he.symm.trans hsub

/-- A member of a UNION, in a query that is the operand of a DELETE.  And the same one when it is
    broken: a negative limit. -/
theorem subqueries_compile_as_on_their_own_in_union :
    let member : Select := { Select.empty with columns := [.named "c"] }
    let broken : Select := { member with limit := some (-1) }
    let operand (s : Select) : Select :=
      { Select.empty with columns := [.named "b"], unions := [⟨.unionAll, ⟨some s, none⟩⟩] }
    let change (s : Select) : Query := .delete
      { table := "t"
        filter := some (.compare (.named "a") "IN" (.subquery ⟨some (operand s), none⟩)) }
    let text := "ALTER TABLE \x60t\x60 DELETE WHERE "
      ++ "\x60a\x60 IN (SELECT \x60b\x60 UNION ALL SELECT \x60c\x60)"
    (∃ sub before after, (Query.select member).toSql = .ok sub
        ∧ text = before ++ (" UNION ALL " ++ sub) ++ after)
      ∧ ∃ e, (change broken).toSql = .error e := by
  intro member broken operand change text
  have hembeds : ∀ s, (change s).Embeds (.member .unionAll) s := by
    intro s
    refine ⟨_, List.mem_singleton.mpr rfl, .select (operand s), ?_, ?_⟩
    · exact .tail (.single (List.mem_singleton.mpr rfl)) (List.mem_singleton.mpr rfl)
    · exact List.mem_singleton.mpr rfl
  have hlimit : ∃ e, (Query.select broken).toSql = .error e := ⟨_, rfl⟩
  have htext : (change member).toSql = .ok text := by decide +kernel
  exact ⟨(subqueries_compile_as_on_their_own (hembeds member)).1 _ htext,
    (subqueries_compile_as_on_their_own (hembeds broken)).2 hlimit⟩

end SqlLoom
