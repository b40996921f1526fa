/-
  What is written for SELECTs and whole queries.

  The SQL of a SELECT is the SQL of its clauses, one after the other (`Select.writes_iff`); the other
  three kinds of query have a lemma each.  A query compiles exactly when it is clean and something
  is written for it (`Query.compile_iff`).
-/
import SqlLoom.Compile
import SqlLoom.Proofs.Findings
import SqlLoom.Proofs.Written.Tree

namespace SqlLoom

open Outcome
open Sql (code)

/-! ## The clauses -/

/-- An entry of a select list, with its alias. -/
def Expr.WritesColumn (e : Expr) (sql : Sql) : Prop :=
  ∃ body label, e.Writes body ∧ LabelWrites e.label label ∧ sql = body ++ label

/-- ` FROM source AS label`, or nothing. -/
def FromWrites : Option FromClause → Sql → Prop
  | none, sql => sql = []
  | some f, sql => ∃ source label, f.source.Writes source ∧ LabelWrites f.label label
      ∧ sql = code " FROM " ++ source ++ label

/-- A JOIN with its condition. -/
def JoinClause.Writes (j : JoinClause) (sql : Sql) : Prop :=
  ∃ source label condition, j.source.Writes source ∧ LabelWrites j.label label
    ∧ j.condition.Writes true condition
    ∧ sql = code (" " ++ j.kind.keyword ++ " JOIN ") ++ source ++ label ++ code " ON " ++ condition

/-- An entry of a WITH clause. -/
def WithClause.Writes (w : WithClause) (sql : Sql) : Prop :=
  ∃ name query, NameWrites .selection w.name name ∧ w.query.Writes query
    ∧ sql = name ++ code " AS " ++ query

/-- A member of a UNION, without brackets. -/
def UnionMember.Writes (u : UnionMember) (sql : Sql) : Prop :=
  ∃ q body, u.query.select = some q ∧ q.Writes body
    ∧ sql = code (" " ++ u.operator.keyword ++ " ") ++ body

/-- A clause with a condition, or nothing.  A single condition is always at the top. -/
def ClauseWrites (keyword : String) : Option Predicate → Sql → Prop
  | none, sql => sql = []
  | some p, sql => ∃ body, p.Writes true body ∧ sql = code keyword ++ body

/-! ## The two passes over clauses -/

namespace Statement

/-- A written entry of a select list. -/
def ColumnSql (x : Expr) (sql : Sql) : Prop :=
  ∃ body label, exprSql x = .ok body ∧ LabelWrites x.label label ∧ sql = body ++ label

theorem columnsSql_eq_ok {xs : List Expr} {parts : List Sql} :
    columnsSql xs = .ok parts ↔ List.Forall₂ ColumnSql xs parts := by
  refine forall₂_of_steps columnsSql rfl fun x rest parts => ?_
  simp only [columnsSql, bind_eq_ok, pure_eq_ok, labelSql_eq_ok, ColumnSql]
  constructor
  · rintro ⟨body, hb, label, hl, ps, hps, rfl⟩
    exact ⟨_, ⟨body, label, hb, hl, rfl⟩, ps, hps, rfl⟩
  · rintro ⟨_, ⟨body, label, hb, hl, rfl⟩, ps, hps, rfl⟩
    exact ⟨body, hb, label, hl, ps, hps, rfl⟩

/-- The step keeps the alias of an expression. -/
theorem label_ofExpr {e : SqlLoom.Expr} {x : Expr} (h : ofExpr e = .ok x) : x.label = e.label := by
  cases e <;> simp only [ofExpr, bind_eq_ok, pure_eq_ok, ok_eq_ok] at h
  case subquery => obtain ⟨_, -, rfl⟩ := h; rfl
  case call => obtain ⟨_, -, rfl⟩ := h; rfl
  case cases => obtain ⟨_, -, _, -, rfl⟩ := h; rfl
  all_goals subst h; rfl

/-- Conditions are born without a mark. -/
theorem early_ofPredicate {p : SqlLoom.Predicate} {x : Predicate} (h : ofPredicate p = .ok x) :
    x.early = false := by
  unfold ofPredicate at h
  split at h <;> simp only [bind_eq_ok, pure_eq_ok, ok_eq_ok, error_eq_ok] at h
  all_goals (obtain ⟨_, -, rfl⟩ := h; rfl)

theorem ofJoins_eq_ok {joins : List SqlLoom.JoinClause} {xs : List JoinClause} :
    ofJoins joins = .ok xs ↔ List.Forall₂ (fun j x => ∃ source condition,
      ofSource j.source = .ok source ∧ ofPredicate j.condition = .ok condition
        ∧ x = ⟨j.kind, source, j.label, condition⟩) joins xs := by
  refine forall₂_of_steps ofJoins rfl fun j rest xs => ?_
  obtain ⟨kind, source, label, condition⟩ := j
  simp only [ofJoins, bind_eq_ok, pure_eq_ok]
  constructor
  · rintro ⟨s, hs, c, hc, xs, hxs, rfl⟩
    exact ⟨_, ⟨s, c, hs, hc, rfl⟩, xs, hxs, rfl⟩
  · rintro ⟨_, ⟨s, c, hs, hc, rfl⟩, xs, hxs, rfl⟩
    exact ⟨s, hs, c, hc, xs, hxs, rfl⟩

/-- A written JOIN. -/
def JoinSql : JoinClause → Sql → Prop
  | ⟨kind, s, l, c⟩, sql => ∃ source label condition, sourceSql s = .ok source
      ∧ LabelWrites l label ∧ predicateSql true c = .ok condition
      ∧ sql = code (" " ++ kind.keyword ++ " JOIN ") ++ source ++ label ++ code " ON " ++ condition

/-- The JOINs are written one behind the other. -/
theorem joinsSql_eq_ok {xs : List JoinClause} {sql : Sql} :
    joinsSql xs = .ok sql ↔ ∃ parts, List.Forall₂ JoinSql xs parts ∧ sql = parts.flatten := by
  induction xs generalizing sql with
  | nil => simp [joinsSql]
  | cons x xs ih =>
    obtain ⟨kind, s, l, c⟩ := x
    simp only [joinsSql, bind_eq_ok, pure_eq_ok, labelSql_eq_ok, ih, List.forall₂_cons_left_iff]
    constructor
    · rintro ⟨source, hs, label, hl, condition, hc, _, ⟨parts, hparts, rfl⟩, rfl⟩
      exact ⟨_, ⟨_, parts, ⟨source, label, condition, hs, hl, hc, rfl⟩, hparts, rfl⟩, rfl⟩
    · rintro ⟨_, ⟨_, parts, ⟨source, label, condition, hs, hl, hc, rfl⟩, hparts, rfl⟩, rfl⟩
      exact ⟨source, hs, label, hl, condition, hc, _, ⟨parts, hparts, rfl⟩, rfl⟩

theorem ofWiths_eq_ok {withs : List SqlLoom.WithClause} {xs : List WithClause} :
    ofWiths withs = .ok xs ↔ List.Forall₂ (fun w x => ∃ query,
      ofSubquery w.query = .ok query ∧ x = ⟨w.name, some query⟩) withs xs := by
  refine forall₂_of_steps ofWiths rfl fun w rest xs => ?_
  obtain ⟨name, query⟩ := w
  simp only [ofWiths, bind_eq_ok, pure_eq_ok]
  constructor
  · rintro ⟨q, hq, xs, hxs, rfl⟩
    exact ⟨_, ⟨q, hq, rfl⟩, xs, hxs, rfl⟩
  · rintro ⟨_, ⟨q, hq, rfl⟩, xs, hxs, rfl⟩
    exact ⟨q, hq, xs, hxs, rfl⟩

/-- A written entry of a WITH clause. -/
def WithSql : WithClause → Sql → Prop
  | ⟨n, q⟩, sql => ∃ name query, NameWrites .selection n name ∧ subquerySql q = .ok query
      ∧ sql = name ++ code " AS " ++ query

theorem withsSql_eq_ok {xs : List WithClause} {parts : List Sql} :
    withsSql xs = .ok parts ↔ List.Forall₂ WithSql xs parts := by
  refine forall₂_of_steps withsSql rfl fun x rest parts => ?_
  obtain ⟨n, q⟩ := x
  simp only [withsSql, bind_eq_ok, pure_eq_ok, nameSql_eq_ok, WithSql]
  constructor
  · rintro ⟨query, hq, name, hn, ps, hps, rfl⟩
    exact ⟨_, ⟨name, query, hn, hq, rfl⟩, ps, hps, rfl⟩
  · rintro ⟨_, ⟨name, query, hn, hq, rfl⟩, ps, hps, rfl⟩
    exact ⟨query, hq, name, hn, ps, hps, rfl⟩

theorem ofUnions_eq_ok {unions : List SqlLoom.UnionMember} {xs : List UnionMember} :
    ofUnions unions = .ok xs ↔ List.Forall₂ (fun u x => ∃ query,
      ofSubquery u.query = .ok query ∧ x = ⟨u.operator, some query⟩) unions xs := by
  refine forall₂_of_steps ofUnions rfl fun u rest xs => ?_
  obtain ⟨operator, query⟩ := u
  simp only [ofUnions, bind_eq_ok, pure_eq_ok]
  constructor
  · rintro ⟨q, hq, xs, hxs, rfl⟩
    exact ⟨_, ⟨q, hq, rfl⟩, xs, hxs, rfl⟩
  · rintro ⟨_, ⟨q, hq, rfl⟩, xs, hxs, rfl⟩
    exact ⟨q, hq, xs, hxs, rfl⟩

/-- A written member of a UNION. -/
def UnionSql : UnionMember → Sql → Prop
  | ⟨operator, query⟩, sql => ∃ q body, query = some q ∧ selectSql q = .ok body
      ∧ sql = code (" " ++ operator.keyword ++ " ") ++ body

/-- The members of a UNION are written one behind the other. -/
theorem unionsSql_eq_ok {xs : List UnionMember} {sql : Sql} :
    unionsSql xs = .ok sql ↔ ∃ parts, List.Forall₂ UnionSql xs parts ∧ sql = parts.flatten := by
  induction xs generalizing sql with
  | nil => simp [unionsSql]
  | cons x xs ih =>
    obtain ⟨operator, query⟩ := x
    cases query with
    | none =>
      simp only [unionsSql, error_eq_ok, List.forall₂_cons_left_iff, false_iff]
      rintro ⟨_, ⟨_, _, ⟨_, _, h, -⟩, -⟩, -⟩
      exact nomatch h
    | some q =>
      simp only [unionsSql, bind_eq_ok, pure_eq_ok, ih, List.forall₂_cons_left_iff]
      constructor
      · rintro ⟨body, hbody, _, ⟨parts, hparts, rfl⟩, rfl⟩
        exact ⟨_, ⟨_, parts, ⟨q, body, rfl, hbody, rfl⟩, hparts, rfl⟩, rfl⟩
      · rintro ⟨_, ⟨_, parts, ⟨_, body, hq, hbody, rfl⟩, hparts, rfl⟩, rfl⟩
        cases hq
        exact ⟨body, hbody, _, ⟨parts, hparts, rfl⟩, rfl⟩

end Statement

/-! ## Each clause through both passes -/

theorem Expr.writes_columns {es : List Expr} {parts : List Sql} :
    (∃ xs, Statement.ofExprs es = .ok xs ∧ Statement.columnsSql xs = .ok parts)
      ↔ List.Forall₂ Expr.WritesColumn es parts := by
  simp only [Statement.ofExprs_eq_ok, Statement.columnsSql_eq_ok]
  refine forall₂_both fun e sql => ?_
  constructor
  · rintro ⟨x, hx, body, label, hbody, hlabel, rfl⟩
    rw [Statement.label_ofExpr hx] at hlabel
    exact ⟨body, label, ⟨x, hx, hbody⟩, hlabel, rfl⟩
  · rintro ⟨body, label, ⟨x, hx, hbody⟩, hlabel, rfl⟩
    rw [← Statement.label_ofExpr hx] at hlabel
    exact ⟨x, hx, body, label, hbody, hlabel, rfl⟩

theorem FromClause.writes_iff {source : Option FromClause} {sql : Sql} :
    (∃ x, Statement.ofFrom source = .ok x
        ∧ Statement.fromSql (source.bind (·.label)) x = .ok sql)
      ↔ FromWrites source sql := by
  cases source with
  | none => simp only [Statement.ofFrom, ok_eq_ok, exists_eq_left, Statement.fromSql, FromWrites]
  | some f =>
    obtain ⟨source, label⟩ := f
    simp only [Statement.ofFrom, bind_eq_ok, pure_eq_ok, FromWrites, Option.bind_some]
    constructor
    · rintro ⟨_, ⟨x, hx, rfl⟩, h⟩
      rw [Statement.fromSql] at h
      obtain ⟨s, hs, h⟩ := bind_eq_ok.mp h
      obtain ⟨l, hl, h⟩ := bind_eq_ok.mp h
      exact ⟨s, l, Source.writes_iff.mp ⟨x, hx, hs⟩, labelSql_eq_ok.mp hl,
        pure_eq_ok.mp h⟩
    · rintro ⟨s, l, hs, hl, rfl⟩
      obtain ⟨x, hx, hs⟩ := Source.writes_iff.mpr hs
      refine ⟨_, ⟨x, hx, rfl⟩, ?_⟩
      rw [Statement.fromSql, hs, labelSql_eq_ok.mpr hl]
      rfl

theorem JoinClause.writes_joins {joins : List JoinClause} {sql : Sql} :
    (∃ xs, Statement.ofJoins joins = .ok xs ∧ Statement.joinsSql xs = .ok sql)
      ↔ ∃ parts, List.Forall₂ JoinClause.Writes joins parts ∧ sql = parts.flatten := by
  have hboth : ∀ parts, (∃ xs, Statement.ofJoins joins = .ok xs
      ∧ List.Forall₂ Statement.JoinSql xs parts) ↔ List.Forall₂ JoinClause.Writes joins parts := by
    intro parts
    simp only [Statement.ofJoins_eq_ok]
    refine forall₂_both fun j sql => ?_
    constructor
    · rintro ⟨_, ⟨x, y, hx, hy, rfl⟩, source, label, condition, hs, hl, hc, rfl⟩
      exact ⟨source, label, condition, Source.writes_iff.mp ⟨x, hx, hs⟩, hl, ⟨y, hy, hc⟩, rfl⟩
    · rintro ⟨source, label, condition, hs, hl, ⟨y, hy, hc⟩, rfl⟩
      obtain ⟨x, hx, hs⟩ := Source.writes_iff.mpr hs
      exact ⟨_, ⟨x, y, hx, hy, rfl⟩, source, label, condition, hs, hl, hc, rfl⟩
  constructor
  · rintro ⟨xs, hxs, h⟩
    obtain ⟨parts, hparts, rfl⟩ := Statement.joinsSql_eq_ok.mp h
    exact ⟨parts, (hboth parts).mp ⟨xs, hxs, hparts⟩, rfl⟩
  · rintro ⟨parts, hparts, rfl⟩
    obtain ⟨xs, hxs, hparts⟩ := (hboth parts).mpr hparts
    exact ⟨xs, hxs, Statement.joinsSql_eq_ok.mpr ⟨parts, hparts, rfl⟩⟩

theorem WithClause.writes_withs {withs : List WithClause} {parts : List Sql} :
    (∃ xs, Statement.ofWiths withs = .ok xs ∧ Statement.withsSql xs = .ok parts)
      ↔ List.Forall₂ WithClause.Writes withs parts := by
  simp only [Statement.ofWiths_eq_ok, Statement.withsSql_eq_ok]
  refine forall₂_both fun w sql => ?_
  constructor
  · rintro ⟨_, ⟨x, hx, rfl⟩, name, query, hn, hq, rfl⟩
    exact ⟨name, query, hn, Subquery.writes_iff.mp ⟨x, hx, hq⟩, rfl⟩
  · rintro ⟨name, query, hn, hq, rfl⟩
    obtain ⟨x, hx, hq⟩ := Subquery.writes_iff.mpr hq
    exact ⟨_, ⟨x, hx, rfl⟩, name, query, hn, hq, rfl⟩

theorem UnionMember.writes_unions {unions : List UnionMember} {sql : Sql} :
    (∃ xs, Statement.ofUnions unions = .ok xs ∧ Statement.unionsSql xs = .ok sql)
      ↔ ∃ parts, List.Forall₂ UnionMember.Writes unions parts ∧ sql = parts.flatten := by
  have hboth : ∀ parts, (∃ xs, Statement.ofUnions unions = .ok xs
      ∧ List.Forall₂ Statement.UnionSql xs parts)
        ↔ List.Forall₂ UnionMember.Writes unions parts := by
    intro parts
    simp only [Statement.ofUnions_eq_ok]
    refine forall₂_both fun u sql => ?_
    obtain ⟨operator, ⟨select, label⟩⟩ := u
    constructor
    · rintro ⟨_, ⟨x, hx, rfl⟩, _, body, hq, hbody, rfl⟩
      cases hq
      cases select with
      | none => exact nomatch hx
      | some q => exact ⟨q, body, rfl, ⟨x, hx, hbody⟩, rfl⟩
    · rintro ⟨q, body, hq, ⟨x, hx, hbody⟩, rfl⟩
      cases hq
      exact ⟨_, ⟨x, hx, rfl⟩, x, body, rfl, hbody, rfl⟩
  constructor
  · rintro ⟨xs, hxs, h⟩
    obtain ⟨parts, hparts, rfl⟩ := Statement.unionsSql_eq_ok.mp h
    exact ⟨parts, (hboth parts).mp ⟨xs, hxs, hparts⟩, rfl⟩
  · rintro ⟨parts, hparts, rfl⟩
    obtain ⟨xs, hxs, hparts⟩ := (hboth parts).mpr hparts
    exact ⟨xs, hxs, Statement.unionsSql_eq_ok.mpr ⟨parts, hparts, rfl⟩⟩

/-- A clause has at most one condition, and that one is at the top. -/
theorem writes_clause {keyword : String} {clause : Option Predicate} {sql : Sql} :
    (∃ xs parts, Statement.ofClause clause = .ok xs
        ∧ List.Forall₂ (fun x sql => Statement.predicateSql (xs.length = 1) x = .ok sql) xs parts
        ∧ sql = Statement.clause keyword " AND " parts)
      ↔ ClauseWrites keyword clause sql := by
  cases clause with
  | none =>
    -- no conditions, and so no keyword
    simp only [Statement.ofClause, ok_eq_ok, ClauseWrites]
    constructor
    · rintro ⟨_, _, rfl, hparts, rfl⟩
      cases hparts
      rfl
    · rintro rfl
      exact ⟨[], [], rfl, .nil, rfl⟩
  | some p =>
    simp only [Statement.ofClause, bind_eq_ok, pure_eq_ok, ClauseWrites]
    constructor
    · rintro ⟨_, _, ⟨x, hx, rfl⟩, hparts, rfl⟩
      obtain ⟨body, _, hbody, hnil, rfl⟩ := List.forall₂_cons_left_iff.mp hparts
      cases hnil
      refine ⟨body, ⟨x, hx, hbody⟩, ?_⟩
      simp [Statement.clause, Sql.joined]
    · rintro ⟨body, ⟨x, hx, hbody⟩, rfl⟩
      refine ⟨[x], [body], ⟨x, hx, rfl⟩, .cons hbody .nil, ?_⟩
      simp [Statement.clause, Sql.joined]

/-- A sort key. -/
def OrderItem.Writes (item : OrderItem) (sql : Sql) : Prop :=
  ∃ name, NameWrites .selection item.column.joined name
    ∧ sql = name ++ code (" " ++ item.direction.keyword)

theorem OrderItem.writes_items {items : List OrderItem} {parts : List Sql} :
    (∃ names, List.Forall₂ (NameWrites .selection) (items.map (·.column.joined)) names
        ∧ parts = names.zipWith (fun name word => name ++ code (" " ++ word))
            (items.map (·.direction.keyword)))
      ↔ List.Forall₂ OrderItem.Writes items parts := by
  induction items generalizing parts with
  | nil => simp
  | cons item items ih =>
    simp only [List.map_cons, List.forall₂_cons_left_iff]
    constructor
    · rintro ⟨_, ⟨name, names, hname, hnames, rfl⟩, rfl⟩
      exact ⟨_, _, ⟨name, hname, rfl⟩, ih.mp ⟨names, hnames, rfl⟩, rfl⟩
    · rintro ⟨_, parts, ⟨name, hname, rfl⟩, hparts, rfl⟩
      obtain ⟨names, hnames, rfl⟩ := ih.mpr hparts
      exact ⟨name :: names, ⟨name, names, hname, hnames, rfl⟩, rfl⟩

/-! ## A SELECT -/

/-- The SQL of the clauses of a SELECT, as far as they are made of parts. -/
structure SelectClauses where
  withs : List Sql
  columns : List Sql
  source : Sql
  joins : List Sql
  prewhere : Sql
  filter : Sql
  groupBy : List Sql
  having : Sql
  orderBy : List Sql
  unions : List Sql

/-- The WITH clause, if it has an entry. -/
def withPart (withs : List Sql) : Sql :=
  if withs.isEmpty then [] else code "WITH " ++ Sql.joined ", " withs ++ code " "

/-- The select list; an empty one means all columns. -/
def columnPart (columns : List Sql) : Sql :=
  if columns.isEmpty then code "*" else Sql.joined ", " columns

/-- What follows the ORDER BY of a SELECT, up to its UNIONs. -/
def Select.tailPart (q : Select) : Sql :=
  Statement.limitSql q.limit q.offset ++ (if q.final then code " FINAL" else [])
    ++ Statement.settingsSql q.settings

/-- The clauses one after the other. -/
def Select.assemble (q : Select) (c : SelectClauses) : Sql :=
  withPart c.withs ++ code "SELECT " ++ columnPart c.columns ++ c.source ++ c.joins.flatten
    ++ c.prewhere ++ c.filter ++ Statement.clause " GROUP BY " ", " c.groupBy ++ c.having
    ++ Statement.clause " ORDER BY " ", " c.orderBy ++ q.tailPart ++ c.unions.flatten

/-- The SQL of each clause. -/
structure Select.WritesClauses (q : Select) (c : SelectClauses) : Prop where
  withs : List.Forall₂ WithClause.Writes q.withs c.withs
  columns : List.Forall₂ Expr.WritesColumn q.columns c.columns
  source : FromWrites q.source c.source
  joins : List.Forall₂ JoinClause.Writes q.joins c.joins
  prewhere : ClauseWrites " PREWHERE " q.prewhere c.prewhere
  filter : ClauseWrites " WHERE " q.filter c.filter
  groupBy : List.Forall₂ (fun c => NameWrites .selection c.joined) q.groupBy c.groupBy
  having : ClauseWrites " HAVING " q.having c.having
  orderBy : List.Forall₂ OrderItem.Writes q.orderBy c.orderBy
  unions : List.Forall₂ UnionMember.Writes q.unions c.unions

/-- The marks tell the PREWHERE conditions from the others. -/
theorem filter_marked (early : List Statement.Predicate) {filter : Option Predicate}
    {late : List Statement.Predicate} (hl : Statement.ofClause filter = .ok late) :
    (early.map Statement.Predicate.markEarly ++ late).filter (·.early)
        = early.map Statement.Predicate.markEarly
      ∧ (early.map Statement.Predicate.markEarly ++ late).filter (!·.early) = late := by
  have hunmarked : ∀ x ∈ late, x.early = false := by
    cases filter with
    | none =>
      obtain rfl := ok_eq_ok.mp hl
      exact nofun
    | some p =>
      obtain ⟨x, hx, hl⟩ := bind_eq_ok.mp hl
      obtain rfl := pure_eq_ok.mp hl
      intro y hy
      rw [List.mem_singleton.mp hy]
      exact Statement.early_ofPredicate hx
  have hmarked : ∀ x ∈ early.map Statement.Predicate.markEarly, x.early = true := by
    intro x hx
    obtain ⟨y, -, rfl⟩ := List.mem_map.mp hx
    exact Statement.Predicate.early_markEarly y
  constructor
  · rw [List.filter_append, List.filter_eq_self.mpr hmarked, List.filter_eq_nil_iff.mpr,
      List.append_nil]
    intro x hx
    rw [hunmarked x hx]
    exact Bool.false_ne_true
  · rw [List.filter_append, List.filter_eq_nil_iff.mpr, List.nil_append, List.filter_eq_self]
    · intro x hx
      rw [hunmarked x hx]
      rfl
    · intro x hx
      rw [hmarked x hx]
      exact Bool.false_ne_true

/-- Marked or not, the conditions of a clause are written the same. -/
theorem writes_marked {top : Bool} {xs : List Statement.Predicate} {parts : List Sql} :
    List.Forall₂ (fun x sql => Statement.predicateSql top x = .ok sql)
        (xs.map Statement.Predicate.markEarly) parts
      ↔ List.Forall₂ (fun x sql => Statement.predicateSql top x = .ok sql) xs parts := by
  simp only [List.forall₂_map_left_iff, Statement.predicateSql_markEarly]

/-- **A SELECT is written clause by clause.** -/
theorem Select.writes_iff {q : Select} {sql : Sql} :
    q.Writes sql ↔ ∃ c, q.WritesClauses c ∧ sql = q.assemble c := by
  obtain ⟨columns, source, joins, withs, prewhere, filter, groupBy, having, orderBy, limit, offset,
    final, settings, format, unions, recorded⟩ := q
  have hkeys : (orderBy.map fun item =>
      (⟨item.column.joined, item.direction⟩ : Statement.OrderItem)).map (·.column)
        = orderBy.map (·.column.joined) := List.map_map
  have hwords : (orderBy.map fun item =>
      (⟨item.column.joined, item.direction⟩ : Statement.OrderItem)).map (·.direction.keyword)
        = orderBy.map (·.direction.keyword) := List.map_map
  simp only [Writes, Statement.ofSelect, bind_eq_ok, pure_eq_ok]
  constructor
  · rintro ⟨_, ⟨ws, hws, cs, hcs, t, ht, js, hjs, es, hes, ls, hls, hs, hhs, us, hus, rfl⟩, h⟩
    -- the two conditions share a list in the statement; the marks take them apart again
    obtain ⟨hearly, hlate⟩ := filter_marked es hls
    simp only [Statement.selectSql, bind_eq_ok, pure_eq_ok, Statement.predicatesSql_eq_ok,
      namesSql_eq_ok, hearly, hlate, List.filter_true, List.length_map, writes_marked, hkeys,
      hwords] at h
    obtain ⟨withParts, hwp, columnParts, hcp, sourcePart, hsp, joinPart, hjp, earlyParts, hep,
      lateParts, hlp, groupParts, hgp, havingParts, hhp, orderNames, hon, unionPart, hup, rfl⟩ := h
    obtain ⟨joinParts, hjoins, rfl⟩ := JoinClause.writes_joins.mp ⟨js, hjs, hjp⟩
    obtain ⟨unionParts, hunions, rfl⟩ := UnionMember.writes_unions.mp ⟨us, hus, hup⟩
    refine ⟨
      { withs := withParts
        columns := columnParts
        source := sourcePart
        joins := joinParts
        prewhere := Statement.clause " PREWHERE " " AND " earlyParts
        filter := Statement.clause " WHERE " " AND " lateParts
        groupBy := groupParts
        having := Statement.clause " HAVING " " AND " havingParts
        orderBy := orderNames.zipWith (fun name word => name ++ code (" " ++ word))
          (orderBy.map (·.direction.keyword))
        unions := unionParts },
      { withs := WithClause.writes_withs.mp ⟨ws, hws, hwp⟩
        columns := Expr.writes_columns.mp ⟨cs, hcs, hcp⟩
        source := FromClause.writes_iff.mp ⟨t, ht, hsp⟩
        joins := hjoins
        prewhere := writes_clause.mp ⟨es, earlyParts, hes, hep, rfl⟩
        filter := writes_clause.mp ⟨ls, lateParts, hls, hlp, rfl⟩
        groupBy := List.forall₂_map_left_iff.mp hgp
        having := writes_clause.mp ⟨hs, havingParts, hhs, hhp, rfl⟩
        orderBy := OrderItem.writes_items.mp ⟨orderNames, hon, rfl⟩
        unions := hunions }, ?_⟩
    simp only [assemble, withPart, columnPart, tailPart, List.append_assoc]
  · rintro ⟨⟨withParts, columnParts, sourcePart, joinParts, early, late, groupParts, havingPart,
      orderParts, unionParts⟩, h, rfl⟩
    obtain ⟨ws, hws, hwp⟩ := WithClause.writes_withs.mpr h.withs
    obtain ⟨cs, hcs, hcp⟩ := Expr.writes_columns.mpr h.columns
    obtain ⟨t, ht, hsp⟩ := FromClause.writes_iff.mpr h.source
    obtain ⟨js, hjs, hjp⟩ := JoinClause.writes_joins.mpr ⟨joinParts, h.joins, rfl⟩
    obtain ⟨es, earlyParts, hes, hep, rfl⟩ := writes_clause.mpr h.prewhere
    obtain ⟨ls, lateParts, hls, hlp, rfl⟩ := writes_clause.mpr h.filter
    obtain ⟨hs, havingParts, hhs, hhp, rfl⟩ := writes_clause.mpr h.having
    obtain ⟨orderNames, hon, rfl⟩ := OrderItem.writes_items.mpr h.orderBy
    obtain ⟨us, hus, hup⟩ := UnionMember.writes_unions.mpr ⟨unionParts, h.unions, rfl⟩
    refine ⟨_, ⟨ws, hws, cs, hcs, t, ht, js, hjs, es, hes, ls, hls, hs, hhs, us, hus, rfl⟩, ?_⟩
    obtain ⟨hearly, hlate⟩ := filter_marked es hls
    simp only [Statement.selectSql, bind_eq_ok, pure_eq_ok, Statement.predicatesSql_eq_ok,
      namesSql_eq_ok, hearly, hlate, List.filter_true, List.length_map, writes_marked, hkeys,
      hwords]
    refine ⟨withParts, hwp, columnParts, hcp, sourcePart, hsp, _, hjp, earlyParts, hep,
      lateParts, hlp, groupParts, List.forall₂_map_left_iff.mpr h.groupBy, havingParts, hhp,
      orderNames, hon, _, hup, ?_⟩
    simp only [assemble, withPart, columnPart, tailPart, List.append_assoc]

/-! ## Whole queries -/

/-- An assignment of an UPDATE. -/
def AssignmentWrites (entry : String × Value) (sql : Sql) : Prop :=
  ∃ name, NameWrites .selection entry.1 name ∧ sql = Statement.assignmentSql name entry.2

theorem assignmentsSql_eq_ok {assignments : Record} {parts : List Sql} :
    Statement.assignmentsSql assignments = .ok parts
      ↔ List.Forall₂ AssignmentWrites assignments parts := by
  refine forall₂_of_steps Statement.assignmentsSql rfl fun entry rest parts => ?_
  obtain ⟨key, v⟩ := entry
  simp only [Statement.assignmentsSql, bind_eq_ok, pure_eq_ok, nameSql_eq_ok, AssignmentWrites]
  constructor
  · rintro ⟨name, hname, ps, hps, rfl⟩
    exact ⟨_, ⟨name, hname, rfl⟩, ps, hps, rfl⟩
  · rintro ⟨_, ⟨name, hname, rfl⟩, ps, hps, rfl⟩
    exact ⟨name, hname, ps, hps, rfl⟩

/-- The column list of an INSERT, if it has one. -/
def insertColumnPart (columns : List Sql) : Sql :=
  if columns.isEmpty then [] else code " " ++ (Sql.joined ", " columns).inParens

/-- The SQL of a query. -/
def Query.Writes : Query → Sql → Prop
  | .select q, sql => q.Writes sql
  | .insert q, sql => ∃ table columns, NameWrites .selection q.table table
      ∧ List.Forall₂ (NameWrites .selection) q.columns columns
      ∧ sql = code "INSERT INTO " ++ table ++ insertColumnPart columns ++ code " VALUES"
          ++ Statement.clause " " ", " (q.rows.map Value.tupleLiteral)
  | .update q, sql => ∃ table assignments filter, NameWrites .selection q.table table
      ∧ List.Forall₂ AssignmentWrites q.assignments assignments
      ∧ ClauseWrites " WHERE " q.filter filter
      ∧ sql = code "ALTER TABLE " ++ table ++ code " UPDATE"
          ++ Statement.clause " " ", " assignments ++ filter ++ Statement.settingsSql q.settings
  | .delete q, sql => ∃ table filter, NameWrites .selection q.table table
      ∧ ClauseWrites " WHERE " q.filter filter
      ∧ sql = code "ALTER TABLE " ++ table ++ code " DELETE" ++ filter
          ++ Statement.settingsSql q.settings

/-- The WHERE clause of a change, through both passes. -/
theorem writes_filter {filter : Option Predicate} {sql : Sql} :
    (∃ xs, Statement.ofClause filter = .ok xs ∧ Statement.filterSql xs = .ok sql)
      ↔ ClauseWrites " WHERE " filter sql := by
  rw [← writes_clause]
  simp only [Statement.filterSql, bind_eq_ok, pure_eq_ok, Statement.predicatesSql_eq_ok,
    List.filter_true]
  constructor
  · rintro ⟨xs, hxs, parts, hparts, rfl⟩
    exact ⟨xs, parts, hxs, hparts, rfl⟩
  · rintro ⟨xs, parts, hxs, hparts, rfl⟩
    exact ⟨xs, hxs, parts, hparts, rfl⟩

namespace Query

/-- A query that has a statement which can be written. -/
theorem writes_iff {q : Query} {sql : Sql} :
    (∃ s, Statement.ofQuery q = .ok s ∧ s.toSql = .ok sql) ↔ q.Writes sql := by
  cases q with
  | select q =>
    have hkind : ∀ s, Statement.ofSelect q = .ok s → s.toSql = Statement.selectSql s := by
      intro s hs
      obtain ⟨columns, source, joins, withs, prewhere, filter, groupBy, having, orderBy, limit,
        offset, final, settings, format, unions, recorded⟩ := q
      simp only [Statement.ofSelect, bind_eq_ok, pure_eq_ok] at hs
      obtain ⟨ws, hws, cs, hcs, t, ht, js, hjs, es, hes, ls, hls, hs, hhs, us, hus, rfl⟩ := hs
      rfl
    constructor
    · rintro ⟨s, hs, h⟩
      rw [hkind s hs] at h
      exact ⟨s, hs, h⟩
    · rintro ⟨s, hs, h⟩
      exact ⟨s, hs, (hkind s hs).trans h⟩
  | insert q =>
    simp only [Statement.ofQuery, ok_eq_ok, exists_eq_left, Statement.ofInsert, Statement.toSql,
      Statement.empty, Statement.insertSql, Statement.targetSql, Option.getD_some,
      Statement.sourceSql, bind_eq_ok, pure_eq_ok, nameSql_eq_ok, namesSql_eq_ok, Writes]
    constructor
    · rintro ⟨table, ht, columns, hc, rfl⟩
      exact ⟨table, columns, ht, hc, rfl⟩
    · rintro ⟨table, columns, ht, hc, rfl⟩
      exact ⟨table, ht, columns, hc, rfl⟩
  | update q =>
    simp only [Statement.ofQuery, Statement.ofUpdate, bind_eq_ok, pure_eq_ok, Writes]
    constructor
    · rintro ⟨_, ⟨xs, hxs, rfl⟩, h⟩
      simp only [Statement.toSql, Statement.empty, Statement.updateSql, Statement.targetSql,
        Option.getD_some, Statement.sourceSql, bind_eq_ok, pure_eq_ok, nameSql_eq_ok,
        assignmentsSql_eq_ok] at h
      obtain ⟨table, ht, assignments, ha, filter, hf, rfl⟩ := h
      exact ⟨table, assignments, filter, ht, ha, writes_filter.mp ⟨xs, hxs, hf⟩, rfl⟩
    · rintro ⟨table, assignments, filter, ht, ha, hf, rfl⟩
      obtain ⟨xs, hxs, hf⟩ := writes_filter.mpr hf
      refine ⟨_, ⟨xs, hxs, rfl⟩, ?_⟩
      simp only [Statement.toSql, Statement.empty, Statement.updateSql, Statement.targetSql,
        Option.getD_some, Statement.sourceSql, bind_eq_ok, pure_eq_ok, nameSql_eq_ok,
        assignmentsSql_eq_ok]
      exact ⟨table, ht, assignments, ha, filter, hf, rfl⟩
  | delete q =>
    simp only [Statement.ofQuery, Statement.ofDelete, bind_eq_ok, pure_eq_ok, Writes]
    constructor
    · rintro ⟨_, ⟨xs, hxs, rfl⟩, h⟩
      simp only [Statement.toSql, Statement.empty, Statement.deleteSql, Statement.targetSql,
        Option.getD_some, Statement.sourceSql, bind_eq_ok, pure_eq_ok, nameSql_eq_ok] at h
      obtain ⟨table, ht, filter, hf, rfl⟩ := h
      exact ⟨table, filter, ht, writes_filter.mp ⟨xs, hxs, hf⟩, rfl⟩
    · rintro ⟨table, filter, ht, hf, rfl⟩
      obtain ⟨xs, hxs, hf⟩ := writes_filter.mpr hf
      refine ⟨_, ⟨xs, hxs, rfl⟩, ?_⟩
      simp only [Statement.toSql, Statement.empty, Statement.deleteSql, Statement.targetSql,
        Option.getD_some, Statement.sourceSql, bind_eq_ok, pure_eq_ok, nameSql_eq_ok]
      exact ⟨table, ht, filter, hf, rfl⟩

/-- The report about a query is that of the check, to which the step to a statement adds its own. -/
theorem report_eq (q : Query) :
    q.report = q.findings.report.merge (Statement.stepReport (Statement.ofQuery q)) := rfl

theorem inStep_stepReport (step : Except Statement.Unsupported Statement) :
    (Statement.stepReport step).InStep := by
  cases step with
  | ok s => exact Report.inStep_empty
  | error f => exact Report.InStep.addError _

/-- The report about a query is valid exactly when it has no error. -/
theorem inStep_report (q : Query) : q.report.InStep :=
  q.inStep_findings.merge _ _

/-- The report is valid when the check has nothing against the query and there is a statement. -/
theorem valid_report_iff {q : Query} :
    q.report.valid = true ↔ q.findings.clean = true ∧ Succeeds (Statement.ofQuery q) := by
  have hstep : (Statement.stepReport (Statement.ofQuery q)).valid = true
      ↔ Succeeds (Statement.ofQuery q) := by
    cases Statement.ofQuery q with
    | error f =>
      exact ⟨fun h => absurd h Bool.false_ne_true, fun h => absurd h (not_succeeds_error f)⟩
    | ok s => exact ⟨fun _ => succeeds_ok s, fun _ => rfl⟩
  rw [report_eq, Report.valid_merge _ (inStep_stepReport _), Bool.and_eq_true,
    valid_report_findings, hstep]

/-- A query with a valid report is taken on as its statement. -/
theorem accepted_of_valid {q : Query} {s : Statement} (h : q.report.valid = true)
    (hs : Statement.ofQuery q = .ok s) : q.checked.accepted = .ok s := by
  have hstatement : Statement.orEmpty q.checked.statement = s := by
    show Statement.orEmpty (Statement.ofQuery q) = s
    rw [hs]
    rfl
  exact (if_pos h).trans (congrArg Except.ok hstatement)

/-- Any other one is refused, and the fault carries the whole report. -/
theorem accepted_of_not_valid {q : Query} (h : q.report.valid = false) :
    q.checked.accepted = .error (.invalid q.report) :=
  if_neg (Bool.not_eq_true _ ▸ h)

/-- What is accepted of a clean query is its statement. -/
theorem accepted_iff {q : Query} {s : Statement} :
    q.checked.accepted = .ok s ↔ q.findings.clean = true ∧ Statement.ofQuery q = .ok s := by
  constructor
  · intro h
    cases hvalid : q.report.valid with
    | false => exact (error_eq_ok.mp ((accepted_of_not_valid hvalid).symm.trans h)).elim
    | true =>
      obtain ⟨hclean, s', hs⟩ := valid_report_iff.mp hvalid
      obtain rfl := Except.ok.inj ((accepted_of_valid hvalid hs).symm.trans h)
      exact ⟨hclean, hs⟩
  · rintro ⟨hclean, hs⟩
    exact accepted_of_valid (valid_report_iff.mpr ⟨hclean, s, hs⟩) hs

/-- **A query compiles exactly when it is clean and something is written for it.** -/
theorem compile_iff {q : Query} {sql : Sql} :
    q.compile = .ok sql ↔ q.findings.clean = true ∧ q.Writes sql := by
  rw [← writes_iff]
  simp only [compile, Checked.compile, bind_eq_ok, mapError_eq_ok, accepted_iff, and_assoc,
    exists_and_left]

/-- The text of a query is the text of its SQL. -/
theorem toSql_eq_ok {q : Query} {text : String} :
    q.toSql = .ok text ↔ ∃ sql, q.compile = .ok sql ∧ text = sql.text := by
  rw [toSql, mapError_eq_ok, map_eq_ok]

/-- A query with a report that is not valid is refused with the errors of the report in one line. -/
theorem toSql_of_not_valid {q : Query} (h : q.report.valid = false) :
    q.toSql = .error (.invalid ("Query validation failed: " ++ q.report.summary) "query" none) := by
  show ((q.checked.accepted >>= _).map Sql.text).mapError _ = _
  rw [accepted_of_not_valid h]
  rfl

end Query

end SqlLoom
