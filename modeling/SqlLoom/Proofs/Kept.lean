/-
  What the step to a statement keeps of a SELECT: all that is not listed here.

  1. THE PLAIN FORM of a query (`Select.plain`) is the query with everything erased that a statement
     has no place for, at every depth:

       * how a column is split into table and name: only the joined text stays;
       * aliases at the two sides of a test, of group and sort columns, and of subqueries that are
         sources, WITH queries, members of a UNION or sides of a test;
       * whether the right side of a test is written as an array or as a tuple;
       * the output format, and what was recorded while the query was put together.

  2. THE WAY BACK (`Statement.toSelect`) reads a SELECT off a statement.  The conditions of PREWHERE
     and WHERE stand in one list there, and their marks tell them apart.
  3. BOTH TOGETHER.  The step followed by the way back is the plain form (`Statement.toSelect_of`),
     and the step takes a query and its plain form to the same statement (`Statement.ofSelect_plain`).
     So two queries have the same statement exactly when they have the same plain form.

  Both facts are inductions along the step: each form of the tree has one case, and each list or
  option of parts one lemma.
-/
import SqlLoom.Proofs.Written.Query

namespace SqlLoom

open Outcome

/-! ## The plain form -/

/-- The column as one text, with its alias. -/
def Column.plain (c : Column) : Column :=
  { name := c.joined, label := c.label }

/-- The column as one text, without its alias. -/
def Column.bare (c : Column) : Column :=
  { name := c.joined }

/-- The left side of a test without its alias.  Only columns stand there in a statement. -/
def Expr.bareLeft : Expr → Expr
  | .column c => .column c.bare
  | e => e

mutual

/-- An expression anywhere but at the side of a test. -/
def Expr.plain : Expr → Expr
  | .column c => .column c.plain
  | .value v label => .value v label
  | .array items label => .array items label
  | .tuple items label => .tuple items label
  | .subquery ⟨select, label⟩ => .subquery ⟨plainQuery select, label⟩
  | .raw sql label => .raw sql label
  | .call function args label => .call function (plainExprs args) label
  | .cases branches otherwise label => .cases (plainBranches branches) (plainResult otherwise) label

/-- An expression at the right side of a test. -/
def Expr.bare : Expr → Expr
  | .column c => .column c.bare
  | .value v _ => .value v none
  | .array items _ => .tuple items none
  | .tuple items _ => .tuple items none
  | .subquery s => .subquery s.bare
  | .raw sql label => .raw sql label
  | .call function args label => .call function args label
  | .cases branches otherwise label => .cases branches otherwise label

/-- Several expressions. -/
def plainExprs : List Expr → List Expr
  | [] => []
  | e :: rest => e.plain :: plainExprs rest

/-- A result or an ELSE part. -/
def plainResult : Option Expr → Option Expr
  | none => none
  | some e => some e.plain

/-- The branches of a CASE. -/
def plainBranches : List Branch → List Branch
  | [] => []
  | ⟨condition, result⟩ :: rest => ⟨plainClause condition, plainResult result⟩ :: plainBranches rest

/-- A condition, with the mark of an AND. -/
def Predicate.plain : Predicate → Predicate
  | .compare left operator right => .compare left.bareLeft operator right.bare
  | .and children grouped => .and (plainPredicates children) grouped
  | .or children => .or (plainPredicates children)
  | .not child => .not (plainClause child)
  | .raw sql => .raw sql

/-- Several conditions. -/
def plainPredicates : List Predicate → List Predicate
  | [] => []
  | p :: rest => p.plain :: plainPredicates rest

/-- A condition that may be missing. -/
def plainClause : Option Predicate → Option Predicate
  | none => none
  | some p => some p.plain

/-- A subquery without its alias. -/
def Subquery.bare : Subquery → Subquery
  | ⟨select, _⟩ => ⟨plainQuery select, none⟩

/-- The query of a subquery. -/
def plainQuery : Option Select → Option Select
  | none => none
  | some q => some q.plain

/-- A source of rows. -/
def Source.plain : Source → Source
  | .table name => .table name
  | .subquery s => .subquery s.bare

/-- A FROM clause that may be missing. -/
def plainFrom : Option FromClause → Option FromClause
  | none => none
  | some ⟨source, label⟩ => some ⟨source.plain, label⟩

/-- JOIN clauses. -/
def plainJoins : List JoinClause → List JoinClause
  | [] => []
  | ⟨kind, source, label, condition⟩ :: rest =>
    ⟨kind, source.plain, label, condition.plain⟩ :: plainJoins rest

/-- WITH clauses. -/
def plainWiths : List WithClause → List WithClause
  | [] => []
  | ⟨name, query⟩ :: rest => ⟨name, query.bare⟩ :: plainWiths rest

/-- The members of a UNION. -/
def plainUnions : List UnionMember → List UnionMember
  | [] => []
  | ⟨operator, query⟩ :: rest => ⟨operator, query.bare⟩ :: plainUnions rest

/-- A SELECT. -/
def Select.plain : Select → Select
  | ⟨columns, source, joins, withs, prewhere, filter, groupBy, having, orderBy, limit, offset,
      final, settings, _, unions, _⟩ =>
    { columns := plainExprs columns
      source := plainFrom source
      joins := plainJoins joins
      withs := plainWiths withs
      prewhere := plainClause prewhere
      filter := plainClause filter
      groupBy := groupBy.map Column.bare
      having := plainClause having
      orderBy := orderBy.map fun item => ⟨item.column.bare, item.direction⟩
      limit
      offset
      final
      settings
      format := none
      unions := plainUnions unions
      recorded := [] }

end

theorem plainExprs_eq_map (es : List Expr) : plainExprs es = es.map (·.plain) := by
  induction es with
  | nil => rfl
  | cons e es ih => rw [plainExprs, ih, List.map_cons]

theorem plainClause_eq_map (clause : Option Predicate) : plainClause clause = clause.map (·.plain) := by
  cases clause <;> rfl

/-- The alias of an expression stays. -/
theorem Expr.label_comp_plain : Expr.label ∘ Expr.plain = Expr.label := by
  funext e
  cases e with
  | subquery s => cases s; rfl
  | _ => rfl

/-- A SELECT in its plain form, clause by clause. -/
theorem Select.plain_eq (q : Select) :
    q.plain =
      { columns := q.columns.map (·.plain)
        source := plainFrom q.source
        joins := plainJoins q.joins
        withs := plainWiths q.withs
        prewhere := q.prewhere.map (·.plain)
        filter := q.filter.map (·.plain)
        groupBy := q.groupBy.map Column.bare
        having := q.having.map (·.plain)
        orderBy := q.orderBy.map fun item => ⟨item.column.bare, item.direction⟩
        limit := q.limit
        offset := q.offset
        final := q.final
        settings := q.settings
        format := none
        unions := plainUnions q.unions
        recorded := [] } := by
  cases q
  simp only [plain, plainExprs_eq_map, plainClause_eq_map]

/-! ## The way back -/

namespace Statement

mutual

/-- The expression of a statement, as a query has it. -/
def Expr.toExpr : Expr → SqlLoom.Expr
  | .column name label => .column { name, label }
  | .value v label => .value v label
  | .array items label => .array items label
  | .tuple items label => .tuple items label
  | .subquery query label => .subquery ⟨toQuery query, label⟩
  | .raw sql label => .raw sql label
  | .call function args label => .call function (toExprs args) label
  | .cases branches otherwise label => .cases (toBranches branches) (toResult otherwise) label

/-- Several expressions. -/
def toExprs : List Expr → List SqlLoom.Expr
  | [] => []
  | x :: rest => x.toExpr :: toExprs rest

/-- A result or an ELSE part. -/
def toResult : Option Expr → Option SqlLoom.Expr
  | none => none
  | some x => some x.toExpr

/-- The branches of a CASE. -/
def toBranches : List Branch → List SqlLoom.Branch
  | [] => []
  | ⟨condition, result⟩ :: rest => ⟨toNegand condition, toResult result⟩ :: toBranches rest

/-- A condition, whatever its mark. -/
def Predicate.toPredicate : Predicate → SqlLoom.Predicate
  | .compare left operator right _ => .compare (.column { name := left }) operator right.toExpr
  | .and children grouped _ => .and (toPredicates children) grouped
  | .or children _ => .or (toPredicates children)
  | .not child _ => .not (toNegand child)
  | .raw sql _ => .raw sql

/-- Several conditions. -/
def toPredicates : List Predicate → List SqlLoom.Predicate
  | [] => []
  | x :: rest => x.toPredicate :: toPredicates rest

/-- The operand of NOT, or the condition of a branch. -/
def toNegand : Option Predicate → Option SqlLoom.Predicate
  | none => none
  | some x => some x.toPredicate

/-- The first condition with the given mark. -/
def toClause (early : Bool) : List Predicate → Option SqlLoom.Predicate
  | [] => none
  | x :: rest => if x.early = early then some x.toPredicate else toClause early rest

/-- The right side of a test. -/
def Operand.toExpr : Operand → SqlLoom.Expr
  | .value v => .value v none
  | .list items => .tuple items none
  | .column name => .column { name }
  | .subquery query => .subquery ⟨toQuery query, none⟩

/-- The query of a subquery. -/
def toQuery : Option Statement → Option Select
  | none => none
  | some s => some s.toSelect

/-- A source of rows. -/
def Source.toSource : Source → SqlLoom.Source
  | .table name => .table name
  | .subquery query => .subquery ⟨toQuery query, none⟩

/-- A FROM clause, with the alias that is kept beside it. -/
def toFrom (label : Option String) : Option Source → Option FromClause
  | none => none
  | some x => some ⟨x.toSource, label⟩

/-- JOIN clauses. -/
def toJoins : List JoinClause → List SqlLoom.JoinClause
  | [] => []
  | ⟨kind, source, label, condition⟩ :: rest =>
    ⟨kind, source.toSource, label, condition.toPredicate⟩ :: toJoins rest

/-- WITH clauses. -/
def toWiths : List WithClause → List SqlLoom.WithClause
  | [] => []
  | ⟨name, query⟩ :: rest => ⟨name, ⟨toQuery query, none⟩⟩ :: toWiths rest

/-- The members of a UNION. -/
def toUnions : List UnionMember → List SqlLoom.UnionMember
  | [] => []
  | ⟨operator, query⟩ :: rest => ⟨operator, ⟨toQuery query, none⟩⟩ :: toUnions rest

/-- The SELECT that a statement is about. -/
def toSelect : Statement → Select
  | ⟨_, table, tableLabel, columns, predicates, joins, withs, groupBy, having, orderBy, limit,
      offset, final, settings, unions, _, _, _⟩ =>
    { columns := toExprs columns
      source := toFrom tableLabel table
      joins := toJoins joins
      withs := toWiths withs
      prewhere := toClause true predicates
      filter := toClause false predicates
      groupBy := groupBy.map fun name => { name }
      having := toClause false having
      orderBy := orderBy.map fun item => ⟨{ name := item.column }, item.direction⟩
      limit
      offset
      final
      settings
      format := none
      unions := toUnions unions
      recorded := [] }

end

/-! ## Marks -/

theorem toPredicate_markEarly (x : Predicate) : x.markEarly.toPredicate = x.toPredicate := by
  cases x <;> rfl

/-- The step marks no condition of a clause. -/
theorem early_of_mem_ofClause {clause : Option SqlLoom.Predicate} {xs : List Predicate}
    (h : ofClause clause = .ok xs) : ∀ x ∈ xs, x.early = false := by
  cases clause with
  | none =>
    obtain rfl := ok_eq_ok.mp h
    exact nofun
  | some p =>
    simp only [ofClause, bind_eq_ok, pure_eq_ok] at h
    obtain ⟨x, hx, rfl⟩ := h
    exact List.forall_mem_singleton.mpr (early_ofPredicate hx)

theorem toClause_true_of_unmarked {xs : List Predicate} (h : ∀ x ∈ xs, x.early = false) :
    toClause true xs = none := by
  induction xs with
  | nil => rfl
  | cons x xs ih =>
    obtain ⟨hx, hxs⟩ := List.forall_mem_cons.mp h
    rw [toClause, hx, if_neg Bool.false_ne_true, ih hxs]

/-- **The marks tell the two conditions apart.**  Of a list with marked conditions in front, the first
    marked condition is the first of those, and the first unmarked one is the first of the rest. -/
theorem toClause_marked {es ls : List Predicate} (hes : ∀ x ∈ es, x.early = false)
    (hls : ∀ x ∈ ls, x.early = false) :
    toClause true (es.map Predicate.markEarly ++ ls) = toClause false es
      ∧ toClause false (es.map Predicate.markEarly ++ ls) = toClause false ls := by
  induction es with
  | nil => exact ⟨toClause_true_of_unmarked hls, rfl⟩
  | cons x es ih =>
    obtain ⟨hx, hes⟩ := List.forall_mem_cons.mp hes
    rw [List.map_cons, List.cons_append, toClause, toClause, toClause, Predicate.early_markEarly, hx,
      if_pos rfl, if_pos rfl, if_neg Bool.false_ne_true.symm, toPredicate_markEarly]
    exact ⟨rfl, (ih hes).2⟩

/-! ## The step and the way back -/

mutual

theorem toExpr_of : ∀ (e : SqlLoom.Expr) (x : Expr), ofExpr e = .ok x → x.toExpr = e.plain
  | .column c, x, h => by
    obtain rfl := ok_eq_ok.mp h
    rfl
  | .value v label, x, h => by
    obtain rfl := ok_eq_ok.mp h
    rfl
  | .array items label, x, h => by
    obtain rfl := ok_eq_ok.mp h
    rfl
  | .tuple items label, x, h => by
    obtain rfl := ok_eq_ok.mp h
    rfl
  | .subquery ⟨select, label⟩, x, h => by
    simp only [ofExpr, bind_eq_ok, pure_eq_ok] at h
    obtain ⟨s, hs, rfl⟩ := h
    rw [Expr.toExpr, Expr.plain, toQuery_of ⟨select, label⟩ s hs]
  | .raw sql label, x, h => by
    obtain rfl := ok_eq_ok.mp h
    rfl
  | .call function args label, x, h => by
    simp only [ofExpr, bind_eq_ok, pure_eq_ok] at h
    obtain ⟨xs, hxs, rfl⟩ := h
    rw [Expr.toExpr, Expr.plain, toExprs_of args xs hxs]
  | .cases branches otherwise label, x, h => by
    simp only [ofExpr, bind_eq_ok, pure_eq_ok] at h
    obtain ⟨bs, hbs, o, ho, rfl⟩ := h
    rw [Expr.toExpr, Expr.plain, toBranches_of branches bs hbs, toResult_of otherwise o ho]

theorem toExprs_of :
    ∀ (es : List SqlLoom.Expr) (xs : List Expr), ofExprs es = .ok xs → toExprs xs = plainExprs es
  | [], xs, h => by
    obtain rfl := ok_eq_ok.mp h
    rfl
  | e :: es, xs, h => by
    simp only [ofExprs, bind_eq_ok, pure_eq_ok] at h
    obtain ⟨x, hx, xs, hxs, rfl⟩ := h
    rw [toExprs, plainExprs, toExpr_of e x hx, toExprs_of es xs hxs]

theorem toResult_of : ∀ (otherwise : Option SqlLoom.Expr) (x : Option Expr),
    ofOtherwise otherwise = .ok x → toResult x = plainResult otherwise
  | none, x, h => by
    obtain rfl := ok_eq_ok.mp h
    rfl
  | some e, x, h => by
    simp only [ofOtherwise, bind_eq_ok, pure_eq_ok] at h
    obtain ⟨y, hy, rfl⟩ := h
    rw [toResult, plainResult, toExpr_of e y hy]

theorem toBranches_of : ∀ (bs : List SqlLoom.Branch) (xs : List Branch),
    ofBranches bs = .ok xs → toBranches xs = plainBranches bs
  | [], xs, h => by
    obtain rfl := ok_eq_ok.mp h
    rfl
  | ⟨some p, some e⟩ :: bs, xs, h => by
    simp only [ofBranches, ofBranch, bind_eq_ok, pure_eq_ok] at h
    obtain ⟨_, ⟨c, hc, r, hr, rfl⟩, xs, hxs, rfl⟩ := h
    rw [toBranches, plainBranches, plainClause, plainResult, toNegand, toResult,
      toPredicate_of p c hc, toExpr_of e r hr, toBranches_of bs xs hxs]
  | ⟨none, _⟩ :: _, _, h => nomatch h
  | ⟨some _, none⟩ :: _, _, h => nomatch h

theorem toPredicate_of :
    ∀ (p : SqlLoom.Predicate) (x : Predicate), ofPredicate p = .ok x → x.toPredicate = p.plain
  | .compare left operator right, x, h => by
    cases left with
    | column c =>
      simp only [ofPredicate, bind_eq_ok, pure_eq_ok] at h
      obtain ⟨y, hy, rfl⟩ := h
      rw [Predicate.toPredicate, Predicate.plain, toOperand_of right y hy]
      rfl
    | _ => exact nomatch h
  | .and children grouped, x, h => by
    simp only [ofPredicate, bind_eq_ok, pure_eq_ok] at h
    obtain ⟨xs, hxs, rfl⟩ := h
    rw [Predicate.toPredicate, Predicate.plain, toPredicates_of children xs hxs]
  | .or children, x, h => by
    simp only [ofPredicate, bind_eq_ok, pure_eq_ok] at h
    obtain ⟨xs, hxs, rfl⟩ := h
    rw [Predicate.toPredicate, Predicate.plain, toPredicates_of children xs hxs]
  | .not (some p), x, h => by
    simp only [ofPredicate, bind_eq_ok, pure_eq_ok] at h
    obtain ⟨y, hy, rfl⟩ := h
    rw [Predicate.toPredicate, toNegand, Predicate.plain, plainClause, toPredicate_of p y hy]
  | .not none, _, h => nomatch h
  | .raw sql, x, h => by
    obtain rfl := ok_eq_ok.mp h
    rfl

theorem toPredicates_of : ∀ (ps : List SqlLoom.Predicate) (xs : List Predicate),
    ofPredicates ps = .ok xs → toPredicates xs = plainPredicates ps
  | [], xs, h => by
    obtain rfl := ok_eq_ok.mp h
    rfl
  | p :: ps, xs, h => by
    simp only [ofPredicates, bind_eq_ok, pure_eq_ok] at h
    obtain ⟨x, hx, xs, hxs, rfl⟩ := h
    rw [toPredicates, plainPredicates, toPredicate_of p x hx, toPredicates_of ps xs hxs]

/-- A clause has at most one condition, and it has no mark. -/
theorem toClause_of : ∀ (clause : Option SqlLoom.Predicate) (xs : List Predicate),
    ofClause clause = .ok xs → toClause false xs = plainClause clause
  | none, xs, h => by
    obtain rfl := ok_eq_ok.mp h
    rfl
  | some p, xs, h => by
    simp only [ofClause, bind_eq_ok, pure_eq_ok] at h
    obtain ⟨x, hx, rfl⟩ := h
    rw [toClause, early_ofPredicate hx, if_pos rfl, plainClause, toPredicate_of p x hx]

theorem toOperand_of :
    ∀ (e : SqlLoom.Expr) (x : Operand), ofOperand e = .ok x → x.toExpr = e.bare
  | .column c, x, h => by
    obtain rfl := ok_eq_ok.mp h
    rfl
  | .value v label, x, h => by
    obtain rfl := ok_eq_ok.mp h
    rfl
  | .array items label, x, h => by
    obtain rfl := ok_eq_ok.mp h
    rfl
  | .tuple items label, x, h => by
    obtain rfl := ok_eq_ok.mp h
    rfl
  | .subquery ⟨select, label⟩, x, h => by
    simp only [ofOperand, bind_eq_ok, pure_eq_ok] at h
    obtain ⟨s, hs, rfl⟩ := h
    rw [Operand.toExpr, Expr.bare, Subquery.bare, toQuery_of ⟨select, label⟩ s hs]
  | .raw _ _, _, h => nomatch h
  | .call _ _ _, _, h => nomatch h
  | .cases _ _ _, _, h => nomatch h

theorem toQuery_of : ∀ (s : Subquery) (x : Statement),
    ofSubquery s = .ok x → toQuery (some x) = plainQuery s.select
  | ⟨some q, _⟩, x, h => by rw [toQuery, plainQuery, toSelect_of q x h]
  | ⟨none, _⟩, _, h => nomatch h

theorem toSource_of : ∀ (s : SqlLoom.Source) (x : Source),
    ofSource s = .ok x → x.toSource = s.plain
  | .table name, x, h => by
    obtain rfl := ok_eq_ok.mp h
    rfl
  | .subquery ⟨select, label⟩, x, h => by
    simp only [ofSource, bind_eq_ok, pure_eq_ok] at h
    obtain ⟨s, hs, rfl⟩ := h
    rw [Source.toSource, Source.plain, Subquery.bare, toQuery_of ⟨select, label⟩ s hs]

theorem toFrom_of : ∀ (source : Option FromClause) (x : Option Source),
    ofFrom source = .ok x → toFrom (source.bind (·.label)) x = plainFrom source
  | none, x, h => by
    obtain rfl := ok_eq_ok.mp h
    rfl
  | some ⟨source, label⟩, x, h => by
    simp only [ofFrom, bind_eq_ok, pure_eq_ok] at h
    obtain ⟨y, hy, rfl⟩ := h
    rw [toFrom, plainFrom, toSource_of source y hy]
    rfl

theorem toJoins_of : ∀ (joins : List SqlLoom.JoinClause) (xs : List JoinClause),
    ofJoins joins = .ok xs → toJoins xs = plainJoins joins
  | [], xs, h => by
    obtain rfl := ok_eq_ok.mp h
    rfl
  | ⟨kind, source, label, condition⟩ :: joins, xs, h => by
    simp only [ofJoins, bind_eq_ok, pure_eq_ok] at h
    obtain ⟨s, hs, c, hc, xs, hxs, rfl⟩ := h
    rw [toJoins, plainJoins, toSource_of source s hs, toPredicate_of condition c hc,
      toJoins_of joins xs hxs]

theorem toWiths_of : ∀ (withs : List SqlLoom.WithClause) (xs : List WithClause),
    ofWiths withs = .ok xs → toWiths xs = plainWiths withs
  | [], xs, h => by
    obtain rfl := ok_eq_ok.mp h
    rfl
  | ⟨name, ⟨select, label⟩⟩ :: withs, xs, h => by
    simp only [ofWiths, bind_eq_ok, pure_eq_ok] at h
    obtain ⟨s, hs, xs, hxs, rfl⟩ := h
    rw [toWiths, plainWiths, Subquery.bare, toQuery_of ⟨select, label⟩ s hs, toWiths_of withs xs hxs]

theorem toUnions_of : ∀ (unions : List SqlLoom.UnionMember) (xs : List UnionMember),
    ofUnions unions = .ok xs → toUnions xs = plainUnions unions
  | [], xs, h => by
    obtain rfl := ok_eq_ok.mp h
    rfl
  | ⟨operator, ⟨select, label⟩⟩ :: unions, xs, h => by
    simp only [ofUnions, bind_eq_ok, pure_eq_ok] at h
    obtain ⟨s, hs, xs, hxs, rfl⟩ := h
    rw [toUnions, plainUnions, Subquery.bare, toQuery_of ⟨select, label⟩ s hs,
      toUnions_of unions xs hxs]

/-- **What is read off the statement of a SELECT is its plain form.** -/
theorem toSelect_of : ∀ (q : Select) (s : Statement), ofSelect q = .ok s → s.toSelect = q.plain
  | ⟨columns, source, joins, withs, prewhere, filter, groupBy, having, orderBy, limit, offset,
      final, settings, format, unions, recorded⟩, s, h => by
    simp only [ofSelect, bind_eq_ok, pure_eq_ok] at h
    obtain ⟨ws, hws, cs, hcs, t, ht, js, hjs, es, hes, ls, hls, hs, hhs, us, hus, rfl⟩ := h
    obtain ⟨hearly, hlate⟩ :=
      toClause_marked (early_of_mem_ofClause hes) (early_of_mem_ofClause hls)
    have hgroup : (groupBy.map (·.joined)).map (fun name => ({ name } : Column))
        = groupBy.map Column.bare := List.map_map
    have horder : (orderBy.map fun item =>
        (⟨item.column.joined, item.direction⟩ : Statement.OrderItem)).map
          (fun item => (⟨{ name := item.column }, item.direction⟩ : SqlLoom.OrderItem))
        = orderBy.map fun item => ⟨item.column.bare, item.direction⟩ := List.map_map
    simp only [toSelect, Select.plain, toWiths_of withs ws hws, toExprs_of columns cs hcs,
      toFrom_of source t ht, toJoins_of joins js hjs, hearly, hlate, toClause_of prewhere es hes,
      toClause_of filter ls hls, toClause_of having hs hhs, toUnions_of unions us hus, hgroup, horder]

end

/-! ## The step and the plain form -/

/-- To be no column is all that matters of any other left side. -/
theorem ofPredicate_bareLeft (left : SqlLoom.Expr) (operator : String) (right : SqlLoom.Expr) :
    ofPredicate (.compare left.bareLeft operator right) = ofPredicate (.compare left operator right) := by
  cases left <;> rfl

mutual

theorem ofExpr_plain : ∀ e : SqlLoom.Expr, ofExpr e.plain = ofExpr e
  | .column c => rfl
  | .value v label => rfl
  | .array items label => rfl
  | .tuple items label => rfl
  | .subquery ⟨select, label⟩ => by
    rw [Expr.plain, ofExpr, ofExpr, ofSubquery_plain ⟨select, label⟩ label]
  | .raw sql label => rfl
  | .call function args label => by rw [Expr.plain, ofExpr, ofExpr, ofExprs_plain args]
  | .cases branches otherwise label => by
    rw [Expr.plain, ofExpr, ofExpr, ofBranches_plain branches, ofOtherwise_plain otherwise]

theorem ofExprs_plain : ∀ es : List SqlLoom.Expr, ofExprs (plainExprs es) = ofExprs es
  | [] => rfl
  | e :: es => by rw [plainExprs, ofExprs, ofExprs, ofExpr_plain e, ofExprs_plain es]

theorem ofOtherwise_plain : ∀ otherwise : Option SqlLoom.Expr,
    ofOtherwise (plainResult otherwise) = ofOtherwise otherwise
  | none => rfl
  | some e => by rw [plainResult, ofOtherwise, ofOtherwise, ofExpr_plain e]

theorem ofBranches_plain : ∀ bs : List SqlLoom.Branch, ofBranches (plainBranches bs) = ofBranches bs
  | [] => rfl
  | ⟨some p, some e⟩ :: bs => by
    rw [plainBranches, plainClause, plainResult, ofBranches, ofBranches, ofBranch, ofBranch,
      ofPredicate_plain p, ofExpr_plain e, ofBranches_plain bs]
  | ⟨none, _⟩ :: _ => rfl
  | ⟨some _, none⟩ :: _ => rfl

theorem ofPredicate_plain : ∀ p : SqlLoom.Predicate, ofPredicate p.plain = ofPredicate p
  | .compare left operator right => by
    rw [Predicate.plain, ofPredicate_bareLeft]
    cases left with
    | column c => rw [ofPredicate, ofPredicate, ofOperand_bare right]
    | _ => rfl
  | .and children grouped => by
    rw [Predicate.plain, ofPredicate, ofPredicate, ofPredicates_plain children]
  | .or children => by rw [Predicate.plain, ofPredicate, ofPredicate, ofPredicates_plain children]
  | .not (some p) => by
    rw [Predicate.plain, plainClause, ofPredicate, ofPredicate, ofPredicate_plain p]
  | .not none => rfl
  | .raw sql => rfl

theorem ofPredicates_plain : ∀ ps : List SqlLoom.Predicate,
    ofPredicates (plainPredicates ps) = ofPredicates ps
  | [] => rfl
  | p :: ps => by
    rw [plainPredicates, ofPredicates, ofPredicates, ofPredicate_plain p, ofPredicates_plain ps]

theorem ofClause_plain : ∀ clause : Option SqlLoom.Predicate,
    ofClause (plainClause clause) = ofClause clause
  | none => rfl
  | some p => by rw [plainClause, ofClause, ofClause, ofPredicate_plain p]

theorem ofOperand_bare : ∀ e : SqlLoom.Expr, ofOperand e.bare = ofOperand e
  | .column c => rfl
  | .value v label => rfl
  | .array items label => rfl
  | .tuple items label => rfl
  | .subquery ⟨select, label⟩ => by
    rw [Expr.bare, Subquery.bare, ofOperand, ofOperand, ofSubquery_plain ⟨select, label⟩ none]
  | .raw sql label => rfl
  | .call function args label => rfl
  | .cases branches otherwise label => rfl

/-- The alias of a subquery is not looked at. -/
theorem ofSubquery_plain : ∀ (s : Subquery) (label : Option String),
    ofSubquery ⟨plainQuery s.select, label⟩ = ofSubquery s
  | ⟨some q, _⟩, label => by rw [plainQuery, ofSubquery, ofSubquery, ofSelect_plain q]
  | ⟨none, _⟩, label => rfl

theorem ofSource_plain : ∀ s : SqlLoom.Source, ofSource s.plain = ofSource s
  | .table name => rfl
  | .subquery ⟨select, label⟩ => by
    rw [Source.plain, Subquery.bare, ofSource, ofSource, ofSubquery_plain ⟨select, label⟩ none]

theorem ofFrom_plain : ∀ source : Option FromClause, ofFrom (plainFrom source) = ofFrom source
  | none => rfl
  | some ⟨source, label⟩ => by rw [plainFrom, ofFrom, ofFrom, ofSource_plain source]

theorem ofJoins_plain : ∀ joins : List SqlLoom.JoinClause, ofJoins (plainJoins joins) = ofJoins joins
  | [] => rfl
  | ⟨kind, source, label, condition⟩ :: joins => by
    rw [plainJoins, ofJoins, ofJoins, ofSource_plain source, ofPredicate_plain condition,
      ofJoins_plain joins]

theorem ofWiths_plain : ∀ withs : List SqlLoom.WithClause, ofWiths (plainWiths withs) = ofWiths withs
  | [] => rfl
  | ⟨name, ⟨select, label⟩⟩ :: withs => by
    rw [plainWiths, Subquery.bare, ofWiths, ofWiths, ofSubquery_plain ⟨select, label⟩ none,
      ofWiths_plain withs]

theorem ofUnions_plain : ∀ unions : List SqlLoom.UnionMember,
    ofUnions (plainUnions unions) = ofUnions unions
  | [] => rfl
  | ⟨operator, ⟨select, label⟩⟩ :: unions => by
    rw [plainUnions, Subquery.bare, ofUnions, ofUnions, ofSubquery_plain ⟨select, label⟩ none,
      ofUnions_plain unions]

/-- **A SELECT and its plain form have the same statement**, or the same fault. -/
theorem ofSelect_plain : ∀ q : Select, ofSelect q.plain = ofSelect q
  | ⟨columns, source, joins, withs, prewhere, filter, groupBy, having, orderBy, limit, offset,
      final, settings, format, unions, recorded⟩ => by
    have hlabel : (plainFrom source).bind (·.label) = source.bind (·.label) := by
      cases source with
      | none => rfl
      | some f => cases f; rfl
    have hgroup : (groupBy.map Column.bare).map (·.joined) = groupBy.map (·.joined) := List.map_map
    have horder : (orderBy.map fun item =>
        (⟨item.column.bare, item.direction⟩ : SqlLoom.OrderItem)).map
          (fun item => (⟨item.column.joined, item.direction⟩ : Statement.OrderItem))
        = orderBy.map fun item => ⟨item.column.joined, item.direction⟩ := List.map_map
    rw [Select.plain, ofSelect, ofSelect, ofWiths_plain withs, ofExprs_plain columns,
      ofFrom_plain source, ofJoins_plain joins, ofClause_plain prewhere, ofClause_plain filter,
      ofClause_plain having, ofUnions_plain unions, hlabel, hgroup, horder]

end

/-! ## What two queries with one statement share -/

/-- **The step to a statement loses what the plain form erases, and nothing else.**  A query has the
    statement of another one exactly when their plain forms are equal.  So each has, above all, the
    PREWHERE condition of the other and its WHERE condition, and the same select list under the same
    aliases. -/
theorem same_statement_iff_plain_eq {q : Select} {s : Statement} (h : ofSelect q = .ok s)
    (q' : Select) :
    (ofSelect q' = .ok s ↔ q'.plain = q.plain)
      ∧ (ofSelect q' = .ok s →
          q'.prewhere.map (·.plain) = q.prewhere.map (·.plain)
            ∧ q'.filter.map (·.plain) = q.filter.map (·.plain)
            ∧ q'.columns.map (·.plain) = q.columns.map (·.plain)
            ∧ q'.columns.map (·.label) = q.columns.map (·.label)) := by
  have hplain : ofSelect q' = .ok s → q'.plain = q.plain := by
    intro h'
    rw [← toSelect_of q' s h', toSelect_of q s h]
  refine ⟨⟨hplain, fun heq => ?_⟩, fun h' => ?_⟩
  · rw [← ofSelect_plain q', heq, ofSelect_plain q, h]
  · have heq := hplain h'
    rw [Select.plain_eq, Select.plain_eq] at heq
    injection heq with hcolumns _ _ _ hprewhere hfilter
    refine ⟨hprewhere, hfilter, hcolumns, ?_⟩
    have hlabels := congrArg (List.map SqlLoom.Expr.label) hcolumns
    rwa [List.map_map, List.map_map, SqlLoom.Expr.label_comp_plain] at hlabels

/-- A SELECT with a PREWHERE condition, in all the finery that a statement has no place for. -/
def adorned : Select :=
  { Select.empty with
    columns := [.column { name := "a", table := some "t" }]
    prewhere := some (.compare (.column { name := "a", label := some "x" }) "IN"
      (.array [.int 1] (some "y")))
    format := some "CSV"
    recorded := ["late"] }

/-- The same SELECT without it. -/
def unadorned : Select :=
  { Select.empty with
    columns := [.column { name := "t.a" }]
    prewhere := some (.compare (.column { name := "a" }) "IN" (.tuple [.int 1] none)) }

/-- And with its condition in WHERE. -/
def unadornedLate : Select :=
  { unadorned with prewhere := none, filter := unadorned.prewhere }

/-- Two ways to write one query have the same statement, and a query with the condition in another
    clause has a different one. -/
theorem same_statement_of_adorned :
    ∃ s, ofSelect adorned = .ok s ∧ ofSelect unadorned = .ok s ∧ unadorned.plain = adorned.plain
      ∧ ofSelect unadornedLate ≠ .ok s := by
  refine ⟨_, rfl, rfl, (same_statement_iff_plain_eq rfl unadorned).1.mp rfl, fun h => ?_⟩
  obtain ⟨hprewhere, -⟩ := (same_statement_iff_plain_eq (q := adorned) rfl unadornedLate).2 h
  exact nomatch hprewhere

end Statement

end SqlLoom
