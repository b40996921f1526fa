/-
  Nothing is missing in the statement of a query.

  A statement can have HOLES: a NOT without its operand, a subquery or a member of a UNION without its
  statement, a CASE branch without one of its parts.  Writing fails at the first three, and it reads
  the parts of a branch without looking whether they are there.

  1. THE TREE.  A `Statement.Node` is a part of a statement at its place, and `Node.parts` are the
     nodes directly below it.  A node is `Whole` when it has no hole itself; it is `Closed` when it is
     whole and all of its parts are closed, which leaves no hole at any depth.
  2. THE STEP to a statement fails where it would have to leave a hole, so what it makes is closed
     (`closed_ofQuery`).  The induction is along the step.
  3. WRITING a whole node meets no hole but those below it (`Node.exists_part_of_failsWith`).  So, by
     induction over closed nodes, the writing of a closed statement never meets one
     (`toSql_ne_error_of_closed`).
-/
import SqlLoom.Proofs.Written.Query

namespace SqlLoom.Statement

open Outcome

/-! ## The tree -/

/-- A part of a statement at its place. -/
inductive Node where
  | expr (x : Expr)
  | operand (x : Operand)
  | predicate (x : Predicate)
  | statement (s : Statement)

/-- The statement of a subquery, if it is there. -/
def queryParts (query : Option Statement) : List Node :=
  query.toList.map .statement

/-- The statement that rows come from, if it is one. -/
def Source.parts : Source → List Node
  | .table _ => []
  | .subquery query => queryParts query

/-- Condition and result of a branch, as far as they are there. -/
def Branch.parts : Branch → List Node
  | ⟨condition, result⟩ => condition.toList.map .predicate ++ result.toList.map .expr

/-- The nodes directly below an expression. -/
def Expr.parts : Expr → List Node
  | .subquery query _ => queryParts query
  | .call _ args _ => args.map .expr
  | .cases branches otherwise _ => branches.flatMap Branch.parts ++ otherwise.toList.map .expr
  | _ => []

/-- The nodes directly below the right side of a test. -/
def Operand.parts : Operand → List Node
  | .subquery query => queryParts query
  | _ => []

/-- The nodes directly below a condition. -/
def Predicate.parts : Predicate → List Node
  | .compare _ _ right _ => [.operand right]
  | .and children _ _ => children.map .predicate
  | .or children _ => children.map .predicate
  | .not child _ => child.toList.map .predicate
  | .raw _ _ => []

/-- The source and the condition of a JOIN. -/
def JoinClause.parts : JoinClause → List Node
  | ⟨_, source, _, condition⟩ => source.parts ++ [.predicate condition]

/-- The statement of a WITH clause. -/
def WithClause.parts : WithClause → List Node
  | ⟨_, query⟩ => queryParts query

/-- The statement of a member of a UNION. -/
def UnionMember.parts : UnionMember → List Node
  | ⟨_, query⟩ => queryParts query

/-- The nodes directly below a statement. -/
def parts (s : Statement) : List Node :=
  s.withs.flatMap WithClause.parts ++ s.columns.map .expr ++ s.table.toList.flatMap Source.parts
    ++ s.joins.flatMap JoinClause.parts ++ s.predicates.map .predicate ++ s.having.map .predicate
    ++ s.unions.flatMap UnionMember.parts

/-- The nodes directly below a node. -/
def Node.parts : Node → List Node
  | .expr x => x.parts
  | .operand x => x.parts
  | .predicate x => x.parts
  | .statement s => s.parts

/-! ## Holes -/

/-- A source of rows without a hole. -/
def Source.Whole : Source → Prop
  | .table _ => True
  | .subquery query => query.isSome

/-- A branch with both of its parts. -/
def Branch.Whole : Branch → Prop
  | ⟨condition, result⟩ => condition.isSome ∧ result.isSome

/-- A JOIN without a hole in its source. -/
def JoinClause.Whole : JoinClause → Prop
  | ⟨_, source, _, _⟩ => source.Whole

/-- A WITH clause that has its statement. -/
def WithClause.Whole : WithClause → Prop
  | ⟨_, query⟩ => query.isSome

/-- A member of a UNION that has its statement. -/
def UnionMember.Whole : UnionMember → Prop
  | ⟨_, query⟩ => query.isSome

/-- A statement without a hole, its nodes below apart. -/
structure Whole (s : Statement) : Prop where
  withs : ∀ w ∈ s.withs, w.Whole
  table : ∀ source ∈ s.table, source.Whole
  joins : ∀ j ∈ s.joins, j.Whole
  unions : ∀ u ∈ s.unions, u.Whole

/-- A node without a hole, the nodes below it apart. -/
def Node.Whole : Node → Prop
  | .expr (.subquery query _) => query.isSome
  | .expr (.cases branches _ _) => ∀ b ∈ branches, b.Whole
  | .operand (.subquery query) => query.isSome
  | .predicate (.not child _) => child.isSome
  | .statement s => s.Whole
  | _ => True

/-- A node without a hole at any depth. -/
inductive Node.Closed : Node → Prop where
  | mk {n : Node} (whole : n.Whole) (below : ∀ m ∈ n.parts, m.Closed) : n.Closed

/-- A statement without a hole at any depth. -/
def Closed (s : Statement) : Prop :=
  (Node.statement s).Closed

/-- The mark of a condition has nothing to do with holes. -/
theorem Predicate.closed_markEarly {x : Predicate} (h : (Node.predicate x).Closed) :
    (Node.predicate x.markEarly).Closed := by
  obtain ⟨whole, below⟩ := h
  cases x <;> exact .mk whole below

/-! ## The step -/

mutual

theorem closed_ofExpr : ∀ (e : SqlLoom.Expr) (x : Expr), ofExpr e = .ok x → (Node.expr x).Closed
  | .column c, x, h => by
    obtain rfl := ok_eq_ok.mp h
    exact .mk trivial nofun
  | .value v label, x, h => by
    obtain rfl := ok_eq_ok.mp h
    exact .mk trivial nofun
  | .array items label, x, h => by
    obtain rfl := ok_eq_ok.mp h
    exact .mk trivial nofun
  | .tuple items label, x, h => by
    obtain rfl := ok_eq_ok.mp h
    exact .mk trivial nofun
  | .subquery s, x, h => by
    simp only [ofExpr, bind_eq_ok, pure_eq_ok] at h
    obtain ⟨y, hy, rfl⟩ := h
    exact .mk rfl (List.forall_mem_singleton.mpr (closed_ofSubquery s y hy))
  | .raw sql label, x, h => by
    obtain rfl := ok_eq_ok.mp h
    exact .mk trivial nofun
  | .call function args label, x, h => by
    simp only [ofExpr, bind_eq_ok, pure_eq_ok] at h
    obtain ⟨xs, hxs, rfl⟩ := h
    exact .mk trivial (List.forall_mem_map.mpr (closed_ofExprs args xs hxs))
  | .cases branches otherwise label, x, h => by
    simp only [ofExpr, bind_eq_ok, pure_eq_ok] at h
    obtain ⟨bs, hbs, o, ho, rfl⟩ := h
    obtain ⟨whole, below⟩ := closed_ofBranches branches bs hbs
    exact .mk whole (List.forall_mem_append.mpr ⟨below, closed_ofOtherwise otherwise o ho⟩)

theorem closed_ofExprs : ∀ (es : List SqlLoom.Expr) (xs : List Expr), ofExprs es = .ok xs →
    ∀ x ∈ xs, (Node.expr x).Closed
  | [], xs, h => by
    obtain rfl := ok_eq_ok.mp h
    exact nofun
  | e :: es, xs, h => by
    simp only [ofExprs, bind_eq_ok, pure_eq_ok] at h
    obtain ⟨x, hx, xs, hxs, rfl⟩ := h
    exact List.forall_mem_cons.mpr ⟨closed_ofExpr e x hx, closed_ofExprs es xs hxs⟩

theorem closed_ofOtherwise : ∀ (otherwise : Option SqlLoom.Expr) (o : Option Expr),
    ofOtherwise otherwise = .ok o → ∀ m ∈ o.toList.map Node.expr, m.Closed
  | none, o, h => by
    obtain rfl := ok_eq_ok.mp h
    exact nofun
  | some e, o, h => by
    simp only [ofOtherwise, bind_eq_ok, pure_eq_ok] at h
    obtain ⟨x, hx, rfl⟩ := h
    exact List.forall_mem_singleton.mpr (closed_ofExpr e x hx)

theorem closed_ofBranches : ∀ (bs : List SqlLoom.Branch) (xs : List Branch), ofBranches bs = .ok xs →
    (∀ x ∈ xs, x.Whole) ∧ ∀ m ∈ xs.flatMap Branch.parts, m.Closed
  | [], xs, h => by
    obtain rfl := ok_eq_ok.mp h
    exact ⟨nofun, nofun⟩
  | ⟨some p, some e⟩ :: bs, xs, h => by
    simp only [ofBranches, ofBranch, bind_eq_ok, pure_eq_ok] at h
    obtain ⟨_, ⟨c, hc, r, hr, rfl⟩, xs, hxs, rfl⟩ := h
    obtain ⟨whole, below⟩ := closed_ofBranches bs xs hxs
    have hparts : ∀ m ∈ (Branch.mk (some c) (some r)).parts, m.Closed :=
      List.forall_mem_cons.mpr
        ⟨closed_ofPredicate p c hc, List.forall_mem_singleton.mpr (closed_ofExpr e r hr)⟩
    exact ⟨List.forall_mem_cons.mpr ⟨⟨rfl, rfl⟩, whole⟩, List.forall_mem_append.mpr ⟨hparts, below⟩⟩
  | ⟨none, _⟩ :: _, _, h => nomatch h
  | ⟨some _, none⟩ :: _, _, h => nomatch h

theorem closed_ofPredicate : ∀ (p : SqlLoom.Predicate) (x : Predicate), ofPredicate p = .ok x →
    (Node.predicate x).Closed
  | .compare (.column c) operator right, x, h => by
    simp only [ofPredicate, bind_eq_ok, pure_eq_ok] at h
    obtain ⟨y, hy, rfl⟩ := h
    exact .mk trivial (List.forall_mem_singleton.mpr (closed_ofOperand right y hy))
  | .and children grouped, x, h => by
    simp only [ofPredicate, bind_eq_ok, pure_eq_ok] at h
    obtain ⟨xs, hxs, rfl⟩ := h
    exact .mk trivial (List.forall_mem_map.mpr (closed_ofPredicates children xs hxs))
  | .or children, x, h => by
    simp only [ofPredicate, bind_eq_ok, pure_eq_ok] at h
    obtain ⟨xs, hxs, rfl⟩ := h
    exact .mk trivial (List.forall_mem_map.mpr (closed_ofPredicates children xs hxs))
  | .not (some p), x, h => by
    simp only [ofPredicate, bind_eq_ok, pure_eq_ok] at h
    obtain ⟨y, hy, rfl⟩ := h
    exact .mk rfl (List.forall_mem_singleton.mpr (closed_ofPredicate p y hy))
  | .not none, _, h => nomatch h
  | .raw sql, x, h => by
    obtain rfl := ok_eq_ok.mp h
    exact .mk trivial nofun
  | .compare (.value ..) _ _, _, h => nomatch h
  | .compare (.array ..) _ _, _, h => nomatch h
  | .compare (.tuple ..) _ _, _, h => nomatch h
  | .compare (.subquery _) _ _, _, h => nomatch h
  | .compare (.raw ..) _ _, _, h => nomatch h
  | .compare (.call ..) _ _, _, h => nomatch h
  | .compare (.cases ..) _ _, _, h => nomatch h

theorem closed_ofPredicates : ∀ (ps : List SqlLoom.Predicate) (xs : List Predicate),
    ofPredicates ps = .ok xs → ∀ x ∈ xs, (Node.predicate x).Closed
  | [], xs, h => by
    obtain rfl := ok_eq_ok.mp h
    exact List.forall_mem_nil _
  | p :: ps, xs, h => by
    simp only [ofPredicates, bind_eq_ok, pure_eq_ok] at h
    obtain ⟨x, hx, xs, hxs, rfl⟩ := h
    exact List.forall_mem_cons.mpr ⟨closed_ofPredicate p x hx, closed_ofPredicates ps xs hxs⟩

theorem closed_ofClause : ∀ (clause : Option SqlLoom.Predicate) (xs : List Predicate),
    ofClause clause = .ok xs → ∀ x ∈ xs, (Node.predicate x).Closed
  | none, xs, h => by
    obtain rfl := ok_eq_ok.mp h
    exact List.forall_mem_nil _
  | some p, xs, h => by
    simp only [ofClause, bind_eq_ok, pure_eq_ok] at h
    obtain ⟨x, hx, rfl⟩ := h
    exact List.forall_mem_singleton.mpr (closed_ofPredicate p x hx)

theorem closed_ofOperand : ∀ (e : SqlLoom.Expr) (x : Operand), ofOperand e = .ok x →
    (Node.operand x).Closed
  | .value v label, x, h => by
    obtain rfl := ok_eq_ok.mp h
    exact .mk trivial nofun
  | .array items label, x, h => by
    obtain rfl := ok_eq_ok.mp h
    exact .mk trivial nofun
  | .tuple items label, x, h => by
    obtain rfl := ok_eq_ok.mp h
    exact .mk trivial nofun
  | .column c, x, h => by
    obtain rfl := ok_eq_ok.mp h
    exact .mk trivial nofun
  | .subquery s, x, h => by
    simp only [ofOperand, bind_eq_ok, pure_eq_ok] at h
    obtain ⟨y, hy, rfl⟩ := h
    exact .mk rfl (List.forall_mem_singleton.mpr (closed_ofSubquery s y hy))
  | .raw .., _, h => nomatch h
  | .call .., _, h => nomatch h
  | .cases .., _, h => nomatch h

theorem closed_ofSubquery : ∀ (s : Subquery) (x : Statement), ofSubquery s = .ok x → x.Closed
  | ⟨some q, _⟩, x, h => closed_ofSelect q x h
  | ⟨none, _⟩, _, h => nomatch h

theorem closed_ofSource : ∀ (s : SqlLoom.Source) (x : Source), ofSource s = .ok x →
    x.Whole ∧ ∀ m ∈ x.parts, m.Closed
  | .table name, x, h => by
    obtain rfl := ok_eq_ok.mp h
    exact ⟨trivial, nofun⟩
  | .subquery s, x, h => by
    simp only [ofSource, bind_eq_ok, pure_eq_ok] at h
    obtain ⟨y, hy, rfl⟩ := h
    exact ⟨rfl, List.forall_mem_singleton.mpr (closed_ofSubquery s y hy)⟩

theorem closed_ofFrom : ∀ (source : Option FromClause) (x : Option Source), ofFrom source = .ok x →
    (∀ y ∈ x, y.Whole) ∧ ∀ m ∈ x.toList.flatMap Source.parts, m.Closed
  | none, x, h => by
    obtain rfl := ok_eq_ok.mp h
    exact ⟨nofun, nofun⟩
  | some ⟨source, label⟩, x, h => by
    simp only [ofFrom, bind_eq_ok, pure_eq_ok] at h
    obtain ⟨y, hy, rfl⟩ := h
    simpa using closed_ofSource source y hy

theorem closed_ofJoins : ∀ (joins : List SqlLoom.JoinClause) (xs : List JoinClause),
    ofJoins joins = .ok xs → (∀ x ∈ xs, x.Whole) ∧ ∀ m ∈ xs.flatMap JoinClause.parts, m.Closed
  | [], xs, h => by
    obtain rfl := ok_eq_ok.mp h
    exact ⟨nofun, nofun⟩
  | ⟨kind, source, label, condition⟩ :: joins, xs, h => by
    simp only [ofJoins, bind_eq_ok, pure_eq_ok] at h
    obtain ⟨s, hs, c, hc, xs, hxs, rfl⟩ := h
    obtain ⟨whole, below⟩ := closed_ofSource source s hs
    obtain ⟨wholes, belows⟩ := closed_ofJoins joins xs hxs
    have hparts : ∀ m ∈ (JoinClause.mk kind s label c).parts, m.Closed :=
      List.forall_mem_append.mpr
        ⟨below, List.forall_mem_singleton.mpr (closed_ofPredicate condition c hc)⟩
    exact ⟨List.forall_mem_cons.mpr ⟨whole, wholes⟩, List.forall_mem_append.mpr ⟨hparts, belows⟩⟩

theorem closed_ofWiths : ∀ (withs : List SqlLoom.WithClause) (xs : List WithClause),
    ofWiths withs = .ok xs → (∀ x ∈ xs, x.Whole) ∧ ∀ m ∈ xs.flatMap WithClause.parts, m.Closed
  | [], xs, h => by
    obtain rfl := ok_eq_ok.mp h
    exact ⟨nofun, nofun⟩
  | ⟨name, query⟩ :: withs, xs, h => by
    simp only [ofWiths, bind_eq_ok, pure_eq_ok] at h
    obtain ⟨s, hs, xs, hxs, rfl⟩ := h
    obtain ⟨wholes, belows⟩ := closed_ofWiths withs xs hxs
    exact ⟨List.forall_mem_cons.mpr ⟨rfl, wholes⟩,
      List.forall_mem_cons.mpr ⟨closed_ofSubquery query s hs, belows⟩⟩

theorem closed_ofUnions : ∀ (unions : List SqlLoom.UnionMember) (xs : List UnionMember),
    ofUnions unions = .ok xs → (∀ x ∈ xs, x.Whole) ∧ ∀ m ∈ xs.flatMap UnionMember.parts, m.Closed
  | [], xs, h => by
    obtain rfl := ok_eq_ok.mp h
    exact ⟨nofun, nofun⟩
  | ⟨operator, query⟩ :: unions, xs, h => by
    simp only [ofUnions, bind_eq_ok, pure_eq_ok] at h
    obtain ⟨s, hs, xs, hxs, rfl⟩ := h
    obtain ⟨wholes, belows⟩ := closed_ofUnions unions xs hxs
    exact ⟨List.forall_mem_cons.mpr ⟨rfl, wholes⟩,
      List.forall_mem_cons.mpr ⟨closed_ofSubquery query s hs, belows⟩⟩

theorem closed_ofSelect : ∀ (q : Select) (s : Statement), ofSelect q = .ok s → s.Closed
  | ⟨columns, source, joins, withs, prewhere, filter, groupBy, having, orderBy, limit, offset,
      final, settings, format, unions, recorded⟩, s, h => by
    simp only [ofSelect, bind_eq_ok, pure_eq_ok] at h
    obtain ⟨ws, hws, es, hes, t, ht, js, hjs, early, hearly, late, hlate, hs, hhs, us, hus, rfl⟩ := h
    obtain ⟨wholeWiths, belowWiths⟩ := closed_ofWiths withs ws hws
    obtain ⟨wholeFrom, belowFrom⟩ := closed_ofFrom source t ht
    obtain ⟨wholeJoins, belowJoins⟩ := closed_ofJoins joins js hjs
    obtain ⟨wholeUnions, belowUnions⟩ := closed_ofUnions unions us hus
    have hearly : ∀ x ∈ early, (Node.predicate x.markEarly).Closed := fun x hx =>
      Predicate.closed_markEarly (closed_ofClause prewhere early hearly x hx)
    refine .mk ⟨wholeWiths, wholeFrom, wholeJoins, wholeUnions⟩ ?_
    simp only [Node.parts, parts, List.forall_mem_append, List.forall_mem_map]
    exact ⟨⟨⟨⟨⟨⟨belowWiths, closed_ofExprs columns es hes⟩, belowFrom⟩, belowJoins⟩,
      hearly, closed_ofClause filter late hlate⟩, closed_ofClause having hs hhs⟩, belowUnions⟩

end

/-- A statement over a table that joins and unites nothing has no hole itself. -/
theorem Whole.of_table {s : Statement} {name : String} (withs : s.withs = [])
    (table : s.table = some (.table name)) (joins : s.joins = []) (unions : s.unions = []) :
    s.Whole where
  withs := withs ▸ List.forall_mem_nil _
  table source hsource := by
    obtain rfl := Option.mem_unique hsource table
    exact trivial
  joins := joins ▸ List.forall_mem_nil _
  unions := unions ▸ List.forall_mem_nil _

/-- **The step leaves no hole**, in a statement of any kind. -/
theorem closed_ofQuery {q : Query} {s : Statement} (h : ofQuery q = .ok s) : s.Closed := by
  -- but for a SELECT, the only nodes are the conditions
  cases q with
  | select q => exact closed_ofSelect q s h
  | insert q =>
    obtain rfl := ok_eq_ok.mp h
    exact .mk (.of_table rfl rfl rfl rfl) (List.forall_mem_nil _)
  | update q =>
    obtain ⟨xs, hxs, h⟩ := bind_eq_ok.mp h
    obtain rfl := pure_eq_ok.mp h
    refine .mk (.of_table rfl rfl rfl rfl) ?_
    simpa [Node.parts, parts, empty, Source.parts] using closed_ofClause q.filter xs hxs
  | delete q =>
    obtain ⟨xs, hxs, h⟩ := bind_eq_ok.mp h
    obtain rfl := pure_eq_ok.mp h
    refine .mk (.of_table rfl rfl rfl rfl) ?_
    simpa [Node.parts, parts, empty, Source.parts] using closed_ofClause q.filter xs hxs

/-! ## Writing -/

/-- Whether a fault tells of a hole. -/
def Unwritable.meetsHole : Unwritable → Bool
  | missingNegand => true
  | emptySubquery => true
  | emptyUnion => true
  | missingBranchPart => true
  | identifier _ => false
  | twoBoundsExpected => false
  | unknownOperator _ => false

/-- What is said about any other fault begins in another way. -/
theorem Unwritable.head?_message {f : Unwritable} (hf : f.meetsHole = false) :
    f.toError.message.toList.head? ∈ [some 'I', some 'B', some 'U'] := by
  cases f with
  | identifier f => simp [toError, Identifier.Fault.toError, Error.invalid]
  | twoBoundsExpected => decide
  | unknownOperator operator => simp [toError, Error.invalid]
  | missingNegand => exact nomatch hf
  | emptySubquery => exact nomatch hf
  | emptyUnion => exact nomatch hf
  | missingBranchPart => exact nomatch hf

/-- So nothing that is said about a hole is said about it. -/
theorem Unwritable.message_notMem {f : Unwritable} (hf : f.meetsHole = false) :
    f.toError.message ∉ ["Subquery is empty", "Set operation without a query",
      "NOT predicate has no operand"] := by
  intro hmem
  have hhead := head?_message hf
  simp only [List.mem_cons, List.not_mem_nil, or_false] at hmem
  rcases hmem with h | h | h
  · rw [h] at hhead
    exact absurd hhead (by decide)
  · rw [h] at hhead
    exact absurd hhead (by decide)
  · rw [h] at hhead
    exact absurd hhead (by decide)

/-- The writing of a node fails with a fault. -/
def Node.FailsWith (f : Unwritable) : Node → Prop
  | .expr x => exprSql x = .error f
  | .operand x => operandSql x = .error f
  | .predicate x => ∃ top, predicateSql top x = .error f
  | .statement s => selectSql s = .error f

section Hole

variable {f : Unwritable} (hf : f.meetsHole = true)

include hf

/-! Names, bounds and words of tests have no holes. -/

theorem nameSql_ne_error {context : Identifier.Context} {s : String} :
    nameSql context s ≠ .error f := by
  intro h
  obtain ⟨e, -, rfl⟩ := mapError_eq_error.mp h
  exact nomatch hf

theorem labelSql_ne_error {label : Option String} : labelSql label ≠ .error f := by
  cases label with
  | none => exact nofun
  | some label => exact fun h => nameSql_ne_error hf (bind_pure_eq_error.mp h)

theorem namesSql_ne_error {names : List String} : namesSql names ≠ .error f := by
  intro h
  obtain ⟨_, -, h⟩ := exists_fault_of_each namesSql (nameSql .selection) rfl (fun _ _ => ⟨_, rfl⟩) h
  exact nameSql_ne_error hf h

theorem leftSql_ne_error {left : String} : leftSql left ≠ .error f := by
  unfold leftSql
  split
  · exact nofun
  · exact nameSql_ne_error hf

theorem boundsSql_ne_error {x : Operand} : boundsSql x ≠ .error f := by
  unfold boundsSql
  split
  · exact nofun
  · rintro ⟨⟩
    exact nomatch hf

theorem testSql_ne_error {operator : String} {left right : Sql} :
    testSql operator left right ≠ .error f := by
  unfold testSql
  split
  case h_5 =>
    rintro ⟨⟩
    exact nomatch hf
  all_goals exact nofun

theorem assignmentsSql_ne_error {assignments : Record} : assignmentsSql assignments ≠ .error f := by
  intro h
  obtain ⟨_, -, h⟩ := exists_fault_of_each assignmentsSql (fun entry => nameSql .selection entry.1)
    rfl (fun _ _ => ⟨_, rfl⟩) h
  exact nameSql_ne_error hf h

end Hole

/-! In everything else, a hole that is met is one of the node's own, or it is met in one of its
  parts. -/

section Parts

variable {f : Unwritable}

theorem exists_of_subquerySql {query : Option Statement} (whole : query.isSome)
    (h : subquerySql query = .error f) : ∃ m ∈ queryParts query, m.FailsWith f := by
  obtain ⟨s, rfl⟩ := Option.isSome_iff_exists.mp whole
  exact ⟨.statement s, List.mem_singleton_self _, bind_pure_eq_error.mp h⟩

/-- What fails in one of several items that have no hole fails in a part of it. -/
theorem exists_of_items {α : Type} {xs : List α} {WholeItem : α → Prop} {itemParts : α → List Node}
    (whole : ∀ x ∈ xs, WholeItem x)
    (h : ∃ x ∈ xs, WholeItem x → ∃ m ∈ itemParts x, m.FailsWith f) :
    ∃ m ∈ xs.flatMap itemParts, m.FailsWith f := by
  obtain ⟨x, hx, hfails⟩ := h
  obtain ⟨m, hm, hmf⟩ := hfails (whole x hx)
  exact ⟨m, List.mem_flatMap.mpr ⟨x, hx, hm⟩, hmf⟩

/-- What fails in one of two lists of nodes fails in both of them together. -/
theorem exists_append_left {ms : List Node} (ns : List Node) (h : ∃ m ∈ ms, m.FailsWith f) :
    ∃ m ∈ ms ++ ns, m.FailsWith f :=
  let ⟨m, hm, hmf⟩ := h
  ⟨m, List.mem_append_left ns hm, hmf⟩

theorem exists_append_right (ms : List Node) {ns : List Node} (h : ∃ m ∈ ns, m.FailsWith f) :
    ∃ m ∈ ms ++ ns, m.FailsWith f :=
  let ⟨m, hm, hmf⟩ := h
  ⟨m, List.mem_append_right ms hm, hmf⟩

theorem exists_of_argsSql {lastFirst : Bool} {xs : List Expr}
    (h : argsSql lastFirst xs = .error f) : ∃ m ∈ xs.map Node.expr, m.FailsWith f := by
  have hitem : ∃ x ∈ xs, exprSql x = .error f := by
    refine exists_fault_of_steps (argsSql lastFirst) rfl (fun x rest h => ?_) h
    cases lastFirst with
    | true =>
      rw [argsSql, if_pos rfl] at h
      rcases bind_eq_error.mp h with h | ⟨_, -, h⟩
      · exact .inr h
      · exact .inl (bind_pure_eq_error.mp h)
    | false =>
      rw [argsSql, if_neg Bool.false_ne_true] at h
      rcases bind_eq_error.mp h with h | ⟨_, -, h⟩
      · exact .inl h
      · exact .inr (bind_pure_eq_error.mp h)
  obtain ⟨x, hx, hfails⟩ := hitem
  exact ⟨.expr x, List.mem_map_of_mem hx, hfails⟩

theorem exists_of_otherwiseSql {otherwise : Option Expr} (h : otherwiseSql otherwise = .error f) :
    ∃ m ∈ otherwise.toList.map Node.expr, m.FailsWith f := by
  cases otherwise with
  | none => exact nomatch h
  | some x =>
    rw [otherwiseSql] at h
    exact ⟨.expr x, List.mem_singleton_self _, bind_pure_eq_error.mp h⟩

theorem exists_of_branchesSql {bs : List Branch} (whole : ∀ b ∈ bs, b.Whole)
    (h : branchesSql bs = .error f) : ∃ m ∈ bs.flatMap Branch.parts, m.FailsWith f := by
  refine exists_of_items whole (exists_fault_of_steps branchesSql rfl (fun b rest h => ?_) h)
  obtain ⟨condition, result⟩ := b
  rw [branchesSql] at h
  -- the result comes first
  rcases bind_eq_error.mp h with h | ⟨_, -, h⟩
  · refine .inl fun whole => exists_append_right _ ?_
    obtain ⟨x, rfl⟩ := Option.isSome_iff_exists.mp whole.2
    exact ⟨.expr x, List.mem_singleton_self _, h⟩
  rcases bind_eq_error.mp h with h | ⟨_, -, h⟩
  · refine .inl fun whole => exists_append_left _ ?_
    obtain ⟨x, rfl⟩ := Option.isSome_iff_exists.mp whole.1
    exact ⟨.predicate x, List.mem_singleton_self _, true, h⟩
  · exact .inr (bind_pure_eq_error.mp h)

theorem exists_of_predicatesSql {keep : Predicate → Bool} {top : Bool} {xs : List Predicate}
    (h : predicatesSql keep top xs = .error f) : ∃ m ∈ xs.map Node.predicate, m.FailsWith f := by
  obtain ⟨x, hx, hfails⟩ := exists_fault_of_predicatesSql h
  exact ⟨.predicate x, List.mem_map_of_mem hx, top, hfails⟩

theorem exists_of_unionsSql {us : List UnionMember} (whole : ∀ u ∈ us, u.Whole)
    (h : unionsSql us = .error f) : ∃ m ∈ us.flatMap UnionMember.parts, m.FailsWith f := by
  refine exists_of_items whole (exists_fault_of_steps unionsSql rfl (fun u rest h => ?_) h)
  obtain ⟨operator, query⟩ := u
  cases query with
  | none => exact .inl nofun
  | some s =>
    rw [unionsSql] at h
    rcases bind_eq_error.mp h with h | ⟨_, -, h⟩
    · exact .inl fun _ => ⟨.statement s, List.mem_singleton_self _, h⟩
    · exact .inr (bind_pure_eq_error.mp h)

variable (hf : f.meetsHole = true)

include hf

theorem exists_of_columnsSql {xs : List Expr} (h : columnsSql xs = .error f) :
    ∃ m ∈ xs.map Node.expr, m.FailsWith f := by
  have hitem : ∃ x ∈ xs, exprSql x = .error f := by
    refine exists_fault_of_steps columnsSql rfl (fun x rest h => ?_) h
    rw [columnsSql] at h
    rcases bind_eq_error.mp h with h | ⟨_, -, h⟩
    · exact .inl h
    rcases bind_eq_error.mp h with h | ⟨_, -, h⟩
    · exact absurd h (labelSql_ne_error hf)
    · exact .inr (bind_pure_eq_error.mp h)
  obtain ⟨x, hx, hfails⟩ := hitem
  exact ⟨.expr x, List.mem_map_of_mem hx, hfails⟩

theorem exists_of_sourceSql {source : Source} (whole : source.Whole)
    (h : sourceSql source = .error f) : ∃ m ∈ source.parts, m.FailsWith f := by
  cases source with
  | table name => exact absurd h (nameSql_ne_error hf)
  | subquery query => exact exists_of_subquerySql whole h

theorem exists_of_fromSql {label : Option String} {table : Option Source}
    (whole : ∀ source ∈ table, source.Whole) (h : fromSql label table = .error f) :
    ∃ m ∈ table.toList.flatMap Source.parts, m.FailsWith f := by
  cases table with
  | none => exact nomatch h
  | some source =>
    rw [fromSql] at h
    rcases bind_eq_error.mp h with h | ⟨_, -, h⟩
    · exact exists_append_left _ (exists_of_sourceSql hf (whole source rfl) h)
    · exact absurd (bind_pure_eq_error.mp h) (labelSql_ne_error hf)

theorem exists_of_joinsSql {js : List JoinClause} (whole : ∀ j ∈ js, j.Whole)
    (h : joinsSql js = .error f) : ∃ m ∈ js.flatMap JoinClause.parts, m.FailsWith f := by
  refine exists_of_items whole (exists_fault_of_steps joinsSql rfl (fun j rest h => ?_) h)
  obtain ⟨kind, source, label, condition⟩ := j
  rw [joinsSql] at h
  rcases bind_eq_error.mp h with h | ⟨_, -, h⟩
  · exact .inl fun whole => exists_append_left _ (exists_of_sourceSql hf whole h)
  rcases bind_eq_error.mp h with h | ⟨_, -, h⟩
  · exact absurd h (labelSql_ne_error hf)
  rcases bind_eq_error.mp h with h | ⟨_, -, h⟩
  · exact .inl fun _ => exists_append_right _
      ⟨.predicate condition, List.mem_singleton_self _, true, h⟩
  · exact .inr (bind_pure_eq_error.mp h)

theorem exists_of_withsSql {ws : List WithClause} (whole : ∀ w ∈ ws, w.Whole)
    (h : withsSql ws = .error f) : ∃ m ∈ ws.flatMap WithClause.parts, m.FailsWith f := by
  refine exists_of_items whole (exists_fault_of_steps withsSql rfl (fun w rest h => ?_) h)
  obtain ⟨name, query⟩ := w
  rw [withsSql] at h
  rcases bind_eq_error.mp h with h | ⟨_, -, h⟩
  · exact .inl fun whole => exists_of_subquerySql whole h
  rcases bind_eq_error.mp h with h | ⟨_, -, h⟩
  · exact absurd h (nameSql_ne_error hf)
  · exact .inr (bind_pure_eq_error.mp h)

/-! The four kinds of nodes. -/

theorem Expr.exists_part_of_error {x : Expr} (whole : (Node.expr x).Whole)
    (h : exprSql x = .error f) : ∃ m ∈ x.parts, m.FailsWith f := by
  cases x with
  | column name label => exact absurd h (nameSql_ne_error hf)
  | value v label => exact nomatch h
  | array items label => exact nomatch h
  | tuple items label => exact nomatch h
  | subquery query label => exact exists_of_subquerySql whole h
  | raw sql label => exact nomatch h
  | call function args label => exact exists_of_argsSql (bind_pure_eq_error.mp h)
  | cases branches otherwise label =>
    rw [exprSql] at h
    rcases bind_eq_error.mp h with h | ⟨_, -, h⟩
    · exact exists_append_left _ (exists_of_branchesSql whole h)
    · exact exists_append_right _ (exists_of_otherwiseSql (bind_pure_eq_error.mp h))

theorem Operand.exists_part_of_error {x : Operand} (whole : (Node.operand x).Whole)
    (h : operandSql x = .error f) : ∃ m ∈ x.parts, m.FailsWith f := by
  cases x with
  | value v => exact nomatch h
  | list items => exact nomatch h
  | column name => exact absurd h (nameSql_ne_error hf)
  | subquery query => exact exists_of_subquerySql whole h

theorem Predicate.exists_part_of_error {top : Bool} {x : Predicate}
    (whole : (Node.predicate x).Whole) (h : predicateSql top x = .error f) :
    ∃ m ∈ x.parts, m.FailsWith f := by
  cases x with
  | compare left operator right early =>
    rw [predicateSql] at h
    rcases bind_eq_error.mp h with h | ⟨_, -, h⟩
    · exact absurd h (leftSql_ne_error hf)
    -- only the forms that are written from their right side go on to it
    split at h
    · cases h
    · exact absurd (bind_pure_eq_error.mp h) (boundsSql_ne_error hf)
    · rcases bind_eq_error.mp h with h | ⟨_, -, h⟩
      · exact ⟨.operand right, List.mem_singleton_self _, h⟩
      · exact absurd h (testSql_ne_error hf)
  | and children grouped early =>
    rw [predicateSql] at h
    exact exists_of_predicatesSql (bind_pure_eq_error.mp h)
  | or children early =>
    rw [predicateSql] at h
    exact exists_of_predicatesSql (bind_pure_eq_error.mp h)
  | not child early =>
    obtain ⟨y, rfl⟩ := Option.isSome_iff_exists.mp whole
    rw [predicateSql] at h
    exact ⟨.predicate y, List.mem_singleton_self _, true, bind_pure_eq_error.mp h⟩
  | raw sql early => cases h

theorem exists_part_of_selectSql {s : Statement} (whole : s.Whole) (h : selectSql s = .error f) :
    ∃ m ∈ s.parts, m.FailsWith f := by
  obtain ⟨kind, table, tableLabel, columns, predicates, joins, withs, groupBy, having, orderBy,
    limit, offset, final, settings, unions, insertColumns, rows, assignments⟩ := s
  simp only [parts, List.mem_append, or_and_right, exists_or, or_assoc]
  rw [selectSql] at h
  rcases bind_eq_error.mp h with h | ⟨_, -, h⟩
  · exact .inl (exists_of_withsSql hf whole.withs h)
  rcases bind_eq_error.mp h with h | ⟨_, -, h⟩
  · exact .inr (.inl (exists_of_columnsSql hf h))
  rcases bind_eq_error.mp h with h | ⟨_, -, h⟩
  · exact .inr (.inr (.inl (exists_of_fromSql hf whole.table h)))
  rcases bind_eq_error.mp h with h | ⟨_, -, h⟩
  · exact .inr (.inr (.inr (.inl (exists_of_joinsSql hf whole.joins h))))
  -- PREWHERE and WHERE are taken from the same conditions
  have hpredicates : ∀ {keep top}, predicatesSql keep top predicates = .error f →
      ∃ m ∈ predicates.map Node.predicate, m.FailsWith f := exists_of_predicatesSql
  rcases bind_eq_error.mp h with h | ⟨_, -, h⟩
  · exact .inr (.inr (.inr (.inr (.inl (hpredicates h)))))
  rcases bind_eq_error.mp h with h | ⟨_, -, h⟩
  · exact .inr (.inr (.inr (.inr (.inl (hpredicates h)))))
  rcases bind_eq_error.mp h with h | ⟨_, -, h⟩
  · exact absurd h (namesSql_ne_error hf)
  rcases bind_eq_error.mp h with h | ⟨_, -, h⟩
  · exact .inr (.inr (.inr (.inr (.inr (.inl (exists_of_predicatesSql h))))))
  rcases bind_eq_error.mp h with h | ⟨_, -, h⟩
  · exact absurd h (namesSql_ne_error hf)
  · exact .inr (.inr (.inr (.inr (.inr (.inr
      (exists_of_unionsSql whole.unions (bind_pure_eq_error.mp h)))))))

/-- **A whole node meets no hole of its own.**  The writing of one of its parts has met it before. -/
theorem Node.exists_part_of_failsWith {n : Node} (whole : n.Whole) (h : n.FailsWith f) :
    ∃ m ∈ n.parts, m.FailsWith f := by
  cases n with
  | expr x => exact Expr.exists_part_of_error hf whole h
  | operand x => exact Operand.exists_part_of_error hf whole h
  | predicate x =>
    obtain ⟨top, h⟩ := h
    exact Predicate.exists_part_of_error hf whole h
  | statement s => exact exists_part_of_selectSql hf whole h

theorem Node.not_failsWith_of_closed {n : Node} (h : n.Closed) : ¬ n.FailsWith f := by
  induction h with
  | mk whole _ ih =>
    intro hfails
    obtain ⟨m, hm, hmf⟩ := Node.exists_part_of_failsWith hf whole hfails
    exact ih m hm hmf

end Parts

/-! ## Whole statements -/

section Statements

variable {s : Statement} {f : Unwritable} (h : s.Closed) (hf : f.meetsHole = true)

include h hf

/-- No part of a closed statement fails with a hole. -/
theorem not_exists_part_of_closed : ¬ ∃ m ∈ s.parts, m.FailsWith f := by
  obtain ⟨-, below⟩ := h
  rintro ⟨m, hm, hfails⟩
  exact Node.not_failsWith_of_closed hf (below m hm) hfails

theorem targetSql_ne_error_of_closed : targetSql s.table ≠ .error f := by
  intro hfails
  have hnone := not_exists_part_of_closed h hf
  obtain ⟨whole, -⟩ := h
  cases htable : s.table with
  | none =>
    -- the empty name then stands for the table
    rw [htable, targetSql, Option.getD_none, sourceSql] at hfails
    exact nameSql_ne_error hf hfails
  | some source =>
    rw [htable, targetSql, Option.getD_some] at hfails
    obtain ⟨m, hm, hmf⟩ := exists_of_sourceSql hf (whole.table source htable) hfails
    exact hnone ⟨m, by simp [parts, htable, hm], hmf⟩

theorem filterSql_ne_error_of_closed : filterSql s.predicates ≠ .error f := by
  intro hfails
  obtain ⟨m, hm, hmf⟩ := exists_of_predicatesSql (bind_pure_eq_error.mp hfails)
  have hparts : m ∈ s.parts := by
    simp only [parts, List.mem_append]
    exact .inl (.inl (.inr hm))
  exact not_exists_part_of_closed h hf ⟨m, hparts, hmf⟩

/-- **The writing of a closed statement never meets a hole**, whatever its kind. -/
theorem toSql_ne_error_of_closed : s.toSql ≠ .error f := by
  intro hfails
  have htarget := targetSql_ne_error_of_closed h hf
  have hfilter := filterSql_ne_error_of_closed h hf
  unfold toSql at hfails
  split at hfails
  · exact Node.not_failsWith_of_closed hf h hfails
  · rcases bind_eq_error.mp hfails with hfails | ⟨_, -, hfails⟩
    · exact htarget hfails
    · exact namesSql_ne_error hf (bind_pure_eq_error.mp hfails)
  · rcases bind_eq_error.mp hfails with hfails | ⟨_, -, hfails⟩
    · exact htarget hfails
    rcases bind_eq_error.mp hfails with hfails | ⟨_, -, hfails⟩
    · exact assignmentsSql_ne_error hf hfails
    · exact hfilter (bind_pure_eq_error.mp hfails)
  · rcases bind_eq_error.mp hfails with hfails | ⟨_, -, hfails⟩
    · exact htarget hfails
    · exact hfilter (bind_pure_eq_error.mp hfails)

end Statements

/-- The statement of a query is never refused for a hole. -/
theorem meetsHole_of_ofQuery {q : Query} {s : Statement} {f : Unwritable} (h : ofQuery q = .ok s)
    (hfails : s.toSql = .error f) : f.meetsHole = false := by
  by_contra hne
  exact toSql_ne_error_of_closed (closed_ofQuery h) (by simpa using hne) hfails

end SqlLoom.Statement

namespace SqlLoom

/-- A query that the compiler does not accept is refused with a report. -/
theorem Query.accepted_ne_unwritable {q : Query} {f : Statement.Unwritable} :
    q.checked.accepted ≠ .error (.unwritable f) := by
  unfold Checked.accepted
  split <;> exact nofun

/-- The compiler never refuses a query for a hole in its statement. -/
theorem Query.meetsHole_of_compile {q : Query} {f : Statement.Unwritable}
    (h : q.compile = .error (.unwritable f)) : f.meetsHole = false := by
  rcases Outcome.bind_eq_error.mp h with h | ⟨s, hs, h⟩
  · exact absurd h accepted_ne_unwritable
  · obtain ⟨f', hf', hwrap⟩ := Outcome.mapError_eq_error.mp h
    cases hwrap
    exact Statement.meetsHole_of_ofQuery (accepted_iff.mp hs).2 hf'

end SqlLoom
