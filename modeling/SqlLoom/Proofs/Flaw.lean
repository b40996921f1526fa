/-
  Where the step to a statement stops, and why.

  The step does not look at every node of a query.  It goes from a node to the nodes below it, but
  not into a CASE branch that lacks one of its parts, not below a test whose left side is no column,
  and not below a right side that is computed.

  1. WHERE IT GOES.  `Node.entered` are the nodes directly below a node that the step goes on to, and
     `Query.Enters` says so for all depths.
  2. FLAWS.  `Node.Flaw` relates a node that the step stops at to the fault that is told.
  3. ONE NODE.  A step that stops has met a flaw of the node, or it has stopped in the same way at
     one of the nodes that are entered from it (`Node.flaw_or_entered`).
  4. ALL NODES.  By induction over the tree, the fault is that of a flaw that is entered
     (`Query.exists_flaw_of_error`).  The other way round, a node with a flaw does not fit, and no
     node above it has a counterpart (`Node.steps_iff`).
-/
import SqlLoom.Proofs.Closed
import SqlLoom.Proofs.RawUses
import SqlLoom.Proofs.Steps

namespace SqlLoom

open Outcome
open Statement (Unsupported ofExpr ofExprs ofOtherwise ofBranch ofBranches ofPredicate ofPredicates
  ofClause ofOperand ofSubquery ofSource ofFrom ofJoins ofWiths ofUnions ofSelect ofQuery)

/-! ## Where the step goes -/

/-- The nodes directly below a node that the step goes on to. -/
def Node.entered : Node → List Node
  | .expr e => e.reached
  | .operand (.subquery s) => s.parts
  | .operand _ => []
  | .predicate (.compare (.column _) _ right) => [.operand right]
  | .predicate (.compare _ _ _) => []
  | .predicate p => p.parts
  | .select q => q.parts

theorem Node.mem_parts_of_mem_entered {m n : Node} (h : m ∈ n.entered) : m ∈ n.parts := by
  cases n with
  | expr e => exact Expr.mem_parts_of_mem_reached h
  | operand e =>
    cases e with
    | subquery s => exact h
    | _ => exact absurd h List.not_mem_nil
  | predicate p =>
    cases p with
    | compare left operator right =>
      cases left with
      | column c => exact h
      | _ => exact absurd h List.not_mem_nil
    | _ => exact h
  | select q => exact h

/-- `m.EnteredFrom n`: the step comes from the node `n` to the node `m`, unless it stops before. -/
def Node.EnteredFrom (m n : Node) : Prop :=
  Relation.ReflTransGen (fun a b => b ∈ a.entered) n m

theorem Node.EnteredFrom.within {m n : Node} (h : m.EnteredFrom n) : m.Within n :=
  Relation.ReflTransGen.mono (fun _ _ => mem_parts_of_mem_entered) _ _ h

/-- `q.Enters n`: the step from the query comes to the node `n`, unless it stops before. -/
def Query.Enters (q : Query) (n : Node) : Prop :=
  ∃ root ∈ q.parts, n.EnteredFrom root

/-! ## Flaws -/

/-- The subquery that rows come from, if it is one. -/
def Source.slots : Source → List Subquery
  | .table _ => []
  | .subquery s => [s]

/-- The subqueries of a SELECT itself. -/
def Select.slots (q : Select) : List Subquery :=
  q.withs.map (·.query) ++ q.source.toList.flatMap (·.source.slots)
    ++ q.joins.flatMap (·.source.slots) ++ q.unions.map (·.query)

/-- The subqueries of a node itself, those that have no query included. -/
def Node.slots : Node → List Subquery
  | .expr (.subquery s) => [s]
  | .operand (.subquery s) => [s]
  | .select q => q.slots
  | _ => []

/-- What the step stops at, and the fault that it then tells. -/
inductive Node.Flaw : Node → Unsupported → Prop where
  | branch {branches : List Branch} {otherwise : Option Expr} {label : Option String} {b : Branch}
      (mem : b ∈ branches) (incomplete : ¬ b.Complete) :
      Flaw (.expr (.cases branches otherwise label)) .incompleteBranch
  | left {left right : Expr} {operator : String} (computed : ∀ c, left ≠ .column c) :
      Flaw (.predicate (.compare left operator right)) .columnExpected
  | negand : Flaw (.predicate (.not none)) .missingNegand
  | raw {sql : String} {label : Option String} :
      Flaw (.operand (.raw sql label)) (.computedOperand .raw)
  | call {function : String} {args : List Expr} {label : Option String} :
      Flaw (.operand (.call function args label)) (.computedOperand .function)
  | cases {branches : List Branch} {otherwise : Option Expr} {label : Option String} :
      Flaw (.operand (.cases branches otherwise label)) (.computedOperand .cases)
  | slot {n : Node} {s : Subquery} (mem : s ∈ n.slots) (empty : s.select = none) :
      Flaw n .emptySubquery

theorem Source.isSome_of_fits {source : Source} (h : source.Fits) :
    ∀ s ∈ source.slots, s.select.isSome := by
  cases source with
  | table name => exact nofun
  | subquery s => exact List.forall_mem_singleton.mpr h

/-- A node that fits has no empty subquery. -/
theorem Node.isSome_of_fits {n : Node} (h : n.Fits) : ∀ s ∈ n.slots, s.select.isSome := by
  cases n with
  | expr e =>
    cases e with
    | subquery s => exact List.forall_mem_singleton.mpr h
    | _ => exact nofun
  | operand e =>
    cases e with
    | subquery s => exact List.forall_mem_singleton.mpr h
    | _ => exact nofun
  | predicate p => exact nofun
  | select q =>
    obtain ⟨withs, source, joins, unions⟩ := h
    simp only [slots, Select.slots, List.forall_mem_append, List.forall_mem_map,
      List.forall_mem_flatMap, Option.mem_toList]
    exact ⟨⟨⟨withs, fun f hf => Source.isSome_of_fits (source f hf)⟩,
      fun j hj => Source.isSome_of_fits (joins j hj)⟩, unions⟩

/-- A node with a flaw does not fit. -/
theorem Node.Flaw.not_fits {n : Node} {f : Unsupported} (h : n.Flaw f) : ¬ n.Fits := by
  intro hfits
  cases h with
  | branch mem incomplete => exact incomplete (hfits _ mem)
  | @left left right operator computed =>
    cases left with
    | column c => exact computed c rfl
    | _ => exact hfits
  | negand => exact nomatch hfits
  | raw => exact hfits
  | call => exact hfits
  | cases => exact hfits
  | slot mem empty =>
    have hsome := isSome_of_fits hfits _ mem
    rw [empty] at hsome
    exact nomatch hsome

/-! ## One node at a time -/

/-- The step stops at a node with a fault. -/
def Node.StopsWith (f : Unsupported) : Node → Prop
  | .expr e => ofExpr e = .error f
  | .operand e => ofOperand e = .error f
  | .predicate p => ofPredicate p = .error f
  | .select q => ofSelect q = .error f

/-- The step stops at an empty subquery, or in one of some nodes. -/
def Stop (f : Unsupported) (slots : List Subquery) (nodes : List Node) : Prop :=
  (f = .emptySubquery ∧ ∃ s ∈ slots, s.select = none) ∨ ∃ m ∈ nodes, m.StopsWith f

section Stop

variable {f : Unsupported} {slots slots' : List Subquery} {nodes nodes' : List Node}

theorem Stop.mono (h : Stop f slots nodes) (hslots : slots ⊆ slots') (hnodes : nodes ⊆ nodes') :
    Stop f slots' nodes' := by
  rcases h with ⟨hf, s, hs, hnone⟩ | ⟨m, hm, hstops⟩
  · exact .inl ⟨hf, s, hslots hs, hnone⟩
  · exact .inr ⟨m, hnodes hm, hstops⟩

/-- What stops at one of several items stops at all of them together. -/
theorem Stop.of_items {α : Type} {xs : List α} {itemSlots : α → List Subquery}
    {itemNodes : α → List Node} (h : ∃ x ∈ xs, Stop f (itemSlots x) (itemNodes x)) :
    Stop f (xs.flatMap itemSlots) (xs.flatMap itemNodes) := by
  obtain ⟨x, hx, h⟩ := h
  exact h.mono (fun _ hs => List.mem_flatMap.mpr ⟨x, hx, hs⟩)
    fun _ hm => List.mem_flatMap.mpr ⟨x, hx, hm⟩

theorem stop_of_ofSubquery {s : Subquery} (h : ofSubquery s = .error f) : Stop f [s] s.parts := by
  obtain ⟨select, label⟩ := s
  cases select with
  | none =>
    obtain rfl : Unsupported.emptySubquery = f := Except.error.inj h
    exact .inl ⟨rfl, _, List.mem_singleton_self _, rfl⟩
  | some q => exact .inr ⟨.select q, List.mem_singleton_self _, h⟩

theorem stop_of_ofExprs {es : List Expr} (h : ofExprs es = .error f) :
    ∃ m ∈ es.map Node.expr, m.StopsWith f := by
  obtain ⟨e, he, hstops⟩ := exists_fault_of_each ofExprs ofExpr rfl (fun _ _ => ⟨_, rfl⟩) h
  exact ⟨.expr e, List.mem_map_of_mem he, hstops⟩

theorem stop_of_ofPredicates {ps : List Predicate} (h : ofPredicates ps = .error f) :
    ∃ m ∈ ps.map Node.predicate, m.StopsWith f := by
  obtain ⟨p, hp, hstops⟩ := Statement.exists_fault_of_ofPredicates h
  exact ⟨.predicate p, List.mem_map_of_mem hp, hstops⟩

theorem stop_of_ofClause {clause : Option Predicate} (h : ofClause clause = .error f) :
    ∃ m ∈ clauseParts clause, m.StopsWith f := by
  cases clause with
  | none => exact nomatch h
  | some p =>
    rw [ofClause] at h
    exact ⟨.predicate p, List.mem_singleton_self _, bind_pure_eq_error.mp h⟩

theorem stop_of_ofOtherwise {otherwise : Option Expr} (h : ofOtherwise otherwise = .error f) :
    ∃ m ∈ otherwise.toList.map Node.expr, m.StopsWith f := by
  cases otherwise with
  | none => exact nomatch h
  | some e =>
    rw [ofOtherwise] at h
    exact ⟨.expr e, List.mem_singleton_self _, bind_pure_eq_error.mp h⟩

/-- The step stops at a branch that lacks a part, or in one of the two parts. -/
theorem stop_of_ofBranch {b : Branch} (h : ofBranch b = .error f) :
    (f = .incompleteBranch ∧ ¬ b.Complete) ∨ ∃ m ∈ b.reached, m.StopsWith f := by
  obtain ⟨condition, result⟩ := b
  cases condition with
  | none => exact .inl ⟨(Except.error.inj h).symm, fun complete => nomatch complete.1⟩
  | some p =>
    cases result with
    | none => exact .inl ⟨(Except.error.inj h).symm, fun complete => nomatch complete.2⟩
    | some e =>
      rw [ofBranch] at h
      rcases bind_eq_error.mp h with h | ⟨_, -, h⟩
      · exact .inr ⟨.predicate p, List.mem_cons_self, h⟩
      · exact .inr ⟨.expr e, List.mem_cons_of_mem _ (List.mem_singleton_self _),
          bind_pure_eq_error.mp h⟩

theorem stop_of_ofBranches {bs : List Branch} (h : ofBranches bs = .error f) :
    (f = .incompleteBranch ∧ ∃ b ∈ bs, ¬ b.Complete)
      ∨ ∃ m ∈ bs.flatMap Branch.reached, m.StopsWith f := by
  obtain ⟨b, hb, hstops⟩ := exists_fault_of_each ofBranches ofBranch rfl (fun _ _ => ⟨_, rfl⟩) h
  rcases stop_of_ofBranch hstops with ⟨hf, incomplete⟩ | ⟨m, hm, hstops⟩
  · exact .inl ⟨hf, b, hb, incomplete⟩
  · exact .inr ⟨m, List.mem_flatMap.mpr ⟨b, hb, hm⟩, hstops⟩

theorem stop_of_ofSource {source : Source} (h : ofSource source = .error f) :
    Stop f source.slots source.parts := by
  cases source with
  | table name => exact nomatch h
  | subquery s =>
    rw [ofSource] at h
    exact stop_of_ofSubquery (bind_pure_eq_error.mp h)

theorem stop_of_ofFrom {source : Option FromClause} (h : ofFrom source = .error f) :
    Stop f (source.toList.flatMap (·.source.slots)) (source.toList.flatMap (·.source.parts)) := by
  cases source with
  | none => exact nomatch h
  | some clause =>
    obtain ⟨source, label⟩ := clause
    rw [ofFrom] at h
    exact .of_items ⟨_, List.mem_singleton_self _, stop_of_ofSource (bind_pure_eq_error.mp h)⟩

theorem stop_of_ofJoins {joins : List JoinClause} (h : ofJoins joins = .error f) :
    Stop f (joins.flatMap (·.source.slots)) (joins.flatMap JoinClause.parts) := by
  refine .of_items (exists_fault_of_steps ofJoins rfl (fun j rest h => ?_) h)
  obtain ⟨kind, source, label, condition⟩ := j
  rw [ofJoins] at h
  rcases bind_eq_error.mp h with h | ⟨_, -, h⟩
  · exact .inl ((stop_of_ofSource h).mono (List.Subset.refl _) (List.subset_append_left _ _))
  rcases bind_eq_error.mp h with h | ⟨_, -, h⟩
  · exact .inl (.inr ⟨.predicate condition,
      List.mem_append_right _ (List.mem_singleton_self _), h⟩)
  · exact .inr (bind_pure_eq_error.mp h)

theorem stop_of_ofWiths {withs : List WithClause} (h : ofWiths withs = .error f) :
    Stop f (withs.map (·.query)) (withs.flatMap (·.query.parts)) := by
  obtain ⟨w, hw, hstops⟩ := exists_fault_of_each ofWiths (fun w => ofSubquery w.query) rfl
    (fun ⟨_, _⟩ _ => ⟨_, rfl⟩) h
  rw [List.map_eq_flatMap]
  exact .of_items ⟨w, hw, stop_of_ofSubquery hstops⟩

theorem stop_of_ofUnions {unions : List UnionMember} (h : ofUnions unions = .error f) :
    Stop f (unions.map (·.query)) (unions.flatMap (·.query.parts)) := by
  obtain ⟨u, hu, hstops⟩ := exists_fault_of_each ofUnions (fun u => ofSubquery u.query) rfl
    (fun ⟨_, _⟩ _ => ⟨_, rfl⟩) h
  rw [List.map_eq_flatMap]
  exact .of_items ⟨u, hu, stop_of_ofSubquery hstops⟩

/-- A stop at an empty subquery of a node is a flaw of the node. -/
theorem Stop.flaw {n : Node} (h : Stop f n.slots n.entered) :
    n.Flaw f ∨ ∃ m ∈ n.entered, m.StopsWith f :=
  h.imp_left fun ⟨hf, _, hs, hnone⟩ => hf ▸ .slot hs hnone

theorem Expr.flaw_or_entered {e : Expr} (h : ofExpr e = .error f) :
    (Node.expr e).Flaw f ∨ ∃ m ∈ (Node.expr e).entered, m.StopsWith f := by
  cases e with
  | subquery s =>
    rw [ofExpr] at h
    exact Stop.flaw (stop_of_ofSubquery (bind_pure_eq_error.mp h))
  | call function args label =>
    rw [ofExpr] at h
    exact .inr (stop_of_ofExprs (bind_pure_eq_error.mp h))
  | cases branches otherwise label =>
    rw [ofExpr] at h
    rcases bind_eq_error.mp h with h | ⟨_, -, h⟩
    · rcases stop_of_ofBranches h with ⟨rfl, b, hb, incomplete⟩ | ⟨m, hm, hstops⟩
      · exact .inl (.branch hb incomplete)
      · exact .inr ⟨m, List.mem_append_left _ hm, hstops⟩
    · obtain ⟨m, hm, hstops⟩ := stop_of_ofOtherwise (bind_pure_eq_error.mp h)
      exact .inr ⟨m, List.mem_append_right _ hm, hstops⟩
  | column c => exact nomatch h
  | value v label => exact nomatch h
  | array items label => exact nomatch h
  | tuple items label => exact nomatch h
  | raw sql label => exact nomatch h

theorem Expr.flaw_or_entered_operand {e : Expr} (h : ofOperand e = .error f) :
    (Node.operand e).Flaw f ∨ ∃ m ∈ (Node.operand e).entered, m.StopsWith f := by
  cases e with
  | subquery s =>
    rw [ofOperand] at h
    exact Stop.flaw (stop_of_ofSubquery (bind_pure_eq_error.mp h))
  | raw sql label =>
    obtain rfl := Except.error.inj h
    exact .inl .raw
  | call function args label =>
    obtain rfl := Except.error.inj h
    exact .inl .call
  | cases branches otherwise label =>
    obtain rfl := Except.error.inj h
    exact .inl .cases
  | column c => exact nomatch h
  | value v label => exact nomatch h
  | array items label => exact nomatch h
  | tuple items label => exact nomatch h

theorem Predicate.flaw_or_entered {p : Predicate} (h : ofPredicate p = .error f) :
    (Node.predicate p).Flaw f ∨ ∃ m ∈ (Node.predicate p).entered, m.StopsWith f := by
  cases p with
  | compare left operator right =>
    cases left with
    | column c =>
      rw [ofPredicate] at h
      exact .inr ⟨.operand right, List.mem_singleton_self _, bind_pure_eq_error.mp h⟩
    | _ =>
      obtain rfl := Except.error.inj h
      exact .inl (.left nofun)
  | and children grouped =>
    rw [ofPredicate] at h
    exact .inr (stop_of_ofPredicates (bind_pure_eq_error.mp h))
  | or children =>
    rw [ofPredicate] at h
    exact .inr (stop_of_ofPredicates (bind_pure_eq_error.mp h))
  | not child =>
    cases child with
    | none =>
      obtain rfl := Except.error.inj h
      exact .inl .negand
    | some p =>
      rw [ofPredicate] at h
      exact .inr ⟨.predicate p, List.mem_singleton_self _, bind_pure_eq_error.mp h⟩
  | raw sql => exact nomatch h

theorem Select.stop_of_error {q : Select} (h : ofSelect q = .error f) : Stop f q.slots q.parts := by
  have hslots := List.Subset.refl q.slots
  have hparts := List.Subset.refl q.parts
  nth_rewrite 1 [slots] at hslots
  nth_rewrite 1 [parts] at hparts
  simp only [List.append_subset] at hslots hparts
  obtain ⟨⟨⟨sWiths, sFrom⟩, sJoins⟩, sUnions⟩ := hslots
  obtain ⟨⟨⟨⟨⟨⟨⟨pWiths, pColumns⟩, pFrom⟩, pJoins⟩, pPrewhere⟩, pFilter⟩, pHaving⟩, pUnions⟩ := hparts
  obtain ⟨columns, source, joins, withs, prewhere, filter, groupBy, having, orderBy, limit, offset,
    final, settings, format, unions, recorded⟩ := q
  have hnodes : ∀ {slots nodes nodes'}, nodes ⊆ nodes' → (∃ m ∈ nodes, m.StopsWith f) →
      Stop f slots nodes' := by
    rintro slots nodes nodes' hsub ⟨m, hm, hstops⟩
    exact .inr ⟨m, hsub hm, hstops⟩
  -- the eight steps that can fail, in the order in which they are taken
  rw [ofSelect] at h
  rcases bind_eq_error.mp h with h | ⟨_, -, h⟩
  · exact (stop_of_ofWiths h).mono sWiths pWiths
  rcases bind_eq_error.mp h with h | ⟨_, -, h⟩
  · exact hnodes pColumns (stop_of_ofExprs h)
  rcases bind_eq_error.mp h with h | ⟨_, -, h⟩
  · exact (stop_of_ofFrom h).mono sFrom pFrom
  rcases bind_eq_error.mp h with h | ⟨_, -, h⟩
  · exact (stop_of_ofJoins h).mono sJoins pJoins
  rcases bind_eq_error.mp h with h | ⟨_, -, h⟩
  · exact hnodes pPrewhere (stop_of_ofClause h)
  rcases bind_eq_error.mp h with h | ⟨_, -, h⟩
  · exact hnodes pFilter (stop_of_ofClause h)
  rcases bind_eq_error.mp h with h | ⟨_, -, h⟩
  · exact hnodes pHaving (stop_of_ofClause h)
  · exact (stop_of_ofUnions (bind_pure_eq_error.mp h)).mono sUnions pUnions

/-- **A step stops at a flaw of the node, or at a node that is entered from it.** -/
theorem Node.flaw_or_entered {n : Node} (h : n.StopsWith f) :
    n.Flaw f ∨ ∃ m ∈ n.entered, m.StopsWith f := by
  cases n with
  | expr e => exact e.flaw_or_entered h
  | operand e => exact e.flaw_or_entered_operand h
  | predicate p => exact p.flaw_or_entered h
  | select q => exact Stop.flaw (q.stop_of_error h)

end Stop

/-! ## All nodes -/

theorem Node.exists_flaw_of_stopsWith {f : Unsupported} (n : Node) :
    n.StopsWith f → ∃ m : Node, m.EnteredFrom n ∧ m.Flaw f := by
  induction n using Node.induction with
  | step n ih =>
    intro h
    rcases n.flaw_or_entered h with hflaw | ⟨m, hm, hstops⟩
    · exact ⟨n, .refl, hflaw⟩
    · obtain ⟨l, hl, hflaw⟩ := ih m (mem_parts_of_mem_entered hm) hstops
      exact ⟨l, .head hm hl, hflaw⟩

/-- No node with a counterpart has a flaw below it. -/
theorem Node.Steps.not_flaw {m n : Node} {f : Unsupported} (h : n.Steps) (hm : m.Within n) :
    ¬ m.Flaw f := by
  intro hflaw
  have hsteps : m.Steps := every_of_step (fun n h => (steps_iff.mp h).2) h m hm
  exact hflaw.not_fits (steps_iff.mp hsteps).1

namespace Query

/-- The step from a query stops at one of its topmost nodes. -/
theorem exists_stop_of_error {q : Query} {f : Unsupported} (h : ofQuery q = .error f) :
    ∃ n ∈ q.parts, n.StopsWith f := by
  cases q with
  | select q => exact ⟨.select q, List.mem_singleton_self _, h⟩
  | insert q => exact nomatch h
  | update q => exact stop_of_ofClause (bind_pure_eq_error.mp h)
  | delete q => exact stop_of_ofClause (bind_pure_eq_error.mp h)

/-- **The fault that is told is that of a flaw in the query.** -/
theorem exists_flaw_of_error {q : Query} {f : Unsupported} (h : ofQuery q = .error f) :
    ∃ n, q.Enters n ∧ n.Flaw f := by
  obtain ⟨root, hroot, hstops⟩ := exists_stop_of_error h
  obtain ⟨n, hn, hflaw⟩ := root.exists_flaw_of_stopsWith hstops
  exact ⟨n, ⟨root, hroot, hn⟩, hflaw⟩

/-- A query with a statement has no flaw. -/
theorem not_flaw_of_succeeds {q : Query} (h : Succeeds (ofQuery q)) {n : Node} (hn : q.Enters n)
    {f : Unsupported} : ¬ n.Flaw f := by
  obtain ⟨root, hroot, hn⟩ := hn
  exact (succeeds_ofQuery.mp h root hroot).not_flaw hn.within

theorem errors_stepReport_eq_nil {q : Query} :
    (Statement.stepReport (ofQuery q)).errors = [] ↔ Succeeds (ofQuery q) := by
  cases ofQuery q with
  | error f => exact ⟨nofun, fun h => absurd h (not_succeeds_error f)⟩
  | ok s => exact ⟨fun _ => succeeds_ok s, fun _ => rfl⟩

/-- **A query has a statement without holes, or a flaw.**  Whatever the check has to say about it:

    * if the step reports no error, nothing is missing in the statement, at any depth, and the
      writing of it never meets a missing part: it reads none in a CASE branch, and what it may
      still fail with is neither an empty subquery or member of a UNION nor a NOT without operand;
    * the step reports an error exactly when somewhere in what it enters there is an empty subquery,
      a NOT without operand, an incomplete CASE branch, a test whose left side is no column or one
      whose right side is computed, and the error is that of such a flaw. -/
theorem statement_is_closed_unless_flawed (q : Query) :
    ((Statement.stepReport (ofQuery q)).errors = [] →
        (Statement.orEmpty (ofQuery q)).Closed
          ∧ ∀ f, (Statement.orEmpty (ofQuery q)).toSql = .error f →
              f ≠ .missingBranchPart
                ∧ f.toError.message ∉ ["Subquery is empty", "Set operation without a query",
                    "NOT predicate has no operand"])
      ∧ ((Statement.stepReport (ofQuery q)).errors ≠ [] ↔ ∃ n f, q.Enters n ∧ n.Flaw f)
      ∧ ∀ f, ofQuery q = .error f → ∃ n, q.Enters n ∧ n.Flaw f := by
  refine ⟨fun h => ?_, ⟨fun h => ?_, ?_⟩, fun f => exists_flaw_of_error⟩
  · obtain ⟨s, hs⟩ := errors_stepReport_eq_nil.mp h
    rw [hs]
    refine ⟨Statement.closed_ofQuery hs, fun f hf => ?_⟩
    have hhole := Statement.meetsHole_of_ofQuery hs hf
    refine ⟨?_, Statement.Unwritable.message_notMem hhole⟩
    rintro rfl
    exact nomatch hhole
  · obtain ⟨f, hf⟩ := fails_iff.mpr (mt errors_stepReport_eq_nil.mpr h)
    obtain ⟨n, hn, hflaw⟩ := exists_flaw_of_error hf
    exact ⟨n, f, hn, hflaw⟩
  · rintro ⟨n, f, hn, hflaw⟩ h
    exact not_flaw_of_succeeds (errors_stepReport_eq_nil.mp h) hn hflaw

/-- A CASE with an empty alias is refused by the check, and has a closed statement all the same.  A
    NOT without operand stops the step below other conditions too. -/
theorem statement_is_closed_unless_flawed_of_case_and_not :
    let labelled : Query := .select { Select.empty with columns := [.cases
      [⟨some (.not (some (.raw "a"))), some (.subquery ⟨some .empty, none⟩)⟩] none (some "")] }
    let negated : Query := .delete { table := "t", filter := some (.or [.raw "a", .not none]) }
    (labelled.findings.clean = false ∧ (Statement.stepReport (ofQuery labelled)).errors = []
        ∧ (Statement.orEmpty (ofQuery labelled)).Closed)
      ∧ (negated.Enters (.predicate (.not none))
        ∧ (Statement.stepReport (ofQuery negated)).errors ≠ []) := by
  intro labelled negated
  have hstep : (Statement.stepReport (ofQuery labelled)).errors = [] := rfl
  have henters : negated.Enters (.predicate (.not none)) :=
    ⟨_, List.mem_singleton_self _, .single (List.mem_cons_of_mem _ (List.mem_singleton_self _))⟩
  obtain ⟨hclosed, -, -⟩ := statement_is_closed_unless_flawed labelled
  obtain ⟨-, hflawed, -⟩ := statement_is_closed_unless_flawed negated
  exact ⟨⟨rfl, hstep, (hclosed hstep).1⟩, henters, hflawed.mpr ⟨_, _, henters, .negand⟩⟩

end Query

end SqlLoom
