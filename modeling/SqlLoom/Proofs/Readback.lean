/-
  A condition reads back as the tree that it was written from.

  Writing decides at each AND, OR and NOT whether to put brackets around what is below, and it decides
  by three things at once: whether an AND was grouped on purpose, how many operands it has, and
  whether it is at the top.  What the reader makes of the SQL is therefore not the tree itself but its
  SPREAD: the operands that the SQL adds to the group in which it stands.

  1. `Predicate.adds_spread` — the SQL of a condition adds its spread, by induction over the tree;
     every AND and OR has to have an operand, since there is nothing to read otherwise.
  2. `flat_spread`           — the spread has the operands of the normal form of the tree.
  3. `conditions_read_back`  — both together, for the conditions of a query that compiles.

  The tree of a condition has no brackets, no marks of where an AND came from and no `top` in it.
-/
import SqlLoom.Proofs.Written.Conditions
import SqlLoom.Proofs.Written.Leaf

namespace SqlLoom

open Outcome
open Sql (code mask Adds)

/-! ## The tree of a condition -/

namespace Predicate

/-- The text of a test on its own. -/
def ownText (p : Predicate) : String :=
  match Statement.ofPredicate p with
  | .error _ => ""
  | .ok x =>
    match Statement.predicateSql true x with
    | .error _ => ""
    | .ok sql => sql.text

theorem ownText_of_writes {p : Predicate} {sql : Sql} (h : p.Writes true sql) :
    p.ownText = sql.text := by
  obtain ⟨x, hx, hsql⟩ := h
  rw [ownText, hx]
  show (match Statement.predicateSql true x with
    | .error _ => ""
    | .ok sql => sql.text) = _
  rw [hsql]

mutual

/-- The tree of a condition, with tests and raw fragments as leaves. -/
def tree : Predicate → Tree
  | .compare left operator right => .leaf (ownText (.compare left operator right))
  | .and children _ => .and (trees children)
  | .or children => .or (trees children)
  | .not child => .not (negandTree child)
  | .raw text => .leaf text

/-- The trees of several conditions. -/
def trees : List Predicate → List Tree
  | [] => []
  | p :: ps => tree p :: trees ps

/-- The tree below a NOT; a missing operand is the empty AND. -/
def negandTree : Option Predicate → Tree
  | none => .and []
  | some p => tree p

end

/-! ## The spread of a condition -/

mutual

/-- The operands that the SQL of a condition adds to the group in which it stands. -/
def spread (top : Bool) : Predicate → List Tree
  | .compare left operator right => [.leaf (ownText (.compare left operator right))]
  | .and children grouped =>
    if Statement.bracketsAnd grouped top children.length then
      [.conjunction (spreads children).flatten]
    else (spreads children).flatten
  | .or children => [.disjunction ((spreads children).map .conjunction)]
  | .not child => [.not (.conjunction (negandSpread child))]
  | .raw text => [.leaf text]

/-- The spreads of several conditions that stand below another one. -/
def spreads : List Predicate → List (List Tree)
  | [] => []
  | p :: ps => spread false p :: spreads ps

/-- The spread of the operand of a NOT, which is at the top again. -/
def negandSpread : Option Predicate → List Tree
  | none => []
  | some p => spread true p

end

theorem spreads_eq_map (ps : List Predicate) : spreads ps = ps.map (spread false) := by
  induction ps with
  | nil => rfl
  | cons p ps ih => rw [spreads, ih, List.map_cons]

/-! ### Its normal form -/

mutual

/-- A condition and its spread have the same operands in normal form. -/
theorem flat_spread (top : Bool) : ∀ p : Predicate, (p.spread top).flatMap Tree.flat = p.tree.flat
  | .compare left operator right => rfl
  | .raw text => rfl
  | .and children grouped => by
    have hchildren : (spreads children).flatten.flatMap Tree.flat
        = (trees children).flatMap Tree.flat := flat_spreads children
    rw [tree, Tree.flat_and, spread]
    split
    · rw [List.flatMap_singleton, Tree.flat_conjunction]
      exact hchildren
    · exact hchildren
  | .or children => by
    -- an OR below an OR stays where it is, so the normal forms of the operands are compared whole
    rw [spread, tree, List.flatMap_singleton, Tree.flat, Tree.flat, Tree.normal_disjunction,
      Tree.normal_or, List.map_map]
    exact congrArg (fun ts => (Tree.disjunction ts).conjuncts) (normal_spreads children)
  | .not child => by
    have hchild : (Tree.conjunction (negandSpread child)).normal = (negandTree child).normal :=
      normal_negandSpread child
    rw [spread, tree, List.flatMap_singleton, Tree.flat, Tree.flat, Tree.normal, Tree.normal, hchild]

theorem flat_spreads : ∀ ps : List Predicate,
    (spreads ps).flatten.flatMap Tree.flat = (trees ps).flatMap Tree.flat
  | [] => rfl
  | p :: ps => by
    rw [spreads, trees, List.flatten_cons, List.flatMap_append, List.flatMap_cons,
      flat_spread false p, flat_spreads ps]

theorem normal_spreads : ∀ ps : List Predicate,
    (spreads ps).map (Tree.normal ∘ Tree.conjunction) = (trees ps).map Tree.normal
  | [] => rfl
  | p :: ps => by
    have hp : (Tree.conjunction (p.spread false)).normal = p.tree.normal :=
      Tree.normal_congr ((Tree.flat_conjunction _).trans (flat_spread false p))
    rw [spreads, trees, List.map_cons, List.map_cons, normal_spreads ps]
    exact congrArg (· :: _) hp

theorem normal_negandSpread : ∀ child : Option Predicate,
    (Tree.conjunction (negandSpread child)).normal = (negandTree child).normal
  | none => rfl
  | some p => Tree.normal_congr ((Tree.flat_conjunction _).trans (flat_spread true p))

end

/-- What the reader makes of a condition is the condition. -/
theorem normal_spread (top : Bool) (p : Predicate) :
    (Tree.conjunction (p.spread top)).normal = p.tree.normal :=
  Tree.normal_congr ((Tree.flat_conjunction _).trans (flat_spread top p))

end Predicate

/-! ## Reading the spread -/

/-- Every AND and OR has an operand. -/
def Node.Filled : Node → Prop
  | .predicate (.and children _) => children ≠ []
  | .predicate (.or children) => children ≠ []
  | _ => True

/-- What a node has to keep so that conditions are read back. -/
def Node.Readable (n : Node) : Prop :=
  n.Tame ∧ n.Filled

theorem Node.Every.imp {rule rule' : Node → Prop} (h : ∀ n, rule n → rule' n) {n : Node}
    (hn : n.Every rule) : n.Every rule' :=
  fun m hm => h m (hn m hm)

/-- Brackets around an AND are brackets in the reading, and none are none. -/
theorem Sql.adds_andSql {grouped top : Bool} {parts : List Sql} {tss : List (List Tree)}
    (h : List.Forall₂ Adds parts tss) (hne : parts ≠ []) :
    Adds (Statement.andSql grouped top parts)
      (if Statement.bracketsAnd grouped top parts.length then [.conjunction tss.flatten]
        else tss.flatten) := by
  have hbody : Adds (Sql.joined " AND " parts) tss.flatten := Sql.adds_joined_and h hne
  unfold Statement.andSql
  split
  · exact hbody.readsAs.inParens
  · exact hbody

/-- What the SQL of a node adds, if the node is a condition. -/
def Node.Spreads (n : Node) : Prop :=
  ∀ p, n = .predicate p → ∀ top sql, p.Writes top sql → Adds sql (p.spread top)

theorem Predicate.adds_spreads {ps : List Predicate} {parts : List Sql}
    (h : ∀ p ∈ ps, (Node.predicate p).Spreads) (hparts : List.Forall₂ (Predicate.Writes false) ps parts) :
    List.Forall₂ Adds parts (spreads ps) := by
  rw [spreads_eq_map, List.forall₂_map_right_iff]
  exact forall₂_swap hparts fun p hp sql hsql => h p hp p rfl false sql hsql

theorem Predicate.adds_step {p : Predicate} (hread : (Node.predicate p).Every Node.Readable)
    (h : ∀ n ∈ p.parts, n.Spreads) {top : Bool} {sql : Sql} (hsql : p.Writes top sql) :
    Adds sql (p.spread top) := by
  obtain ⟨⟨hsound, hraw, -⟩, hfilled⟩ := hread.here
  cases p with
  | compare left operator right =>
    have hright : (Node.operand right).Every Node.Readable :=
      hread.below (List.mem_append_right _ (List.mem_singleton.mpr rfl))
    have hbalanced : ∀ {n : Node}, n.Every Node.Readable → n.Balanced (mask false) := by
      intro n hn top sql hsql
      rw [Sql.replaced_mask_false]
      exact (Node.wellFormed (hn.imp fun _ => And.left) top sql hsql).balanced
    -- the text of a test does not depend on where it stands
    have hown : (Predicate.compare left operator right).Writes true sql :=
      writes_compare.mpr (writes_compare.mp hsql)
    have hadds := adds_compare (mask false) hsound (hbalanced hright)
      (fun n hn => hbalanced (hright.below hn)) hsql
    rw [Sql.replaced_mask_false] at hadds
    rw [spread, ownText_of_writes hown]
    exact hadds
  | and children grouped =>
    obtain ⟨parts, hparts, rfl⟩ := writes_and.mp hsql
    have hadds := adds_spreads (fun q hq => h _ (List.mem_map.mpr ⟨q, hq, rfl⟩)) hparts
    have hne : parts ≠ [] := mt (forall₂_nil_iff hparts).mpr hfilled
    rw [spread, hparts.length_eq]
    exact Sql.adds_andSql hadds hne
  | or children =>
    obtain ⟨parts, hparts, rfl⟩ := writes_or.mp hsql
    have hadds := adds_spreads (fun q hq => h _ (List.mem_map.mpr ⟨q, hq, rfl⟩)) hparts
    have hne : parts ≠ [] := mt (forall₂_nil_iff hparts).mpr hfilled
    rw [spread]
    exact (Sql.readsAs_joined_or hadds hne).inParens
  | not child =>
    obtain ⟨q, body, rfl, hbody, rfl⟩ := writes_not.mp hsql
    have hadds : Adds body (q.spread true) :=
      h _ (List.mem_singleton.mpr rfl) q rfl true body hbody
    rw [spread, negandSpread]
    exact hadds.readsAs.not
  | raw text => exact hraw.elim

/-- **The SQL of a condition adds its spread.** -/
theorem Predicate.adds_spread {p : Predicate} (h : (Node.predicate p).Every Node.Readable)
    {top : Bool} {sql : Sql} (hsql : p.Writes top sql) : Adds sql (p.spread top) := by
  -- the induction is over nodes of all kinds; it says nothing about those that are no conditions
  have hall : ∀ n : Node, n.Every Node.Readable → n.Spreads := by
    intro n
    induction n using Node.induction with
    | step n ih =>
      rintro hn p rfl top sql hsql
      exact adds_step hn (fun m hm => ih m hm (hn.below hm)) hsql
  exact hall _ h p rfl top sql hsql

/-- A condition reads back as the tree that it was written from, up to normal form. -/
theorem Predicate.readCondition_of_writes {p : Predicate}
    (h : (Node.predicate p).Every Node.Readable) {top : Bool} {sql : Sql}
    (hsql : p.Writes top sql) :
    ∃ t, readCondition sql.text.toList = some t ∧ t.normal = p.tree.normal := by
  have hlexable : sql.Lexable := (Node.wellFormed (h.imp fun _ => And.left) top sql hsql).lexable
  refine ⟨_, ?_, normal_spread top p⟩
  rw [Sql.text, String.toList_ofList]
  exact Sql.readCondition_of_readsAs (adds_spread h hsql).readsAs (Sql.lex_chars hlexable)

/-! ## Whole queries -/

theorem Query.readable_of_condition {q : Query} {sql : Sql} (hsql : q.compile = .ok sql)
    (hraw : q.RawFree) (hname : q.Bracketless) (hfilled : q.Every Node.Filled) {keyword : String}
    {p : Predicate} (hp : q.Condition keyword p) : (Node.predicate p).Every Node.Readable := by
  obtain ⟨hclean, -⟩ := compile_iff.mp hsql
  obtain ⟨-, hsound⟩ := clean_iff_every.mp hclean
  have hhas : q.Has (.predicate p) := has_of_condition hp
  intro m hm
  exact ⟨⟨hsound.node hhas m hm, Query.Every.node hraw hhas m hm, Query.Every.node hname.2 hhas m hm⟩,
    hfilled.node hhas m hm⟩

/-- **Headline.**  In a query that compiles, without raw SQL and without brackets in names, every
    condition stands behind its keyword and reads back as the tree that it was written from, at the
    top or not.  Reading loses only what `Tree.normal` takes away: an AND directly below an AND, and
    an AND or OR of a single operand. -/
theorem conditions_read_back {q : Query} {sql : Sql} (hsql : q.compile = .ok sql) (hraw : q.RawFree)
    (hname : q.Bracketless) (hfilled : q.Every Node.Filled) {keyword : String} {p : Predicate}
    (hp : q.Condition keyword p) :
    (∃ body, p.Writes true body ∧ code keyword ++ body <:+: sql)
      ∧ ∀ top, (∃ body, p.Writes top body) ∧ ∀ body, p.Writes top body →
          ∃ t, readCondition body.text.toList = some t ∧ t.normal = p.tree.normal := by
  have hread : (Node.predicate p).Every Node.Readable :=
    Query.readable_of_condition hsql hraw hname hfilled hp
  obtain ⟨-, hwrites⟩ := Query.compile_iff.mp hsql
  obtain ⟨_, ⟨body, hbody, rfl⟩, hinfix⟩ := Query.holds_condition hwrites hp
  refine ⟨⟨body, hbody, hinfix⟩, fun top => ⟨Predicate.writes_elsewhere hbody top, ?_⟩⟩
  intro body' hbody'
  exact Predicate.readCondition_of_writes hread hbody'

/-- A condition that has each of the connectives, a BETWEEN and a text that looks like SQL. -/
def Predicate.stale : Predicate :=
  .and
    [.compare (.named "age") "BETWEEN" (.array [.int 18, .int 65] none),
      .and
        [.compare (.named "city") "=" (.lit (.text ") OR (")),
          .or
            [.not (some (.and
                [.compare (.named "seen") "IS NULL" (.lit .null),
                  .compare (.named "role") "NOT IN" (.array [.int 1] none)] true)),
              .and [.compare (.named "kind") "=" (.lit (.int 2))] true]] true] false

/-- Removes what `Predicate.stale` says. -/
def Query.purge : Query :=
  .delete { table := "sessions", filter := some .stale }

/-- Its SQL has brackets of a grouped AND, of an OR, of a NOT and of a list, and the AND of BETWEEN. -/
theorem conditions_read_back_of_purge :
    ∃ sql, Query.purge.compile = .ok sql ∧ Query.purge.RawFree ∧ Query.purge.Bracketless
      ∧ Query.purge.Every Node.Filled ∧ Query.purge.Condition " WHERE " .stale
      ∧ (∃ body, Predicate.stale.Writes true body ∧ code " WHERE " ++ body <:+: sql)
      ∧ ∀ top, (∃ body, Predicate.stale.Writes top body) ∧ ∀ body, Predicate.stale.Writes top body →
          ∃ t, readCondition body.text.toList = some t ∧ t.normal = Predicate.stale.tree.normal := by
  have hcompiles : Succeeds Query.purge.compile := by
    refine ⟨[.code "ALTER TABLE ", .name "sessions", .code " DELETE", .code " WHERE ",
      .name "age", .code " BETWEEN ", .code "18", .code " AND ", .code "65", .code " AND ",
      .code "(", .name "city", .code " = ", .text ") OR (", .code " AND "] ++
      [.code "(", .code "NOT ", .code "(", .name "seen", .code " IS NULL", .code " AND ",
      .name "role", .code " NOT IN ", .code "(", .code "1", .code ")", .code ")",
      .code " OR ", .name "kind", .code " = ", .code "2", .code ")", .code ")"], ?_⟩
    with_unfolding_all rfl
  obtain ⟨sql, hsql⟩ := hcompiles
  have hstale : (Node.predicate .stale).Every fun n => n.RawFree ∧ n.Bracketless ∧ n.Filled := by
    simp [Predicate.stale, Expr.named, Expr.lit, Node.every_and, Node.every_or, Node.every_not,
      Node.every_compare, Node.every_value, Node.every_array, Node.RawFree, Node.Bracketless,
      Node.Filled]
  have hnodes : Query.purge.Every fun n => n.RawFree ∧ n.Bracketless ∧ n.Filled := by
    refine .of_parts fun n hn => ?_
    rw [List.mem_singleton.mp hn]
    exact hstale
  have hraw : Query.purge.RawFree := fun n hn => (hnodes n hn).1
  have htable : Bracketless "sessions" := by
    show '(' ∉ "sessions".toList
    decide
  have hname : Query.purge.Bracketless := ⟨htable, fun n hn => (hnodes n hn).2.1⟩
  have hfilled : Query.purge.Every Node.Filled := fun n hn => (hnodes n hn).2.2
  have hp : Query.purge.Condition " WHERE " .stale := Or.inl (List.mem_singleton.mpr rfl)
  exact ⟨sql, hsql, hraw, hname, hfilled, hp, conditions_read_back hsql hraw hname hfilled hp⟩

end SqlLoom
