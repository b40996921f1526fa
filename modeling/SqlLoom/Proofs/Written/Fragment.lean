/-
  Which fragments are operands.

  A raw condition is written as it was given, without brackets of its own.  Below OR and NOT, and
  alone, nothing else is needed: whatever the fragment is made of stays together.  Among several
  operands of an AND it stays together only if it has no OR outside its own brackets — the reader
  ends the AND there, and the operands behind the fragment go with its last part.

  1. `Predicate.Whole`             — what may be one of several operands of an AND;
     `Predicate.Placed`            — conditions in which every fragment is complete and stands where
                                     it may.
  2. `Sql.Means`                   — what SQL means in a group of its own;
     `Sql.MeansWithin`             — what it means among operands of an AND.
  3. `Predicate.reads_of_placed`   — the SQL of a placed condition means what the condition means,
                                     each leaf taken as its own text is read; by induction over the
                                     condition.
  4. `placed_fragments_are_operands` — so does every clause of a query that compiles, and the WHERE
                                     clause of a builder means all of the conditions given for it.
-/
import SqlLoom.Proofs.Complaints
import SqlLoom.Proofs.Fragment
import SqlLoom.Proofs.Lowered
import SqlLoom.Proofs.Meaning
import SqlLoom.Proofs.Readback
import SqlLoom.Proofs.Written.Names

namespace SqlLoom

open Outcome
open Sql (code mask Adds Spreads ReadsAs)

/-! ## Places of fragments -/

namespace Predicate

/-- A condition that may be one of several operands of an AND: it has no fragment with an OR outside
    of brackets, and no AND that has one. -/
inductive Whole : Predicate → Prop
  | compare (left : Expr) (operator : String) (right : Expr) : Whole (.compare left operator right)
  | and {children : List Predicate} (grouped : Bool) (h : ∀ p ∈ children, Whole p) :
    Whole (.and children grouped)
  | or (children : List Predicate) : Whole (.or children)
  | not (child : Option Predicate) : Whole (.not child)
  | raw {text : String} (h : ∀ g ∈ readGroup text.toList, g.alternatives = []) : Whole (.raw text)

/-- A condition in which every fragment is complete, and whole where an AND has other operands. -/
inductive Placed : Predicate → Prop
  | compare (left : Expr) (operator : String) (right : Expr) : Placed (.compare left operator right)
  | and {children : List Predicate} (grouped : Bool) (h : ∀ p ∈ children, Placed p)
    (whole : 1 < children.length → ∀ p ∈ children, p.Whole) : Placed (.and children grouped)
  | or {children : List Predicate} (h : ∀ p ∈ children, Placed p) : Placed (.or children)
  | not {child : Option Predicate} (h : ∀ p ∈ child, Placed p) : Placed (.not child)
  | raw {text : String} (h : (readGroup text.toList).isSome = true) : Placed (.raw text)

/-- The truth of a leaf: that of its own text, as it is read on its own. -/
def ownTruth (env : String → Bool) (p : Predicate) : Bool :=
  (readCondition p.ownText.toList).any (·.holds env)

/-! ### Lowered conditions -/

/-- A condition in which every AND and OR has an operand. -/
inductive Full : Predicate → Prop
  | compare (left : Expr) (operator : String) (right : Expr) : Full (.compare left operator right)
  | and {children : List Predicate} (grouped : Bool) (hne : children ≠ [])
    (h : ∀ p ∈ children, Full p) : Full (.and children grouped)
  | or {children : List Predicate} (hne : children ≠ []) (h : ∀ p ∈ children, Full p) :
    Full (.or children)
  | not {child : Option Predicate} (h : ∀ p ∈ child, Full p) : Full (.not child)
  | raw (text : String) : Full (.raw text)

theorem Full.conjuncts {p : Predicate} (h : p.Full) :
    p.conjuncts ≠ [] ∧ ∀ q ∈ p.conjuncts, q.Full := by
  unfold Predicate.conjuncts
  split
  · cases h with
    | and _ hne h => exact ⟨hne, h⟩
  · exact ⟨List.cons_ne_nil _ _, fun q hq => List.mem_singleton.mp hq ▸ h⟩

theorem Full.conjoin {tree : Option Predicate} {p : Predicate} (htree : ∀ q ∈ tree, q.Full)
    (h : p.Full) : (Predicate.conjoin tree p).Full := by
  cases tree with
  | none => exact h
  | some current =>
    obtain ⟨hne, hcurrent⟩ := (htree current rfl).conjuncts
    obtain ⟨-, hp⟩ := h.conjuncts
    refine .and false (fun hnil => hne (List.append_eq_nil_iff.mp hnil).1) fun q hq => ?_
    exact (List.mem_append.mp hq).elim (hcurrent q) (hp q)

end Predicate

namespace Lowering

/-- A lowered condition is full. -/
theorem full_of_lower (scope : Option String) (c : Condition) {p : Predicate}
    (h : lower scope c = .ok p) : p.Full := by
  have hall : ∀ {children : List Predicate} {tests : List (List Test)},
      List.Forall₂ (fun p _ => p.Full) children tests → ∀ q ∈ children, q.Full := by
    intro children tests hchildren q hq
    obtain ⟨_, -, hfull⟩ := exists_of_forall₂ hchildren hq
    exact hfull
  have closed : Closed fun p _ => p.Full := {
    test := fun h => by cases h <;> exact .compare _ _ _
    raw := .raw
    and := fun grouped hne h => .and grouped hne (hall h)
    or := fun hne h => .or hne (hall h)
    not := fun h => .not fun q hq => Option.some.inj hq ▸ h }
  exact closed.of_lower scope c h

end Lowering

/-- The conditions that are collected for WHERE are full. -/
theorem full_of_mem_foldl_collect (conditions : List Condition) (tree : Option Predicate)
    (htree : ∀ p ∈ tree, p.Full) :
    ∀ p ∈ conditions.foldl (fun tree c => Clause.collect tree (.filter, c)) tree, p.Full := by
  induction conditions generalizing tree with
  | nil => exact htree
  | cons c conditions ih =>
    refine ih _ fun p hp => ?_
    cases hc : c.toPredicate with
    | ok q =>
      simp only [Clause.collect, hc] at hp
      obtain rfl := Option.some.inj hp
      exact Predicate.Full.conjoin htree (Lowering.full_of_lower none c hc)
    | error f =>
      simp only [Clause.collect, hc] at hp
      exact htree p hp

/-! ## The meaning of SQL -/

namespace Sql

/-- Read in a group of its own, the SQL holds when `truth` does. -/
def Means (sql : Sql) (truth : (String → Bool) → Bool) : Prop :=
  ∃ ands last, Spreads sql ands last
    ∧ ∀ env, (ands ++ [last]).any (·.all (·.holds env)) = truth env

/-- Read among operands of an AND, the SQL adds operands that hold together when `truth` does. -/
def MeansWithin (sql : Sql) (truth : (String → Bool) → Bool) : Prop :=
  ∃ ts, Adds sql ts ∧ ∀ env, ts.all (·.holds env) = truth env

theorem MeansWithin.means {sql : Sql} {truth : (String → Bool) → Bool} (h : MeansWithin sql truth) :
    Means sql truth := by
  obtain ⟨ts, hadds, htruth⟩ := h
  exact ⟨[], ts, Sql.spreads_nil_iff.mpr hadds, fun env => (Bool.or_false _).trans (htruth env)⟩

/-- The tree that the SQL is read as. -/
theorem Means.readsAs {sql : Sql} {truth : (String → Bool) → Bool} (h : Means sql truth) :
    ∃ t, ReadsAs sql t ∧ ∀ env, t.holds env = truth env := by
  obtain ⟨ands, last, hspreads, htruth⟩ := h
  exact ⟨_, hspreads.readsAs, fun env => (Tree.holds_alternatives env _).trans (htruth env)⟩

theorem Means.inParens {a : Sql} {truth : (String → Bool) → Bool} (h : Means a truth) :
    MeansWithin (inParens a) truth := by
  obtain ⟨t, hreads, htruth⟩ := h.readsAs
  exact ⟨[t], hreads.inParens, fun env => (Bool.and_true _).trans (htruth env)⟩

theorem Means.not {a : Sql} {truth : (String → Bool) → Bool} (h : Means a truth) :
    MeansWithin (code "NOT " ++ Sql.inParens a) fun env => !truth env := by
  obtain ⟨t, hreads, htruth⟩ := h.readsAs
  exact ⟨[.not t], hreads.not, fun env => (Bool.and_true _).trans (congrArg _ (htruth env))⟩

section Joined

variable {α : Type} {truth : α → (String → Bool) → Bool} {parts : List Sql} {xs : List α}

/-- Parts joined by AND hold when all of them do, if each may stand within. -/
theorem means_joined_and (h : List.Forall₂ (fun part x => MeansWithin part (truth x)) parts xs)
    (hne : parts ≠ []) :
    MeansWithin (joined " AND " parts) fun env => xs.all (truth · env) := by
  obtain ⟨tss, htss, htruth⟩ : ∃ tss, List.Forall₂ Adds parts tss
      ∧ ∀ env, tss.flatten.all (·.holds env) = xs.all (truth · env) := by
    clear hne
    induction h with
    | nil => exact ⟨[], .nil, fun _ => rfl⟩
    | cons hpart _ ih =>
      obtain ⟨ts, hts, htruth⟩ := hpart
      obtain ⟨tss, htss, htruths⟩ := ih
      refine ⟨ts :: tss, .cons hts htss, fun env => ?_⟩
      rw [List.flatten_cons, List.all_append, htruth, htruths, List.all_cons]
  exact ⟨tss.flatten, adds_joined_and htss hne, htruth⟩

/-- Parts joined by OR hold when one of them does. -/
theorem means_joined_or (h : List.Forall₂ (fun part x => Means part (truth x)) parts xs)
    (hne : parts ≠ []) : Means (joined " OR " parts) fun env => xs.any (truth · env) := by
  -- the ORs of the parts and those between them are all on one level
  induction h with
  | nil => exact absurd rfl hne
  | @cons part x parts xs hpart hparts ih =>
    obtain ⟨ands, last, hspreads, htruth⟩ := hpart
    cases hparts with
    | nil =>
      refine ⟨ands, last, ?_, fun env => (htruth env).trans (Bool.or_false _).symm⟩
      rw [joined, List.intercalate_singleton]
      exact hspreads
    | @cons next y rest ys hnext hrest =>
      obtain ⟨ands', last', hspreads', htruth'⟩ := ih (List.cons_ne_nil _ _)
      refine ⟨ands ++ last :: ands', last', ?_, fun env => ?_⟩
      · rw [joined, List.intercalate_cons_cons]
        exact hspreads.or hspreads'
      · have hsplit : ands ++ last :: ands' ++ [last'] = (ands ++ [last]) ++ (ands' ++ [last']) := by
          simp only [List.append_assoc, List.cons_append, List.nil_append]
        rw [hsplit, List.any_append, htruth, htruth']
        rfl

end Joined

end Sql

/-! ## The meaning of the SQL of a condition -/

theorem Sql.Closed.of_holds {part sql : Sql} (h : sql.Closed) (hpart : sql.Holds (· = part)) :
    part.Closed := by
  obtain ⟨_, rfl, hinfix⟩ := hpart
  exact h.mono hinfix

theorem Node.masked_of_sound {n : Node} (h : n.Every Node.Sound) : n.Masked true :=
  Node.masked fun m hm => ⟨h m hm, nofun⟩

/-- With the tokens of fragments in their place, the brackets of sound nodes are balanced. -/
theorem Node.balanced_of_sound {n : Node} (h : n.Every Node.Sound) : n.Balanced fragmentSql :=
  fun top sql hsql => (Node.masked_of_sound h top sql hsql).balanced.resolved

namespace Predicate

/-- The SQL of a condition means what the condition means, also among operands of an AND if it may
    stand there. -/
structure Reads (p : Predicate) (sql : Sql) : Prop where
  alone : (sql.replaced fragmentSql).Means fun env => p.holds (ownTruth env)
  within : p.Whole → (sql.replaced fragmentSql).MeansWithin fun env => p.holds (ownTruth env)

theorem reads_of_within {p : Predicate} {sql : Sql}
    (h : (sql.replaced fragmentSql).MeansWithin fun env => p.holds (ownTruth env)) : p.Reads sql :=
  ⟨h.means, fun _ => h⟩

/-- A test is one leaf, on its own and where it stands. -/
theorem reads_compare {left right : Expr} {operator : String}
    (hsound : (Node.predicate (.compare left operator right)).Every Node.Sound) {top : Bool}
    {sql : Sql} (hsql : (compare left operator right).Writes top sql) (hclosed : sql.Closed) :
    (compare left operator right).Reads sql := by
  have hright : (Node.operand right).Every Node.Sound :=
    hsound.below (List.mem_append_right _ (List.mem_singleton.mpr rfl))
  have hadds := adds_compare fragmentSql hsound.here (Node.balanced_of_sound hright)
    (fun n hn => Node.balanced_of_sound (hright.below hn)) hsql
  have hmasked : Sql.WellFormed (sql.replaced (mask true)) :=
    Node.masked_of_sound hsound top sql hsql
  have hown : (compare left operator right).ownText.toList = sql.chars := by
    rw [ownText_of_writes (writes_compare.mpr (writes_compare.mp hsql)), Sql.text,
      String.toList_ofList]
  have hread := Sql.readCondition_of_readsAs hadds.readsAs (Sql.lex_resolved hmasked.lexable hclosed)
  refine reads_of_within ⟨_, hadds, fun env => ?_⟩
  show _ = ownTruth env (compare left operator right)
  rw [ownTruth, hown, hread]
  exact Bool.and_true _

/-- A fragment means what it means on its own; without an OR of its own it means that among operands
    of an AND, too. -/
theorem reads_raw {text : String} (h : (readGroup text.toList).isSome = true)
    (hclosed : isClosed text = true) : (raw text).Reads [.verbatim text] := by
  obtain ⟨g, hg⟩ := Option.isSome_iff_exists.mp h
  obtain ⟨ands, last, hspreads, rfl⟩ := Sql.spreads_fragmentSql hclosed hg
  -- on its own, the fragment is read as the OR of the ANDs that it spreads to
  have hown : (raw text).ownText.toList = text.toList := by
    rw [ownText_of_writes (writes_raw.mpr rfl), Sql.text, String.toList_ofList]
    exact List.append_nil _
  have htruth : ∀ env, (ands ++ [last]).any (·.all (·.holds env)) = ownTruth env (raw text) := by
    intro env
    rw [ownTruth, hown, readCondition_eq, hg]
    show _ = (Group.tree _).holds env
    rw [Group.tree_behind, Tree.holds_alternatives]
  have hsame : Sql.replaced fragmentSql [.verbatim text] = fragmentSql text :=
    Sql.replaced_verbatim _ _
  refine ⟨⟨ands, last, hsame ▸ hspreads, htruth⟩, ?_⟩
  rintro (_ | _ | _ | _ | hwhole)
  have hnone : ands = [] := by
    have halternatives := hwhole _ hg
    rw [Group.behind_eq] at halternatives
    exact List.map_eq_nil_iff.mp halternatives
  subst hnone
  exact ⟨last, hsame ▸ Sql.spreads_nil_iff.mp hspreads,
    fun env => (Bool.or_false _).symm.trans (htruth env)⟩

/-- An AND of operands that are whole is whole. -/
theorem reads_and_of_whole {children : List Predicate} {grouped top : Bool} {parts : List Sql}
    (h : List.Forall₂ (fun part q => q.Reads part) parts children) (hne : children ≠ [])
    (hwhole : ∀ q ∈ children, q.Whole) :
    (and children grouped).Reads (Statement.andSql grouped top parts) := by
  have hpartsne : parts.map (Sql.replaced fragmentSql) ≠ [] :=
    mt List.map_eq_nil_iff.mp (mt (forall₂_nil_iff h).mp hne)
  have hwithin : List.Forall₂ (fun part q => Sql.MeansWithin part fun env => holds (ownTruth env) q)
      (parts.map (Sql.replaced fragmentSql)) children :=
    List.forall₂_map_left_iff.mpr (forall₂_swap h.flip fun q hq part hread =>
      hread.within (hwhole q hq))
  have hbody := Sql.means_joined_and hwithin hpartsne
  refine reads_of_within ?_
  simp only [holds, allHold_eq_all, Statement.replaced_andSql]
  unfold Statement.andSql
  split
  · exact hbody.means.inParens
  · exact hbody

/-- A single operand stands for the AND. -/
theorem reads_and_single {q : Predicate} {grouped top : Bool} {part : Sql} (h : q.Reads part) :
    (and [q] grouped).Reads (Statement.andSql grouped top [part]) := by
  have hsql : Statement.andSql grouped top [part] = part := by
    simp [Statement.andSql, Statement.bracketsAnd, Sql.joined]
  have htruth : ∀ env, (and [q] grouped).holds env = q.holds env := fun env => Bool.and_true _
  simp only [hsql]
  refine ⟨by simpa only [htruth] using h.alone, fun hwhole => ?_⟩
  cases hwhole with
  | and _ hq => simpa only [htruth] using h.within (hq q (List.mem_singleton.mpr rfl))

theorem reads_and {children : List Predicate} {grouped top : Bool} {parts : List Sql}
    (h : List.Forall₂ (fun part q => q.Reads part) parts children) (hne : children ≠ [])
    (hwhole : 1 < children.length → ∀ q ∈ children, q.Whole) :
    (and children grouped).Reads (Statement.andSql grouped top parts) := by
  match parts, children, h with
  | [], [], _ => exact absurd rfl hne
  | [part], [q], .cons hread .nil => exact reads_and_single hread
  | _ :: _ :: _, _ :: _ :: _, h =>
    exact reads_and_of_whole h hne (hwhole (Nat.lt_add_of_pos_left (Nat.succ_pos _)))

theorem reads_or {children : List Predicate} {parts : List Sql}
    (h : List.Forall₂ (fun part q => q.Reads part) parts children) (hne : children ≠ []) :
    (or children).Reads (Statement.orSql parts) := by
  have hpartsne : parts.map (Sql.replaced fragmentSql) ≠ [] :=
    mt List.map_eq_nil_iff.mp (mt (forall₂_nil_iff h).mp hne)
  have halone : List.Forall₂ (fun part q => Sql.Means part fun env => holds (ownTruth env) q)
      (parts.map (Sql.replaced fragmentSql)) children :=
    List.forall₂_map_left_iff.mpr (h.imp fun _ _ hread => hread.alone)
  refine reads_of_within ?_
  simp only [holds, anyHolds_eq_any, Statement.replaced_orSql]
  exact (Sql.means_joined_or halone hpartsne).inParens

theorem reads_not {q : Predicate} {body : Sql} (h : q.Reads body) :
    (not (some q)).Reads (code "NOT " ++ Sql.inParens body) := by
  refine reads_of_within ?_
  simp only [Sql.replaced_append, Sql.replaced_code, Sql.replaced_inParens]
  exact h.alone.not

/-- The operands of a connective, one by one. -/
theorem reads_children {children : List Predicate} {parts : List Sql}
    (hparts : List.Forall₂ (Writes false) children parts) (hclosed : ∀ part ∈ parts, part.Closed)
    (h : ∀ q ∈ children, ∀ part, q.Writes false part → part.Closed → q.Reads part) :
    List.Forall₂ (fun part q => q.Reads part) parts children := by
  have hall : List.Forall₂ (fun part q => part.Closed ∧ (part.Closed → q.Reads part)) parts children :=
    (List.forall₂_and_left _ _).mpr ⟨hclosed, forall₂_swap hparts h⟩
  exact hall.imp fun _ _ hread => hread.2 hread.1

/-- **The SQL of a condition means what the condition means, each leaf taken as its own text is
    read.** -/
theorem reads_of_placed {p : Predicate} (hplaced : p.Placed) (hfull : p.Full)
    (hsound : (Node.predicate p).Every Node.Sound) {top : Bool} {sql : Sql} (hsql : p.Writes top sql)
    (hclosed : sql.Closed) : p.Reads sql := by
  -- the operands are stretches of the SQL, so their fragments are closed, too
  have hself : ∀ part : Sql, part.Holds (· = part) := fun part => Sql.holds_self rfl
  induction hplaced generalizing top sql with
  | compare left operator right => exact reads_compare hsound hsql hclosed
  | raw h =>
    obtain rfl := writes_raw.mp hsql
    exact reads_raw h (hclosed _ (List.mem_singleton.mpr rfl))
  | @and children grouped _ hwhole ih =>
    obtain ⟨parts, hparts, rfl⟩ := writes_and.mp hsql
    cases hfull with
    | and _ hne hfull =>
      refine reads_and (reads_children hparts ?_ ?_) hne hwhole
      · exact fun part hmem => hclosed.of_holds (Statement.holds_andSql hmem (hself part))
      · exact fun q hq part hwrites hclosed => ih q hq (hfull q hq)
          (hsound.below (List.mem_map.mpr ⟨q, hq, rfl⟩)) hwrites hclosed
  | @or children _ ih =>
    obtain ⟨parts, hparts, rfl⟩ := writes_or.mp hsql
    cases hfull with
    | or hne hfull =>
      refine reads_or (reads_children hparts ?_ ?_) hne
      · exact fun part hmem => hclosed.of_holds ((hself part).joined hmem).inParens
      · exact fun q hq part hwrites hclosed => ih q hq (hfull q hq)
          (hsound.below (List.mem_map.mpr ⟨q, hq, rfl⟩)) hwrites hclosed
  | @not child _ ih =>
    obtain ⟨q, body, rfl, hbody, rfl⟩ := writes_not.mp hsql
    cases hfull with
    | not hfull =>
      have hbodyClosed : body.Closed := hclosed.of_holds (hself body).inParens.right
      exact reads_not (ih q rfl (hfull q rfl) (hsound.below (List.mem_singleton.mpr rfl)) hbody
        hbodyClosed)

end Predicate

/-! ## The clauses of a query -/

/-- The WHERE tree of a query is a condition of it. -/
theorem Query.condition_of_filter {q : Query} {p : Predicate} (h : q.filter = some p) :
    q.Condition " WHERE " p := by
  have hclause : (" WHERE ", p) ∈ clauseConditions " WHERE " q.filter := by
    rw [h]
    exact List.mem_singleton.mpr rfl
  cases q with
  | select q =>
    refine Or.inr ⟨.select q, List.mem_singleton.mpr rfl, .select q, .refl, ?_⟩
    exact List.mem_append_left _ (List.mem_append_right _ hclause)
  | insert q => exact nomatch h
  | update q => exact Or.inl hclause
  | delete q => exact Or.inl hclause

namespace History

/-- In a query that compiles, every condition that was given could be lowered. -/
theorem lowered_of_compile {h : History} {sql : Sql} (hsql : h.query.compile = .ok sql) :
    ∀ c ∈ h.filters, ∃ p, c.toPredicate = .ok p := by
  intro c hc
  obtain ⟨⟨clause, d⟩, hgiven, hfilter⟩ := List.mem_filterMap.mp hc
  cases clause with
  | filter =>
    obtain rfl : d = c := Option.some.inj hfilter
    cases hd : d.toPredicate with
    | ok p => exact ⟨p, rfl⟩
    | error f =>
      obtain ⟨hclean, -⟩ := Query.compile_iff.mp hsql
      have hrecorded : h.query.recorded ≠ [] := by
        rw [h.recorded_query]
        exact h.complaints_ne_nil hgiven hd
      exact absurd (hclean.symm.trans (Query.not_clean_of_recorded hrecorded)) nofun
  | prewhere => exact nomatch hfilter
  | having => exact nomatch hfilter
  | join => exact nomatch hfilter

/-- The WHERE tree collects the conditions for WHERE, in order. -/
theorem filter_eq_foldl (h : History) :
    h.query.filter = h.filters.foldl (fun tree c => Clause.collect tree (.filter, c)) none := by
  rw [filter_query, foldl_collect, filters]

theorem full_of_filter {h : History} {p : Predicate} (hp : h.query.filter = some p) : p.Full := by
  rw [filter_eq_foldl] at hp
  exact full_of_mem_foldl_collect h.filters none nofun p hp

end History

/-- Behind its keyword, the SQL has the condition, and where the fragments in it are closed, it is
    read as a tree that holds when `truth` does. -/
def ReadsBehind (keyword : String) (p : Predicate) (truth : (String → Bool) → Bool) (sql : Sql) :
    Prop :=
  ∃ body, p.Writes true body ∧ code keyword ++ body <:+: sql
    ∧ (body.Closed → ∃ t, readCondition body.text.toList = some t ∧ ∀ env, t.holds env = truth env)

/-- There is only one way to write the condition. -/
theorem ReadsBehind.read {keyword : String} {p : Predicate} {truth : (String → Bool) → Bool}
    {sql body : Sql} (h : ReadsBehind keyword p truth sql) (hbody : p.Writes true body)
    (hclosed : body.Closed) :
    ∃ t, readCondition body.text.toList = some t ∧ ∀ env, t.holds env = truth env := by
  obtain ⟨body', hbody', -, hread⟩ := h
  obtain rfl : body' = body := hbody'.unique hbody
  exact hread hclosed

/-- Every placed condition of a query that compiles is read as what it means. -/
theorem Query.readsBehind_of_condition {q : Query} {sql : Sql} (hsql : q.compile = .ok sql)
    {keyword : String} {p : Predicate} (hp : q.Condition keyword p) (hfull : p.Full)
    (hplaced : p.Placed) : ReadsBehind keyword p (fun env => p.holds (Predicate.ownTruth env)) sql := by
  obtain ⟨hclean, hwrites⟩ := Query.compile_iff.mp hsql
  obtain ⟨_, ⟨body, hbody, rfl⟩, hinfix⟩ := Query.holds_condition hwrites hp
  refine ⟨body, hbody, hinfix, fun hclosed => ?_⟩
  obtain ⟨-, hsound⟩ := Query.clean_iff_every.mp hclean
  have hnode : (Node.predicate p).Every Node.Sound := hsound.node (Query.has_of_condition hp)
  have hreads := Predicate.reads_of_placed hplaced hfull hnode hbody hclosed
  obtain ⟨t, ht, htruth⟩ := hreads.alone.readsAs
  have hlexable := (Node.masked_of_sound hnode true body hbody).lexable
  refine ⟨t, ?_, htruth⟩
  rw [Sql.text, String.toList_ofList]
  exact Sql.readCondition_of_readsAs ht (Sql.lex_resolved hlexable hclosed)

/-- **Headline.**  Let the fragments of a condition be complete, and let those with an OR of their own
    not stand among several operands of an AND.  Where the condition is what a builder has collected
    for WHERE, the clause is read as all of the conditions that were given for it; as any other clause
    it is read as the condition that was lowered for it.  Each leaf and each fragment means what its
    own text does. -/
theorem placed_fragments_are_operands {p : Predicate} (hplaced : p.Placed) (sql : Sql) :
    (∀ h : History, h.query.compile = .ok sql → h.query.filter = some p →
      ReadsBehind " WHERE " p (fun env => h.filters.all (·.holds (Predicate.ownTruth env) none)) sql)
    ∧ ∀ (q : Query) (keyword : String) (c : Condition),
      q.compile = .ok sql → c.toPredicate = .ok p → q.Condition keyword p →
        ReadsBehind keyword p (fun env => c.holds (Predicate.ownTruth env) none) sql := by
  constructor
  · intro h hsql hp
    have hmeaning : ∀ env, p.holds (Predicate.ownTruth env)
        = h.filters.all (·.holds (Predicate.ownTruth env) none) := by
      intro env
      have hall := holds_foldl_collect (Predicate.ownTruth env) h.filters none
        (History.lowered_of_compile hsql)
      rw [← History.filter_eq_foldl, hp] at hall
      exact hall.trans (Bool.true_and _)
    simp only [← hmeaning]
    exact Query.readsBehind_of_condition hsql (Query.condition_of_filter hp)
      (History.full_of_filter hp) hplaced
  · intro q keyword c hsql hc hp
    simp only [← Lowering.holds_of_lower _ none c hc]
    exact Query.readsBehind_of_condition hsql hp (Lowering.full_of_lower none c hc) hplaced

/-- A fragment with an AND, a choice with a fragment that has an OR, and a NOT of such a fragment. -/
def History.sifted : History :=
  .delete "t"
    [.addFilter (.raw "a = 1 AND NOT b = ')'"),
      .addFilter (.combined (.or [.raw "x = 1 OR (y = 2)", .pair "c" (.operator (.like "%z"))])),
      .addFilter (.combined (.not (.raw "u = 3 OR v = 4")))]

/-- Its WHERE tree: the AND has three operands, and none of them has an OR outside of brackets. -/
def Predicate.sifted : Predicate :=
  .and
    [.raw "a = 1 AND NOT b = ')'",
      .or [.raw "x = 1 OR (y = 2)", .compare (.named "c") "LIKE" (.lit (.text "%z"))],
      .not (some (.raw "u = 3 OR v = 4"))] false

theorem Predicate.placed_sifted : Predicate.sifted.Placed := by
  have hchoice : Predicate.Placed (.or [.raw "x = 1 OR (y = 2)",
      .compare (.named "c") "LIKE" (.lit (.text "%z"))]) :=
    .or (List.forall_mem_cons.mpr ⟨.raw rfl, List.forall_mem_singleton.mpr (.compare _ _ _)⟩)
  have hnot : Predicate.Placed (.not (some (.raw "u = 3 OR v = 4"))) :=
    .not fun q hq => Option.some.inj hq ▸ .raw rfl
  have hwhole : Predicate.Whole (.raw "a = 1 AND NOT b = ')'") := by
    refine .raw fun g hg => ?_
    obtain rfl := Option.some.inj hg
    rfl
  refine .and false ?_ fun _ => ?_
  · exact List.forall_mem_cons.mpr ⟨.raw rfl, List.forall_mem_cons.mpr ⟨hchoice,
      List.forall_mem_singleton.mpr hnot⟩⟩
  · exact List.forall_mem_cons.mpr ⟨hwhole, List.forall_mem_cons.mpr ⟨.or _,
      List.forall_mem_singleton.mpr (.not _)⟩⟩

/-- A NOT of a fragment with an OR, for PREWHERE. -/
def Query.skimmed : Query :=
  .select ((Select.ofColumns [.named "id"]).applyAll
    [.setSource (.table "t") none, .setPrewhere (.combined (.not (.raw "u = 3 OR v = 4")))])

/-- The WHERE clause is read as three conditions, the PREWHERE clause as one. -/
theorem placed_fragments_are_operands_of_sifted :
    (∃ sql body, History.sifted.query.compile = .ok sql
      ∧ History.sifted.query.filter = some .sifted ∧ Predicate.sifted.Placed
      ∧ Predicate.sifted.Writes true body ∧ body.Closed
      ∧ ∃ t, readCondition body.text.toList = some t
          ∧ ∀ env, t.holds env
              = History.sifted.filters.all (·.holds (Predicate.ownTruth env) none))
    ∧ ∃ sql, Query.skimmed.compile = .ok sql
      ∧ ReadsBehind " PREWHERE " (.not (some (.raw "u = 3 OR v = 4")))
          (fun env => !Predicate.ownTruth env (.raw "u = 3 OR v = 4")) sql := by
  let body : Sql := [.verbatim "a = 1 AND NOT b = ')'", .code " AND ", .code "(",
    .verbatim "x = 1 OR (y = 2)", .code " OR ", .name "c", .code " LIKE ", .text "%z", .code ")",
    .code " AND ", .code "NOT ", .code "(", .verbatim "u = 3 OR v = 4", .code ")"]
  have hsql : History.sifted.query.compile = .ok ([.code "ALTER TABLE ", .name "t", .code " DELETE",
      .code " WHERE "] ++ body) := by
    with_unfolding_all rfl
  have hbody : Predicate.sifted.Writes true body := ⟨_, rfl, rfl⟩
  have hclosed : body.Closed := by
    have hall : ∀ s ∈ ["a = 1 AND NOT b = ')'", "x = 1 OR (y = 2)", "u = 3 OR v = 4"],
        isClosed s = true := by
      decide
    intro s hs
    exact hall s (by simpa [body] using hs)
  have hselect : Succeeds Query.skimmed.compile := by
    refine ⟨[.code "SELECT ", .name "id", .code " FROM ", .name "t", .code " PREWHERE ",
      .code "NOT ", .code "(", .verbatim "u = 3 OR v = 4", .code ")"], ?_⟩
    with_unfolding_all rfl
  obtain ⟨sql, hsql'⟩ := hselect
  have hcondition : Query.skimmed.Condition " PREWHERE " (.not (some (.raw "u = 3 OR v = 4"))) := by
    refine Or.inr ⟨_, List.mem_singleton.mpr rfl, _, .refl, ?_⟩
    exact List.mem_append_left _ (List.mem_append_left _ (List.mem_append_right _
      (List.mem_singleton.mpr rfl)))
  have hplaced : Predicate.Placed (.not (some (.raw "u = 3 OR v = 4"))) :=
    .not fun q hq => Option.some.inj hq ▸ .raw rfl
  obtain ⟨-, hclause⟩ := placed_fragments_are_operands hplaced sql
  refine ⟨⟨_, body, hsql, rfl, Predicate.placed_sifted, hbody, hclosed, ?_⟩, sql, hsql', ?_⟩
  · obtain ⟨hwhere, -⟩ := placed_fragments_are_operands Predicate.placed_sifted
      ([.code "ALTER TABLE ", .name "t", .code " DELETE", .code " WHERE "] ++ body)
    exact (hwhere History.sifted hsql rfl).read hbody hclosed
  · have hreads := hclause Query.skimmed " PREWHERE " (.combined (.not (.raw "u = 3 OR v = 4"))) hsql'
      rfl hcondition
    simpa only [Condition.holds, Combinator.not, Combinator.holds, conditionsHold, Bool.and_true]
      using hreads

/-- A fragment with an OR of its own, and one more condition. -/
def History.split : History :=
  .delete "t" [.addFilter (.raw "a = 1 OR b = 2"),
    .addFilter (.pair "c" (.operator ⟨.eq, .value (.int 3)⟩))]

/-- The second condition counts for one side of the fragment only: it is read with its last
    operand. -/
theorem fragment_takes_the_next_condition :
    isClosed "a = 1 OR b = 2" = true ∧ (readCondition "a = 1 OR b = 2".toList).isSome = true
      ∧ ∃ sql p body t, History.split.query.compile = .ok sql ∧ History.split.query.filter = some p
          ∧ p.Writes true body ∧ code " WHERE " ++ body <:+: sql ∧ body.Closed
          ∧ readCondition body.text.toList = some t
          ∧ ∃ env, t.holds env
              ≠ History.split.filters.all (·.holds (Predicate.ownTruth env) none) := by
  have hclosed : isClosed "a = 1 OR b = 2" = true := by decide
  let body : Sql := [.verbatim "a = 1 OR b = 2", .code " AND ", .name "c", .code " = ", .code "3"]
  have hsql : History.split.query.compile = .ok ([.code "ALTER TABLE ", .name "t", .code " DELETE",
      .code " WHERE "] ++ body) := by
    with_unfolding_all rfl
  have hread : readCondition body.chars
      = some (.or [.leaf "a = 1", .and [.leaf "b = 2", .leaf "\x60c\x60 = 3"]]) :=
    rfl
  have hconditions : History.split.filters.all
      (·.holds (Predicate.ownTruth (· == "a = 1")) none) = false := by
    with_unfolding_all rfl
  refine ⟨hclosed, rfl, _, _, body, _, hsql, rfl, ⟨_, rfl, rfl⟩,
    ⟨[.code "ALTER TABLE ", .name "t", .code " DELETE"], [], rfl⟩, ?_,
    (congrArg readCondition String.toList_ofList).trans hread, (· == "a = 1"), ?_⟩
  · intro s hs
    obtain rfl : s = "a = 1 OR b = 2" := by simpa [body] using hs
    exact hclosed
  · rw [hconditions]
    decide

end SqlLoom
