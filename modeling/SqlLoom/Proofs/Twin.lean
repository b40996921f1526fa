/-
  Queries that differ in the contents of strings only.

  Two queries are TWINS when they are the same but for the strings in their values — map keys
  included, at any depth of arrays and maps, wherever values stand.  `R` says which strings may stand
  for each other; taken as small as possible, it lists the pairs that stand at the same place.

  Twins are built alike (`Node.Twin.parts`), so whatever does not look at strings holds of both or of
  neither: they are clean together (`Query.Twin.clean_iff`) and have statements together
  (`Node.Twin.steps`).
-/
import Mathlib.Data.List.Forall2
import SqlLoom.Proofs.Steps

namespace SqlLoom

open Outcome (forall₂_nil_iff forall₂_swap)

variable {R : String → String → Prop}

/-! ## The relation -/

mutual

/-- Values that differ in strings only. -/
inductive Value.Twin (R : String → String → Prop) : Value → Value → Prop where
  | null : Value.Twin R .null .null
  | bool (b : Bool) : Value.Twin R (.bool b) (.bool b)
  | int (n : Int64) : Value.Twin R (.int n) (.int n)
  | float (x : Binary64) : Value.Twin R (.float x) (.float x)
  | text {s t : String} (h : R s t) : Value.Twin R (.text s) (.text t)
  | instant (t : Instant) : Value.Twin R (.instant t) (.instant t)
  | array {vs ws : List Value} (h : List.Forall₂ (Value.Twin R) vs ws) :
      Value.Twin R (.array vs) (.array ws)
  | map {es fs : List (String × Value)} (h : List.Forall₂ (Entry.Twin R) es fs) :
      Value.Twin R (.map es) (.map fs)

/-- Entries of maps that differ in strings only, keys included. -/
inductive Entry.Twin (R : String → String → Prop) : String × Value → String × Value → Prop where
  | mk {k l : String} {v w : Value} (hkey : R k l) (h : Value.Twin R v w) :
      Entry.Twin R (k, v) (l, w)

end

/-- Lists of values, item by item. -/
abbrev Values.Twin (R : String → String → Prop) : List Value → List Value → Prop :=
  List.Forall₂ (Value.Twin R)

/-- Records with the same keys.  Keys of assignments and settings are names and no strings. -/
def Record.Twin (R : String → String → Prop) : Record → Record → Prop :=
  List.Forall₂ fun e f => e.1 = f.1 ∧ Value.Twin R e.2 f.2

mutual

/-- Expressions that differ in strings only. -/
inductive Expr.Twin (R : String → String → Prop) : Expr → Expr → Prop where
  | column (c : Column) : Expr.Twin R (.column c) (.column c)
  | value {v w : Value} (label : Option String) (h : Value.Twin R v w) :
      Expr.Twin R (.value v label) (.value w label)
  | array {vs ws : List Value} (label : Option String) (h : Values.Twin R vs ws) :
      Expr.Twin R (.array vs label) (.array ws label)
  | tuple {vs ws : List Value} (label : Option String) (h : Values.Twin R vs ws) :
      Expr.Twin R (.tuple vs label) (.tuple ws label)
  | subquery {s t : Subquery} (h : Subquery.Twin R s t) : Expr.Twin R (.subquery s) (.subquery t)
  | raw (sql : String) (label : Option String) : Expr.Twin R (.raw sql label) (.raw sql label)
  | call (function : String) {es fs : List Expr} (label : Option String)
      (h : List.Forall₂ (Expr.Twin R) es fs) :
      Expr.Twin R (.call function es label) (.call function fs label)
  | cases {bs cs : List Branch} {o o' : Option Expr} (label : Option String)
      (hbranches : List.Forall₂ (Branch.Twin R) bs cs) (hotherwise : Option.Rel (Expr.Twin R) o o') :
      Expr.Twin R (.cases bs o label) (.cases cs o' label)

/-- Branches that differ in strings only. -/
inductive Branch.Twin (R : String → String → Prop) : Branch → Branch → Prop where
  | mk {p p' : Option Predicate} {e e' : Option Expr} (hcondition : Option.Rel (Predicate.Twin R) p p')
      (hresult : Option.Rel (Expr.Twin R) e e') : Branch.Twin R ⟨p, e⟩ ⟨p', e'⟩

/-- Conditions that differ in strings only. -/
inductive Predicate.Twin (R : String → String → Prop) : Predicate → Predicate → Prop where
  | compare {l l' r r' : Expr} (operator : String) (hleft : Expr.Twin R l l')
      (hright : Expr.Twin R r r') : Predicate.Twin R (.compare l operator r) (.compare l' operator r')
  | and {ps qs : List Predicate} (grouped : Bool) (h : List.Forall₂ (Predicate.Twin R) ps qs) :
      Predicate.Twin R (.and ps grouped) (.and qs grouped)
  | or {ps qs : List Predicate} (h : List.Forall₂ (Predicate.Twin R) ps qs) :
      Predicate.Twin R (.or ps) (.or qs)
  | not {p q : Option Predicate} (h : Option.Rel (Predicate.Twin R) p q) :
      Predicate.Twin R (.not p) (.not q)
  | raw (sql : String) : Predicate.Twin R (.raw sql) (.raw sql)

/-- Subqueries that differ in strings only. -/
inductive Subquery.Twin (R : String → String → Prop) : Subquery → Subquery → Prop where
  | mk {q q' : Option Select} (label : Option String) (h : Option.Rel (Select.Twin R) q q') :
      Subquery.Twin R ⟨q, label⟩ ⟨q', label⟩

/-- Sources of rows that differ in strings only. -/
inductive Source.Twin (R : String → String → Prop) : Source → Source → Prop where
  | table (name : String) : Source.Twin R (.table name) (.table name)
  | subquery {s t : Subquery} (h : Subquery.Twin R s t) : Source.Twin R (.subquery s) (.subquery t)

/-- FROM clauses that differ in strings only. -/
inductive FromClause.Twin (R : String → String → Prop) : FromClause → FromClause → Prop where
  | mk {s t : Source} (label : Option String) (h : Source.Twin R s t) :
      FromClause.Twin R ⟨s, label⟩ ⟨t, label⟩

/-- JOINs that differ in strings only. -/
inductive JoinClause.Twin (R : String → String → Prop) : JoinClause → JoinClause → Prop where
  | mk (kind : JoinKind) {s t : Source} (label : Option String) {p q : Predicate}
      (hsource : Source.Twin R s t) (hcondition : Predicate.Twin R p q) :
      JoinClause.Twin R ⟨kind, s, label, p⟩ ⟨kind, t, label, q⟩

/-- WITH entries that differ in strings only. -/
inductive WithClause.Twin (R : String → String → Prop) : WithClause → WithClause → Prop where
  | mk (name : String) {s t : Subquery} (h : Subquery.Twin R s t) :
      WithClause.Twin R ⟨name, s⟩ ⟨name, t⟩

/-- UNION members that differ in strings only. -/
inductive UnionMember.Twin (R : String → String → Prop) : UnionMember → UnionMember → Prop where
  | mk (operator : SetOperator) {s t : Subquery} (h : Subquery.Twin R s t) :
      UnionMember.Twin R ⟨operator, s⟩ ⟨operator, t⟩

/-- SELECTs that differ in strings only. -/
inductive Select.Twin (R : String → String → Prop) : Select → Select → Prop where
  | mk {columns columns' : List Expr} {source source' : Option FromClause}
      {joins joins' : List JoinClause} {withs withs' : List WithClause}
      {prewhere prewhere' filter filter' : Option Predicate} (groupBy : List Column)
      {having having' : Option Predicate} (orderBy : List OrderItem) (limit offset : Option Int64)
      (final : Bool) {settings settings' : Record} (format : Option String)
      {unions unions' : List UnionMember} (recorded : List String)
      (hcolumns : List.Forall₂ (Expr.Twin R) columns columns')
      (hsource : Option.Rel (FromClause.Twin R) source source')
      (hjoins : List.Forall₂ (JoinClause.Twin R) joins joins')
      (hwiths : List.Forall₂ (WithClause.Twin R) withs withs')
      (hprewhere : Option.Rel (Predicate.Twin R) prewhere prewhere')
      (hfilter : Option.Rel (Predicate.Twin R) filter filter')
      (hhaving : Option.Rel (Predicate.Twin R) having having')
      (hsettings : Record.Twin R settings settings')
      (hunions : List.Forall₂ (UnionMember.Twin R) unions unions') :
      Select.Twin R
        ⟨columns, source, joins, withs, prewhere, filter, groupBy, having, orderBy, limit, offset,
          final, settings, format, unions, recorded⟩
        ⟨columns', source', joins', withs', prewhere', filter', groupBy, having', orderBy, limit,
          offset, final, settings', format, unions', recorded⟩

end

/-- Nodes that differ in strings only. -/
inductive Node.Twin (R : String → String → Prop) : Node → Node → Prop where
  | expr {e f : Expr} (h : Expr.Twin R e f) : Node.Twin R (.expr e) (.expr f)
  | operand {e f : Expr} (h : Expr.Twin R e f) : Node.Twin R (.operand e) (.operand f)
  | predicate {p q : Predicate} (h : Predicate.Twin R p q) :
      Node.Twin R (.predicate p) (.predicate q)
  | select {q q' : Select} (h : Select.Twin R q q') : Node.Twin R (.select q) (.select q')

/-- Queries that differ in strings only. -/
inductive Query.Twin (R : String → String → Prop) : Query → Query → Prop where
  | select {q q' : Select} (h : Select.Twin R q q') : Query.Twin R (.select q) (.select q')
  | insert (table : String) (columns : List String) {rows rows' : List Row}
      (format : Option String) (h : List.Forall₂ (Values.Twin R) rows rows') :
      Query.Twin R (.insert ⟨table, columns, rows, format⟩) (.insert ⟨table, columns, rows', format⟩)
  | update (table : String) {assignments assignments' : Record} {filter filter' : Option Predicate}
      {settings settings' : Record} (recorded : List String)
      (hassignments : Record.Twin R assignments assignments')
      (hfilter : Option.Rel (Predicate.Twin R) filter filter')
      (hsettings : Record.Twin R settings settings') :
      Query.Twin R (.update ⟨table, assignments, filter, settings, recorded⟩)
        (.update ⟨table, assignments', filter', settings', recorded⟩)
  | delete (table : String) {filter filter' : Option Predicate} {settings settings' : Record}
      (recorded : List String) (hfilter : Option.Rel (Predicate.Twin R) filter filter')
      (hsettings : Record.Twin R settings settings') :
      Query.Twin R (.delete ⟨table, filter, settings, recorded⟩)
        (.delete ⟨table, filter', settings', recorded⟩)

/-! ## Parts of twins -/

/-- What may be missing is missing on both sides. -/
theorem forall₂_toList {α : Type} {S : α → α → Prop} {a b : Option α} (h : Option.Rel S a b) :
    List.Forall₂ S a.toList b.toList := by
  cases h with
  | none => exact .nil
  | some h => exact .cons h .nil

theorem forall₂_flatMap {α β : Type} {S : α → α → Prop} {T : β → β → Prop} {f : α → List β}
    {as bs : List α} (h : List.Forall₂ S as bs)
    (item : ∀ a b, S a b → List.Forall₂ T (f a) (f b)) :
    List.Forall₂ T (as.flatMap f) (bs.flatMap f) := by
  induction h with
  | nil => exact .nil
  | cons hab _ ih =>
    rw [List.flatMap_cons, List.flatMap_cons]
    exact List.rel_append (item _ _ hab) ih

theorem twin_map_expr {es fs : List Expr} (h : List.Forall₂ (Expr.Twin R) es fs) :
    List.Forall₂ (Node.Twin R) (es.map .expr) (fs.map .expr) := by
  rw [List.forall₂_map_left_iff, List.forall₂_map_right_iff]
  exact h.imp fun _ _ => .expr

theorem twin_map_predicate {ps qs : List Predicate} (h : List.Forall₂ (Predicate.Twin R) ps qs) :
    List.Forall₂ (Node.Twin R) (ps.map .predicate) (qs.map .predicate) := by
  rw [List.forall₂_map_left_iff, List.forall₂_map_right_iff]
  exact h.imp fun _ _ => .predicate

theorem Subquery.Twin.parts {s t : Subquery} (h : Subquery.Twin R s t) :
    List.Forall₂ (Node.Twin R) s.parts t.parts := by
  obtain ⟨label, h⟩ := h
  cases h with
  | none => exact .nil
  | some h => exact .cons (.select h) .nil

theorem Source.Twin.parts {s t : Source} (h : Source.Twin R s t) :
    List.Forall₂ (Node.Twin R) s.parts t.parts := by
  cases h with
  | table name => exact .nil
  | subquery h => exact h.parts

theorem Branch.Twin.parts {b c : Branch} (h : Branch.Twin R b c) :
    List.Forall₂ (Node.Twin R) b.parts c.parts := by
  obtain ⟨hcondition, hresult⟩ := h
  exact List.rel_append (twin_map_predicate (forall₂_toList hcondition))
    (twin_map_expr (forall₂_toList hresult))

theorem Expr.Twin.parts {e f : Expr} (h : Expr.Twin R e f) :
    List.Forall₂ (Node.Twin R) e.parts f.parts := by
  cases h with
  | subquery h => exact h.parts
  | call function label h => exact twin_map_expr h
  | cases label hbranches hotherwise =>
    exact List.rel_append (forall₂_flatMap hbranches fun _ _ h => h.parts)
      (twin_map_expr (forall₂_toList hotherwise))
  | _ => exact .nil

theorem twin_leftParts {e f : Expr} (h : Expr.Twin R e f) :
    List.Forall₂ (Node.Twin R) (leftParts e) (leftParts f) := by
  cases h with
  | column c => exact .nil
  | value label h => exact .cons (.operand (.value label h)) .nil
  | array label h => exact .cons (.operand (.array label h)) .nil
  | tuple label h => exact .cons (.operand (.tuple label h)) .nil
  | subquery h => exact .cons (.operand (.subquery h)) .nil
  | raw sql label => exact .cons (.operand (.raw sql label)) .nil
  | call function label h => exact .cons (.operand (.call function label h)) .nil
  | cases label hb ho => exact .cons (.operand (.cases label hb ho)) .nil

theorem Predicate.Twin.parts {p q : Predicate} (h : Predicate.Twin R p q) :
    List.Forall₂ (Node.Twin R) p.parts q.parts := by
  cases h with
  | compare operator hleft hright =>
    exact List.rel_append (twin_leftParts hleft) (.cons (.operand hright) .nil)
  | and grouped h => exact twin_map_predicate h
  | or h => exact twin_map_predicate h
  | not h => exact twin_map_predicate (forall₂_toList h)
  | raw sql => exact .nil

theorem twin_clauseParts {p q : Option Predicate} (h : Option.Rel (Predicate.Twin R) p q) :
    List.Forall₂ (Node.Twin R) (clauseParts p) (clauseParts q) :=
  twin_map_predicate (forall₂_toList h)

theorem JoinClause.Twin.parts {j k : JoinClause} (h : JoinClause.Twin R j k) :
    List.Forall₂ (Node.Twin R) j.parts k.parts := by
  obtain ⟨kind, label, hsource, hcondition⟩ := h
  exact List.rel_append hsource.parts (.cons (.predicate hcondition) .nil)

theorem Select.Twin.parts {q q' : Select} (h : Select.Twin R q q') :
    List.Forall₂ (Node.Twin R) q.parts q'.parts := by
  obtain ⟨groupBy, orderBy, limit, offset, final, format, recorded, hcolumns, hsource, hjoins,
    hwiths, hprewhere, hfilter, hhaving, hsettings, hunions⟩ := h
  have withs := forall₂_flatMap (f := fun w : WithClause => w.query.parts) (T := Node.Twin R)
    hwiths fun _ _ ⟨_, h⟩ => h.parts
  have source := forall₂_flatMap (f := fun f : FromClause => f.source.parts) (T := Node.Twin R)
    (forall₂_toList hsource) fun _ _ ⟨_, h⟩ => h.parts
  have joins := forall₂_flatMap (T := Node.Twin R) hjoins fun _ _ h => JoinClause.Twin.parts h
  have unions := forall₂_flatMap (f := fun u : UnionMember => u.query.parts) (T := Node.Twin R)
    hunions fun _ _ ⟨_, h⟩ => h.parts
  exact List.rel_append (List.rel_append (List.rel_append (List.rel_append (List.rel_append
    (List.rel_append (List.rel_append withs (twin_map_expr hcolumns)) source) joins)
      (twin_clauseParts hprewhere)) (twin_clauseParts hfilter)) (twin_clauseParts hhaving)) unions

/-- **The parts of twins are twins.** -/
theorem Node.Twin.parts {n n' : Node} (h : Node.Twin R n n') :
    List.Forall₂ (Node.Twin R) n.parts n'.parts := by
  cases h with
  | expr h => exact h.parts
  | operand h => exact h.parts
  | predicate h => exact h.parts
  | select h => exact h.parts

/-! ## The other way round

  Who is whose twin is a matter of `R` alone, so twins can be swapped if `R` is.  The proof goes down
  the tree by its parts; a tree and its twin have the same forms all the way. -/

theorem optionRel_swap {α : Type} {S T : α → α → Prop} {a b : Option α}
    (h : Option.Rel S a b) (item : ∀ x ∈ a, ∀ y, S x y → T y x) : Option.Rel T b a := by
  cases h with
  | none => exact .none
  | some h => exact .some (item _ rfl _ h)

mutual

theorem Value.Twin.swap : ∀ {v w : Value}, Value.Twin R v w → Value.Twin (flip R) w v
  | .null, _, h => by cases h; exact .null
  | .bool b, _, h => by cases h; exact .bool b
  | .int n, _, h => by cases h; exact .int n
  | .float x, _, h => by cases h; exact .float x
  | .text s, _, h => by cases h with | text h => exact .text h
  | .instant t, _, h => by cases h; exact .instant t
  | .array vs, _, h => by cases h with | array h => exact .array (Value.twins_swap h)
  | .map es, _, h => by cases h with | map h => exact .map (Value.twinEntries_swap h)

theorem Value.twins_swap : ∀ {vs ws : List Value}, Values.Twin R vs ws → Values.Twin (flip R) ws vs
  | [], _, h => by cases h; exact .nil
  | v :: vs, _, h => by cases h with | cons h hs => exact .cons h.swap (Value.twins_swap hs)

theorem Value.twinEntries_swap : ∀ {es fs : List (String × Value)},
    List.Forall₂ (Entry.Twin R) es fs → List.Forall₂ (Entry.Twin (flip R)) fs es
  | [], _, h => by cases h; exact .nil
  | (k, v) :: es, _, h => by
    cases h with
    | cons h hs =>
      obtain ⟨hkey, h⟩ := h
      exact .cons (.mk hkey h.swap) (Value.twinEntries_swap hs)

end

theorem Record.Twin.swap {r r' : Record} (h : Record.Twin R r r') : Record.Twin (flip R) r' r :=
  forall₂_swap h fun _ _ _ ⟨hkey, hvalue⟩ => ⟨hkey.symm, hvalue.swap⟩

/-- A node whose twins can be swapped. -/
def Node.Swaps (R : String → String → Prop) (n : Node) : Prop :=
  ∀ n', Node.Twin R n n' → Node.Twin (flip R) n' n

theorem Node.Swaps.expr {e f : Expr} (hs : (Node.expr e).Swaps R) (h : Expr.Twin R e f) :
    Expr.Twin (flip R) f e := by
  cases hs _ (.expr h) with
  | expr h => exact h

theorem Node.Swaps.operand {e f : Expr} (hs : (Node.operand e).Swaps R) (h : Expr.Twin R e f) :
    Expr.Twin (flip R) f e := by
  cases hs _ (.operand h) with
  | operand h => exact h

theorem Node.Swaps.predicate {p q : Predicate} (hs : (Node.predicate p).Swaps R)
    (h : Predicate.Twin R p q) : Predicate.Twin (flip R) q p := by
  cases hs _ (.predicate h) with
  | predicate h => exact h

theorem Node.Swaps.select {q q' : Select} (hs : (Node.select q).Swaps R) (h : Select.Twin R q q') :
    Select.Twin (flip R) q' q := by
  cases hs _ (.select h) with
  | select h => exact h

theorem Subquery.Twin.swap {s t : Subquery} (h : Subquery.Twin R s t)
    (hs : ∀ n ∈ s.parts, n.Swaps R) : Subquery.Twin (flip R) t s := by
  obtain ⟨label, h⟩ := h
  refine .mk label (optionRel_swap h fun q hq _ htwin => ?_)
  obtain rfl := Option.mem_def.mp hq
  exact (hs _ (List.mem_singleton.mpr rfl)).select htwin

theorem Source.Twin.swap {s t : Source} (h : Source.Twin R s t)
    (hs : ∀ n ∈ s.parts, n.Swaps R) : Source.Twin (flip R) t s := by
  cases h with
  | table name => exact .table name
  | subquery h => exact .subquery (h.swap hs)

theorem twinClause_swap {p q : Option Predicate} (h : Option.Rel (Predicate.Twin R) p q)
    (hs : ∀ n ∈ clauseParts p, n.Swaps R) : Option.Rel (Predicate.Twin (flip R)) q p := by
  refine optionRel_swap h fun r hr _ htwin => ?_
  obtain rfl := Option.mem_def.mp hr
  exact (hs _ (List.mem_singleton.mpr rfl)).predicate htwin

theorem twinOtherwise_swap {e f : Option Expr} (h : Option.Rel (Expr.Twin R) e f)
    (hs : ∀ n ∈ e.toList.map Node.expr, n.Swaps R) : Option.Rel (Expr.Twin (flip R)) f e := by
  refine optionRel_swap h fun x hx _ htwin => ?_
  obtain rfl := Option.mem_def.mp hx
  exact (hs _ (List.mem_singleton.mpr rfl)).expr htwin

theorem Branch.Twin.swap {b c : Branch} (h : Branch.Twin R b c)
    (hs : ∀ n ∈ b.parts, n.Swaps R) : Branch.Twin (flip R) c b := by
  obtain ⟨hcondition, hresult⟩ := h
  obtain ⟨hp, he⟩ := List.forall_mem_append.mp hs
  exact .mk (twinClause_swap hcondition hp) (twinOtherwise_swap hresult he)

theorem Expr.Twin.swap {e f : Expr} (h : Expr.Twin R e f)
    (hs : ∀ n ∈ e.parts, n.Swaps R) : Expr.Twin (flip R) f e := by
  cases h with
  | column c => exact .column c
  | value label h => exact .value label h.swap
  | array label h => exact .array label (Value.twins_swap h)
  | tuple label h => exact .tuple label (Value.twins_swap h)
  | subquery h => exact .subquery (h.swap hs)
  | raw sql label => exact .raw sql label
  | call function label h =>
    refine .call function label (forall₂_swap h fun e he f h => ?_)
    exact (hs _ (List.mem_map.mpr ⟨e, he, rfl⟩)).expr h
  | cases label hbranches hotherwise =>
    obtain ⟨hb, ho⟩ := List.forall_mem_append.mp hs
    refine .cases label (forall₂_swap hbranches fun b hmem c h => ?_)
      (twinOtherwise_swap hotherwise ho)
    exact h.swap fun n hn => hb n (List.mem_flatMap.mpr ⟨b, hmem, hn⟩)

theorem Predicate.Twin.swap {p q : Predicate} (h : Predicate.Twin R p q)
    (hs : ∀ n ∈ p.parts, n.Swaps R) : Predicate.Twin (flip R) q p := by
  have hchildren : ∀ {ps qs : List Predicate}, (∀ n ∈ ps.map Node.predicate, n.Swaps R) →
      List.Forall₂ (Predicate.Twin R) ps qs → List.Forall₂ (Predicate.Twin (flip R)) qs ps :=
    fun hs h => forall₂_swap h fun r hr _ h =>
      (hs _ (List.mem_map.mpr ⟨r, hr, rfl⟩)).predicate h
  cases h with
  | @compare l l' r r' operator hleft hright =>
    obtain ⟨hl, hr⟩ := List.forall_mem_append.mp hs
    have hleft : Expr.Twin (flip R) l' l := by
      -- a column has no node of its own, but neither has it a string
      cases l with
      | column c => cases hleft; exact .column c
      | _ => exact (hl _ (List.mem_singleton.mpr rfl)).operand hleft
    exact .compare operator hleft ((hr _ (List.mem_singleton.mpr rfl)).operand hright)
  | and grouped h => exact .and grouped (hchildren hs h)
  | or h => exact .or (hchildren hs h)
  | not h => exact .not (twinClause_swap h hs)
  | raw sql => exact .raw sql

theorem JoinClause.Twin.swap {j k : JoinClause} (h : JoinClause.Twin R j k)
    (hs : ∀ n ∈ j.parts, n.Swaps R) : JoinClause.Twin (flip R) k j := by
  obtain ⟨kind, label, hsource, hcondition⟩ := h
  obtain ⟨hsource', hcondition'⟩ := List.forall_mem_append.mp hs
  exact .mk kind label (hsource.swap hsource')
    ((hcondition' _ (List.mem_singleton.mpr rfl)).predicate hcondition)

theorem Select.Twin.swap {q q' : Select} (h : Select.Twin R q q')
    (hs : ∀ n ∈ q.parts, n.Swaps R) : Select.Twin (flip R) q' q := by
  obtain ⟨groupBy, orderBy, limit, offset, final, format, recorded, hcolumns, hsource, hjoins,
    hwiths, hprewhere, hfilter, hhaving, hsettings, hunions⟩ := h
  simp only [Select.parts, List.forall_mem_append] at hs
  obtain ⟨⟨⟨⟨⟨⟨⟨swiths, scolumns⟩, ssource⟩, sjoins⟩, sprewhere⟩, sfilter⟩, shaving⟩, sunions⟩ := hs
  -- what is left are the lists whose items hold parts: columns, source, joins, withs, unions
  refine .mk groupBy orderBy limit offset final format recorded ?_ ?_ ?_ ?_
    (twinClause_swap hprewhere sprewhere) (twinClause_swap hfilter sfilter)
    (twinClause_swap hhaving shaving) hsettings.swap ?_
  · refine forall₂_swap hcolumns fun e he _ h => ?_
    exact (scolumns _ (List.mem_map.mpr ⟨e, he, rfl⟩)).expr h
  · refine optionRel_swap hsource fun f hf _ h => ?_
    obtain ⟨label, h⟩ := h
    refine .mk label (h.swap fun n hn => ?_)
    exact ssource n (List.mem_flatMap.mpr ⟨_, Option.mem_toList.mpr hf, hn⟩)
  · refine forall₂_swap hjoins fun j hj _ h => h.swap fun n hn => ?_
    exact sjoins n (List.mem_flatMap.mpr ⟨j, hj, hn⟩)
  · refine forall₂_swap hwiths fun w hw _ h => ?_
    obtain ⟨name, h⟩ := h
    refine .mk name (h.swap fun n hn => ?_)
    exact swiths n (List.mem_flatMap.mpr ⟨_, hw, hn⟩)
  · refine forall₂_swap hunions fun u hu _ h => ?_
    obtain ⟨operator, h⟩ := h
    refine .mk operator (h.swap fun n hn => ?_)
    exact sunions n (List.mem_flatMap.mpr ⟨_, hu, hn⟩)

theorem Node.swaps (n : Node) : n.Swaps R := by
  induction n using Node.induction with
  | step n ih =>
    intro n' h
    cases h with
    | expr h => exact .expr (h.swap ih)
    | operand h => exact .operand (h.swap ih)
    | predicate h => exact .predicate (h.swap ih)
    | select h => exact .select (h.swap ih)

/-- **A query is the twin of its twin.** -/
theorem Query.Twin.swap {q q' : Query} (h : Query.Twin R q q') : Query.Twin (flip R) q' q := by
  cases h with
  | select h => exact .select ((Node.swaps _).select h)
  | insert table columns format h =>
    exact .insert table columns format (forall₂_swap h fun _ _ _ h => Value.twins_swap h)
  | update table recorded hassignments hfilter hsettings =>
    exact .update table recorded hassignments.swap (twinClause_swap hfilter fun n _ => n.swaps)
      hsettings.swap
  | delete table recorded hfilter hsettings =>
    exact .delete table recorded (twinClause_swap hfilter fun n _ => n.swaps) hsettings.swap

/-! ## What twins share -/

/-- What holds of all items of one list holds of all items of the other, if it does item by item. -/
theorem forall_iff_of_forall₂ {α β : Type} {S : α → β → Prop} {P : α → Prop} {Q : β → Prop}
    {as : List α} {bs : List β} (h : List.Forall₂ S as bs)
    (item : ∀ a ∈ as, ∀ b, S a b → (P a ↔ Q b)) : (∀ a ∈ as, P a) ↔ ∀ b ∈ bs, Q b := by
  induction h with
  | nil => exact ⟨fun _ => nofun, fun _ => nofun⟩
  | cons hab _ ih =>
    obtain ⟨ha, has⟩ := List.forall_mem_cons.mp item
    rw [List.forall_mem_cons, List.forall_mem_cons, ha _ hab, ih has]

theorem forall_iff_of_optionRel {α : Type} {S : α → α → Prop} {P : α → Prop} {a b : Option α}
    (h : Option.Rel S a b) (item : ∀ x y, S x y → (P x ↔ P y)) : (∀ x ∈ a, P x) ↔ ∀ y ∈ b, P y := by
  cases h with
  | none => exact Iff.rfl
  | some h => simpa using item _ _ h

/-- A property that is the rule of a node and the same property of its parts is shared by twins, if
    the rule is. -/
theorem Node.Twin.iff_of_rule {P : Node → Prop} (rule : Node → Prop)
    (hP : ∀ n, P n ↔ rule n ∧ ∀ m ∈ n.parts, P m)
    (hrule : ∀ {n n'}, Node.Twin R n n' → (rule n ↔ rule n')) {n n' : Node}
    (h : Node.Twin R n n') : P n ↔ P n' := by
  induction n using Node.induction generalizing n' with
  | step n ih =>
    rw [hP n, hP n', hrule h]
    exact and_congr_right fun _ => forall_iff_of_forall₂ h.parts fun m hm _ h => ih m hm h

theorem Subquery.Twin.isSome_iff {s t : Subquery} (h : Subquery.Twin R s t) :
    s.select.isSome ↔ t.select.isSome := by
  obtain ⟨label, h⟩ := h
  cases h with
  | none => exact Iff.rfl
  | some h => exact Iff.rfl

theorem Branch.Twin.complete_iff {b c : Branch} (h : Branch.Twin R b c) :
    b.Complete ↔ c.Complete := by
  obtain ⟨hcondition, hresult⟩ := h
  cases hcondition <;> cases hresult <;> exact Iff.rfl

theorem Record.Twin.keys_iff {P : String → Prop} {r r' : Record} (h : Record.Twin R r r') :
    (∀ entry ∈ r, P entry.1) ↔ ∀ entry ∈ r', P entry.1 :=
  forall_iff_of_forall₂ h fun _ _ _ ⟨hkey, _⟩ => by rw [hkey]

/-! ### The rules of the check -/

theorem Expr.Twin.sound_iff {e f : Expr} (h : Expr.Twin R e f) : e.Sound ↔ f.Sound := by
  cases h with
  | subquery h =>
    have hlabel : ∀ {s t : Subquery}, Subquery.Twin R s t → s.label = t.label := fun ⟨_, _⟩ => rfl
    rw [Expr.Sound, Expr.Sound, h.isSome_iff, hlabel h]
  | cases label hbranches hotherwise =>
    rw [Expr.Sound, Expr.Sound, Ne, Ne, forall₂_nil_iff hbranches,
      forall_iff_of_forall₂ hbranches fun _ _ _ h => h.complete_iff]
  | _ => exact Iff.rfl

theorem Predicate.Twin.sound_iff {p q : Predicate} (h : Predicate.Twin R p q) :
    p.Sound ↔ q.Sound := by
  cases h with
  | compare operator hleft hright => cases hleft <;> exact Iff.rfl
  | not h => cases h <;> exact Iff.rfl
  | _ => exact Iff.rfl

theorem Source.Twin.sound_iff {s t : Source} (h : Source.Twin R s t) : s.Sound ↔ t.Sound := by
  cases h with
  | table name => exact Iff.rfl
  | subquery h => exact h.isSome_iff

theorem Select.Twin.sound {q q' : Select} (h : Select.Twin R q q') (hq : q.Sound) : q'.Sound := by
  obtain ⟨groupBy, orderBy, limit, offset, final, format, recorded, hcolumns, hsource, hjoins,
    hwiths, hprewhere, hfilter, hhaving, hsettings, hunions⟩ := h
  exact
    { recorded := hq.recorded
      withs := (forall_iff_of_forall₂ hwiths fun _ _ _ ⟨_, h⟩ =>
        and_congr_right fun _ => h.isSome_iff).mp hq.withs
      source := (forall_iff_of_optionRel hsource fun _ _ ⟨_, h⟩ =>
        and_congr_left fun _ => h.sound_iff).mp hq.source
      joins := (forall_iff_of_forall₂ hjoins fun _ _ _ ⟨_, _, h, _⟩ =>
        and_congr_left fun _ => h.sound_iff).mp hq.joins
      groupBy := hq.groupBy
      orderBy := hq.orderBy
      limit := hq.limit
      offset := hq.offset
      settings := (Record.Twin.keys_iff (P := (Identifier.isSimple · = true)) hsettings).mp
        hq.settings
      unions := (forall_iff_of_forall₂ hunions fun _ _ _ ⟨_, h⟩ => h.isSome_iff).mp hq.unions }

theorem Node.Twin.sound_iff {n n' : Node} (h : Node.Twin R n n') : n.Sound ↔ n'.Sound := by
  cases h with
  | expr h => exact h.sound_iff
  | operand h => exact h.sound_iff
  | predicate h => exact h.sound_iff
  | select h => exact ⟨h.sound, ((Node.swaps _).select h).sound⟩

theorem Query.Twin.rootSound {q q' : Query} (h : Query.Twin R q q') (hq : q.RootSound) :
    q'.RootSound := by
  cases h with
  | select h => trivial
  | insert table columns format h =>
    obtain ⟨htable, hcolumns, hrows⟩ := hq
    refine ⟨htable, hcolumns, hrows.imp_right fun hrows => ?_⟩
    exact (forall_iff_of_forall₂ h fun _ _ _ h => by rw [h.length_eq]).mp hrows
  | update table recorded hassignments hfilter hsettings =>
    obtain ⟨htable, hrecorded, hsome, hkeys, hnames⟩ := hq
    exact ⟨htable, hrecorded, fun h => hsome ((forall₂_nil_iff hassignments).mpr h),
      (Record.Twin.keys_iff (P := (· ≠ "")) hassignments).mp hkeys,
      (Record.Twin.keys_iff (P := (Identifier.isSimple · = true)) hsettings).mp hnames⟩
  | delete table recorded hfilter hsettings =>
    obtain ⟨htable, hrecorded, hnames⟩ := hq
    exact ⟨htable, hrecorded,
      (Record.Twin.keys_iff (P := (Identifier.isSimple · = true)) hsettings).mp hnames⟩

theorem Query.Twin.parts {q q' : Query} (h : Query.Twin R q q') :
    List.Forall₂ (Node.Twin R) q.parts q'.parts := by
  cases h with
  | select h => exact .cons (.select h) .nil
  | insert table columns format h => exact .nil
  | update table recorded hassignments hfilter hsettings => exact twin_clauseParts hfilter
  | delete table recorded hfilter hsettings => exact twin_clauseParts hfilter

/-- A twin of a clean query is clean. -/
theorem Query.Twin.clean {q q' : Query} (h : Query.Twin R q q') (hq : q.findings.clean = true) :
    q'.findings.clean = true := by
  obtain ⟨hroot, hparts⟩ := Query.clean_iff.mp hq
  refine Query.clean_iff.mpr ⟨h.rootSound hroot, ?_⟩
  exact (forall_iff_of_forall₂ h.parts fun _ _ _ h =>
    h.iff_of_rule Node.Sound (fun _ => Node.clean_iff) Node.Twin.sound_iff).mp hparts

/-! ### The rules of the step to a statement -/

theorem Expr.Twin.fits_iff {e f : Expr} (h : Expr.Twin R e f) : e.Fits ↔ f.Fits := by
  cases h with
  | subquery h => exact h.isSome_iff
  | cases label hbranches hotherwise =>
    exact forall_iff_of_forall₂ hbranches fun _ _ _ h => h.complete_iff
  | _ => exact Iff.rfl

theorem Expr.Twin.fitsOperand_iff {e f : Expr} (h : Expr.Twin R e f) :
    e.FitsOperand ↔ f.FitsOperand := by
  cases h with
  | subquery h => exact h.isSome_iff
  | _ => exact Iff.rfl

theorem Predicate.Twin.fits_iff {p q : Predicate} (h : Predicate.Twin R p q) :
    p.Fits ↔ q.Fits := by
  cases h with
  | compare operator hleft hright => cases hleft <;> exact Iff.rfl
  | not h => cases h <;> exact Iff.rfl
  | _ => exact Iff.rfl

theorem Source.Twin.fits_iff {s t : Source} (h : Source.Twin R s t) : s.Fits ↔ t.Fits := by
  cases h with
  | table name => exact Iff.rfl
  | subquery h => exact h.isSome_iff

theorem Select.Twin.fits {q q' : Select} (h : Select.Twin R q q') (hq : q.Fits) : q'.Fits := by
  obtain ⟨groupBy, orderBy, limit, offset, final, format, recorded, hcolumns, hsource, hjoins,
    hwiths, hprewhere, hfilter, hhaving, hsettings, hunions⟩ := h
  exact
    { withs := (forall_iff_of_forall₂ hwiths fun _ _ _ ⟨_, h⟩ => h.isSome_iff).mp hq.withs
      source := (forall_iff_of_optionRel hsource fun _ _ ⟨_, h⟩ => h.fits_iff).mp hq.source
      joins := (forall_iff_of_forall₂ hjoins fun _ _ _ ⟨_, _, h, _⟩ => h.fits_iff).mp hq.joins
      unions := (forall_iff_of_forall₂ hunions fun _ _ _ ⟨_, h⟩ => h.isSome_iff).mp hq.unions }

/-- Twins step together. -/
theorem Node.Twin.steps_iff {n n' : Node} (h : Node.Twin R n n') : n.Steps ↔ n'.Steps := by
  refine h.iff_of_rule Node.Fits (fun _ => Node.steps_iff) fun h => ?_
  cases h with
  | expr h => exact h.fits_iff
  | operand h => exact h.fitsOperand_iff
  | predicate h => exact h.fits_iff
  | select h => exact ⟨h.fits, ((Node.swaps _).select h).fits⟩

end SqlLoom
