/-
  The parts of a query, and what holds for all of them.

  A query is a tree of three kinds of things: expressions, conditions and SELECTs.  `Node` is one of
  them at the place where it stands, and `Node.parts` are the nodes directly below it.  Most
  properties of queries say that every node keeps a rule of its own, so they are stated once, as
  `Query.Every rule`, and proved by one of two inductions:

  * `Node.induction`      — from the parts of a node upwards;
  * `Node.every_of_step`  — from a node downwards.

  The column on the left of a test has no node of its own: it belongs to the test.
-/
import Mathlib.Logic.Relation
import SqlLoom.Query

namespace SqlLoom

/-- A part of a query at its place.  `operand` is an expression at the side of a test, `expr` one
    anywhere else. -/
inductive Node where
  | expr (e : Expr)
  | operand (e : Expr)
  | predicate (p : Predicate)
  | select (q : Select)

/-! ## The nodes directly below -/

/-- The query of a subquery, if it is there. -/
def Subquery.parts (s : Subquery) : List Node :=
  s.select.toList.map .select

/-- The query that rows come from, if it is one. -/
def Source.parts : Source → List Node
  | .table _ => []
  | .subquery s => s.parts

/-- Condition and result of a branch, as far as they are there. -/
def Branch.parts (b : Branch) : List Node :=
  b.condition.toList.map .predicate ++ b.result.toList.map .expr

/-- The nodes directly below an expression. -/
def Expr.parts : Expr → List Node
  | .subquery s => s.parts
  | .call _ args _ => args.map .expr
  | .cases branches otherwise _ => branches.flatMap Branch.parts ++ otherwise.toList.map .expr
  | _ => []

/-- The left side of a test, unless it is a column. -/
def leftParts : Expr → List Node
  | .column _ => []
  | e => [.operand e]

/-- The nodes directly below a condition. -/
def Predicate.parts : Predicate → List Node
  | .compare left _ right => leftParts left ++ [.operand right]
  | .and children _ => children.map .predicate
  | .or children => children.map .predicate
  | .not child => child.toList.map .predicate
  | .raw _ => []

/-- The nodes of a condition that may be missing. -/
def clauseParts (clause : Option Predicate) : List Node :=
  clause.toList.map .predicate

/-- The source and the condition of a JOIN. -/
def JoinClause.parts (j : JoinClause) : List Node :=
  j.source.parts ++ [.predicate j.condition]

/-- The nodes directly below a SELECT, clause by clause. -/
def Select.parts (q : Select) : List Node :=
  q.withs.flatMap (·.query.parts) ++ q.columns.map .expr ++ q.source.toList.flatMap (·.source.parts)
    ++ q.joins.flatMap JoinClause.parts ++ clauseParts q.prewhere ++ clauseParts q.filter
    ++ clauseParts q.having ++ q.unions.flatMap (·.query.parts)

/-- The nodes directly below a node. -/
def Node.parts : Node → List Node
  | .expr e => e.parts
  | .operand e => e.parts
  | .predicate p => p.parts
  | .select q => q.parts

/-- The topmost nodes of a query. -/
def Query.parts : Query → List Node
  | .select q => [.select q]
  | .insert _ => []
  | .update q => clauseParts q.filter
  | .delete q => clauseParts q.filter

/-! ## Induction over nodes

  The tree is finite, so a node is larger than each of its parts.  Each of the following lemmas says
  so for one of the forms that hold parts. -/

theorem Subquery.sizeOf_lt_of_mem_parts {s : Subquery} {n : Node} (h : n ∈ s.parts) :
    sizeOf n < sizeOf s + 1 := by
  obtain ⟨select, label⟩ := s
  cases select with
  | none => simp [parts] at h
  | some q =>
    obtain rfl : n = .select q := by simpa [parts] using h
    simp only [Node.select.sizeOf_spec, mk.sizeOf_spec, Option.some.sizeOf_spec]
    omega

theorem Source.sizeOf_lt_of_mem_parts {s : Source} {n : Node} (h : n ∈ s.parts) :
    sizeOf n < sizeOf s := by
  cases s with
  | table name => simp [parts] at h
  | subquery s =>
    have := Subquery.sizeOf_lt_of_mem_parts h
    simp only [subquery.sizeOf_spec]
    omega

theorem Branch.sizeOf_lt_of_mem_parts {b : Branch} {n : Node} (h : n ∈ b.parts) :
    sizeOf n < sizeOf b + 1 := by
  obtain ⟨condition, result⟩ := b
  simp only [parts, List.mem_append, List.mem_map, Option.mem_toList] at h
  rcases h with ⟨p, rfl, rfl⟩ | ⟨e, rfl, rfl⟩
  · simp only [Node.predicate.sizeOf_spec, mk.sizeOf_spec, Option.some.sizeOf_spec]
    omega
  · simp only [Node.expr.sizeOf_spec, mk.sizeOf_spec, Option.some.sizeOf_spec]
    omega

theorem Expr.sizeOf_lt_of_mem_parts {e : Expr} {n : Node} (h : n ∈ e.parts) :
    sizeOf n < sizeOf e + 1 := by
  cases e with
  | subquery s =>
    have := Subquery.sizeOf_lt_of_mem_parts h
    simp only [subquery.sizeOf_spec]
    omega
  | call function args label =>
    obtain ⟨a, ha, rfl⟩ := List.mem_map.mp h
    have := List.sizeOf_lt_of_mem ha
    simp only [Node.expr.sizeOf_spec, call.sizeOf_spec]
    omega
  | cases branches otherwise label =>
    rcases List.mem_append.mp h with hb | ho
    · obtain ⟨b, hb, hn⟩ := List.mem_flatMap.mp hb
      have h₁ := List.sizeOf_lt_of_mem hb
      have h₂ := Branch.sizeOf_lt_of_mem_parts hn
      simp only [cases.sizeOf_spec]
      omega
    · obtain ⟨o, hm, rfl⟩ := List.mem_map.mp ho
      obtain rfl : otherwise = some o := Option.mem_toList.mp hm
      simp only [Node.expr.sizeOf_spec, cases.sizeOf_spec, Option.some.sizeOf_spec]
      omega
  | column _ => simp [parts] at h
  | value _ _ => simp [parts] at h
  | array _ _ => simp [parts] at h
  | tuple _ _ => simp [parts] at h
  | raw _ _ => simp [parts] at h

theorem leftParts_eq_or (e : Expr) : leftParts e = [] ∨ leftParts e = [.operand e] := by
  cases e
  case column => exact Or.inl rfl
  all_goals exact Or.inr rfl

theorem Predicate.sizeOf_lt_of_mem_parts {p : Predicate} {n : Node} (h : n ∈ p.parts) :
    sizeOf n < sizeOf p + 1 := by
  cases p with
  | compare left operator right =>
    have hn : n = .operand left ∨ n = .operand right := by
      rcases leftParts_eq_or left with hl | hl
      · exact Or.inr (by simpa [parts, hl] using h)
      · simpa [parts, hl] using h
    rcases hn with rfl | rfl
    · simp only [Node.operand.sizeOf_spec, compare.sizeOf_spec]
      omega
    · simp only [Node.operand.sizeOf_spec, compare.sizeOf_spec]
      omega
  | and children grouped =>
    obtain ⟨c, hc, rfl⟩ := List.mem_map.mp h
    have := List.sizeOf_lt_of_mem hc
    simp only [Node.predicate.sizeOf_spec, and.sizeOf_spec]
    omega
  | or children =>
    obtain ⟨c, hc, rfl⟩ := List.mem_map.mp h
    have := List.sizeOf_lt_of_mem hc
    simp only [Node.predicate.sizeOf_spec, or.sizeOf_spec]
    omega
  | not child =>
    obtain ⟨c, hc, rfl⟩ := List.mem_map.mp h
    obtain rfl : child = some c := Option.mem_toList.mp hc
    simp only [Node.predicate.sizeOf_spec, not.sizeOf_spec, Option.some.sizeOf_spec]
    omega
  | raw sql => simp [parts] at h

theorem sizeOf_lt_of_mem_clauseParts {clause : Option Predicate} {n : Node}
    (h : n ∈ clauseParts clause) : sizeOf n < sizeOf clause + 1 := by
  obtain ⟨p, hp, rfl⟩ := List.mem_map.mp h
  obtain rfl : clause = some p := Option.mem_toList.mp hp
  simp only [Node.predicate.sizeOf_spec, Option.some.sizeOf_spec]
  omega

theorem JoinClause.sizeOf_lt_of_mem_parts {j : JoinClause} {n : Node} (h : n ∈ j.parts) :
    sizeOf n < sizeOf j + 1 := by
  obtain ⟨kind, source, label, condition⟩ := j
  rcases List.mem_append.mp h with hs | hc
  · have : sizeOf n < sizeOf source := Source.sizeOf_lt_of_mem_parts hs
    simp only [mk.sizeOf_spec]
    omega
  · obtain rfl : n = .predicate condition := by simpa using hc
    simp only [Node.predicate.sizeOf_spec, mk.sizeOf_spec]
    omega

theorem Select.sizeOf_lt_of_mem_parts {q : Select} {n : Node} (h : n ∈ q.parts) :
    sizeOf n < sizeOf q + 1 := by
  obtain ⟨columns, source, joins, withs, prewhere, filter, groupBy, having, orderBy, limit, offset,
    final, settings, format, unions, recorded⟩ := q
  simp only [parts, List.mem_append] at h
  simp only [mk.sizeOf_spec]
  rcases h with (((((((h | h) | h) | h) | h) | h) | h) | h)
  · obtain ⟨w, hw, hn⟩ := List.mem_flatMap.mp h
    have h₁ := List.sizeOf_lt_of_mem hw
    have h₂ := Subquery.sizeOf_lt_of_mem_parts hn
    cases w
    simp only [WithClause.mk.sizeOf_spec] at h₁ h₂
    omega
  · obtain ⟨e, he, rfl⟩ := List.mem_map.mp h
    have := List.sizeOf_lt_of_mem he
    simp only [Node.expr.sizeOf_spec]
    omega
  · obtain ⟨f, hf, hn⟩ := List.mem_flatMap.mp h
    obtain rfl : source = some f := Option.mem_toList.mp hf
    have := Source.sizeOf_lt_of_mem_parts hn
    cases f
    simp only [Option.some.sizeOf_spec, FromClause.mk.sizeOf_spec] at this ⊢
    omega
  · obtain ⟨j, hj, hn⟩ := List.mem_flatMap.mp h
    have h₁ := List.sizeOf_lt_of_mem hj
    have h₂ := JoinClause.sizeOf_lt_of_mem_parts hn
    omega
  · have := sizeOf_lt_of_mem_clauseParts h
    omega
  · have := sizeOf_lt_of_mem_clauseParts h
    omega
  · have := sizeOf_lt_of_mem_clauseParts h
    omega
  · obtain ⟨u, hu, hn⟩ := List.mem_flatMap.mp h
    have h₁ := List.sizeOf_lt_of_mem hu
    have h₂ := Subquery.sizeOf_lt_of_mem_parts hn
    cases u
    simp only [UnionMember.mk.sizeOf_spec] at h₁ h₂
    omega

namespace Node

theorem sizeOf_lt_of_mem_parts {m n : Node} (h : m ∈ n.parts) : sizeOf m < sizeOf n := by
  cases n with
  | expr e =>
    have := Expr.sizeOf_lt_of_mem_parts h
    simp only [expr.sizeOf_spec]
    omega
  | operand e =>
    have := Expr.sizeOf_lt_of_mem_parts h
    simp only [operand.sizeOf_spec]
    omega
  | predicate p =>
    have := Predicate.sizeOf_lt_of_mem_parts h
    simp only [predicate.sizeOf_spec]
    omega
  | select q =>
    have := Select.sizeOf_lt_of_mem_parts h
    simp only [select.sizeOf_spec]
    omega

/-- What passes from the parts of a node to the node holds for every node. -/
theorem induction {P : Node → Prop} (step : ∀ n, (∀ m ∈ n.parts, P m) → P n) (n : Node) : P n :=
  step n fun m _ => induction step m
termination_by sizeOf n
decreasing_by exact sizeOf_lt_of_mem_parts ‹_›

/-! ## Depth -/

/-- `m.Within n`: the node `m` is `n` or stands somewhere below it. -/
def Within (m n : Node) : Prop :=
  Relation.ReflTransGen (fun a b => b ∈ a.parts) n m

@[refl] theorem Within.refl (n : Node) : n.Within n :=
  Relation.ReflTransGen.refl

theorem Within.of_mem_parts {m n : Node} (h : m ∈ n.parts) : m.Within n :=
  Relation.ReflTransGen.single h

theorem Within.trans {l m n : Node} (h : l.Within m) (h' : m.Within n) : l.Within n :=
  Relation.ReflTransGen.trans h' h

/-- A node and all nodes below it keep a rule. -/
def Every (rule : Node → Prop) (n : Node) : Prop :=
  ∀ m, m.Within n → rule m

theorem Every.here {rule : Node → Prop} {n : Node} (h : n.Every rule) : rule n :=
  h n (Within.refl n)

theorem Every.below {rule : Node → Prop} {m n : Node} (h : n.Every rule) (hm : m ∈ n.parts) :
    m.Every rule :=
  fun _ hl => h _ (hl.trans (.of_mem_parts hm))

theorem Every.intro {rule : Node → Prop} {n : Node} (h : rule n)
    (hparts : ∀ m ∈ n.parts, m.Every rule) : n.Every rule := by
  intro l hl
  rcases Relation.ReflTransGen.cases_head hl with rfl | ⟨m, hm, hlm⟩
  · exact h
  · exact hparts m hm l hlm

theorem every_iff {rule : Node → Prop} {n : Node} :
    n.Every rule ↔ rule n ∧ ∀ m ∈ n.parts, m.Every rule :=
  ⟨fun h => ⟨h.here, fun _ hm => h.below hm⟩, fun ⟨h, hparts⟩ => .intro h hparts⟩

theorem every_value {rule : Node → Prop} {v : Value} {label : Option String} :
    (operand (.value v label)).Every rule ↔ rule (.operand (.value v label)) := by
  rw [every_iff]
  exact and_iff_left nofun

theorem every_array {rule : Node → Prop} {items : List Value} {label : Option String} :
    (operand (.array items label)).Every rule ↔ rule (.operand (.array items label)) := by
  rw [every_iff]
  exact and_iff_left nofun

theorem every_compare {rule : Node → Prop} {c : Column} {operator : String} {right : Expr} :
    (predicate (.compare (.column c) operator right)).Every rule
      ↔ rule (.predicate (.compare (.column c) operator right)) ∧ (operand right).Every rule := by
  rw [every_iff]
  exact and_congr_right fun _ => List.forall_mem_singleton

theorem every_and {rule : Node → Prop} {children : List Predicate} {grouped : Bool} :
    (predicate (.and children grouped)).Every rule
      ↔ rule (.predicate (.and children grouped))
        ∧ ∀ p ∈ children, (predicate p).Every rule := by
  rw [every_iff]
  exact and_congr_right fun _ => List.forall_mem_map

theorem every_or {rule : Node → Prop} {children : List Predicate} :
    (predicate (.or children)).Every rule
      ↔ rule (.predicate (.or children)) ∧ ∀ p ∈ children, (predicate p).Every rule := by
  rw [every_iff]
  exact and_congr_right fun _ => List.forall_mem_map

theorem every_not {rule : Node → Prop} {p : Predicate} :
    (predicate (.not (some p))).Every rule
      ↔ rule (.predicate (.not (some p))) ∧ (predicate p).Every rule := by
  rw [every_iff]
  exact and_congr_right fun _ => List.forall_mem_singleton

/-- A rule that passes from each node to its parts holds everywhere below a node that keeps it. -/
theorem every_of_step {rule : Node → Prop} (step : ∀ n, rule n → ∀ m ∈ n.parts, rule m) {n : Node}
    (h : rule n) : n.Every rule := by
  intro m hm
  induction hm with
  | refl => exact h
  | tail _ hstep ih => exact step _ ih _ hstep

end Node

namespace Query

/-- `q.Has n`: the node `n` stands somewhere in the query. -/
def Has (q : Query) (n : Node) : Prop :=
  ∃ m ∈ q.parts, n.Within m

theorem has_of_mem_parts {q : Query} {n : Node} (h : n ∈ q.parts) : q.Has n :=
  ⟨n, h, Node.Within.refl n⟩

/-- Every node of the query keeps a rule. -/
def Every (rule : Node → Prop) (q : Query) : Prop :=
  ∀ n, q.Has n → rule n

theorem Every.of_parts {rule : Node → Prop} {q : Query} (h : ∀ n ∈ q.parts, n.Every rule) :
    q.Every rule :=
  fun n ⟨m, hm, hn⟩ => h m hm n hn

theorem Every.node {rule : Node → Prop} {q : Query} {n : Node} (h : q.Every rule) (hn : q.Has n) :
    n.Every rule := by
  obtain ⟨root, hroot, hn⟩ := hn
  exact fun m hm => h m ⟨root, hroot, hm.trans hn⟩

theorem Every.part {rule : Node → Prop} {q : Query} {n : Node} (h : q.Every rule)
    (hn : n ∈ q.parts) : n.Every rule :=
  h.node (has_of_mem_parts hn)

end Query

end SqlLoom
