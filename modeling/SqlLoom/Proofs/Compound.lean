/-
  Queries put together with UNION and UNION ALL.

  A builder puts queries together in a tree: what is handed to a set operation is a query of its
  own, and its rows are those of the whole query.  The SQL has no brackets around it.  It is a chain
  of members, and a chain is evaluated from left to right.

  1. **Trees and chains** — `Compound`, and `Compound.chain`, the members in order with the
     operators between them.
  2. **Rows** — a bag for each member gives the rows of the tree (`Compound.value`) and the rows of
     the chain (`Chain.value`).  The link between the two is `Compound.follow`, the rows of a chain
     that stands behind others; it has an equation for each form of tree, so that all inductions are
     on the tree.
  3. **Grouping** — `Compound.Chained` says of a tree that its chain has the same rows whatever the
     bags are.  It suffices since UNION only looks at which rows there are (`mem_follow`), and since
     UNION ALL alone is associative; it is necessary since one row in the right members tells the
     two apart.
  4. **SQL** — the SQL of the query that was built is the chain of the SQL of its members.
-/
import Mathlib.Data.Multiset.Dedup
import Mathlib.Data.Multiset.UnionInter
import SqlLoom.Builder.Select
import SqlLoom.Proofs.Written.Query

namespace SqlLoom

open Outcome Sql

/-! ## Trees and chains -/

/-- Members put together with set operators. -/
inductive Compound (α : Type) where
  | member (a : α)
  | combine (left : Compound α) (operator : SetOperator) (right : Compound α)

/-- A first member, and the others each behind an operator. -/
structure Chain (α : Type) where
  first : α
  rest : List (SetOperator × α)

namespace Compound

variable {α β : Type}

/-- The members in order, with the operators between them. -/
def chain : Compound α → Chain α
  | member a => ⟨a, []⟩
  | combine l operator r => ⟨l.chain.first, l.chain.rest ++ (operator, r.chain.first) :: r.chain.rest⟩

/-- The tree with other members. -/
def map (f : α → β) : Compound α → Compound β
  | member a => member (f a)
  | combine l operator r => combine (l.map f) operator (r.map f)

/-- The same tree over other members, each linked to the one in its place. -/
inductive Linked (R : α → β → Prop) : Compound α → Compound β → Prop
  | member {a : α} {b : β} (h : R a b) : Linked R (member a) (member b)
  | combine {l r : Compound α} {l' r' : Compound β} (operator : SetOperator)
    (left : Linked R l l') (right : Linked R r r') :
    Linked R (combine l operator r) (combine l' operator r')

/-- The same tree over any members. -/
abbrev SameShape : Compound α → Compound β → Prop :=
  Linked fun _ _ => True

theorem sameShape_map (f : α → β) (t : Compound α) : SameShape t (t.map f) := by
  induction t with
  | member a => exact .member trivial
  | combine l operator r hl hr => exact .combine operator hl hr

/-- One row in the first member, and none in the others. -/
def atFirst {R : Type} (x : R) : Compound α → Compound (Multiset R)
  | member _ => member {x}
  | combine l operator r => combine (l.atFirst x) operator (r.map fun _ => 0)

theorem sameShape_atFirst {R : Type} (x : R) (t : Compound α) : SameShape t (t.atFirst x) := by
  induction t with
  | member a => exact .member trivial
  | combine l operator r hl _ => exact .combine operator hl (sameShape_map _ r)

/-- Whether UNION ALL is the only operator. -/
def UnionFree : Compound α → Prop
  | member _ => True
  | combine l operator r => operator = .unionAll ∧ l.UnionFree ∧ r.UnionFree

/-- Whether UNION ALL is the only operator can be looked up. -/
instance decidableUnionFree : (t : Compound α) → Decidable t.UnionFree
  | member _ => inferInstanceAs (Decidable True)
  | combine l operator r =>
    have := decidableUnionFree l
    have := decidableUnionFree r
    inferInstanceAs (Decidable (operator = .unionAll ∧ l.UnionFree ∧ r.UnionFree))

theorem unionFree_iff_of_sameShape {t : Compound α} {t' : Compound β}
    (h : SameShape t t') : t.UnionFree ↔ t'.UnionFree := by
  induction h with
  | member _ => rfl
  | combine operator _ _ hl hr => rw [UnionFree, UnionFree, hl, hr]

/-- The last operator of a chain with one in front of it. -/
def lastOperator (front : SetOperator) : Compound α → SetOperator
  | member _ => front
  | combine _ operator r => r.lastOperator operator

theorem lastOperator_of_sameShape {t : Compound α} {t' : Compound β} (h : SameShape t t')
    (front : SetOperator) : t.lastOperator front = t'.lastOperator front := by
  induction h generalizing front with
  | member _ => rfl
  | combine operator _ _ _ hr => exact hr operator

/-- The tree has the rows of its chain, whatever the rows of its members are.  To the right of a
    UNION ALL there must be no UNION.  To the right of a UNION there may be anything that does not
    end with UNION ALL, and to the left anything at all. -/
def Chained : Compound α → Prop
  | member _ => True
  | combine l .unionAll r => l.Chained ∧ r.UnionFree
  | combine _ .union r => r.lastOperator .union = .union

theorem chained_iff_of_sameShape {t : Compound α} {t' : Compound β} (h : SameShape t t') :
    t.Chained ↔ t'.Chained := by
  induction h with
  | member _ => rfl
  | combine operator _ right hl _ =>
    cases operator with
    | union => rw [Chained, Chained, lastOperator_of_sameShape right]
    | unionAll => rw [Chained, Chained, hl, unionFree_iff_of_sameShape right]

end Compound

/-! ## Rows -/

section Rows

variable {R : Type} [DecidableEq R]

/-- The rows of two sides put together.  UNION keeps one of each. -/
def SetOperator.rows : SetOperator → Multiset R → Multiset R → Multiset R
  | .union, left, right => (left + right).dedup
  | .unionAll, left, right => left + right

/-- The rows of a chain, evaluated from left to right. -/
def Chain.value (c : Chain (Multiset R)) : Multiset R :=
  c.rest.foldl (fun rows (operator, bag) => operator.rows rows bag) c.first

theorem SetOperator.mem_rows {operator : SetOperator} {left right : Multiset R} {x : R} :
    x ∈ operator.rows left right ↔ x ∈ left ∨ x ∈ right := by
  cases operator <;> simp [rows]

namespace Compound

variable {α : Type}

/-- The rows of a tree: the right side is evaluated as a whole before it is combined. -/
def value : Compound (Multiset R) → Multiset R
  | member bag => bag
  | combine l operator r => operator.rows l.value r.value

/-- The rows of a chain that stands behind other rows. -/
def follow (rows : Multiset R) (operator : SetOperator) (t : Compound (Multiset R)) : Multiset R :=
  t.chain.rest.foldl (fun rows (operator, bag) => operator.rows rows bag)
    (operator.rows rows t.chain.first)

theorem follow_member (rows : Multiset R) (operator : SetOperator) (bag : Multiset R) :
    follow rows operator (member bag) = operator.rows rows bag :=
  rfl

theorem follow_combine (rows : Multiset R) (operator operator' : SetOperator)
    (l r : Compound (Multiset R)) :
    follow rows operator (combine l operator' r)
      = follow (follow rows operator l) operator' r := by
  simp only [follow, chain, List.foldl_append, List.foldl_cons]

theorem value_chain_combine (l r : Compound (Multiset R)) (operator : SetOperator) :
    (combine l operator r).chain.value = follow l.chain.value operator r := by
  simp only [follow, Chain.value, chain, List.foldl_append, List.foldl_cons]

/-- Which rows there are does not depend on the grouping. -/
theorem mem_follow {t : Compound (Multiset R)} {rows : Multiset R} {operator : SetOperator}
    {x : R} : x ∈ follow rows operator t ↔ x ∈ rows ∨ x ∈ t.value := by
  induction t generalizing rows operator with
  | member bag => rw [follow_member, SetOperator.mem_rows, value]
  | combine l operator' r hl hr =>
    rw [follow_combine, hr, hl, value, SetOperator.mem_rows, or_assoc]

theorem mem_value_chain {t : Compound (Multiset R)} {x : R} :
    x ∈ t.chain.value ↔ x ∈ t.value := by
  induction t with
  | member bag => rfl
  | combine l operator r hl _ =>
    rw [value_chain_combine, mem_follow, hl, value, SetOperator.mem_rows]

/-- Behind a last UNION there is one of each row. -/
theorem nodup_follow {t : Compound (Multiset R)} {rows : Multiset R} {operator : SetOperator}
    (h : t.lastOperator operator = .union) : (follow rows operator t).Nodup := by
  induction t generalizing rows operator with
  | member bag =>
    obtain rfl : operator = .union := h
    exact Multiset.nodup_dedup _
  | combine l operator' r _ hr =>
    rw [follow_combine]
    exact hr h

/-- UNION ALL alone adds bags in any grouping. -/
theorem follow_of_unionFree {t : Compound (Multiset R)} {rows : Multiset R} (h : t.UnionFree) :
    follow rows .unionAll t = rows + t.value := by
  induction t generalizing rows with
  | member bag => rfl
  | combine l operator r hl hr =>
    obtain ⟨rfl, hfreeLeft, hfreeRight⟩ := h
    rw [follow_combine, hl hfreeLeft, hr hfreeRight, Multiset.add_assoc]
    rfl

/-! ## Grouping -/

/-- A chained tree has the rows of its chain. -/
theorem Chained.value_eq {t : Compound (Multiset R)} (h : t.Chained) : t.chain.value = t.value := by
  induction t with
  | member bag => rfl
  | combine l operator r hl _ =>
    rw [value_chain_combine]
    cases operator with
    | unionAll =>
      rw [follow_of_unionFree h.2, hl h.1]
      rfl
    | union =>
      -- both sides have one of each row, and the same rows
      refine ((nodup_follow h).ext (Multiset.nodup_dedup _)).mpr fun x => ?_
      rw [mem_follow, mem_value_chain, Multiset.mem_dedup, Multiset.mem_add]

/-- Empty members behind some rows take away duplicates, if there is a UNION. -/
theorem follow_empty (t : Compound α) (rows : Multiset R) (operator : SetOperator) :
    follow rows operator (t.map fun _ => 0)
      = if operator = .unionAll ∧ t.UnionFree then rows else rows.dedup := by
  induction t generalizing rows operator with
  | member a =>
    cases operator with
    | union => exact congrArg Multiset.dedup (Multiset.add_zero rows)
    | unionAll => exact Multiset.add_zero rows
  | combine l operator' r hl hr =>
    rw [map, follow_combine, hr, hl]
    by_cases hleft : operator = .unionAll ∧ l.UnionFree
    · simp only [hleft, UnionFree, true_and, and_self, if_true]
    · have hfree : ¬ (operator = .unionAll ∧ (combine l operator' r).UnionFree) :=
        fun h => hleft ⟨h.1, h.2.2.1⟩
      rw [if_neg hleft, if_neg hfree, Multiset.dedup_idem, ite_self]

theorem value_empty (t : Compound α) : (t.map fun _ => (0 : Multiset R)).value = 0 := by
  induction t with
  | member a => rfl
  | combine l operator r hl hr =>
    rw [map, value, hl, hr]
    cases operator <;> rfl

theorem value_atFirst (x : R) (t : Compound α) : (t.atFirst x).value = {x} := by
  induction t with
  | member a => rfl
  | combine l operator r hl _ =>
    rw [atFirst, value, hl, value_empty]
    cases operator <;> rfl

theorem value_chain_atFirst (x : R) (t : Compound α) : (t.atFirst x).chain.value = {x} := by
  induction t with
  | member a => rfl
  | combine l operator r hl _ =>
    rw [atFirst, value_chain_combine, hl, follow_empty, Multiset.dedup_singleton, ite_self]

/-- A UNION in a chain removes the duplicates of what stands in front of the chain. -/
theorem follow_atFirst {t : Compound α} (h : ¬ t.UnionFree) (x : R) (rows : Multiset R) :
    follow rows .unionAll (t.atFirst x) = (rows + {x}).dedup := by
  induction t with
  | member a => exact absurd trivial h
  | combine l operator r hl _ =>
    rw [atFirst, follow_combine]
    by_cases hleft : l.UnionFree
    · rw [follow_of_unionFree ((unionFree_iff_of_sameShape (sameShape_atFirst x l)).mp hleft),
        value_atFirst, follow_empty, if_neg]
      exact fun hfree => h ⟨hfree.1, hleft, hfree.2⟩
    · rw [hl hleft, follow_empty, Multiset.dedup_idem, ite_self]

/-- Behind a last UNION ALL there is a row twice when it is in every member. -/
theorem not_nodup_follow {t : Compound α} {x : R} {rows : Multiset R} (hx : x ∈ rows)
    {operator : SetOperator} (h : t.lastOperator operator = .unionAll) :
    ¬ (follow rows operator (t.map fun _ => {x})).Nodup := by
  induction t generalizing rows operator with
  | member a =>
    obtain rfl : operator = .unionAll := h
    intro hnodup
    exact Multiset.disjoint_left.mp (Multiset.nodup_add.mp hnodup).2.2 hx
      (Multiset.mem_singleton_self x)
  | combine l operator' r _ hr =>
    rw [map, follow_combine]
    exact hr (mem_follow.mpr (.inl hx)) h

theorem mem_value_all (x : R) (t : Compound α) : x ∈ (t.map fun _ => ({x} : Multiset R)).value := by
  induction t with
  | member a => exact Multiset.mem_singleton_self x
  | combine l operator r hl _ => exact SetOperator.mem_rows.mpr (.inl hl)

/-- For a tree that is not chained there are bags with which the chain has other rows. -/
theorem exists_value_ne (x : R) {t : Compound α} (h : ¬ t.Chained) :
    ∃ bags : Compound (Multiset R), SameShape t bags ∧ bags.chain.value ≠ bags.value := by
  induction t with
  | member a => exact absurd trivial h
  | combine l operator r hl _ =>
    cases operator with
    | union =>
      -- a row in every member comes twice out of the last UNION ALL
      refine ⟨_, sameShape_map (fun _ => {x}) _, fun heq => ?_⟩
      have hlast : r.lastOperator .union = .unionAll := by
        cases ho : r.lastOperator .union with
        | union => exact absurd ho h
        | unionAll => rfl
      rw [map, value_chain_combine] at heq
      refine not_nodup_follow (mem_value_chain.mpr (mem_value_all x l)) hlast ?_
      rw [heq]
      exact Multiset.nodup_dedup _
    | unionAll =>
      by_cases hright : r.UnionFree
      · -- the left side is to blame; the right one stays empty
        obtain ⟨bags, hshape, hne⟩ := hl fun hleft => h ⟨hleft, hright⟩
        refine ⟨combine bags .unionAll (r.map fun _ => 0),
          .combine _ hshape (sameShape_map _ r), ?_⟩
        rw [value_chain_combine, follow_empty, if_pos ⟨rfl, hright⟩, value, value_empty]
        exact fun heq => hne (heq.trans (Multiset.add_zero _))
      · -- a row on both sides is there twice, but the UNION on the right leaves one
        refine ⟨combine (l.atFirst x) .unionAll (r.atFirst x),
          .combine _ (sameShape_atFirst x l) (sameShape_atFirst x r), fun heq => ?_⟩
        rw [value_chain_combine, follow_atFirst hright, value_chain_atFirst, value, value_atFirst,
          value_atFirst] at heq
        have hnodup : (({x} : Multiset R) + {x}).Nodup := by
          have h := Multiset.nodup_dedup (({x} : Multiset R) + {x})
          rwa [heq] at h
        exact Multiset.disjoint_left.mp (Multiset.nodup_add.mp hnodup).2.2
          (Multiset.mem_singleton_self x) (Multiset.mem_singleton_self x)

end Compound

end Rows

/-! ## SQL -/

/-- The SQL of a chain: its members with the keywords between them. -/
def Chain.sql (c : Chain Sql) : Sql :=
  c.first ++ c.rest.flatMap fun (operator, sql) => code (" " ++ operator.keyword ++ " ") ++ sql

namespace Select

/-- The members of a UNION are checked like the rest of the query. -/
theorem clean_addUnion {q m : Select} {operator : SetOperator} :
    (q.apply (.addUnion operator m)).findings.clean = true
      ↔ q.findings.clean = true ∧ m.findings.clean = true := by
  obtain ⟨columns, source, joins, withs, prewhere, filter, groupBy, having, orderBy, limit, offset,
    final, settings, format, unions, recorded⟩ := q
  have hunions : (unionFindings (unions ++ [⟨operator, m.asSubquery none⟩])).clean = true
      ↔ (unionFindings unions).clean = true ∧ m.findings.clean = true := by
    simp only [clean_unionFindings_iff, List.flatMap_append, List.forall_mem_append,
      List.flatMap_singleton, List.forall_mem_singleton, asSubquery, Subquery.parts,
      Option.toList_some, List.map_singleton, Option.isSome_some, and_true, Node.findings_select,
      and_assoc]
  simp only [apply, findings, Findings.clean_append, Bool.and_eq_true, hunions, and_assoc]

/-- A member is written behind what there is of the query. -/
theorem writes_addUnion {q m : Select} {operator : SetOperator} {sql : Sql} :
    (q.apply (.addUnion operator m)).Writes sql
      ↔ ∃ front back, q.Writes front ∧ m.Writes back
        ∧ sql = front ++ (code (" " ++ operator.keyword ++ " ") ++ back) := by
  constructor
  · intro h
    obtain ⟨c, hc, rfl⟩ := writes_iff.mp h
    obtain ⟨parts, part, hparts, ⟨_, back, hm, hback, rfl⟩, hunions⟩ :=
      forall₂_concat_left_iff.mp hc.unions
    obtain rfl := Option.some.inj hm
    refine ⟨_, back, writes_iff.mpr ⟨{ c with unions := parts }, { hc with unions := hparts }, rfl⟩,
      hback, ?_⟩
    simp only [assemble, hunions, List.flatten_append, List.flatten_singleton, List.append_assoc]
    rfl
  · rintro ⟨front, back, hfront, hback, rfl⟩
    obtain ⟨c, hc, rfl⟩ := writes_iff.mp hfront
    have hmember : UnionMember.Writes ⟨operator, m.asSubquery none⟩ _ := ⟨m, back, rfl, hback, rfl⟩
    have hunions := forall₂_concat_left_iff.mpr ⟨c.unions, _, hc.unions, hmember, rfl⟩
    refine writes_iff.mpr ⟨{ c with unions := c.unions ++ [_] }, { hc with unions := hunions }, ?_⟩
    simp only [assemble, List.flatten_append, List.flatten_singleton, List.append_assoc]
    rfl

/-- A set operation compiles when both of its sides do, and its SQL has no brackets. -/
theorem compile_addUnion {q m : Select} {operator : SetOperator} {sql : Sql} :
    (Query.select (q.apply (.addUnion operator m))).compile = .ok sql
      ↔ ∃ front back, (Query.select q).compile = .ok front ∧ (Query.select m).compile = .ok back
        ∧ sql = front ++ (code (" " ++ operator.keyword ++ " ") ++ back) := by
  simp only [Query.compile_iff]
  show (q.apply (.addUnion operator m)).findings.clean = true ∧ Select.Writes _ sql ↔ _
  rw [clean_addUnion, writes_addUnion]
  constructor
  · rintro ⟨⟨hq, hm⟩, front, back, hfront, hback, h⟩
    exact ⟨front, back, ⟨hq, hfront⟩, ⟨hm, hback⟩, h⟩
  · rintro ⟨front, back, ⟨hq, hfront⟩, ⟨hm, hback⟩, h⟩
    exact ⟨⟨hq, hm⟩, front, back, hfront, hback, h⟩

end Select

namespace Compound

/-- The query that is built when each right side is handed to a set operation of the left one. -/
def build : Compound Select → Select
  | member q => q
  | combine l operator r => l.build.apply (.addUnion operator r.build)

theorem sql_chain_combine (l r : Compound Sql) (operator : SetOperator) :
    (combine l operator r).chain.sql
      = l.chain.sql ++ (code (" " ++ operator.keyword ++ " ") ++ r.chain.sql) := by
  simp only [Chain.sql, chain, List.flatMap_append, List.flatMap_cons, List.append_assoc]

/-- What is built compiles exactly when each member does, and to the chain of their SQL. -/
theorem compile_build_iff {t : Compound Select} {sql : Sql} :
    (Query.select t.build).compile = .ok sql
      ↔ ∃ parts, Linked (fun q part => (Query.select q).compile = .ok part) t parts
        ∧ sql = parts.chain.sql := by
  induction t generalizing sql with
  | member q =>
    constructor
    · intro h
      exact ⟨member sql, .member h, (List.append_nil sql).symm⟩
    · rintro ⟨_, ⟨h⟩, rfl⟩
      rw [build, h]
      exact congrArg Except.ok (List.append_nil _).symm
  | combine l operator r hl hr =>
    rw [build, Select.compile_addUnion]
    simp only [hl, hr]
    constructor
    · rintro ⟨_, _, ⟨parts, hparts, rfl⟩, ⟨parts', hparts', rfl⟩, rfl⟩
      exact ⟨combine parts operator parts', .combine operator hparts hparts',
        (sql_chain_combine ..).symm⟩
    · rintro ⟨_, hlinked, rfl⟩
      cases hlinked with
      | combine _ hparts hparts' =>
        exact ⟨_, _, ⟨_, hparts, rfl⟩, ⟨_, hparts', rfl⟩, sql_chain_combine ..⟩

/-- **Set operations are written as a chain, and keep their grouping when the tree is chained.**  A
    query that was put together with UNION and UNION ALL compiles exactly when its members do, and
    its SQL is the chain of theirs, without brackets.  The rows of the chain are those of the tree
    for all bags of rows that the members may have, exactly when the tree is chained. -/
theorem chain_of_build (t : Compound Select) (R : Type) [DecidableEq R] [Inhabited R] :
    (∀ sql, (Query.select t.build).compile = .ok sql
      ↔ ∃ parts, Linked (fun q part => (Query.select q).compile = .ok part) t parts
        ∧ sql = parts.chain.sql)
    ∧ ((∀ bags : Compound (Multiset R), SameShape t bags → bags.chain.value = bags.value)
      ↔ t.Chained) := by
  refine ⟨fun sql => compile_build_iff, ?_⟩
  constructor
  · intro h
    by_contra hnot
    obtain ⟨bags, hshape, hne⟩ := exists_value_ne (default : R) hnot
    exact hne (h bags hshape)
  · intro h bags hshape
    exact ((chained_iff_of_sameShape hshape).mp h).value_eq

/-- **A UNION inside a UNION ALL loses its brackets.**  Two equal rows of the first table are kept by
    the query that was built, but the chain that is sent ends in a UNION and leaves one of them. -/
theorem chain_of_build_regroups :
    let table (name : String) :=
      (Select.ofColumns [.named "id"]).apply (.setSource (.table name) none)
    let t := combine (member (table "a")) .unionAll
      (combine (member (table "b")) .union (member (table "c")))
    let bags : Compound (Multiset Nat) :=
      combine (member {7, 7}) .unionAll (combine (member {}) .union (member {}))
    (Query.select t.build).toSql
        = .ok "SELECT `id` FROM `a` UNION ALL SELECT `id` FROM `b` UNION SELECT `id` FROM `c`"
      ∧ bags.value = {7, 7} ∧ bags.chain.value = {7} := by
  refine ⟨?_, by decide, by decide⟩
  rfl

-- each call of the same builder adds a member, which is always chained
example : (combine (combine (member "a") .union (member "b")) .unionAll (member "c")).Chained :=
  ⟨rfl, trivial⟩

end Compound

end SqlLoom
