/-
  Trees of conditions, and when two of them are the same condition.

  A `Tree` is what a condition looks like to someone who reads SQL: leaves with their texts, joined by
  AND, OR and NOT.  Two things about a tree do not show in what it means: an AND directly below an
  AND, and an AND or OR of a single operand.  `Tree.normal` takes both away and changes nothing else:
  the leaves keep their texts and their order, and an OR below an OR stays where it is.

  The proofs about normal forms go through `Tree.flat`, the operands of the AND that a tree is in
  normal form (the tree alone, if it is none):

  1. `flat_and`       — the operands of an AND are those of its operands, one after the other;
  2. `normal_eq`      — a normal form is the conjunction of its operands.

`Tree.holds` is what a tree means when the truth of its leaves is known.
-/
import Mathlib.Data.List.Basic

namespace SqlLoom

/-- A condition as it is read: leaves with their texts, and the connectives between them. -/
inductive Tree where
  | leaf (text : String)
  | and (children : List Tree)
  | or (children : List Tree)
  | not (child : Tree)
  deriving Repr

namespace Tree

/-! ## Groups -/

/-- The AND of several trees; a single one needs none. -/
def conjunction : List Tree → Tree
  | [t] => t
  | ts => .and ts

/-- The OR of several trees; a single one needs none. -/
def disjunction : List Tree → Tree
  | [t] => t
  | ts => .or ts

/-- The operands of an AND, and any other tree as its own operand. -/
def conjuncts : Tree → List Tree
  | .and ts => ts
  | t => [t]

/-! ## Normal forms -/

mutual

/-- The tree without ANDs directly below ANDs and without groups of one. -/
def normal : Tree → Tree
  | .leaf text => .leaf text
  | .and ts => conjunction ((normals ts).flatMap conjuncts)
  | .or ts => disjunction (normals ts)
  | .not t => .not (normal t)

/-- The normal forms of several trees. -/
def normals : List Tree → List Tree
  | [] => []
  | t :: ts => normal t :: normals ts

end

theorem normals_eq_map (ts : List Tree) : normals ts = ts.map normal := by
  induction ts with
  | nil => rfl
  | cons t ts ih => rw [normals, ih, List.map_cons]

example : (Tree.and [.and [.leaf "a", .leaf "b"], .or [.leaf "c"]]).normal
    = .and [.leaf "a", .leaf "b", .leaf "c"] := rfl
example : (Tree.or [.leaf "a", .or [.leaf "b", .leaf "c"]]).normal
    = .or [.leaf "a", .or [.leaf "b", .leaf "c"]] := rfl

/-- The operands of the normal form. -/
def flat (t : Tree) : List Tree :=
  t.normal.conjuncts

/-! ## The operands of a normal form -/

/-- A tree that is no AND. -/
def Plain (t : Tree) : Prop :=
  t.conjuncts = [t]

/-- Trees that are no ANDs are the operands of their conjunction. -/
theorem conjuncts_conjunction {ts : List Tree} (h : ∀ t ∈ ts, t.Plain) :
    (conjunction ts).conjuncts = ts := by
  match ts, h with
  | [], _ => rfl
  | [t], h => exact h t (List.mem_singleton.mpr rfl)
  | _ :: _ :: _, _ => rfl

mutual

/-- No operand of a normal form is an AND. -/
theorem plain_of_mem_flat : ∀ t : Tree, ∀ u ∈ t.flat, u.Plain
  | .leaf text, u, hu => by
    rw [List.mem_singleton.mp hu]
    rfl
  | .and ts, u, hu => by
    -- the operands of operands are no ANDs, so their conjunction has no others
    have hts := plain_of_mem_flats ts
    rw [flat, normal, conjuncts_conjunction hts] at hu
    exact hts u hu
  | .or [], u, hu => by
    rw [List.mem_singleton.mp hu]
    rfl
  | .or [t], u, hu => plain_of_mem_flat t u hu
  | .or (_ :: _ :: _), u, hu => by
    rw [List.mem_singleton.mp hu]
    rfl
  | .not t, u, hu => by
    rw [List.mem_singleton.mp hu]
    rfl

theorem plain_of_mem_flats : ∀ ts : List Tree, ∀ u ∈ (normals ts).flatMap conjuncts, u.Plain
  | [], u, hu => absurd hu List.not_mem_nil
  | t :: ts, u, hu => by
    rw [normals, List.flatMap_cons, List.mem_append] at hu
    rcases hu with hu | hu
    · exact plain_of_mem_flat t u hu
    · exact plain_of_mem_flats ts u hu

end

theorem flat_and (ts : List Tree) : (Tree.and ts).flat = ts.flatMap flat := by
  rw [flat, normal, conjuncts_conjunction (plain_of_mem_flats ts), normals_eq_map,
    List.flatMap_map]
  rfl

/-- A normal form is the conjunction of its operands. -/
theorem normal_eq : ∀ t : Tree, t.normal = conjunction t.flat
  | .leaf text => rfl
  | .and ts => by rw [flat_and, normal, normals_eq_map, List.flatMap_map]; rfl
  | .or [] => rfl
  | .or [t] => normal_eq t
  | .or (_ :: _ :: _) => rfl
  | .not t => rfl

/-- Trees with the same operands have the same normal form. -/
theorem normal_congr {t u : Tree} (h : t.flat = u.flat) : t.normal = u.normal := by
  rw [normal_eq t, normal_eq u, h]

/-! ## Groups of one -/

theorem flat_conjunction (ts : List Tree) : (conjunction ts).flat = ts.flatMap flat := by
  match ts with
  | [] => rfl
  | [t] => rw [conjunction, List.flatMap_singleton]
  | t :: u :: ts => exact flat_and (t :: u :: ts)

theorem normal_disjunction (ts : List Tree) :
    (disjunction ts).normal = disjunction (ts.map normal) := by
  match ts with
  | [] => rfl
  | [t] => rfl
  | t :: u :: ts =>
    show disjunction (normals (t :: u :: ts)) = _
    rw [normals_eq_map]

theorem normal_or (ts : List Tree) : (Tree.or ts).normal = disjunction (ts.map normal) := by
  rw [normal, normals_eq_map]

/-! ## Truth -/

mutual

/-- The truth of a tree, from that of its leaves. -/
def holds (env : String → Bool) : Tree → Bool
  | .leaf text => env text
  | .and ts => allHold env ts
  | .or ts => anyHolds env ts
  | .not t => !holds env t

/-- Every one of the trees holds. -/
def allHold (env : String → Bool) : List Tree → Bool
  | [] => true
  | t :: ts => holds env t && allHold env ts

/-- One of the trees holds. -/
def anyHolds (env : String → Bool) : List Tree → Bool
  | [] => false
  | t :: ts => holds env t || anyHolds env ts

end

theorem allHold_eq_all (env : String → Bool) (ts : List Tree) :
    allHold env ts = ts.all (·.holds env) := by
  induction ts with
  | nil => rfl
  | cons t ts ih => rw [allHold, ih, List.all_cons]

theorem anyHolds_eq_any (env : String → Bool) (ts : List Tree) :
    anyHolds env ts = ts.any (·.holds env) := by
  induction ts with
  | nil => rfl
  | cons t ts ih => rw [anyHolds, ih, List.any_cons]

theorem holds_conjunction (env : String → Bool) (ts : List Tree) :
    (conjunction ts).holds env = ts.all (·.holds env) := by
  match ts with
  | [] => rfl
  | [t] => exact (Bool.and_true _).symm
  | t :: u :: ts => exact allHold_eq_all env _

theorem holds_disjunction (env : String → Bool) (ts : List Tree) :
    (disjunction ts).holds env = ts.any (·.holds env) := by
  match ts with
  | [] => rfl
  | [t] => exact (Bool.or_false _).symm
  | t :: u :: ts => exact anyHolds_eq_any env _

/-- An OR of ANDs holds when one of the ANDs does. -/
theorem holds_alternatives (env : String → Bool) (tss : List (List Tree)) :
    (disjunction (tss.map conjunction)).holds env = tss.any (·.all (·.holds env)) := by
  rw [holds_disjunction, List.any_map]
  exact congrArg (List.any tss) (funext fun ts => holds_conjunction env ts)

end Tree

end SqlLoom
