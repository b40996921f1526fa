/-
  What is left of the calls on a builder.

  A `History` is one of the three builders that take conditions, together with the calls that were
  made on it.  Two fields of the query that results are functions of the conditions alone, whatever
  other calls stand between them:

  * `recorded`  — the complaints about the conditions that could not be lowered, in order;
  * `filter`    — the WHERE tree, a fold of `Clause.collect` over the conditions.

  Both are proved from what one call does, for each builder, and then for all calls by one fusion of
  folds.
-/
import SqlLoom.Builder.Change
import SqlLoom.Builder.Select

namespace SqlLoom

/-- A condition, and the clause that it was given for. -/
abbrev Given := Clause × Condition

namespace Clause

/-- The line that a condition leaves behind, if it cannot be lowered. -/
def complaint? : Given → Option String
  | (clause, c) =>
    match c.toPredicate with
    | .ok _ => none
    | .error f => some (clause.complaint f)

/-- The condition, if it was given for WHERE. -/
def filter? : Given → Option Condition
  | (.filter, c) => some c
  | _ => none

/-- The WHERE tree after one more condition.  Conditions of other clauses leave it alone. -/
def collect (tree : Option Predicate) : Given → Option Predicate
  | (.filter, c) =>
    match c.toPredicate with
    | .ok p => some (Predicate.conjoin tree p)
    | .error _ => tree
  | _ => tree

theorem take_recorded {α : Type} (clause : Clause) (c : Condition) (recorded : List String)
    (place : Predicate → α) (failed : α) :
    (clause.take c recorded place failed).2 = recorded ++ (complaint? (clause, c)).toList := by
  cases h : c.toPredicate with
  | ok p => simp [take, complaint?, h]
  | error f => simp [take, complaint?, h]

theorem take_filter (c : Condition) (recorded : List String) (tree : Option Predicate) :
    (filter.take c recorded (fun p => some (Predicate.conjoin tree p)) tree).1
      = collect tree (filter, c) := by
  cases h : c.toPredicate with
  | ok p => simp only [take, collect, h]
  | error f => simp only [take, collect, h]

end Clause

/-- A fold that keeps its state's `view` in step with another fold, over calls that each give some
    conditions. -/
theorem foldl_given {σ κ α : Type} {apply : σ → κ → σ} {given : κ → List Given} {view : σ → α}
    {next : α → Given → α} (step : ∀ s k, view (apply s k) = (given k).foldl next (view s)) (s : σ)
    (calls : List κ) : view (calls.foldl apply s) = (calls.flatMap given).foldl next (view s) := by
  induction calls generalizing s with
  | nil => rfl
  | cons k calls ih => rw [List.foldl_cons, ih, step, List.flatMap_cons, List.foldl_append]

/-! ## One call -/

/-- Complaints recorded so far, after one more condition. -/
def record (recorded : List String) (g : Given) : List String :=
  recorded ++ (Clause.complaint? g).toList

theorem foldl_record (recorded : List String) (given : List Given) :
    given.foldl record recorded = recorded ++ given.filterMap Clause.complaint? := by
  induction given generalizing recorded with
  | nil => simp
  | cons g given ih =>
    rw [List.foldl_cons, ih, record, List.append_assoc]
    cases h : Clause.complaint? g <;> simp [h]

namespace Select

/-- The condition that a call gives, if it gives one. -/
def Call.given : Call → List Given
  | .addJoin _ _ condition _ => [(.join, condition)]
  | .setPrewhere condition => [(.prewhere, condition)]
  | .addFilter condition => [(.filter, condition)]
  | .setHaving condition => [(.having, condition)]
  | _ => []

theorem recorded_apply (q : Select) (call : Call) :
    (q.apply call).recorded = call.given.foldl record q.recorded := by
  cases call <;> first | rfl | exact Clause.take_recorded ..

theorem filter_apply (q : Select) (call : Call) :
    (q.apply call).filter = call.given.foldl Clause.collect q.filter := by
  cases call <;> first | rfl | exact Clause.take_filter ..

end Select

namespace Update

/-- The condition that a call gives, if it gives one. -/
def Call.given : Call → List Given
  | .addFilter condition => [(.filter, condition)]
  | _ => []

theorem recorded_apply (q : Update) (call : Call) :
    (q.apply call).recorded = call.given.foldl record q.recorded := by
  cases call <;> first | rfl | exact Clause.take_recorded ..

theorem filter_apply (q : Update) (call : Call) :
    (q.apply call).filter = call.given.foldl Clause.collect q.filter := by
  cases call <;> first | rfl | exact Clause.take_filter ..

end Update

namespace Delete

/-- The condition that a call gives, if it gives one. -/
def Call.given : Call → List Given
  | .addFilter condition => [(.filter, condition)]
  | _ => []

theorem recorded_apply (q : Delete) (call : Call) :
    (q.apply call).recorded = call.given.foldl record q.recorded := by
  cases call <;> first | rfl | exact Clause.take_recorded ..

theorem filter_apply (q : Delete) (call : Call) :
    (q.apply call).filter = call.given.foldl Clause.collect q.filter := by
  cases call <;> first | rfl | exact Clause.take_filter ..

end Delete

/-! ## All calls -/

/-- A builder and the calls that were made on it. -/
inductive History where
  | select (columns : List Expr) (calls : List Select.Call)
  | update (table : String) (calls : List Update.Call)
  | delete (table : String) (calls : List Delete.Call)

namespace History

/-- The query that was built. -/
def query : History → Query
  | select columns calls => .select ((Select.ofColumns columns).applyAll calls)
  | update table calls => .update (Update.applyAll { table } calls)
  | delete table calls => .delete (Delete.applyAll { table } calls)

/-- The conditions that were given, in order, with their clauses. -/
def given : History → List Given
  | select _ calls => calls.flatMap Select.Call.given
  | update _ calls => calls.flatMap Update.Call.given
  | delete _ calls => calls.flatMap Delete.Call.given

/-- The conditions that were given for WHERE, in order. -/
def filters (h : History) : List Condition :=
  h.given.filterMap Clause.filter?

/-- The complaints about the conditions that could not be lowered, in order. -/
def complaints (h : History) : List String :=
  h.given.filterMap Clause.complaint?

end History

namespace Query

/-- The complaints that a query carries. -/
def recorded : Query → List String
  | select q => q.recorded
  | insert _ => []
  | update q => q.recorded
  | delete q => q.recorded

/-- The WHERE tree of a query. -/
def filter : Query → Option Predicate
  | select q => q.filter
  | insert _ => none
  | update q => q.filter
  | delete q => q.filter

end Query

namespace History

/-- A query records exactly the complaints about its conditions. -/
theorem recorded_query (h : History) : h.query.recorded = h.complaints := by
  cases h with
  | select columns calls =>
    exact (foldl_given Select.recorded_apply _ calls).trans (foldl_record [] _)
  | update table calls =>
    exact (foldl_given Update.recorded_apply _ calls).trans (foldl_record [] _)
  | delete table calls =>
    exact (foldl_given Delete.recorded_apply _ calls).trans (foldl_record [] _)

/-- The WHERE tree collects the conditions that were given for WHERE. -/
theorem filter_query (h : History) : h.query.filter = h.given.foldl Clause.collect none := by
  cases h with
  | select columns calls => exact foldl_given Select.filter_apply _ calls
  | update table calls => exact foldl_given Update.filter_apply _ calls
  | delete table calls => exact foldl_given Delete.filter_apply _ calls

end History

end SqlLoom
