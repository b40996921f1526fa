/-
  The clauses of a query that take a condition, while the query is put together.

  A condition that cannot be lowered does not stop the building.  It leaves a line behind, which
  names the clause, and the line makes every later check of the query fail.
-/
import SqlLoom.Condition.Lowering
import SqlLoom.Log

namespace SqlLoom

/-- A clause with a condition. -/
inductive Clause where
  | filter
  | prewhere
  | having
  | join
  deriving DecidableEq, Repr

namespace Clause

/-- The keyword of a clause in messages. -/
def keyword : Clause → String
  | filter => "WHERE"
  | prewhere => "PREWHERE"
  | having => "HAVING"
  | join => "JOIN"

/-- The line that a condition leaves behind when it cannot be lowered. -/
def complaint (clause : Clause) (f : Lowering.Fault) : String :=
  clause.keyword ++ ": " ++ f.toError.text

/-- What a builder says when a condition cannot be lowered. -/
def loweringLog (clause : Clause) (component : String) (c : Condition) : Log :=
  match c.toPredicate with
  | .ok _ => []
  | .error f =>
    [⟨.debug, component, clause.keyword ++ " lowering failed: " ++ f.toError.text⟩]

/-- What a builder says about a condition that is added to WHERE. -/
def filterLog (component : String) (c : Condition) : Log :=
  ⟨.debug, component, "adding WHERE clause"⟩ :: filter.loweringLog component c

/-- The condition of a clause and the lines recorded so far, after one more condition is given.
    `place` says how the clause takes a lowered one, and `failed` what is left of the clause when
    there is none. -/
def take {α : Type} (clause : Clause) (c : Condition) (recorded : List String)
    (place : Predicate → α) (failed : α) : α × List String :=
  match c.toPredicate with
  | .ok p => (place p, recorded)
  | .error f => (failed, recorded ++ [clause.complaint f])

end Clause

end SqlLoom
