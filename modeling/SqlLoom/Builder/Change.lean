/-
  Building an UPDATE or a DELETE, one call after the other.

  Repeated WHERE conditions all have to hold, repeated assignments merge key by key, and settings
  are replaced.  A condition that cannot be lowered is recorded and changes nothing else.
-/
import SqlLoom.Builder.Clause

namespace SqlLoom

namespace Update

/-- The calls that change an UPDATE. -/
inductive Call where
  | assign (values : Record)
  | addFilter (condition : Condition)
  | setSettings (settings : Record)

/-- The UPDATE after a call. -/
def apply (q : Update) : Call → Update
  | .assign values => { q with assignments := q.assignments.mergeInto values }
  | .addFilter condition =>
    let (filter, recorded) := Clause.filter.take condition q.recorded
      (fun p => some (Predicate.conjoin q.filter p)) q.filter
    { q with filter, recorded }
  | .setSettings settings => { q with settings }

/-- The UPDATE after a sequence of calls. -/
def applyAll (q : Update) (calls : List Call) : Update :=
  calls.foldl apply q

/-- The name of this builder in the log. -/
def component : String :=
  "UpdateBuilder"

/-- What is said about a call. -/
def Call.log : Call → Log
  | addFilter condition => Clause.filterLog component condition
  | _ => []

end Update

namespace Delete

/-- The calls that change a DELETE. -/
inductive Call where
  | addFilter (condition : Condition)
  | setSettings (settings : Record)

/-- The DELETE after a call. -/
def apply (q : Delete) : Call → Delete
  | .addFilter condition =>
    let (filter, recorded) := Clause.filter.take condition q.recorded
      (fun p => some (Predicate.conjoin q.filter p)) q.filter
    { q with filter, recorded }
  | .setSettings settings => { q with settings }

/-- The DELETE after a sequence of calls. -/
def applyAll (q : Delete) (calls : List Call) : Delete :=
  calls.foldl apply q

/-- The name of this builder in the log. -/
def component : String :=
  "DeleteBuilder"

/-- What is said about a call. -/
def Call.log : Call → Log
  | addFilter condition => Clause.filterLog component condition
  | _ => []

end Delete

end SqlLoom
