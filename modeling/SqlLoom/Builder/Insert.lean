/-
  Building an INSERT, one call after the other.

  The data of an INSERT can be rows of literals, records, or a stream of text.  The last call that
  gives data decides which of them is sent; what the others gave is kept but not looked at.
-/
import SqlLoom.Query

namespace SqlLoom

/-- Which data an INSERT sends. -/
inductive InsertStrategy where
  | values
  | objects
  | stream
  deriving DecidableEq, Repr

/-- The name of a strategy. -/
def InsertStrategy.label : InsertStrategy → String
  | values => "values"
  | objects => "objects"
  | stream => "stream"

/-- An INSERT that is being built: the query with its literal rows, and the other data. -/
structure InsertDraft where
  query : Insert
  strategy : InsertStrategy := .values
  objects : Option (List Record) := none
  stream : Option String := none

namespace InsertDraft

/-- An INSERT into a table, so far without data. -/
def into (table : String) : InsertDraft :=
  { query := { table } }

/-- The calls that change an INSERT. -/
inductive Call where
  | setColumns (columns : List String)
  | setRows (rows : List Row)
  | addRow (row : Row)
  | setObjects (objects : List Record)
  | setStream (text : Option String)
  | setFormat (format : String)

/-- The INSERT after a call. -/
def apply (d : InsertDraft) : Call → InsertDraft
  | .setColumns columns => { d with query := { d.query with columns } }
  | .setRows rows => { d with strategy := .values, query := { d.query with rows } }
  | .addRow row =>
    { d with strategy := .values, query := { d.query with rows := d.query.rows ++ [row] } }
  | .setObjects objects => { d with strategy := .objects, objects := some objects }
  | .setStream text => { d with strategy := .stream, stream := text }
  | .setFormat format => { d with query := { d.query with format := some format } }

/-- The INSERT after a sequence of calls. -/
def applyAll (d : InsertDraft) (calls : List Call) : InsertDraft :=
  calls.foldl apply d

end InsertDraft

end SqlLoom
