import SqlLoom.Builder.Change
import SqlLoom.Builder.Clause
import SqlLoom.Builder.Insert
import SqlLoom.Builder.Run
import SqlLoom.Builder.Select
import SqlLoom.Calendar
import SqlLoom.Compile
import SqlLoom.Condition
import SqlLoom.Condition.Like
import SqlLoom.Condition.Lowering
import SqlLoom.Error
import SqlLoom.Identifier
import SqlLoom.Log
import SqlLoom.Number.Binary64
import SqlLoom.Number.Decimal
import SqlLoom.Number.Printed
import SqlLoom.Number.Shortest
import SqlLoom.Proofs.Escape
import SqlLoom.Proofs.Findings
import SqlLoom.Proofs.Parts
import SqlLoom.Query
import SqlLoom.Query.CaseDraft
import SqlLoom.Query.Findings
import SqlLoom.Query.Function
import SqlLoom.Query.Problem
import SqlLoom.Report
import SqlLoom.Runner
import SqlLoom.Sql
import SqlLoom.Statement
import SqlLoom.Statement.OfQuery
import SqlLoom.Statement.ToSql
import SqlLoom.Value
import SqlLoom.Value.Display
import SqlLoom.Value.Literal
import SqlLoom.Value.Placeholder
import SqlLoom.Proofs.History
import SqlLoom.Proofs.Meaning
import SqlLoom.Proofs.Written.Acceptance
import SqlLoom.Proofs.Written.Names
import SqlLoom.Proofs.Written.Query
import SqlLoom.Proofs.Complaints
import SqlLoom.Proofs.Token
import SqlLoom.Proofs.WellFormed
import SqlLoom.Proofs.Written.WellFormed
import SqlLoom.Proofs.Steps
import SqlLoom.Proofs.Twin
import SqlLoom.Proofs.Written.Twin
import SqlLoom.Proofs.Shape
import SqlLoom.Proofs.Reader
import SqlLoom.Proofs.Reading
import SqlLoom.Proofs.Readback
import SqlLoom.Proofs.Written.Conditions
import SqlLoom.Proofs.Sending
import SqlLoom.Proofs.Strategy
import SqlLoom.Proofs.Compound
import SqlLoom.Proofs.Fragment
import SqlLoom.Proofs.Written.Fragment
import SqlLoom.Proofs.CallOrder
import SqlLoom.Proofs.Written.Subquery
import SqlLoom.Proofs.Written.ArrayTest
import SqlLoom.Proofs.Lowered
import SqlLoom.Proofs.Written.Lowered
import SqlLoom.Proofs.Unambiguous
import SqlLoom.Proofs.Pairing
import SqlLoom.Proofs.Written.Gathered
import SqlLoom.Proofs.Pattern
import SqlLoom.Proofs.Nesting
import SqlLoom.Proofs.Gap
import SqlLoom.Proofs.Written.Gap
import SqlLoom.Proofs.Merging
import SqlLoom.Proofs.CivilTime
import SqlLoom.Proofs.Written.Verbatim
import SqlLoom.Proofs.Kept
import SqlLoom.Proofs.Filling
import SqlLoom.Proofs.Closed
import SqlLoom.Proofs.Flaw
