/-
  Building a CASE expression branch by branch.

  CASE expressions may nest, through their results and their ELSE parts, at most ten deep.  A draft
  also admits at most ten results that are CASE expressions themselves; each one that is offered
  counts, and it keeps counting when it is then refused.
-/
import SqlLoom.Condition.Lowering

namespace SqlLoom

/-- How deep CASE expressions may nest. -/
def maxCaseDepth : Nat := 10

/-- A CASE expression that is being built. -/
structure CaseDraft where
  branches : List Branch := []
  nestedResults : Nat := 0

namespace CaseDraft

/-- Why a branch or an ELSE part is refused. -/
inductive Fault where
  | condition (f : Lowering.Fault)
  | tooDeep
  deriving DecidableEq, Repr

/-- The fault as an error. -/
def Fault.toError : Fault → Error
  | condition f => f.toError
  | tooDeep =>
    .invalid ("Maximum CASE nesting depth (" ++ decimalNat maxCaseDepth ++ ") exceeded") "case"
      (some "nesting")

/-- The draft with one branch more. -/
def addBranch (draft : CaseDraft) (condition : Predicate) (result : Expr) : CaseDraft :=
  { draft with branches := draft.branches ++ [⟨some condition, some result⟩] }

/-- The draft after a result was offered: one that is a CASE is counted. -/
def offered (draft : CaseDraft) (result : Expr) : CaseDraft :=
  if result.isCases then { draft with nestedResults := draft.nestedResults + 1 } else draft

/-- Whether the draft, after the result was counted, takes it. -/
def admits (draft : CaseDraft) (result : Expr) : Bool :=
  !result.isCases
    || (decide (draft.nestedResults ≤ maxCaseDepth) && decide (result.caseDepth < maxCaseDepth))

/-- Adds `WHEN condition THEN result`.  The draft that remains is returned also when the branch is
    refused. -/
def whenHolds (draft : CaseDraft) (condition : Predicate) (result : Expr) :
    Except Fault Unit × CaseDraft :=
  let counted := draft.offered result
  if counted.admits result then (.ok (), counted.addBranch condition result)
  else (.error .tooDeep, counted)

/-- Adds `WHEN condition THEN result` for a condition that is still to be lowered. -/
def whenCondition (draft : CaseDraft) (condition : Condition) (result : Expr) :
    Except Fault Unit × CaseDraft :=
  match condition.toPredicate with
  | .ok p => draft.whenHolds p result
  | .error f => (.error (.condition f), draft)

/-- The finished CASE without an ELSE part. -/
def finish (draft : CaseDraft) : Expr :=
  .cases draft.branches none none

/-- The finished CASE with an ELSE part. -/
def finishWith (draft : CaseDraft) (otherwise : Expr) : Except Fault Expr :=
  if otherwise.caseDepth < maxCaseDepth then .ok (.cases draft.branches (some otherwise) none)
  else .error .tooDeep

end CaseDraft

end SqlLoom
