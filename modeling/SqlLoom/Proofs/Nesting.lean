/-
  The bounds on CASE expressions, and what a refused branch leaves behind.

  A draft is used through four calls: two that add a branch and two that return a CASE.  All of them
  do one of three things (`apply_cases`):

      add a branch whose result is a CASE    — counted first, then added or refused
      add a branch with another result       — always
      answer from the branches               — the draft stays as it is

  1. `Guarded.apply`     — the invariant of a run in which no call fails: the count is the number of
     branches whose result is a CASE, it is at most ten, and no result nests ten deep.
  2. `case_depth_guard`  — from it, by induction on the run, the bounds on every CASE that the run
     returns, and which call after the run is refused.
  3. `answers_spent`     — two drafts with the same branches, of which one has counted a CASE more,
     answer alike until the first reaches the end of the count.  This induction is on the calls, and
     the count of the draft is a variable.
  4. `answers_after_refusal` — a CASE that was refused is a CASE that was counted, so a builder that
     refused one has a place less.
-/
import SqlLoom.Proofs.Outcome
import SqlLoom.Query.CaseDraft

namespace SqlLoom

open Outcome

/-! ## Depth -/

/-- The result of the branch is a CASE. -/
def Branch.nests (branch : Branch) : Bool :=
  branch.result.any Expr.isCases

namespace Expr

/-- How many branches of a CASE have a CASE as their result. -/
def caseBranches : Expr → Nat
  | .cases branches _ _ => branches.countP Branch.nests
  | _ => 0

theorem caseDepth_of_not_isCases {e : Expr} (h : e.isCases = false) : e.caseDepth = 0 := by
  cases e with
  | cases branches otherwise label => exact nomatch h
  | _ => simp only [caseDepth]

@[simp] theorem isCases_withLabel (s : String) (e : Expr) :
    (e.withLabel s).isCases = e.isCases := by
  cases e <;> rfl

@[simp] theorem caseBranches_withLabel (s : String) (e : Expr) :
    (e.withLabel s).caseBranches = e.caseBranches := by
  cases e <;> rfl

theorem branchDepth_append (bs cs : List Branch) :
    branchDepth (bs ++ cs) = max (branchDepth bs) (branchDepth cs) := by
  induction bs with
  | nil => simp only [List.nil_append, branchDepth, Nat.zero_max]
  | cons b bs ih =>
    obtain ⟨condition, result⟩ := b
    simp only [List.cons_append, branchDepth, ih, Nat.max_assoc]

end Expr

namespace CaseDraft

/-! ## Calls -/

/-- A call of a draft. -/
inductive Call where
  | whenHolds (condition : Predicate) (result : Expr)
  | whenCondition (condition : Condition) (result : Expr)
  | finish
  | finishWith (otherwise : Expr)

/-- What a call answers, with the CASE if it returns one. -/
abbrev Answer := Except Fault (Option Expr)

/-- The answer to a call, and the draft that remains. -/
def apply (draft : CaseDraft) : Call → Answer × CaseDraft
  | .whenHolds p result =>
    ((draft.whenHolds p result).1.map fun _ => none, (draft.whenHolds p result).2)
  | .whenCondition c result =>
    ((draft.whenCondition c result).1.map fun _ => none, (draft.whenCondition c result).2)
  | .finish => (.ok (some draft.finish), draft)
  | .finishWith otherwise => ((draft.finishWith otherwise).map some, draft)

/-- The answers to calls that are made one after the other, whatever is answered to them. -/
def answers (draft : CaseDraft) : List Call → List Answer
  | [] => []
  | call :: calls => (draft.apply call).1 :: (draft.apply call).2.answers calls

/-- The draft that remains behind the calls. -/
def after (draft : CaseDraft) : List Call → CaseDraft
  | [] => draft
  | call :: calls => (draft.apply call).2.after calls

/-- The CASE that a call offers as a result.  One whose condition cannot be lowered offers none. -/
def Call.offer? : Call → Option Expr
  | .whenHolds _ result => if result.isCases then some result else none
  | .whenCondition c result =>
    match c.toPredicate with
    | .ok _ => if result.isCases then some result else none
    | .error _ => none
  | .finish => none
  | .finishWith _ => none

/-- The call with an alias on the expression that it hands over. -/
def Call.withLabel (label : String) : Call → Call
  | .whenHolds p result => .whenHolds p (result.withLabel label)
  | .whenCondition c result => .whenCondition c (result.withLabel label)
  | .finish => .finish
  | .finishWith otherwise => .finishWith (otherwise.withLabel label)

/-- The draft with one CASE more counted. -/
def spent (draft : CaseDraft) : CaseDraft :=
  { draft with nestedResults := draft.nestedResults + 1 }

@[simp] theorem nestedResults_spent (draft : CaseDraft) :
    draft.spent.nestedResults = draft.nestedResults + 1 := rfl

@[simp] theorem branches_addBranch (draft : CaseDraft) (p : Predicate) (e : Expr) :
    (draft.addBranch p e).branches = draft.branches ++ [⟨some p, some e⟩] := rfl

@[simp] theorem nestedResults_addBranch (draft : CaseDraft) (p : Predicate) (e : Expr) :
    (draft.addBranch p e).nestedResults = draft.nestedResults := rfl

@[simp] theorem spent_addBranch (draft : CaseDraft) (p : Predicate) (e : Expr) :
    (draft.addBranch p e).spent = draft.spent.addBranch p e := rfl

/-! ### What a call does -/

/-- There is a place for one more CASE, and it is not too deep for it. -/
def Room (draft : CaseDraft) (result : Expr) : Prop :=
  draft.nestedResults < maxCaseDepth ∧ result.caseDepth < maxCaseDepth

instance (draft : CaseDraft) (result : Expr) : Decidable (draft.Room result) :=
  inferInstanceAs (Decidable (_ ∧ _))

theorem whenHolds_of_isCases (draft : CaseDraft) (p : Predicate) {result : Expr}
    (h : result.isCases = true) :
    draft.whenHolds p result
      = if draft.Room result then (.ok (), draft.spent.addBranch p result)
        else (.error .tooDeep, draft.spent) := by
  have hadmits : draft.spent.admits result = true ↔ draft.Room result := by
    simp only [admits, h, Bool.not_true, Bool.false_or, Bool.and_eq_true, decide_eq_true_eq, Room,
      nestedResults_spent, Nat.succ_le_iff]
  simp only [whenHolds, offered, h, if_true]
  exact if_congr hadmits rfl rfl

theorem whenHolds_of_not_isCases (draft : CaseDraft) (p : Predicate) {result : Expr}
    (h : result.isCases = false) :
    draft.whenHolds p result = (.ok (), draft.addBranch p result) := by
  simp [whenHolds, offered, admits, h]

theorem whenCondition_of_ok (draft : CaseDraft) {c : Condition} {p : Predicate}
    (h : c.toPredicate = .ok p) (result : Expr) :
    draft.whenCondition c result = draft.whenHolds p result := by
  simp only [whenCondition, h]

theorem whenCondition_of_error (draft : CaseDraft) {c : Condition} {f : Lowering.Fault}
    (h : c.toPredicate = .error f) (result : Expr) :
    draft.whenCondition c result = (.error (.condition f), draft) := by
  simp only [whenCondition, h]

/-- A CASE is offered: it is counted, then added or refused. -/
def Nests (call : Call) : Prop :=
  ∃ p e, call.offer? = some e ∧ e.isCases = true ∧ ∀ draft : CaseDraft,
    draft.apply call = if draft.Room e then (.ok none, draft.spent.addBranch p e)
      else (.error .tooDeep, draft.spent)

/-- A branch with another result is added. -/
def Adds (call : Call) : Prop :=
  call.offer? = none ∧ ∃ p e, e.isCases = false ∧ ∀ draft : CaseDraft,
    draft.apply call = (.ok none, draft.addBranch p e)

/-- The branches are read, and the draft stays as it is.  A CASE that is returned has the branches
    of the draft, and an ELSE part that is not too deep. -/
def Reads (call : Call) : Prop :=
  call.offer? = none ∧ ∃ answer : List Branch → Answer,
    (∀ draft : CaseDraft, draft.apply call = (answer draft.branches, draft))
      ∧ ∀ branches e, answer branches = .ok (some e) → ∃ otherwise,
          e = .cases branches otherwise none ∧ Expr.otherwiseDepth otherwise < maxCaseDepth

theorem nests_or_adds {call : Call} {p : Predicate} {result : Expr}
    (happly : ∀ draft : CaseDraft, draft.apply call = draft.apply (.whenHolds p result))
    (hoffer : call.offer? = (Call.whenHolds p result).offer?) : Nests call ∨ Adds call := by
  cases h : result.isCases with
  | true =>
    refine .inl ⟨p, result, ?_, h, fun draft => ?_⟩
    · rw [hoffer, Call.offer?, if_pos h]
    · rw [happly, apply, whenHolds_of_isCases draft p h]
      split <;> rfl
  | false =>
    refine .inr ⟨?_, p, result, h, fun draft => ?_⟩
    · rw [hoffer, Call.offer?, h]
      rfl
    · rw [happly, apply, whenHolds_of_not_isCases draft p h]
      rfl

/-- A call does one of three things. -/
theorem apply_cases (call : Call) : Nests call ∨ Adds call ∨ Reads call := by
  cases call with
  | whenHolds p result =>
    exact (nests_or_adds (fun _ => rfl) rfl).imp id .inl
  | whenCondition c result =>
    cases h : c.toPredicate with
    | ok p =>
      have hsame (draft : CaseDraft) :
          draft.apply (.whenCondition c result) = draft.apply (.whenHolds p result) := by
        simp only [apply, whenCondition_of_ok draft h]
      exact (nests_or_adds hsame (by simp only [Call.offer?, h])).imp id .inl
    | error f =>
      refine .inr (.inr ⟨by simp only [Call.offer?, h], fun _ => .error (.condition f), ?_, nofun⟩)
      intro draft
      simp only [apply, whenCondition_of_error draft h]
      rfl
  | finish =>
    refine .inr (.inr ⟨rfl, fun branches => .ok (some (.cases branches none none)),
      fun _ => rfl, ?_⟩)
    intro branches e h
    cases h
    exact ⟨none, rfl, by decide⟩
  | finishWith otherwise =>
    refine .inr (.inr ⟨rfl, fun branches => (finishWith ⟨branches, 0⟩ otherwise).map some,
      fun _ => rfl, ?_⟩)
    intro branches e h
    obtain ⟨e', he', hsome⟩ := Outcome.map_eq_ok.mp h
    rw [finishWith] at he'
    split at he'
    case isTrue hdepth =>
      cases he'
      cases hsome
      exact ⟨some otherwise, rfl, by rwa [Expr.otherwiseDepth]⟩
    case isFalse => exact nomatch he'

/-- Every CASE that is offered is counted, also one that is refused. -/
theorem nestedResults_apply (draft : CaseDraft) (call : Call) :
    (draft.apply call).2.nestedResults = draft.nestedResults + call.offer?.toList.length := by
  rcases apply_cases call with ⟨p, e, hoffer, -, happly⟩ | ⟨hoffer, p, e, -, happly⟩
    | ⟨hoffer, answer, happly, -⟩
  · rw [happly, hoffer]
    split <;> rfl
  · rw [happly, hoffer]
    rfl
  · rw [happly, hoffer]
    rfl

theorem filterMap_offer?_cons (call : Call) (calls : List Call) :
    (call :: calls).filterMap Call.offer? = call.offer?.toList ++ calls.filterMap Call.offer? := by
  cases h : call.offer? with
  | none => rw [List.filterMap_cons_none h]; rfl
  | some e => rw [List.filterMap_cons_some h]; rfl

theorem nestedResults_after (draft : CaseDraft) (calls : List Call) :
    (draft.after calls).nestedResults
      = draft.nestedResults + (calls.filterMap Call.offer?).length := by
  induction calls generalizing draft with
  | nil => rfl
  | cons call calls ih =>
    rw [after, ih, nestedResults_apply, filterMap_offer?_cons, List.length_append, Nat.add_assoc]

/-! ## Runs without a refused call -/

/-- The count is that of the branches whose result is a CASE, and both bounds are kept. -/
structure Guarded (draft : CaseDraft) : Prop where
  counted : draft.branches.countP Branch.nests = draft.nestedResults
  few : draft.nestedResults ≤ maxCaseDepth
  shallow : Expr.branchDepth draft.branches < maxCaseDepth

theorem guarded_empty : Guarded {} :=
  ⟨rfl, Nat.zero_le _, by decide⟩

/-- A branch that is added keeps the bounds if its result is not too deep and is counted. -/
theorem Guarded.addBranch {draft counted : CaseDraft} (h : Guarded draft) (p : Predicate) {e : Expr}
    (hbranches : counted.branches = draft.branches)
    (hcount : counted.nestedResults = draft.nestedResults + if e.isCases then 1 else 0)
    (hfew : counted.nestedResults ≤ maxCaseDepth) (hdepth : e.caseDepth < maxCaseDepth) :
    Guarded (counted.addBranch p e) := by
  refine ⟨?_, hfew, ?_⟩
  · rw [branches_addBranch, List.countP_append, hbranches, h.counted, nestedResults_addBranch,
      hcount, List.countP_singleton]
    rfl
  · rw [branches_addBranch, Expr.branchDepth_append, hbranches]
    simp only [Expr.branchDepth, Expr.otherwiseDepth]
    exact Nat.max_lt.mpr ⟨h.shallow, Nat.max_lt.mpr ⟨hdepth, by decide⟩⟩

/-- The step: a call that is not refused keeps the bounds. -/
theorem Guarded.apply {draft : CaseDraft} (h : Guarded draft) {call : Call}
    (hs : Succeeds (draft.apply call).1) : Guarded (draft.apply call).2 := by
  rcases apply_cases call with ⟨p, e, -, hcases, happly⟩ | ⟨-, p, e, hcases, happly⟩
    | ⟨-, answer, happly, -⟩
  · rw [happly] at hs ⊢
    split
    case isTrue hroom =>
      exact h.addBranch p rfl (by rw [hcases]; rfl) hroom.1 hroom.2
    case isFalse hroom =>
      rw [if_neg hroom] at hs
      exact absurd hs (not_succeeds_error _)
  · rw [happly]
    refine h.addBranch p rfl (by rw [hcases]; rfl) h.few ?_
    rw [Expr.caseDepth_of_not_isCases hcases]
    decide
  · rw [happly]
    exact h

/-- The run: so do calls of which none is refused. -/
theorem Guarded.after {draft : CaseDraft} (h : Guarded draft) {calls : List Call}
    (hs : ∀ a ∈ draft.answers calls, Succeeds a) : Guarded (draft.after calls) := by
  induction calls generalizing draft with
  | nil => exact h
  | cons call calls ih =>
    obtain ⟨hcall, hcalls⟩ := List.forall_mem_cons.mp hs
    exact ih (h.apply hcall) hcalls

/-- A CASE that such a draft returns is within the bounds. -/
theorem Guarded.bounds {draft : CaseDraft} (h : Guarded draft) {call : Call} {e : Expr}
    (he : (draft.apply call).1 = .ok (some e)) :
    e.caseDepth ≤ maxCaseDepth ∧ e.caseBranches ≤ maxCaseDepth := by
  rcases apply_cases call with ⟨p, e, -, -, happly⟩ | ⟨-, p, e, -, happly⟩
    | ⟨-, answer, happly, hanswer⟩
  · rw [happly] at he
    split at he <;> exact nomatch he
  · rw [happly] at he
    exact nomatch he
  · rw [happly] at he
    obtain ⟨otherwise, rfl, hdepth⟩ := hanswer _ _ he
    constructor
    · rw [Expr.caseDepth]
      exact Nat.succ_le_of_lt (Nat.max_lt.mpr ⟨h.shallow, hdepth⟩)
    · rw [Expr.caseBranches, h.counted]
      exact h.few

/-- So is every CASE that a run returns, if no call of it is refused. -/
theorem Guarded.bounds_of_mem {draft : CaseDraft} (h : Guarded draft) {calls : List Call}
    (hs : ∀ a ∈ draft.answers calls, Succeeds a) {e : Expr}
    (he : .ok (some e) ∈ draft.answers calls) :
    e.caseDepth ≤ maxCaseDepth ∧ e.caseBranches ≤ maxCaseDepth := by
  induction calls generalizing draft with
  | nil => exact nomatch he
  | cons call calls ih =>
    obtain ⟨hcall, hcalls⟩ := List.forall_mem_cons.mp hs
    rcases List.mem_cons.mp he with he | he
    · exact h.bounds he.symm
    · exact ih (h.apply hcall) hcalls he

/-! ### What is refused -/

/-- The call is not refused when so many results were counted before it. -/
def Call.Admitted (count : Nat) : Call → Prop
  | .whenHolds _ result =>
    result.isCases = true → count < maxCaseDepth ∧ result.caseDepth < maxCaseDepth
  | .whenCondition c result =>
    Succeeds c.toPredicate
      ∧ (result.isCases = true → count < maxCaseDepth ∧ result.caseDepth < maxCaseDepth)
  | .finish => True
  | .finishWith otherwise => otherwise.caseDepth < maxCaseDepth

theorem succeeds_whenHolds {draft : CaseDraft} {p : Predicate} {result : Expr} :
    Succeeds (draft.whenHolds p result).1 ↔ (result.isCases = true → draft.Room result) := by
  cases h : result.isCases with
  | true =>
    rw [whenHolds_of_isCases draft p h]
    split
    case isTrue hroom => exact iff_of_true (succeeds_ok _) fun _ => hroom
    case isFalse hroom => exact iff_of_false (not_succeeds_error _) fun h => hroom (h rfl)
  | false =>
    rw [whenHolds_of_not_isCases draft p h]
    exact iff_of_true (succeeds_ok _) nofun

theorem succeeds_finishWith {draft : CaseDraft} {otherwise : Expr} :
    Succeeds (draft.finishWith otherwise) ↔ otherwise.caseDepth < maxCaseDepth := by
  rw [finishWith]
  split
  case isTrue h => exact iff_of_true (succeeds_ok _) h
  case isFalse h => exact iff_of_false (not_succeeds_error _) h

/-- Of the draft, only the count matters for what is refused. -/
theorem succeeds_apply {draft : CaseDraft} {call : Call} :
    Succeeds (draft.apply call).1 ↔ call.Admitted draft.nestedResults := by
  cases call with
  | whenHolds p result => exact succeeds_map.trans succeeds_whenHolds
  | whenCondition c result =>
    refine succeeds_map.trans ?_
    rw [Call.Admitted]
    cases hc : c.toPredicate with
    | ok p =>
      rw [whenCondition_of_ok draft hc, succeeds_whenHolds]
      exact (and_iff_right (succeeds_ok p)).symm
    | error f =>
      rw [whenCondition_of_error draft hc]
      exact iff_of_false (not_succeeds_error _) fun h => not_succeeds_error f h.1
  | finish => exact iff_of_true (succeeds_ok _) trivial
  | finishWith otherwise => exact succeeds_map.trans succeeds_finishWith

/-- After a run without a refused call, a branch is refused when its result is a CASE and there is
    no place left, or the CASE is too deep. -/
theorem Guarded.whenHolds_fails {draft : CaseDraft} (h : Guarded draft) {p : Predicate}
    {result : Expr} :
    (∃ f, (draft.whenHolds p result).1 = .error f)
      ↔ result.isCases = true
        ∧ (draft.nestedResults = maxCaseDepth ∨ maxCaseDepth ≤ result.caseDepth) := by
  have hfew := h.few
  rw [fails_iff, succeeds_whenHolds, Room]
  grind

theorem finishWith_fails {draft : CaseDraft} {otherwise : Expr} :
    (∃ f, draft.finishWith otherwise = .error f) ↔ maxCaseDepth ≤ otherwise.caseDepth := by
  rw [fails_iff, succeeds_finishWith, Nat.not_lt]

/-! ### Aliases -/

/-- The same call, perhaps with another alias on its expression. -/
def Call.Relabels (call other : Call) : Prop :=
  other = call ∨ ∃ label, other = call.withLabel label

theorem Call.Relabels.admitted {call other : Call} (h : call.Relabels other) {count : Nat} :
    other.Admitted count ↔ call.Admitted count := by
  rcases h with rfl | ⟨label, rfl⟩
  · rfl
  · cases call <;> simp only [withLabel, Admitted, Expr.isCases_withLabel, Expr.caseDepth_withLabel]

theorem Call.Relabels.offers {call other : Call} (h : call.Relabels other) :
    other.offer?.toList.length = call.offer?.toList.length := by
  rcases h with rfl | ⟨label, rfl⟩
  · rfl
  · cases call with
    | whenHolds p result =>
      simp only [withLabel, offer?, Expr.isCases_withLabel]
      split <;> rfl
    | whenCondition c result =>
      simp only [withLabel, offer?, Expr.isCases_withLabel]
      cases c.toPredicate with
      | ok p => cases result.isCases <;> rfl
      | error f => rfl
    | finish => rfl
    | finishWith otherwise => rfl

/-- In two runs that differ in aliases, the same calls are refused, and as many results counted. -/
theorem answers_relabelled {calls others : List Call} (h : List.Forall₂ Call.Relabels calls others)
    {draft other : CaseDraft} (hcount : other.nestedResults = draft.nestedResults) :
    List.Forall₂ (fun a b => Succeeds b ↔ Succeeds a) (draft.answers calls) (other.answers others)
      ∧ (other.after others).nestedResults = (draft.after calls).nestedResults := by
  induction h generalizing draft other with
  | nil => exact ⟨.nil, hcount⟩
  | @cons call call' calls others hcall _ ih =>
    have hnext : (other.apply call').2.nestedResults = (draft.apply call).2.nestedResults := by
      rw [nestedResults_apply, nestedResults_apply, hcount, hcall.offers]
    obtain ⟨hanswers, hafter⟩ := ih hnext
    refine ⟨.cons ?_ hanswers, hafter⟩
    rw [succeeds_apply, succeeds_apply, hcount, hcall.admitted]

/-! ### The guard -/

/-- **CASE expressions nest at most ten deep.**  Of a run of calls in which none is refused,
    whatever expressions it hands over: the bounds on what it returns, what is refused after it, and
    that no alias changes any of this. -/
theorem case_depth_guard {calls : List Call}
    (h : ∀ a ∈ answers {} calls, Succeeds a) :
    -- the CASE expressions that the run returns, also under an alias
    (∀ e, .ok (some e) ∈ answers {} calls →
      e.caseDepth ≤ 10 ∧ e.caseBranches ≤ 10
        ∧ ∀ label, (e.withLabel label).caseDepth ≤ 10 ∧ (e.withLabel label).caseBranches ≤ 10)
    -- a branch after the run
    ∧ (∀ p result, (∃ f, ((after {} calls).whenHolds p result).1 = .error f)
        ↔ result.isCases = true
          ∧ ((calls.filterMap Call.offer?).length = 10 ∨ 10 ≤ result.caseDepth))
    ∧ (∀ condition p result, condition.toPredicate = .ok p →
        ((∃ f, ((after {} calls).whenCondition condition result).1 = .error f)
          ↔ result.isCases = true
            ∧ ((calls.filterMap Call.offer?).length = 10 ∨ 10 ≤ result.caseDepth)))
    -- an ELSE part after the run
    ∧ (∀ otherwise, (∃ f, (after {} calls).finishWith otherwise = .error f)
        ↔ 10 ≤ otherwise.caseDepth)
    -- the same calls with aliases on their expressions, in the run and after it
    ∧ ∀ others, List.Forall₂ Call.Relabels calls others →
        (∀ a ∈ answers {} others, Succeeds a)
        ∧ ∀ call other, call.Relabels other →
          (Succeeds ((after {} others).apply other).1
            ↔ Succeeds ((after {} calls).apply call).1) := by
  have hguarded : Guarded (after {} calls) := guarded_empty.after h
  have hcount : (after {} calls).nestedResults = (calls.filterMap Call.offer?).length := by
    rw [nestedResults_after, Nat.zero_add]
  have hwhen p result : (∃ f, ((after {} calls).whenHolds p result).1 = .error f)
      ↔ result.isCases = true
        ∧ ((calls.filterMap Call.offer?).length = 10 ∨ 10 ≤ result.caseDepth) := by
    rw [hguarded.whenHolds_fails, hcount, maxCaseDepth]
  refine ⟨fun e he => ?_, hwhen, fun condition p result hp => ?_, fun otherwise => finishWith_fails,
    fun others hothers => ?_⟩
  · obtain ⟨hdepth, hbranches⟩ := guarded_empty.bounds_of_mem h he
    refine ⟨hdepth, hbranches, fun label => ?_⟩
    rw [Expr.caseDepth_withLabel, Expr.caseBranches_withLabel]
    exact ⟨hdepth, hbranches⟩
  · rw [whenCondition_of_ok _ hp]
    exact hwhen p result
  · have hsame : ({} : CaseDraft).nestedResults = ({} : CaseDraft).nestedResults := rfl
    obtain ⟨hanswers, hafter⟩ := answers_relabelled hothers hsame
    refine ⟨?_, fun call other hcall => ?_⟩
    · exact forall_of_forall₂ hanswers fun a ha b hab => hab.mpr (h a ha)
    · rw [succeeds_apply, succeeds_apply, hafter, hcall.admitted]

/-- So many CASE expressions, each the only result of the next. -/
def nestedCase : Nat → Expr
  | 0 => .value .null none
  | n + 1 => .cases [⟨some (.raw "x"), some (nestedCase n)⟩] none none

theorem case_depth_guard_of_nested_results :
    let calls : List Call :=
      [.whenHolds (.raw "a") (nestedCase 9), .whenCondition (.raw "b") (nestedCase 9),
        .finishWith (nestedCase 9)]
    (∀ a ∈ answers {} calls, Succeeds a)
      ∧ ∀ e, .ok (some e) ∈ answers {} calls → e.caseDepth ≤ 10 ∧ e.caseBranches ≤ 10 := by
  intro calls
  have h : ∀ a ∈ answers {} calls, Succeeds a := by
    refine List.forall_mem_cons.mpr ⟨⟨_, rfl⟩, List.forall_mem_cons.mpr ⟨⟨_, rfl⟩, ?_⟩⟩
    exact List.forall_mem_singleton.mpr ⟨_, rfl⟩
  exact ⟨h, fun e he => ((case_depth_guard h).1 e he).imp_right And.left⟩

/-! ## Behind a refused call -/

/-- No result reaches the end of the count that would not be refused anyway: the one that does, if
    there is one, is too deep. -/
def Spare (count : Nat) (offers : List Expr) : Prop :=
  count < maxCaseDepth →
    ∀ e, offers[maxCaseDepth - 1 - count]? = some e → maxCaseDepth ≤ e.caseDepth

/-- The first result is the one that reaches the end of the count, or the others decide. -/
theorem spare_cons {count : Nat} {e : Expr} {offers : List Expr} :
    Spare count (e :: offers)
      ↔ (count + 1 = maxCaseDepth → maxCaseDepth ≤ e.caseDepth) ∧ Spare (count + 1) offers := by
  unfold Spare
  rcases Nat.lt_trichotomy (count + 1) maxCaseDepth with h | h | h
  · have hindex : maxCaseDepth - 1 - count = maxCaseDepth - 1 - (count + 1) + 1 := by omega
    rw [hindex, List.getElem?_cons_succ]
    exact ⟨fun hs => ⟨fun hc => absurd hc (Nat.ne_of_lt h), fun _ => hs (by omega)⟩,
      fun hs _ => hs.2 h⟩
  · have hindex : maxCaseDepth - 1 - count = 0 := by omega
    rw [hindex, List.getElem?_cons_zero]
    constructor
    · exact fun hs => ⟨fun _ => hs (by omega) e rfl, fun hc => absurd hc (by omega)⟩
    · rintro ⟨hs, -⟩ _ e' he'
      cases he'
      exact hs h
  · exact iff_of_true (fun hc => absurd hc (by omega))
      ⟨fun hc => absurd hc (by omega), fun hc => absurd hc (by omega)⟩

/-- Two drafts with the same branches, whose counts differ by one, answer alike exactly when the
    place that one of them lacks is not asked for. -/
theorem answers_spent (calls : List Call) (draft : CaseDraft) :
    draft.spent.answers calls = draft.answers calls
      ↔ Spare draft.nestedResults (calls.filterMap Call.offer?) := by
  induction calls generalizing draft with
  | nil => exact iff_of_true rfl fun _ e he => nomatch he
  | cons call calls ih =>
    rw [answers, answers, List.cons_eq_cons, filterMap_offer?_cons]
    rcases apply_cases call with ⟨p, e, hoffer, -, happly⟩ | ⟨hoffer, p, e, -, happly⟩
      | ⟨hoffer, answer, happly, -⟩
    · rw [hoffer, Option.toList_some, List.singleton_append, spare_cons, happly, happly]
      by_cases hroom : draft.Room e
      · by_cases hspent : draft.spent.Room e
        -- both take it
        · rw [if_pos hroom, if_pos hspent, ← spent_addBranch, ih]
          exact and_congr_left fun _ => iff_of_true rfl fun hc => absurd hspent.1 (by simp [hc])
        -- the last place: only one of them takes it
        · rw [if_neg hspent, if_pos hroom]
          have hlast : draft.nestedResults + 1 = maxCaseDepth := by
            by_contra hc
            exact hspent ⟨Nat.lt_of_le_of_ne hroom.1 hc, hroom.2⟩
          refine iff_of_false (fun hs => nomatch hs.1) fun hs => ?_
          exact absurd (hs.1 hlast) (Nat.not_le.mpr hroom.2)
      -- both refuse it
      · have hspent : ¬ draft.spent.Room e := fun hs => hroom ⟨Nat.lt_of_succ_lt hs.1, hs.2⟩
        rw [if_neg hroom, if_neg hspent, ih]
        refine and_congr_left fun _ => iff_of_true rfl fun hc => ?_
        by_contra hdepth
        exact hroom ⟨by omega, Nat.lt_of_not_le hdepth⟩
    · rw [hoffer, happly, happly, ← spent_addBranch, ih]
      exact and_iff_right rfl
    · rw [hoffer, happly, happly, ih]
      exact and_iff_right rfl

/-- What a refused call leaves: a CASE that was offered keeps its place in the count. -/
theorem apply_of_error {draft : CaseDraft} {call : Call} {f : Fault}
    (h : (draft.apply call).1 = .error f) :
    (draft.apply call).2 = if call.offer?.isSome then draft.spent else draft := by
  rcases apply_cases call with ⟨p, e, hoffer, -, happly⟩ | ⟨-, p, e, -, happly⟩
    | ⟨hoffer, answer, happly, -⟩
  · rw [happly] at h ⊢
    rw [hoffer]
    split
    case isTrue hroom =>
      rw [if_pos hroom] at h
      exact nomatch h
    case isFalse => rfl
  · rw [happly] at h
    exact nomatch h
  · rw [happly, hoffer]
    rfl

/-- **A refused branch is not added, but a CASE that was refused stays counted.**  Later calls are
    answered as if the refused one had not been made exactly when it offered no CASE, or none of
    them asks for the place that is missing. -/
theorem answers_after_refusal {draft : CaseDraft} {call : Call} {f : Fault}
    (h : (draft.apply call).1 = .error f) (calls : List Call) :
    (draft.apply call).2.branches = draft.branches
      ∧ ((draft.apply call).2.answers calls = draft.answers calls
        ↔ call.offer? = none ∨ Spare draft.nestedResults (calls.filterMap Call.offer?)) := by
  rw [apply_of_error h]
  cases hoffer : call.offer? with
  | none => exact ⟨rfl, iff_of_true rfl (.inl rfl)⟩
  | some e =>
    refine ⟨rfl, (answers_spent calls draft).trans ?_⟩
    exact (or_iff_right (Option.some_ne_none e)).symm

theorem answers_after_refusal_of_nine :
    let deep : Call := .whenHolds (.raw "x") (nestedCase 10)
    let later : List Call := List.replicate 9 (.whenHolds (.raw "x") (nestedCase 1))
    (apply {} deep).2.answers later = answers {} later := by
  intro deep later
  have h : (apply {} deep).1 = .error .tooDeep := rfl
  exact (answers_after_refusal h later).2.mpr (.inr fun _ e he => nomatch he)

/-- **A refused CASE takes a place.**  A builder refuses a CASE that nests ten deep; of the ten CASE
    results that it is given then, it refuses the last, which a new builder takes. -/
theorem refusal_takes_place :
    let deep : Call := .whenHolds (.raw "x") (nestedCase 10)
    let later : List Call := List.replicate 10 (.whenHolds (.raw "x") (nestedCase 1))
    (apply {} deep).1 = .error .tooDeep
      ∧ ((apply {} deep).2.answers later)[9]? = some (.error .tooDeep)
      ∧ (answers {} later)[9]? = some (.ok none) := by
  refine ⟨rfl, rfl, rfl⟩

end CaseDraft

end SqlLoom
