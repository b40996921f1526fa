/-
  An operand is missing exactly where a group or a fragment is empty.

  Nothing refuses an AND or OR without operands, and nothing refuses an empty fragment.  Either one
  is written as a condition without a text, or as brackets around nothing, wherever a condition may
  stand.

  1. `Node.tells` — by induction over the nodes: what is read in the SQL of a node, with a gap in it
     exactly if something that shows in the node is empty.  A condition is read where an operand is
     due, everything else where none is.
  2. `Query.gapless_iff` — the same of whole queries, since their clauses follow anything.
  3. `gaps_are_empty_groups` — for queries that compile; their conditions have a text then.
-/
import SqlLoom.Proofs.Gap
import SqlLoom.Proofs.Readback
import SqlLoom.Proofs.Written.Acceptance

namespace SqlLoom

open Outcome
open Sql (code Due Settles Keeps Follows IsOperand IsPlain IsOpener IsCloser run)

/-! ## Nodes that are not empty -/

/-- The node itself is no empty group and no empty fragment. -/
def Node.Solid (n : Node) : Prop :=
  n.Filled ∧ n ≠ .predicate (.raw "")

/-- So is everything that shows in it. -/
def Node.Full (n : Node) : Prop :=
  ∀ m : Node, m.Shows n → m.Solid

theorem Node.full_iff {n : Node} : n.Full ↔ n.Solid ∧ ∀ m ∈ n.shown, m.Full := by
  constructor
  · intro h
    exact ⟨h n .refl, fun m hm l hl => h l (.head hm hl)⟩
  · rintro ⟨hn, hshown⟩ m hm
    rcases Relation.ReflTransGen.cases_head hm with rfl | ⟨l, hl, hml⟩
    · exact hn
    · exact hshown l hl m hml

/-- Of a node that is solid anyway, only the parts matter. -/
theorem Node.full_iff_shown {n : Node} (h : n.Solid) : (∀ m ∈ n.shown, m.Full) ↔ n.Full :=
  ((and_iff_right h).symm.trans full_iff.symm)

theorem Node.full_and {children : List Predicate} {grouped : Bool} :
    (Node.predicate (.and children grouped)).Full
      ↔ children ≠ [] ∧ ∀ p ∈ children, (Node.predicate p).Full := by
  rw [full_iff]
  refine and_congr ⟨fun h => h.1, fun h => ⟨h, nofun⟩⟩ ?_
  exact List.forall_mem_map

theorem Node.full_or {children : List Predicate} :
    (Node.predicate (.or children)).Full
      ↔ children ≠ [] ∧ ∀ p ∈ children, (Node.predicate p).Full := by
  rw [full_iff]
  refine and_congr ⟨fun h => h.1, fun h => ⟨h, nofun⟩⟩ ?_
  exact List.forall_mem_map

theorem Node.full_not {p : Predicate} :
    (Node.predicate (.not (some p))).Full ↔ (Node.predicate p).Full := by
  rw [full_iff, and_iff_right ⟨trivial, nofun⟩]
  exact List.forall_mem_singleton

theorem Node.full_raw {text : String} : (Node.predicate (.raw text)).Full ↔ text ≠ "" := by
  rw [full_iff]
  constructor
  · rintro ⟨⟨-, hne⟩, -⟩ rfl
    exact hne rfl
  · exact fun hne => ⟨⟨trivial, fun h => hne (by cases h; rfl)⟩, List.forall_mem_nil _⟩

/-- What is read in the SQL of a node. -/
def Node.Tells : Node → Prop
  | .predicate p => ∀ top sql, p.Writes top sql → Settles .operand (Node.predicate p).Full sql
  | .operand e => ∀ sql, e.WritesOperand sql → Settles .met (Node.operand e).Full sql
  | .expr e => ∀ sql, e.Writes sql → Keeps (Node.expr e).Full sql
  | .select q => ∀ sql, q.Writes sql → Keeps (Node.select q).Full sql

/-! ## Names -/

theorem NameWrites.isOperand {context : Identifier.Context} {s : String} {sql : Sql}
    (h : NameWrites context s sql) : IsOperand sql := by
  cases h.shape with
  | plain hplain =>
    rcases hplain with rfl | hnumber
    · exact Sql.isOperand_code (by decide)
    · exact Sql.isOperand_code (Value.isOpener_of_number (isNumberText_of_isNumber hnumber))
  | quoted => exact Sql.isOperand_name s
  | expression hcontext hbracket =>
    refine Sql.isOperand_verbatim ?_
    rintro rfl
    exact nomatch hbracket
  | qualified table column =>
    intro due hdue
    cases due <;> first | rfl | exact absurd rfl hdue

theorem LabelWrites.follows {label : Option String} {sql : Sql} (h : LabelWrites label sql) :
    Follows True sql := by
  cases label with
  | none =>
    obtain rfl : sql = [] := h
    exact Sql.follows_nil
  | some s =>
    obtain ⟨name, hname, rfl⟩ := h
    exact hname.isOperand.keeps.follows (by decide)

/-- The name of a function or of a setting. -/
theorem isOpener_of_isSimple {s : String} (h : Identifier.isSimple s = true) : IsOpener s := by
  obtain ⟨hne, hall⟩ := Identifier.isTail_of_isSimple h
  exact Sql.isOpener_of_all hne hall (by decide) (by decide)

/-! ## Tests -/

namespace Statement

variable {R : Prop} {left right sql : Sql}

theorem settles_suffix {operator : String} (hform : TestForm.ofOperator operator = .suffix)
    (hleft : IsOperand left) : Settles .operand True (left ++ code (" " ++ operator)) := by
  have hall : ∀ o ∈ TestForm.suffix.operators, IsPlain (" " ++ o) := by decide
  have hword := hall _ (TestForm.mem_of_ofOperator hform nofun)
  refine Sql.settles_of_met ?_
  rw [Sql.run_append, hleft .operand nofun, code, Sql.run_singleton]
  exact Sql.step_plain hword (.inr rfl)

theorem settles_bounds (low high : Value) (hleft : IsOperand left) :
    Settles .operand True
      (left ++ code " BETWEEN " ++ (low.literal ++ code " AND " ++ high.literal)) := by
  have hfirst : run .operand (left ++ code " BETWEEN ") = .met := by
    rw [Sql.run_append, hleft .operand nofun]
    rfl
  have hlow : Settles .met True low.literal := low.isOperand_literal.settles nofun
  have hhigh : Settles .operand True high.literal := high.isOperand_literal.settles nofun
  exact (hlow.connect (by decide) hhigh).behind hfirst |>.congr (and_true _).to_iff

theorem settles_elementTestSql {function : String} (hfunction : IsOpener (function ++ "("))
    (hleft : IsOperand left) (hright : Settles .met R right) :
    Settles .operand R (elementTestSql function left right) := by
  have hfirst : run .operand (code (function ++ "(") ++ [.name "i"] ++ code " -> ("
      ++ [.name "i"] ++ code " IN ") = .met := by
    have hcall := Sql.isOperand_code hfunction .operand nofun
    simp only [Sql.run_append, hcall]
    rfl
  have hlast : Follows True (code "), " ++ left) := hleft.keeps.follows (by decide)
  refine ⟨?_, Sql.run_append_bracket_ne_nothing⟩
  have hsplit : elementTestSql function left right = (code (function ++ "(") ++ [.name "i"]
      ++ code " -> (" ++ [.name "i"] ++ code " IN ") ++ right ++ (code "), " ++ left)
        ++ code ")" := by
    simp only [elementTestSql, List.append_assoc]
  rw [hsplit, Sql.run_append, Sql.follows_bracket, Sql.run_append, hlast, Sql.run_append, hfirst,
    hright.calm, and_true, and_true]

theorem settles_listSql (items : List Value) : Settles .met True (listSql items) := by
  unfold listSql
  split
  · exact Sql.settles_of_met rfl
  · exact Value.settles_tupleLiteral items

/-- A test has the gaps of its right side, wherever that stands. -/
theorem settles_testSql {operator : String}
    (hleft : TestForm.ofOperator operator ≠ .leading → IsOperand left)
    (hright : Settles .met R right) (h : testSql operator left right = .ok sql) :
    Settles .operand R sql := by
  unfold testSql at h
  cases hform : TestForm.ofOperator operator with
  | middle =>
    rw [hform] at h hleft
    obtain rfl := ok_eq_ok.mp h
    have hall : ∀ o ∈ TestForm.middle.operators, IsPlain (" " ++ o ++ " ") := by decide
    have hword := hall _ (TestForm.mem_of_ofOperator hform nofun)
    refine hright.behind ?_
    rw [Sql.run_append, hleft nofun .operand nofun, code, Sql.run_singleton]
    exact Sql.step_plain hword (.inr rfl)
  | leading =>
    rw [hform] at h
    obtain rfl := ok_eq_ok.mp h
    have hall : ∀ o ∈ TestForm.leading.operators, IsOpener (o ++ " ") := by decide
    have hword := hall _ (TestForm.mem_of_ofOperator hform nofun)
    exact hright.behind (Sql.isOperand_code hword .operand nofun)
  | someElement =>
    rw [hform] at h hleft
    obtain rfl := ok_eq_ok.mp h
    exact settles_elementTestSql (by decide) (hleft nofun) hright
  | everyElement =>
    rw [hform] at h hleft
    obtain rfl := ok_eq_ok.mp h
    exact settles_elementTestSql (by decide) (hleft nofun) hright
  | suffix => rw [hform] at h; exact nomatch h
  | bounds => rw [hform] at h; exact nomatch h
  | unknown => rw [hform] at h; exact nomatch h

end Statement

/-! ## One step, for each kind of node -/

/-! ### Conditions -/

namespace Predicate

theorem settles_compare {left right : Expr} {operator : String}
    (hsound : (compare left operator right).Sound) (hright : (Node.operand right).Tells)
    {top : Bool} {sql : Sql} (h : (compare left operator right).Writes top sql) :
    Settles .operand (Node.predicate (.compare left operator right)).Full sql := by
  obtain ⟨c, leftPart, rfl, hleft, htest⟩ := writes_compare.mp h
  have hoperand : Statement.TestForm.ofOperator operator ≠ .leading → IsOperand leftPart :=
    fun hform => ((hsound.column hform).nameWrites hleft).isOperand
  have hsolid : (Node.predicate (.compare (.column c) operator right)).Solid := ⟨trivial, nofun⟩
  by_cases hsuffix : Statement.TestForm.ofOperator operator = .suffix
  · simp only [TestWrites, hsuffix] at htest
    obtain ⟨-, rfl⟩ := htest
    refine (Statement.settles_suffix hsuffix (hoperand (by rw [hsuffix]; decide))).congr ?_
    rw [← Node.full_iff_shown hsolid]
    simp only [Node.shown, hsuffix]
    exact iff_of_true trivial (List.forall_mem_nil _)
  by_cases hbounds : Statement.TestForm.ofOperator operator = .bounds
  · simp only [TestWrites, hbounds] at htest
    obtain ⟨low, high, -, rfl⟩ := htest
    refine (Statement.settles_bounds low high (hoperand (by rw [hbounds]; decide))).congr ?_
    rw [← Node.full_iff_shown hsolid]
    simp only [Node.shown, hbounds]
    exact iff_of_true trivial (List.forall_mem_nil _)
  · obtain ⟨operand, hwrites, hsql⟩ := (testWrites_operand hsuffix hbounds).mp htest
    refine (Statement.settles_testSql hoperand (hright operand hwrites) hsql).congr ?_
    rw [← Node.full_iff_shown hsolid, shown_operand hsuffix hbounds, leftParts, List.nil_append,
      List.forall_mem_singleton]

/-- The operands of a group with the connective between them. -/
theorem settles_group {word : String} (hword : word ∈ Sql.connectives) {children : List Predicate}
    (h : ∀ p ∈ children, (Node.predicate p).Tells) {parts : List Sql}
    (hparts : List.Forall₂ (Predicate.Writes false) children parts) :
    Settles .operand (children ≠ [] ∧ ∀ p ∈ children, (Node.predicate p).Full)
      (Sql.joined word parts) :=
  Sql.settles_joined hword hparts fun p hp part hpart => h p hp false part hpart

theorem settles_andSql {grouped top : Bool} {R : Prop} {parts : List Sql}
    (h : Settles .operand R (Sql.joined " AND " parts)) :
    Settles .operand R (Statement.andSql grouped top parts) := by
  unfold Statement.andSql
  simp only
  split
  · exact h.inParens
  · exact h

theorem tells_step {p : Predicate} (hsound : p.Sound) (h : ∀ n ∈ p.parts, n.Tells) :
    (Node.predicate p).Tells := by
  intro top sql hsql
  cases p with
  | compare left operator right =>
    exact settles_compare hsound (h _ (List.mem_append_right _ (List.mem_singleton.mpr rfl))) hsql
  | and children grouped =>
    obtain ⟨parts, hparts, rfl⟩ := writes_and.mp hsql
    have hword : " AND " ∈ Sql.connectives := by decide
    have hgroup := settles_group hword (List.forall_mem_map.mp h) hparts
    exact (settles_andSql hgroup).congr Node.full_and.symm
  | or children =>
    obtain ⟨parts, hparts, rfl⟩ := writes_or.mp hsql
    have hword : " OR " ∈ Sql.connectives := by decide
    have hgroup := settles_group hword (List.forall_mem_map.mp h) hparts
    exact hgroup.inParens.congr Node.full_or.symm
  | not child =>
    obtain ⟨q, body, rfl, hbody, rfl⟩ := writes_not.mp hsql
    have hchild : Settles .operand (Node.predicate q).Full body :=
      h _ (List.mem_singleton.mpr rfl) true body hbody
    -- behind NOT, an operand is still due
    have hnot : run .operand (code "NOT ") = .operand := rfl
    exact (hchild.inParens.behind hnot).congr Node.full_not.symm
  | raw text =>
    obtain rfl := writes_raw.mp hsql
    exact (Sql.settles_verbatim text).congr Node.full_raw.symm

end Predicate

/-! ### Expressions -/

/-- A query in brackets, with what is read in it. -/
theorem Subquery.exists_keeps {s : Subquery} (h : ∀ n ∈ s.parts, n.Tells) {sql : Sql}
    (hs : s.Writes sql) :
    ∃ body, Keeps (∀ n ∈ s.parts, n.Full) body ∧ sql = Sql.inParens body := by
  obtain ⟨select, label⟩ := s
  obtain ⟨q, body, hq, hbody, rfl⟩ := hs
  obtain rfl : select = some q := hq
  refine ⟨body, ?_, rfl⟩
  exact (h (.select q) (List.mem_singleton.mpr rfl) body hbody).congr
    List.forall_mem_singleton.symm

theorem Subquery.keeps {s : Subquery} (h : ∀ n ∈ s.parts, n.Tells) {sql : Sql}
    (hs : s.Writes sql) : Keeps (∀ n ∈ s.parts, n.Full) sql := by
  obtain ⟨body, hbody, rfl⟩ := exists_keeps h hs
  exact hbody.inParens

/-- A call has the gaps of its arguments, in whichever form it is written. -/
theorem Statement.keeps_callSql {α : Type} {writes : α → Sql → Prop} {T : α → Prop} {args : List α}
    {parts : List Sql} (form : CallForm) {function : String} (hfunction : IsOpener function)
    (hparts : List.Forall₂ writes args parts)
    (item : ∀ x ∈ args, ∀ part, writes x part → Keeps (T x) part) :
    Keeps (∀ x ∈ args, T x) (callSql form function parts) := by
  have hpair {x y : α} : (∀ z ∈ [x, y], T z) ↔ T x ∧ T y :=
    List.forall_mem_cons.trans (and_congr_right fun _ => List.forall_mem_singleton)
  unfold callSql
  split
  case h_1 first second =>
    match args, hparts with
    | [x, y], .cons hx (.cons hy .nil) =>
      exact ((item x (by simp) first hx).pair (by decide) (by decide)
        (item y (by simp) second hy)).congr hpair.symm
  case h_2 first second =>
    match args, hparts with
    | [x, y], .cons hx (.cons hy .nil) =>
      exact ((item x (by simp) first hx).pair (by decide) (by decide)
        (item y (by simp) second hy)).congr hpair.symm
  case h_3 => exact (Sql.keeps_joined hparts item).inParens.code_append hfunction.1

theorem Branch.follows {b : Branch} (h : ∀ n ∈ b.parts, n.Tells) {sql : Sql} (hb : b.Writes sql) :
    Follows (∀ n ∈ b.parts, n.Full) sql := by
  obtain ⟨p, e, condition, result, rfl, hcondition, hresult, rfl⟩ := hb
  have hwhen : Follows (Node.predicate p).Full (code " WHEN " ++ condition) :=
    (h _ List.mem_cons_self true condition hcondition).follows (by decide)
  have hthen : Follows (Node.expr e).Full (code " THEN " ++ result) :=
    (h _ (List.mem_cons_of_mem _ List.mem_cons_self) result hresult).follows (by decide)
  rw [List.append_assoc]
  refine (hwhen.append hthen).congr ?_
  exact (List.forall_mem_cons.trans (and_congr_right fun _ => List.forall_mem_singleton)).symm

theorem OtherwiseWrites.follows {otherwise : Option Expr}
    (h : ∀ n ∈ otherwise.toList.map Node.expr, n.Tells) {sql : Sql}
    (ho : OtherwiseWrites otherwise sql) :
    Follows (∀ n ∈ otherwise.toList.map Node.expr, n.Full) sql := by
  cases otherwise with
  | none =>
    obtain rfl : sql = [] := ho
    exact Sql.follows_nil.congr (iff_of_true trivial (List.forall_mem_nil _))
  | some e =>
    obtain ⟨body, hbody, rfl⟩ := ho
    exact ((h _ (List.mem_singleton.mpr rfl) body hbody).follows (by decide)).congr
      List.forall_mem_singleton.symm

theorem Expr.tells_step {e : Expr} (hsound : e.Sound) (h : ∀ n ∈ e.parts, n.Tells) :
    (Node.expr e).Tells := by
  intro sql hsql
  have hshown : (∀ n ∈ e.parts, n.Full) ↔ (Node.expr e).Full :=
    Node.full_iff_shown (n := .expr e) ⟨trivial, nofun⟩
  have hleaf (hparts : e.parts = []) (hkeeps : Keeps True sql) : Keeps (Node.expr e).Full sql := by
    refine hkeeps.congr (Iff.trans ?_ hshown)
    rw [hparts]
    exact iff_of_true trivial (List.forall_mem_nil _)
  cases e with
  | column c => exact hleaf rfl (writes_column.mp hsql).isOperand.keeps
  | value v label =>
    obtain rfl := writes_value.mp hsql
    exact hleaf rfl v.isOperand_literal.keeps
  | array items label =>
    obtain rfl := writes_array.mp hsql
    exact hleaf rfl (Value.isOperand_literal _).keeps
  | tuple items label =>
    obtain rfl := writes_tuple.mp hsql
    exact hleaf rfl (Value.keeps_tupleLiteral items)
  | raw text label =>
    obtain rfl := writes_raw.mp hsql
    exact hleaf rfl (Sql.keeps_verbatim text)
  | subquery s => exact (Subquery.keeps h (writes_subquery.mp hsql)).congr hshown
  | call function args label =>
    obtain ⟨parts, hparts, rfl⟩ := writes_call.mp hsql
    refine (Statement.keeps_callSql _ (isOpener_of_isSimple hsound.1) hparts fun e he part hpart =>
      h (.expr e) (List.mem_map.mpr ⟨e, he, rfl⟩) part hpart).congr (Iff.trans ?_ hshown)
    exact List.forall_mem_map.symm
  | cases branches otherwise label =>
    obtain ⟨parts, rest, hparts, hrest, rfl⟩ := writes_cases.mp hsql
    obtain ⟨hbranches, hotherwise⟩ := List.forall_mem_append.mp h
    have hfirst : Follows (∀ b ∈ branches, ∀ n ∈ b.parts, n.Full) parts.flatten :=
      Sql.follows_flatten hparts fun b hb part hpart =>
        Branch.follows (fun n hn => hbranches n (List.mem_flatMap.mpr ⟨b, hb, hn⟩)) hpart
    have hend : Follows True (code " END") := Sql.follows_code (by decide)
    have hcase : Keeps True (code "CASE") := Sql.keeps_code (by decide)
    refine (((hcase.append hfirst).append (hrest.follows hotherwise)).append hend).congr
      (Iff.trans ?_ hshown)
    rw [Expr.parts, List.forall_mem_append, List.forall_mem_flatMap, and_true, true_and]

theorem Expr.tellsOperand_step {e : Expr} (h : ∀ n ∈ e.parts, n.Tells) :
    (Node.operand e).Tells := by
  intro sql hsql
  have hshown : (∀ n ∈ e.parts, n.Full) ↔ (Node.operand e).Full :=
    Node.full_iff_shown (n := .operand e) ⟨trivial, nofun⟩
  have hleaf (hparts : e.parts = []) (hsettles : Settles .met True sql) :
      Settles .met (Node.operand e).Full sql := by
    refine hsettles.congr (Iff.trans ?_ hshown)
    rw [hparts]
    exact iff_of_true trivial (List.forall_mem_nil _)
  cases e with
  | column c => exact hleaf rfl ((writesOperand_column.mp hsql).isOperand.settles nofun)
  | value v label =>
    obtain rfl := writesOperand_value.mp hsql
    exact hleaf rfl (v.isOperand_literal.settles nofun)
  | array items label =>
    obtain rfl := writesOperand_array.mp hsql
    exact hleaf rfl (Statement.settles_listSql items)
  | tuple items label =>
    obtain rfl := writesOperand_tuple.mp hsql
    exact hleaf rfl (Statement.settles_listSql items)
  | subquery s =>
    obtain ⟨body, hbody, rfl⟩ := Subquery.exists_keeps h (writesOperand_subquery.mp hsql)
    exact hbody.settles_inParens.congr hshown
  | raw text label => exact absurd hsql not_writesOperand_raw
  | call function args label => exact absurd hsql not_writesOperand_call
  | cases branches otherwise label => exact absurd hsql not_writesOperand_cases

/-! ### SELECTs -/

namespace Statement

/-- A clause of parts without gaps, or nothing. -/
theorem follows_clause {keyword : String} (hkeyword : IsCloser keyword) {parts : List Sql}
    (h : ∀ part ∈ parts, Keeps True part) : Follows True (clause keyword ", " parts) := by
  unfold clause
  split
  · exact Sql.follows_nil
  · have hparts : List.Forall₂ (fun a b => b = a) parts parts :=
      List.forall₂_same.mpr fun _ _ => rfl
    have hjoined := Sql.keeps_joined (T := fun _ => True) hparts fun part hpart _ heq => by
      rw [heq]
      exact h part hpart
    exact (hjoined.follows hkeyword).congr (iff_of_true (fun _ _ => trivial) trivial)

theorem keeps_assignmentSql {name : Sql} (h : Keeps True name) (v : Value) :
    Keeps True (assignmentSql name v) := by
  have hvalue : Follows True (code " = " ++ v.literal) :=
    v.isOperand_literal.keeps.follows (by decide)
  rw [assignmentSql, List.append_assoc]
  exact (h.append hvalue).congr (and_true _).to_iff

theorem follows_settingsSql {settings : Record}
    (h : ∀ entry ∈ settings, Identifier.isSimple entry.1 = true) :
    Follows True (settingsSql settings) := by
  refine follows_clause (by decide) fun part hpart => ?_
  obtain ⟨⟨key, v⟩, hentry, rfl⟩ := List.mem_map.mp hpart
  exact keeps_assignmentSql (Sql.keeps_code (isOpener_of_isSimple (h _ hentry)).1) v

theorem follows_countSql {keyword : String} (hkeyword : IsCloser keyword)
    (hreserved : ∀ s ∈ Sql.reserved, ¬ keyword.toList <+: s.toList) (n : Option Int64) :
    Follows True (countSql keyword n) := by
  cases n with
  | none => exact Sql.follows_nil
  | some n =>
    unfold countSql
    simp only
    split
    · exact Sql.follows_nil
    · exact Sql.follows_code (hkeyword.append _ hreserved)

theorem follows_limitSql (limit offset : Option Int64) : Follows True (limitSql limit offset) := by
  have hlimit : Follows True (countSql " LIMIT " limit) :=
    follows_countSql (by decide) (by decide) limit
  have hoffset : Follows True (countSql " OFFSET " offset) :=
    follows_countSql (by decide) (by decide) offset
  rw [limitSql_eq]
  split
  · exact Sql.follows_nil
  · exact (hlimit.append hoffset).congr (and_true _).to_iff

end Statement

theorem Source.keeps {s : Source} (h : ∀ n ∈ s.parts, n.Tells) {sql : Sql} (hs : s.Writes sql) :
    Keeps (∀ n ∈ s.parts, n.Full) sql := by
  cases s with
  | table name =>
    have hname : NameWrites .selection name sql := hs
    exact hname.isOperand.keeps.congr (iff_of_true trivial (List.forall_mem_nil _))
  | subquery s => exact Subquery.keeps h hs

theorem FromWrites.follows {source : Option FromClause} {sql : Sql}
    (h : ∀ n ∈ source.toList.flatMap (·.source.parts), n.Tells) (hs : FromWrites source sql) :
    Follows (∀ n ∈ source.toList.flatMap (·.source.parts), n.Full) sql := by
  cases source with
  | none =>
    obtain rfl : sql = [] := hs
    exact Sql.follows_nil.congr (iff_of_true trivial (List.forall_mem_nil _))
  | some f =>
    obtain ⟨source, label, hsource, hlabel, rfl⟩ := hs
    rw [Option.toList_some, List.flatMap_singleton] at h ⊢
    have hword : IsCloser " FROM " := by decide
    have hfrom := (Source.keeps h hsource).follows hword
    exact (hfrom.append hlabel.follows).congr (and_true _).to_iff

theorem JoinClause.follows {j : JoinClause} (h : ∀ n ∈ j.parts, n.Tells) {sql : Sql}
    (hj : j.Writes sql) : Follows (∀ n ∈ j.parts, n.Full) sql := by
  obtain ⟨source, label, condition, hsource, hlabel, hcondition, rfl⟩ := hj
  obtain ⟨hparts, hcond⟩ := List.forall_mem_append.mp h
  have hword : IsCloser (" " ++ j.kind.keyword ++ " JOIN ") := by
    cases j.kind <;> decide
  have hfirst := ((Source.keeps hparts hsource).follows hword).append hlabel.follows
  have hon : Follows (Node.predicate j.condition).Full (code " ON " ++ condition) :=
    (hcond _ (List.mem_singleton.mpr rfl) true condition hcondition).follows (by decide)
  rw [List.append_assoc]
  refine (hfirst.append hon).congr ?_
  rw [JoinClause.parts, List.forall_mem_append, List.forall_mem_singleton, and_true]

theorem ClauseWrites.follows {keyword : String} (hkeyword : keyword ∈ Sql.keywords)
    {clause : Option Predicate} (h : ∀ n ∈ clauseParts clause, n.Tells) {sql : Sql}
    (hs : ClauseWrites keyword clause sql) : Follows (∀ n ∈ clauseParts clause, n.Full) sql := by
  cases clause with
  | none =>
    obtain rfl : sql = [] := hs
    exact Sql.follows_nil.congr (iff_of_true trivial (List.forall_mem_nil _))
  | some p =>
    obtain ⟨body, hbody, rfl⟩ := hs
    exact ((h _ (List.mem_singleton.mpr rfl) true body hbody).follows hkeyword).congr
      List.forall_mem_singleton.symm

theorem UnionMember.follows {u : UnionMember} (h : ∀ n ∈ u.query.parts, n.Tells) {sql : Sql}
    (hu : u.Writes sql) : Follows (∀ n ∈ u.query.parts, n.Full) sql := by
  obtain ⟨operator, ⟨select, label⟩⟩ := u
  obtain ⟨q, body, hq, hbody, rfl⟩ := hu
  obtain rfl : select = some q := hq
  have hword : IsCloser (" " ++ operator.keyword ++ " ") := by
    cases operator <;> decide
  exact ((h (.select q) (List.mem_singleton.mpr rfl) body hbody).follows hword).congr
    List.forall_mem_singleton.symm

theorem WithClause.keeps {w : WithClause} (h : ∀ n ∈ w.query.parts, n.Tells) {sql : Sql}
    (hw : w.Writes sql) : Keeps (∀ n ∈ w.query.parts, n.Full) sql := by
  obtain ⟨name, query, hname, hquery, rfl⟩ := hw
  have hword : IsCloser " AS " := by decide
  have has := (Subquery.keeps h hquery).follows hword
  rw [List.append_assoc]
  exact (hname.isOperand.keeps.append has).congr (true_and _).to_iff

theorem Expr.keeps_writesColumn {e : Expr} (h : (Node.expr e).Tells) {sql : Sql}
    (he : e.WritesColumn sql) : Keeps (Node.expr e).Full sql := by
  obtain ⟨body, label, hbody, hlabel, rfl⟩ := he
  exact ((h body hbody).append hlabel.follows).congr (and_true _).to_iff

theorem OrderItem.keeps {item : OrderItem} {sql : Sql} (h : item.Writes sql) :
    Keeps True sql := by
  obtain ⟨name, hname, rfl⟩ := h
  have hword : IsCloser (" " ++ item.direction.keyword) := by
    cases item.direction <;> decide
  exact (hname.isOperand.keeps.append (Sql.follows_code hword)).congr (and_true _).to_iff

theorem keeps_columnPart {columns : List Expr} (h : ∀ e ∈ columns, (Node.expr e).Tells)
    {parts : List Sql} (hparts : List.Forall₂ Expr.WritesColumn columns parts) :
    Keeps (∀ e ∈ columns, (Node.expr e).Full) (columnPart parts) := by
  unfold columnPart
  split
  case isTrue hnil =>
    obtain rfl := (forall₂_nil_iff hparts).mpr (List.isEmpty_iff.mp hnil)
    exact (Sql.keeps_code (by decide)).congr (iff_of_true trivial (List.forall_mem_nil _))
  case isFalse =>
    exact Sql.keeps_joined hparts fun e he part hpart => Expr.keeps_writesColumn (h e he) hpart

/-- The WITH clause ends in a space, and SELECT may follow it. -/
theorem keeps_withPart {withs : List WithClause} (h : ∀ w ∈ withs, ∀ n ∈ w.query.parts, n.Tells)
    {parts : List Sql} (hparts : List.Forall₂ WithClause.Writes withs parts) {R : Prop} {body : Sql}
    (hbody : Keeps R body) :
    Keeps ((∀ w ∈ withs, ∀ n ∈ w.query.parts, n.Full) ∧ R) (withPart parts ++ body) := by
  unfold withPart
  split
  case isTrue hnil =>
    obtain rfl := (forall₂_nil_iff hparts).mpr (List.isEmpty_iff.mp hnil)
    exact hbody.congr (and_iff_right (List.forall_mem_nil _)).symm
  case isFalse =>
    have hjoined := Sql.keeps_joined hparts fun w hw part hpart => WithClause.keeps (h w hw) hpart
    have hrest : Follows R (code " " ++ body) := hbody.follows (by decide)
    rw [List.append_assoc]
    exact (hjoined.code_append (by decide)).append hrest

theorem Select.follows_tailPart {q : Select} (h : q.Sound) : Follows True q.tailPart := by
  have hfinal : Follows True (if q.final then code " FINAL" else []) := by
    split
    · exact Sql.follows_code (by decide)
    · exact Sql.follows_nil
  exact (((Statement.follows_limitSql _ _).append hfinal).append
    (Statement.follows_settingsSql h.settings)).congr (by simp)

theorem Select.tells_step {q : Select} (hsound : q.Sound) (h : ∀ n ∈ q.parts, n.Tells) :
    (Node.select q).Tells := by
  intro sql hsql
  obtain ⟨c, hc, rfl⟩ := Select.writes_iff.mp hsql
  have hshown : (∀ n ∈ q.parts, n.Full) ↔ (Node.select q).Full :=
    Node.full_iff_shown (n := .select q) ⟨trivial, nofun⟩
  refine Keeps.congr ?_ hshown
  simp only [Select.parts, List.forall_mem_append] at h
  obtain ⟨⟨⟨⟨⟨⟨⟨hwiths, hcolumns⟩, hsource⟩, hjoins⟩, hprewhere⟩, hfilter⟩, hhaving⟩, hunions⟩ := h
  have hselect : IsPlain "SELECT " := by decide
  have hgroup : IsCloser " GROUP BY " := by decide
  have horder : IsCloser " ORDER BY " := by decide
  have columns := keeps_columnPart (List.forall_mem_map.mp hcolumns) hc.columns
  have first := keeps_withPart (List.forall_mem_flatMap.mp hwiths) hc.withs
    (columns.code_append hselect)
  have source := hc.source.follows hsource
  have joins := Sql.follows_flatten hc.joins fun j hj part hpart =>
    JoinClause.follows (List.forall_mem_flatMap.mp hjoins j hj) hpart
  have prewhere := hc.prewhere.follows (by decide) hprewhere
  have filter := hc.filter.follows (by decide) hfilter
  have groupBy := Statement.follows_clause hgroup
    (forall_of_forall₂ hc.groupBy fun _ _ _ hname => (NameWrites.isOperand hname).keeps)
  have having := hc.having.follows (by decide) hhaving
  have orderBy := Statement.follows_clause horder
    (forall_of_forall₂ hc.orderBy fun _ _ _ hitem => OrderItem.keeps hitem)
  have tail := Select.follows_tailPart hsound
  have unions := Sql.follows_flatten hc.unions fun u hu part hpart =>
    UnionMember.follows (List.forall_mem_flatMap.mp hunions u hu) hpart
  rw [assemble, List.append_assoc (withPart c.withs)]
  refine Keeps.congr (((((((((first.append source).append joins).append prewhere).append
    filter).append groupBy).append having).append orderBy).append tail).append unions) ?_
  simp only [Select.parts, List.forall_mem_append, List.forall_mem_flatMap, List.forall_mem_map,
    and_true, and_assoc]

/-! ## Nodes -/

/-- **The gaps in the SQL of a sound node are the empty groups and fragments that show in it.** -/
theorem Node.tells {n : Node} (h : n.Every Node.Sound) : n.Tells := by
  induction n using Node.induction with
  | step n ih =>
    have hparts : ∀ m ∈ n.parts, m.Tells := fun m hm => ih m hm (h.below hm)
    cases n with
    | expr e => exact Expr.tells_step h.here hparts
    | operand e => exact Expr.tellsOperand_step hparts
    | predicate p => exact Predicate.tells_step h.here hparts
    | select q => exact Select.tells_step h.here hparts

/-! ## Whole queries -/

namespace Query

theorem follows_insertColumnPart {columns : List String} {parts : List Sql}
    (h : List.Forall₂ (NameWrites .selection) columns parts) :
    Follows True (insertColumnPart parts) := by
  unfold insertColumnPart
  split
  · exact Sql.follows_nil
  · have hjoined := Sql.keeps_joined (T := fun _ => True) h fun _ _ _ hname => hname.isOperand.keeps
    exact (hjoined.inParens.follows (by decide)).congr (iff_of_true (fun _ _ => trivial) trivial)

/-- The SQL of a sound query has the gaps of its topmost nodes. -/
theorem keeps {q : Query} {sql : Sql} (hroot : q.RootSound) (hsound : q.Every Node.Sound)
    (h : q.Writes sql) : Keeps (∀ n ∈ q.parts, n.Full) sql := by
  have htells : ∀ n ∈ q.parts, n.Tells := fun n hn => Node.tells fun m hm => hsound.part hn m hm
  cases q with
  | select q =>
    exact (htells _ (List.mem_singleton.mpr rfl) sql h).congr List.forall_mem_singleton.symm
  | insert q =>
    obtain ⟨table, columns, htable, hcolumns, rfl⟩ := h
    have hword : IsPlain "INSERT INTO " := by decide
    have hfirst := htable.isOperand.keeps.code_append hword
    have hvalues : Follows True (code " VALUES") := Sql.follows_code (by decide)
    have hrows : Follows True (Statement.clause " " ", " (q.rows.map Value.tupleLiteral)) := by
      refine Statement.follows_clause (by decide) fun part hpart => ?_
      obtain ⟨row, -, rfl⟩ := List.mem_map.mp hpart
      exact Value.keeps_tupleLiteral row
    refine (((hfirst.append (follows_insertColumnPart hcolumns)).append hvalues).append
      hrows).congr ?_
    exact iff_of_true (by simp) (List.forall_mem_nil _)
  | update q =>
    obtain ⟨table, assignments, filter, htable, hassignments, hfilter, rfl⟩ := h
    obtain ⟨-, -, -, -, hsettings⟩ := hroot
    have hword : IsPlain "ALTER TABLE " := by decide
    have hfirst := htable.isOperand.keeps.code_append hword
    have hupdate : Follows True (code " UPDATE") := Sql.follows_code (by decide)
    have hlist : Follows True (Statement.clause " " ", " assignments) := by
      refine Statement.follows_clause (by decide) ?_
      refine forall_of_forall₂ hassignments fun entry _ sql hwrites => ?_
      obtain ⟨name, hname, rfl⟩ := hwrites
      exact Statement.keeps_assignmentSql hname.isOperand.keeps _
    refine ((((hfirst.append hupdate).append hlist).append
      (hfilter.follows (by decide) htells)).append
        (Statement.follows_settingsSql hsettings)).congr ?_
    rw [true_and, true_and, true_and, and_true]
    rfl
  | delete q =>
    obtain ⟨table, filter, htable, hfilter, rfl⟩ := h
    obtain ⟨-, -, hsettings⟩ := hroot
    have hword : IsPlain "ALTER TABLE " := by decide
    have hfirst := htable.isOperand.keeps.code_append hword
    have hdelete : Follows True (code " DELETE") := Sql.follows_code (by decide)
    refine (((hfirst.append hdelete).append (hfilter.follows (by decide) htells)).append
      (Statement.follows_settingsSql hsettings)).congr ?_
    rw [true_and, true_and, and_true]
    rfl

theorem full_parts_iff {q : Query} :
    (∀ n ∈ q.parts, n.Full) ↔ ∀ n, q.Emits n → n.Solid := by
  constructor
  · rintro h n ⟨m, hm, hn⟩
    exact h m hm n hn
  · exact fun h m hm n hn => h n ⟨m, hm, hn⟩

/-- A condition of a clause or of a branch shows in the query. -/
theorem emits_of_condition {q : Query} {keyword : String} {p : Predicate}
    (h : q.Condition keyword p) : q.Emits (.predicate p) := by
  rcases h with h | ⟨n, hn, m, hm, h⟩
  · cases q with
    | select q => exact absurd h List.not_mem_nil
    | insert q => exact absurd h List.not_mem_nil
    | update q => exact ⟨_, mem_clauseParts_of_mem_clauseConditions h, .refl⟩
    | delete q => exact ⟨_, mem_clauseParts_of_mem_clauseConditions h, .refl⟩
  · have hpart := Node.mem_parts_of_mem_conditions h
    -- tests have no conditions, and of other nodes all parts show
    have hshown : m.shown = m.parts := by
      cases m with
      | predicate p => exact absurd h List.not_mem_nil
      | _ => rfl
    rw [← hshown] at hpart
    exact ⟨n, hn, hm.tail hpart⟩

end Query

/-- **An operand is missing exactly where a group or a fragment is empty.**  In the SQL of a query
    that compiles, an operand stands wherever one is due exactly when every AND and OR that shows
    has an operand and no raw condition that shows is empty.  Every condition has a text then,
    behind its keyword, and there is an operand on both sides of every AND and OR. -/
theorem gaps_are_empty_groups {q : Query} {sql : Sql} (h : q.compile = .ok sql) :
    (sql.Gapless ↔ ∀ n, q.Emits n → n.Filled ∧ n ≠ .predicate (.raw ""))
      ∧ ((∀ n, q.Emits n → n.Filled ∧ n ≠ .predicate (.raw "")) →
          (∀ keyword p, q.Condition keyword p →
            ∃ body, p.Writes true body ∧ body.text ≠ "" ∧ code keyword ++ body <:+: sql)
          ∧ ∀ before word after, sql = before ++ code word ++ after → word ∈ [" AND ", " OR "] →
            before.Ends ∧ after.Begins) := by
  obtain ⟨hclean, hwrites⟩ := Query.compile_iff.mp h
  obtain ⟨hroot, hsound⟩ := Query.clean_iff_every.mp hclean
  have hgapless : sql.Gapless ↔ ∀ n, q.Emits n → n.Solid :=
    (Query.keeps hroot hsound hwrites .nothing (.inl rfl)).trans Query.full_parts_iff
  refine ⟨hgapless, fun hsolid => ⟨fun keyword p hp => ?_, ?_⟩⟩
  · obtain ⟨_, ⟨body, hbody, rfl⟩, hinfix⟩ := Query.holds_condition hwrites hp
    refine ⟨body, hbody, fun htext => ?_, hinfix⟩
    have hfull : (Node.predicate p).Full := by
      obtain ⟨m, hm, hn⟩ := Query.emits_of_condition hp
      exact fun l hl => hsolid l ⟨m, hm, hn.trans hl⟩
    have hnode : (Node.predicate p).Every Node.Sound := hsound.node (Query.has_of_condition hp)
    have hcalm : (run .operand body).Calm := (Node.tells hnode true body hbody).calm.mpr hfull
    -- without a character, the operand would still be due
    rw [Sql.run_of_chars_nil (String.ofList_eq_empty_iff.mp htext)] at hcalm
    exact absurd hcalm (by decide)
  · rintro before word after rfl hword
    exact (hgapless.mpr hsolid).around hword

/-- A condition with an OR, a NOT and a raw fragment. -/
def Predicate.forgotten : Predicate :=
  .or [.compare (.named "seen") "IS NULL" (.lit .null), .not (some (.raw "kept"))]

theorem gaps_are_empty_groups_of_forgotten :
    let q : Query := .delete { table := "t", filter := some .forgotten }
    ∃ sql, q.compile = .ok sql ∧ sql.Gapless
      ∧ (∀ n, q.Emits n → n.Filled ∧ n ≠ .predicate (.raw ""))
      ∧ ∃ body, Predicate.forgotten.Writes true body ∧ body.text ≠ ""
        ∧ code " WHERE " ++ body <:+: sql := by
  intro q
  obtain ⟨sql, hsql, hgapless⟩ : ∃ sql,
      (Query.delete { table := "t", filter := some .forgotten }).compile = .ok sql
        ∧ sql.Gapless := by
    refine ⟨[.code "ALTER TABLE ", .name "t", .code " DELETE", .code " WHERE ", .code "(",
      .name "seen", .code " IS NULL"] ++ [.code " OR ", .code "NOT ", .code "(", .verbatim "kept",
      .code ")", .code ")"], ?_, .inr rfl⟩
    with_unfolding_all rfl
  obtain ⟨hiff, hall⟩ := gaps_are_empty_groups hsql
  have hsolid := hiff.mp hgapless
  have hp : q.Condition " WHERE " .forgotten := Or.inl (List.mem_singleton.mpr rfl)
  exact ⟨sql, hsql, hgapless, hsolid, (hall hsolid).1 _ _ hp⟩

/-- **An empty group compiles.**  The AND of no conditions is written as a condition without a text,
    and the statement ends where its condition should stand. -/
theorem empty_group_compiles :
    let q : Query := .delete { table := "t", filter := some (.and [] false) }
    q.toSql = .ok "ALTER TABLE `t` DELETE WHERE "
      ∧ q.Emits (.predicate (.and [] false)) ∧ ¬ (Node.predicate (.and [] false)).Filled :=
  ⟨rfl, ⟨_, List.mem_singleton.mpr rfl, .refl⟩, fun h => h rfl⟩

end SqlLoom
