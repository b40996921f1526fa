/-
  Everything that is written is well-formed.

  Two things could break this, and both are given by the caller to be passed through unchanged: raw
  SQL, and names with an opening bracket that stand outside conditions.  With a text in the place of
  each such fragment, the SQL of every expression, condition and SELECT can be read back and is
  balanced (`Node.masked`), by induction over the tree.  Without fragments there is nothing to put a
  text for, and the SQL itself is well-formed (`Node.wellFormed`); so the induction is over both
  cases at once.
-/
import SqlLoom.Proofs.Findings
import SqlLoom.Proofs.WellFormed
import SqlLoom.Proofs.Written.Query

namespace SqlLoom

open Outcome
open Sql (code WellFormed Trailing IsWord wellFormed_nil wellFormed_word wellFormed_name
  wellFormed_joined trailing_nil trailing_flatten mask)

/-! ## Names -/

/-- A name without an opening bracket. -/
def Bracketless (s : String) : Prop :=
  '(' ∉ s.toList

theorem NameWrites.masked {fragments : Bool} {context : Identifier.Context} {s : String} {sql : Sql}
    (h : NameWrites context s sql)
    (hs : fragments = false → context = .selection → Bracketless s) :
    WellFormed (sql.replaced (mask fragments)) := by
  cases h.shape with
  | plain hplain =>
    refine wellFormed_word ?_
    rcases hplain with rfl | hnumber
    · decide
    · exact isWord_of_number (isNumberText_of_isNumber hnumber)
  | quoted => exact wellFormed_name s
  | expression hcontext hbracket =>
    cases fragments with
    | true => exact wellFormed_text s
    | false => exact absurd hbracket (hs rfl hcontext)
  | qualified table column =>
    exact (wellFormed_name table).append_word_append (by decide) (wellFormed_name column)

theorem NameWrites.wellFormed {context : Identifier.Context} {s : String} {sql : Sql}
    (h : NameWrites context s sql) (hs : context = .selection → Bracketless s) :
    WellFormed sql := by
  have hmasked : WellFormed (sql.replaced (mask false)) := h.masked fun _ => hs
  rwa [Sql.replaced_mask_false] at hmasked

theorem LabelWrites.trailing {fragments : Bool} {label : Option String} {sql : Sql}
    (h : LabelWrites label sql) (hs : fragments = false → ∀ s ∈ label, Bracketless s) :
    Trailing (sql.replaced (mask fragments)) := by
  cases label with
  | none =>
    obtain rfl : sql = [] := h
    exact trailing_nil
  | some s =>
    obtain ⟨name, hname, rfl⟩ := h
    rw [Sql.replaced_append, Sql.replaced_code]
    exact (hname.masked fun hf _ => hs hf s rfl).trailing (by decide)

/-! ## Phrases -/

namespace Statement

theorem wellFormed_listSql (items : List Value) : WellFormed (listSql items) := by
  unfold listSql
  split
  · exact ⟨Sql.lexable_code (by decide), fun _ => rfl⟩
  · exact Value.wellFormed_tupleLiteral items

/-- A clause of well-formed parts, which starts with its keyword if it is there at all. -/
theorem trailing_clause {keyword separator : String} (hk : IsWord keyword)
    (hs : IsWord separator) {parts : List Sql} (h : ∀ part ∈ parts, WellFormed part) :
    Trailing (clause keyword separator parts) := by
  unfold clause
  split
  · exact trailing_nil
  · exact (wellFormed_joined hs h).trailing hk

theorem wellFormed_assignmentSql {name : Sql} (h : WellFormed name) (v : Value) :
    WellFormed (assignmentSql name v) :=
  h.append_word_append (by decide) v.wellFormed_literal

theorem trailing_settingsSql {settings : Record}
    (h : ∀ entry ∈ settings, Identifier.isSimple entry.1 = true) :
    Trailing (settingsSql settings) := by
  refine trailing_clause (by decide) (by decide) fun part hpart => ?_
  obtain ⟨⟨key, v⟩, hentry, rfl⟩ := List.mem_map.mp hpart
  exact wellFormed_assignmentSql (wellFormed_word (isWord_of_isSimple (h _ hentry))) v

/-- A keyword with a number behind it is a word. -/
theorem isWord_append_decimalInt {keyword : String} (h : IsWord keyword) (n : Int) :
    IsWord (keyword ++ decimalInt n) := by
  have hn := isWord_of_number (isNumberText_decimalInt n)
  refine ⟨fun hnil => h.1 ?_, fun c hc => ?_⟩
  · exact (String.append_eq_empty_iff.mp hnil).1
  · rw [String.toList_append, List.mem_append] at hc
    rcases hc with hc | hc
    · exact h.2 c hc
    · exact hn.2 c hc

/-- A keyword with its number, unless the number is zero or missing. -/
def countSql (keyword : String) : Option Int64 → Sql
  | some n => if n = 0 then [] else code (keyword ++ decimalInt n.toInt)
  | none => []

theorem limitSql_eq (limit offset : Option Int64) :
    limitSql limit offset = if (countSql " LIMIT " limit).isEmpty then []
      else countSql " LIMIT " limit ++ countSql " OFFSET " offset := by
  cases limit <;> cases offset <;> rfl

theorem trailing_countSql {keyword : String} (h : IsWord keyword) (n : Option Int64) :
    Trailing (countSql keyword n) := by
  cases n with
  | none => exact trailing_nil
  | some n =>
    unfold countSql
    simp only
    split
    · exact trailing_nil
    · exact wellFormed_nil.trailing (isWord_append_decimalInt h _)

theorem trailing_limitSql (limit offset : Option Int64) : Trailing (limitSql limit offset) := by
  have hlimit : Trailing (countSql " LIMIT " limit) := trailing_countSql (by decide) limit
  have hoffset : Trailing (countSql " OFFSET " offset) := trailing_countSql (by decide) offset
  rw [limitSql_eq]
  split
  · exact trailing_nil
  · exact hlimit.append hoffset

/-! ## Tests, conditions and calls -/

theorem wellFormed_leftSql {left : String} {sql : Sql} (h : leftSql left = .ok sql) :
    WellFormed sql := by
  unfold leftSql at h
  split at h
  · obtain rfl := ok_eq_ok.mp h
    exact wellFormed_nil
  · exact (nameSql_eq_ok.mp h).wellFormed nofun

/-- Three brackets are opened and closed around the sides of the test. -/
theorem wellFormed_elementTestSql {function : String} (hf : function ∈ ["arrayExists", "arrayAll"])
    {left right : Sql} (hl : WellFormed left) (hr : WellFormed right) :
    WellFormed (elementTestSql function left right) := by
  have hhead : (Piece.code (function ++ "(")).Lexes := by
    rcases List.mem_pair.mp hf with rfl | rfl
    · decide
    · decide
  have hname : Sql.Lexable [.name "i"] := (wellFormed_name "i").lexable
  have hlexable : Sql.Lexable (elementTestSql function left right) :=
    ((((Sql.lexable_nil.append_code_append hhead hname).append_code_append
      (by decide) hname).append_code_append (by decide)
        hr.lexable).append_code_append (by decide) hl.lexable).append_code
          (by decide)
  refine ⟨hlexable, fun depth => ?_⟩
  have hopen : depthAfter depth (code (function ++ "(")).tokens = some (depth + 1) := by
    rcases List.mem_pair.mp hf with rfl | rfl
    · rfl
    · rfl
  have hinner : depthAfter (depth + 1) (code " -> (").tokens = some (depth + 2) := rfl
  have hin : depthAfter (depth + 2) (code " IN ").tokens = some (depth + 2) := rfl
  have hclose : depthAfter (depth + 2) (code "), ").tokens = some (depth + 1) := rfl
  have hend : depthAfter (depth + 1) (code ")").tokens = some depth := rfl
  have hi : ∀ d, depthAfter d (Sql.tokens [.name "i"]) = some d := (wellFormed_name "i").balanced
  have hleft : ∀ d, depthAfter d left.tokens = some d := hl.balanced
  have hright : ∀ d, depthAfter d right.tokens = some d := hr.balanced
  simp only [elementTestSql, Sql.tokens_append, depthAfter_append, hopen, hinner, hin, hclose, hend,
    hi, hleft, hright, Option.bind_some]

/-- The operators that are written in a shape. -/
def TestForm.operators : TestForm → List String
  | suffix => ["IS NULL", "IS NOT NULL"]
  | bounds => ["BETWEEN"]
  | middle => ["=", "!=", ">", ">=", "<", "<=", "IN", "NOT IN", "LIKE", "ILIKE"]
  | leading => ["EXISTS", "NOT EXISTS"]
  | someElement => ["HAS ANY"]
  | everyElement => ["HAS ALL", "IN TUPLE"]
  | unknown => []

/-- An operator with a shape is one of a few, each written by the library itself. -/
theorem TestForm.mem_operators {operator : String} (h : ofOperator operator ≠ .unknown) :
    operator ∈ (ofOperator operator).operators := by
  unfold ofOperator at h ⊢
  by_cases h₁ : operator ∈ ["IS NULL", "IS NOT NULL"]
  · rw [if_pos h₁]
    exact h₁
  rw [if_neg h₁] at h ⊢
  by_cases h₂ : operator = "BETWEEN"
  · rw [if_pos h₂]
    exact List.mem_singleton.mpr h₂
  rw [if_neg h₂] at h ⊢
  by_cases h₃ : operator ∈ ["=", "!=", ">", ">=", "<", "<=", "IN", "NOT IN", "LIKE", "ILIKE"]
  · rw [if_pos h₃]
    exact h₃
  rw [if_neg h₃] at h ⊢
  by_cases h₄ : operator ∈ ["EXISTS", "NOT EXISTS"]
  · rw [if_pos h₄]
    exact h₄
  rw [if_neg h₄] at h ⊢
  by_cases h₅ : operator = "HAS ANY"
  · rw [if_pos h₅]
    exact List.mem_singleton.mpr h₅
  rw [if_neg h₅] at h ⊢
  by_cases h₆ : operator ∈ ["HAS ALL", "IN TUPLE"]
  · rw [if_pos h₆]
    exact h₆
  rw [if_neg h₆] at h
  exact absurd rfl h

theorem TestForm.mem_of_ofOperator {operator : String} {form : TestForm}
    (h : ofOperator operator = form) (hform : form ≠ .unknown) : operator ∈ form.operators := by
  rw [← h] at hform ⊢
  exact mem_operators hform

/-- A test of well-formed sides. -/
theorem wellFormed_testSql {operator : String} {left right sql : Sql} (hl : WellFormed left)
    (hr : WellFormed right) (h : testSql operator left right = .ok sql) : WellFormed sql := by
  unfold testSql at h
  cases hform : TestForm.ofOperator operator with
  | middle =>
    rw [hform] at h
    obtain rfl := ok_eq_ok.mp h
    have hword : ∀ o ∈ TestForm.middle.operators, IsWord (" " ++ o ++ " ") := by decide
    exact hl.append_word_append (hword _ (TestForm.mem_of_ofOperator hform nofun)) hr
  | leading =>
    rw [hform] at h
    obtain rfl := ok_eq_ok.mp h
    have hword : ∀ o ∈ TestForm.leading.operators, IsWord (o ++ " ") := by decide
    exact hr.word_append (hword _ (TestForm.mem_of_ofOperator hform nofun))
  | someElement =>
    rw [hform] at h
    obtain rfl := ok_eq_ok.mp h
    exact wellFormed_elementTestSql (by decide) hl hr
  | everyElement =>
    rw [hform] at h
    obtain rfl := ok_eq_ok.mp h
    exact wellFormed_elementTestSql (by decide) hl hr
  | suffix => rw [hform] at h; exact nomatch h
  | bounds => rw [hform] at h; exact nomatch h
  | unknown => rw [hform] at h; exact nomatch h

theorem wellFormed_andSql {grouped top : Bool} {parts : List Sql}
    (h : ∀ part ∈ parts, WellFormed part) : WellFormed (andSql grouped top parts) := by
  have hbody : WellFormed (Sql.joined " AND " parts) := wellFormed_joined (by decide) h
  unfold andSql
  simp only
  split
  · exact hbody.inParens
  · exact hbody

theorem wellFormed_orSql {parts : List Sql} (h : ∀ part ∈ parts, WellFormed part) :
    WellFormed (orSql parts) :=
  (wellFormed_joined (by decide) h).inParens

/-- CAST and quantile have brackets of their own; any other call is a word and a list. -/
theorem wellFormed_callSql {function : String} (hf : Identifier.isSimple function = true)
    {form : CallForm} {args : List Sql} (h : ∀ arg ∈ args, WellFormed arg) :
    WellFormed (callSql form function args) := by
  unfold callSql
  split
  · rename_i arg type
    have harg : WellFormed arg := h arg (List.mem_cons_self)
    have htype : WellFormed type := h type (List.mem_cons_of_mem _ (List.mem_cons_self))
    refine ⟨((Sql.lexable_nil.append_code_append (by decide)
      harg.lexable).append_code_append (by decide) htype.lexable).append_code
        (by decide), fun depth => ?_⟩
    have hopen : depthAfter depth (code "CAST(").tokens = some (depth + 1) := rfl
    have hmiddle : depthAfter (depth + 1) (code " AS ").tokens = some (depth + 1) := rfl
    have hclose : depthAfter (depth + 1) (code ")").tokens = some depth := rfl
    have ha : ∀ d, depthAfter d arg.tokens = some d := harg.balanced
    have ht : ∀ d, depthAfter d type.tokens = some d := htype.balanced
    simp only [Sql.tokens_append, depthAfter_append, hopen, hmiddle, hclose, ha, ht,
      Option.bind_some]
  · rename_i level arg
    have hlevel : WellFormed level := h level (List.mem_cons_self)
    have harg : WellFormed arg := h arg (List.mem_cons_of_mem _ (List.mem_cons_self))
    refine ⟨((Sql.lexable_nil.append_code_append (by decide)
      hlevel.lexable).append_code_append (by decide) harg.lexable).append_code
        (by decide), fun depth => ?_⟩
    have hopen : depthAfter depth (code "quantile(").tokens = some (depth + 1) := rfl
    have hmiddle : depthAfter (depth + 1) (code ")(").tokens = some (depth + 1) := rfl
    have hclose : depthAfter (depth + 1) (code ")").tokens = some depth := rfl
    have hl : ∀ d, depthAfter d level.tokens = some d := hlevel.balanced
    have ha : ∀ d, depthAfter d arg.tokens = some d := harg.balanced
    simp only [Sql.tokens_append, depthAfter_append, hopen, hmiddle, hclose, hl, ha,
      Option.bind_some]
  · exact (wellFormed_joined (by decide) h).inParens.word_append (isWord_of_isSimple hf)

/-! ### With something else in the place of fragments -/

section Replaced

variable (put : String → Sql)

theorem replaced_clause (keyword separator : String) (parts : List Sql) :
    (clause keyword separator parts).replaced put
      = clause keyword separator (parts.map (Sql.replaced put)) := by
  unfold clause
  cases parts with
  | nil => rfl
  | cons part parts =>
    show (code keyword ++ Sql.joined separator (part :: parts)).replaced put = _
    rw [Sql.replaced_append, Sql.replaced_code, Sql.replaced_joined]
    rfl

theorem replaced_andSql (grouped top : Bool) (parts : List Sql) :
    (andSql grouped top parts).replaced put
      = andSql grouped top (parts.map (Sql.replaced put)) := by
  unfold andSql
  simp only [List.length_map]
  split
  · rw [Sql.replaced_inParens, Sql.replaced_joined]
  · rw [Sql.replaced_joined]

theorem replaced_orSql (parts : List Sql) :
    (orSql parts).replaced put = orSql (parts.map (Sql.replaced put)) := by
  rw [orSql, Sql.replaced_inParens, Sql.replaced_joined, orSql]

theorem replaced_callSql (form : CallForm) (function : String) (args : List Sql) :
    (callSql form function args).replaced put
      = callSql form function (args.map (Sql.replaced put)) := by
  match form, args with
  | .cast, [_, _] => simp [callSql]
  | .quantile, [_, _] => simp [callSql]
  | .plain, _ => simp [callSql]
  | .cast, [] | .cast, [_] | .cast, _ :: _ :: _ :: _ => simp [callSql]
  | .quantile, [] | .quantile, [_] | .quantile, _ :: _ :: _ :: _ => simp [callSql]

/-- Fragments of a test are on its right side. -/
theorem replaced_testSql {operator : String} {left right sql : Sql} (hl : WellFormed left)
    (h : testSql operator left right = .ok sql) :
    testSql operator left (right.replaced put) = .ok (sql.replaced put) := by
  have hleft : left.replaced put = left := Sql.replaced_of_lexable put hl.lexable
  unfold testSql at h ⊢
  split at h
  · obtain rfl := ok_eq_ok.mp h
    simp only [Sql.replaced_append, Sql.replaced_code, hleft]
  · obtain rfl := ok_eq_ok.mp h
    simp only [Sql.replaced_append, Sql.replaced_code]
  · obtain rfl := ok_eq_ok.mp h
    simp only [elementTestSql, Sql.replaced_append, Sql.replaced_code, Sql.replaced_name, hleft]
  · obtain rfl := ok_eq_ok.mp h
    simp only [elementTestSql, Sql.replaced_append, Sql.replaced_code, Sql.replaced_name, hleft]
  · exact nomatch h

end Replaced

end Statement

/-! ## Nodes -/

/-- No raw SQL at this place. -/
def Node.RawFree : Node → Prop
  | .expr (.raw _ _) => False
  | .operand (.raw _ _) => False
  | .predicate (.raw _) => False
  | _ => True

/-- A table name without an opening bracket. -/
def Source.Bracketless : Source → Prop
  | .table name => SqlLoom.Bracketless name
  | .subquery _ => True

/-- No opening bracket in the names of a SELECT that stand outside conditions. -/
structure Select.Bracketless (q : Select) : Prop where
  withs : ∀ w ∈ q.withs, SqlLoom.Bracketless w.name
  labels : ∀ e ∈ q.columns, ∀ s ∈ e.label, SqlLoom.Bracketless s
  source : ∀ f ∈ q.source, f.source.Bracketless ∧ ∀ s ∈ f.label, SqlLoom.Bracketless s
  joins : ∀ j ∈ q.joins, j.source.Bracketless ∧ ∀ s ∈ j.label, SqlLoom.Bracketless s
  groupBy : ∀ c ∈ q.groupBy, SqlLoom.Bracketless c.joined
  orderBy : ∀ item ∈ q.orderBy, SqlLoom.Bracketless item.column.joined

/-- No opening bracket in the names at this place that stand outside conditions. -/
def Node.Bracketless : Node → Prop
  | .expr (.column c) => SqlLoom.Bracketless c.joined
  | .select q => q.Bracketless
  | _ => True

/-- The SQL of a node.  `top` only matters for conditions. -/
def Node.Writes (top : Bool) : Node → Sql → Prop
  | .expr e => e.Writes
  | .operand e => e.WritesOperand
  | .predicate p => p.Writes top
  | .select q => q.Writes

/-- All SQL of a node is well-formed. -/
def Node.WellFormed (n : Node) : Prop :=
  ∀ top sql, n.Writes top sql → Sql.WellFormed sql

/-- All SQL of a node is well-formed when it is masked. -/
def Node.Masked (fragments : Bool) (n : Node) : Prop :=
  ∀ top sql, n.Writes top sql → Sql.WellFormed (sql.replaced (mask fragments))

/-- What a node has to keep so that its SQL is well-formed. -/
def Node.Tame (n : Node) : Prop :=
  n.Sound ∧ n.RawFree ∧ n.Bracketless

/-- What a node has to keep so that its SQL is well-formed when it is masked: where fragments are
    allowed, to be sound is enough. -/
def Node.TameBut (fragments : Bool) (n : Node) : Prop :=
  n.Sound ∧ (fragments = false → n.RawFree ∧ n.Bracketless)

section Masked

variable {fragments : Bool}

theorem Subquery.masked {s : Subquery} (h : ∀ n ∈ s.parts, n.Masked fragments) {sql : Sql}
    (hs : s.Writes sql) : WellFormed (sql.replaced (mask fragments)) := by
  obtain ⟨q, body, hq, hbody, rfl⟩ := hs
  have hpart : Node.select q ∈ s.parts := by simp [Subquery.parts, hq]
  rw [Sql.replaced_inParens]
  exact WellFormed.inParens (h _ hpart true body hbody)

theorem Branch.trailing {b : Branch} (h : ∀ n ∈ b.parts, n.Masked fragments) {sql : Sql}
    (hb : b.Writes sql) : Trailing (sql.replaced (mask fragments)) := by
  obtain ⟨p, e, condition, result, rfl, hp, he, rfl⟩ := hb
  have hcondition : WellFormed (condition.replaced (mask fragments)) := by
    refine h (.predicate p) ?_ true condition hp
    simp [Branch.parts]
  have hresult : WellFormed (result.replaced (mask fragments)) := by
    refine h (.expr e) ?_ true result he
    simp [Branch.parts]
  simp only [Sql.replaced_append, Sql.replaced_code]
  rw [List.append_assoc, List.append_assoc, ← List.append_assoc (condition.replaced (mask fragments))]
  exact (hcondition.append_word_append (by decide) hresult).trailing (by decide)

/-! ### One node at a time -/

/-- SQL without fragments is its own masked form. -/
theorem masked_of_wellFormed {sql : Sql} (h : WellFormed sql) :
    WellFormed (sql.replaced (mask fragments)) := by
  rwa [Sql.replaced_of_lexable _ h.lexable]

/-- A fragment is masked where it is allowed. -/
theorem masked_verbatim {s : String} (h : fragments = true) :
    WellFormed (Sql.replaced (mask fragments) [.verbatim s]) := by
  rw [h]
  exact wellFormed_text s

theorem Expr.masked_step {e : Expr} (ht : (Node.expr e).TameBut fragments)
    (h : ∀ n ∈ e.parts, n.Masked fragments) : (Node.expr e).Masked fragments := by
  obtain ⟨hsound, hfree⟩ := ht
  intro top sql hsql
  cases e with
  | column c => exact (writes_column.mp hsql).masked fun hf _ => (hfree hf).2
  | value v label =>
    rw [writes_value.mp hsql]
    exact masked_of_wellFormed v.wellFormed_literal
  | array items label =>
    rw [writes_array.mp hsql]
    exact masked_of_wellFormed (Value.wellFormed_literal _)
  | tuple items label =>
    rw [writes_tuple.mp hsql]
    exact masked_of_wellFormed (Value.wellFormed_tupleLiteral items)
  | subquery s => exact Subquery.masked h (writes_subquery.mp hsql)
  | raw text label =>
    rw [writes_raw.mp hsql]
    exact masked_verbatim (eq_true_of_ne_false fun hf => (hfree hf).1)
  | call function args label =>
    obtain ⟨parts, hparts, rfl⟩ := writes_call.mp hsql
    rw [Statement.replaced_callSql]
    refine Statement.wellFormed_callSql hsound.1 (List.forall_mem_map.mpr ?_)
    refine forall_of_forall₂ hparts ?_
    exact fun e he sql => h (.expr e) (List.mem_map.mpr ⟨e, he, rfl⟩) true sql
  | cases branches otherwise label =>
    obtain ⟨parts, rest, hparts, hrest, rfl⟩ := writes_cases.mp hsql
    have hbranches : ∀ part ∈ parts.map (Sql.replaced (mask fragments)), Trailing part := by
      refine List.forall_mem_map.mpr (forall_of_forall₂ hparts fun b hb sql hwrites => ?_)
      refine Branch.trailing (fun n hn => h n ?_) hwrites
      exact List.mem_append_left _ (List.mem_flatMap.mpr ⟨b, hb, hn⟩)
    have hotherwise : Trailing (rest.replaced (mask fragments)) := by
      cases otherwise with
      | none =>
        obtain rfl : rest = [] := hrest
        exact trailing_nil
      | some e =>
        obtain ⟨body, hbody, rfl⟩ := hrest
        have hpart : Node.expr e ∈ (Expr.cases branches (some e) label).parts := by
          simp [Expr.parts]
        rw [Sql.replaced_append, Sql.replaced_code]
        exact (h _ hpart true body hbody).trailing (by decide)
    have hcase : WellFormed (code "CASE") := wellFormed_word (by decide)
    simp only [Sql.replaced_append, Sql.replaced_code, Sql.replaced_flatten]
    exact ((hcase.append (trailing_flatten hbranches)).append hotherwise).append_word (by decide)

theorem Expr.maskedOperand_step {e : Expr} (h : ∀ n ∈ e.parts, n.Masked fragments) :
    (Node.operand e).Masked fragments := by
  intro top sql hsql
  cases e with
  | column c => exact (writesOperand_column.mp hsql).masked nofun
  | value v label =>
    rw [writesOperand_value.mp hsql]
    exact masked_of_wellFormed v.wellFormed_literal
  | array items label =>
    rw [writesOperand_array.mp hsql]
    exact masked_of_wellFormed (Statement.wellFormed_listSql items)
  | tuple items label =>
    rw [writesOperand_tuple.mp hsql]
    exact masked_of_wellFormed (Statement.wellFormed_listSql items)
  | subquery s => exact Subquery.masked h (writesOperand_subquery.mp hsql)
  | raw text label => exact absurd hsql not_writesOperand_raw
  | call function args label => exact absurd hsql not_writesOperand_call
  | cases branches otherwise label => exact absurd hsql not_writesOperand_cases

theorem TestWrites.masked {operator : String} {left : Sql} {right : Expr} {sql : Sql}
    (h : TestWrites operator left right sql) (hl : WellFormed left)
    (hr : (Node.operand right).Masked fragments) : WellFormed (sql.replaced (mask fragments)) := by
  unfold TestWrites at h
  cases hform : Statement.TestForm.ofOperator operator with
  | suffix =>
    rw [hform] at h
    obtain ⟨-, rfl⟩ := h
    have hword : ∀ o ∈ Statement.TestForm.suffix.operators, IsWord (" " ++ o) := by decide
    exact masked_of_wellFormed
      (hl.append_word (hword _ (Statement.TestForm.mem_of_ofOperator hform nofun)))
  | bounds =>
    rw [hform] at h
    obtain ⟨low, high, -, rfl⟩ := h
    exact masked_of_wellFormed (hl.append_word_append (by decide)
      (low.wellFormed_literal.append_word_append (by decide) high.wellFormed_literal))
  | _ =>
    rw [hform] at h
    obtain ⟨operand, hoperand, h⟩ := h
    exact Statement.wellFormed_testSql hl (hr true operand hoperand)
      (Statement.replaced_testSql _ hl h)

theorem Predicate.masked_step {p : Predicate} (ht : (Node.predicate p).TameBut fragments)
    (h : ∀ n ∈ p.parts, n.Masked fragments) : (Node.predicate p).Masked fragments := by
  obtain ⟨-, hfree⟩ := ht
  intro top sql hsql
  have hchildren : ∀ {ps : List Predicate} {parts : List Sql},
      (∀ q ∈ ps, (Node.predicate q).Masked fragments) →
      List.Forall₂ (Predicate.Writes false) ps parts →
      ∀ part ∈ parts.map (Sql.replaced (mask fragments)), WellFormed part :=
    fun hps hparts => List.forall_mem_map.mpr
      (forall_of_forall₂ hparts fun q hq sql => hps q hq false sql)
  cases p with
  | compare left operator right =>
    obtain ⟨c, leftPart, rfl, hleft, htest⟩ := writes_compare.mp hsql
    exact htest.masked (Statement.wellFormed_leftSql hleft) (h _ (List.mem_singleton.mpr rfl))
  | and children grouped =>
    obtain ⟨parts, hparts, rfl⟩ := writes_and.mp hsql
    rw [Statement.replaced_andSql]
    exact Statement.wellFormed_andSql
      (hchildren (fun q hq => h _ (List.mem_map.mpr ⟨q, hq, rfl⟩)) hparts)
  | or children =>
    obtain ⟨parts, hparts, rfl⟩ := writes_or.mp hsql
    rw [Statement.replaced_orSql]
    exact Statement.wellFormed_orSql
      (hchildren (fun q hq => h _ (List.mem_map.mpr ⟨q, hq, rfl⟩)) hparts)
  | not child =>
    obtain ⟨q, body, rfl, hbody, rfl⟩ := writes_not.mp hsql
    rw [Sql.replaced_append, Sql.replaced_code, Sql.replaced_inParens]
    exact (h _ (List.mem_singleton.mpr rfl) true body hbody).inParens.word_append (by decide)
  | raw text =>
    rw [writes_raw.mp hsql]
    exact masked_verbatim (eq_true_of_ne_false fun hf => (hfree hf).1)

/-! ### Clauses of a SELECT -/

theorem Source.masked {s : Source} (hname : fragments = false → s.Bracketless)
    (h : ∀ n ∈ s.parts, n.Masked fragments) {sql : Sql} (hs : s.Writes sql) :
    WellFormed (sql.replaced (mask fragments)) := by
  cases s with
  | table name => exact NameWrites.masked hs fun hf _ => hname hf
  | subquery s => exact Subquery.masked h hs

theorem FromWrites.trailing {source : Option FromClause} {sql : Sql}
    (hname : fragments = false →
      ∀ f ∈ source, f.source.Bracketless ∧ ∀ s ∈ f.label, Bracketless s)
    (h : ∀ n ∈ source.toList.flatMap (·.source.parts), n.Masked fragments)
    (hs : FromWrites source sql) : Trailing (sql.replaced (mask fragments)) := by
  cases source with
  | none =>
    obtain rfl : sql = [] := hs
    exact trailing_nil
  | some f =>
    obtain ⟨source, label, hsource, hlabel, rfl⟩ := hs
    have hsql : WellFormed (source.replaced (mask fragments)) :=
      Source.masked (fun hf => (hname hf f rfl).1) (fun n hn => h n (by simpa using hn)) hsource
    simp only [Sql.replaced_append, Sql.replaced_code]
    rw [List.append_assoc]
    exact (hsql.append (hlabel.trailing fun hf => (hname hf f rfl).2)).trailing (by decide)

theorem JoinClause.trailing {j : JoinClause} {sql : Sql}
    (hname : fragments = false → j.source.Bracketless ∧ ∀ s ∈ j.label, Bracketless s)
    (h : ∀ n ∈ j.parts, n.Masked fragments) (hj : j.Writes sql) :
    Trailing (sql.replaced (mask fragments)) := by
  obtain ⟨source, label, condition, hsource, hlabel, hcondition, rfl⟩ := hj
  have hword : IsWord (" " ++ j.kind.keyword ++ " JOIN ") := by
    cases j.kind <;> decide
  have hsql : WellFormed (source.replaced (mask fragments)) :=
    Source.masked (fun hf => (hname hf).1) (fun n hn => h n (List.mem_append_left _ hn)) hsource
  have hcond : WellFormed (condition.replaced (mask fragments)) :=
    h (.predicate j.condition) (List.mem_append_right _ (List.mem_singleton.mpr rfl)) true _
      hcondition
  simp only [Sql.replaced_append, Sql.replaced_code]
  rw [List.append_assoc]
  exact ((hsql.trailing hword).append (hlabel.trailing fun hf => (hname hf).2)).append
    (hcond.trailing (by decide))

theorem ClauseWrites.trailing {keyword : String} {clause : Option Predicate} {sql : Sql}
    (hk : IsWord keyword) (h : ∀ n ∈ clauseParts clause, n.Masked fragments)
    (hs : ClauseWrites keyword clause sql) : Trailing (sql.replaced (mask fragments)) := by
  cases clause with
  | none =>
    obtain rfl : sql = [] := hs
    exact trailing_nil
  | some p =>
    obtain ⟨body, hbody, rfl⟩ := hs
    have hpart : Node.predicate p ∈ clauseParts (some p) := List.mem_singleton.mpr rfl
    rw [Sql.replaced_append, Sql.replaced_code]
    exact (h _ hpart true body hbody).trailing hk

theorem UnionMember.trailing {u : UnionMember} (h : ∀ n ∈ u.query.parts, n.Masked fragments)
    {sql : Sql} (hu : u.Writes sql) : Trailing (sql.replaced (mask fragments)) := by
  obtain ⟨q, body, hq, hbody, rfl⟩ := hu
  have hword : IsWord (" " ++ u.operator.keyword ++ " ") := by
    cases u.operator <;> decide
  have hpart : Node.select q ∈ u.query.parts := by simp [Subquery.parts, hq]
  rw [Sql.replaced_append, Sql.replaced_code]
  exact (h _ hpart true body hbody).trailing hword

theorem WithClause.masked {w : WithClause} (hname : fragments = false → Bracketless w.name)
    (h : ∀ n ∈ w.query.parts, n.Masked fragments) {sql : Sql} (hw : w.Writes sql) :
    WellFormed (sql.replaced (mask fragments)) := by
  obtain ⟨name, query, hn, hq, rfl⟩ := hw
  simp only [Sql.replaced_append, Sql.replaced_code]
  exact (hn.masked fun hf _ => hname hf).append_word_append (by decide) (Subquery.masked h hq)

theorem Expr.masked_writesColumn {e : Expr}
    (hname : fragments = false → ∀ s ∈ e.label, Bracketless s)
    (h : (Node.expr e).Masked fragments) {sql : Sql} (he : e.WritesColumn sql) :
    WellFormed (sql.replaced (mask fragments)) := by
  obtain ⟨body, label, hbody, hlabel, rfl⟩ := he
  rw [Sql.replaced_append]
  exact (h true body hbody).append (hlabel.trailing hname)

theorem masked_withPart {withs : List Sql}
    (h : ∀ part ∈ withs, WellFormed (part.replaced (mask fragments))) :
    WellFormed ((withPart withs).replaced (mask fragments)) := by
  unfold withPart
  split
  · exact wellFormed_nil
  · simp only [Sql.replaced_append, Sql.replaced_code, Sql.replaced_joined]
    exact ((wellFormed_joined (by decide) (List.forall_mem_map.mpr h)).word_append
      (by decide)).append_word (by decide)

theorem masked_columnPart {columns : List Sql}
    (h : ∀ part ∈ columns, WellFormed (part.replaced (mask fragments))) :
    WellFormed ((columnPart columns).replaced (mask fragments)) := by
  unfold columnPart
  split
  -- without columns, the word is `*`
  · exact wellFormed_word (by decide)
  · rw [Sql.replaced_joined]
    exact wellFormed_joined (by decide) (List.forall_mem_map.mpr h)

theorem OrderItem.masked {item : OrderItem}
    (hname : fragments = false → Bracketless item.column.joined) {sql : Sql}
    (h : item.Writes sql) : WellFormed (sql.replaced (mask fragments)) := by
  obtain ⟨name, hn, rfl⟩ := h
  have hword : IsWord (" " ++ item.direction.keyword) := by
    cases item.direction <;> decide
  rw [Sql.replaced_append, Sql.replaced_code]
  exact (hn.masked fun hf _ => hname hf).append_word hword

theorem Select.trailing_tailPart {q : Select} (h : q.Sound) : Trailing q.tailPart := by
  have hfinal : Trailing (if q.final then code " FINAL" else []) := by
    split
    · exact wellFormed_nil.trailing (by decide)
    · exact trailing_nil
  exact ((Statement.trailing_limitSql _ _).append hfinal).append
    (Statement.trailing_settingsSql h.settings)

theorem Select.masked_step {q : Select} (ht : (Node.select q).TameBut fragments)
    (h : ∀ n ∈ q.parts, n.Masked fragments) : (Node.select q).Masked fragments := by
  obtain ⟨hsound, hfree⟩ := ht
  have hname : fragments = false → q.Bracketless := fun hf => (hfree hf).2
  intro top sql hsql
  obtain ⟨c, hc, rfl⟩ := Select.writes_iff.mp hsql
  simp only [Select.parts, List.forall_mem_append] at h
  obtain ⟨⟨⟨⟨⟨⟨⟨hwiths, hcolumns⟩, hsource⟩, hjoins⟩, hprewhere⟩, hfilter⟩, hhaving⟩, hunions⟩ := h
  have withs : WellFormed ((withPart c.withs).replaced (mask fragments)) :=
    masked_withPart <| forall_of_forall₂ hc.withs fun w hw _ =>
      WithClause.masked (fun hf => (hname hf).withs w hw) fun n hn =>
        hwiths n (List.mem_flatMap.mpr ⟨w, hw, hn⟩)
  have columns : WellFormed ((columnPart c.columns).replaced (mask fragments)) :=
    masked_columnPart <| forall_of_forall₂ hc.columns fun e he _ =>
      Expr.masked_writesColumn (fun hf => (hname hf).labels e he)
        (hcolumns _ (List.mem_map.mpr ⟨e, he, rfl⟩))
  have source : Trailing (c.source.replaced (mask fragments)) :=
    hc.source.trailing (fun hf => (hname hf).source) hsource
  have joins : Trailing (Sql.replaced (mask fragments) c.joins.flatten) := by
    rw [Sql.replaced_flatten]
    exact trailing_flatten <| List.forall_mem_map.mpr <|
      forall_of_forall₂ hc.joins fun j hj _ =>
        JoinClause.trailing (fun hf => (hname hf).joins j hj) fun n hn =>
          hjoins n (List.mem_flatMap.mpr ⟨j, hj, hn⟩)
  have prewhere : Trailing (c.prewhere.replaced (mask fragments)) :=
    hc.prewhere.trailing (by decide) hprewhere
  have filter : Trailing (c.filter.replaced (mask fragments)) := hc.filter.trailing (by decide) hfilter
  have groupBy : Trailing ((Statement.clause " GROUP BY " ", " c.groupBy).replaced (mask fragments)) := by
    rw [Statement.replaced_clause]
    exact Statement.trailing_clause (by decide) (by decide) <| List.forall_mem_map.mpr <|
      forall_of_forall₂ hc.groupBy fun col hcol _ hwrites =>
        NameWrites.masked hwrites fun hf _ => (hname hf).groupBy col hcol
  have having : Trailing (c.having.replaced (mask fragments)) := hc.having.trailing (by decide) hhaving
  have orderBy : Trailing ((Statement.clause " ORDER BY " ", " c.orderBy).replaced (mask fragments)) := by
    rw [Statement.replaced_clause]
    exact Statement.trailing_clause (by decide) (by decide) <| List.forall_mem_map.mpr <|
      forall_of_forall₂ hc.orderBy fun item hitem _ =>
        OrderItem.masked fun hf => (hname hf).orderBy item hitem
  have tail : Trailing (q.tailPart.replaced (mask fragments)) := by
    rw [Sql.replaced_of_lexable _ (Select.trailing_tailPart hsound).wellFormed.lexable]
    exact Select.trailing_tailPart hsound
  have unions : Trailing (Sql.replaced (mask fragments) c.unions.flatten) := by
    rw [Sql.replaced_flatten]
    exact trailing_flatten <| List.forall_mem_map.mpr <|
      forall_of_forall₂ hc.unions fun u hu _ =>
        UnionMember.trailing fun n hn => hunions n (List.mem_flatMap.mpr ⟨u, hu, hn⟩)
  simp only [assemble, Sql.replaced_append, Sql.replaced_code]
  exact (((((((((withs.append_word_append (by decide) columns).append source).append joins).append
    prewhere).append filter).append groupBy).append having).append orderBy).append tail).append
      unions

/-- **With a text for each fragment, all SQL below a sound node is well-formed.** -/
theorem Node.masked {n : Node} (h : n.Every (Node.TameBut fragments)) : n.Masked fragments := by
  induction n using Node.induction with
  | step n ih =>
    have hparts : ∀ m ∈ n.parts, m.Masked fragments := fun m hm => ih m hm (h.below hm)
    cases n with
    | expr e => exact Expr.masked_step h.here hparts
    | operand e => exact Expr.maskedOperand_step hparts
    | predicate p => exact Predicate.masked_step h.here hparts
    | select q => exact Select.masked_step h.here hparts

end Masked

/-- **All SQL below a tame node is well-formed.** -/
theorem Node.wellFormed {n : Node} (h : n.Every Node.Tame) : n.WellFormed := by
  intro top sql hsql
  have hmasked : Sql.WellFormed (sql.replaced (mask false)) :=
    Node.masked (fun m hm => ⟨(h m hm).1, fun _ => (h m hm).2⟩) top sql hsql
  rwa [Sql.replaced_mask_false] at hmasked

/-! ## Whole queries -/

namespace Query

/-- No opening bracket in the names of the statement around the nodes. -/
def RootBracketless : Query → Prop
  | .select _ => True
  | .insert q => SqlLoom.Bracketless q.table ∧ ∀ c ∈ q.columns, SqlLoom.Bracketless c
  | .update q => SqlLoom.Bracketless q.table ∧ ∀ entry ∈ q.assignments, SqlLoom.Bracketless entry.1
  | .delete q => SqlLoom.Bracketless q.table

/-- No raw SQL anywhere. -/
def RawFree (q : Query) : Prop :=
  q.Every Node.RawFree

/-- No opening bracket in any name that stands outside conditions. -/
def Bracketless (q : Query) : Prop :=
  q.RootBracketless ∧ q.Every Node.Bracketless

/-- **The SQL of a query without raw SQL and without brackets in names is well-formed.** -/
theorem wellFormed {q : Query} (hraw : q.RawFree) (hname : q.Bracketless) {sql : Sql}
    (h : q.compile = .ok sql) : WellFormed sql := by
  obtain ⟨hclean, hwrites⟩ := compile_iff.mp h
  obtain ⟨hroot, hsound⟩ := clean_iff_every.mp hclean
  have hparts : ∀ n ∈ q.parts, n.WellFormed := fun n hn =>
    Node.wellFormed fun m hm =>
      ⟨hsound.part hn m hm, hraw.part hn m hm, Query.Every.part hname.2 hn m hm⟩
  have hclause : ∀ {clause : Option Predicate} {filter : Sql},
      (∀ n ∈ clauseParts clause, n.WellFormed) → ClauseWrites " WHERE " clause filter →
      Trailing filter := by
    intro clause filter h hwrites
    have hmasked : Trailing (filter.replaced (mask false)) := by
      refine hwrites.trailing (by decide) fun n hn top sql hsql => ?_
      rw [Sql.replaced_mask_false]
      exact h n hn top sql hsql
    rwa [Sql.replaced_mask_false] at hmasked
  cases q with
  | select q => exact hparts _ (List.mem_singleton.mpr rfl) true sql hwrites
  | insert q =>
    obtain ⟨table, columns, htable, hcolumns, rfl⟩ := hwrites
    obtain ⟨⟨htname, hcnames⟩, -⟩ := hname
    have hlist : Trailing (insertColumnPart columns) := by
      unfold insertColumnPart
      split
      · exact trailing_nil
      · refine ((wellFormed_joined (by decide) ?_).inParens).trailing (by decide)
        exact forall_of_forall₂ hcolumns fun c hc _ hwrites =>
          hwrites.wellFormed fun _ => hcnames c hc
    have hrows : Trailing (Statement.clause " " ", " (q.rows.map Value.tupleLiteral)) := by
      refine Statement.trailing_clause (by decide) (by decide) fun part hpart => ?_
      obtain ⟨row, -, rfl⟩ := List.mem_map.mp hpart
      exact Value.wellFormed_tupleLiteral row
    exact ((((htable.wellFormed fun _ => htname).word_append (by decide)).append hlist).append_word
      (by decide)).append hrows
  | update q =>
    obtain ⟨table, assignments, filter, htable, hassignments, hfilter, rfl⟩ := hwrites
    obtain ⟨⟨htname, hknames⟩, -⟩ := hname
    obtain ⟨-, -, -, -, hsettings⟩ := hroot
    have hlist : Trailing (Statement.clause " " ", " assignments) := by
      refine Statement.trailing_clause (by decide) (by decide) ?_
      refine forall_of_forall₂ hassignments fun entry hentry sql hwrites => ?_
      obtain ⟨name, hn, rfl⟩ := hwrites
      exact Statement.wellFormed_assignmentSql (hn.wellFormed fun _ => hknames entry hentry) _
    exact (((((htable.wellFormed fun _ => htname).word_append (by decide)).append_word
      (by decide)).append hlist).append (hclause hparts hfilter)).append
        (Statement.trailing_settingsSql hsettings)
  | delete q =>
    obtain ⟨table, filter, htable, hfilter, rfl⟩ := hwrites
    obtain ⟨-, -, hsettings⟩ := hroot
    exact ((((htable.wellFormed fun _ => hname.1).word_append (by decide)).append_word
      (by decide)).append (hclause hparts hfilter)).append
        (Statement.trailing_settingsSql hsettings)

end Query

end SqlLoom
