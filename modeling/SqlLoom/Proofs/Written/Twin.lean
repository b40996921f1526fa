/-
  What is written for twins.

  Whatever is written for a node, something alike is written for its twin (`Node.answers`), by
  induction over the tree, and so for whole queries: a twin of a query that compiles does so too
  (`Query.Twin.compiles`).
-/
import SqlLoom.Proofs.Alike
import SqlLoom.Proofs.Written.WellFormed

namespace SqlLoom

open Outcome
open Sql (code)

variable {R : String → String → Prop}

/-! ## Nodes

  Whatever is written for a node, its twin has an answer to.  The answer is put together like the
  SQL it answers to, from the answers of the parts. -/

/-- Something alike may be written too. -/
def Answered (R : String → String → Prop) (writes : Sql → Prop) (sql : Sql) : Prop :=
  ∃ sql', writes sql' ∧ Sql.Twin R sql sql'

/-- What may be written itself is answered, if it has no texts. -/
theorem answered_self {writes : Sql → Prop} {sql : Sql} (h : writes sql) (hsql : sql.Textless) :
    Answered R writes sql :=
  ⟨sql, h, hsql.twin⟩

theorem answered_nil {writes : Sql → Prop} {sql : Sql} (hnil : sql = []) (h : writes sql) :
    Answered R writes sql :=
  answered_self h (hnil ▸ Sql.textless_nil)

/-- Everything that is written for the node is answered by its twins. -/
def Node.Answers (R : String → String → Prop) (n : Node) : Prop :=
  ∀ n', Node.Twin R n n' → ∀ top sql, n.Writes top sql → Answered R (n'.Writes top) sql

theorem Node.Answers.expr {e f : Expr} (hn : (Node.expr e).Answers R) (h : Expr.Twin R e f)
    {sql : Sql} (hsql : e.Writes sql) : Answered R f.Writes sql :=
  hn _ (.expr h) true sql hsql

theorem Node.Answers.operand {e f : Expr} (hn : (Node.operand e).Answers R) (h : Expr.Twin R e f)
    {sql : Sql} (hsql : e.WritesOperand sql) : Answered R f.WritesOperand sql :=
  hn _ (.operand h) true sql hsql

theorem Node.Answers.predicate {p q : Predicate} (hn : (Node.predicate p).Answers R)
    (h : Predicate.Twin R p q) {top : Bool} {sql : Sql} (hsql : p.Writes top sql) :
    Answered R (q.Writes top) sql :=
  hn _ (.predicate h) top sql hsql

theorem Node.Answers.select {q q' : Select} (hn : (Node.select q).Answers R)
    (h : Select.Twin R q q') {sql : Sql} (hsql : q.Writes sql) : Answered R q'.Writes sql :=
  hn _ (.select h) true sql hsql

/-- The items of a list are answered one by one. -/
theorem answered_parts {α : Type} {T : α → α → Prop} {writes : α → Sql → Prop} {as as' : List α}
    {parts : List Sql} (h : List.Forall₂ T as as') (hparts : List.Forall₂ writes as parts)
    (item : ∀ a ∈ as, ∀ a' sql, T a a' → writes a sql → Answered R (writes a') sql) :
    ∃ parts', List.Forall₂ writes as' parts' ∧ List.Forall₂ (Sql.Twin R) parts parts' := by
  induction h generalizing parts with
  | nil =>
    cases hparts
    exact ⟨[], .nil, .nil⟩
  | cons hab _ ih =>
    cases hparts with
    | cons ha hrest =>
      obtain ⟨hitem, hitems⟩ := List.forall_mem_cons.mp item
      obtain ⟨sql', hsql', htwin⟩ := hitem _ _ hab ha
      obtain ⟨parts', hparts', htwins⟩ := ih hrest hitems
      exact ⟨sql' :: parts', .cons hsql' hparts', .cons htwin htwins⟩

theorem textless_verbatim (source : String) : Sql.Textless [.verbatim source] := by
  simp [Sql.Textless, Piece.isText]

/-! ### Names -/

theorem NameWrites.textless {context : Identifier.Context} {s : String} {sql : Sql}
    (h : NameWrites context s sql) : sql.Textless := by
  cases h.shape with
  | plain _ => exact Sql.textless_code s
  | quoted => simp [Sql.Textless, Piece.isText]
  | expression _ _ => simp [Sql.Textless, Piece.isText]
  | qualified table column => simp [Sql.Textless, Piece.isText]

theorem LabelWrites.textless {label : Option String} {sql : Sql} (h : LabelWrites label sql) :
    sql.Textless := by
  cases label with
  | none =>
    obtain rfl : sql = [] := h
    exact Sql.textless_nil
  | some s =>
    obtain ⟨name, hname, rfl⟩ := h
    exact (Sql.textless_code _).append hname.textless

theorem Statement.textless_leftSql {left : String} {sql : Sql} (h : leftSql left = .ok sql) :
    sql.Textless := by
  unfold leftSql at h
  split at h
  · obtain rfl := ok_eq_ok.mp h
    exact Sql.textless_nil
  · exact (nameSql_eq_ok.mp h).textless

theorem OrderItem.textless {item : OrderItem} {sql : Sql} (h : item.Writes sql) : sql.Textless := by
  obtain ⟨name, hname, rfl⟩ := h
  exact hname.textless.append (Sql.textless_code _)

theorem Statement.textless_countSql (keyword : String) (n : Option Int64) :
    (countSql keyword n).Textless := by
  unfold countSql
  split
  · split
    · exact Sql.textless_nil
    · exact Sql.textless_code _
  · exact Sql.textless_nil

theorem Statement.textless_limitSql (limit offset : Option Int64) :
    (limitSql limit offset).Textless := by
  rw [limitSql_eq]
  split
  · exact Sql.textless_nil
  · exact (textless_countSql _ limit).append (textless_countSql _ offset)

/-! ### Expressions -/

theorem Subquery.Twin.answered {s t : Subquery} (h : Subquery.Twin R s t)
    (hs : ∀ n ∈ s.parts, n.Answers R) {sql : Sql} (hsql : s.Writes sql) :
    Answered R t.Writes sql := by
  obtain ⟨q, body, hq, hbody, rfl⟩ := hsql
  obtain ⟨label, h⟩ := h
  cases h with
  | none => exact nomatch hq
  | @some _ q' h =>
    obtain rfl := Option.some.inj hq
    obtain ⟨body', hbody', htwin⟩ := (hs _ (List.mem_singleton.mpr rfl)).select h hbody
    exact ⟨_, ⟨q', body', rfl, hbody', rfl⟩, htwin.inParens⟩

theorem Branch.Twin.answered {b c : Branch} (h : Branch.Twin R b c)
    (hb : ∀ n ∈ b.parts, n.Answers R) {sql : Sql} (hsql : b.Writes sql) :
    Answered R c.Writes sql := by
  obtain ⟨p, e, condition, result, rfl, hcondition, hresult, rfl⟩ := hsql
  obtain ⟨hp, he⟩ := List.forall_mem_append.mp hb
  obtain ⟨hp', he'⟩ := h
  cases hp' with
  | @some _ p' hp' =>
    cases he' with
    | @some _ e' he' =>
      obtain ⟨condition', hcondition', hc⟩ :=
        (hp _ (List.mem_singleton.mpr rfl)).predicate hp' hcondition
      obtain ⟨result', hresult', hr⟩ := (he _ (List.mem_singleton.mpr rfl)).expr he' hresult
      exact ⟨_, ⟨p', e', condition', result', rfl, hcondition', hresult', rfl⟩,
        ((hc.behind _).before _).append hr⟩

theorem OtherwiseWrites.answered {o o' : Option Expr} (h : Option.Rel (Expr.Twin R) o o')
    (ho : ∀ n ∈ o.toList.map Node.expr, n.Answers R) {sql : Sql} (hsql : OtherwiseWrites o sql) :
    Answered R (OtherwiseWrites o') sql := by
  cases h with
  | none => exact answered_nil hsql hsql
  | some h =>
    obtain ⟨body, hbody, rfl⟩ := hsql
    obtain ⟨body', hbody', htwin⟩ := (ho _ (List.mem_singleton.mpr rfl)).expr h hbody
    exact ⟨_, ⟨body', hbody', rfl⟩, htwin.behind _⟩

theorem Expr.Twin.answered {e f : Expr} (h : Expr.Twin R e f) (he : ∀ n ∈ e.parts, n.Answers R)
    {sql : Sql} (hsql : e.Writes sql) : Answered R f.Writes sql := by
  cases h with
  | column c => exact answered_self hsql (Expr.writes_column.mp hsql).textless
  | value label h =>
    rw [Expr.writes_value.mp hsql]
    exact ⟨_, Expr.writes_value.mpr rfl, h.literal⟩
  | array label h =>
    rw [Expr.writes_array.mp hsql]
    exact ⟨_, Expr.writes_array.mpr rfl, (Value.Twin.array h).literal⟩
  | tuple label h =>
    rw [Expr.writes_tuple.mp hsql]
    exact ⟨_, Expr.writes_tuple.mpr rfl, Value.twin_tupleLiteral h⟩
  | subquery h =>
    obtain ⟨sql', hsql', htwin⟩ := h.answered he (Expr.writes_subquery.mp hsql)
    exact ⟨sql', Expr.writes_subquery.mpr hsql', htwin⟩
  | raw text label => exact answered_self hsql (Expr.writes_raw.mp hsql ▸ textless_verbatim text)
  | call function label h =>
    obtain ⟨parts, hparts, rfl⟩ := Expr.writes_call.mp hsql
    obtain ⟨parts', hparts', htwin⟩ := answered_parts h hparts fun a ha a' sql hab hw =>
      (he _ (List.mem_map.mpr ⟨a, ha, rfl⟩)).expr hab hw
    refine ⟨_, Expr.writes_call.mpr ⟨parts', hparts', rfl⟩, ?_⟩
    -- the form of a call depends on how many arguments it has
    rw [h.length_eq]
    exact Statement.twin_callSql _ function htwin
  | cases label hbranches hotherwise =>
    obtain ⟨parts, rest, hparts, hrest, rfl⟩ := Expr.writes_cases.mp hsql
    obtain ⟨hb, ho⟩ := List.forall_mem_append.mp he
    obtain ⟨parts', hparts', htwin⟩ := answered_parts hbranches hparts fun b hmem c sql hbc hw =>
      hbc.answered (fun n hn => hb n (List.mem_flatMap.mpr ⟨b, hmem, hn⟩)) hw
    obtain ⟨rest', hrest', htwin'⟩ := hrest.answered hotherwise ho
    refine ⟨_, Expr.writes_cases.mpr ⟨parts', rest', hparts', hrest', rfl⟩, ?_⟩
    have hparts : Sql.Twin R parts.flatten parts'.flatten := List.rel_flatten htwin
    exact ((hparts.behind _).append htwin').before _

theorem Expr.Twin.answeredOperand {e f : Expr} (h : Expr.Twin R e f)
    (he : ∀ n ∈ e.parts, n.Answers R) {sql : Sql} (hsql : e.WritesOperand sql) :
    Answered R f.WritesOperand sql := by
  cases h with
  | column c => exact answered_self hsql (Expr.writesOperand_column.mp hsql).textless
  | value label h =>
    rw [Expr.writesOperand_value.mp hsql]
    exact ⟨_, Expr.writesOperand_value.mpr rfl, h.literal⟩
  | array label h =>
    rw [Expr.writesOperand_array.mp hsql]
    exact ⟨_, Expr.writesOperand_array.mpr rfl, Statement.twin_listSql h⟩
  | tuple label h =>
    rw [Expr.writesOperand_tuple.mp hsql]
    exact ⟨_, Expr.writesOperand_tuple.mpr rfl, Statement.twin_listSql h⟩
  | subquery h =>
    obtain ⟨sql', hsql', htwin⟩ := h.answered he (Expr.writesOperand_subquery.mp hsql)
    exact ⟨sql', Expr.writesOperand_subquery.mpr hsql', htwin⟩
  | raw text label => exact absurd hsql Expr.not_writesOperand_raw
  | call function label h => exact absurd hsql Expr.not_writesOperand_call
  | cases label hbranches hotherwise => exact absurd hsql Expr.not_writesOperand_cases

/-! ### Conditions -/

theorem Expr.Twin.bounds {e f : Expr} (h : Expr.Twin R e f) {low high : Value}
    (hb : e.Bounds low high) :
    ∃ low' high', f.Bounds low' high' ∧ Value.Twin R low low' ∧ Value.Twin R high high' := by
  have hpair : ∀ {vs ws : List Value}, vs = [low, high] → Values.Twin R vs ws →
      ∃ low' high', ws = [low', high'] ∧ Value.Twin R low low' ∧ Value.Twin R high high' := by
    rintro _ ws rfl hws
    match ws, hws with
    | [low', high'], .cons hlow (.cons hhigh .nil) => exact ⟨low', high', rfl, hlow, hhigh⟩
  cases h with
  | array label h => exact hpair hb h
  | tuple label h => exact hpair hb h
  | column c => exact hb.elim
  | value label h => exact hb.elim
  | subquery h => exact hb.elim
  | raw text label => exact hb.elim
  | call function label h => exact hb.elim
  | cases label hbranches hotherwise => exact hb.elim

theorem TestWrites.answered {operator : String} {left : Sql} {right right' : Expr} {sql : Sql}
    (hsql : TestWrites operator left right sql) (hl : left.Textless) (h : Expr.Twin R right right')
    (hr : (Node.operand right).Answers R) :
    Answered R (TestWrites operator left right') sql := by
  unfold TestWrites at hsql
  cases hform : Statement.TestForm.ofOperator operator with
  | suffix =>
    rw [hform] at hsql
    obtain ⟨hoperand, rfl⟩ := hsql
    -- the right side is not written, but it has to be one that could be
    have hoperand' : right'.IsOperand := (Node.Twin.operand h).steps_iff.mp hoperand
    refine answered_self ?_ (hl.append (Sql.textless_code _))
    unfold TestWrites
    rw [hform]
    exact ⟨hoperand', rfl⟩
  | bounds =>
    rw [hform] at hsql
    obtain ⟨low, high, hb, rfl⟩ := hsql
    obtain ⟨low', high', hb', hlow, hhigh⟩ := h.bounds hb
    refine ⟨left ++ code " BETWEEN " ++ (low'.literal ++ code " AND " ++ high'.literal), ?_, ?_⟩
    · unfold TestWrites
      rw [hform]
      exact ⟨low', high', hb', rfl⟩
    · have hhead := hl.append (Sql.textless_code " BETWEEN ")
      exact hhead.twin.append ((hlow.literal.before " AND ").append hhigh.literal)
  | _ =>
    rw [hform] at hsql
    obtain ⟨operand, hoperand, htest⟩ := hsql
    obtain ⟨operand', hoperand', htwin⟩ := hr.operand h hoperand
    obtain ⟨sql', htest', htwin'⟩ := Statement.twin_testSql hl htwin htest
    refine ⟨sql', ?_, htwin'⟩
    unfold TestWrites
    rw [hform]
    exact ⟨operand', hoperand', htest'⟩

theorem Predicate.Twin.answered {p q : Predicate} (h : Predicate.Twin R p q)
    (hp : ∀ n ∈ p.parts, n.Answers R) {top : Bool} {sql : Sql} (hsql : p.Writes top sql) :
    Answered R (q.Writes top) sql := by
  have hchildren : ∀ {ps qs : List Predicate} {parts : List Sql},
      (∀ n ∈ ps.map Node.predicate, n.Answers R) → List.Forall₂ (Predicate.Twin R) ps qs →
      List.Forall₂ (Predicate.Writes false) ps parts →
      ∃ parts', List.Forall₂ (Predicate.Writes false) qs parts'
        ∧ List.Forall₂ (Sql.Twin R) parts parts' :=
    fun hn h hparts => answered_parts h hparts fun r hr r' sql htwin hw =>
      (hn _ (List.mem_map.mpr ⟨r, hr, rfl⟩)).predicate htwin hw
  cases h with
  | compare operator hleft hright =>
    obtain ⟨c, leftPart, rfl, hl, htest⟩ := Predicate.writes_compare.mp hsql
    -- the left side is a column, and so it is the same
    cases hleft
    obtain ⟨sql', htest', htwin⟩ := htest.answered (Statement.textless_leftSql hl) hright
      (hp _ (List.mem_singleton.mpr rfl))
    exact ⟨sql', Predicate.writes_compare.mpr ⟨c, leftPart, rfl, hl, htest'⟩, htwin⟩
  | and grouped h =>
    obtain ⟨parts, hparts, rfl⟩ := Predicate.writes_and.mp hsql
    obtain ⟨parts', hparts', htwin⟩ := hchildren hp h hparts
    exact ⟨_, Predicate.writes_and.mpr ⟨parts', hparts', rfl⟩,
      Statement.twin_andSql grouped top htwin⟩
  | or h =>
    obtain ⟨parts, hparts, rfl⟩ := Predicate.writes_or.mp hsql
    obtain ⟨parts', hparts', htwin⟩ := hchildren hp h hparts
    exact ⟨_, Predicate.writes_or.mpr ⟨parts', hparts', rfl⟩, Statement.twin_orSql htwin⟩
  | not h =>
    obtain ⟨r, body, rfl, hbody, rfl⟩ := Predicate.writes_not.mp hsql
    cases h with
    | @some _ r' h =>
      obtain ⟨body', hbody', htwin⟩ := (hp _ (List.mem_singleton.mpr rfl)).predicate h hbody
      exact ⟨_, Predicate.writes_not.mpr ⟨r', body', rfl, hbody', rfl⟩, htwin.inParens.behind _⟩
  | raw text => exact answered_self hsql (Predicate.writes_raw.mp hsql ▸ textless_verbatim text)

/-! ### SELECTs -/

theorem Source.Twin.answered {s t : Source} (h : Source.Twin R s t)
    (hs : ∀ n ∈ s.parts, n.Answers R) {sql : Sql} (hsql : s.Writes sql) :
    Answered R t.Writes sql := by
  cases h with
  | table name => exact answered_self hsql (NameWrites.textless hsql)
  | subquery h => exact Subquery.Twin.answered h hs hsql

theorem FromWrites.answered {source source' : Option FromClause}
    (h : Option.Rel (FromClause.Twin R) source source')
    (hs : ∀ n ∈ source.toList.flatMap (·.source.parts), n.Answers R) {sql : Sql}
    (hsql : FromWrites source sql) : Answered R (FromWrites source') sql := by
  cases h with
  | none => exact answered_nil hsql hsql
  | some h =>
    obtain ⟨label, h⟩ := h
    obtain ⟨part, labelPart, hpart, hlabel, rfl⟩ := hsql
    obtain ⟨part', hpart', htwin⟩ := h.answered (fun n hn => hs n (by simpa using hn)) hpart
    exact ⟨_, ⟨part', labelPart, hpart', hlabel, rfl⟩, (htwin.behind _).append hlabel.textless.twin⟩

theorem JoinClause.Twin.answered {j k : JoinClause} (h : JoinClause.Twin R j k)
    (hj : ∀ n ∈ j.parts, n.Answers R) {sql : Sql} (hsql : j.Writes sql) :
    Answered R k.Writes sql := by
  obtain ⟨kind, label, hsource, hcondition⟩ := h
  obtain ⟨part, labelPart, condition, hpart, hlabel, hc, rfl⟩ := hsql
  obtain ⟨hs, hp⟩ := List.forall_mem_append.mp hj
  obtain ⟨part', hpart', htwin⟩ := hsource.answered hs hpart
  obtain ⟨condition', hc', htwin'⟩ := (hp _ (List.mem_singleton.mpr rfl)).predicate hcondition hc
  exact ⟨_, ⟨part', labelPart, condition', hpart', hlabel, hc', rfl⟩,
    (((htwin.behind _).append hlabel.textless.twin).before _).append htwin'⟩

theorem WithClause.Twin.answered {w v : WithClause} (h : WithClause.Twin R w v)
    (hw : ∀ n ∈ w.query.parts, n.Answers R) {sql : Sql} (hsql : w.Writes sql) :
    Answered R v.Writes sql := by
  obtain ⟨name, h⟩ := h
  obtain ⟨namePart, query, hname, hquery, rfl⟩ := hsql
  obtain ⟨query', hquery', htwin⟩ := h.answered hw hquery
  have hhead := hname.textless.append (Sql.textless_code " AS ")
  exact ⟨_, ⟨namePart, query', hname, hquery', rfl⟩, hhead.twin.append htwin⟩

theorem UnionMember.Twin.answered {u v : UnionMember} (h : UnionMember.Twin R u v)
    (hu : ∀ n ∈ u.query.parts, n.Answers R) {sql : Sql} (hsql : u.Writes sql) :
    Answered R v.Writes sql := by
  obtain ⟨operator, ⟨label, h⟩⟩ := h
  obtain ⟨q, body, hq, hbody, rfl⟩ := hsql
  cases h with
  | none => exact nomatch hq
  | @some _ q' h =>
    obtain rfl := Option.some.inj hq
    obtain ⟨body', hbody', htwin⟩ := (hu _ (List.mem_singleton.mpr rfl)).select h hbody
    exact ⟨_, ⟨q', body', rfl, hbody', rfl⟩, htwin.behind _⟩

/-- Twins have the same alias. -/
theorem Expr.Twin.label_eq {e f : Expr} (h : Expr.Twin R e f) : e.label = f.label := by
  cases h with
  | subquery h => obtain ⟨label, -⟩ := h; rfl
  | _ => rfl

theorem Expr.Twin.answeredColumn {e f : Expr} (h : Expr.Twin R e f)
    (he : (Node.expr e).Answers R) {sql : Sql} (hsql : e.WritesColumn sql) :
    Answered R f.WritesColumn sql := by
  obtain ⟨body, label, hbody, hlabel, rfl⟩ := hsql
  obtain ⟨body', hbody', htwin⟩ := he.expr h hbody
  rw [h.label_eq] at hlabel
  exact ⟨_, ⟨body', label, hbody', hlabel, rfl⟩, htwin.append hlabel.textless.twin⟩

theorem ClauseWrites.answered {keyword : String} {clause clause' : Option Predicate}
    (h : Option.Rel (Predicate.Twin R) clause clause')
    (hc : ∀ n ∈ clauseParts clause, n.Answers R) {sql : Sql}
    (hsql : ClauseWrites keyword clause sql) : Answered R (ClauseWrites keyword clause') sql := by
  cases h with
  | none => exact answered_nil hsql hsql
  | some h =>
    obtain ⟨body, hbody, rfl⟩ := hsql
    obtain ⟨body', hbody', htwin⟩ := (hc _ (List.mem_singleton.mpr rfl)).predicate h hbody
    exact ⟨_, ⟨body', hbody', rfl⟩, htwin.behind _⟩

theorem twin_withPart {withs withs' : List Sql} (h : List.Forall₂ (Sql.Twin R) withs withs') :
    Sql.Twin R (withPart withs) (withPart withs') := by
  cases h with
  | nil => exact .nil
  | cons h hs => exact ((Sql.Twin.joined ", " (.cons h hs)).behind _).before _

theorem twin_columnPart {columns columns' : List Sql}
    (h : List.Forall₂ (Sql.Twin R) columns columns') :
    Sql.Twin R (columnPart columns) (columnPart columns') := by
  cases h with
  | nil => exact (Sql.textless_code "*").twin
  | cons h hs => exact Sql.Twin.joined ", " (.cons h hs)

theorem Select.Twin.answered {q q' : Select} (h : Select.Twin R q q')
    (hq : ∀ n ∈ q.parts, n.Answers R) {sql : Sql} (hsql : q.Writes sql) :
    Answered R q'.Writes sql := by
  obtain ⟨c, hc, rfl⟩ := Select.writes_iff.mp hsql
  obtain ⟨groupBy, orderBy, limit, offset, final, format, recorded, hcolumns, hsource, hjoins,
    hwiths, hprewhere, hfilter, hhaving, hsettings, hunions⟩ := h
  simp only [Select.parts, List.forall_mem_append] at hq
  obtain ⟨⟨⟨⟨⟨⟨⟨awiths, acolumns⟩, asource⟩, ajoins⟩, aprewhere⟩, afilter⟩, ahaving⟩, aunions⟩ := hq
  obtain ⟨withs', hwiths', twiths⟩ := answered_parts hwiths hc.withs fun w hw _ _ h hsql =>
    h.answered (fun n hn => awiths n (List.mem_flatMap.mpr ⟨w, hw, hn⟩)) hsql
  obtain ⟨columns', hcolumns', tcolumns⟩ := answered_parts hcolumns hc.columns
    fun e he _ _ h hsql => h.answeredColumn (acolumns _ (List.mem_map.mpr ⟨e, he, rfl⟩)) hsql
  obtain ⟨source', hsource', tsource⟩ := hc.source.answered hsource asource
  obtain ⟨joins', hjoins', tjoins⟩ := answered_parts hjoins hc.joins fun j hj _ _ h hsql =>
    h.answered (fun n hn => ajoins n (List.mem_flatMap.mpr ⟨j, hj, hn⟩)) hsql
  obtain ⟨prewhere', hprewhere', tprewhere⟩ := hc.prewhere.answered hprewhere aprewhere
  obtain ⟨filter', hfilter', tfilter⟩ := hc.filter.answered hfilter afilter
  obtain ⟨having', hhaving', thaving⟩ := hc.having.answered hhaving ahaving
  obtain ⟨unions', hunions', tunions⟩ := answered_parts hunions hc.unions fun u hu _ _ h hsql =>
    h.answered (fun n hn => aunions n (List.mem_flatMap.mpr ⟨u, hu, hn⟩)) hsql
  have tjoined : Sql.Twin R c.joins.flatten joins'.flatten := List.rel_flatten tjoins
  have tunited : Sql.Twin R c.unions.flatten unions'.flatten := List.rel_flatten tunions
  refine ⟨_, Select.writes_iff.mpr ⟨
    { withs := withs'
      columns := columns'
      source := source'
      joins := joins'
      prewhere := prewhere'
      filter := filter'
      groupBy := c.groupBy
      having := having'
      orderBy := c.orderBy
      unions := unions' },
    { withs := hwiths'
      columns := hcolumns'
      source := hsource'
      joins := hjoins'
      prewhere := hprewhere'
      filter := hfilter'
      groupBy := hc.groupBy
      having := hhaving'
      orderBy := hc.orderBy
      unions := hunions' }, rfl⟩, ?_⟩
  have hgroupBy : (Statement.clause " GROUP BY " ", " c.groupBy).Textless :=
    Statement.textless_clause _ _ <| forall_of_forall₂ hc.groupBy fun _ _ _ h => h.textless
  have horderBy : (Statement.clause " ORDER BY " ", " c.orderBy).Textless :=
    Statement.textless_clause _ _ <| forall_of_forall₂ hc.orderBy fun _ _ _ => OrderItem.textless
  have hfinal : Sql.Textless (if final then code " FINAL" else []) := by
    split
    · exact Sql.textless_code _
    · exact Sql.textless_nil
  have ttail := ((Statement.textless_limitSql limit offset).append hfinal).twin.append
    (Statement.twin_settingsSql hsettings)
  exact (((((((((((twin_withPart twiths).before _).append (twin_columnPart tcolumns)).append
    tsource).append tjoined).append tprewhere).append tfilter).append hgroupBy.twin).append
      thaving).append horderBy.twin).append ttail).append tunited

/-- **Whatever is written for a node, something alike is written for its twin.** -/
theorem Node.answers (n : Node) : n.Answers R := by
  induction n using Node.induction with
  | step n ih =>
    intro n' h top sql hsql
    cases h with
    | expr h => exact h.answered ih hsql
    | operand h => exact h.answeredOperand ih hsql
    | predicate h => exact h.answered ih hsql
    | select h => exact h.answered ih hsql

/-! ## Whole queries -/

/-- Rows of twins are alike. -/
theorem twin_rows {rows rows' : List Row} (h : List.Forall₂ (Values.Twin R) rows rows') :
    List.Forall₂ (Sql.Twin R) (rows.map Value.tupleLiteral) (rows'.map Value.tupleLiteral) := by
  rw [List.forall₂_map_left_iff, List.forall₂_map_right_iff]
  exact h.imp fun _ _ => Value.twin_tupleLiteral

/-- An assignment keeps its key. -/
theorem answered_assignment {entry entry' : String × Value}
    (h : entry.1 = entry'.1 ∧ Value.Twin R entry.2 entry'.2) {sql : Sql}
    (hsql : AssignmentWrites entry sql) : Answered R (AssignmentWrites entry') sql := by
  obtain ⟨name, hname, rfl⟩ := hsql
  rw [h.1] at hname
  exact ⟨_, ⟨name, hname, rfl⟩, Statement.twin_assignmentSql hname.textless h.2⟩

theorem Query.Twin.answered {q q' : Query} (h : Query.Twin R q q') {sql : Sql}
    (hsql : q.Writes sql) : Answered R q'.Writes sql := by
  cases h with
  | select h => exact (Node.answers (.select _)).select h hsql
  | insert table columns format h =>
    obtain ⟨tablePart, columnParts, htable, hcolumns, rfl⟩ := hsql
    refine ⟨_, ⟨tablePart, columnParts, htable, hcolumns, rfl⟩, ?_⟩
    have hlist : (insertColumnPart columnParts).Textless := by
      have hnames := Sql.textless_joined ", " <| forall_of_forall₂ hcolumns fun _ _ _ h => h.textless
      unfold insertColumnPart
      split
      · exact Sql.textless_nil
      · exact (Sql.textless_code " ").append hnames.inParens
    have hhead := ((((Sql.textless_code "INSERT INTO ").append htable.textless).append hlist).append
      (Sql.textless_code " VALUES")).twin (R := R)
    exact hhead.append (Statement.twin_clause " " ", " (twin_rows h))
  | update table recorded hassignments hfilter hsettings =>
    obtain ⟨tablePart, parts, filterPart, htable, hparts, hfilterPart, rfl⟩ := hsql
    obtain ⟨parts', hparts', tparts⟩ := answered_parts hassignments hparts
      fun _ _ _ _ h hsql => answered_assignment h hsql
    obtain ⟨filterPart', hfilterPart', tfilter⟩ :=
      hfilterPart.answered hfilter fun n _ => n.answers
    refine ⟨_, ⟨tablePart, parts', filterPart', htable, hparts', hfilterPart', rfl⟩, ?_⟩
    have hhead := (((Sql.textless_code "ALTER TABLE ").append htable.textless).append
      (Sql.textless_code " UPDATE")).twin (R := R)
    exact ((hhead.append (Statement.twin_clause " " ", " tparts)).append tfilter).append
      (Statement.twin_settingsSql hsettings)
  | delete table recorded hfilter hsettings =>
    obtain ⟨tablePart, filterPart, htable, hfilterPart, rfl⟩ := hsql
    obtain ⟨filterPart', hfilterPart', tfilter⟩ :=
      hfilterPart.answered hfilter fun n _ => n.answers
    refine ⟨_, ⟨tablePart, filterPart', htable, hfilterPart', rfl⟩, ?_⟩
    have hhead := (((Sql.textless_code "ALTER TABLE ").append htable.textless).append
      (Sql.textless_code " DELETE")).twin (R := R)
    exact (hhead.append tfilter).append (Statement.twin_settingsSql hsettings)

/-- A twin of a query that compiles does so too, to something alike. -/
theorem Query.Twin.compiles {q q' : Query} (h : Query.Twin R q q') {sql : Sql}
    (hsql : q.compile = .ok sql) : ∃ sql', q'.compile = .ok sql' ∧ Sql.Twin R sql sql' := by
  obtain ⟨hclean, hwrites⟩ := Query.compile_iff.mp hsql
  obtain ⟨sql', hsql', htwin⟩ := h.answered hwrites
  exact ⟨sql', Query.compile_iff.mpr ⟨h.clean hclean, hsql'⟩, htwin⟩

end SqlLoom
