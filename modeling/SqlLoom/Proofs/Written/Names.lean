/-
  Names in statements that change data.

  INSERT, UPDATE and DELETE name a table and the columns that they write.  Such a name may hold any
  characters.

  1. ONE NAME (`NameWrites.written`).  `*`, a number and a text with an opening bracket stay as they
     are.  Any other name is written between backticks, or as two names with a dot between them,
     and un-escaping what stands between the backticks yields the name.
  2. THE STATEMENT (`Query.woven_of_writes`).  Its SQL is woven: a lead, then each name as it is
     written, with a gap behind it.  The gaps depend on how many names there are, on values,
     condition and settings, but not on the names.

  Together: a name reaches the SQL in its own place only, and there only in quotes.
-/
import SqlLoom.Proofs.Token
import SqlLoom.Proofs.Written.Query

namespace SqlLoom

open Outcome
open Sql (code)

/-! ## One name -/

/-- A name between backticks.  Un-escaping what stands between them yields `s`, and ends at the
    second one, whatever follows. -/
def Backticked (s : String) (cs : List Char) : Prop :=
  ∃ body, cs = '\x60' :: (body ++ ['\x60'])
    ∧ ∀ rest, Lexer.run (.name []) (body ++ '\x60' :: rest)
        = (Lexer.run .plain rest).map (Token.name s :: ·)

/-- One name between backticks, or a table and a column with a dot between them. -/
def QuotedName (s : String) (cs : List Char) : Prop :=
  Backticked s cs
    ∨ ∃ table column tableChars columnChars, s = table ++ "." ++ column
        ∧ Identifier.isSimple table = true ∧ Identifier.isSimple column = true
        ∧ Backticked table tableChars ∧ Backticked column columnChars
        ∧ cs = tableChars ++ '.' :: columnChars

/-- A text that is written as it is where a name is expected. -/
def StaysBare (s : String) : Prop :=
  s = "*" ∨ Identifier.isNumber s.toList = true ∨ '(' ∈ s.toList

/-- A name as it is written. -/
def WrittenName (s : String) (cs : List Char) : Prop :=
  (StaysBare s → cs = s.toList) ∧ (¬ StaysBare s → QuotedName s cs)

theorem backticked_name (s : String) : Backticked s (Piece.name s).chars := by
  refine ⟨escapeName s.toList, rfl, fun rest => ?_⟩
  rw [Lexer.run_escapeName, List.nil_append, String.ofList_toList]

/-- A table and a column that are both simple are quoted one by one. -/
theorem quotedName_qualified {s : String} {table column : List Char}
    (hs : table ++ '.' :: column = s.toList) (htable : Identifier.isSimpleChars table = true)
    (hcolumn : Identifier.isSimpleChars column = true) :
    QuotedName s (Sql.chars [.name (String.ofList table), .code ".",
      .name (String.ofList column)]) := by
  refine .inr ⟨String.ofList table, String.ofList column, _, _, ?_, ?_, ?_, backticked_name _,
    backticked_name _, ?_⟩
  · apply String.toList_injective
    simp [← hs]
  · rwa [Identifier.isSimple, String.toList_ofList]
  · rwa [Identifier.isSimple, String.toList_ofList]
  · simp [Piece.chars]

/-- **A name stays bare, or it is quoted.** -/
theorem NameWrites.written {s : String} {sql : Sql} (h : NameWrites .selection s sql) :
    WrittenName s sql.chars := by
  have hverdict := Identifier.verdict_quote .selection s
  rw [h] at hverdict
  -- where expressions stay bare, `StaysBare` is what is not quoted
  have hquoted (hbare : ¬ Identifier.Bare .selection s) : ¬ StaysBare s := fun hs =>
    hbare (hs.imp_right fun hs => hs.imp Identifier.isNumber_iff.mp fun hbracket => ⟨rfl, hbracket⟩)
  cases hverdict with
  | plain hplain =>
    have hbare : StaysBare s := hplain.imp_right fun h => .inl (Identifier.isNumber_iff.mpr h)
    exact ⟨fun _ => List.append_nil _, fun hn => absurd hbare hn⟩
  | expression _ hbracket =>
    exact ⟨fun _ => List.append_nil _, fun hn => absurd (.inr (.inr hbracket)) hn⟩
  | whole hbare =>
    refine ⟨fun hs => absurd hs (hquoted hbare), fun _ => ?_⟩
    rw [Sql.chars_cons, Sql.chars_nil, List.append_nil]
    exact .inl (backticked_name s)
  | parted hbare _ hs htable hcolumn =>
    refine ⟨fun hs => absurd hs (hquoted hbare), fun _ => ?_⟩
    exact quotedName_qualified hs.symm (Identifier.isSimpleChars_iff.mpr htable)
      (Identifier.isSimpleChars_iff.mpr hcolumn)

/-! ## Weaving -/

section Weaving

variable {α : Type}

/-- A lead, and then each of the parts with its gap behind it. -/
def woven (lead : List α) (parts gaps : List (List α)) : List α :=
  lead ++ (List.zipWith (· ++ ·) parts gaps).flatten

/-- The gaps behind the names of a list.  `owns` is what stands behind each name in its own item. -/
def gapsBehind (separator after : List α) : List (List α) → List (List α)
  | [] => []
  | [own] => [own ++ after]
  | own :: next :: rest => (own ++ separator) :: gapsBehind separator after (next :: rest)

/-- The gaps behind a table and the names of the list that follows it.  Without items there is no
    list. -/
def gapsOfTable (before opening separator closing after : List α) (owns : List (List α)) :
    List (List α) :=
  if owns.isEmpty then [before ++ after]
  else (before ++ opening) :: gapsBehind separator (closing ++ after) owns

theorem length_gapsBehind (separator after : List α) (owns : List (List α)) :
    (gapsBehind separator after owns).length = owns.length := by
  induction owns with
  | nil => rfl
  | cons own owns ih =>
    cases owns with
    | nil => rfl
    | cons next rest =>
      rw [gapsBehind, List.length_cons, ih]
      rfl

theorem length_gapsOfTable (before opening separator closing after : List α)
    (owns : List (List α)) :
    (gapsOfTable before opening separator closing after owns).length = owns.length + 1 := by
  unfold gapsOfTable
  cases owns with
  | nil => rfl
  | cons own owns => simp [length_gapsBehind]

/-- The items of a list, each of them a name with what is its own, are woven. -/
theorem intercalate_append (separator after : List α) {names owns : List (List α)}
    (hlength : names.length = owns.length) (hne : names ≠ []) :
    List.intercalate separator (List.zipWith (· ++ ·) names owns) ++ after
      = (List.zipWith (· ++ ·) names (gapsBehind separator after owns)).flatten := by
  induction names generalizing owns with
  | nil => exact absurd rfl hne
  | cons name names ih =>
    cases owns with
    | nil => exact absurd hlength (Nat.succ_ne_zero _)
    | cons own owns =>
      have hrest : names.length = owns.length := Nat.succ.inj hlength
      cases names with
      | nil =>
        obtain rfl : owns = [] := List.length_eq_zero_iff.mp hrest.symm
        simp [gapsBehind]
      | cons next names =>
        cases owns with
        | nil => exact absurd hrest (Nat.succ_ne_zero _)
        | cons own' owns =>
          have hnext := ih hrest (List.cons_ne_nil _ _)
          simp only [List.zipWith_cons_cons] at hnext
          simp only [List.zipWith_cons_cons, List.intercalate_cons_cons, gapsBehind,
            List.flatten_cons, List.append_assoc]
          rw [hnext]

theorem isEmpty_zipWith {names owns : List (List α)} (hlength : names.length = owns.length) :
    (List.zipWith (· ++ ·) names owns).isEmpty = names.isEmpty := by
  cases names with
  | nil => rfl
  | cons name names =>
    cases owns with
    | nil => exact absurd hlength (Nat.succ_ne_zero _)
    | cons own owns => rfl

/-- A table with a list behind it is woven. -/
theorem woven_table {lead table before opening separator closing after : List α}
    {names owns : List (List α)} (hlength : names.length = owns.length) :
    woven lead (table :: names) (gapsOfTable before opening separator closing after owns)
      = lead ++ table ++ before
        ++ (if names.isEmpty then []
          else opening ++ List.intercalate separator (List.zipWith (· ++ ·) names owns) ++ closing)
        ++ after := by
  cases names with
  | nil =>
    obtain rfl : owns = [] := List.length_eq_zero_iff.mp hlength.symm
    simp [woven, gapsOfTable]
  | cons name names =>
    have hlist := intercalate_append separator (closing ++ after) hlength (List.cons_ne_nil _ _)
    cases owns with
    | nil => exact absurd hlength (Nat.succ_ne_zero _)
    | cons own owns =>
      simp only [woven, gapsOfTable, List.isEmpty_cons, Bool.false_eq_true, if_false,
        List.zipWith_cons_cons, List.flatten_cons, List.append_assoc] at hlist ⊢
      rw [hlist]

end Weaving

/-- SQL that is woven is woven as text. -/
theorem chars_woven (lead : Sql) (parts gaps : List Sql) :
    Sql.chars (woven lead parts gaps)
      = woven lead.chars (parts.map Sql.chars) (gaps.map Sql.chars) := by
  have hflatten : ∀ sqls : List Sql, Sql.chars sqls.flatten = (sqls.map Sql.chars).flatten := by
    intro sqls
    induction sqls with
    | nil => rfl
    | cons sql sqls ih => rw [List.flatten_cons, Sql.chars_append, ih]; rfl
  rw [woven, Sql.chars_append, hflatten, List.map_zipWith, woven, List.zipWith_map]
  simp only [Sql.chars_append]

/-! ## Statements -/

namespace Query

/-- The names that a statement changes data under: the table first, and then the columns. -/
def names : Query → List String
  | .select _ => []
  | .insert q => q.table :: q.columns
  | .update q => q.table :: q.assignments.map (·.1)
  | .delete q => [q.table]

/-- The same statement under other names. -/
def withNames (names : List String) : Query → Query
  | .select q => .select q
  | .insert q => .insert { q with table := names.headD "", columns := names.tail }
  | .update q =>
    .update { q with
      table := names.headD ""
      assignments := names.tail.zip (q.assignments.map (·.2)) }
  | .delete q => .delete { q with table := names.headD "" }

theorem withNames_names (q : Query) : q.withNames q.names = q := by
  cases q with
  | select q => rfl
  | insert q => rfl
  | update q =>
    have hzip : (q.assignments.map (·.1)).zip (q.assignments.map (·.2)) = q.assignments := by
      rw [List.zip_map']
      exact List.map_id _
    simp only [withNames, names, List.headD_cons, List.tail_cons, hzip]
  | delete q => rfl

/-- What a statement starts with. -/
def lead : Query → Sql
  | .insert _ => code "INSERT INTO "
  | _ => code "ALTER TABLE "

/-- The gaps behind the names of a statement, given the SQL of its WHERE clause. -/
def gaps (filter : Sql) : Query → List Sql
  | .select _ => []
  | .insert q =>
    gapsOfTable [] (code " " ++ code "(") (code ", ") (code ")")
      (code " VALUES" ++ Statement.clause " " ", " (q.rows.map Value.tupleLiteral))
      (q.columns.map fun _ => [])
  | .update q =>
    gapsOfTable (code " UPDATE") (code " ") (code ", ") []
      (filter ++ Statement.settingsSql q.settings)
      ((q.assignments.map (·.2)).map fun v => code " = " ++ v.literal)
  | .delete q =>
    gapsOfTable (code " DELETE") [] [] [] (filter ++ Statement.settingsSql q.settings) []

theorem length_gaps (filter : Sql) (q : Query) : (q.gaps filter).length = q.names.length := by
  cases q with
  | select q => rfl
  | insert q => simp [gaps, names, length_gapsOfTable]
  | update q => simp [gaps, names, length_gapsOfTable]
  | delete q => rfl

/-- The WHERE clause of a statement. -/
def FilterWrites : Query → Sql → Prop
  | .update q, sql => ClauseWrites " WHERE " q.filter sql
  | .delete q, sql => ClauseWrites " WHERE " q.filter sql
  | _, sql => sql = []

end Query

/-- Nothing of its own stands behind a column of an INSERT. -/
theorem zipWith_append_nil {columns : List String} {parts : List Sql}
    (h : columns.length = parts.length) :
    List.zipWith (· ++ ·) parts (columns.map fun _ => []) = parts := by
  induction parts generalizing columns with
  | nil => exact List.zipWith_nil_left
  | cons part parts ih =>
    cases columns with
    | nil => exact absurd h.symm (Nat.succ_ne_zero _)
    | cons column columns =>
      rw [List.map_cons, List.zipWith_cons_cons, ih (Nat.succ.inj h), List.append_nil]

/-- The assignments of an UPDATE are the names of its columns with values behind them. -/
theorem zipWith_of_assignments {columns : List String} {values : List Value} {parts : List Sql}
    (hlength : columns.length = values.length)
    (h : List.Forall₂ AssignmentWrites (columns.zip values) parts) :
    ∃ written, List.Forall₂ (NameWrites .selection) columns written
      ∧ parts = List.zipWith (· ++ ·) written (values.map fun v => code " = " ++ v.literal) := by
  induction columns generalizing values parts with
  | nil =>
    cases h
    exact ⟨[], .nil, rfl⟩
  | cons column columns ih =>
    cases values with
    | nil => exact absurd hlength (Nat.succ_ne_zero _)
    | cons v values =>
      obtain ⟨part, parts, ⟨name, hname, rfl⟩, hrest, rfl⟩ := List.forall₂_cons_left_iff.mp h
      obtain ⟨written, hwritten, rfl⟩ := ih (Nat.succ.inj hlength) hrest
      refine ⟨name :: written, .cons hname hwritten, ?_⟩
      rw [List.map_cons, List.zipWith_cons_cons, Statement.assignmentSql, List.append_assoc]

/-- The SQL of a statement under any names is woven from them, and the gaps are its own. -/
theorem Query.woven_of_writes {q : Query} (hq : ∀ s, q ≠ .select s) {names : List String}
    (hlength : names.length = q.names.length) {sql : Sql} (h : (q.withNames names).Writes sql) :
    ∃ filter parts, q.FilterWrites filter ∧ List.Forall₂ (NameWrites .selection) names parts
      ∧ sql = woven q.lead parts (q.gaps filter) := by
  cases q with
  | select s => exact absurd rfl (hq s)
  | insert q =>
    obtain ⟨table, columns, rfl⟩ := List.exists_cons_of_length_eq_add_one hlength
    obtain ⟨name, written, hname, hwritten, rfl⟩ := h
    have hcolumns : q.columns.length = written.length :=
      (Nat.succ.inj hlength).symm.trans hwritten.length_eq
    refine ⟨[], name :: written, rfl, .cons hname hwritten, ?_⟩
    rw [gaps, woven_table (by rw [List.length_map, hcolumns]),
      zipWith_append_nil hcolumns]
    simp only [lead, insertColumnPart, Sql.inParens, Sql.joined, List.append_assoc, List.nil_append]
  | update q =>
    obtain ⟨table, columns, rfl⟩ := List.exists_cons_of_length_eq_add_one hlength
    obtain ⟨name, assignments, filter, hname, hassignments, hfilter, rfl⟩ := h
    have hvalues : columns.length = (q.assignments.map (·.2)).length := by
      rw [List.length_map, Nat.succ.inj hlength, List.length_map]
    obtain ⟨written, hwritten, rfl⟩ := zipWith_of_assignments hvalues hassignments
    have howns : written.length = ((q.assignments.map (·.2)).map fun v =>
        code " = " ++ v.literal).length := by
      rw [← hwritten.length_eq, hvalues]
      exact (List.length_map _).symm
    refine ⟨filter, name :: written, hfilter, .cons hname hwritten, ?_⟩
    rw [gaps, woven_table howns, Statement.clause, isEmpty_zipWith howns]
    simp only [lead, Sql.joined, List.append_assoc, List.append_nil]
  | delete q =>
    obtain ⟨table, columns, rfl⟩ := List.exists_cons_of_length_eq_add_one hlength
    obtain rfl : columns = [] := List.length_eq_zero_iff.mp (Nat.succ.inj hlength)
    obtain ⟨name, filter, hname, hfilter, rfl⟩ := h
    refine ⟨filter, [name], hfilter, .cons hname .nil, ?_⟩
    rw [gaps, woven_table rfl]
    simp only [lead, List.isEmpty_nil, if_true, List.append_nil, List.append_assoc]

/-- A condition has one SQL at each place. -/
theorem Predicate.Writes.unique {top : Bool} {p : Predicate} {a b : Sql} (ha : p.Writes top a)
    (hb : p.Writes top b) : a = b := by
  obtain ⟨x, hx, hxa⟩ := ha
  obtain ⟨y, hy, hyb⟩ := hb
  obtain rfl := Except.ok.inj (hx.symm.trans hy)
  exact Except.ok.inj (hxa.symm.trans hyb)

theorem Query.FilterWrites.unique {q : Query} {a b : Sql} (ha : q.FilterWrites a)
    (hb : q.FilterWrites b) : a = b := by
  have hclause : ∀ {clause : Option Predicate}, ClauseWrites " WHERE " clause a →
      ClauseWrites " WHERE " clause b → a = b := by
    intro clause ha hb
    cases clause with
    | none => exact Eq.trans ha (Eq.symm hb)
    | some p =>
      obtain ⟨body, hbody, rfl⟩ := ha
      obtain ⟨body', hbody', rfl⟩ := hb
      rw [hbody.unique hbody']
  cases q with
  | select q => exact Eq.trans ha (Eq.symm hb)
  | insert q => exact Eq.trans ha (Eq.symm hb)
  | update q => exact hclause ha hb
  | delete q => exact hclause ha hb

/-- The text of a statement that compiles is the text of SQL that is written for it. -/
theorem Query.writes_of_toSql {q : Query} {text : String} (h : q.toSql = .ok text) :
    ∃ sql, q.Writes sql ∧ text.toList = sql.chars := by
  obtain ⟨sql, hsql, rfl⟩ := map_eq_ok.mp (mapError_eq_ok.mp h)
  exact ⟨sql, (compile_iff.mp hsql).2, String.toList_ofList⟩

/-- The text of a statement under any names is woven from them as they are written. -/
theorem Query.woven_of_toSql {q : Query} (hq : ∀ s, q ≠ .select s) {names : List String}
    (hlength : names.length = q.names.length) {text : String}
    (h : (q.withNames names).toSql = .ok text) :
    ∃ filter parts, q.FilterWrites filter ∧ List.Forall₂ WrittenName names parts
      ∧ text.toList = woven q.lead.chars parts ((q.gaps filter).map Sql.chars) := by
  obtain ⟨sql, hsql, htext⟩ := writes_of_toSql h
  obtain ⟨filter, parts, hfilter, hparts, rfl⟩ := woven_of_writes hq hlength hsql
  refine ⟨filter, parts.map Sql.chars, hfilter, ?_, htext.trans (chars_woven _ _ _)⟩
  exact List.forall₂_map_right_iff.mpr (hparts.imp fun _ _ h => h.written)

/-- **Names are quoted where they stand, and stand nowhere else.**  The text of an INSERT, UPDATE or
    DELETE that compiles is a lead with each of its names behind it, as names are written, and a gap
    behind each name.  Under any other names that compile, lead and gaps are the same. -/
theorem names_reach_sql_in_quotes_only {q : Query} {text : String} (h : q.toSql = .ok text) :
    ∃ lead gaps, gaps.length = q.names.length
      ∧ (∃ parts, List.Forall₂ WrittenName q.names parts ∧ text.toList = woven lead parts gaps)
      ∧ ∀ names text', names.length = q.names.length → (q.withNames names).toSql = .ok text' →
          ∃ parts, List.Forall₂ WrittenName names parts ∧ text'.toList = woven lead parts gaps := by
  have hself : (q.withNames q.names).toSql = .ok text := by rwa [Query.withNames_names]
  by_cases hselect : ∃ s, q = .select s
  · -- a SELECT changes nothing, and has no such names
    obtain ⟨s, rfl⟩ := hselect
    refine ⟨text.toList, [], rfl, ⟨[], .nil, (List.append_nil _).symm⟩, ?_⟩
    intro names text' hlength h'
    obtain rfl := List.length_eq_zero_iff.mp hlength
    obtain rfl : text = text' := Except.ok.inj (h.symm.trans h')
    exact ⟨[], .nil, (List.append_nil _).symm⟩
  · have hq : ∀ s, q ≠ .select s := fun s hs => hselect ⟨s, hs⟩
    obtain ⟨filter, parts, hfilter, hparts, htext⟩ := Query.woven_of_toSql hq rfl hself
    refine ⟨q.lead.chars, (q.gaps filter).map Sql.chars, ?_, ⟨parts, hparts, htext⟩, ?_⟩
    · rw [List.length_map, Query.length_gaps]
    · intro names text' hlength h'
      obtain ⟨filter', parts', hfilter', hparts', htext'⟩ := Query.woven_of_toSql hq hlength h'
      rw [hfilter'.unique hfilter] at htext'
      exact ⟨parts', hparts', htext'⟩

/-- A backtick and a backslash inside of names, and a column qualified by its table. -/
theorem names_reach_sql_in_quotes_only_of_odd_names :
    let q : Query :=
      .update { table := "odd\x60name", assignments := [("t.c", .null), ("a\\b", .null)] }
    let text : String := "ALTER TABLE \x60odd\\\x60name\x60 UPDATE "
      ++ "\x60t\x60.\x60c\x60 = NULL, \x60a\\\\b\x60 = NULL"
    q.toSql = .ok text
      ∧ ∃ lead gaps, gaps.length = 3
        ∧ (∃ parts, List.Forall₂ WrittenName ["odd\x60name", "t.c", "a\\b"] parts
          ∧ text.toList = woven lead parts gaps)
        ∧ ∀ names text', names.length = 3 → (q.withNames names).toSql = .ok text' →
          ∃ parts, List.Forall₂ WrittenName names parts ∧ text'.toList = woven lead parts gaps := by
  intro q text
  have hsql : q.toSql = .ok text := by with_unfolding_all rfl
  exact ⟨hsql, names_reach_sql_in_quotes_only hsql⟩

theorem QuotedName.tick_mem {s : String} {cs : List Char} (h : QuotedName s cs) : '\x60' ∈ cs := by
  rcases h with ⟨body, rfl, -⟩ | ⟨_, _, _, _, -, -, -, ⟨body, rfl, -⟩, -, rfl⟩
  · exact List.mem_cons_self
  · exact List.mem_append_left _ List.mem_cons_self

/-- Where a name stays bare it is no name any more.  A star and a number are not quoted at all, and
    a column closes the list of columns and goes on with SQL of its own. -/
theorem bare_names_reach_sql_unquoted :
    (Query.delete { table := "*" }).toSql = .ok "ALTER TABLE * DELETE"
      ∧ (∀ front part behind, "ALTER TABLE * DELETE".toList = front ++ part ++ behind →
        ¬ QuotedName "*" part)
      ∧ (Query.delete { table := "42" }).toSql = .ok "ALTER TABLE 42 DELETE"
      ∧ (Query.insert { table := "t", columns := ["a) SELECT f(1"] }).toSql
        = .ok "INSERT INTO \x60t\x60 (a) SELECT f(1) VALUES" := by
  refine ⟨?_, ?_, ?_, ?_⟩
  · with_unfolding_all rfl
  · intro front part behind htext hquoted
    have htick : '\x60' ∈ "ALTER TABLE * DELETE".toList := by
      rw [htext]
      exact List.mem_append_left _ (List.mem_append_right _ hquoted.tick_mem)
    exact absurd htick (by decide)
  · with_unfolding_all rfl
  · with_unfolding_all rfl

end SqlLoom
