/-
  What the tests of arrays mean.

  HAS ANY and HAS ALL are written as a quantifier over the elements of the column, with a test of
  membership in the list.  The meaning of such a test is read from its text here, piece by piece,
  and not from the tree it came from:

      arrayExists(`i` -> (`i` IN (1, 2)), `tags`)     some element of the array is in the list
      arrayAll(`i` -> (`i` IN (1, 2)), `tags`)        every element of the array is in the list

  1. `readArrayTest` — reads the text: the quantifier, the list, item by item, and the array;
  2. `ArrayTest.Holds` — the truth of what was read, over any meaning of literals and of the array.
     To be in a list is taken as membership, which it is as long as no literal is NULL;
  3. `readItems_joined` — the list is read back item by item.  The commas and brackets inside of an
     item do not end it, which goes by induction over the values (`Value.taken_literal`);
  4. `readArrayTest_elementTestSql` — the whole text is read back.

  So HAS ANY asks for an element in common.  HAS ALL does not ask whether the array has all of the
  list: it asks whether the list has all of the array (`has_all_is_not_containment`).
-/
import SqlLoom.Condition.Lowering
import SqlLoom.Proofs.Written.WellFormed

namespace SqlLoom

open Outcome
open Sql (code)

/-! ## Reading a list -/

/-- Brackets that open, in SQL. -/
def Token.opens (t : Token) : Bool :=
  t ∈ [Token.char '(', .char '[', .char '\x7b']

/-- Brackets that close. -/
def Token.closes (t : Token) : Bool :=
  t ∈ [Token.char ')', .char ']', .char '\x7d']

/-- Reads the items of a list, behind its opening bracket, and what follows the list.  `depth`
    counts the brackets that are open inside of the item, and `item` is what was read of it.  A
    comma between items has a blank behind it. -/
def readItems (depth : Nat) (item : List Token) :
    List Token → Option (List (List Token) × List Token)
  | [] => none
  | t :: rest =>
    if t.opens then readItems (depth + 1) (item ++ [t]) rest
    else if t.closes then
      match depth with
      | 0 => if t = .char ')' then some ([item], rest) else none
      | depth + 1 => readItems depth (item ++ [t]) rest
    else if depth = 0 ∧ t = .char ',' then
      (readItems 0 [] rest).map fun (items, rest) => (item :: items, rest)
    else if depth = 0 ∧ item = [] ∧ t = .char ' ' then readItems 0 [] rest
    else readItems depth (item ++ [t]) rest

/-- Reads text that has to be there. -/
def readCode (s : String) (ts : List Token) : Option (List Token) :=
  ts.dropPrefix? (s.toList.map .char)

/-- Reads a name. -/
def readName : List Token → Option (String × List Token)
  | .name s :: rest => some (s, rest)
  | _ => none

/-- Reads a list in brackets.  A query without rows stands for the empty list. -/
def readList (ts : List Token) : Option (List (List Token) × List Token) :=
  match readCode "(SELECT 1 WHERE 0=1)" ts with
  | some rest => some ([], rest)
  | none => readCode "(" ts >>= readItems 0 []

/-- Reads an expression with a bracket behind it, which ends the text. -/
def readLast (ts : List Token) : Option (List Token) :=
  if ts.getLast? = some (.char ')') then some ts.dropLast else none

/-! ## Reading a test -/

/-- Which elements a test asks for. -/
inductive Quantifier where
  | some
  | every
  deriving DecidableEq, Repr

/-- The function that asks. -/
def Quantifier.function : Quantifier → String
  | some => "arrayExists"
  | every => "arrayAll"

/-- A test of the elements of an array: whether they are in a list. -/
structure ArrayTest where
  quantifier : Quantifier
  items : List (List Token)
  array : List Token
  deriving DecidableEq, Repr

/-- Reads the function and its bracket. -/
def readQuantifier (ts : List Token) : Option (Quantifier × List Token) :=
  match readCode "arrayExists(" ts with
  | some rest => some (.some, rest)
  | none => (readCode "arrayAll(" ts).map fun rest => (.every, rest)

/-- Reads a test from SQL: the function, the variable, the membership of the variable in a list, and
    the array. -/
def readArrayTest (cs : List Char) : Option ArrayTest := do
  let ts ← lex cs
  let (quantifier, ts) ← readQuantifier ts
  let (bound, ts) ← readName ts
  let ts ← readCode " -> (" ts
  let (used, ts) ← readName ts
  guard (used = bound)
  let ts ← readCode " IN " ts
  let (items, ts) ← readList ts
  let ts ← readCode "), " ts
  let array ← readLast ts
  return ⟨quantifier, items, array⟩

/-- The truth of a test, where literals mean values and the array means a list of them. -/
def ArrayTest.Holds {V : Type} (t : ArrayTest) (value : List Token → V)
    (array : List Token → List V) : Prop :=
  match t.quantifier with
  | .some => ∃ x ∈ array t.array, x ∈ t.items.map value
  | .every => ∀ x ∈ array t.array, x ∈ t.items.map value

example :
    readArrayTest "arrayAll(\x60i\x60 -> (\x60i\x60 IN ([1, 2], 'a, b')), \x60tags\x60)".toList
      = some
        { quantifier := .every
          items := ["[1, 2]".toList.map .char, [.text "a, b"]]
          array := [.name "tags"] } := by decide

/-! ## Items are read back

  An item ends at a comma or a bracket that it did not open itself, so a literal is taken up
  whole. -/

/-- Tokens that are taken up into an item, wherever they stand in it. -/
def Taken (ts : List Token) : Prop :=
  ∀ depth item rest, readItems depth item (ts ++ rest) = readItems depth (item ++ ts) rest

/-- Tokens that are taken up into an item inside of its brackets. -/
def TakenInside (ts : List Token) : Prop :=
  ∀ depth item rest,
    readItems (depth + 1) item (ts ++ rest) = readItems (depth + 1) (item ++ ts) rest

theorem Taken.inside {ts : List Token} (h : Taken ts) : TakenInside ts :=
  fun depth => h (depth + 1)

theorem taken_text (s : String) : Taken [.text s] := by
  intro depth item rest
  simp [readItems, Token.opens, Token.closes]

/-- A character that is no bracket and does not part items. -/
def isItemChar (c : Char) : Bool :=
  !"()[]\x7b\x7d, ".toList.contains c

theorem taken_chars (cs : List Char) (h : ∀ c ∈ cs, isItemChar c = true) :
    Taken (cs.map .char) := by
  intro depth item rest
  induction cs generalizing item with
  | nil => simp
  | cons c cs ih =>
    obtain ⟨hc, hcs⟩ := List.forall_mem_cons.mp h
    have hstep : readItems depth item (.char c :: (cs.map .char ++ rest))
        = readItems depth (item ++ [.char c]) (cs.map .char ++ rest) := by
      simp only [isItemChar, String.reduceToList, List.contains_eq_mem, List.mem_cons,
        List.not_mem_nil, or_false, Bool.decide_or, Bool.not_or, Bool.and_eq_true,
        Bool.not_eq_eq_eq_not, Bool.not_true, decide_eq_false_iff_not] at hc
      simp [readItems, Token.opens, Token.closes, hc]
    rw [List.map_cons, List.cons_append, hstep, ih hcs, List.append_assoc, List.singleton_append]

/-- Inside of brackets, commas and blanks are nothing special. -/
theorem takenInside_char {c : Char} (h : c ∉ "()[]\x7b\x7d".toList) : TakenInside [.char c] := by
  intro depth item rest
  simp only [String.reduceToList, List.mem_cons, List.not_mem_nil, or_false, not_or] at h
  simp [readItems, Token.opens, Token.closes, h]

theorem TakenInside.append {ts us : List Token} (hts : TakenInside ts) (hus : TakenInside us) :
    TakenInside (ts ++ us) := by
  intro depth item rest
  rw [List.append_assoc, hts, hus, List.append_assoc]

/-- Brackets close what they open. -/
theorem TakenInside.bracketed {ts : List Token} (h : TakenInside ts) (left right : Token)
    (hleft : left.opens = true) (hright : right.closes = true) (hnot : right.opens = false) :
    Taken (left :: ts ++ [right]) := by
  intro depth item rest
  have hopen (tail : List Token) :
      readItems depth item (left :: tail) = readItems (depth + 1) (item ++ [left]) tail := by
    rw [readItems.eq_def]
    exact if_pos hleft
  have hclose (item : List Token) :
      readItems (depth + 1) item (right :: rest) = readItems depth (item ++ [right]) rest := by
    rw [readItems.eq_def]
    simp only [hnot, hright, Bool.false_eq_true, if_false, if_true]
  have hsplit : left :: ts ++ [right] ++ rest = left :: (ts ++ right :: rest) := by simp
  rw [hsplit, hopen, h, hclose]
  simp

theorem takenInside_joined {parts : List Sql} (h : ∀ part ∈ parts, TakenInside part.tokens) :
    TakenInside (Sql.joined ", " parts).tokens := by
  induction parts with
  | nil => exact fun depth item rest => by rw [Sql.joined, List.intercalate_nil]; simp
  | cons part parts ih =>
    obtain ⟨hpart, hparts⟩ := List.forall_mem_cons.mp h
    cases parts with
    | nil =>
      rw [Sql.joined, List.intercalate_singleton]
      exact hpart
    | cons next parts =>
      have hseparator : TakenInside (code ", ").tokens :=
        (takenInside_char (c := ',') (by decide)).append (takenInside_char (c := ' ') (by decide))
      rw [Sql.joined, List.intercalate_cons_cons, Sql.tokens_append, Sql.tokens_append]
      exact (hpart.append hseparator).append (ih hparts)

theorem taken_number {cs : List Char} (h : IsNumberText cs) : Taken (cs.map .char) := by
  refine taken_chars cs fun c hc => ?_
  have hno : ∀ d ∈ "()[]\x7b\x7d, ".toList, (!isNumberChar d) = true :=
    List.all_eq_true.mp (by decide)
  rw [isItemChar, Bool.not_eq_true', ← Bool.not_eq_true, List.contains_iff_mem]
  intro hmem
  have hnumber := hno c hmem
  rw [h.2 c hc] at hnumber
  exact Bool.false_ne_true hnumber

theorem Binary64.taken_literal (x : Binary64) : Taken x.literal.tokens := by
  unfold literal
  split
  · exact taken_chars "NULL".toList (List.all_eq_true.mp (by decide))
  · exact taken_text _
  · rename_i negative significand exponent _
    have hnumber := taken_number (isNumberText_literalDigits negative significand exponent)
    simpa [code, Piece.tokens] using hnumber

namespace Value

mutual

/-- A literal is taken up whole. -/
theorem taken_literal : ∀ v : Value, Taken v.literal.tokens
  | .null => taken_chars "NULL".toList (List.all_eq_true.mp (by decide))
  | .bool true => taken_chars "true".toList (List.all_eq_true.mp (by decide))
  | .bool false => taken_chars "false".toList (List.all_eq_true.mp (by decide))
  | .int n => by
    have hnumber := taken_number (isNumberText_decimalInt n.toInt)
    simpa [literal, code, Piece.tokens] using hnumber
  | .float x => x.taken_literal
  | .text s => taken_text s
  | .instant t => taken_text _
  | .array items => by
    have hitems := takenInside_joined (takenInside_literals items)
    have hwhole := hitems.bracketed (.char '[') (.char ']') rfl rfl rfl
    simpa [literal, code, Piece.tokens] using hwhole
  | .map entries => by
    have hentries := takenInside_joined (takenInside_entryLiterals entries)
    have hwhole := hentries.bracketed (.char '\x7b') (.char '\x7d') rfl rfl rfl
    simpa [literal, code, Piece.tokens] using hwhole

theorem takenInside_literals : ∀ vs : List Value, ∀ part ∈ literals vs, TakenInside part.tokens
  | [], part, hpart => absurd hpart List.not_mem_nil
  | v :: vs, part, hpart => by
    rcases List.mem_cons.mp hpart with rfl | hpart
    · exact (taken_literal v).inside
    · exact takenInside_literals vs part hpart

theorem takenInside_entryLiterals :
    ∀ entries : List (String × Value), ∀ part ∈ entryLiterals entries, TakenInside part.tokens
  | [], part, hpart => absurd hpart List.not_mem_nil
  | (key, v) :: rest, part, hpart => by
    rcases List.mem_cons.mp hpart with rfl | hpart
    · have hseparator : TakenInside (code ": ").tokens :=
        (takenInside_char (c := ':') (by decide)).append (takenInside_char (c := ' ') (by decide))
      have hkey : TakenInside (Sql.tokens [.text key]) := (taken_text key).inside
      exact hkey.append (hseparator.append (taken_literal v).inside)
    · exact takenInside_entryLiterals rest part hpart

end

end Value

/-! ## Lists are read back -/

/-- A list is read back item by item. -/
theorem readItems_joined {parts : List Sql} (hparts : ∀ part ∈ parts, Taken part.tokens)
    (hne : parts ≠ []) (rest : List Token) :
    readItems 0 [] ((Sql.joined ", " parts).tokens ++ .char ')' :: rest)
      = some (parts.map Sql.tokens, rest) := by
  induction parts with
  | nil => exact absurd rfl hne
  | cons part parts ih =>
    obtain ⟨hpart, htail⟩ := List.forall_mem_cons.mp hparts
    cases parts with
    | nil =>
      rw [Sql.joined, List.intercalate_singleton, hpart]
      rfl
    | cons next parts =>
      have hseparator (ts : List Token) (item : List Token) :
          readItems 0 item (.char ',' :: .char ' ' :: ts)
            = (readItems 0 [] ts).map fun (items, rest) => (item :: items, rest) := rfl
      have hsplit : (Sql.joined ", " (part :: next :: parts)).tokens ++ .char ')' :: rest
          = part.tokens ++ .char ',' :: .char ' '
            :: ((Sql.joined ", " (next :: parts)).tokens ++ .char ')' :: rest) := by
        rw [Sql.joined, List.intercalate_cons_cons, Sql.tokens_append, Sql.tokens_append]
        simp [code, Piece.tokens, Sql.joined]
      rw [hsplit, hpart, hseparator, ih htail (List.cons_ne_nil _ _)]
      rfl

theorem readCode_append (s : String) (ts : List Token) :
    readCode s ((code s).tokens ++ ts) = some ts := by
  have hcode : (code s).tokens = s.toList.map .char := List.append_nil _
  rw [readCode, hcode, List.dropPrefix?_append_of_beq _ (BEq.refl _)]

theorem readCode_eq_some {s : String} {ts rest : List Token} (h : readCode s ts = some rest) :
    ts = (code s).tokens ++ rest := by
  obtain ⟨front, rfl, heq⟩ := List.dropPrefix?_eq_some_iff.mp h
  have hcode : (code s).tokens = s.toList.map .char := List.append_nil _
  rw [hcode, eq_of_beq heq]

/-- No literal has a letter that the query without rows starts with. -/
theorem Value.char_not_mem_joined {vs : List Value} {c : Char} (hc : isLiteralChar c = false) :
    .char c ∉ (Sql.joined ", " (vs.map literal)).tokens := by
  intro hmem
  obtain ⟨p, hp, hcp⟩ := List.mem_flatMap.mp hmem
  have hliteral : p.IsLiteral := by
    rw [← literals_eq_map] at hp
    exact isLiteral_joined (isLiteral_of_mem_literals vs) p hp
  cases p with
  | code s =>
    obtain ⟨d, hd, heq⟩ := List.mem_map.mp hcp
    obtain rfl := Token.char.inj heq
    exact Bool.false_ne_true (hc.symm.trans (hliteral.2 d hd))
  | text s => simp [Piece.tokens] at hcp
  | name s => exact hliteral
  | verbatim s => exact hliteral

/-- The right side of a test is read back as the literals of its values. -/
theorem readList_listSql (vs : List Value) (rest : List Token) :
    readList ((Statement.listSql vs).tokens ++ rest)
      = some (vs.map fun v => v.literal.tokens, rest) := by
  cases vs with
  | nil =>
    show readList ((code "(SELECT 1 WHERE 0=1)").tokens ++ rest) = _
    rw [readList, readCode_append]
    rfl
  | cons v vs =>
    have htuple : (Statement.listSql (v :: vs)).tokens ++ rest = (code "(").tokens
        ++ ((Sql.joined ", " ((v :: vs).map Value.literal)).tokens ++ .char ')' :: rest) := by
      show (Value.tupleLiteral (v :: vs)).tokens ++ rest = _
      simp [Value.tupleLiteral, Sql.inParens, code, Piece.tokens]
    have hrows : readCode "(SELECT 1 WHERE 0=1)" ((Statement.listSql (v :: vs)).tokens ++ rest)
        = none := by
      refine Option.eq_none_iff_forall_ne_some.mpr fun rest' hread => ?_
      have hcode := (htuple.symm.trans (readCode_eq_some hread))
      -- the letter behind the bracket would stand in a literal
      have hletter : .char 'S' ∉ (Sql.joined ", " ((v :: vs).map Value.literal)).tokens :=
        Value.char_not_mem_joined (by decide)
      generalize (Sql.joined ", " ((v :: vs).map Value.literal)).tokens = ts at hcode hletter
      cases ts with
      | nil => simp [code, Piece.tokens] at hcode
      | cons t ts =>
        simp only [code, Sql.tokens_cons, Sql.tokens_nil, Piece.tokens, String.reduceToList,
          List.map_cons, List.map_nil, List.cons_append, List.nil_append, List.cons.injEq,
          true_and] at hcode
        exact hletter (hcode.1 ▸ List.mem_cons_self)
    have hitems : ∀ part ∈ (v :: vs).map Value.literal, Taken part.tokens := by
      intro part hpart
      obtain ⟨w, -, rfl⟩ := List.mem_map.mp hpart
      exact w.taken_literal
    rw [readList, hrows, htuple, readCode_append]
    show readItems 0 [] _ = _
    rw [readItems_joined hitems (List.cons_ne_nil _ _), List.map_map]
    rfl

/-! ## Tests are read back -/

theorem readQuantifier_function (quantifier : Quantifier) (rest : List Token) :
    readQuantifier ((code (quantifier.function ++ "(")).tokens ++ rest)
      = some (quantifier, rest) := by
  cases quantifier with
  | some =>
    show readQuantifier ((code "arrayExists(").tokens ++ rest) = _
    rw [readQuantifier, readCode_append]
  | every =>
    show readQuantifier ((code "arrayAll(").tokens ++ rest) = _
    have hother : readCode "arrayExists(" ((code "arrayAll(").tokens ++ rest) = none := rfl
    rw [readQuantifier, hother, readCode_append]
    rfl

theorem readLast_append (ts : List Token) : readLast (ts ++ (code ")").tokens) = some ts := by
  have hcode : (code ")").tokens = [.char ')'] := rfl
  rw [hcode, readLast, List.getLast?_concat, if_pos rfl, List.dropLast_concat]

/-- **A test of the elements of an array is read back**, whatever stands for the array. -/
theorem readArrayTest_elementTestSql (quantifier : Quantifier) {left : Sql}
    (hleft : left.WellFormed) (vs : List Value) :
    readArrayTest (Statement.elementTestSql quantifier.function left (Statement.listSql vs)).chars
      = some ⟨quantifier, vs.map fun v => v.literal.tokens, left.tokens⟩ := by
  have hfunction : quantifier.function ∈ ["arrayExists", "arrayAll"] := by
    cases quantifier <;> decide
  have hlexable : Sql.Lexable
      (Statement.elementTestSql quantifier.function left (Statement.listSql vs)) :=
    (Statement.wellFormed_elementTestSql hfunction hleft
      (Statement.wellFormed_listSql vs)).lexable
  have htokens : (Statement.elementTestSql quantifier.function left (Statement.listSql vs)).tokens
      = (code (quantifier.function ++ "(")).tokens ++ (.name "i" :: ((code " -> (").tokens
        ++ (.name "i" :: ((code " IN ").tokens ++ ((Statement.listSql vs).tokens
        ++ ((code "), ").tokens ++ (left.tokens ++ (code ")").tokens))))))) := by
    simp [Statement.elementTestSql, Piece.tokens]
  rw [readArrayTest, Sql.lex_chars hlexable, htokens]
  refine Option.bind_eq_some_iff.mpr ⟨_, rfl, ?_⟩
  refine Option.bind_eq_some_iff.mpr ⟨_, readQuantifier_function quantifier _, ?_⟩
  refine Option.bind_eq_some_iff.mpr ⟨("i", _), rfl, ?_⟩
  refine Option.bind_eq_some_iff.mpr ⟨_, readCode_append _ _, ?_⟩
  refine Option.bind_eq_some_iff.mpr ⟨("i", _), rfl, ?_⟩
  refine Option.bind_eq_some_iff.mpr ⟨(), rfl, ?_⟩
  refine Option.bind_eq_some_iff.mpr ⟨_, readCode_append _ _, ?_⟩
  refine Option.bind_eq_some_iff.mpr ⟨_, readList_listSql vs _, ?_⟩
  refine Option.bind_eq_some_iff.mpr ⟨_, readCode_append _ _, ?_⟩
  exact Option.bind_eq_some_iff.mpr ⟨_, readLast_append _, rfl⟩

/-! ## What the tests mean -/

namespace Quantifier

/-- The kind of operator that asks. -/
def kind : Quantifier → OperatorKind
  | some => .hasAny
  | every => .hasAll

/-- The operator of a condition that asks. -/
def operator : Quantifier → String
  | some => "HAS ANY"
  | every => "HAS ALL"

theorem toPredicate_withList (quantifier : Quantifier) (column : String) (values : List Value) :
    (Operator.withList quantifier.kind values).toPredicate column
      = .ok (.compare (.named column) quantifier.operator (.array values none)) := by
  cases quantifier <;> rfl

/-- There is exactly one SQL of a test on an array. -/
theorem writes_iff {quantifier : Quantifier} {column : String} {left : Sql}
    (hleft : Statement.leftSql column = .ok left) {values : List Value} {top : Bool} {sql : Sql} :
    (Predicate.compare (.named column) quantifier.operator (.array values none)).Writes top sql
      ↔ sql = Statement.elementTestSql quantifier.function left (Statement.listSql values) := by
  have hcolumn : Statement.leftSql (Column.ofText column).joined = .ok left := by
    rw [Column.joined_ofText, hleft]
  have htest : TestWrites quantifier.operator left (.array values none) sql
      ↔ ∃ right, (Expr.array values none).WritesOperand right
        ∧ Statement.testSql quantifier.operator left right = .ok sql := by
    cases quantifier <;> rfl
  have hsql : Statement.testSql quantifier.operator left (Statement.listSql values)
      = .ok (Statement.elementTestSql quantifier.function left (Statement.listSql values)) := by
    cases quantifier <;> rfl
  rw [Predicate.writes_compare]
  constructor
  · rintro ⟨c, leftPart, hc, hpart, h⟩
    obtain rfl : Column.ofText column = c := Expr.column.inj hc
    obtain rfl := Except.ok.inj (hcolumn.symm.trans hpart)
    obtain ⟨right, hright, hwritten⟩ := htest.mp h
    rw [Expr.writesOperand_array.mp hright, hsql] at hwritten
    exact (ok_eq_ok.mp hwritten)
  · rintro rfl
    exact ⟨_, left, rfl, hcolumn, htest.mpr ⟨_, Expr.writesOperand_array.mpr rfl, hsql⟩⟩

end Quantifier

/-- A condition with exactly one SQL, whose text is read as a test of an array.  `truth` says when
    the test is true, from the meaning of literals and the elements of the array. -/
def Predicate.Tests (p : Predicate) (top : Bool) (array : List Token)
    (truth : ∀ {V : Type}, (List Token → V) → List V → Prop) : Prop :=
  ∃ sql t, (∀ sql', p.Writes top sql' ↔ sql' = sql) ∧ readArrayTest sql.text.toList = some t
    ∧ ∀ {V : Type} (value : List Token → V) (meaning : List Token → List V),
        t.Holds value meaning ↔ truth value (meaning array)

/-- A condition is true of the same arrays however its truth is put. -/
theorem Predicate.Tests.iff {p : Predicate} {top : Bool} {array : List Token}
    {truth truth' : ∀ {V : Type}, (List Token → V) → List V → Prop} (h : p.Tests top array truth)
    (h' : p.Tests top array truth') {V : Type} (value : List Token → V) (elements : List V) :
    truth value elements ↔ truth' value elements := by
  obtain ⟨sql, t, hsql, hread, hmeaning⟩ := h
  obtain ⟨sql', t', hsql', hread', hmeaning'⟩ := h'
  obtain rfl : sql = sql' := (hsql' sql).mp ((hsql sql).mpr rfl)
  obtain rfl : t = t' := Option.some.inj (hread.symm.trans hread')
  exact (hmeaning value fun _ => elements).symm.trans (hmeaning' value fun _ => elements)

theorem Quantifier.tests (quantifier : Quantifier) {column : String} {left : Sql}
    (hleft : Statement.leftSql column = .ok left) (values : List Value) (top : Bool) :
    (Predicate.compare (.named column) quantifier.operator (.array values none)).Tests top
      left.tokens fun value elements =>
        match quantifier with
        | .some => ∃ v ∈ values, value v.literal.tokens ∈ elements
        | .every => ∀ x ∈ elements, ∃ v ∈ values, value v.literal.tokens = x := by
  have hread := readArrayTest_elementTestSql quantifier (Statement.wellFormed_leftSql hleft) values
  have htext := (congrArg readArrayTest String.toList_ofList).trans hread
  refine ⟨_, _, fun _ => writes_iff hleft, htext, fun value meaning => ?_⟩
  have hitem (x : _) : x ∈ (values.map fun v => v.literal.tokens).map value
      ↔ ∃ v ∈ values, value v.literal.tokens = x := by
    rw [List.map_map, List.mem_map]
    rfl
  cases quantifier with
  | some =>
    show (∃ x ∈ meaning left.tokens, x ∈ _) ↔ _
    constructor
    · rintro ⟨x, hx, hmem⟩
      obtain ⟨v, hv, rfl⟩ := (hitem x).mp hmem
      exact ⟨v, hv, hx⟩
    · rintro ⟨v, hv, hx⟩
      exact ⟨_, hx, (hitem _).mpr ⟨v, hv, rfl⟩⟩
  | every =>
    show (∀ x ∈ meaning left.tokens, x ∈ _) ↔ _
    exact forall₂_congr fun x _ => hitem x

/-- **Headline.**  For every column that can be written and every list of values, the SQL of HAS ANY
    is true exactly when some value of the list is in the array, and the SQL of HAS ALL exactly when
    every element of the array is a value of the list, whatever literals and the column mean.  So an
    empty list makes the first one false, and the second one true of the empty array only. -/
theorem array_tests_ask_about_elements {column : String} {left : Sql}
    (hleft : Statement.leftSql column = .ok left) (values : List Value) (top : Bool) :
    (∃ p, (Operator.withList .hasAny values).toPredicate column = .ok p
      ∧ p.Tests top left.tokens fun value elements =>
          ∃ v ∈ values, value v.literal.tokens ∈ elements)
    ∧ ∃ p, (Operator.withList .hasAll values).toPredicate column = .ok p
      ∧ p.Tests top left.tokens fun value elements =>
          ∀ x ∈ elements, ∃ v ∈ values, value v.literal.tokens = x :=
  ⟨⟨_, Quantifier.toPredicate_withList .some column values, Quantifier.some.tests hleft values top⟩,
    ⟨_, Quantifier.toPredicate_withList .every column values,
      Quantifier.every.tests hleft values top⟩⟩

/-- Two numbers, and the elements of a column. -/
theorem array_tests_ask_about_elements_of_tags :
    (∃ p, (Operator.withList .hasAny [.int 1, .int 2]).toPredicate "tags" = .ok p
      ∧ p.Tests true [.name "tags"] fun value elements =>
          ∃ v ∈ [Value.int 1, .int 2], value v.literal.tokens ∈ elements)
    ∧ ∃ p, (Operator.withList .hasAll [.int 1, .int 2]).toPredicate "tags" = .ok p
      ∧ p.Tests true [.name "tags"] fun value elements =>
          ∀ x ∈ elements, ∃ v ∈ [Value.int 1, .int 2], value v.literal.tokens = x :=
  array_tests_ask_about_elements (show Statement.leftSql "tags" = .ok [.name "tags"] from rfl)
    [.int 1, .int 2] true

/-- **HAS ALL is not containment of the list in the array.**  The SQL for the list 1, 2 is true of
    an array with the one element 1. -/
theorem has_all_is_not_containment :
    ¬ ∀ (column : String) (left : Sql) (values : List Value) (top : Bool),
      Statement.leftSql column = .ok left →
        ∃ p, (Operator.withList .hasAll values).toPredicate column = .ok p
          ∧ p.Tests top left.tokens fun value elements =>
              ∀ v ∈ values, value v.literal.tokens ∈ elements := by
  intro h
  obtain ⟨p, hp, hcontained⟩ := h "tags" [.name "tags"] [.int 1, .int 2] true rfl
  obtain rfl := ok_eq_ok.mp ((Quantifier.toPredicate_withList .every _ _).symm.trans hp)
  have hleft : Statement.leftSql "tags" = .ok [.name "tags"] := rfl
  have hevery := Quantifier.every.tests hleft [.int 1, .int 2] true
  -- literals may mean themselves
  have htrue : ∀ x ∈ [[Token.char '1']], ∃ v ∈ [Value.int 1, .int 2], id v.literal.tokens = x := by
    intro x hx
    rw [List.mem_singleton.mp hx]
    exact ⟨.int 1, List.mem_cons_self, by decide⟩
  have htwo := (hevery.iff hcontained id [[.char '1']]).mp htrue (.int 2) (by simp)
  exact absurd htwo (by decide)

end SqlLoom
