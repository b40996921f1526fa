/-
  Literals can be cut out of SQL.

  `Value.read` reads a value from the front of a text and leaves what stands behind it.  It knows
  nothing of the value that was written:

      NULL, true, false      words
      -42                    a sign, and digits as far as they go
      'it''s'                a text, read as the first token of SQL
      [1, 'a', []]           values with a comma and a blank between neighbours
      {'k': 1, 'k': 2}       entries, each of them a text, a colon, a blank and a value

  1. ONE LIST (`readBracketed_joined`).  Items that are read back whatever delimiter follows them are
     read back as a list: behind each item stands a comma or the closing bracket, and both of them
     are delimiters.  Values of an array and entries of a map are such items.
  2. ALL VALUES (`read_literal`), by induction over the value, with the rest of the text as a
     variable.  The rest has to be DELIMITED, or a number would go on in it.

  So no two values have literals that can be mistaken for each other, wherever they stand.  That
  holds of PLAIN values, in which there is no number with a point and no instant: an instant is
  written as a text, and a whole number has the same digits in either of its two kinds.
-/
import SqlLoom.Proofs.Literal
import SqlLoom.Proofs.Token

namespace SqlLoom

/-! ## What is read -/

mutual

/-- A value made of nulls, booleans, integers, texts, arrays and maps. -/
def Value.Plain : Value → Prop
  | .null | .bool _ | .int _ | .text _ => True
  | .float _ | .instant _ => False
  | .array items => ItemsPlain items
  | .map entries => EntriesPlain entries

/-- Every one of the values is plain. -/
def ItemsPlain : List Value → Prop
  | [] => True
  | v :: vs => v.Plain ∧ ItemsPlain vs

/-- Every entry has a plain value. -/
def EntriesPlain : List (String × Value) → Prop
  | [] => True
  | (_, v) :: rest => v.Plain ∧ EntriesPlain rest

end

/-- The characters that may stand behind a literal. -/
def isDelimiter (c : Char) : Bool :=
  c ∈ [',', ']', '\x7d', ')', ' ']

/-- Nothing follows, or a delimiter does. -/
def Delimited (t : List Char) : Prop :=
  ∀ c ∈ t.head?, isDelimiter c = true

theorem delimited_cons {c : Char} (h : isDelimiter c = true) (t : List Char) :
    Delimited (c :: t) := by
  intro d hd
  rwa [← Option.some.inj hd]

theorem Delimited.not_quote {t : List Char} (h : Delimited t) : t.head? ≠ some '\'' :=
  fun ht => absurd (h '\'' ht) (by decide)

theorem Delimited.not_digit {t : List Char} (h : Delimited t) :
    ∀ c ∈ t.head?, c.isDigit = false := by
  intro c hc
  have hno : [',', ']', '\x7d', ')', ' '].all (!Char.isDigit ·) = true := by decide
  simpa using List.all_eq_true.mp hno c (of_decide_eq_true (h c hc))

namespace Value

/-! ## The reader -/

section Lists

variable {α : Type}

/-- Reads items with a comma and a blank between neighbours, up to the bracket that closes the
    list, which has at least one of them. -/
def readSeries (item : List Char → Option (α × List Char)) (close : Char) :
    Nat → List Char → Option (List α × List Char)
  | 0, _ => none
  | fuel + 1, cs => do
    let (x, rest) ← item cs
    if rest.head? = some close then return ([x], rest.tail)
    let rest ← rest.dropPrefix? [',', ' ']
    (readSeries item close fuel rest).map fun (xs, rest) => (x :: xs, rest)

/-- Reads a list from behind its opening bracket. -/
def readBracketed (item : List Char → Option (α × List Char)) (close : Char) (fuel : Nat)
    (cs : List Char) : Option (List α × List Char) :=
  if cs.head? = some close then some ([], cs.tail) else readSeries item close fuel cs

end Lists

/-- Reads one of the words that stand for a value. -/
def readWord (cs : List Char) : Option (Value × List Char) :=
  [("NULL", null), ("true", bool true), ("false", bool false)].findSome? fun (word, v) =>
    (cs.dropPrefix? word.toList).map (v, ·)

/-- Reads a natural number, as many digits of it as there are. -/
def readNat (cs : List Char) : Option (Nat × List Char) :=
  let digits := cs.takeWhile Char.isDigit
  if digits.isEmpty then none
  else some (Nat.ofDigitChars 10 digits 0, cs.dropWhile Char.isDigit)

/-- Reads an integer, with a minus sign in front of a negative one. -/
def readInt : List Char → Option (Int × List Char)
  | [] => none
  | c :: cs =>
    if c = '-' then (readNat cs).map fun (n, rest) => (-n, rest)
    else (readNat (c :: cs)).map fun (n, rest) => (n, rest)

/-- Reads an entry of a map, given how to read its value. -/
def readEntry (value : List Char → Option (Value × List Char)) (cs : List Char) :
    Option ((String × Value) × List Char) := do
  match ← firstToken cs with
  | (.text key, rest) =>
    let rest ← rest.dropPrefix? [':', ' ']
    let (v, rest) ← value rest
    return ((key, v), rest)
  | _ => none

/-- Reads a value.  The fuel bounds how deep values nest and how long lists are. -/
def readUpTo : Nat → List Char → Option (Value × List Char)
  | 0, _ => none
  | fuel + 1, cs => do
    match ← firstToken cs with
    | (.text s, rest) => return (.text s, rest)
    | (.name _, _) => none
    | (.char c, rest) =>
      if c = '[' then
        (readBracketed (readUpTo fuel) ']' fuel rest).map fun (items, rest) => (.array items, rest)
      else if c = '\x7b' then
        (readBracketed (readEntry (readUpTo fuel)) '\x7d' fuel rest).map
          fun (entries, rest) => (.map entries, rest)
      else
        readWord cs <|> (readInt cs).map fun (n, rest) => (.int (Int64.ofInt n), rest)

/-- Reads a value from the front of a text, and leaves what stands behind it. -/
def read (cs : List Char) : Option (Value × List Char) :=
  readUpTo (cs.length + 1) cs

/-! ## Words and numbers are read back -/

/-- Digits end at a delimiter. -/
theorem span_digits {digits t : List Char} (hdigits : ∀ c ∈ digits, c.isDigit = true)
    (ht : Delimited t) :
    (digits ++ t).takeWhile Char.isDigit = digits ∧ (digits ++ t).dropWhile Char.isDigit = t := by
  rw [List.takeWhile_append_of_pos hdigits, List.dropWhile_append_of_pos hdigits]
  cases t with
  | nil => exact ⟨List.append_nil digits, rfl⟩
  | cons c t =>
    have hc := ht.not_digit c rfl
    simp [hc]

theorem readNat_decimalDigits (n : Nat) {t : List Char} (ht : Delimited t) :
    readNat (decimalDigits n ++ t) = some (n, t) := by
  have hdigits : ∀ c ∈ decimalDigits n, c.isDigit = true := fun c hc =>
    Nat.isDigit_of_mem_toDigits (by decide) (by decide) hc
  obtain ⟨htake, hdrop⟩ := span_digits hdigits ht
  have hne : (decimalDigits n).isEmpty = false := List.isEmpty_eq_false_iff.mpr Nat.toDigits_ne_nil
  have hvalue : Nat.ofDigitChars 10 (decimalDigits n) 0 = n := Nat.ofDigitChars_ten_toDigits
  rw [readNat, htake, hdrop, hne, hvalue]
  rfl

theorem readInt_decimalInt (n : Int) {t : List Char} (ht : Delimited t) :
    readInt ((decimalInt n).toList ++ t) = some (n, t) := by
  have hread := readNat_decimalDigits n.natAbs ht
  unfold decimalInt
  split
  · rename_i hneg
    have habs : -(n.natAbs : Int) = n := by omega
    rw [String.toList_ofList, List.cons_append, readInt, if_pos rfl, hread]
    exact congrArg (fun i => some (i, t)) habs
  · rename_i hpos
    have habs : (n.natAbs : Int) = n := by omega
    rw [String.toList_ofList]
    -- the first digit is no sign
    cases hdigits : decimalDigits n.natAbs with
    | nil => exact absurd hdigits Nat.toDigits_ne_nil
    | cons d ds =>
      have hd : d.isDigit = true :=
        Nat.isDigit_of_mem_toDigits (by decide) (by decide) (hdigits ▸ List.mem_cons_self)
      have hsign : d ≠ '-' := by
        rintro rfl
        exact absurd hd (by decide)
      rw [hdigits] at hread
      rw [List.cons_append, readInt, if_neg hsign, ← List.cons_append, hread]
      exact congrArg (fun i => some (i, t)) habs

/-- A character of a number is none of those that lead elsewhere. -/
theorem ne_of_isNumberChar {c : Char} (hc : isNumberChar c = true) (d : Char)
    (hd : isNumberChar d = false) : c ≠ d := by
  rintro rfl
  exact Bool.false_ne_true (hd.symm.trans hc)

/-- A number does not start like a word. -/
theorem readWord_cons {c : Char} (h : isNumberChar c = true) (cs : List Char) :
    readWord (c :: cs) = none := by
  have hne := ne_of_isNumberChar h
  simp [readWord, List.dropPrefix?, hne 'N' (by decide), hne 't' (by decide), hne 'f' (by decide)]

/-! ## Lists are read back -/

section Lists

variable {α : Type} {item : List Char → Option (α × List Char)} {close : Char}

theorem readSeries_last {x : α} {cs t : List Char} {fuel : Nat}
    (hx : item cs = some (x, close :: t)) :
    readSeries item close (fuel + 1) cs = some ([x], t) := by
  simp [readSeries, hx]

theorem readSeries_next (hcomma : close ≠ ',') {x : α} {cs rest : List Char} {fuel : Nat}
    (hx : item cs = some (x, ',' :: ' ' :: rest)) :
    readSeries item close (fuel + 1) cs
      = (readSeries item close fuel rest).map fun (xs, t) => (x :: xs, t) := by
  simp [readSeries, hx, hcomma.symm, List.dropPrefix?]

/-- An item that is read back, whatever delimiter follows it. -/
def ReadBack (item : List Char → Option (α × List Char)) (x : α) (part : Sql) : Prop :=
  ∀ t, Delimited t → item (part.chars ++ t) = some (x, t)

theorem chars_joined_cons_cons (part next : Sql) (parts : List Sql) :
    (Sql.joined ", " (part :: next :: parts)).chars
      = part.chars ++ ',' :: ' ' :: (Sql.joined ", " (next :: parts)).chars := by
  rw [Sql.joined, List.intercalate_cons_cons, Sql.chars_append, Sql.chars_append, List.append_assoc]
  rfl

/-- Behind each item stands a comma, and behind the last one the closing bracket. -/
theorem readSeries_joined (hclose : isDelimiter close = true) (hcomma : close ≠ ',') {xs : List α}
    {parts : List Sql} (h : List.Forall₂ (ReadBack item) xs parts) (hne : xs ≠ []) {fuel : Nat}
    (hfuel : xs.length < fuel) (t : List Char) :
    readSeries item close fuel ((Sql.joined ", " parts).chars ++ close :: t) = some (xs, t) := by
  induction h generalizing fuel with
  | nil => exact absurd rfl hne
  | @cons x part xs parts hx hxs ih =>
    cases fuel with
    | zero => exact absurd hfuel (Nat.not_lt_zero _)
    | succ fuel =>
      cases hxs with
      | nil =>
        rw [Sql.joined, List.intercalate_singleton]
        exact readSeries_last (hx _ (delimited_cons hclose t))
      | cons hy hys =>
        rw [chars_joined_cons_cons, List.append_assoc, List.cons_append, List.cons_append,
          readSeries_next hcomma (hx _ (delimited_cons rfl _)),
          ih (List.cons_ne_nil _ _) (Nat.lt_of_succ_lt_succ hfuel)]
        rfl

/-- A list is read back, if no item starts like its end. -/
theorem readBracketed_joined (hclose : isDelimiter close = true) (hcomma : close ≠ ',') {xs : List α}
    {parts : List Sql} (h : List.Forall₂ (ReadBack item) xs parts)
    (hstart : ∀ part ∈ parts, ∃ c cs, part.chars = c :: cs ∧ c ≠ close) {fuel : Nat}
    (hfuel : xs.length < fuel) (t : List Char) :
    readBracketed item close fuel ((Sql.joined ", " parts).chars ++ close :: t) = some (xs, t) := by
  cases h with
  | nil => simp [readBracketed, Sql.joined]
  | @cons x part xs parts hx hxs =>
    obtain ⟨c, cs, hpart, hc⟩ := hstart part List.mem_cons_self
    have hhead : ((Sql.joined ", " (part :: parts)).chars ++ close :: t).head? = some c := by
      cases parts with
      | nil => simp [Sql.joined, hpart]
      | cons next parts => simp [chars_joined_cons_cons, hpart]
    rw [readBracketed, hhead, if_neg (fun h => hc (Option.some.inj h))]
    exact readSeries_joined hclose hcomma (.cons hx hxs) (List.cons_ne_nil _ _) hfuel t

end Lists

/-! ## The fuel is enough -/

/-- What bounds the text of a list bounds how many items it has, and the text of each of them. -/
theorem lt_of_length_joined {close : Char} {parts : List Sql}
    (hstart : ∀ part ∈ parts, ∃ c cs, part.chars = c :: cs ∧ c ≠ close) {n : Nat}
    (h : (Sql.joined ", " parts).chars.length < n) :
    parts.length < n ∧ ∀ part ∈ parts, part.chars.length < n := by
  induction parts generalizing n with
  | nil => exact ⟨h, nofun⟩
  | cons part parts ih =>
    obtain ⟨⟨c, cs, hpart, -⟩, hparts⟩ := List.forall_mem_cons.mp hstart
    have hpos : 0 < part.chars.length := by simp [hpart]
    cases parts with
    | nil =>
      rw [Sql.joined, List.intercalate_singleton] at h
      exact ⟨Nat.lt_of_le_of_lt hpos h, List.forall_mem_cons.mpr ⟨h, nofun⟩⟩
    | cons next parts =>
      rw [chars_joined_cons_cons, List.length_append] at h
      simp only [List.length_cons] at h
      have hrest : (Sql.joined ", " (next :: parts)).chars.length < n - part.chars.length := by omega
      obtain ⟨hcount, hitems⟩ := ih hparts hrest
      refine ⟨by rw [List.length_cons]; omega, List.forall_mem_cons.mpr ⟨by omega, ?_⟩⟩
      exact fun other hother => Nat.lt_of_lt_of_le (hitems other hother) (Nat.sub_le _ _)

/-! ## Values are read back -/

/-- What starts with none of the special characters is a word or a number. -/
theorem readUpTo_cons {c : Char} (h : c ∉ ['\'', '\x60', '[', '\x7b']) (cs : List Char) (fuel : Nat) :
    readUpTo (fuel + 1) (c :: cs) = (readWord (c :: cs)
      <|> (readInt (c :: cs)).map fun (n, rest) => (.int (Int64.ofInt n), rest)) := by
  simp only [List.mem_cons, List.not_mem_nil, or_false, not_or] at h
  obtain ⟨hquote, htick, hsquare, hcurly⟩ := h
  rw [readUpTo, firstToken_char hquote htick]
  simp [hsquare, hcurly]

theorem readBack_null (fuel : Nat) : ReadBack (readUpTo (fuel + 1)) null null.literal := by
  intro t _
  have hchars : null.literal.chars ++ t = 'N' :: 'U' :: 'L' :: 'L' :: t := rfl
  rw [hchars, readUpTo_cons (by decide)]
  simp [readWord, List.dropPrefix?]

theorem readBack_bool (b : Bool) (fuel : Nat) :
    ReadBack (readUpTo (fuel + 1)) (bool b) (bool b).literal := by
  intro t _
  cases b with
  | true =>
    have hchars : (bool true).literal.chars ++ t = 't' :: 'r' :: 'u' :: 'e' :: t := rfl
    rw [hchars, readUpTo_cons (by decide)]
    simp [readWord, List.dropPrefix?]
  | false =>
    have hchars : (bool false).literal.chars ++ t = 'f' :: 'a' :: 'l' :: 's' :: 'e' :: t := rfl
    rw [hchars, readUpTo_cons (by decide)]
    simp [readWord, List.dropPrefix?]

theorem int_starts (n : Int64) :
    ∃ c cs, (int n).literal.chars = c :: cs ∧ isNumberChar c = true := by
  have hnumber := isNumberText_decimalInt n.toInt
  have hchars : (int n).literal.chars = (decimalInt n.toInt).toList := List.append_nil _
  obtain ⟨c, cs, hcs⟩ := List.exists_cons_of_ne_nil hnumber.1
  exact ⟨c, cs, hchars.trans hcs, hnumber.2 c (hcs ▸ List.mem_cons_self)⟩

theorem readBack_int (n : Int64) (fuel : Nat) :
    ReadBack (readUpTo (fuel + 1)) (int n) (int n).literal := by
  intro t ht
  have hchars : (int n).literal.chars = (decimalInt n.toInt).toList := List.append_nil _
  obtain ⟨c, cs, hcs, hc⟩ := int_starts n
  have hplain : c ∉ ['\'', '\x60', '[', '\x7b'] := by
    have hne := ne_of_isNumberChar hc
    simp [hne '\'' (by decide), hne '\x60' (by decide), hne '[' (by decide),
      hne '\x7b' (by decide)]
  have hread := readInt_decimalInt n.toInt ht
  rw [← hchars, hcs, List.cons_append] at hread
  rw [hcs, List.cons_append, readUpTo_cons hplain, readWord_cons hc, hread]
  simp

theorem readBack_text (s : String) (fuel : Nat) :
    ReadBack (readUpTo (fuel + 1)) (text s) (text s).literal := by
  intro t ht
  have hchars : (text s).literal.chars = (Piece.text s).chars := List.append_nil _
  rw [hchars, readUpTo, firstToken_text s ht.not_quote]
  rfl

theorem chars_array (items : List Value) (t : List Char) : (array items).literal.chars ++ t
    = '[' :: ((Sql.joined ", " (literals items)).chars ++ ']' :: t) := by
  simp [literal, Sql.code, Piece.chars]

theorem readBack_array {items : List Value} {fuel : Nat}
    (hitems : List.Forall₂ (ReadBack (readUpTo fuel)) items (literals items))
    (hstart : ∀ part ∈ literals items, ∃ c cs, part.chars = c :: cs ∧ c ≠ ']')
    (hfuel : items.length < fuel) :
    ReadBack (readUpTo (fuel + 1)) (array items) (array items).literal := by
  intro t _
  rw [chars_array, readUpTo, firstToken_char (by decide) (by decide)]
  simp [readBracketed_joined rfl (by decide) hitems hstart hfuel t]

theorem chars_map (entries : List (String × Value)) (t : List Char) :
    (map entries).literal.chars ++ t
      = '\x7b' :: ((Sql.joined ", " (entryLiterals entries)).chars ++ '\x7d' :: t) := by
  simp [literal, Sql.code, Piece.chars]

theorem readBack_map {entries : List (String × Value)} {fuel : Nat}
    (hentries : List.Forall₂ (ReadBack (readEntry (readUpTo fuel))) entries (entryLiterals entries))
    (hstart : ∀ part ∈ entryLiterals entries, ∃ c cs, part.chars = c :: cs ∧ c ≠ '\x7d')
    (hfuel : entries.length < fuel) :
    ReadBack (readUpTo (fuel + 1)) (map entries) (map entries).literal := by
  intro t _
  rw [chars_map, readUpTo, firstToken_char (by decide) (by decide)]
  simp [readBracketed_joined rfl (by decide) hentries hstart hfuel t]

theorem readBack_entry (key : String) {v : Value} {value : List Char → Option (Value × List Char)}
    (hvalue : ReadBack value v v.literal) :
    ReadBack (readEntry value) (key, v) (.text key :: (Sql.code ": " ++ v.literal)) := by
  intro t ht
  have hchars : Sql.chars (.text key :: (Sql.code ": " ++ v.literal)) ++ t
      = (Piece.text key).chars ++ ':' :: ' ' :: (v.literal.chars ++ t) := by
    simp [Sql.code, Piece.chars]
  have hcolon : (':' :: ' ' :: (v.literal.chars ++ t)).head? ≠ some '\'' := by simp
  rw [hchars, readEntry, firstToken_text key hcolon]
  simp [List.dropPrefix?, hvalue t ht]

/-! ## All values -/

/-- The literal of a plain value does not start like the end of a list. -/
theorem literal_starts : ∀ v : Value, v.Plain → ∃ c cs, v.literal.chars = c :: cs ∧ c ≠ ']'
  | .null, _ => ⟨'N', _, rfl, by decide⟩
  | .bool true, _ => ⟨'t', _, rfl, by decide⟩
  | .bool false, _ => ⟨'f', _, rfl, by decide⟩
  | .int n, _ => by
    obtain ⟨c, cs, hcs, hc⟩ := int_starts n
    exact ⟨c, cs, hcs, ne_of_isNumberChar hc ']' (by decide)⟩
  | .text _, _ => ⟨'\'', _, rfl, by decide⟩
  | .array _, _ => ⟨'[', _, rfl, by decide⟩
  | .map _, _ => ⟨'\x7b', _, rfl, by decide⟩

theorem literals_start : ∀ vs : List Value, ItemsPlain vs →
    ∀ part ∈ literals vs, ∃ c cs, part.chars = c :: cs ∧ c ≠ ']'
  | [], _ => nofun
  | v :: vs, ⟨hv, hvs⟩ => List.forall_mem_cons.mpr ⟨literal_starts v hv, literals_start vs hvs⟩

/-- An entry starts with its key. -/
theorem entryLiterals_start : ∀ entries : List (String × Value),
    ∀ part ∈ entryLiterals entries, ∃ c cs, part.chars = c :: cs ∧ c ≠ '\x7d'
  | [] => nofun
  | _ :: rest => List.forall_mem_cons.mpr ⟨⟨'\'', _, rfl, by decide⟩, entryLiterals_start rest⟩

theorem length_entryLiterals : ∀ entries : List (String × Value),
    (entryLiterals entries).length = entries.length
  | [] => rfl
  | _ :: rest => congrArg (· + 1) (length_entryLiterals rest)

mutual

/-- A plain value is read back from its literal, whatever delimiter follows it. -/
theorem readBack_literal : ∀ (v : Value), v.Plain → ∀ fuel, v.literal.chars.length < fuel →
    ReadBack (readUpTo fuel) v v.literal
  | .null, _, fuel + 1, _ => readBack_null fuel
  | .bool b, _, fuel + 1, _ => readBack_bool b fuel
  | .int n, _, fuel + 1, _ => readBack_int n fuel
  | .text s, _, fuel + 1, _ => readBack_text s fuel
  | .array items, hitems, fuel + 1, hfuel => by
    have hstart := literals_start items hitems
    have hlength : (Sql.joined ", " (literals items)).chars.length < fuel := by
      have hchars := congrArg List.length (chars_array items [])
      simp only [List.length_append, List.length_cons, List.length_nil] at hchars
      omega
    obtain ⟨hparts, hitem⟩ := lt_of_length_joined hstart hlength
    rw [literals_eq_map, List.length_map] at hparts
    exact readBack_array (readBack_literals items hitems fuel hitem) hstart hparts
  | .map entries, hentries, fuel + 1, hfuel => by
    have hstart := entryLiterals_start entries
    have hlength : (Sql.joined ", " (entryLiterals entries)).chars.length < fuel := by
      have hchars := congrArg List.length (chars_map entries [])
      simp only [List.length_append, List.length_cons, List.length_nil] at hchars
      omega
    obtain ⟨hparts, hentry⟩ := lt_of_length_joined hstart hlength
    rw [length_entryLiterals] at hparts
    exact readBack_map (readBack_entryLiterals entries hentries fuel hentry) hstart hparts

theorem readBack_literals : ∀ (vs : List Value), ItemsPlain vs → ∀ fuel,
    (∀ part ∈ literals vs, part.chars.length < fuel) →
    List.Forall₂ (ReadBack (readUpTo fuel)) vs (literals vs)
  | [], _, _, _ => .nil
  | v :: vs, ⟨hv, hvs⟩, fuel, hfuel => by
    obtain ⟨hfirst, hrest⟩ := List.forall_mem_cons.mp hfuel
    exact .cons (readBack_literal v hv fuel hfirst) (readBack_literals vs hvs fuel hrest)

theorem readBack_entryLiterals : ∀ (entries : List (String × Value)), EntriesPlain entries →
    ∀ fuel, (∀ part ∈ entryLiterals entries, part.chars.length < fuel) →
    List.Forall₂ (ReadBack (readEntry (readUpTo fuel))) entries (entryLiterals entries)
  | [], _, _, _ => .nil
  | (key, v) :: rest, ⟨hv, hentries⟩, fuel, hfuel => by
    obtain ⟨hfirst, hrest⟩ := List.forall_mem_cons.mp hfuel
    have hvalue : v.literal.chars.length < fuel := by
      simp only [Sql.chars_cons, Sql.chars_append, List.length_append] at hfirst
      omega
    exact .cons (readBack_entry key (readBack_literal v hv fuel hvalue))
      (readBack_entryLiterals rest hentries fuel hrest)

end

theorem toList_literalText (v : Value) : v.literalText.toList = v.literal.chars :=
  String.toList_ofList

theorem read_literalText {v : Value} (hv : v.Plain) {t : List Char} (ht : Delimited t) :
    read (v.literalText.toList ++ t) = some (v, t) := by
  rw [toList_literalText]
  refine readBack_literal v hv _ ?_ t ht
  rw [List.length_append]
  omega

end Value

/-- **Literals are unambiguous.**  A plain value can be cut out of any text that its literal starts,
    if a delimiter follows or nothing does.  So two such texts agree only where the values and what
    follows them do, and each value has a literal of its own. -/
theorem literals_are_unambiguous {v : Value} (hv : v.Plain) {t : List Char} (ht : Delimited t) :
    Value.read (v.literalText.toList ++ t) = some (v, t)
      ∧ (∀ w u, w.Plain → Delimited u →
          (v.literalText.toList ++ t = w.literalText.toList ++ u ↔ v = w ∧ t = u))
      ∧ ∀ w, w.Plain → (v.literalText = w.literalText ↔ v = w) := by
  have hread := Value.read_literalText hv ht
  have hcut : ∀ w u, w.Plain → Delimited u →
      (v.literalText.toList ++ t = w.literalText.toList ++ u ↔ v = w ∧ t = u) := by
    intro w u hw hu
    constructor
    · intro h
      rw [h, Value.read_literalText hw hu] at hread
      obtain ⟨rfl, rfl⟩ := Prod.mk.inj (Option.some.inj hread)
      exact ⟨rfl, rfl⟩
    · rintro ⟨rfl, rfl⟩
      rfl
  refine ⟨hread, hcut, fun w hw => ⟨fun h => ?_, fun h => by rw [h]⟩⟩
  exact ((hcut w t hw ht).mp (by rw [h])).1

/-- Texts that look like the end of a list, like an entry and like a number; a key given twice. -/
theorem literals_are_unambiguous_of_nested :
    let v : Value := .array [.text "a', 1]", .map [("k': ", .int (-42)), ("k': ", .array [])],
      .text "-42", .null]
    let t := ", 'b'] FORMAT x".toList
    v.Plain ∧ Delimited t
      ∧ v.literalText = "['a'', 1]', \x7b'k'': ': -42, 'k'': ': []\x7d, '-42', NULL]"
      ∧ Value.read (v.literalText.toList ++ t) = some (v, t)
      ∧ (∀ w u, w.Plain → Delimited u →
          (v.literalText.toList ++ t = w.literalText.toList ++ u ↔ v = w ∧ t = u))
      ∧ ∀ w, w.Plain → (v.literalText = w.literalText ↔ v = w) := by
  intro v t
  have hv : v.Plain := by simp [v, Value.Plain, ItemsPlain, EntriesPlain]
  have ht : Delimited t := delimited_cons rfl _
  exact ⟨hv, ht, by with_unfolding_all rfl, literals_are_unambiguous hv ht⟩

-- an instant is not plain: its literal is that of a text
example : (Value.instant ⟨0⟩).literalText = (Value.text "1970-01-01 00:00:00").literalText := by
  decide

end SqlLoom
