/-
  String literals, read by a server that knows backslash escapes.

  The library doubles the quotes of a text and leaves its backslashes alone.  ClickHouse reads two
  things inside a literal: a doubled quote, and a backslash with the character behind it.  So a
  text with backslashes may be read as another text, or its literal may end too early:

      text          literal         read as       what is left
      50\% off      '50\% off'      50\% off
      C:\new        'C:\new'        C:, newline, ew
      \' OR 1 --    '\'' OR 1 --'   '              OR 1 --'

  Which characters have a meaning behind a backslash is the server's affair and a parameter here
  (`Escapes`); only that a backslash and a quote stand for themselves is used.

  1. A text is INERT when each of its backslashes is followed by a character that has no meaning
     there.  The literal of an inert text is read back (`read_of_inert`).
  2. No other text is (`inert_of_read`).  A backslash before the end of the text or before a quote
     makes the reader run past the end of the literal or stop inside; any other one that is not
     inert costs a character, and no later part of the text makes up for it.
-/
import SqlLoom.Sql

namespace SqlLoom

/-! ## The reader -/

/-- What a server makes of the character behind a backslash. -/
structure Escapes where
  /-- The character that is meant, if there is one. -/
  meaning : Char → Option Char
  slash : meaning '\\' = some '\\'
  quote : meaning '\'' = some '\''

namespace Escapes

/-- The escapes of ClickHouse that are one character long. -/
def clickHouse : Escapes where
  meaning c :=
    if c = '\\' ∨ c = '\'' then some c
    else if c = 'b' then some '\x08'
    else if c = 'f' then some '\x0c'
    else if c = 'r' then some '\x0d'
    else if c = 'n' then some '\x0a'
    else if c = 't' then some '\x09'
    else if c = '0' then some '\x00'
    else if c = 'a' then some '\x07'
    else if c = 'v' then some '\x0b'
    else none
  slash := rfl
  quote := rfl

/-- What a backslash with `c` behind it stands for.  Where `c` has no meaning, both stay. -/
def escaped (e : Escapes) (c : Char) : List Char :=
  match e.meaning c with
  | some d => [d]
  | none => ['\\', c]

/-- Where the reader is: inside of the literal, behind a quote that ends it unless another one
    follows, or behind a backslash. -/
inductive Mode where
  | body
  | quoted
  | slashed

/-- Adds to what is read, and leaves the rest. -/
def push (front : List Char) (r : List Char × List Char) : List Char × List Char :=
  (front ++ r.1, r.2)

/-- What is read up to the end of the literal, and what is left behind it. -/
def read (e : Escapes) : Mode → List Char → Option (List Char × List Char)
  | .body, [] => none
  | .body, c :: rest =>
    if c = '\'' then read e .quoted rest
    else if c = '\\' then read e .slashed rest
    else (read e .body rest).map (push [c])
  | .quoted, [] => some ([], [])
  | .quoted, c :: rest =>
    if c = '\'' then (read e .body rest).map (push [c]) else some ([], c :: rest)
  | .slashed, [] => none
  | .slashed, c :: rest => (read e .body rest).map (push (e.escaped c))

/-- Reads a literal, from its opening quote on. -/
def readLiteral (e : Escapes) : List Char → Option (List Char × List Char)
  | [] => none
  | c :: rest => if c = '\'' then e.read .body rest else none

/-! ## Texts that are read back -/

/-- Each backslash has a character behind it, and one that means nothing there. -/
def Inert (e : Escapes) : List Char → Prop
  | [] => True
  | c :: rest => (c = '\\' → ∃ d ∈ rest.head?, e.meaning d = none) ∧ Inert e rest

-- the instance for the next character is named; the one found by itself goes through all there are
instance decidableInert (e : Escapes) : DecidablePred e.Inert
  | [] => isTrue trivial
  | _ :: rest =>
    letI := Option.decidableExistsMem (p := (e.meaning · = none)) rest.head?
    @instDecidableAnd _ _ inferInstance (decidableInert e rest)

variable {e : Escapes}

/-- The two characters that the reader looks for always mean something. -/
theorem ne_of_meaning_eq_none {c : Char} (h : e.meaning c = none) : c ≠ '\\' ∧ c ≠ '\'' := by
  constructor
  · rintro rfl
    rw [e.slash] at h
    exact nomatch h
  · rintro rfl
    rw [e.quote] at h
    exact nomatch h

/-- Behind the end of a literal no quote follows, and so it is its end. -/
theorem read_quoted {t : List Char} (ht : t.head? ≠ some '\'') :
    e.read .quoted t = some ([], t) := by
  cases t with
  | nil => rfl
  | cons c t =>
    have hc : c ≠ '\'' := fun hc => ht (by rw [hc]; rfl)
    rw [read, if_neg hc]

/-- An inert text is read back, and so is one that starts behind a backslash. -/
theorem read_of_inert {s t : List Char} (ht : t.head? ≠ some '\'') :
    (e.Inert s → e.read .body (doubleQuotes s ++ '\'' :: t) = some (s, t))
      ∧ (e.Inert ('\\' :: s) →
          e.read .slashed (doubleQuotes s ++ '\'' :: t) = some ('\\' :: s, t)) := by
  induction s with
  | nil =>
    constructor
    · intro _
      exact read_quoted ht
    · rintro ⟨hslash, -⟩
      obtain ⟨d, hd, -⟩ := hslash rfl
      exact nomatch hd
  | cons c s ih =>
    obtain ⟨ihbody, ihslashed⟩ := ih
    constructor
    · intro hs
      by_cases hquote : c = '\''
      · subst hquote
        simp [doubleQuotes, read, ihbody hs.2, push]
      · by_cases hslash : c = '\\'
        · subst hslash
          simp [doubleQuotes, read, ihslashed hs]
        · simp [doubleQuotes, read, hquote, hslash, ihbody hs.2, push]
    · rintro ⟨hslash, -, hs⟩
      obtain ⟨d, hd, hmeaning⟩ := hslash rfl
      obtain rfl : c = d := Option.some.inj hd
      have hquote := (ne_of_meaning_eq_none hmeaning).2
      simp [doubleQuotes, read, hquote, ihbody hs, push, escaped, hmeaning]

/-! ## No other text is -/

/-- What is added in front does not change what is left. -/
theorem map_push_eq_some {front : List Char} {x : Option (List Char × List Char)}
    {out rest : List Char} (h : x.map (push front) = some (out, rest)) :
    ∃ out', x = some (out', rest) ∧ out = front ++ out' := by
  obtain ⟨⟨out', rest'⟩, hx, heq⟩ := Option.map_eq_some_iff.mp h
  obtain ⟨rfl, rfl⟩ := Prod.mk.inj heq
  exact ⟨out', hx, rfl⟩

/-- How many characters a literal still needs to end. -/
def Mode.needs : Mode → Nat
  | body => 1
  | quoted => 0
  | slashed => 2

/-- Reading goes forward. -/
theorem length_le_of_read {m : Mode} {cs out rest : List Char}
    (h : e.read m cs = some (out, rest)) : rest.length + m.needs ≤ cs.length := by
  induction cs generalizing m out with
  | nil =>
    cases m with
    | body => exact nomatch h
    | quoted =>
      obtain ⟨-, rfl⟩ := Prod.mk.inj (Option.some.inj h)
      exact Nat.le_refl 0
    | slashed => exact nomatch h
  | cons c cs ih =>
    have hpush : ∀ front, (e.read .body cs).map (push front) = some (out, rest) →
        rest.length + 1 ≤ cs.length := by
      intro front hfront
      obtain ⟨out', hread, -⟩ := map_push_eq_some hfront
      exact ih hread
    simp only [List.length_cons]
    cases m with
    | body =>
      rw [read] at h
      split at h
      · exact Nat.succ_le_succ (ih h)
      · split at h
        · have := ih h
          simp only [Mode.needs] at this ⊢
          omega
        · have := hpush _ h
          simp only [Mode.needs]
          omega
    | quoted =>
      rw [read] at h
      split at h
      · have := hpush _ h
        simp only [Mode.needs]
        omega
      · obtain ⟨-, rfl⟩ := Prod.mk.inj (Option.some.inj h)
        exact Nat.le_refl _
    | slashed =>
      have := hpush _ h
      simp only [Mode.needs]
      omega

/-- Nothing that is read ends in front of where it starts. -/
theorem read_body_ne {t out : List Char} : e.read .body t ≠ some (out, t) := by
  intro h
  have := length_le_of_read h
  simp only [Mode.needs] at this
  omega

/-- A quote in front of the literal's body puts the reader out of step with the doubled quotes: it
    takes the end for half of a doubled one, or stops before it. -/
theorem read_quote_ne {s t out : List Char} :
    e.read .body ('\'' :: (doubleQuotes s ++ '\'' :: t)) ≠ some (out, t) := by
  induction s generalizing out with
  | nil =>
    intro h
    obtain ⟨out', hread, -⟩ := map_push_eq_some h
    exact read_body_ne hread
  | cons c s ih =>
    intro h
    by_cases hquote : c = '\''
    · subst hquote
      simp only [doubleQuotes, if_true, List.cons_append] at h
      obtain ⟨out', hread, -⟩ := map_push_eq_some h
      exact ih hread
    · simp only [doubleQuotes, hquote, if_false, List.cons_append, read, if_true] at h
      obtain ⟨-, hrest⟩ := Prod.mk.inj (Option.some.inj h)
      have := congrArg List.length hrest
      simp only [List.length_cons, List.length_append] at this
      omega

theorem length_escaped_le (c : Char) : (e.escaped c).length ≤ 2 := by
  unfold escaped
  cases e.meaning c with
  | none => exact Nat.le_refl 2
  | some d => exact Nat.le_succ 1

theorem meaning_eq_none_of_length {c : Char} (h : (e.escaped c).length = 2) :
    e.meaning c = none := by
  unfold escaped at h
  cases hc : e.meaning c with
  | none => rfl
  | some d => simp [hc] at h

/-- Where the reader stops at the end of the literal it has read no more than the text, and the
    whole length of it only if the text is inert. -/
theorem inert_of_read {s t : List Char} (ht : t.head? ≠ some '\'') :
    (∀ out, e.read .body (doubleQuotes s ++ '\'' :: t) = some (out, t) →
        out.length ≤ s.length ∧ (out.length = s.length → e.Inert s))
      ∧ ∀ out, e.read .slashed (doubleQuotes s ++ '\'' :: t) = some (out, t) →
        out.length ≤ s.length + 1 ∧ (out.length = s.length + 1 → e.Inert ('\\' :: s)) := by
  induction s with
  | nil =>
    constructor
    · intro out h
      have hread : e.read .quoted t = some (out, t) := h
      rw [read_quoted ht] at hread
      obtain ⟨rfl, -⟩ := Prod.mk.inj (Option.some.inj hread)
      exact ⟨Nat.le_refl 0, fun _ => trivial⟩
    · intro out h
      -- the quote at the end is taken for a quote of the text
      obtain ⟨out', hread, -⟩ := map_push_eq_some h
      exact absurd hread read_body_ne
  | cons c s ih =>
    obtain ⟨ihbody, ihslashed⟩ := ih
    have hplain : c ≠ '\\' → ∀ out, (e.read .body (doubleQuotes s ++ '\'' :: t)).map (push [c])
        = some (out, t) →
        out.length ≤ s.length + 1 ∧ (out.length = s.length + 1 → e.Inert (c :: s)) := by
      intro hslash out h
      obtain ⟨out', hread, rfl⟩ := map_push_eq_some h
      obtain ⟨hle, hinert⟩ := ihbody out' hread
      refine ⟨Nat.succ_le_succ hle, fun hlength => ⟨fun hc => absurd hc hslash, ?_⟩⟩
      exact hinert (Nat.succ.inj hlength)
    constructor
    · intro out h
      by_cases hquote : c = '\''
      · subst hquote
        simp only [doubleQuotes, if_true, List.cons_append] at h
        exact hplain (by decide) out h
      · by_cases hslash : c = '\\'
        · subst hslash
          exact ihslashed out h
        · simp only [doubleQuotes, hquote, hslash, if_false, List.cons_append, read] at h
          exact hplain hslash out h
    · intro out h
      by_cases hquote : c = '\''
      · subst hquote
        simp only [doubleQuotes, if_true, List.cons_append] at h
        obtain ⟨out', hread, -⟩ := map_push_eq_some h
        exact absurd hread read_quote_ne
      · simp only [doubleQuotes, hquote, if_false, List.cons_append] at h
        obtain ⟨out', hread, rfl⟩ := map_push_eq_some h
        obtain ⟨hle, hinert⟩ := ihbody out' hread
        have htwo := e.length_escaped_le c
        simp only [List.length_append, List.length_cons]
        refine ⟨by omega, fun hlength => ?_⟩
        have hmeaning : e.meaning c = none := meaning_eq_none_of_length (by omega)
        refine ⟨fun _ => ⟨c, rfl, hmeaning⟩, fun hslash => ?_, hinert (by omega)⟩
        exact absurd hslash (ne_of_meaning_eq_none hmeaning).1

end Escapes

/-! ## The literal of a text -/

theorem toList_quoteText (s : String) :
    (quoteText s).toList = '\'' :: (doubleQuotes s.toList ++ ['\'']) := by
  rw [quoteText, Sql.text, String.toList_ofList]
  exact List.append_nil _

/-- **A literal is read as its text exactly when the text is inert.** -/
theorem literal_read_back_iff_inert (e : Escapes) (s : String) (t : List Char)
    (ht : t.head? ≠ some '\'') :
    e.readLiteral ((quoteText s).toList ++ t) = some (s.toList, t) ↔ e.Inert s.toList := by
  have hread : e.readLiteral ((quoteText s).toList ++ t)
      = e.read .body (doubleQuotes s.toList ++ '\'' :: t) := by
    rw [toList_quoteText, List.cons_append, List.append_assoc]
    rfl
  rw [hread]
  constructor
  · intro h
    exact ((Escapes.inert_of_read ht).1 s.toList h).2 rfl
  · exact (Escapes.read_of_inert ht).1

theorem literal_read_back_of_pattern :
    (" AND".toList.head? ≠ some '\'')
      ∧ Escapes.clickHouse.readLiteral ((quoteText "it's 50\\% off").toList ++ " AND".toList)
        = some ("it's 50\\% off".toList, " AND".toList) :=
  ⟨by decide, (literal_read_back_iff_inert Escapes.clickHouse "it's 50\\% off" " AND".toList
    (by decide)).mpr (by decide)⟩

/-- A text can end its own literal: a backslash in front of a quote takes the first half of the
    doubled quote, and the second half is the end.  What follows is read as SQL. -/
theorem literal_closed_from_inside :
    Escapes.clickHouse.readLiteral ((quoteText "\\' OR 1 -- ").toList ++ [])
        = some ("'".toList, " OR 1 -- '".toList)
      ∧ Escapes.clickHouse.readLiteral ((quoteText "\\' OR 1 -- ").toList ++ [])
        ≠ some ("\\' OR 1 -- ".toList, []) := by
  decide

end SqlLoom
