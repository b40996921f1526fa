/-
  What literals are made of.

  Strings are text pieces; all else in a literal is code that the library writes: digits, a few
  words, and the punctuation of arrays and maps.  The characters of that code are a short list
  (`isLiteralChar`), which has no quote, no round bracket and none of the letters that the keywords
  of conditions start with.  So a literal never looks like anything but a literal.
-/
import SqlLoom.Value.Literal

namespace SqlLoom

/-! ## Digits -/

/-- The characters of numbers. -/
def isNumberChar (c : Char) : Bool :=
  c.isDigit || c == '.' || c == 'e' || c == '+' || c == '-'

/-- One or more characters of a number. -/
def IsNumberText (cs : List Char) : Prop :=
  cs ≠ [] ∧ ∀ c ∈ cs, isNumberChar c = true

theorem isNumberChar_of_isDigit {c : Char} (h : c.isDigit = true) : isNumberChar c = true := by
  rw [isNumberChar, h]
  rfl

theorem isNumberText_decimalDigits (n : Nat) : IsNumberText (decimalDigits n) :=
  ⟨Nat.toDigits_ne_nil, fun _ hc =>
    isNumberChar_of_isDigit (Nat.isDigit_of_mem_toDigits (by decide) (by decide) hc)⟩

theorem isNumberText_append {cs ds : List Char} (hcs : IsNumberText cs)
    (hds : ∀ c ∈ ds, isNumberChar c = true) : IsNumberText (cs ++ ds) := by
  refine ⟨fun h => hcs.1 (List.append_eq_nil_iff.mp h).1, fun c hc => ?_⟩
  rcases List.mem_append.mp hc with hc | hc
  · exact hcs.2 c hc
  · exact hds c hc

theorem isNumberText_cons {c : Char} {cs : List Char} (hc : isNumberChar c = true)
    (hcs : ∀ d ∈ cs, isNumberChar d = true) : IsNumberText (c :: cs) :=
  ⟨List.cons_ne_nil _ _, List.forall_mem_cons.mpr ⟨hc, hcs⟩⟩

theorem isNumberChar_of_mem_zeros {n : Nat} {c : Char} (h : c ∈ List.replicate n '0') :
    isNumberChar c = true := by
  rw [List.eq_of_mem_replicate h]
  rfl

theorem isNumberChar_of_mem_paddedDigits {width n : Nat} {c : Char} (h : c ∈ paddedDigits width n) :
    isNumberChar c = true := by
  rcases List.mem_append.mp h with h | h
  · exact isNumberChar_of_mem_zeros h
  · exact (isNumberText_decimalDigits n).2 c h

theorem Decimal.isNumberText_positional (d : Decimal) : IsNumberText d.positional := by
  have hdigits := isNumberText_decimalDigits d.digits
  unfold positional
  simp only
  split
  · exact isNumberText_append hdigits fun c hc => isNumberChar_of_mem_zeros hc
  · split
    · rename_i hplaces hlt
      -- the point stands among the digits, so there is one in front of it
      have htake : (decimalDigits d.digits).take ((decimalDigits d.digits).length
          - (-d.exponent).toNat) ≠ [] := by
        rw [Ne, List.take_eq_nil_iff]
        rintro (h | h)
        · omega
        · exact hdigits.1 h
      refine isNumberText_append ⟨htake, fun c hc => hdigits.2 c (List.mem_of_mem_take hc)⟩ ?_
      intro c hc
      rcases List.mem_cons.mp hc with rfl | hc
      · rfl
      · exact hdigits.2 c (List.mem_of_mem_drop hc)
    · refine isNumberText_cons rfl fun c hc => ?_
      rcases List.mem_cons.mp hc with rfl | hc
      · rfl
      · rcases List.mem_append.mp hc with hc | hc
        · exact isNumberChar_of_mem_zeros hc
        · exact hdigits.2 c hc

theorem Decimal.isNumberText_scientific (d : Decimal) : IsNumberText d.scientific := by
  have hdigits := isNumberText_decimalDigits d.digits
  have hexponent : ∀ c ∈ 'e' :: (if d.leading < 0 then '-' else '+')
      :: paddedDigits 2 d.leading.natAbs, isNumberChar c = true := by
    intro c hc
    rcases List.mem_cons.mp hc with rfl | hc
    · rfl
    · rcases List.mem_cons.mp hc with rfl | hc
      · split <;> rfl
      · exact isNumberChar_of_mem_paddedDigits hc
  unfold scientific
  simp only
  split
  · rename_i h
    exact absurd h hdigits.1
  · rename_i first h
    rw [h] at hdigits
    exact isNumberText_append hdigits hexponent
  -- the point stands behind the first digit
  · rename_i first rest _ h
    rw [h] at hdigits
    refine isNumberText_append (isNumberText_cons (hdigits.2 first List.mem_cons_self) ?_) hexponent
    intro c hc
    rcases List.mem_cons.mp hc with rfl | hc
    · rfl
    · exact hdigits.2 c (List.mem_cons_of_mem _ hc)

theorem isNumberText_signed {negative : Bool} {cs : List Char} (h : IsNumberText cs) :
    IsNumberText (signed negative cs) := by
  cases negative with
  | false => exact h
  | true => exact isNumberText_cons rfl h.2

theorem isNumberText_literalDigits (negative : Bool) (significand : Nat) (exponent : Int) :
    IsNumberText (Binary64.literalDigits negative significand exponent) := by
  refine isNumberText_signed ?_
  split
  · exact isNumberText_cons rfl nofun
  · simp only
    split
    · exact Decimal.isNumberText_scientific _
    · split
      · exact isNumberText_decimalDigits _
      · exact Decimal.isNumberText_positional _

theorem isNumberText_decimalInt (n : Int) : IsNumberText (decimalInt n).toList := by
  unfold decimalInt
  split
  · rw [String.toList_ofList]
    exact isNumberText_cons rfl (isNumberText_decimalDigits _).2
  · rw [String.toList_ofList]
    exact isNumberText_decimalDigits _

/-! ## Pieces of literals -/

/-- The characters of the code in literals. -/
def isLiteralChar (c : Char) : Bool :=
  isNumberChar c || "NULLtruefalse[]\x7b\x7d:, ".toList.contains c

/-- A text, or code that may stand in a literal. -/
def Piece.IsLiteral : Piece → Prop
  | .text _ => True
  | .code s => s ≠ "" ∧ ∀ c ∈ s.toList, isLiteralChar c = true
  | .name _ => False
  | .verbatim _ => False

instance : DecidablePred Piece.IsLiteral
  | .text _ => isTrue trivial
  | .code s => @instDecidableAnd _ _ inferInstance (List.decidableBAll _ s.toList)
  | .name _ => isFalse id
  | .verbatim _ => isFalse id

theorem Piece.isLiteral_code_of_number {cs : List Char} (h : IsNumberText cs) :
    (code (String.ofList cs)).IsLiteral := by
  refine ⟨fun hs => h.1 ?_, fun c hc => ?_⟩
  · rw [← String.toList_ofList (l := cs), hs]
    rfl
  · rw [String.toList_ofList] at hc
    rw [isLiteralChar, h.2 c hc]
    rfl

/-- What stands in a joined list is a separator or stands in one of the parts. -/
theorem Sql.mem_joined {separator : String} {parts : List Sql} {p : Piece}
    (h : p ∈ joined separator parts) : p = .code separator ∨ ∃ part ∈ parts, p ∈ part := by
  induction parts with
  | nil => exact absurd h List.not_mem_nil
  | cons part parts ih =>
    cases parts with
    | nil =>
      rw [joined, List.intercalate_singleton] at h
      exact Or.inr ⟨part, List.mem_cons_self, h⟩
    | cons next parts =>
      rw [joined, List.intercalate_cons_cons, List.mem_append, List.mem_append] at h
      rcases h with (h | h) | h
      · exact Or.inr ⟨part, List.mem_cons_self, h⟩
      · exact Or.inl (List.mem_singleton.mp h)
      · rcases ih h with h | ⟨q, hq, h⟩
        · exact Or.inl h
        · exact Or.inr ⟨q, List.mem_cons_of_mem _ hq, h⟩

namespace Value

/-- Code that is given outright: the words and the punctuation of literals. -/
theorem isLiteral_word {s : String} {p : Piece} (hs : (Piece.code s).IsLiteral)
    (hp : p ∈ Sql.code s) : p.IsLiteral := by
  rw [List.mem_singleton.mp hp]
  exact hs

theorem isLiteral_joined {parts : List Sql} (h : ∀ part ∈ parts, ∀ p ∈ part, Piece.IsLiteral p) :
    ∀ p ∈ Sql.joined ", " parts, p.IsLiteral := by
  intro p hp
  rcases Sql.mem_joined hp with rfl | ⟨part, hpart, hp⟩
  · decide
  · exact h part hpart p hp

mutual

/-- A literal is made of texts and of code for literals. -/
theorem isLiteral_of_mem_literal : ∀ (v : Value), ∀ p ∈ v.literal, p.IsLiteral
  | .null, p, hp => isLiteral_word (by decide) hp
  | .bool true, p, hp => isLiteral_word (by decide) hp
  | .bool false, p, hp => isLiteral_word (by decide) hp
  | .int n, p, hp => by
    have h := Piece.isLiteral_code_of_number (isNumberText_decimalInt n.toInt)
    rw [String.ofList_toList] at h
    exact isLiteral_word h hp
  | .float x, p, hp => by
    rw [literal, Binary64.literal] at hp
    split at hp
    · exact isLiteral_word (by decide) hp
    · rw [List.mem_singleton.mp hp]
      trivial
    · exact isLiteral_word (Piece.isLiteral_code_of_number (isNumberText_literalDigits _ _ _)) hp
  | .text s, p, hp => by rw [List.mem_singleton.mp hp]; trivial
  | .instant t, p, hp => by rw [List.mem_singleton.mp hp]; trivial
  | .array items, p, hp => by
    rw [literal, List.mem_append, List.mem_append] at hp
    rcases hp with (hp | hp) | hp
    · exact isLiteral_word (by decide) hp
    · exact isLiteral_joined (isLiteral_of_mem_literals items) p hp
    · exact isLiteral_word (by decide) hp
  | .map entries, p, hp => by
    rw [literal, List.mem_append, List.mem_append] at hp
    rcases hp with (hp | hp) | hp
    · exact isLiteral_word (by decide) hp
    · exact isLiteral_joined (isLiteral_of_mem_entryLiterals entries) p hp
    · exact isLiteral_word (by decide) hp

theorem isLiteral_of_mem_literals :
    ∀ (vs : List Value), ∀ part ∈ literals vs, ∀ p ∈ part, Piece.IsLiteral p
  | [], part, hpart => absurd hpart List.not_mem_nil
  | v :: vs, part, hpart => by
    rcases List.mem_cons.mp hpart with rfl | hpart
    · exact isLiteral_of_mem_literal v
    · exact isLiteral_of_mem_literals vs part hpart

theorem isLiteral_of_mem_entryLiterals :
    ∀ (entries : List (String × Value)), ∀ part ∈ entryLiterals entries, ∀ p ∈ part,
      Piece.IsLiteral p
  | [], part, hpart => absurd hpart List.not_mem_nil
  | (key, v) :: rest, part, hpart => by
    rcases List.mem_cons.mp hpart with rfl | hpart
    · intro p hp
      rcases List.mem_cons.mp hp with rfl | hp
      · trivial
      · rcases List.mem_append.mp hp with hp | hp
        · exact isLiteral_word (by decide) hp
        · exact isLiteral_of_mem_literal v p hp
    · exact isLiteral_of_mem_entryLiterals rest part hpart

end

end Value

end SqlLoom
