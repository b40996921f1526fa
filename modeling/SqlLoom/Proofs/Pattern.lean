/-
  What a LIKE pattern matches, and that fragments match literally.

  A pattern is read from left to right, and each part of it takes something off the front of the
  text:

      %        any text, also none at all
      _        any one character
      \c       the character c
      c        itself, for every other character

  so a pattern that ends with a lone backslash matches nothing.  `Like.Matches` says this as a
  relation, `Like.accepts` tries the ways to read it one after the other, and both agree.

  1. `matches_percent`            — a `%` in front leaves any end of the text to what is behind it.
  2. `matches_escapeChars_append` — an escaped fragment takes exactly itself off the front, whatever
     pattern follows it.  This is the induction; it is on the fragment, and the pattern behind it is
     a variable, so that a backslash at the end of the fragment can be seen not to reach into it.
  3. `fragments_match_literally`  — the four helpers from these two.
-/
import Mathlib.Data.List.Infix
import SqlLoom.Condition.Like

namespace SqlLoom

namespace Like

/-! ## Matching -/

/-- The text as a whole is what the pattern asks for. -/
inductive Matches : List Char → List Char → Prop where
  | done : Matches [] []
  | anyText {p s : List Char} (front : List Char) (h : Matches p s) :
      Matches ('%' :: p) (front ++ s)
  | anyChar {p s : List Char} (c : Char) (h : Matches p s) : Matches ('_' :: p) (c :: s)
  | escaped {p s : List Char} (c : Char) (h : Matches p s) : Matches ('\\' :: c :: p) (c :: s)
  | plain {p s : List Char} {c : Char} (hc : isSpecial c = false) (h : Matches p s) :
      Matches (c :: p) (c :: s)

/-- Tries the pattern on the text, perhaps behind a backslash; `%` is tried with each end of it. -/
def accepts : Bool → List Char → List Char → Bool
  | slashed, [], s => !slashed && s.isEmpty
  | true, c :: p, s => s.head? == some c && accepts false p s.tail
  | false, c :: p, s =>
    if c = '%' then s.tails.any (accepts false p)
    else if c = '_' then !s.isEmpty && accepts false p s.tail
    else if c = '\\' then accepts true p s
    else s.head? == some c && accepts false p s.tail

/-! ### One part of a pattern -/

theorem matches_nil {s : List Char} : Matches [] s ↔ s = [] := by
  constructor
  · intro h
    cases h
    rfl
  · rintro rfl
    exact .done

/-- A `%` in front takes any front part of the text. -/
theorem matches_percent {p s : List Char} : Matches ('%' :: p) s ↔ ∃ t, t <:+ s ∧ Matches p t := by
  constructor
  · intro h
    cases h with
    | anyText front h => exact ⟨_, List.suffix_append front _, h⟩
    | plain hc h => exact nomatch hc
  · rintro ⟨t, ⟨front, rfl⟩, h⟩
    exact .anyText front h

/-- A `_` in front takes a character. -/
theorem matches_underscore {p s : List Char} :
    Matches ('_' :: p) s ↔ ∃ c t, s = c :: t ∧ Matches p t := by
  constructor
  · intro h
    cases h with
    | anyChar c h => exact ⟨c, _, rfl, h⟩
    | plain hc h => exact nomatch hc
  · rintro ⟨c, t, rfl, h⟩
    exact .anyChar c h

/-- A backslash in front and the character behind it take that character. -/
theorem matches_escaped {c : Char} {p s : List Char} :
    Matches ('\\' :: c :: p) s ↔ ∃ t, s = c :: t ∧ Matches p t := by
  constructor
  · intro h
    cases h with
    | escaped c h => exact ⟨_, rfl, h⟩
    | plain hc h => exact nomatch hc
  · rintro ⟨t, rfl, h⟩
    exact .escaped c h

/-- With nothing behind it, a backslash matches nothing. -/
theorem not_matches_slash {s : List Char} : ¬ Matches ['\\'] s := by
  intro h
  cases h with
  | plain hc h => exact nomatch hc

/-- Any other character takes itself. -/
theorem matches_plain {c : Char} (hc : isSpecial c = false) {p s : List Char} :
    Matches (c :: p) s ↔ ∃ t, s = c :: t ∧ Matches p t := by
  constructor
  · intro h
    cases h with
    | anyText front h => exact nomatch hc
    | anyChar c h => exact nomatch hc
    | escaped c h => exact nomatch hc
    | plain hc h => exact ⟨_, rfl, h⟩
  · rintro ⟨t, rfl, h⟩
    exact .plain hc h

/-! ### Trying is matching -/

theorem isSpecial_iff {c : Char} : isSpecial c = true ↔ c = '%' ∨ c = '_' ∨ c = '\\' := by
  simp [isSpecial, or_assoc]

/-- The front of a text and what is behind it. -/
theorem head?_and_tail {c : Char} {s : List Char} {P : List Char → Prop} :
    s.head? = some c ∧ P s.tail ↔ ∃ t, s = c :: t ∧ P t := by
  cases s with
  | nil => simp
  | cons d s => simp

/-- Trying a pattern finds out whether it matches, also when a backslash was read already. -/
theorem accepts_iff (p s : List Char) :
    (accepts false p s = true ↔ Matches p s)
      ∧ (accepts true p s = true ↔ Matches ('\\' :: p) s) := by
  induction p generalizing s with
  | nil =>
    constructor
    · rw [accepts, matches_nil, Bool.not_false, Bool.true_and, List.isEmpty_iff]
    · exact iff_of_false Bool.false_ne_true not_matches_slash
  | cons c p ih =>
    have htake : (s.head? == some c && accepts false p s.tail) = true
        ↔ ∃ t, s = c :: t ∧ Matches p t := by
      rw [Bool.and_eq_true, beq_iff_eq, (ih s.tail).1, head?_and_tail]
    refine ⟨?_, htake.trans matches_escaped.symm⟩
    rw [accepts]
    split
    case isTrue hc =>
      subst hc
      simp only [List.any_eq_true, List.mem_tails, (ih _).1, matches_percent]
    split
    case isTrue hc =>
      subst hc
      cases s with
      | nil => simp [matches_underscore]
      | cons d s => simp [matches_underscore, (ih s).1]
    split
    case isTrue hc =>
      subst hc
      exact (ih s).2
    case isFalse hpercent hunderscore hslash =>
      have hc : isSpecial c = false := by
        rw [Bool.eq_false_iff, Ne, isSpecial_iff]
        exact fun h => h.elim hpercent fun h => h.elim hunderscore hslash
      exact htake.trans (matches_plain hc).symm

instance (p s : List Char) : Decidable (Matches p s) :=
  decidable_of_iff _ (accepts_iff p s).1

/-! ## Fragments -/

/-- An escaped fragment takes itself off the front, whatever pattern is behind it. -/
theorem matches_escapeChars_append {f p s : List Char} :
    Matches (escapeChars f ++ p) s ↔ ∃ t, s = f ++ t ∧ Matches p t := by
  induction f generalizing s with
  | nil => simp [escapeChars]
  | cons c f ih =>
    have hstep : Matches (escapeChars (c :: f) ++ p) s
        ↔ ∃ t, s = c :: t ∧ Matches (escapeChars f ++ p) t := by
      cases hc : isSpecial c with
      | true =>
        rw [escapeChars, if_pos hc]
        exact matches_escaped
      | false =>
        rw [escapeChars, if_neg (by rw [hc]; exact Bool.false_ne_true)]
        exact matches_plain hc
    rw [hstep]
    constructor
    · rintro ⟨t, rfl, h⟩
      obtain ⟨u, rfl, hu⟩ := ih.mp h
      exact ⟨u, rfl, hu⟩
    · rintro ⟨u, rfl, hu⟩
      exact ⟨f ++ u, rfl, ih.mpr ⟨u, rfl, hu⟩⟩

theorem toList_escape (fragment : String) :
    (escape fragment).toList = escapeChars fragment.toList :=
  String.toList_ofList

/-- With nothing behind it, an escaped fragment matches itself only. -/
theorem matches_escapeChars {f s : List Char} : Matches (escapeChars f) s ↔ s = f := by
  rw [← List.append_nil (escapeChars f), matches_escapeChars_append]
  simp only [matches_nil, exists_eq_right, List.append_nil]

/-- A `%` on its own matches every text. -/
theorem matches_any (s : List Char) : Matches ['%'] s :=
  matches_percent.mpr ⟨[], List.nil_suffix, .done⟩

/-- A fragment with a `%` behind it matches what starts with it. -/
theorem matches_escapeChars_percent {f s : List Char} :
    Matches (escapeChars f ++ ['%']) s ↔ f <+: s := by
  rw [matches_escapeChars_append]
  constructor
  · rintro ⟨t, rfl, -⟩
    exact List.prefix_append f t
  · rintro ⟨t, rfl⟩
    exact ⟨t, rfl, matches_any t⟩

end Like

namespace Operator

/-- The pattern of a LIKE test. -/
def pattern? : Operator → Option String
  | ⟨.like, .value (.text pattern)⟩ => some pattern
  | _ => none

/-- The LIKE test holds of a text. -/
def Finds (op : Operator) (subject : String) : Prop :=
  ∃ pattern, op.pattern? = some pattern ∧ Like.Matches pattern.toList subject.toList

theorem finds_like {pattern subject : String} :
    (like pattern).Finds subject ↔ Like.Matches pattern.toList subject.toList := by
  simp [Finds, like, pattern?]

theorem finds_startsWith {fragment subject : String} :
    (startsWith fragment).Finds subject ↔ fragment.toList <+: subject.toList := by
  rw [startsWith, finds_like, String.toList_append, Like.toList_escape]
  exact Like.matches_escapeChars_percent

theorem finds_endsWith {fragment subject : String} :
    (endsWith fragment).Finds subject ↔ fragment.toList <:+ subject.toList := by
  rw [endsWith, finds_like, String.toList_append, Like.toList_escape]
  show Like.Matches ('%' :: Like.escapeChars fragment.toList) subject.toList ↔ _
  simp only [Like.matches_percent, Like.matches_escapeChars, exists_eq_right]

theorem finds_contains {fragment subject : String} :
    (contains fragment).Finds subject ↔ fragment.toList <:+: subject.toList := by
  rw [contains, finds_like, String.toList_append, String.toList_append, Like.toList_escape,
    List.append_assoc]
  show Like.Matches ('%' :: (Like.escapeChars fragment.toList ++ ['%'])) subject.toList ↔ _
  simp only [Like.matches_percent, Like.matches_escapeChars_percent, List.infix_iff_prefix_suffix,
    and_comm]

end Operator

/-- **Fragments match literally.**  Whatever wildcards and backslashes are in a fragment,
    `startsWith` asks whether a text begins with it, `endsWith` whether it ends with it, `contains`
    whether it occurs in it, and the escaped fragment alone matches nothing but the fragment. -/
theorem fragments_match_literally (fragment subject : String) :
    ((Operator.startsWith fragment).Finds subject ↔ fragment.toList <+: subject.toList)
      ∧ ((Operator.endsWith fragment).Finds subject ↔ fragment.toList <:+ subject.toList)
      ∧ ((Operator.contains fragment).Finds subject ↔ fragment.toList <:+: subject.toList)
      ∧ (Like.Matches (Like.escape fragment).toList subject.toList ↔ subject = fragment) := by
  refine ⟨Operator.finds_startsWith, Operator.finds_endsWith, Operator.finds_contains, ?_⟩
  rw [Like.toList_escape, Like.matches_escapeChars, String.toList_inj]

-- without the escape, the underscore would match the hyphen
example : ¬ (Operator.startsWith "a_").Finds "a-b" := by
  rw [Operator.startsWith, Operator.finds_like]
  decide

end SqlLoom
