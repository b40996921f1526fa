/-
  Well-formed SQL: it can be read back, and its round brackets are balanced.

  SQL is put together from parts with code between them, so one lemma for each way to put parts
  together is enough; `Sql.Lexable` and `Sql.Balanced` both pass through all of them.  Here they are
  proved for what is written without looking into a query: literals, lists of them, clauses, tests
  and calls.
-/
import SqlLoom.Proofs.Literal
import SqlLoom.Proofs.Token
import SqlLoom.Statement.ToSql

namespace SqlLoom

open Sql (code)

/-! ## Brackets -/

/-- The depth of round brackets behind a token, if none is closed that was not opened. -/
def Token.depthAfter (depth : Nat) : Token → Option Nat
  | .char '(' => some (depth + 1)
  | .char ')' => if depth = 0 then none else some (depth - 1)
  | _ => some depth

/-- The depth behind several tokens. -/
def depthAfter : Nat → List Token → Option Nat
  | depth, [] => some depth
  | depth, t :: ts => (t.depthAfter depth).bind (depthAfter · ts)

theorem depthAfter_append (depth : Nat) (ts us : List Token) :
    depthAfter depth (ts ++ us) = (depthAfter depth ts).bind (depthAfter · us) := by
  induction ts generalizing depth with
  | nil => rfl
  | cons t ts ih =>
    rw [List.cons_append, depthAfter, depthAfter]
    cases t.depthAfter depth with
    | none => rfl
    | some d => exact ih d

/-- Characters other than round brackets do not change the depth. -/
theorem Token.depthAfter_char {c : Char} (hopen : c ≠ '(') (hclose : c ≠ ')') (depth : Nat) :
    (Token.char c).depthAfter depth = some depth := by
  unfold Token.depthAfter
  split
  · rename_i heq
    exact absurd (Token.char.inj heq) hopen
  · rename_i heq
    exact absurd (Token.char.inj heq) hclose
  · rfl

/-- A bracket that may be closed is open. -/
theorem Token.depthAfter_close {depth next : Nat}
    (h : (Token.char ')').depthAfter depth = some next) : depth = next + 1 := by
  rw [Token.depthAfter] at h
  split at h
  · exact nomatch h
  · have hnext : depth - 1 = next := Option.some.inj h
    omega

theorem depthAfter_chars {cs : List Char} (h : ∀ c ∈ cs, c ≠ '(' ∧ c ≠ ')') (depth : Nat) :
    depthAfter depth (cs.map .char) = some depth := by
  induction cs with
  | nil => rfl
  | cons c cs ih =>
    obtain ⟨⟨hopen, hclose⟩, hcs⟩ := List.forall_mem_cons.mp h
    rw [List.map_cons, depthAfter, Token.depthAfter_char hopen hclose]
    exact ih hcs

namespace Sql

/-- The depth behind SQL is the depth in front of it. -/
def Balanced (sql : Sql) : Prop :=
  ∀ depth, depthAfter depth sql.tokens = some depth

theorem balanced_nil : Balanced [] :=
  fun _ => rfl

theorem Balanced.append {a b : Sql} (ha : Balanced a) (hb : Balanced b) : Balanced (a ++ b) := by
  intro depth
  rw [tokens_append, depthAfter_append, ha depth]
  exact hb depth

/-- Code with one more opened bracket, a balanced part, and code that closes the bracket. -/
theorem balanced_between {left right : String} {body : Sql}
    (hleft : ∀ depth, depthAfter depth (code left).tokens = some (depth + 1))
    (hbody : Balanced body)
    (hright : ∀ depth, depthAfter (depth + 1) (code right).tokens = some depth) :
    Balanced (code left ++ body ++ code right) := by
  intro depth
  rw [tokens_append, tokens_append, depthAfter_append, depthAfter_append, hleft]
  show ((depthAfter (depth + 1) body.tokens).bind _) = _
  rw [hbody]
  exact hright depth

theorem Balanced.inParens {body : Sql} (h : Balanced body) : Balanced (inParens body) :=
  balanced_between (fun _ => rfl) h (fun _ => rfl)

/-! ## Code -/

/-- A word of code: it can be read back and has no round brackets. -/
def IsWord (s : String) : Prop :=
  s ≠ "" ∧ ∀ c ∈ s.toList, (c ≠ '\'' ∧ c ≠ '\x60') ∧ c ≠ '(' ∧ c ≠ ')'

instance (s : String) : Decidable (IsWord s) :=
  @instDecidableAnd _ _ inferInstance (List.decidableBAll _ s.toList)

theorem IsWord.lexes {s : String} (h : IsWord s) : (Piece.code s).Lexes :=
  ⟨h.1, fun c hc => (h.2 c hc).1⟩

theorem IsWord.balanced {s : String} (h : IsWord s) : Balanced (code s) := by
  intro depth
  have htokens : (code s).tokens = s.toList.map .char := List.append_nil _
  rw [htokens, depthAfter_chars fun c hc => (h.2 c hc).2]

/-! ## Putting parts together -/

theorem lexable_nil : Lexable [] :=
  ⟨nofun, List.isChain_nil⟩

theorem lexable_code {s : String} (h : (Piece.code s).Lexes) : Lexable (code s) :=
  ⟨fun _ hp => by rw [List.mem_singleton.mp hp]; exact h, List.isChain_singleton _⟩

/-- Two parts with no text on at least one side of the seam. -/
theorem Lexable.append {a b : Sql} (ha : Lexable a) (hb : Lexable b)
    (hseam : (∀ p ∈ a.getLast?, p.isText = false) ∨ ∀ p ∈ b.head?, p.isText = false) :
    Lexable (a ++ b) := by
  -- only the pieces at the seam are new neighbours
  refine ⟨fun p hp => ?_, List.isChain_append.mpr ⟨ha.2, hb.2, fun p hp q hq => ?_⟩⟩
  · rcases List.mem_append.mp hp with hp | hp
    · exact ha.1 p hp
    · exact hb.1 p hp
  · rcases hseam with h | h
    · exact Or.inl (h p hp)
    · exact Or.inr (h q hq)

theorem Lexable.append_code {a : Sql} {s : String} (ha : Lexable a) (hs : (Piece.code s).Lexes) :
    Lexable (a ++ code s) := by
  refine ha.append (lexable_code hs) (Or.inr fun p hp => ?_)
  obtain rfl : Piece.code s = p := Option.some.inj hp
  rfl

/-- Two parts with code between them. -/
theorem Lexable.append_code_append {a b : Sql} {s : String} (ha : Lexable a)
    (hs : (Piece.code s).Lexes) (hb : Lexable b) : Lexable (a ++ code s ++ b) := by
  refine (ha.append_code hs).append hb (Or.inl fun p hp => ?_)
  rw [code, List.getLast?_append, List.getLast?_singleton, Option.some_or] at hp
  obtain rfl : Piece.code s = p := Option.some.inj hp
  rfl

/-- SQL that can be read back and is balanced. -/
structure WellFormed (sql : Sql) : Prop where
  lexable : Lexable sql
  balanced : Balanced sql

theorem wellFormed_nil : WellFormed [] :=
  ⟨lexable_nil, balanced_nil⟩

theorem wellFormed_word {s : String} (h : IsWord s) : WellFormed (code s) :=
  ⟨lexable_code h.lexes, h.balanced⟩

theorem wellFormed_name (s : String) : WellFormed [.name s] := by
  refine ⟨⟨fun p hp => ?_, List.isChain_singleton _⟩, fun _ => rfl⟩
  rw [List.mem_singleton.mp hp]
  trivial

/-- A part with a word behind it. -/
theorem WellFormed.append_word {a : Sql} {s : String} (ha : WellFormed a) (hs : IsWord s) :
    WellFormed (a ++ code s) :=
  ⟨ha.lexable.append_code hs.lexes, ha.balanced.append hs.balanced⟩

/-- Two parts with a word between them. -/
theorem WellFormed.append_word_append {a b : Sql} {s : String} (ha : WellFormed a) (hs : IsWord s)
    (hb : WellFormed b) : WellFormed (a ++ code s ++ b) :=
  ⟨ha.lexable.append_code_append hs.lexes hb.lexable,
    (ha.balanced.append hs.balanced).append hb.balanced⟩

/-- A word with a part behind it. -/
theorem WellFormed.word_append {b : Sql} {s : String} (hs : IsWord s) (hb : WellFormed b) :
    WellFormed (code s ++ b) :=
  wellFormed_nil.append_word_append hs hb

/-- A part that may stand behind any other: it is well-formed, and empty or led by something else than
    a text. -/
structure Trailing (sql : Sql) : Prop where
  wellFormed : WellFormed sql
  start : ∀ p ∈ sql.head?, p.isText = false

theorem trailing_nil : Trailing [] :=
  ⟨wellFormed_nil, nofun⟩

/-- A part led by a word. -/
theorem WellFormed.trailing {b : Sql} {s : String} (hb : WellFormed b) (hs : IsWord s) :
    Trailing (code s ++ b) := by
  refine ⟨hb.word_append hs, fun p hp => ?_⟩
  obtain rfl : Piece.code s = p := Option.some.inj hp
  rfl

theorem WellFormed.append {a b : Sql} (ha : WellFormed a) (hb : Trailing b) :
    WellFormed (a ++ b) :=
  ⟨ha.lexable.append hb.wellFormed.lexable (Or.inr hb.start),
    ha.balanced.append hb.wellFormed.balanced⟩

theorem Trailing.append {a b : Sql} (ha : Trailing a) (hb : Trailing b) : Trailing (a ++ b) := by
  refine ⟨ha.wellFormed.append hb, fun p hp => ?_⟩
  cases a with
  | nil => exact hb.start p hp
  | cons q a => exact ha.start p hp

/-- Parts one behind the other. -/
theorem trailing_flatten {parts : List Sql} (h : ∀ part ∈ parts, Trailing part) :
    Trailing parts.flatten := by
  induction parts with
  | nil => exact trailing_nil
  | cons part parts ih =>
    obtain ⟨hpart, hparts⟩ := List.forall_mem_cons.mp h
    exact hpart.append (ih hparts)

theorem WellFormed.inParens {body : Sql} (h : WellFormed body) : WellFormed (inParens body) := by
  have hopen : (Piece.code "(").Lexes := by decide
  have hclose : (Piece.code ")").Lexes := by decide
  exact ⟨(lexable_nil.append_code_append hopen h.lexable).append_code hclose, h.balanced.inParens⟩

/-- Parts joined by a word. -/
theorem wellFormed_joined {separator : String} (hs : IsWord separator) {parts : List Sql}
    (h : ∀ part ∈ parts, WellFormed part) : WellFormed (joined separator parts) := by
  induction parts with
  | nil => exact wellFormed_nil
  | cons part parts ih =>
    obtain ⟨hpart, hparts⟩ := List.forall_mem_cons.mp h
    cases parts with
    | nil =>
      rw [joined, List.intercalate_singleton]
      exact hpart
    | cons next parts =>
      rw [joined, List.intercalate_cons_cons]
      exact hpart.append_word_append hs (ih hparts)

/-! ## What is passed through

  A fragment that is passed through unchanged may hold anything, and SQL with it is not well-formed
  by itself.  What can be said of such SQL is said with something else in the place of the fragment;
  nothing that the library writes around it depends on what that is. -/

/-- The SQL with `put s` in the place of each fragment `s` that is passed through. -/
def replaced (put : String → Sql) (sql : Sql) : Sql :=
  sql.flatMap fun
    | .verbatim source => put source
    | p => [p]

section Replaced

variable (put : String → Sql)

@[simp] theorem replaced_nil : replaced put [] = [] := rfl

@[simp] theorem replaced_append (a b : Sql) :
    replaced put (a ++ b) = replaced put a ++ replaced put b :=
  List.flatMap_append

@[simp] theorem replaced_code (s : String) : replaced put (code s) = code s := rfl

@[simp] theorem replaced_name (s : String) : replaced put [.name s] = [.name s] := rfl

theorem replaced_verbatim (s : String) : replaced put [.verbatim s] = put s :=
  List.append_nil _

@[simp] theorem replaced_inParens (a : Sql) :
    replaced put (inParens a) = inParens (replaced put a) := by
  simp only [inParens, replaced_append, replaced_code]

@[simp] theorem replaced_joined (separator : String) (parts : List Sql) :
    replaced put (joined separator parts) = joined separator (parts.map (replaced put)) := by
  induction parts with
  | nil => rfl
  | cons part parts ih =>
    cases parts with
    | nil => simp only [joined, List.map_cons, List.map_nil, List.intercalate_singleton]
    | cons next parts =>
      simp only [joined, List.map_cons, List.intercalate_cons_cons, replaced_append,
        replaced_code] at ih ⊢
      rw [ih]

@[simp] theorem replaced_flatten (parts : List Sql) :
    replaced put parts.flatten = (parts.map (replaced put)).flatten := by
  induction parts with
  | nil => rfl
  | cons part parts ih => simp only [List.flatten_cons, List.map_cons, replaced_append, ih]

/-- There is nothing to replace in SQL that can be read back. -/
theorem replaced_of_lexable {sql : Sql} (h : Lexable sql) : replaced put sql = sql := by
  have hpiece : ∀ p ∈ sql, (match p with
      | .verbatim source => put source
      | p => [p]) = [p] := by
    intro p hp
    cases p with
    | verbatim source => exact (h.1 _ hp).elim
    | code | name | text => rfl
  exact (List.flatMap_congr hpiece).trans (List.flatMap_singleton' sql)

end Replaced

/-- A fragment MASKED: a text may hold anything, too, and no two of them are neighbours.  Where no
    fragments are allowed, they stay what they are. -/
def mask (fragments : Bool) (s : String) : Sql :=
  if fragments then [.text s] else [.verbatim s]

theorem replaced_mask_false (sql : Sql) : replaced (mask false) sql = sql := by
  have hpiece : ∀ p ∈ sql, (match p with
      | .verbatim source => mask false source
      | p => [p]) = [p] := by
    intro p _
    cases p <;> rfl
  exact (List.flatMap_congr hpiece).trans (List.flatMap_singleton' sql)

end Sql

open Sql

/-! ## Words that depend on the query -/

/-- Text without a quote or a bracket is a word. -/
theorem isWord_of_all {s : String} {good : Char → Bool} (hne : s ≠ "")
    (hgood : ∀ c ∈ s.toList, good c = true) (hquote : good '\'' = false)
    (htick : good '\x60' = false) (hopen : good '(' = false) (hclose : good ')' = false) :
    IsWord s := by
  have hother : ∀ c ∈ s.toList, ∀ d, good d = false → c ≠ d := by
    rintro c hc d hd rfl
    exact Bool.false_ne_true (hd.symm.trans (hgood c hc))
  exact ⟨hne, fun c hc => ⟨⟨hother c hc _ hquote, hother c hc _ htick⟩, hother c hc _ hopen,
    hother c hc _ hclose⟩⟩

theorem isWord_of_number {s : String} (h : IsNumberText s.toList) : IsWord s :=
  isWord_of_all (fun hs => h.1 (by rw [hs]; rfl)) h.2 rfl rfl rfl rfl

/-- A letter that may start a simple identifier may also stand inside it. -/
theorem Identifier.isTail_of_isHead {c : Char} (h : isHead c = true) : isTail c = true := by
  rw [isHead, Bool.or_eq_true] at h
  rw [isTail, Char.isAlphanum, Bool.or_eq_true, Bool.or_eq_true]
  rcases h with h | h
  · exact Or.inl (Or.inl h)
  · exact Or.inr h

theorem Identifier.isTail_of_isSimple {s : String} (h : isSimple s = true) :
    s ≠ "" ∧ ∀ c ∈ s.toList, isTail c = true := by
  unfold isSimple at h
  refine ⟨fun hs => ?_, fun c hc => ?_⟩
  · rw [hs] at h
    exact nomatch h
  · cases hchars : s.toList with
    | nil =>
      rw [hchars] at hc
      exact absurd hc List.not_mem_nil
    | cons d ds =>
      rw [hchars] at h hc
      obtain ⟨hhead, htail⟩ := Bool.and_eq_true_iff.mp h
      rcases List.mem_cons.mp hc with rfl | hc
      · exact isTail_of_isHead hhead
      · exact List.all_eq_true.mp htail c hc

theorem isWord_of_isSimple {s : String} (h : Identifier.isSimple s = true) : IsWord s := by
  obtain ⟨hne, hchars⟩ := Identifier.isTail_of_isSimple h
  exact isWord_of_all hne hchars rfl rfl rfl rfl

theorem isNumberChar_of_isDigits {cs : List Char} (h : Identifier.isDigits cs = true) :
    IsNumberText cs := by
  obtain ⟨hne, hdigits⟩ := Bool.and_eq_true_iff.mp h
  refine ⟨fun hnil => ?_, fun c hc => isNumberChar_of_isDigit (List.all_eq_true.mp hdigits c hc)⟩
  rw [hnil] at hne
  exact nomatch hne

/-- A name that passes as a number is written with the characters of numbers. -/
theorem isNumberText_of_isNumber {cs : List Char} (h : Identifier.isNumber cs = true) :
    IsNumberText cs := by
  -- digits, and perhaps a point and more digits
  unfold Identifier.isNumber at h
  split at h
  · rename_i front hsplit
    rw [← Identifier.eq_of_splitAtDot_none hsplit]
    exact isNumberChar_of_isDigits h
  · rename_i front back hsplit
    obtain ⟨hfront, hback⟩ := Bool.and_eq_true_iff.mp h
    rw [← Identifier.append_of_splitAtDot hsplit]
    refine isNumberText_append (isNumberChar_of_isDigits hfront) fun c hc => ?_
    rcases List.mem_cons.mp hc with rfl | hc
    · rfl
    · exact (isNumberChar_of_isDigits hback).2 c hc

/-! ## Literals -/

theorem wellFormed_text (s : String) : WellFormed [.text s] := by
  refine ⟨⟨fun p hp => ?_, List.isChain_singleton _⟩, fun _ => rfl⟩
  rw [List.mem_singleton.mp hp]
  trivial

theorem Binary64.wellFormed_literal (x : Binary64) : WellFormed x.literal := by
  unfold literal
  split
  · exact wellFormed_word (by decide)
  · exact wellFormed_text _
  · refine wellFormed_word (isWord_of_number ?_)
    rw [String.toList_ofList]
    exact isNumberText_literalDigits _ _ _

namespace Value

mutual

theorem wellFormed_literal : ∀ v : Value, WellFormed v.literal
  | .null => wellFormed_word (by decide)
  | .bool true => wellFormed_word (by decide)
  | .bool false => wellFormed_word (by decide)
  | .int n => wellFormed_word (isWord_of_number (isNumberText_decimalInt _))
  | .float x => x.wellFormed_literal
  | .text s => wellFormed_text s
  | .instant t => wellFormed_text _
  | .array items => by
    have hitems : WellFormed (joined ", " (literals items)) :=
      wellFormed_joined (by decide) (wellFormed_literals items)
    exact (hitems.word_append (s := "[") (by decide)).append_word (by decide)
  | .map entries => by
    have hentries : WellFormed (joined ", " (entryLiterals entries)) :=
      wellFormed_joined (by decide) (wellFormed_entryLiterals entries)
    exact (hentries.word_append (s := "\x7b") (by decide)).append_word (by decide)

theorem wellFormed_literals : ∀ vs : List Value, ∀ part ∈ literals vs, WellFormed part
  | [], part, hpart => absurd hpart List.not_mem_nil
  | v :: vs, part, hpart => by
    rcases List.mem_cons.mp hpart with rfl | hpart
    · exact wellFormed_literal v
    · exact wellFormed_literals vs part hpart

theorem wellFormed_entryLiterals :
    ∀ entries : List (String × Value), ∀ part ∈ entryLiterals entries, WellFormed part
  | [], part, hpart => absurd hpart List.not_mem_nil
  | (key, v) :: rest, part, hpart => by
    rcases List.mem_cons.mp hpart with rfl | hpart
    · exact (wellFormed_text key).append_word_append (by decide) (wellFormed_literal v)
    · exact wellFormed_entryLiterals rest part hpart

end

theorem wellFormed_tupleLiteral (vs : List Value) : WellFormed (tupleLiteral vs) := by
  refine (wellFormed_joined (by decide) fun part hpart => ?_).inParens
  obtain ⟨v, -, rfl⟩ := List.mem_map.mp hpart
  exact wellFormed_literal v

end Value

end SqlLoom
