/-
  How the reader takes the SQL of conditions.

  SQL is put together from parts, and it is read part by part:

  1. The lexemes of two parts are those of the one and of the other, unless a word goes on over the
     seam (`lexemes_append_of_head`, `lexemes_append_of_last`).
  2. Inside a leaf, whatever keeps within its brackets is taken as it is (`Reading.run_leaf`).
  3. `sql.Adds ts` says that reading `sql` where an operand is expected adds the trees `ts` to the
     operands of the group, `sql.ReadsAs t` that reading it in a group of its own gives the tree `t`.
     Each way to put conditions together has one lemma about these two.
-/
import SqlLoom.Proofs.Reader
import SqlLoom.Proofs.WellFormed
import SqlLoom.Statement.ToSql

namespace SqlLoom

open Sql (code)

/-! ## Lexemes of parts -/

/-- Whether a token may be a part of a word. -/
def Token.isLetter : Token → Bool
  | .char c => isWordChar c
  | _ => false

namespace Lexeme

theorem cons_letter {c : Char} (h : isWordChar c = true) (xs : List Lexeme) :
    cons (.char c) xs = consLetter c xs := by
  rw [cons, if_pos h]

theorem cons_mark {c : Char} (h : isWordChar c = false) (xs : List Lexeme) :
    cons (.char c) xs = .mark c :: xs := by
  rw [cons, if_neg (Bool.eq_false_iff.mp h)]

/-- A token that is no letter is a lexeme of its own. -/
theorem cons_break {t : Token} (h : t.isLetter = false) :
    ∃ x, (∀ w, x ≠ word w) ∧ ∀ xs, cons t xs = x :: xs := by
  cases t with
  | text content => exact ⟨.text content, nofun, fun _ => rfl⟩
  | name identifier => exact ⟨.name identifier, nofun, fun _ => rfl⟩
  | char c => exact ⟨.mark c, nofun, cons_mark h⟩

/-- A letter joins a word or is one: either way there is a lexeme first. -/
theorem consLetter_cases (c : Char) (xs : List Lexeme) :
    (∃ w rest, xs = word w :: rest ∧ consLetter c xs = word (c :: w) :: rest)
      ∨ ((∀ w rest, xs ≠ word w :: rest) ∧ consLetter c xs = word [c] :: xs) := by
  cases xs with
  | nil => exact Or.inr ⟨nofun, rfl⟩
  | cons x xs =>
    cases x with
    | word w => exact Or.inl ⟨w, xs, rfl, rfl⟩
    | text content => exact Or.inr ⟨nofun, rfl⟩
    | name identifier => exact Or.inr ⟨nofun, rfl⟩
    | mark d => exact Or.inr ⟨nofun, rfl⟩

/-- What is put in front does not look behind the next lexeme, and not at it unless it is a word. -/
theorem cons_append {ys : List Lexeme} (h : ∀ w rest, ys ≠ word w :: rest) (t : Token)
    (xs : List Lexeme) : cons t (xs ++ ys) = cons t xs ++ ys := by
  cases ht : t.isLetter with
  | false =>
    obtain ⟨x, -, hx⟩ := cons_break ht
    rw [hx, hx]
    rfl
  | true =>
    cases t with
    | text content => exact nomatch ht
    | name identifier => exact nomatch ht
    | char c =>
      rw [cons_letter ht, cons_letter ht]
      rcases consLetter_cases c xs with ⟨w, rest, rfl, hc⟩ | ⟨hxs, hc⟩
      · rw [hc]
        rfl
      · rw [hc]
        -- the letter could only join a word of the second part if the first one were empty
        rcases consLetter_cases c (xs ++ ys) with ⟨w, rest, hword, -⟩ | ⟨-, hc'⟩
        · cases xs with
          | nil => exact absurd hword (h w rest)
          | cons x xs =>
            obtain ⟨rfl, -⟩ := List.cons.inj hword
            exact absurd rfl (hxs w xs)
        · rw [hc']
          rfl

end Lexeme

/-- Lexemes that do not start with a word are not touched by what is put in front of them. -/
theorem foldr_cons_append {ys : List Lexeme} (h : ∀ w rest, ys ≠ .word w :: rest)
    (ts : List Token) : ts.foldr Lexeme.cons ys = lexemes ts ++ ys := by
  induction ts with
  | nil => rfl
  | cons t ts ih =>
    rw [List.foldr_cons, ih, Lexeme.cons_append h]
    rfl

/-- The second part does not start with a letter. -/
theorem lexemes_append_of_head {as bs : List Token} (h : bs.head?.any Token.isLetter = false) :
    lexemes (as ++ bs) = lexemes as ++ lexemes bs := by
  rw [lexemes, List.foldr_append]
  refine foldr_cons_append (fun w rest hword => ?_) as
  cases bs with
  | nil => exact nomatch hword
  | cons t bs =>
    obtain ⟨x, hx, hcons⟩ := Lexeme.cons_break (t := t) h
    rw [List.foldr_cons, hcons] at hword
    exact hx w (List.cons.inj hword).1

/-- The first part does not end with a letter. -/
theorem lexemes_append_of_last {as bs : List Token} (h : as.getLast?.any Token.isLetter = false) :
    lexemes (as ++ bs) = lexemes as ++ lexemes bs := by
  rcases List.eq_nil_or_concat' as with rfl | ⟨as, t, rfl⟩
  · rfl
  · rw [List.getLast?_concat] at h
    obtain ⟨x, -, hcons⟩ := Lexeme.cons_break (t := t) h
    have hall : lexemes (as ++ ([t] ++ bs)) = lexemes as ++ lexemes ([t] ++ bs) :=
      lexemes_append_of_head h
    have hfront : lexemes (as ++ [t]) = lexemes as ++ lexemes [t] := lexemes_append_of_head h
    rw [List.append_assoc, hall, hfront, List.append_assoc]
    show _ ++ Lexeme.cons t (lexemes bs) = _ ++ (Lexeme.cons t [] ++ lexemes bs)
    rw [hcons, hcons]
    rfl

/-- Nothing is lost between tokens and lexemes. -/
theorem chars_lexemes (ts : List Token) :
    (lexemes ts).flatMap Lexeme.chars = ts.flatMap Token.chars := by
  have hstep : ∀ t xs, (Lexeme.cons t xs).flatMap Lexeme.chars
      = t.chars ++ xs.flatMap Lexeme.chars := by
    intro t xs
    cases t with
    | text content => rfl
    | name identifier => rfl
    | char c =>
      cases hc : isWordChar c with
      | false =>
        rw [Lexeme.cons_mark hc]
        rfl
      | true =>
        rw [Lexeme.cons_letter hc]
        rcases Lexeme.consLetter_cases c xs with ⟨w, rest, rfl, h⟩ | ⟨-, h⟩
        · rw [h]
          rfl
        · rw [h]
          rfl
  induction ts with
  | nil => rfl
  | cons t ts ih =>
    show (Lexeme.cons t (lexemes ts)).flatMap Lexeme.chars = _
    rw [hstep, ih, List.flatMap_cons]

/-- A lexeme whose characters, quotes apart, are all good. -/
def Lexeme.MadeOf (good : Char → Prop) : Lexeme → Prop
  | .word letters => ∀ c ∈ letters, good c
  | .mark c => good c
  | _ => True

theorem madeOf_of_mem_lexemes {good : Char → Prop} {ts : List Token}
    (h : ∀ c, .char c ∈ ts → good c) : ∀ x ∈ lexemes ts, x.MadeOf good := by
  induction ts with
  | nil => exact nofun
  | cons t ts ih =>
    have hts := ih fun c hc => h c (List.mem_cons_of_mem _ hc)
    show ∀ x ∈ Lexeme.cons t (lexemes ts), x.MadeOf good
    cases t with
    | text content => exact List.forall_mem_cons.mpr ⟨trivial, hts⟩
    | name identifier => exact List.forall_mem_cons.mpr ⟨trivial, hts⟩
    | char c =>
      have hc : good c := h c List.mem_cons_self
      cases hletter : isWordChar c with
      | false =>
        rw [Lexeme.cons_mark hletter]
        exact List.forall_mem_cons.mpr ⟨hc, hts⟩
      | true =>
        rw [Lexeme.cons_letter hletter]
        rcases Lexeme.consLetter_cases c (lexemes ts) with ⟨w, rest, hw, heq⟩ | ⟨-, heq⟩
        · rw [heq]
          rw [hw] at hts
          obtain ⟨hfirst, hrest⟩ := List.forall_mem_cons.mp hts
          exact List.forall_mem_cons.mpr ⟨List.forall_mem_cons.mpr ⟨hc, hfirst⟩, hrest⟩
        · rw [heq]
          exact List.forall_mem_cons.mpr ⟨List.forall_mem_singleton.mpr hc, hts⟩

/-! ## Inside a leaf -/

namespace Lexeme

/-- The depth of brackets behind a lexeme inside a leaf, if the leaf takes it whatever is awaited. -/
def depthAfter (depth : Nat) (x : Lexeme) : Option Nat :=
  if x = .mark '(' then some (depth + 1)
  else if 0 < depth then some (if x = .mark ')' then depth - 1 else depth)
  else if x.means "BETWEEN" || x.means "AND" || x.means "OR" || decide (x = .mark ')') then none
  else some depth

/-- The depth behind several lexemes. -/
def depthAfterAll : Nat → List Lexeme → Option Nat
  | depth, [] => some depth
  | depth, x :: xs => (x.depthAfter depth).bind (depthAfterAll · xs)

theorem depthAfterAll_append (depth : Nat) (xs ys : List Lexeme) :
    depthAfterAll depth (xs ++ ys) = (depthAfterAll depth xs).bind (depthAfterAll · ys) := by
  induction xs generalizing depth with
  | nil => rfl
  | cons x xs ih =>
    rw [List.cons_append, depthAfterAll, depthAfterAll]
    cases x.depthAfter depth with
    | none => rfl
    | some d => exact ih d

/-- A word does not change the depth of a bracket that is open. -/
theorem depthAfterAll_word (depth : Nat) (w : List Char) (xs : List Lexeme) :
    depthAfterAll (depth + 1) (.word w :: xs) = depthAfterAll (depth + 1) xs := by
  simp [depthAfterAll, depthAfter]

theorem ne_of_isWordChar {c d : Char} (hc : isWordChar c = true) (hd : isWordChar d = false) :
    c ≠ d := by
  rintro rfl
  exact Bool.false_ne_true (hd.symm.trans hc)

/-- Below an open bracket, a mark changes the depth as its token does. -/
theorem depthAfter_mark {c : Char} {depth next : Nat}
    (h : (Token.char c).depthAfter depth = some next) :
    depthAfter (depth + 1) (.mark c) = some (next + 1) := by
  by_cases hopen : c = '('
  · subst hopen
    obtain rfl : depth + 1 = next := Option.some.inj h
    rfl
  by_cases hclose : c = ')'
  · subst hclose
    obtain rfl := Token.depthAfter_close h
    simp [depthAfter]
  · rw [Token.depthAfter_char hopen hclose] at h
    obtain rfl : depth = next := Option.some.inj h
    simp [depthAfter, hopen, hclose]

/-- Below an open bracket, lexemes change the depth as their tokens do. -/
theorem depthAfterAll_lexemes {ts : List Token} {depth depth' : Nat}
    (h : SqlLoom.depthAfter depth ts = some depth') :
    depthAfterAll (depth + 1) (lexemes ts) = some (depth' + 1) := by
  induction ts generalizing depth with
  | nil =>
    obtain rfl : depth = depth' := Option.some.inj h
    rfl
  | cons t ts ih =>
    rw [SqlLoom.depthAfter, Option.bind_eq_some_iff] at h
    obtain ⟨next, ht, hts⟩ := h
    show depthAfterAll (depth + 1) (cons t (lexemes ts)) = _
    cases t with
    | text content =>
      obtain rfl : depth = next := Option.some.inj ht
      simpa [cons, depthAfterAll, depthAfter] using ih hts
    | name identifier =>
      obtain rfl : depth = next := Option.some.inj ht
      simpa [cons, depthAfterAll, depthAfter] using ih hts
    | char c =>
      cases hc : isWordChar c with
      | false =>
        rw [cons_mark hc, depthAfterAll, depthAfter_mark ht]
        exact ih hts
      | true =>
        have hsame : depth = next := by
          rw [Token.depthAfter_char (ne_of_isWordChar hc rfl) (ne_of_isWordChar hc rfl)] at ht
          exact Option.some.inj ht
        subst hsame
        rw [cons_letter hc]
        -- a word counts the same with or without this letter
        rcases consLetter_cases c (lexemes ts) with ⟨w, rest, hw, heq⟩ | ⟨-, heq⟩
        · rw [heq, depthAfterAll_word, ← depthAfterAll_word depth w, ← hw]
          exact ih hts
        · rw [heq, depthAfterAll_word]
          exact ih hts

/-- A lexeme that a leaf takes at any depth. -/
def isMild (x : Lexeme) : Bool :=
  !(x.means "BETWEEN" || x.means "AND" || x.means "OR")
    && decide (x ≠ .mark '(') && decide (x ≠ .mark ')')

theorem depthAfter_of_isMild {x : Lexeme} (h : x.isMild = true) (depth : Nat) :
    x.depthAfter depth = some depth := by
  simp only [isMild, Bool.and_eq_true, Bool.not_eq_true', Bool.or_eq_false_iff,
    decide_eq_true_eq] at h
  obtain ⟨⟨⟨⟨hbetween, hand⟩, hor⟩, hopen⟩, hclose⟩ := h
  simp [depthAfter, hbetween, hand, hor, hopen, hclose]

theorem depthAfterAll_of_isMild {xs : List Lexeme} (h : ∀ x ∈ xs, x.isMild = true) (depth : Nat) :
    depthAfterAll depth xs = some depth := by
  induction xs with
  | nil => rfl
  | cons x xs ih =>
    obtain ⟨hx, hxs⟩ := List.forall_mem_cons.mp h
    rw [depthAfterAll, depthAfter_of_isMild hx]
    exact ih hxs

end Lexeme

namespace Reading

theorem run_append (xs ys : List Lexeme) (r : Reading) :
    run (xs ++ ys) r = (run xs r).bind (run ys) := by
  induction xs generalizing r with
  | nil => rfl
  | cons x xs ih =>
    rw [List.cons_append, run, run, Option.bind_assoc]
    congr 1
    funext s
    exact ih s

/-- One more lexeme of a leaf. -/
theorem step_leaf {outer : List (Nat × Group)} {group : Group} {nots depth depth' : Nat}
    {sofar : List Lexeme} {bounds : Bool} {x : Lexeme} (h : x.depthAfter depth = some depth') :
    step ⟨outer, group, .leaf nots sofar depth bounds⟩ x
      = some ⟨outer, group, .leaf nots (sofar ++ [x]) depth' bounds⟩ := by
  show stepLeaf _ nots sofar depth bounds x = _
  unfold Lexeme.depthAfter at h
  unfold stepLeaf
  -- both ask the same questions in the same order
  split at h
  · rename_i hopen
    obtain rfl := Option.some.inj h
    rw [if_pos hopen]
  · rename_i hopen
    rw [if_neg hopen]
    split at h
    · rename_i hdepth
      obtain rfl := Option.some.inj h
      rw [if_pos hdepth]
    · rename_i hdepth
      rw [if_neg hdepth]
      split at h
      · exact nomatch h
      · rename_i hown
        obtain rfl := Option.some.inj h
        obtain rfl : depth = 0 := by omega
        simp only [Bool.or_eq_true, not_or, Bool.not_eq_true, decide_eq_true_eq] at hown
        obtain ⟨⟨⟨hbetween, hand⟩, hor⟩, hclose⟩ := hown
        simp [hbetween, hand, hor, hclose]

/-- **A leaf takes whatever keeps within its brackets.** -/
theorem run_leaf {outer : List (Nat × Group)} {group : Group} {nots depth depth' : Nat}
    {sofar xs : List Lexeme} {bounds : Bool}
    (h : Lexeme.depthAfterAll depth xs = some depth') :
    run xs ⟨outer, group, .leaf nots sofar depth bounds⟩
      = some ⟨outer, group, .leaf nots (sofar ++ xs) depth' bounds⟩ := by
  induction xs generalizing depth sofar with
  | nil =>
    obtain rfl : depth = depth' := Option.some.inj h
    rw [List.append_nil]
    rfl
  | cons x xs ih =>
    rw [Lexeme.depthAfterAll, Option.bind_eq_some_iff] at h
    obtain ⟨next, hx, hxs⟩ := h
    rw [run, step_leaf hx, Option.bind_some, ih hxs, List.append_assoc]
    rfl

/-! ## Behind an operand -/

variable {r r' : Reading}

/-- A reading that can be settled is complete already or in a leaf that may be closed. -/
theorem settled_cases (h : r.settled = some r') :
    (r.place = .complete ∧ r' = r) ∨ ∃ nots sofar, r.place = .leaf nots sofar 0 false
      ∧ r' = ⟨r.outer, r.group.add (negated nots (.leaf (leafText sofar))), .complete⟩ := by
  unfold settled at h
  split at h
  · rename_i hplace
    exact Or.inl ⟨hplace, (Option.some.inj h).symm⟩
  · rename_i nots sofar hplace
    exact Or.inr ⟨nots, sofar, hplace, (Option.some.inj h).symm⟩
  · exact nomatch h

/-- A connective or a closing bracket ends a leaf. -/
theorem step_of_settled (h : r.settled = some r') {x : Lexeme} (hopen : x ≠ .mark '(')
    (hbetween : x.means "BETWEEN" = false)
    (hends : (x.means "AND" || x.means "OR" || decide (x = .mark ')')) = true) :
    r.step x = r'.connect x := by
  rcases settled_cases h with ⟨hplace, rfl⟩ | ⟨nots, sofar, hplace, -⟩
  · rw [step, hplace]
  · rw [step, hplace]
    show stepLeaf r nots sofar 0 false x = _
    rw [stepLeaf, if_neg hopen, if_neg (by omega), hbetween, Bool.and_false, hends, h]
    rfl

theorem trimmed_append_blank (cs : List Char) : trimmed (cs ++ [' ']) = trimmed cs := by
  simp [trimmed]

/-- A blank does not matter behind an operand. -/
theorem step_blank (h : r.settled = some r') :
    ∃ s, r.step (.mark ' ') = some s ∧ s.settled = some r' := by
  rcases settled_cases h with ⟨hplace, rfl⟩ | ⟨nots, sofar, hplace, rfl⟩
  · refine ⟨r', ?_, h⟩
    rw [step, hplace]
    rfl
  · refine ⟨{ r with place := .leaf nots (sofar ++ [.mark ' ']) 0 false }, ?_, ?_⟩
    · rw [step, hplace]
      rfl
    · have htext : leafText (sofar ++ [.mark ' ']) = leafText sofar := by
        rw [leafText, leafText, List.flatMap_append]
        exact congrArg String.ofList (trimmed_append_blank _)
      show some _ = _
      rw [htext]

end Reading

/-! ## Lexemes of SQL -/

namespace Sql

/-- The lexemes of SQL. -/
def lexemes (sql : Sql) : List Lexeme :=
  SqlLoom.lexemes sql.tokens

/-- Code that starts and ends with something else than a letter: no word goes on over its ends. -/
def IsSeam (s : String) : Prop :=
  s.toList.head?.any (!isWordChar ·) = true ∧ s.toList.getLast?.any (!isWordChar ·) = true

instance (s : String) : Decidable (IsSeam s) :=
  inferInstanceAs (Decidable (_ ∧ _))

theorem tokens_code (s : String) : (code s).tokens = s.toList.map .char :=
  List.append_nil _

theorem IsSeam.head {s : String} (h : IsSeam s) (b : Sql) :
    (code s ++ b).tokens.head?.any Token.isLetter = false := by
  rw [tokens_append, tokens_code]
  cases hs : s.toList with
  | nil =>
    have hnil := h.1
    rw [hs] at hnil
    exact nomatch hnil
  | cons c cs =>
    have hc := h.1
    rw [hs] at hc
    simpa [Token.isLetter] using hc

theorem IsSeam.last {s : String} (h : IsSeam s) (a : Sql) :
    (a ++ code s).tokens.getLast?.any Token.isLetter = false := by
  rw [tokens_append, tokens_code]
  rcases List.eq_nil_or_concat' s.toList with hs | ⟨cs, c, hs⟩
  · have hnil := h.2
    rw [hs] at hnil
    exact nomatch hnil
  · have hc := h.2
    rw [hs, List.getLast?_concat] at hc
    rw [hs, List.map_append, ← List.append_assoc, List.map_singleton, List.getLast?_concat]
    simpa [Token.isLetter] using hc

/-- Two parts, the second of which does not start with a letter. -/
theorem lexemes_seam_head {a b : Sql} (h : b.tokens.head?.any Token.isLetter = false) :
    (a ++ b).lexemes = a.lexemes ++ b.lexemes := by
  rw [lexemes, tokens_append]
  exact lexemes_append_of_head h

/-- Two parts, the first of which does not end with a letter. -/
theorem lexemes_seam_last {a b : Sql} (h : a.tokens.getLast?.any Token.isLetter = false) :
    (a ++ b).lexemes = a.lexemes ++ b.lexemes := by
  rw [lexemes, tokens_append]
  exact lexemes_append_of_last h

theorem lexemes_append_code {s : String} (h : IsSeam s) (a : Sql) :
    (a ++ code s).lexemes = a.lexemes ++ (code s).lexemes := by
  have hhead := h.head []
  rw [List.append_nil] at hhead
  exact lexemes_seam_head hhead

/-- Two parts with a seam between them. -/
theorem lexemes_between {s : String} (h : IsSeam s) (a b : Sql) :
    (a ++ code s ++ b).lexemes = a.lexemes ++ (code s).lexemes ++ b.lexemes := by
  rw [← lexemes_append_code h]
  exact lexemes_seam_last (h.last a)

theorem lexemes_behind {s : String} (h : IsSeam s) (b : Sql) :
    (code s ++ b).lexemes = (code s).lexemes ++ b.lexemes :=
  lexemes_between h [] b

theorem lexemes_inParens (a : Sql) :
    (inParens a).lexemes = .mark '(' :: (a.lexemes ++ [.mark ')']) := by
  have hopen : IsSeam "(" := by decide
  have hclose : IsSeam ")" := by decide
  rw [inParens, lexemes_append_code hclose, lexemes_behind hopen]
  rfl

/-- A leaf takes balanced SQL in brackets. -/
theorem depthAfterAll_inParens {a : Sql} (h : Balanced a) (depth : Nat) :
    Lexeme.depthAfterAll depth (inParens a).lexemes = some depth := by
  have hbody : Lexeme.depthAfterAll (depth + 1) a.lexemes = some (depth + 1) :=
    Lexeme.depthAfterAll_lexemes (h depth)
  have hclose : Lexeme.depthAfterAll (depth + 1) [.mark ')'] = some depth := by
    simp [Lexeme.depthAfterAll, Lexeme.depthAfter]
  rw [lexemes_inParens, Lexeme.depthAfterAll]
  show Lexeme.depthAfterAll (depth + 1) _ = _
  rw [Lexeme.depthAfterAll_append, hbody]
  exact hclose

/-! ## Reading conditions part by part -/

/-- Where an operand is expected, the SQL adds the trees to the operands of the group. -/
def Adds (sql : Sql) (ts : List Tree) : Prop :=
  ∀ outer group, ∃ r, Reading.run sql.lexemes ⟨outer, group, .operand 0⟩ = some r
    ∧ r.settled = some ⟨outer, ⟨group.alternatives, group.operands ++ ts⟩, .complete⟩

/-- In a group of its own, the SQL is read as the tree. -/
def ReadsAs (sql : Sql) (t : Tree) : Prop :=
  ∀ outer, ∃ r group, Reading.run sql.lexemes ⟨outer, {}, .operand 0⟩ = some r
    ∧ r.settled = some ⟨outer, group, .complete⟩ ∧ group.tree = t

theorem Adds.readsAs {sql : Sql} {ts : List Tree} (h : Adds sql ts) :
    ReadsAs sql (.conjunction ts) := by
  intro outer
  obtain ⟨r, hrun, hsettled⟩ := h outer {}
  exact ⟨r, _, hrun, hsettled, rfl⟩

/-- A connective between operands, with its blanks. -/
theorem run_connective {r r' s : Reading} (h : r.settled = some r') {x : Lexeme}
    (hopen : x ≠ .mark '(') (hbetween : x.means "BETWEEN" = false)
    (hends : (x.means "AND" || x.means "OR" || decide (x = .mark ')')) = true)
    (hs : r'.connect x = some s) (hplace : s.place = .operand 0) :
    Reading.run [.mark ' ', x, .mark ' '] r = some s := by
  obtain ⟨r₁, hblank, hsettled⟩ := Reading.step_blank h
  have hx : r₁.step x = some s := (Reading.step_of_settled hsettled hopen hbetween hends).trans hs
  have hback : s.step (.mark ' ') = some s := by
    obtain ⟨outer, group, place⟩ := s
    obtain rfl : place = .operand 0 := hplace
    rfl
  rw [Reading.run, hblank, Option.bind_some, Reading.run, hx, Option.bind_some, Reading.run, hback]
  rfl

/-- AND puts operands next to each other. -/
theorem Adds.and {a b : Sql} {ts us : List Tree} (ha : Adds a ts) (hb : Adds b us) :
    Adds (a ++ code " AND " ++ b) (ts ++ us) := by
  intro outer group
  obtain ⟨r, hrun, hsettled⟩ := ha outer group
  have hand : Reading.run (code " AND ").lexemes r
      = some ⟨outer, ⟨group.alternatives, group.operands ++ ts⟩, .operand 0⟩ :=
    run_connective (x := .word ['A', 'N', 'D']) hsettled (by decide) (by decide) (by decide) rfl rfl
  obtain ⟨s, hrun', hsettled'⟩ := hb outer ⟨group.alternatives, group.operands ++ ts⟩
  refine ⟨s, ?_, ?_⟩
  · rw [lexemes_between (by decide), Reading.run_append, Reading.run_append, hrun, Option.bind_some,
      hand]
    exact hrun'
  · rw [hsettled', List.append_assoc]

/-- Parts joined by AND. -/
theorem adds_joined_and {parts : List Sql} {tss : List (List Tree)}
    (h : List.Forall₂ Adds parts tss) (hne : parts ≠ []) :
    Adds (joined " AND " parts) tss.flatten := by
  -- the last part has no AND behind it, so two parts are looked at
  induction h with
  | nil => exact absurd rfl hne
  | @cons part ts parts tss hpart hparts ih =>
    cases hparts with
    | nil => simpa [joined] using hpart
    | cons hnext hrest =>
      rw [joined, List.intercalate_cons_cons, List.flatten_cons]
      exact hpart.and (ih (List.cons_ne_nil _ _))

/-- Parts joined by OR are the alternatives of a group, behind those that it has. -/
theorem run_joined_or {parts : List Sql} {tss : List (List Tree)}
    (h : List.Forall₂ Adds parts tss) (hne : parts ≠ []) (outer : List (Nat × Group))
    (alternatives : List Tree) :
    ∃ r group, Reading.run (joined " OR " parts).lexemes ⟨outer, ⟨alternatives, []⟩, .operand 0⟩
        = some r
      ∧ r.settled = some ⟨outer, group, .complete⟩
      ∧ group.tree = .disjunction (alternatives ++ tss.map .conjunction) := by
  -- what is read of the group so far is one more alternative for the parts that are left
  induction h generalizing alternatives with
  | nil => exact absurd rfl hne
  | @cons part ts parts tss hpart hparts ih =>
    obtain ⟨r, hrun, hsettled⟩ := hpart outer ⟨alternatives, []⟩
    cases hparts with
    | nil =>
      refine ⟨r, _, ?_, hsettled, rfl⟩
      rw [joined, List.intercalate_singleton]
      exact hrun
    | @cons next us rest uss hnext hrest =>
      have hor : Reading.run (code " OR ").lexemes r
          = some ⟨outer, ⟨alternatives ++ [.conjunction ts], []⟩, .operand 0⟩ :=
        run_connective (x := .word ['O', 'R']) hsettled (by decide) (by decide) (by decide) rfl rfl
      obtain ⟨s, group, hrun', hsettled', htree⟩ :=
        ih (List.cons_ne_nil _ _) (alternatives ++ [.conjunction ts])
      refine ⟨s, group, ?_, hsettled', ?_⟩
      · rw [joined, List.intercalate_cons_cons, lexemes_between (by decide), Reading.run_append,
          Reading.run_append, hrun, Option.bind_some, hor]
        exact hrun'
      · rw [htree, List.append_assoc]
        rfl

theorem readsAs_joined_or {parts : List Sql} {tss : List (List Tree)}
    (h : List.Forall₂ Adds parts tss) (hne : parts ≠ []) :
    ReadsAs (joined " OR " parts) (.disjunction (tss.map .conjunction)) :=
  fun outer => run_joined_or h hne outer []

/-- A closing bracket ends the group, and with it the operand of the NOTs in front of it. -/
theorem run_inParens {a : Sql} {t : Tree} (h : ReadsAs a t) (outer : List (Nat × Group))
    (group : Group) (nots : Nat) :
    Reading.run (inParens a).lexemes ⟨outer, group, .operand nots⟩
      = some ⟨outer, group.add (negated nots t), .complete⟩ := by
  obtain ⟨r, inner, hrun, hsettled, rfl⟩ := h ((nots, group) :: outer)
  have hclose : r.step (.mark ')') = some ⟨outer, group.add (negated nots inner.tree), .complete⟩ :=
    Reading.step_of_settled hsettled (by decide) (by decide) (by decide)
  rw [lexemes_inParens, Reading.run]
  -- the bracket puts the group and the NOTs aside
  show Reading.run (a.lexemes ++ [.mark ')']) ⟨(nots, group) :: outer, {}, .operand 0⟩ = _
  rw [Reading.run_append, hrun, Option.bind_some, Reading.run, hclose]
  rfl

theorem ReadsAs.inParens {a : Sql} {t : Tree} (h : ReadsAs a t) : Adds (inParens a) [t] :=
  fun outer group => ⟨_, run_inParens h outer group 0, rfl⟩

/-- NOT and a group. -/
theorem ReadsAs.not {a : Sql} {t : Tree} (h : ReadsAs a t) :
    Adds (code "NOT " ++ Sql.inParens a) [.not t] := by
  intro outer group
  refine ⟨⟨outer, group.add (.not t), .complete⟩, ?_, rfl⟩
  -- behind the NOT, the blank is kept in case that EXISTS follows; the bracket shows that it does not
  have hseam : (code "NOT " ++ Sql.inParens a).lexemes
      = .word ['N', 'O', 'T'] :: .mark ' ' :: (Sql.inParens a).lexemes := by
    rw [lexemes_seam_last (by decide)]
    rfl
  rw [hseam, lexemes_inParens]
  have hbody := run_inParens h outer group 1
  rw [lexemes_inParens] at hbody
  exact hbody

/-- **A text with the tokens of a condition is read as its tree.** -/
theorem readCondition_of_readsAs {sql : Sql} {t : Tree} (h : ReadsAs sql t) {cs : List Char}
    (hlex : lex cs = some sql.tokens) : readCondition cs = some t := by
  obtain ⟨r, group, hrun, hsettled, rfl⟩ := h []
  have hrun' : Reading.run (SqlLoom.lexemes sql.tokens) ⟨[], {}, .operand 0⟩ = some r := hrun
  rw [readCondition, hlex]
  show ((Reading.run (SqlLoom.lexemes sql.tokens) ⟨[], {}, .operand 0⟩).bind _) = _
  rw [hrun']
  show r.settled.bind _ = _
  rw [hsettled]
  rfl

end Sql

end SqlLoom
