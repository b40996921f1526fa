/-
  Where an operand is missing in SQL.

  The pieces are read from left to right, and at each seam it is known what is due there (`Due`):

      nothing   at the start, and behind a bracket where no operand is due
      met       behind an operand, and behind any other text
      operand   behind a keyword of a condition, behind NOT and behind AND and OR;
                a bracket does not change that, nor does an empty fragment
      gap       an operand was due and something else came, or AND or OR came
                where no operand was

  SQL is GAPLESS when neither a gap was found nor an operand is still due at the end.

  The SQL of a part is described by what it does at the seam in front of it.  Each description has a
  proposition `R` that says when there is no gap in the part:

      Settles due R    is an operand, read where `due` is due: a condition, a side of a test
      Keeps R          may be read wherever no operand is due: an expression, a SELECT
      Follows R        may stand behind anything, and a gap before it stays one: a clause

  For each of them there is a lemma about SQL one behind the other, in brackets and joined, so that
  the propositions of the parts add up to that of the whole.
-/
import Mathlib.Data.List.Forall2
import Mathlib.Data.List.Induction
import SqlLoom.Proofs.Literal

namespace SqlLoom

namespace Sql

/-! ## Reading -/

/-- What is due at a seam between two pieces. -/
inductive Due where
  | nothing
  | met
  | operand
  | gap
  deriving DecidableEq, Repr

/-- Code that joins two operands. -/
def connectives : List String :=
  [" AND ", " OR "]

/-- Code in front of a condition. -/
def keywords : List String :=
  [" WHERE ", " PREWHERE ", " HAVING ", " ON ", " WHEN "]

/-- No operand begins with this code. -/
def closes (word : String) : Bool :=
  word.toList.head?.any (" ),".toList.contains ·)

/-- What is due behind a piece. -/
def Due.step : Due → Piece → Due
  | .gap, _ => .gap
  | due, .code word =>
    if word = "" then due
    else if word = "(" then if due = .operand then .operand else .nothing
    else if word = "NOT " then .operand
    else if word ∈ connectives then if due = .met then .operand else .gap
    -- a clause, a comma or a bracket that closes, where an operand should be
    else if due = .operand ∧ closes word then .gap
    else if word ∈ keywords then .operand
    else .met
  | due, .verbatim text => if text = "" then due else .met
  | _, .name _ => .met
  | _, .text _ => .met

/-- What is due behind SQL. -/
def run (due : Due) (sql : Sql) : Due :=
  sql.foldl Due.step due

/-- No operand is due, and none was missing. -/
def Due.Calm (due : Due) : Prop :=
  due = .nothing ∨ due = .met

instance (due : Due) : Decidable due.Calm :=
  inferInstanceAs (Decidable (_ ∨ _))

/-- **An operand stands wherever one is due.** -/
def Gapless (sql : Sql) : Prop :=
  (run .nothing sql).Calm

instance (sql : Sql) : Decidable (Gapless sql) :=
  inferInstanceAs (Decidable (Due.Calm _))

theorem run_append (due : Due) (a b : Sql) : run due (a ++ b) = run (run due a) b :=
  List.foldl_append

@[simp] theorem run_singleton (due : Due) (p : Piece) : run due [p] = due.step p := rfl

@[simp] theorem step_gap (p : Piece) : Due.gap.step p = .gap := by
  cases p <;> rfl

theorem run_gap (sql : Sql) : run .gap sql = .gap := by
  induction sql with
  | nil => rfl
  | cons p sql ih => rw [run, List.foldl_cons, step_gap]; exact ih

/-- A piece without a character changes nothing. -/
theorem step_of_chars_nil {p : Piece} (h : p.chars = []) (due : Due) : due.step p = due := by
  cases p with
  | code word =>
    obtain rfl : word = "" := String.toList_eq_nil_iff.mp h
    cases due <;> rfl
  | verbatim text =>
    obtain rfl : text = "" := String.toList_eq_nil_iff.mp h
    cases due <;> rfl
  | name s => exact nomatch h
  | text s => exact nomatch h

theorem run_of_chars_nil {sql : Sql} (h : sql.chars = []) (due : Due) : run due sql = due := by
  induction sql with
  | nil => rfl
  | cons p sql ih =>
    rw [chars_cons, List.append_eq_nil_iff] at h
    rw [run, List.foldl_cons, step_of_chars_nil h.1]
    exact ih h.2

/-! ### Words -/

/-- The opening bracket, and the code that asks for an operand. -/
def reserved : List String :=
  ["(", "NOT "] ++ connectives ++ keywords

/-- Any other code. -/
def IsPlain (word : String) : Prop :=
  word ≠ "" ∧ word ∉ reserved

instance (word : String) : Decidable (IsPlain word) :=
  inferInstanceAs (Decidable (_ ∧ _))

/-- Plain code that an operand may begin with. -/
def IsOpener (word : String) : Prop :=
  IsPlain word ∧ closes word = false

instance (word : String) : Decidable (IsOpener word) :=
  inferInstanceAs (Decidable (_ ∧ _))

/-- Code of good characters, when each reserved word has one that is not. -/
theorem isPlain_of_all {word : String} {good : Char → Bool} (hne : word ≠ "")
    (hall : ∀ c ∈ word.toList, good c = true)
    (hgood : (reserved.all fun s => s.toList.any (!good ·)) = true) : IsPlain word := by
  refine ⟨hne, fun hword => ?_⟩
  obtain ⟨c, hc, hbad⟩ := List.any_eq_true.mp (List.all_eq_true.mp hgood word hword)
  rw [hall c hc] at hbad
  exact Bool.false_ne_true hbad

theorem isOpener_of_all {word : String} {good : Char → Bool} (hne : word ≠ "")
    (hall : ∀ c ∈ word.toList, good c = true)
    (hgood : (reserved.all fun s => s.toList.any (!good ·)) = true)
    (hclosers : (" ),".toList.all (!good ·)) = true) : IsOpener word := by
  refine ⟨isPlain_of_all hne hall hgood, ?_⟩
  obtain ⟨c, cs, hword⟩ := List.exists_cons_of_ne_nil (mt String.toList_eq_nil_iff.mp hne)
  rw [closes, hword, List.head?_cons, Option.any_some, ← Bool.not_eq_true, List.contains_iff_mem]
  intro hmem
  have hbad := List.all_eq_true.mp hclosers c hmem
  rw [hall c (by rw [hword]; exact List.mem_cons_self)] at hbad
  exact Bool.false_ne_true hbad

/-- Plain code that no operand begins with. -/
def IsCloser (word : String) : Prop :=
  IsPlain word ∧ closes word = true

instance (word : String) : Decidable (IsCloser word) :=
  inferInstanceAs (Decidable (_ ∧ _))

/-- A keyword with more behind it, when no reserved word begins with the keyword. -/
theorem IsCloser.append {keyword : String} (h : IsCloser keyword) (rest : String)
    (hreserved : ∀ s ∈ reserved, ¬ keyword.toList <+: s.toList) : IsCloser (keyword ++ rest) := by
  refine ⟨⟨fun hnil => h.1.1 (String.append_eq_empty_iff.mp hnil).1, fun hword => ?_⟩, ?_⟩
  · refine hreserved _ hword ?_
    rw [String.toList_append]
    exact List.prefix_append _ _
  · obtain ⟨c, cs, hchars⟩ :=
      List.exists_cons_of_ne_nil (mt String.toList_eq_nil_iff.mp h.1.1)
    have hcloses := h.2
    rw [closes, hchars] at hcloses
    rw [closes, String.toList_append, hchars]
    exact hcloses

theorem not_isPlain {word : String} (h : ¬ IsPlain word) : word = "" ∨ word ∈ reserved := by
  rwa [IsPlain, not_and_or, not_not, not_not] at h

theorem step_plain {word : String} (h : IsPlain word) {due : Due} (hdue : due.Calm) :
    due.step (.code word) = .met := by
  obtain ⟨hne, hreserved⟩ := h
  simp only [reserved, List.mem_append, not_or, List.mem_pair] at hreserved
  rcases hdue with rfl | rfl <;> simp [Due.step, hne, hreserved]

theorem step_opener {word : String} (h : IsOpener word) {due : Due} (hdue : due ≠ .gap) :
    due.step (.code word) = .met := by
  obtain ⟨hplain, hcloses⟩ := h
  by_cases hcalm : due.Calm
  · exact step_plain hplain hcalm
  · obtain ⟨hne, hreserved⟩ := hplain
    simp only [reserved, List.mem_append, not_or, List.mem_pair] at hreserved
    cases due <;> simp_all [Due.step, Due.Calm]

/-- Where an operand is due or missing, what closes leaves a gap. -/
theorem step_closer {word : String} (h : IsCloser word) {due : Due} (hdue : ¬ due.Calm) :
    due.step (.code word) = .gap := by
  obtain ⟨⟨hne, hreserved⟩, hcloses⟩ := h
  simp only [reserved, List.mem_append, not_or, List.mem_pair] at hreserved
  cases due <;> simp_all [Due.step, Due.Calm]

end Sql

/-! ### At a connective -/

/-- An operand may begin with the piece. -/
def Piece.BeginsOperand : Piece → Prop
  | .code word => Sql.IsOpener word
  | .verbatim source => source ≠ ""
  | .name _ => True
  | .text _ => True

/-- An operand may end with the piece. -/
def Piece.EndsOperand : Piece → Prop
  | .code word => Sql.IsPlain word
  | .verbatim source => source ≠ ""
  | .name _ => True
  | .text _ => True

namespace Sql

/-- An operand begins here, perhaps in brackets or behind NOT. -/
def Begins (sql : Sql) : Prop :=
  ∃ front p rest, sql = front ++ p :: rest
    ∧ (∀ o ∈ front, o = .code "(" ∨ o = .code "NOT " ∨ o.chars = []) ∧ p.BeginsOperand

/-- The last piece with a character is neither a bracket that opens nor asks for an operand. -/
def Ends (sql : Sql) : Prop :=
  ∃ rest p back, sql = rest ++ p :: back ∧ (∀ o ∈ back, o.chars = []) ∧ p.EndsOperand

/-- What may be read where an operand is due. -/
theorem step_operand (p : Piece) :
    (Due.operand.step p = .met ∧ p.BeginsOperand)
      ∨ (Due.operand.step p = .operand ∧ (p = .code "(" ∨ p = .code "NOT " ∨ p.chars = []))
      ∨ Due.operand.step p = .gap := by
  cases p with
  | name s => exact .inl ⟨rfl, trivial⟩
  | text s => exact .inl ⟨rfl, trivial⟩
  | verbatim source =>
    by_cases h : source = ""
    · subst h
      exact .inr (.inl ⟨rfl, .inr (.inr rfl)⟩)
    · exact .inl ⟨if_neg h, h⟩
  | code word =>
    by_cases hplain : IsPlain word
    · cases hcloses : closes word with
      | true => exact .inr (.inr (step_closer ⟨hplain, hcloses⟩ (by decide)))
      | false => exact .inl ⟨step_opener ⟨hplain, hcloses⟩ nofun, hplain, hcloses⟩
    · rcases not_isPlain hplain with rfl | hreserved
      · exact .inr (.inl ⟨rfl, .inr (.inr rfl)⟩)
      · have hall : ∀ w ∈ reserved,
            w = "(" ∨ w = "NOT " ∨ Due.operand.step (.code w) = .gap := by decide
        rcases hall word hreserved with rfl | rfl | hgap
        · exact .inr (.inl ⟨rfl, .inl rfl⟩)
        · exact .inr (.inl ⟨rfl, .inr (.inl rfl)⟩)
        · exact .inr (.inr hgap)

theorem begins_of_calm {sql : Sql} (h : (run .operand sql).Calm) : Begins sql := by
  induction sql with
  | nil => exact absurd h (by decide)
  | cons p sql ih =>
    rw [run, List.foldl_cons] at h
    rcases step_operand p with ⟨-, hp⟩ | ⟨hstep, hp⟩ | hstep
    · exact ⟨[], p, sql, rfl, List.forall_mem_nil _, hp⟩
    · rw [hstep] at h
      obtain ⟨front, q, rest, rfl, hfront, hq⟩ := ih h
      exact ⟨p :: front, q, rest, rfl, List.forall_mem_cons.mpr ⟨hp, hfront⟩, hq⟩
    · rw [hstep, ← run, run_gap] at h
      exact absurd h (by decide)

/-- Only such a piece meets what was due. -/
theorem endsOperand_of_step {p : Piece} {due : Due} (h : due.step p = .met) :
    p.EndsOperand ∨ (due = .met ∧ p.chars = []) := by
  cases p with
  | name s => exact .inl trivial
  | text s => exact .inl trivial
  | verbatim source =>
    by_cases hsource : source = ""
    · subst hsource
      exact .inr ⟨(step_of_chars_nil rfl due).symm.trans h, rfl⟩
    · exact .inl hsource
  | code word =>
    by_cases hplain : IsPlain word
    · exact .inl hplain
    rcases not_isPlain hplain with rfl | hreserved
    · exact .inr ⟨(step_of_chars_nil rfl due).symm.trans h, rfl⟩
    · have hall : ∀ w ∈ reserved, ∀ d : Due, d.step (.code w) ≠ .met := by
        intro w hw d
        cases d <;> revert w hw <;> decide
      exact absurd h (hall word hreserved due)

theorem ends_of_met {sql : Sql} (h : run .nothing sql = .met) : Ends sql := by
  induction sql using List.reverseRecOn with
  | nil => exact nomatch h
  | append_singleton sql p ih =>
    rw [run_append, run_singleton] at h
    rcases endsOperand_of_step h with hp | ⟨hmet, hp⟩
    · exact ⟨sql, p, [], rfl, List.forall_mem_nil _, hp⟩
    · obtain ⟨rest, q, back, rfl, hback, hq⟩ := ih hmet
      refine ⟨rest, q, back ++ [p], by simp, ?_, hq⟩
      exact List.forall_mem_append.mpr ⟨hback, List.forall_mem_singleton.mpr hp⟩

theorem step_connective {word : String} (h : word ∈ connectives) {due : Due} :
    due.step (.code word) = if due = .met then .operand else .gap := by
  simp only [connectives, List.mem_cons, List.not_mem_nil, or_false] at h
  rcases h with rfl | rfl <;> cases due <;> decide

/-- **In gapless SQL, every AND and OR has an operand on both sides.** -/
theorem Gapless.around {before after : Sql} {word : String}
    (h : Gapless (before ++ code word ++ after)) (hword : word ∈ connectives) :
    Ends before ∧ Begins after := by
  rw [Gapless, run_append, run_append, code, run_singleton, step_connective hword] at h
  split at h
  case isTrue hmet => exact ⟨ends_of_met hmet, begins_of_calm h⟩
  case isFalse =>
    rw [run_gap] at h
    exact absurd h (by decide)

-- brackets around nothing are no operand
example : ¬ Gapless (code " WHERE " ++ inParens []) := by decide

/-! ## Parts -/

/-- The SQL is read as an operand where `due` is due, without a gap in it exactly if `R`. -/
structure Settles (due : Due) (R : Prop) (sql : Sql) : Prop where
  calm : (run due sql).Calm ↔ R
  -- so that a connective may stand behind it
  ends : run due sql ≠ .nothing

/-- Where no operand is due, the SQL has no gap exactly if `R`. -/
def Keeps (R : Prop) (sql : Sql) : Prop :=
  ∀ due : Due, due.Calm → ((run due sql).Calm ↔ R)

/-- Behind a gap, or where an operand is due, there is a gap; elsewhere there is none exactly
    if `R`. -/
def Follows (R : Prop) (sql : Sql) : Prop :=
  ∀ due : Due, (run due sql).Calm ↔ due.Calm ∧ R

variable {R S : Prop} {a b : Sql} {due next : Due} {word : String}

theorem Settles.congr (h : Settles due R a) (hRS : R ↔ S) : Settles due S a :=
  ⟨h.calm.trans hRS, h.ends⟩

theorem Keeps.congr (h : Keeps R a) (hRS : R ↔ S) : Keeps S a :=
  fun due hdue => (h due hdue).trans hRS

theorem Follows.congr (h : Follows R a) (hRS : R ↔ S) : Follows S a :=
  fun due => (h due).trans (and_congr_right fun _ => hRS)

/-! ### One behind the other -/

theorem follows_nil : Follows True [] :=
  fun _ => (and_true _).symm.to_iff

theorem Follows.append (ha : Follows R a) (hb : Follows S b) : Follows (R ∧ S) (a ++ b) := by
  intro due
  rw [run_append, hb, ha, and_assoc]

theorem Follows.keeps (h : Follows R a) : Keeps R a :=
  fun due hdue => (h due).trans (and_iff_right hdue)

theorem Keeps.append (ha : Keeps R a) (hb : Follows S b) : Keeps (R ∧ S) (a ++ b) := by
  intro due hdue
  rw [run_append, hb, ha due hdue]

theorem keeps_code (h : IsPlain word) : Keeps True (code word) := by
  intro due hdue
  rw [code, run_singleton, step_plain h hdue]
  exact iff_of_true (.inr rfl) trivial

/-- An expression behind plain code. -/
theorem Keeps.code_append (h : IsPlain word) (hb : Keeps R b) : Keeps R (code word ++ b) := by
  intro due hdue
  rw [run_append, code, run_singleton, step_plain h hdue]
  exact hb .met (.inr rfl)

/-- An expression behind code that no operand begins with. -/
theorem Keeps.follows (h : IsCloser word) (hb : Keeps R b) : Follows R (code word ++ b) := by
  intro due
  rw [run_append, code, run_singleton]
  by_cases hdue : due.Calm
  · rw [step_plain h.1 hdue, hb .met (.inr rfl), and_iff_right hdue]
  · rw [step_closer h hdue, run_gap]
    exact iff_of_false (by decide) fun hd => hdue hd.1

theorem follows_code (h : IsCloser word) : Follows True (code word) := by
  have hb : Keeps True [] := follows_nil.keeps
  have := hb.follows h
  rwa [List.append_nil] at this

theorem step_keyword (h : word ∈ keywords) :
    due.step (.code word) = if due.Calm then .operand else .gap := by
  simp only [keywords, List.mem_cons, List.not_mem_nil, or_false] at h
  rcases h with rfl | rfl | rfl | rfl | rfl <;> cases due <;> decide

/-- A condition behind its keyword. -/
theorem Settles.follows (h : word ∈ keywords) (hb : Settles .operand R b) :
    Follows R (code word ++ b) := by
  intro due
  rw [run_append, code, run_singleton, step_keyword h]
  split
  case isTrue hdue => rw [hb.calm, and_iff_right hdue]
  case isFalse hdue =>
    rw [run_gap]
    exact iff_of_false (by decide) fun hd => hdue hd.1

/-- A part in front that leads to another seam. -/
theorem Settles.behind (ha : run due a = next) (hb : Settles next R b) :
    Settles due R (a ++ b) := by
  constructor
  · rw [run_append, ha]
    exact hb.calm
  · rw [run_append, ha]
    exact hb.ends

theorem settles_of_met (h : run due a = .met) : Settles due True a :=
  ⟨iff_of_true (.inr h) trivial, by rw [h]; exact nofun⟩

/-- Two operands with a connective between them. -/
theorem Settles.connect (h : word ∈ connectives) (ha : Settles due R a)
    (hb : Settles .operand S b) : Settles due (R ∧ S) (a ++ code word ++ b) := by
  have hstep : run due (a ++ code word) = if run due a = .met then .operand else .gap := by
    rw [run_append, code, run_singleton, step_connective h]
  by_cases hR : R
  · have hmet : run due a = .met := (ha.calm.mpr hR).resolve_left ha.ends
    rw [if_pos hmet] at hstep
    have hall := hb.behind hstep
    exact ⟨hall.calm.trans (and_iff_right hR).symm, hall.ends⟩
  -- a gap in the first operand stays one
  · have hmet : run due a ≠ .met := fun hm => hR (ha.calm.mp (.inr hm))
    rw [if_neg hmet] at hstep
    have hgap : run due (a ++ code word ++ b) = .gap := by
      rw [run_append, hstep, run_gap]
    constructor
    · rw [hgap]
      exact iff_of_false (by decide) fun hboth => hR hboth.1
    · rw [hgap]
      exact nofun

/-! ### In brackets -/

theorem step_bracket : due.step (.code ")") = if due.Calm then .met else .gap := by
  cases due <;> decide

theorem follows_bracket : Follows True (code ")") :=
  follows_code (by decide)

/-- An expression in brackets; they are no operand on their own. -/
theorem Keeps.inParens (hb : Keeps R b) : Keeps R (Sql.inParens b) := by
  intro due hdue
  have hopen : run due (code "(") = .nothing := by
    rcases hdue with rfl | rfl <;> rfl
  rw [Sql.inParens, run_append, run_append, hopen, follows_bracket, hb .nothing (.inl rfl),
    and_true]

/-- Two arguments in brackets, with plain code in front and a separator between them. -/
theorem Keeps.pair {front separator : String} (hfront : IsPlain front)
    (hseparator : IsCloser separator) (ha : Keeps R a) (hb : Keeps S b) :
    Keeps (R ∧ S) (code front ++ a ++ code separator ++ b ++ code ")") := by
  rw [List.append_assoc (code front ++ a)]
  exact (((ha.code_append hfront).append (hb.follows hseparator)).append follows_bracket).congr
    (and_true _).to_iff

theorem run_append_bracket_ne_nothing : run due (a ++ code ")") ≠ .nothing := by
  rw [run_append, code, run_singleton, step_bracket]
  split <;> exact nofun

/-- Brackets around an operand leave it one. -/
theorem Settles.inParens (hb : Settles .operand R b) : Settles .operand R (Sql.inParens b) := by
  have hopen : run .operand (code "(") = .operand := rfl
  refine ⟨?_, run_append_bracket_ne_nothing⟩
  rw [Sql.inParens, run_append, run_append, hopen, follows_bracket, hb.calm, and_true]

/-- A subquery as the right side of a test. -/
theorem Keeps.settles_inParens (hb : Keeps R b) : Settles .met R (Sql.inParens b) :=
  ⟨hb.inParens .met (.inr rfl), run_append_bracket_ne_nothing⟩

/-! ### Lists -/

section Lists

variable {α : Type} {writes : α → Sql → Prop} {T : α → Prop} {items : List α} {parts : List Sql}

theorem follows_flatten (h : List.Forall₂ writes items parts)
    (item : ∀ x ∈ items, ∀ part, writes x part → Follows (T x) part) :
    Follows (∀ x ∈ items, T x) parts.flatten := by
  induction h with
  | nil => exact fun due => (and_iff_left (List.forall_mem_nil _)).symm
  | cons hx _ ih =>
    obtain ⟨hitem, hitems⟩ := List.forall_mem_cons.mp item
    intro due
    rw [List.flatten_cons, (hitem _ hx).append (ih hitems), List.forall_mem_cons]

/-- Operands with the same connective between neighbours.  Without any, an operand stays due. -/
theorem settles_joined (hword : word ∈ connectives) (h : List.Forall₂ writes items parts)
    (item : ∀ x ∈ items, ∀ part, writes x part → Settles .operand (T x) part) :
    Settles .operand (items ≠ [] ∧ ∀ x ∈ items, T x) (joined word parts) := by
  induction h with
  | nil =>
    have hdue : ¬ Due.operand.Calm := by decide
    exact ⟨iff_of_false hdue fun h => h.1 rfl, nofun⟩
  | @cons x part items parts hx hrest ih =>
    obtain ⟨hitem, hitems⟩ := List.forall_mem_cons.mp item
    cases hrest with
    | nil =>
      rw [joined, List.intercalate_singleton]
      refine (hitem part hx).congr ?_
      rw [List.forall_mem_singleton, and_iff_right (List.cons_ne_nil _ _)]
    | @cons y next items parts =>
      rw [joined, List.intercalate_cons_cons]
      refine ((hitem part hx).connect hword (ih hitems)).congr ?_
      rw [and_iff_right (List.cons_ne_nil y items), and_iff_right (List.cons_ne_nil x _)]
      exact List.forall_mem_cons.symm

/-- Expressions with a comma between neighbours. -/
theorem keeps_joined (h : List.Forall₂ writes items parts)
    (item : ∀ x ∈ items, ∀ part, writes x part → Keeps (T x) part) :
    Keeps (∀ x ∈ items, T x) (joined ", " parts) := by
  induction h with
  | nil => exact fun due hdue => iff_of_true hdue (List.forall_mem_nil _)
  | @cons x part items parts hx hrest ih =>
    obtain ⟨hitem, hitems⟩ := List.forall_mem_cons.mp item
    cases hrest with
    | nil =>
      rw [joined, List.intercalate_singleton]
      exact (hitem part hx).congr List.forall_mem_singleton.symm
    | @cons y next items parts =>
      rw [joined, List.intercalate_cons_cons, List.append_assoc]
      have hcomma : IsCloser ", " := by decide
      exact ((hitem part hx).append ((ih hitems).follows hcomma)).congr List.forall_mem_cons.symm

end Lists

/-! ## Literals -/

/-- The SQL is an operand wherever it stands. -/
def IsOperand (sql : Sql) : Prop :=
  ∀ due : Due, due ≠ .gap → run due sql = .met

theorem IsOperand.settles (h : IsOperand a) (hdue : due ≠ .gap) : Settles due True a :=
  settles_of_met (h due hdue)

theorem IsOperand.keeps (h : IsOperand a) : Keeps True a := by
  intro due hdue
  have hmet : run due a = .met := h due fun hgap => absurd hdue (by rw [hgap]; decide)
  rw [hmet]
  exact iff_of_true (.inr rfl) trivial

theorem isOperand_name (s : String) : IsOperand [.name s] := by
  intro due hdue
  cases due <;> first | rfl | exact absurd rfl hdue

theorem isOperand_text (s : String) : IsOperand [.text s] := by
  intro due hdue
  cases due <;> first | rfl | exact absurd rfl hdue

theorem isOperand_verbatim {s : String} (h : s ≠ "") : IsOperand [.verbatim s] := by
  intro due hdue
  cases due <;> simp_all [Due.step]

theorem isOperand_code (h : IsOpener word) : IsOperand (code word) :=
  fun _ hdue => step_opener h hdue

/-- An empty fragment is no operand. -/
theorem settles_verbatim (s : String) : Settles .operand (s ≠ "") [.verbatim s] := by
  by_cases hs : s = ""
  · subst hs
    exact ⟨iff_of_false (by decide) fun h => h rfl, by decide⟩
  · have hmet : Settles .operand True [.verbatim s] := (isOperand_verbatim hs).settles nofun
    exact hmet.congr (iff_of_true trivial hs)

theorem keeps_verbatim (s : String) : Keeps True [.verbatim s] := by
  by_cases hs : s = ""
  · subst hs
    intro due hdue
    rw [run_of_chars_nil rfl]
    exact iff_of_true hdue trivial
  · exact (isOperand_verbatim hs).keeps

end Sql

open Sql

theorem Piece.IsLiteral.isPlain {word : String} (h : (Piece.code word).IsLiteral) :
    IsPlain word :=
  isPlain_of_all h.1 h.2 (by decide)

theorem Piece.IsLiteral.step {p : Piece} (h : p.IsLiteral) {due : Due} (hdue : due.Calm) :
    due.step p = .met := by
  cases p with
  | code word => exact step_plain h.isPlain hdue
  | text s => rcases hdue with rfl | rfl <;> rfl
  | name s => exact h.elim
  | verbatim s => exact h.elim

/-- Pieces of literals leave nothing due. -/
theorem calm_run_of_isLiteral {sql : Sql} (h : ∀ p ∈ sql, p.IsLiteral) {due : Due}
    (hdue : due.Calm) : (run due sql).Calm := by
  induction sql generalizing due with
  | nil => exact hdue
  | cons p sql ih =>
    obtain ⟨hp, hsql⟩ := List.forall_mem_cons.mp h
    refine ih hsql ?_
    rw [hp.step hdue]
    exact .inr rfl

namespace Value

theorem isOpener_of_number {s : String} (h : IsNumberText s.toList) : IsOpener s :=
  isOpener_of_all (mt String.toList_eq_nil_iff.mpr h.1) h.2 (by decide) (by decide)

theorem isOperand_between {left right : String} (hleft : IsOpener left) (hright : IsPlain right)
    {sql : Sql} (h : ∀ p ∈ sql, p.IsLiteral) : IsOperand (code left ++ sql ++ code right) := by
  intro due hdue
  rw [run_append, run_append, isOperand_code hleft due hdue, code, run_singleton]
  exact step_plain hright (calm_run_of_isLiteral h (.inr rfl))

/-- A literal is an operand. -/
theorem isOperand_literal (v : Value) : IsOperand v.literal := by
  cases v with
  | null => exact isOperand_code (by decide)
  | bool b => cases b <;> exact isOperand_code (by decide)
  | int n => exact isOperand_code (isOpener_of_number (isNumberText_decimalInt n.toInt))
  | float x =>
    rw [literal, Binary64.literal]
    split
    · exact isOperand_code (by decide)
    · exact isOperand_text _
    · refine isOperand_code (isOpener_of_number ?_)
      rw [String.toList_ofList]
      exact isNumberText_literalDigits _ _ _
  | text s => exact isOperand_text s
  | instant t => exact isOperand_text t.civilText
  | array items =>
    exact isOperand_between (by decide) (by decide)
      (isLiteral_joined (isLiteral_of_mem_literals items))
  | map entries =>
    exact isOperand_between (by decide) (by decide)
      (isLiteral_joined (isLiteral_of_mem_entryLiterals entries))

/-- What is between the brackets of a list. -/
theorem keeps_joined_literals (vs : List Value) : Keeps True (joined ", " (vs.map literal)) := by
  refine fun due hdue => iff_of_true (calm_run_of_isLiteral ?_ hdue) trivial
  rw [← literals_eq_map]
  exact isLiteral_joined (isLiteral_of_mem_literals vs)

theorem keeps_tupleLiteral (vs : List Value) : Keeps True (tupleLiteral vs) :=
  (keeps_joined_literals vs).inParens

theorem settles_tupleLiteral (vs : List Value) : Settles .met True (tupleLiteral vs) :=
  (keeps_joined_literals vs).settles_inParens

end Value

end SqlLoom
