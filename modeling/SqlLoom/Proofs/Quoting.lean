/-
  Quoted names can be read back.

  A text is written as a name in one of four ways, tried in this order:

      *, a number                        as it is
      a text with an opening bracket     as it is; in a condition, between backticks
      a text without a dot               between backticks
      table.column, both simple          each of them between backticks

  and anything else is refused.  The conditions overlap: a number may have a dot, and a text with a
  bracket may have dots and backticks of its own.

  1. THE GRAMMAR.  `Numeral` and `Qualified` say what numbers and qualified names are, without a
     reader that splits them; the tests on characters agree with that (`isNumber_iff`,
     `isSimpleChars_iff`).
  2. ALL OUTCOMES (`verdict_quote`).  Each way to write a text, with the exact condition for it.
     Everything else here follows from this one.
  3. BACK AGAIN (`Verdict.spelled`, `Verdict.unique`).  What stands between backticks is one token,
     which ends at the last backtick whatever the name holds.  A text that stays bare is never taken
     for a quoted one: a number has no backtick, and an expression has a bracket, which a quoted
     name has not where expressions stay bare.
-/
import Mathlib.Data.List.TakeWhile
import SqlLoom.Identifier
import SqlLoom.Proofs.Token

namespace SqlLoom.Identifier

/-! ## The grammar -/

/-- One digit or more. -/
def Digits (cs : List Char) : Prop :=
  cs ≠ [] ∧ ∀ c ∈ cs, c.isDigit = true

/-- Digits, or digits with one point among them. -/
def Numeral (cs : List Char) : Prop :=
  Digits cs ∨ ∃ whole fraction, cs = whole ++ '.' :: fraction ∧ Digits whole ∧ Digits fraction

/-- A letter or an underscore, then letters, digits and underscores. -/
def SimpleName (cs : List Char) : Prop :=
  ∃ head tail, cs = head :: tail ∧ (head.isAlpha = true ∨ head = '_')
    ∧ ∀ c ∈ tail, c.isAlphanum = true ∨ c = '_'

/-- Two simple names with a dot between them. -/
def Qualified (cs : List Char) : Prop :=
  ∃ table column, cs = table ++ '.' :: column ∧ SimpleName table ∧ SimpleName column

theorem isDigits_iff {cs : List Char} : isDigits cs = true ↔ Digits cs := by
  rw [isDigits, Bool.and_eq_true, Bool.not_eq_true', List.isEmpty_eq_false_iff, List.all_eq_true,
    Digits]

theorem isSimpleChars_iff {cs : List Char} : isSimpleChars cs = true ↔ SimpleName cs := by
  cases cs with
  | nil => exact ⟨nofun, nofun⟩
  | cons head tail =>
    simp [isSimpleChars, SimpleName, isHead, isTail]

/-- Without a dot there is nothing to split. -/
theorem splitAtDot_of_not_mem {cs : List Char} (h : '.' ∉ cs) : splitAtDot cs = (cs, none) := by
  have hne : ∀ c ∈ cs, decide (c ≠ '.') = true := fun c hc =>
    decide_eq_true fun hdot => h (hdot ▸ hc)
  have htake : cs.takeWhile (· ≠ '.') = cs := List.takeWhile_eq_self_iff.mpr hne
  have hdrop : cs.dropWhile (· ≠ '.') = [] := List.dropWhile_eq_nil_iff.mpr hne
  rw [splitAtDot, htake, hdrop]
  rfl

/-- A text is split at its first dot. -/
theorem splitAtDot_append {front : List Char} (h : '.' ∉ front) (back : List Char) :
    splitAtDot (front ++ '.' :: back) = (front, some back) := by
  have hne : ∀ c ∈ front, decide (c ≠ '.') = true := fun c hc =>
    decide_eq_true fun hdot => h (hdot ▸ hc)
  rw [splitAtDot, List.takeWhile_append_of_pos hne, List.dropWhile_append_of_pos hne]
  simp

theorem SimpleName.no_dot {cs : List Char} (h : SimpleName cs) : '.' ∉ cs := by
  obtain ⟨head, tail, rfl, hhead, htail⟩ := h
  intro hdot
  rcases List.mem_cons.mp hdot with rfl | hdot
  · exact absurd hhead (by decide)
  · exact absurd (htail '.' hdot) (by decide)

theorem Digits.no_dot {cs : List Char} (h : Digits cs) : '.' ∉ cs :=
  fun hdot => absurd (h.2 '.' hdot) (by decide)

theorem isNumber_iff {cs : List Char} : isNumber cs = true ↔ Numeral cs := by
  constructor
  · intro h
    unfold isNumber at h
    split at h
    · rename_i front hsplit
      rw [← eq_of_splitAtDot_none hsplit]
      exact .inl (isDigits_iff.mp h)
    · rename_i front back hsplit
      obtain ⟨hfront, hback⟩ := Bool.and_eq_true_iff.mp h
      exact .inr ⟨front, back, (append_of_splitAtDot hsplit).symm, isDigits_iff.mp hfront,
        isDigits_iff.mp hback⟩
  · rintro (h | ⟨whole, fraction, rfl, hwhole, hfraction⟩)
    · rw [isNumber, splitAtDot_of_not_mem h.no_dot]
      exact isDigits_iff.mpr h
    · rw [isNumber, splitAtDot_append hwhole.no_dot]
      exact Bool.and_eq_true_iff.mpr ⟨isDigits_iff.mpr hwhole, isDigits_iff.mpr hfraction⟩

/-! ## All outcomes -/

/-- A text that is written as it is. -/
def Bare (context : Context) (s : String) : Prop :=
  s = "*" ∨ Numeral s.toList ∨ context = .selection ∧ '(' ∈ s.toList

/-- What quoting comes to, and when. -/
inductive Verdict (context : Context) (s : String) : Except Fault Sql → Prop where
  | plain (h : s = "*" ∨ Numeral s.toList) : Verdict context s (.ok (Sql.code s))
  | expression (hcontext : context = .selection) (hbracket : '(' ∈ s.toList) :
      Verdict context s (.ok [.verbatim s])
  | whole (h : ¬ Bare context s) (hdot : '.' ∈ s.toList → '(' ∈ s.toList) :
      Verdict context s (.ok [.name s])
  | parted {table column : List Char} (h : ¬ Bare context s) (hbracket : '(' ∉ s.toList)
      (hs : s.toList = table ++ '.' :: column) (htable : SimpleName table)
      (hcolumn : SimpleName column) :
      Verdict context s (.ok [.name (String.ofList table), .code ".", .name (String.ofList column)])
  | refused {f : Fault} (hdot : '.' ∈ s.toList) (hbracket : '(' ∉ s.toList)
      (hnumber : ¬ Numeral s.toList) (hqualified : ¬ Qualified s.toList) :
      Verdict context s (.error f)

theorem not_bare {context : Context} {s : String} (hstar : s ≠ "*")
    (hnumber : ¬ isNumber s.toList = true) (hbracket : '(' ∈ s.toList → context = .condition) :
    ¬ Bare context s := by
  rintro (hs | hs | ⟨rfl, hs⟩)
  · exact hstar hs
  · exact hnumber (isNumber_iff.mpr hs)
  · exact nomatch hbracket hs

/-- **Every outcome, with its condition.** -/
theorem verdict_quote (context : Context) (s : String) :
    Verdict context s (quote context s) := by
  unfold quote
  simp only
  split
  · rename_i hstar
    exact .plain (.inl hstar)
  split
  · rename_i hnumber
    exact .plain (.inr (isNumber_iff.mp hnumber))
  rename_i hstar hnumber
  split
  · rename_i hbracket
    cases context with
    | condition => exact .whole (not_bare hstar hnumber fun _ => rfl) fun _ => hbracket
    | selection => exact .expression rfl hbracket
  rename_i hbracket
  have hbare : ¬ Bare context s := not_bare hstar hnumber fun h => absurd h hbracket
  split
  · rename_i front hsplit
    refine .whole hbare fun hdot => ?_
    obtain ⟨front, back, hs, hfront⟩ := List.eq_append_cons_of_mem hdot
    rw [hs, splitAtDot_append hfront] at hsplit
    exact nomatch hsplit
  rename_i table column hsplit
  have hs : s.toList = table ++ '.' :: column := (append_of_splitAtDot hsplit).symm
  have hrefused (hparts : ¬ (SimpleName table ∧ SimpleName column)) (f : Fault) :
      Verdict context s (.error f) := by
    refine .refused (hs ▸ List.mem_append_right _ List.mem_cons_self) hbracket
      (fun h => hnumber (isNumber_iff.mpr h)) ?_
    -- the dot of a qualified name is the first one
    rintro ⟨table', column', hs', htable, hcolumn⟩
    rw [hs', splitAtDot_append htable.no_dot] at hsplit
    obtain ⟨rfl, hcolumns⟩ := Prod.mk.inj hsplit
    obtain rfl := Option.some.inj hcolumns
    exact hparts ⟨htable, hcolumn⟩
  split
  · rename_i hdot
    exact hrefused (fun h => h.2.no_dot hdot) _
  split
  · rename_i hsimple
    obtain ⟨htable, hcolumn⟩ := Bool.and_eq_true_iff.mp hsimple
    exact .parted hbare hbracket hs (isSimpleChars_iff.mp htable) (isSimpleChars_iff.mp hcolumn)
  · rename_i hsimple
    refine hrefused (fun h => hsimple ?_) _
    exact Bool.and_eq_true_iff.mpr ⟨isSimpleChars_iff.mpr h.1, isSimpleChars_iff.mpr h.2⟩

/-! ## Back again -/

/-- One name between backticks, whatever follows. -/
def ReadsAsName (s : String) (cs : List Char) : Prop :=
  ∀ rest, firstToken (cs ++ rest) = some (.name s, rest)

/-- How a text is spelled as a name: as it is, or between backticks, so that the text or its two
    parts can be read from what stands there. -/
inductive Spelled (context : Context) (s : String) (cs : List Char) : Prop where
  | bare (h : Bare context s) (hcs : cs = s.toList)
  | whole (h : ¬ Bare context s) (hdot : '.' ∈ s.toList → '(' ∈ s.toList)
      (hread : ReadsAsName s cs)
  | parted (h : ¬ Bare context s) (hbracket : '(' ∉ s.toList) (table column : String)
      (front back : List Char) (hs : s = table ++ "." ++ column) (htable : SimpleName table.toList)
      (hcolumn : SimpleName column.toList) (hcs : cs = front ++ '.' :: back)
      (hfront : ReadsAsName table front) (hback : ReadsAsName column back)

theorem readsAsName (s : String) : ReadsAsName s (Piece.name s).chars :=
  firstToken_name s

theorem Verdict.spelled {context : Context} {s : String} {sql : Sql}
    (h : Verdict context s (.ok sql)) : Spelled context s sql.chars := by
  cases h with
  | plain h => exact .bare (h.imp_right .inl) (List.append_nil _)
  | expression hcontext hbracket => exact .bare (.inr (.inr ⟨hcontext, hbracket⟩)) (List.append_nil _)
  | whole h hdot =>
    refine .whole h hdot ?_
    rw [Sql.chars_cons, Sql.chars_nil, List.append_nil]
    exact readsAsName s
  | @parted table column h hbracket hs htable hcolumn =>
    refine .parted h hbracket (String.ofList table) (String.ofList column) _ _ ?_ ?_ ?_ ?_
      (readsAsName _) (readsAsName _)
    · apply String.toList_injective
      simp [hs]
    · rwa [String.toList_ofList]
    · rwa [String.toList_ofList]
    · simp [Piece.chars]

/-- One text between backticks, or two with a dot between them, is all that is read. -/
theorem Spelled.eq_of_quoted {context : Context} {s s' : String} {cs : List Char}
    (h : Spelled context s cs) (h' : Spelled context s' cs) (hs : ¬ Bare context s)
    (hs' : ¬ Bare context s') : s = s' := by
  have hread {name : String} {front back : List Char} (hname : ReadsAsName name front)
      (hcs : cs = front ++ back) : firstToken cs = some (.name name, back) := hcs ▸ hname back
  have hsame {t t' : Token} {back back' : List Char} (h : firstToken cs = some (t, back))
      (h' : firstToken cs = some (t', back')) : t = t' ∧ back = back' :=
    Prod.mk.inj (Option.some.inj (h.symm.trans h'))
  cases h with
  | bare hbare => exact absurd hbare hs
  | whole _ _ hwhole =>
    have hfirst := hread hwhole (List.append_nil cs).symm
    cases h' with
    | bare hbare => exact absurd hbare hs'
    | whole _ _ hwhole' =>
      exact Token.name.inj (hsame hfirst (hread hwhole' (List.append_nil cs).symm)).1
    | parted _ _ _ _ _ _ _ _ _ hcs hfront _ => exact nomatch (hsame hfirst (hread hfront hcs)).2
  | parted _ _ table column front back hparts _ _ hcs hfront hback =>
    have hfirst := hread hfront hcs
    cases h' with
    | bare hbare => exact absurd hbare hs'
    | whole _ _ hwhole' =>
      exact nomatch (hsame hfirst (hread hwhole' (List.append_nil cs).symm)).2
    | parted _ _ table' column' front' back' hparts' _ _ hcs' hfront' hback' =>
      obtain ⟨htable, hbacks⟩ := hsame hfirst (hread hfront' hcs')
      obtain rfl := List.tail_eq_of_cons_eq hbacks
      have hcolumn := Option.some.inj ((hback []).symm.trans (hback' []))
      rw [hparts, hparts', Token.name.inj htable, Token.name.inj (Prod.mk.inj hcolumn).1]

/-! ## Bare or between backticks -/

theorem Numeral.no_tick {cs : List Char} (h : Numeral cs) : '\x60' ∉ cs := by
  have hdigits {cs : List Char} (h : Digits cs) : '\x60' ∉ cs :=
    fun htick => absurd (h.2 _ htick) (by decide)
  rcases h with h | ⟨whole, fraction, rfl, hwhole, hfraction⟩
  · exact hdigits h
  · intro htick
    rcases List.mem_append.mp htick with htick | htick
    · exact hdigits hwhole htick
    · rcases List.mem_cons.mp htick with heq | htick
      · exact absurd heq (by decide)
      · exact hdigits hfraction htick

/-- Escaping brings in backslashes and takes nothing away. -/
theorem mem_escapeName {c : Char} (hslash : c ≠ '\\') {cs : List Char} :
    c ∈ escapeName cs ↔ c ∈ cs := by
  induction cs with
  | nil => rfl
  | cons d cs ih =>
    rw [escapeName]
    split <;> simp [ih, hslash]

namespace Verdict

variable {context : Context} {s s' : String} {sql sql' : Sql}

theorem chars_of_bare (h : Verdict context s (.ok sql)) (hs : Bare context s) :
    sql.chars = s.toList := by
  cases h with
  | plain => exact List.append_nil _
  | expression => exact List.append_nil _
  | whole hbare => exact absurd hs hbare
  | parted hbare => exact absurd hs hbare

theorem head_of_not_bare (h : Verdict context s (.ok sql)) (hs : ¬ Bare context s) :
    '\x60' ∈ sql.chars.head? := by
  cases h with
  | plain h => exact absurd (h.imp_right .inl) hs
  | expression hcontext h => exact absurd (.inr (.inr ⟨hcontext, h⟩)) hs
  | whole => rfl
  | parted => rfl

/-- A bracket between backticks is one of the text. -/
theorem bracket_of_not_bare (h : Verdict context s (.ok sql)) (hs : ¬ Bare context s)
    (hbracket : '(' ∈ sql.chars) : '(' ∈ s.toList := by
  have hname {name : String} (h : '(' ∈ (Piece.name name).chars) : '(' ∈ name.toList := by
    rw [Piece.chars, List.mem_cons, List.mem_append, List.mem_singleton,
      mem_escapeName (by decide)] at h
    exact (h.resolve_left (by decide)).resolve_right (by decide)
  cases h with
  | plain h => exact absurd (h.imp_right .inl) hs
  | expression hcontext h => exact absurd (.inr (.inr ⟨hcontext, h⟩)) hs
  | whole =>
    rw [Sql.chars_cons, Sql.chars_nil, List.append_nil] at hbracket
    exact hname hbracket
  | parted _ _ hparts =>
    simp only [Sql.chars_cons, Sql.chars_nil, List.append_nil, List.mem_append] at hbracket
    rw [hparts, List.mem_append]
    rcases hbracket with hbracket | hbracket | hbracket
    · exact .inl (by simpa using hname hbracket)
    · exact absurd hbracket (by decide)
    · exact .inr (List.mem_cons_of_mem _ (by simpa using hname hbracket))

/-- Nothing that is written between backticks is written bare, too. -/
theorem bare_of_bare (h : Verdict context s (.ok sql)) (h' : Verdict context s' (.ok sql'))
    (hchars : sql.chars = sql'.chars) (hs : Bare context s) : Bare context s' := by
  by_contra hs'
  have hsame : sql'.chars = s.toList := hchars.symm.trans (h.chars_of_bare hs)
  have hhead : '\x60' ∈ s.toList.head? := hsame ▸ h'.head_of_not_bare hs'
  rcases hs with rfl | hnumber | ⟨hcontext, hbracket⟩
  · exact absurd hhead (by decide)
  · exact hnumber.no_tick (List.mem_of_mem_head? hhead)
  · exact hs' (.inr (.inr ⟨hcontext, h'.bracket_of_not_bare hs' (hsame ▸ hbracket)⟩))

theorem unique (h : Verdict context s (.ok sql)) (h' : Verdict context s' (.ok sql'))
    (hchars : sql.chars = sql'.chars) : s = s' := by
  by_cases hs : Bare context s
  · have hs' := h.bare_of_bare h' hchars hs
    apply String.toList_injective
    rw [← h.chars_of_bare hs, hchars, h'.chars_of_bare hs']
  · have hs' : ¬ Bare context s' := fun hs' => hs (h'.bare_of_bare h hchars.symm hs')
    exact h.spelled.eq_of_quoted (hchars ▸ h'.spelled) hs hs'

end Verdict

/-! ## The result -/

theorem error_iff (context : Context) (s : String) :
    (∃ f, quote context s = .error f)
      ↔ '.' ∈ s.toList ∧ '(' ∉ s.toList ∧ ¬ Numeral s.toList ∧ ¬ Qualified s.toList := by
  have hverdict := verdict_quote context s
  constructor
  · rintro ⟨f, hf⟩
    rw [hf] at hverdict
    cases hverdict with
    | refused hdot hbracket hnumber hqualified => exact ⟨hdot, hbracket, hnumber, hqualified⟩
  · rintro ⟨hdot, hbracket, hnumber, hqualified⟩
    cases hquote : quote context s with
    | error f => exact ⟨f, rfl⟩
    | ok sql =>
      rw [hquote] at hverdict
      cases hverdict with
      | plain hplain =>
        rcases hplain with rfl | hplain
        · exact absurd hdot (by decide)
        · exact absurd hplain hnumber
      | expression _ hexpression => exact absurd hexpression hbracket
      | whole _ hwhole => exact absurd (hwhole hdot) hbracket
      | parted _ _ hparts htable hcolumn => exact absurd ⟨_, _, hparts, htable, hcolumn⟩ hqualified

/-- **Quoting refuses what is not in its grammar, and all that it accepts can be read back.** -/
theorem quoting_can_be_undone (context : Context) (s : String) :
    ((∃ f, quote context s = .error f)
        ↔ '.' ∈ s.toList ∧ '(' ∉ s.toList ∧ ¬ Numeral s.toList ∧ ¬ Qualified s.toList)
      ∧ (∀ sql, quote context s = .ok sql → Spelled context s sql.chars)
      ∧ ∀ sql s' sql', quote context s = .ok sql → quote context s' = .ok sql' →
          sql.text = sql'.text → s = s' := by
  have hverdict {s : String} {sql : Sql} (h : quote context s = .ok sql) :
      Verdict context s (.ok sql) := h ▸ verdict_quote context s
  refine ⟨error_iff context s, fun sql h => (hverdict h).spelled, fun sql s' sql' h h' htext => ?_⟩
  exact (hverdict h).unique (hverdict h') (String.ofList_injective htext)

/-- A text with two dots is refused; one with a backtick, a backslash and a dot is read back from
    between backticks; only `a.b` is written as the column `b` of `a`. -/
theorem quoting_can_be_undone_of_odd_names :
    ¬ Qualified "a.b.c".toList
      ∧ Spelled .condition "\x60\\.(" "\x60\\\x60\\\\.(\x60".toList
      ∧ ∀ s sql, quote .selection s = .ok sql → sql.text = "\x60a\x60.\x60b\x60" → "a.b" = s := by
  have hrefused := (quoting_can_be_undone .selection "a.b.c").1.mp ⟨_, rfl⟩
  refine ⟨hrefused.2.2.2, (quoting_can_be_undone .condition "\x60\\.(").2.1 _ rfl, ?_⟩
  exact fun s sql h htext =>
    (quoting_can_be_undone .selection "a.b").2.2 _ s sql rfl h htext.symm

end SqlLoom.Identifier
