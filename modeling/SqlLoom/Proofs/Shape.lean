/-
  Strings cannot change the shape of a statement.

  Whether SQL can be read back depends on its code and on where its texts stand, and not on what is
  in them (`Sql.Twin.lexable`), so alike SQL is read as alike tokens.  Together with what is written
  for twins this is freedom from injection: queries that differ in strings only compile together,
  and their SQL differs in the contents of text tokens only.
-/
import SqlLoom.Proofs.Written.Twin

namespace SqlLoom

open Outcome
open Sql (code)

variable {R : String → String → Prop}

/-! ## Reading alike SQL -/

/-- The same token, or two texts that are linked. -/
inductive Token.Twin (R : String → String → Prop) : Token → Token → Prop where
  | char (c : Char) : Token.Twin R (.char c) (.char c)
  | name (s : String) : Token.Twin R (.name s) (.name s)
  | fixed (s : String) (h : IsFixedText s) : Token.Twin R (.text s) (.text s)
  | text {s t : String} (h : R s t) : Token.Twin R (.text s) (.text t)

namespace Piece.Twin

variable {p p' : Piece}

theorem lexes (h : Piece.Twin R p p') (hp : p.Lexes) : p'.Lexes := by
  cases h with
  | same p _ => exact hp
  | fixed s _ => exact hp
  | text h => trivial

theorem isText_eq (h : Piece.Twin R p p') : p.isText = p'.isText := by
  cases h with
  | same p _ => rfl
  | fixed s _ => rfl
  | text h => rfl

theorem tokens (h : Piece.Twin R p p') : List.Forall₂ (Token.Twin R) p.tokens p'.tokens := by
  have hchars : ∀ cs : List Char, List.Forall₂ (Token.Twin R) (cs.map .char) (cs.map .char) := by
    intro cs
    rw [List.forall₂_same, List.forall_mem_map]
    exact fun c _ => .char c
  cases h with
  | same p hp =>
    cases p with
    | code source => exact hchars source.toList
    | name identifier => exact .cons (.name identifier) .nil
    | text content => exact nomatch hp
    | verbatim source => exact hchars source.toList
  | fixed s h => exact .cons (.fixed s h) .nil
  | text h => exact .cons (.text h) .nil

end Piece.Twin

namespace Sql.Twin

variable {sql sql' : Sql}

/-- The first pieces of alike SQL are both texts or neither. -/
theorem isText_head (h : Sql.Twin R sql sql') :
    ∀ p' ∈ sql'.head?, ∃ p ∈ sql.head?, p.isText = p'.isText := by
  cases h with
  | nil => exact nofun
  | @cons p p' _ _ hp _ =>
    intro r hr
    obtain rfl : p' = r := Option.some.inj hr
    exact ⟨p, rfl, hp.isText_eq⟩

theorem lexable (h : Sql.Twin R sql sql') (hsql : sql.Lexable) : sql'.Lexable := by
  obtain ⟨hpieces, hchain⟩ := hsql
  refine ⟨Outcome.forall_of_forall₂ h fun p hp p' htwin => htwin.lexes (hpieces p hp), ?_⟩
  -- neighbours stay apart: a piece and its twin are both texts or neither
  clear hpieces
  induction h with
  | nil => exact List.isChain_nil
  | cons hp hrest ih =>
    obtain ⟨hapart, htail⟩ := List.isChain_cons.mp hchain
    refine List.isChain_cons.mpr ⟨fun r' hr' => ?_, ih htail⟩
    obtain ⟨r, hr, htext⟩ := Sql.Twin.isText_head hrest r' hr'
    have hneighbours := hapart r hr
    rw [Piece.Apart, hp.isText_eq, htext] at hneighbours
    exact hneighbours

theorem tokens (h : Sql.Twin R sql sql') :
    List.Forall₂ (Token.Twin R) (Sql.tokens sql) (Sql.tokens sql') :=
  forall₂_flatMap h fun _ _ hp => hp.tokens

end Sql.Twin

/-! ## Whole queries -/

/-- **Headline.**  Queries that differ in strings only compile together, and what they compile to is
    read as the same tokens but for texts.  There the strings of one query stand where the strings
    of the other do: `R` may be any relation that links each string to its counterpart. -/
theorem strings_cannot_change_the_shape {q q' : Query} (h : Query.Twin R q q') (hraw : q.RawFree)
    (hname : q.Bracketless) :
    (Succeeds q.compile ↔ Succeeds q'.compile)
      ∧ ∀ sql sql', q.compile = .ok sql → q'.compile = .ok sql' →
        ∃ ts ts', lex sql.text.toList = some ts ∧ lex sql'.text.toList = some ts'
          ∧ List.Forall₂ (Token.Twin R) ts ts' := by
  have htogether : ∀ {R : String → String → Prop} {q q' : Query}, Query.Twin R q q' →
      Succeeds q.compile → Succeeds q'.compile := by
    rintro R q q' h ⟨sql, hsql⟩
    obtain ⟨sql', hsql', -⟩ := h.compiles hsql
    exact ⟨sql', hsql'⟩
  refine ⟨⟨htogether h, htogether h.swap⟩, fun sql sql' hsql hsql' => ?_⟩
  -- the SQL of the twin is the one that answers
  obtain ⟨answer, hanswer, htwin⟩ := h.compiles hsql
  obtain rfl : answer = sql' := Except.ok.inj (hanswer.symm.trans hsql')
  have hlexable : sql.Lexable := (Query.wellFormed hraw hname hsql).lexable
  have hread : ∀ {s : Sql}, s.Lexable → lex s.text.toList = some s.tokens := by
    intro s hs
    rw [Sql.text, String.toList_ofList]
    exact Sql.lex_chars hs
  exact ⟨sql.tokens, answer.tokens, hread hlexable, hread (htwin.lexable hlexable), htwin.tokens⟩

/-- Removes all rows of one user, and says so in a setting. -/
def Query.removal (user : String) : Query :=
  .delete
    { table := "sessions"
      filter := some (.compare (.column { name := "user" }) "=" (.value (.text user) none))
      settings := [("log_comment", .map [(user, .array [.text user])])] }

/-- A user who tries to remove everybody. -/
theorem strings_cannot_change_the_shape_of_removal :
    let R : String → String → Prop := fun s t => s = "ann" ∧ t = "' OR ''='"
    let q := Query.removal "ann"
    let q' := Query.removal "' OR ''='"
    Query.Twin R q q' ∧ q.RawFree ∧ q.Bracketless ∧ Succeeds q.compile ∧ Succeeds q'.compile
      ∧ ∀ sql sql', q.compile = .ok sql → q'.compile = .ok sql' →
        ∃ ts ts', lex sql.text.toList = some ts ∧ lex sql'.text.toList = some ts'
          ∧ List.Forall₂ (Token.Twin R) ts ts' := by
  intro R q q'
  have hlink : R "ann" "' OR ''='" := ⟨rfl, rfl⟩
  have htwin : Query.Twin R q q' :=
    .delete "sessions" [] (.some (.compare "=" (.column _) (.value none (.text hlink))))
      (.cons ⟨rfl, .map (.cons (.mk hlink (.array (.cons (.text hlink) .nil))) .nil)⟩ .nil)
  have hevery : ∀ {rule : Node → Prop}, (∀ p, rule (.predicate (.compare (.column p) "="
      (.value (.text "ann") none)))) → rule (.operand (.value (.text "ann") none)) →
      q.Every rule := by
    intro rule hcompare hvalue
    refine .of_parts fun n hn => ?_
    rw [List.mem_singleton.mp hn]
    refine .intro (hcompare _) fun m hm => ?_
    rw [List.mem_singleton.mp hm]
    exact .intro hvalue nofun
  have hraw : q.RawFree := hevery (fun _ => trivial) trivial
  have htable : Bracketless "sessions" := by
    show '(' ∉ "sessions".toList
    decide
  have hname : q.Bracketless := ⟨htable, hevery (fun _ => trivial) trivial⟩
  have hcompiles : Succeeds q.compile := by
    refine ⟨code "ALTER TABLE " ++ [.name "sessions"] ++ code " DELETE" ++ (code " WHERE "
      ++ ([.name "user"] ++ code " = " ++ [.text "ann"]))
      ++ Statement.settingsSql [("log_comment", .map [("ann", .array [.text "ann"])])], ?_⟩
    with_unfolding_all rfl
  obtain ⟨htogether, hshape⟩ := strings_cannot_change_the_shape htwin hraw hname
  exact ⟨htwin, hraw, hname, hcompiles, htogether.mp hcompiles, hshape⟩

end SqlLoom
