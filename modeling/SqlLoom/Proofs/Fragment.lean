/-
  Fragments of conditions, on their own and inside a larger condition.

  A fragment that is passed through unchanged is read as a part of the text that it stands in.  What
  it is read as does not depend on that text: the reader never looks behind the group in which the
  fragment starts, unless the fragment closes a bracket that it did not open.  What it does to that
  group is not always to add an operand, though.  An OR of its own ends the AND that is being read,
  and the operands behind it belong to the next one.

  1. `readGroup`         — the group that a text is read as, before it is closed to a tree.
  2. `Reading.Framed`    — a reading of a text on its own, and the readings of the same text inside
                           other groups; every step keeps them in step (`Framed.step`).
  3. `Sql.Spreads`       — what SQL adds to the group around it: the operands up to its first OR,
                           those up to the next one, and so on.
  4. `Sql.lex_resolved`  — SQL with closed fragments is read with the tokens of each fragment in its
                           place (`fragmentSql`), and a fragment spreads there as its own group says
                           (`spreads_fragmentSql`).
-/
import SqlLoom.Proofs.Reading

namespace SqlLoom

open Sql (code Balanced Lexable)

/-! ## Groups -/

namespace Group

/-- The group with several operands more. -/
def addAll (g : Group) (ts : List Tree) : Group :=
  ⟨g.alternatives, g.operands ++ ts⟩

/-- The group behind several ANDs, each with an OR behind it. -/
def behind (g : Group) (ands : List (List Tree)) : Group :=
  ands.foldl (fun g ts => (g.addAll ts).next) g

theorem add_addAll (g : Group) (ts : List Tree) (t : Tree) :
    (g.addAll ts).add t = g.addAll (ts ++ [t]) := by
  simp only [add, addAll, List.append_assoc]

theorem addAll_nil (g : Group) : g.addAll [] = g := by
  simp only [addAll, List.append_nil]

theorem next_addAll (g : Group) (ands : List (List Tree)) (ts : List Tree) :
    ((g.behind ands).addAll ts).next = (g.behind (ands ++ [ts])).addAll [] := by
  rw [addAll_nil, behind, behind, List.foldl_append]
  rfl

theorem behind_append (g : Group) (ands ands' : List (List Tree)) (ts : List Tree) :
    g.behind (ands ++ ts :: ands') = ((g.behind ands).addAll ts).next.behind ands' := by
  simp only [behind, List.foldl_append, List.foldl_cons]

theorem behind_eq (alternatives : List Tree) (ands : List (List Tree)) :
    (⟨alternatives, []⟩ : Group).behind ands = ⟨alternatives ++ ands.map .conjunction, []⟩ := by
  induction ands generalizing alternatives with
  | nil => simp only [behind, List.foldl_nil, List.map_nil, List.append_nil]
  | cons ts ands ih =>
    have hstep : (⟨alternatives, []⟩ : Group).behind (ts :: ands)
        = (⟨alternatives ++ [.conjunction ts], []⟩ : Group).behind ands := rfl
    rw [hstep, ih, List.append_assoc]
    rfl

/-- The tree of a group that was empty. -/
theorem tree_behind (ands : List (List Tree)) (last : List Tree) :
    ((({} : Group).behind ands).addAll last).tree
      = .disjunction ((ands ++ [last]).map .conjunction) := by
  rw [behind_eq, List.map_append]
  rfl

end Group

/-- The group that a text is read as, when everything is read. -/
def readGroup (cs : List Char) : Option Group := do
  let ts ← lex cs
  let r ← Reading.run (lexemes ts) ⟨[], {}, .operand 0⟩
  let r ← r.settled
  match r.outer with
  | [] => some r.group
  | _ => none

/-- To read a condition is to read its group and to close it. -/
theorem readCondition_eq (cs : List Char) : readCondition cs = (readGroup cs).map Group.tree := by
  unfold readCondition readGroup
  cases lex cs with
  | none => rfl
  | some ts =>
    show (Reading.run _ _).bind _ = ((Reading.run _ _).bind _).map _
    cases Reading.run (lexemes ts) ⟨[], {}, .operand 0⟩ with
    | none => rfl
    | some r =>
      show r.settled.bind _ = (r.settled.bind _).map _
      cases r.settled with
      | none => rfl
      | some r =>
        obtain ⟨outer, group, place⟩ := r
        cases outer <;> rfl

/-! ## Reading inside other groups -/

/-- What stands around a text: the groups that are open, and the one that is being read. -/
structure Frame where
  outer : List (Nat × Group)
  group : Group

namespace Reading

/-- A reading of a text on its own, and one for every frame around the same text.  What the first
    one has in its outermost group stands behind the group of the frame in the others. -/
inductive Framed : Reading → (Frame → Reading) → Prop
  | base (ands : List (List Tree)) (last : List Tree) (place : Place) :
    Framed ⟨[], (({} : Group).behind ands).addAll last, place⟩
      fun c => ⟨c.outer, (c.group.behind ands).addAll last, place⟩
  | inner (nots : Nat) (g : Group) (place : Place) {outer : List (Nat × Group)} {around : Group}
    {f : Frame → Reading} (h : Framed ⟨outer, around, .complete⟩ f) :
    Framed ⟨(nots, around) :: outer, g, place⟩
      fun c => ⟨(nots, (f c).group) :: (f c).outer, g, place⟩

/-- Where the reading on its own goes on, all the others do, and stay in step. -/
def Follows (x : Option Reading) (y : Frame → Option Reading) : Prop :=
  ∀ r, x = some r → ∃ f : Frame → Reading, Framed r f ∧ ∀ c, y c = some (f c)

namespace Follows

theorem some {r : Reading} {f : Frame → Reading} (h : Framed r f) :
    Follows (some r) fun c => some (f c) := by
  intro s hs
  obtain rfl := Option.some.inj hs
  exact ⟨f, h, fun _ => rfl⟩

theorem none {y : Frame → Option Reading} : Follows none y :=
  nofun

/-- All of the readings ask the same question. -/
theorem ite {p : Prop} [Decidable p] {x x' : Option Reading} {y y' : Frame → Option Reading}
    (h : Follows x y) (h' : Follows x' y') :
    Follows (if p then x else x') fun c => if p then y c else y' c := by
  by_cases hp : p
  · simp only [if_pos hp]
    exact h
  · simp only [if_neg hp]
    exact h'

theorem bind {x : Option Reading} {y : Frame → Option Reading} {next : Reading → Option Reading}
    (h : Follows x y) (hnext : ∀ r f, Framed r f → Follows (next r) fun c => next (f c)) :
    Follows (x.bind next) fun c => (y c).bind next := by
  intro s hs
  obtain ⟨r, hr, hs⟩ := Option.bind_eq_some_iff.mp hs
  obtain ⟨f, hf, hy⟩ := h r hr
  obtain ⟨f', hf', hy'⟩ := hnext r f hf s hs
  exact ⟨f', hf', fun c => Option.bind_eq_some_iff.mpr ⟨f c, hy c, hy' c⟩⟩

end Follows

namespace Framed

variable {r : Reading} {f : Frame → Reading}

theorem start : Framed ⟨[], {}, .operand 0⟩ fun c => ⟨c.outer, c.group, .operand 0⟩ := by
  have h := base [] [] (.operand 0)
  simpa only [Group.behind, List.foldl_nil, Group.addAll_nil] using h

theorem place_eq (h : Framed r f) (c : Frame) : (f c).place = r.place := by
  cases h <;> rfl

/-- The readings go to another place. -/
theorem goto (h : Framed r f) (place : Place) :
    Framed { r with place } fun c => { f c with place } := by
  cases h with
  | base ands last _ => exact base ands last place
  | inner nots g _ h => exact inner nots g place h

/-- The readings add an operand. -/
theorem add (h : Framed r f) (t : Tree) (place : Place) :
    Framed ⟨r.outer, r.group.add t, place⟩ fun c => ⟨(f c).outer, (f c).group.add t, place⟩ := by
  cases h with
  | base ands last _ =>
    simp only [Group.add_addAll]
    exact base ands (last ++ [t]) place
  | inner nots g _ h => exact inner nots (g.add t) place h

/-- The readings pass an OR. -/
theorem next (h : Framed r f) (place : Place) :
    Framed { r with group := r.group.next, place }
      fun c => { f c with group := (f c).group.next, place } := by
  cases h with
  | base ands last _ =>
    simp only [Group.next_addAll]
    exact base (ands ++ [last]) [] place
  | inner nots g _ h => exact inner nots g.next place h

theorem settled (h : Framed r f) : Follows r.settled fun c => (f c).settled := by
  unfold Reading.settled
  simp only [h.place_eq]
  split
  · exact .some h
  · exact .some (h.add _ _)
  · exact .none

theorem connect (h : Framed r f) (x : Lexeme) : Follows (r.connect x) fun c => (f c).connect x := by
  refine .ite (.some h) (.ite (.some (h.goto _)) (.ite (.some (h.next _)) (.ite ?_ .none)))
  cases h with
  -- a bracket that the text did not open is refused by the reading on its own
  | base ands last place => exact .none
  | inner nots g place h => exact .some (h.add _ _)

theorem stepLeaf (h : Framed r f) (nots : Nat) (sofar : List Lexeme) (depth : Nat) (bounds : Bool)
    (x : Lexeme) :
    Follows (r.stepLeaf nots sofar depth bounds x)
      fun c => (f c).stepLeaf nots sofar depth bounds x :=
  .ite (.some (h.goto _)) <| .ite (.some (h.goto _)) <| .ite (.some (h.goto _)) <|
    .ite (.some (h.goto _)) <| .ite (h.settled.bind fun _ _ h => h.connect x) (.some (h.goto _))

theorem stepOperand (h : Framed r f) (nots : Nat) (x : Lexeme) :
    Follows (r.stepOperand nots x) fun c => (f c).stepOperand nots x := by
  have hopened := inner nots {} (.operand 0) (h.goto .complete)
  exact .ite (.some (h.goto _)) <| .ite (.some hopened) <| .ite (.some (h.goto _))
    (h.stepLeaf nots [] 0 false x)

/-- **The readings take the same steps.** -/
theorem step (h : Framed r f) (x : Lexeme) : Follows (r.step x) fun c => (f c).step x := by
  unfold Reading.step
  simp only [h.place_eq]
  cases r.place with
  | operand nots => exact h.stepOperand nots x
  | negation nots sofar =>
    exact .ite (.some (h.goto _)) (.ite (.some (h.goto _)) (h.stepOperand (nots + 1) x))
  | leaf nots sofar depth bounds => exact h.stepLeaf nots sofar depth bounds x
  | complete => exact h.connect x

theorem run (h : Framed r f) (xs : List Lexeme) :
    Follows (Reading.run xs r) fun c => Reading.run xs (f c) := by
  induction xs generalizing r f with
  | nil => exact .some h
  | cons x xs ih => exact (h.step x).bind fun _ _ h => ih h

end Framed

end Reading

/-! ## Operands on both sides of ORs -/

namespace Sql

/-- Where an operand is expected, the SQL adds to the group the operands of several ANDs, each with
    an OR behind it, and those of a last one. -/
def Spreads (sql : Sql) (ands : List (List Tree)) (last : List Tree) : Prop :=
  ∀ outer group, ∃ r, Reading.run sql.lexemes ⟨outer, group, .operand 0⟩ = some r
    ∧ r.settled = some ⟨outer, (group.behind ands).addAll last, .complete⟩

/-- Without an OR, there are operands for the AND around the SQL. -/
theorem spreads_nil_iff {sql : Sql} {ts : List Tree} : Spreads sql [] ts ↔ Adds sql ts :=
  Iff.rfl

theorem Spreads.readsAs {sql : Sql} {ands : List (List Tree)} {last : List Tree}
    (h : Spreads sql ands last) : ReadsAs sql (.disjunction ((ands ++ [last]).map .conjunction)) := by
  intro outer
  obtain ⟨r, hrun, hsettled⟩ := h outer {}
  exact ⟨r, _, hrun, hsettled, Group.tree_behind ands last⟩

/-- OR ends the AND that is being read. -/
theorem Spreads.or {a b : Sql} {ands ands' : List (List Tree)} {last last' : List Tree}
    (ha : Spreads a ands last) (hb : Spreads b ands' last') :
    Spreads (a ++ code " OR " ++ b) (ands ++ last :: ands') last' := by
  intro outer group
  obtain ⟨r, hrun, hsettled⟩ := ha outer group
  have hor : Reading.run (code " OR ").lexemes r
      = some ⟨outer, ((group.behind ands).addAll last).next, .operand 0⟩ :=
    run_connective (x := .word ['O', 'R']) hsettled (by decide) (by decide) (by decide) rfl rfl
  obtain ⟨r', hrun', hsettled'⟩ := hb outer ((group.behind ands).addAll last).next
  refine ⟨r', ?_, ?_⟩
  · rw [lexemes_between (by decide), Reading.run_append, Reading.run_append, hrun, Option.bind_some,
      hor]
    exact hrun'
  · rw [hsettled', Group.behind_append]

end Sql

/-! ## Closed fragments -/

/-- Behind the end of a text, a quote would be taken for a doubled one; nothing else that follows
    changes what was read. -/
theorem Lexer.run_append {mode : Mode} {cs rest : List Char} {ts : List Token}
    (h : run mode cs = some ts) (hrest : rest.head? ≠ some '\'') :
    run mode (cs ++ rest) = (run .plain rest).map (ts ++ ·) := by
  induction cs generalizing mode ts with
  | nil =>
    cases mode with
    | plain =>
      obtain rfl : [] = ts := Option.some.inj h
      exact (congrFun Option.map_id _).symm
    | quoted sofar =>
      obtain rfl := Option.some.inj h
      exact run_quoted hrest
    | text sofar | name sofar | escaped sofar => exact nomatch h
  | cons c cs ih =>
    obtain ⟨us, hus, rfl⟩ := Option.map_eq_some_iff.mp h
    rw [List.cons_append, run, ih hus, Option.map_map]
    exact congrArg (Option.map · _) (funext fun vs => (List.append_assoc _ us vs).symm)

/-- A fragment that closes the quotes and brackets that it opens, and no others. -/
def isClosed (s : String) : Bool :=
  (lex s.toList).any fun ts => depthAfter 0 ts == some 0

/-- All fragments in the SQL are closed. -/
def Sql.Closed (sql : Sql) : Prop :=
  ∀ s, .verbatim s ∈ sql → isClosed s = true

theorem Sql.Closed.mono {part sql : Sql} (h : Closed sql) (hpart : part <:+: sql) :
    Closed part :=
  fun s hs => h s (hpart.subset hs)

/-- A piece that stands for a token. -/
def Token.piece : Token → Piece
  | .text content => .text content
  | .name identifier => .name identifier
  | .char c => .code (String.singleton c)

theorem Sql.tokens_map_piece (ts : List Token) : tokens (ts.map Token.piece) = ts := by
  induction ts with
  | nil => rfl
  | cons t ts ih =>
    rw [List.map_cons, tokens_cons, ih]
    cases t with
    | char c => simp [Token.piece, Piece.tokens]
    | text | name => rfl

/-- A fragment as the tokens that it stands for.  One that is not closed stands for nothing that can
    be told without what follows. -/
def fragmentSql (s : String) : Sql :=
  if isClosed s then ((lex s.toList).getD []).map Token.piece else []

theorem lex_of_isClosed {s : String} (h : isClosed s = true) :
    lex s.toList = some (fragmentSql s).tokens ∧ depthAfter 0 (fragmentSql s).tokens = some 0 := by
  rw [fragmentSql, if_pos h, Sql.tokens_map_piece]
  unfold isClosed at h
  cases hlex : lex s.toList with
  | none =>
    rw [hlex] at h
    exact nomatch h
  | some ts =>
    rw [hlex] at h
    exact ⟨rfl, eq_of_beq h⟩

/-! ### Their brackets -/

theorem Token.depthAfter_add {t : Token} {depth next : Nat} (h : t.depthAfter depth = some next)
    (around : Nat) : t.depthAfter (depth + around) = some (next + around) := by
  unfold depthAfter at h ⊢
  split at h
  · obtain rfl := Option.some.inj h
    exact congrArg some (by omega)
  · split at h
    · exact nomatch h
    · obtain rfl := Option.some.inj h
      rw [if_neg (by omega)]
      exact congrArg some (by omega)
  · obtain rfl := Option.some.inj h
    rfl

/-- Brackets around a text do not change what its own brackets do. -/
theorem depthAfter_add {ts : List Token} {depth next : Nat} (h : depthAfter depth ts = some next)
    (around : Nat) : depthAfter (depth + around) ts = some (next + around) := by
  induction ts generalizing depth with
  | nil =>
    obtain rfl : depth = next := Option.some.inj h
    rfl
  | cons t ts ih =>
    obtain ⟨between, ht, hts⟩ := Option.bind_eq_some_iff.mp h
    exact Option.bind_eq_some_iff.mpr ⟨_, Token.depthAfter_add ht around, ih hts⟩

theorem Sql.balanced_fragmentSql (s : String) : Balanced (fragmentSql s) := by
  intro depth
  by_cases h : isClosed s = true
  · simpa using depthAfter_add (lex_of_isClosed h).2 depth
  · rw [fragmentSql, if_neg h]
    rfl

/-! ### SQL around them -/

namespace Sql

/-- A closed fragment changes the depth of brackets as little as a text does. -/
theorem depthAfter_resolved (depth : Nat) (sql : Sql) :
    depthAfter depth (sql.replaced fragmentSql).tokens
      = depthAfter depth (sql.replaced (mask true)).tokens := by
  induction sql generalizing depth with
  | nil => rfl
  | cons p sql ih =>
    cases p with
    | verbatim s =>
      show depthAfter depth (fragmentSql s ++ replaced fragmentSql sql).tokens
        = depthAfter depth (.text s :: (replaced (mask true) sql).tokens)
      rw [tokens_append, depthAfter_append, balanced_fragmentSql s depth]
      exact ih depth
    | code | name | text =>
      show depthAfter depth (_ ++ (replaced fragmentSql sql).tokens)
        = depthAfter depth (_ ++ (replaced (mask true) sql).tokens)
      rw [depthAfter_append, depthAfter_append]
      exact Option.bind_congr fun next _ => ih next

theorem Balanced.resolved {sql : Sql} (h : Balanced (sql.replaced (mask true))) :
    Balanced (sql.replaced fragmentSql) :=
  fun depth => (depthAfter_resolved depth sql).trans (h depth)

/-- Whatever a piece is, it is masked as one piece, which is a text for a fragment. -/
def masked : Piece → Piece
  | .verbatim s => .text s
  | p => p

theorem replaced_mask_cons (p : Piece) (sql : Sql) :
    replaced (mask true) (p :: sql) = masked p :: replaced (mask true) sql := by
  cases p <;> rfl

/-- Behind a piece that is masked as a text, no quote follows. -/
theorem head?_chars_ne_of_masked {sql : Sql} (h : Lexable (sql.replaced (mask true)))
    (htext : ∀ p ∈ (sql.replaced (mask true)).head?, p.isText = false) :
    sql.chars.head? ≠ some '\'' := by
  cases sql with
  | nil => exact nofun
  | cons p sql =>
    cases p with
    | verbatim s => exact nomatch htext (.text s) rfl
    | code | name | text =>
      exact Piece.head?_chars_ne (h.1 _ List.mem_cons_self) (htext _ rfl) (chars sql)

/-- **SQL with closed fragments is read with the tokens of each in its place.** -/
theorem lex_resolved {sql : Sql} (h : Lexable (sql.replaced (mask true))) (hclosed : Closed sql) :
    lex sql.chars = some (sql.replaced fragmentSql).tokens := by
  induction sql with
  | nil => rfl
  | cons p sql ih =>
    rw [replaced_mask_cons] at h
    obtain ⟨hp, hpieces⟩ := List.forall_mem_cons.mp h.1
    obtain ⟨hapart, hchain⟩ := List.isChain_cons.mp h.2
    have hrest : Lexer.run .plain (chars sql) = some (replaced fragmentSql sql).tokens :=
      ih ⟨hpieces, hchain⟩ fun s hs => hclosed s (List.mem_cons_of_mem _ hs)
    have hhead : (masked p).isText = true → (chars sql).head? ≠ some '\'' := by
      refine fun htext => head?_chars_ne_of_masked ⟨hpieces, hchain⟩ fun q hq => ?_
      exact (hapart q hq).resolve_left (by rw [htext]; exact Bool.true_eq_false.mp)
    rw [chars_cons, lex]
    cases p with
    | verbatim s =>
      obtain ⟨hlex, -⟩ := lex_of_isClosed (hclosed s List.mem_cons_self)
      have hrun := Lexer.run_append hlex (hhead rfl)
      show Lexer.run .plain (s.toList ++ chars sql) = some (fragmentSql s ++ replaced _ sql).tokens
      rw [hrun, hrest, tokens_append]
      rfl
    | code | name | text =>
      refine (Piece.run_chars hp hhead).trans ?_
      rw [hrest]
      rfl

/-- **A fragment in its place spreads as its own group says.** -/
theorem spreads_fragmentSql {s : String} {g : Group} (hclosed : isClosed s = true)
    (h : readGroup s.toList = some g) :
    ∃ ands last, Spreads (fragmentSql s) ands last
      ∧ g = (({} : Group).behind ands).addAll last := by
  unfold readGroup at h
  obtain ⟨ts, hts, h⟩ := Option.bind_eq_some_iff.mp h
  obtain ⟨r, hrun, h⟩ := Option.bind_eq_some_iff.mp h
  obtain ⟨r', hsettled, h⟩ := Option.bind_eq_some_iff.mp h
  obtain rfl : (fragmentSql s).tokens = ts :=
    Option.some.inj ((lex_of_isClosed hclosed).1.symm.trans hts)
  obtain ⟨f, hf, hruns⟩ := Reading.Framed.start.run _ r hrun
  obtain ⟨f', hf', hsettles⟩ := hf.settled r' hsettled
  have hplace : r'.place = .complete := by
    rcases Reading.settled_cases hsettled with ⟨hplace, rfl⟩ | ⟨_, _, -, rfl⟩
    · exact hplace
    · rfl
  cases hf' with
  | base ands last place =>
    obtain rfl := Option.some.inj h
    obtain rfl : place = .complete := hplace
    exact ⟨ands, last, fun outer group => ⟨f ⟨outer, group⟩, hruns ⟨outer, group⟩,
      hsettles ⟨outer, group⟩⟩, rfl⟩
  | inner => exact nomatch h

end Sql

end SqlLoom
