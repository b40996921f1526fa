/-
  Outcomes of computations that may fail.

  Lowering, the step to a statement and writing are all sequences of steps that may fail.  What
  matters about such a sequence is when it succeeds and with what, so each way to put steps together
  has one lemma that says so:

  * `bind_eq_ok`, `map_eq_ok`, …  — with which result it succeeds;
  * `succeeds_map`, `succeeds_bind`, …  — whether it does.

  Two passes over a list are one pass of the two steps together (`forall₂_exists`).
-/
import Mathlib.Data.List.Forall2

namespace SqlLoom.Outcome

variable {ε α β γ : Type}

/-! ## The result -/

/-- A computation in two steps succeeds exactly when both of them do. -/
theorem bind_eq_ok {x : Except ε α} {f : α → Except ε β} {b : β} :
    x >>= f = .ok b ↔ ∃ a, x = .ok a ∧ f a = .ok b := by
  cases x with
  | error e => exact ⟨nofun, nofun⟩
  | ok a => exact ⟨fun h => ⟨a, rfl, h⟩, fun ⟨_, h, h'⟩ => by cases h; exact h'⟩

theorem pure_eq_ok {a b : α} : (pure a : Except ε α) = .ok b ↔ b = a :=
  ⟨fun h => (Except.ok.inj h).symm, fun h => by rw [h]; rfl⟩

theorem ok_eq_ok {a b : α} : (.ok a : Except ε α) = .ok b ↔ b = a :=
  ⟨fun h => (Except.ok.inj h).symm, fun h => by rw [h]⟩

/-- What is asked of a result, when there is one. -/
theorem exists_of_eq_ok {x : Except ε α} {a : α} {P : α → Prop} (h : x = .ok a) :
    (∃ b, x = .ok b ∧ P b) ↔ P a := by
  constructor
  · rintro ⟨b, hb, hP⟩
    obtain rfl := Except.ok.inj (h.symm.trans hb)
    exact hP
  · exact fun hP => ⟨a, h, hP⟩

theorem error_eq_ok {e : ε} {b : α} : (.error e : Except ε α) = .ok b ↔ False :=
  ⟨nofun, nofun⟩

theorem map_eq_ok {x : Except ε α} {f : α → β} {b : β} :
    x.map f = .ok b ↔ ∃ a, x = .ok a ∧ b = f a := by
  cases x with
  | error e => exact ⟨nofun, nofun⟩
  | ok a =>
    exact ⟨fun h => ⟨a, rfl, (Except.ok.inj h).symm⟩, fun ⟨_, h, h'⟩ => by cases h; rw [h']; rfl⟩

theorem mapError_eq_ok {ε' : Type} {x : Except ε α} {f : ε → ε'} {a : α} :
    x.mapError f = .ok a ↔ x = .ok a := by
  cases x with
  | error e => exact ⟨nofun, nofun⟩
  | ok b => exact ⟨fun h => by rw [Except.ok.inj h], fun h => by rw [h]; rfl⟩

/-! ## The fault -/

/-- A computation in two steps fails with the fault of the step that does. -/
theorem bind_eq_error {x : Except ε α} {f : α → Except ε β} {e : ε} :
    x >>= f = .error e ↔ x = .error e ∨ ∃ a, x = .ok a ∧ f a = .error e := by
  cases x with
  | error e' =>
    constructor
    · intro h
      obtain rfl : e' = e := Except.error.inj h
      exact .inl rfl
    · rintro (h | ⟨_, h, -⟩)
      · rw [Except.error.inj h]
        rfl
      · exact nomatch h
  | ok a =>
    constructor
    · exact fun h => .inr ⟨a, rfl, h⟩
    · rintro (h | ⟨_, h, hf⟩)
      · exact nomatch h
      · cases h
        exact hf

theorem bind_pure_eq_error {x : Except ε α} {f : α → β} {e : ε} :
    (do return f (← x)) = .error e ↔ x = .error e := by
  rw [bind_eq_error]
  constructor
  · rintro (h | ⟨_, -, h⟩)
    · exact h
    · exact nomatch h
  · exact .inl

theorem mapError_eq_error {ε' : Type} {x : Except ε α} {f : ε → ε'} {e : ε'} :
    x.mapError f = .error e ↔ ∃ e', x = .error e' ∧ e = f e' := by
  cases x with
  | error e' =>
    constructor
    · exact fun h => ⟨e', rfl, (Except.error.inj h).symm⟩
    · rintro ⟨_, h, rfl⟩
      cases h
      rfl
  | ok a => exact ⟨nofun, nofun⟩

/-! ## Whether there is one -/

/-- A computation that has a result. -/
def Succeeds (x : Except ε α) : Prop :=
  ∃ a, x = .ok a

theorem succeeds_ok (a : α) : Succeeds (.ok a : Except ε α) :=
  ⟨a, rfl⟩

theorem not_succeeds_error (e : ε) : ¬ Succeeds (.error e : Except ε α) :=
  fun ⟨_, h⟩ => nomatch h

/-- A computation has exactly one of the two outcomes. -/
theorem fails_iff {x : Except ε α} : (∃ e, x = .error e) ↔ ¬ Succeeds x := by
  cases x with
  | error e => exact ⟨fun _ => not_succeeds_error e, fun _ => ⟨e, rfl⟩⟩
  | ok a => exact ⟨fun ⟨_, h⟩ => (nomatch h), fun h => absurd (succeeds_ok a) h⟩

theorem succeeds_map {x : Except ε α} {f : α → β} : Succeeds (x.map f) ↔ Succeeds x := by
  constructor
  · rintro ⟨b, h⟩
    obtain ⟨a, ha, -⟩ := map_eq_ok.mp h
    exact ⟨a, ha⟩
  · rintro ⟨a, ha⟩
    exact ⟨f a, map_eq_ok.mpr ⟨a, ha, rfl⟩⟩

/-- Whether the rest of a computation has a result may not depend on the first step. -/
theorem succeeds_bind {x : Except ε α} {f : α → Except ε β} {rest : Prop}
    (h : ∀ a, Succeeds (f a) ↔ rest) : Succeeds (x >>= f) ↔ Succeeds x ∧ rest := by
  constructor
  · rintro ⟨b, hb⟩
    obtain ⟨a, ha, hb⟩ := bind_eq_ok.mp hb
    exact ⟨⟨a, ha⟩, (h a).mp ⟨b, hb⟩⟩
  · rintro ⟨⟨a, rfl⟩, hrest⟩
    exact (h a).mpr hrest

theorem succeeds_bind_pure {x : Except ε α} {f : α → β} :
    Succeeds (do return f (← x)) ↔ Succeeds x := by
  have hf : ∀ a, Succeeds (pure (f a) : Except ε β) ↔ True :=
    fun a => ⟨fun _ => trivial, fun _ => succeeds_ok (f a)⟩
  exact (succeeds_bind hf).trans (and_true _).to_iff

theorem succeeds_bind₂ {x : Except ε α} {y : Except ε β} {f : α → β → γ} :
    Succeeds (do let a ← x; let b ← y; return f a b) ↔ Succeeds x ∧ Succeeds y :=
  succeeds_bind fun _ => succeeds_bind_pure

/-! ## Lists -/

/-- What links two lists item by item over a third one links them directly. -/
theorem forall₂_exists {R : α → β → Prop} {S : β → γ → Prop} {as : List α} {cs : List γ} :
    (∃ bs, List.Forall₂ R as bs ∧ List.Forall₂ S bs cs)
      ↔ List.Forall₂ (fun a c => ∃ b, R a b ∧ S b c) as cs := by
  constructor
  -- the middle list has the results of the first pass
  · rintro ⟨bs, hR, hS⟩
    induction hR generalizing cs with
    | nil => cases hS; exact .nil
    | cons hab _ ih =>
      obtain ⟨c, cs', hbc, hS', rfl⟩ := List.forall₂_cons_left_iff.mp hS
      exact .cons ⟨_, hab, hbc⟩ (ih hS')
  · intro h
    induction h with
    | nil => exact ⟨[], .nil, .nil⟩
    | cons h _ ih =>
      obtain ⟨b, hab, hbc⟩ := h
      obtain ⟨bs, hR, hS⟩ := ih
      exact ⟨b :: bs, .cons hab hR, .cons hbc hS⟩

/-- Two passes over a list are one, item by item. -/
theorem forall₂_both {R : α → β → Prop} {S : β → γ → Prop} {W : α → γ → Prop}
    (item : ∀ a c, (∃ b, R a b ∧ S b c) ↔ W a c) {as : List α} {cs : List γ} :
    (∃ bs, List.Forall₂ R as bs ∧ List.Forall₂ S bs cs) ↔ List.Forall₂ W as cs := by
  rw [forall₂_exists]
  simp only [item]

/-- What holds of everything that an item is linked to holds of all that a list is linked to. -/
theorem forall_of_forall₂ {R : α → β → Prop} {Q : β → Prop} {as : List α} {bs : List β}
    (h : List.Forall₂ R as bs) (item : ∀ a ∈ as, ∀ b, R a b → Q b) : ∀ b ∈ bs, Q b := by
  induction h with
  | nil => exact nofun
  | cons hab _ ih =>
    obtain ⟨ha, has⟩ := List.forall_mem_cons.mp item
    exact List.forall_mem_cons.mpr ⟨ha _ hab, ih has⟩

/-- Lists that are linked item by item are linked the other way round, if their items are. -/
theorem forall₂_swap {R : α → β → Prop} {S : β → α → Prop} {as : List α} {bs : List β}
    (h : List.Forall₂ R as bs) (item : ∀ a ∈ as, ∀ b, R a b → S b a) : List.Forall₂ S bs as := by
  induction h with
  | nil => exact .nil
  | cons hab _ ih =>
    obtain ⟨ha, has⟩ := List.forall_mem_cons.mp item
    exact .cons (ha _ hab) (ih has)

theorem forall₂_nil_iff {R : α → β → Prop} {as : List α} {bs : List β} (h : List.Forall₂ R as bs) :
    as = [] ↔ bs = [] := by
  rw [← List.length_eq_zero_iff, h.length_eq, List.length_eq_zero_iff]

/-- Each item of a list is linked to one of the other list. -/
theorem exists_of_forall₂ {R : α → β → Prop} {as : List α} {bs : List β} (h : List.Forall₂ R as bs)
    {a : α} (ha : a ∈ as) : ∃ b ∈ bs, R a b := by
  induction h with
  | nil => exact absurd ha List.not_mem_nil
  | cons hab _ ih =>
    rcases List.mem_cons.mp ha with rfl | ha
    · exact ⟨_, List.mem_cons_self, hab⟩
    · obtain ⟨b, hb, hlink⟩ := ih ha
      exact ⟨b, List.mem_cons_of_mem _ hb, hlink⟩

/-- A list with one item more is linked to one with one item more. -/
theorem forall₂_concat_left_iff {R : α → β → Prop} {as : List α} {a : α} {cs : List β} :
    List.Forall₂ R (as ++ [a]) cs ↔ ∃ bs b, List.Forall₂ R as bs ∧ R a b ∧ cs = bs ++ [b] := by
  constructor
  · induction as generalizing cs with
    | nil =>
      intro h
      obtain ⟨b, bs, hab, hbs, rfl⟩ := List.forall₂_cons_left_iff.mp h
      cases hbs
      exact ⟨[], b, .nil, hab, rfl⟩
    | cons a' as ih =>
      intro h
      obtain ⟨b', cs', hab', hcs', rfl⟩ := List.forall₂_cons_left_iff.mp h
      obtain ⟨bs, b, hbs, hab, rfl⟩ := ih hcs'
      exact ⟨b' :: bs, b, .cons hab' hbs, hab, rfl⟩
  · rintro ⟨bs, b, hbs, hab, rfl⟩
    exact List.rel_append hbs (.cons hab .nil)

/-- A list is linked to one exactly when each of its items is linked to something. -/
theorem forall₂_total {R : α → β → Prop} {as : List α} :
    (∃ bs, List.Forall₂ R as bs) ↔ ∀ a ∈ as, ∃ b, R a b := by
  induction as with
  | nil => exact ⟨fun _ _ h => absurd h List.not_mem_nil, fun _ => ⟨[], .nil⟩⟩
  | cons a as ih =>
    rw [List.forall_mem_cons, ← ih]
    constructor
    · rintro ⟨_, h⟩
      obtain ⟨b, bs, hab, hbs, -⟩ := List.forall₂_cons_left_iff.mp h
      exact ⟨⟨b, hab⟩, bs, hbs⟩
    · rintro ⟨⟨b, hab⟩, bs, hbs⟩
      exact ⟨b :: bs, .cons hab hbs⟩

/-- A rule for the items of one list that is a rule for stretches of another one. -/
theorem forall_flatten_of_forall₂ {A : α → Prop} {B : β → Prop} {as : List α}
    {bss : List (List β)} (h : List.Forall₂ (fun a bs => A a ↔ ∀ b ∈ bs, B b) as bss) :
    (∀ a ∈ as, A a) ↔ ∀ b ∈ bss.flatten, B b := by
  induction h with
  | nil => simp
  | cons hab _ ih => rw [List.forall_mem_cons, List.flatten_cons, List.forall_mem_append, hab, ih]

/-- A step taken for each item of a list in turn, with the results in a list. -/
theorem forall₂_of_steps (steps : List α → Except ε (List β)) {R : α → β → Prop}
    (nil : steps [] = .ok [])
    (cons : ∀ a as bs, steps (a :: as) = .ok bs
      ↔ ∃ b, R a b ∧ ∃ bs', steps as = .ok bs' ∧ bs = b :: bs') {as : List α} {bs : List β} :
    steps as = .ok bs ↔ List.Forall₂ R as bs := by
  induction as generalizing bs with
  | nil => rw [nil, ok_eq_ok, List.forall₂_nil_left_iff]
  | cons a as ih =>
    rw [cons, List.forall₂_cons_left_iff]
    constructor
    · rintro ⟨b, hb, bs', hbs, rfl⟩
      exact ⟨b, bs', hb, ih.mp hbs, rfl⟩
    · rintro ⟨b, bs', hb, hbs, rfl⟩
      exact ⟨b, hb, bs', ih.mpr hbs, rfl⟩

/-- Steps taken for the items of a list in turn fail on one of the items. -/
theorem exists_fault_of_steps (steps : List α → Except ε (List β)) {Fault : α → Prop} {e : ε}
    (nil : steps [] = .ok [])
    (cons : ∀ a as, steps (a :: as) = .error e → Fault a ∨ steps as = .error e)
    {as : List α} (h : steps as = .error e) : ∃ a ∈ as, Fault a := by
  induction as with
  | nil => exact nomatch nil.symm.trans h
  | cons a as ih =>
    rcases cons a as h with ha | has
    · exact ⟨a, List.mem_cons_self, ha⟩
    · obtain ⟨b, hb, hfault⟩ := ih has
      exact ⟨b, List.mem_cons_of_mem a hb, hfault⟩

/-- The same for one step for each item. -/
theorem exists_fault_of_each (steps : List α → Except ε (List β)) (step : α → Except ε γ) {e : ε}
    (nil : steps [] = .ok [])
    (cons : ∀ a as, ∃ item : γ → β, steps (a :: as) = do
      let c ← step a
      let bs ← steps as
      return item c :: bs)
    {as : List α} (h : steps as = .error e) : ∃ a ∈ as, step a = .error e := by
  refine exists_fault_of_steps steps nil (fun a as h => ?_) h
  obtain ⟨item, hitem⟩ := cons a as
  rcases bind_eq_error.mp (hitem.symm.trans h) with h | ⟨_, -, h⟩
  · exact .inl h
  · exact .inr (bind_pure_eq_error.mp h)

end SqlLoom.Outcome
