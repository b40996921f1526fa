/-
  Filling in values for question marks is one exact pass.

  The PIECES of a text are what stands between its question marks, so a text with n of them has n + 1
  pieces.  Filled in with v₁ … vₙ it is

      p₀ v₁ p₁ … vₙ pₙ

  Two scans have to agree for that: one counts the question marks, and the other replaces them and
  takes one value for each.

  1. `woven` puts pieces and literals together in this way.
  2. The invariant of the second scan: as many values are left as question marks are to come.  Then
     no value is missing, and the rest of the text becomes its pieces, woven with the literals of the
     values that are left (`fillFrom_eq_woven`).
  3. The question marks of the result are those of the literals (`count_woven`): none of the text is
     left, and none of a literal is replaced.
-/
import SqlLoom.Proofs.Outcome
import SqlLoom.Value.Placeholder

namespace SqlLoom.Placeholder

open Outcome

/-! ## Pieces -/

/-- What stands between the question marks of a text. -/
def pieces (sql : List Char) : List (List Char) :=
  sql.splitOn '?'

theorem pieces_mark (rest : List Char) : pieces ('?' :: rest) = [] :: pieces rest := by
  rw [pieces, List.splitOn_cons_eq_if_modifyHead]
  rfl

theorem pieces_cons_of_ne {c : Char} (h : c ≠ '?') (rest : List Char) :
    pieces (c :: rest) = (pieces rest).modifyHead (c :: ·) := by
  rw [pieces, List.splitOn_cons_eq_if_modifyHead, if_neg (by simpa using h)]
  rfl

theorem length_pieces (sql : List Char) : (pieces sql).length = count sql + 1 := by
  induction sql with
  | nil => rfl
  | cons c rest ih =>
    by_cases hc : c = '?'
    · subst hc
      rw [pieces_mark, count_mark, List.length_cons, ih]
    · rw [pieces_cons_of_ne hc, count_cons_of_ne hc, List.length_modifyHead, ih]

/-- `p₀ l₁ p₁ … lₙ pₙ`. -/
def woven (ps literals : List (List Char)) : List Char :=
  (List.zipWith (· ++ ·) ps (literals ++ [[]])).flatten

/-- A question mark makes room for a literal. -/
theorem woven_pieces_mark (rest l : List Char) (ls : List (List Char)) :
    woven (pieces ('?' :: rest)) (l :: ls) = l ++ woven (pieces rest) ls := by
  rw [pieces_mark]
  rfl

/-- Any other character stands in front of all that follows. -/
theorem woven_pieces_cons_of_ne {c : Char} (h : c ≠ '?') (rest : List Char)
    (ls : List (List Char)) : woven (pieces (c :: rest)) ls = c :: woven (pieces rest) ls := by
  rw [pieces_cons_of_ne h]
  obtain ⟨p, ps, hps⟩ := List.exists_cons_of_ne_nil (List.splitOn_ne_nil '?' rest)
  rw [pieces, hps]
  cases ls <;> rfl

/-! ## The pass -/

/-- With one value left for each question mark to come, the pass weaves the pieces with the literals
    of these values. -/
theorem fillFrom_eq_woven {values : List Value} {index : Nat} {sql : List Char}
    (h : index + count sql = values.length) :
    fillFrom values index sql
      = some (woven (pieces sql) ((values.drop index).map (·.literal.chars))) := by
  induction sql generalizing index with
  | nil =>
    have hlength : values.length ≤ index := Nat.le_of_eq h.symm
    rw [List.drop_eq_nil_of_le hlength]
    rfl
  | cons c rest ih =>
    by_cases hc : c = '?'
    · subst hc
      rw [count_mark] at h
      have hindex : index < values.length := by omega
      have hleft : index + 1 + count rest = values.length := by omega
      rw [List.drop_eq_getElem_cons hindex, List.map_cons, woven_pieces_mark]
      simp [fillFrom, List.getElem?_eq_getElem hindex, ih hleft]
    · rw [count_cons_of_ne hc] at h
      rw [woven_pieces_cons_of_ne hc]
      simp [fillFrom, hc, ih h]

/-- Filling takes a value for each question mark, or nothing at all. -/
theorem fill_eq_ok_iff {sql filled : String} {values : List Value} (hvalues : values ≠ []) :
    fill sql values = .ok filled
      ↔ count sql.toList = values.length ∧ fillFrom values 0 sql.toList = some filled.toList := by
  rw [fill, if_neg (by simpa using hvalues)]
  split
  · rename_i hcount
    rw [ok_eq_ok, Option.eq_some_iff_get_eq]
    constructor
    · rintro rfl
      exact ⟨hcount, isSome_fillFrom (by omega), String.toList_ofList.symm⟩
    · rintro ⟨-, _, hget⟩
      rw [hget, String.ofList_toList]
  · rename_i hcount
    exact ⟨fun h => (error_eq_ok.mp h).elim, fun h => absurd h.1 hcount⟩

/-! ## Question marks in the result -/

theorem count_woven {sql : List Char} {ls : List (List Char)} (h : count sql = ls.length) :
    count (woven (pieces sql) ls) = count ls.flatten := by
  induction sql generalizing ls with
  | nil =>
    obtain rfl : ls = [] := List.length_eq_zero_iff.mp h.symm
    rfl
  | cons c rest ih =>
    by_cases hc : c = '?'
    · subst hc
      rw [count_mark] at h
      obtain ⟨l, ls, rfl⟩ := List.exists_cons_of_length_eq_add_one h.symm
      rw [woven_pieces_mark, count_append, ih (Nat.succ.inj h), List.flatten_cons, count_append]
    · rw [count_cons_of_ne hc] at h
      rw [woven_pieces_cons_of_ne hc, count_cons_of_ne hc, ih h]

/-- **Filling is one exact pass.**  It succeeds when there are as many values as question marks, and
    only then.  The pass then has a result, so it never asks for a value that is not there; and the
    result is the text with the literal of each value, in order, in the place of its question mark.
    Question marks in the literals stay what they are. -/
theorem filling_is_one_exact_pass (sql : String) {values : List Value} (hvalues : values ≠ []) :
    (Succeeds (fill sql values) ↔ count sql.toList = values.length)
      ∧ ∀ filled, fill sql values = .ok filled →
          fillFrom values 0 sql.toList = some filled.toList
            ∧ (pieces sql.toList).length = values.length + 1
            ∧ filled.toList = woven (pieces sql.toList) (values.map (·.literal.chars))
            ∧ count filled.toList = count (values.map (·.literal.chars)).flatten := by
  have hpass : count sql.toList = values.length → fillFrom values 0 sql.toList
      = some (woven (pieces sql.toList) (values.map (·.literal.chars))) := by
    intro hcount
    have hstart : 0 + count sql.toList = values.length := by omega
    exact fillFrom_eq_woven hstart
  refine ⟨⟨fun ⟨_, h⟩ => ((fill_eq_ok_iff hvalues).mp h).1, fun hcount => ?_⟩, fun filled h => ?_⟩
  · refine ⟨String.ofList (woven (pieces sql.toList) (values.map (·.literal.chars))),
      (fill_eq_ok_iff hvalues).mpr ⟨hcount, ?_⟩⟩
    rw [String.toList_ofList, hpass hcount]
  · obtain ⟨hcount, hfilled⟩ := (fill_eq_ok_iff hvalues).mp h
    have hwoven := Option.some.inj (hfilled.symm.trans (hpass hcount))
    refine ⟨hfilled, by rw [length_pieces, hcount], hwoven, ?_⟩
    rw [hwoven, count_woven (by rw [hcount, List.length_map])]

/-- A text with a question mark is filled in, and its question mark is not. -/
theorem filling_is_one_exact_pass_of_question :
    [Value.text "why?", .int 7] ≠ []
      ∧ fill "a = ? AND b = ?" [.text "why?", .int 7] = .ok "a = 'why?' AND b = 7"
      ∧ count "a = 'why?' AND b = 7".toList = 1 := by
  have hvalues : [Value.text "why?", .int 7] ≠ [] := by decide
  have hfill : fill "a = ? AND b = ?" [.text "why?", .int 7] = .ok "a = 'why?' AND b = 7" := by
    decide +kernel
  obtain ⟨-, hfilled⟩ := filling_is_one_exact_pass "a = ? AND b = ?" hvalues
  exact ⟨hvalues, hfill, (hfilled _ hfill).2.2.2⟩

end SqlLoom.Placeholder
