/-
  Records merge as ordered maps in which the last value wins.

  An entry that is put into a record takes the place of the first entry with its key, or the end.
  Position and value of a key therefore come from different entries: it stands where its FIRST entry
  put it, and holds what its LAST entry gave it.

      put "a" 3 [("a", 1), ("b", 2)]  =  [("a", 3), ("b", 2)]
      put "c" 3 [("a", 1), ("b", 2)]  =  [("a", 1), ("b", 2), ("c", 3)]

  1. One entry: `keys_put` for the positions, `lookup_put` for the values, and when two entries can
     be swapped or one of them dropped (`put_put_self`, `put_comm`, `put_eq_self`).
  2. A whole record, by induction over its entries: `keys_mergeInto` says where the keys stand,
     `lookup_mergeInto` what they hold.  The invariant of the merge is that no key stands twice; an
     entry that is put in place keeps the keys, and one that is put at the end has a new key.
  3. Merging a record again changes nothing (`mergeInto_mergeInto_self`), even one with repeated
     keys: while it is merged a second time its earlier entries bring back old values, but each of
     them is overwritten by a later entry with the same key.
  4. The assignments of an UPDATE are the merge of all that was assigned, whatever other calls stand
     between, and so is the SET list of its SQL.
-/
import SqlLoom.Proofs.CallOrder
import SqlLoom.Proofs.Written.Query

namespace SqlLoom

open Sql (code)

namespace Record

/-- The value that the last entry of a key gives it. -/
def latest (key : String) (r : Record) : Option Value :=
  List.lookup key r.reverse

/-! ## One entry -/

theorem lookup_cons (l : String) (entry : String × Value) (r : Record) :
    List.lookup l (entry :: r) = if l = entry.1 then some entry.2 else List.lookup l r := by
  rw [List.lookup_cons]
  by_cases h : l = entry.1
  · rw [if_pos h, beq_iff_eq.mpr h]
  · rw [if_neg h, beq_false_of_ne h]

theorem lookup_eq_none_iff {l : String} {r : Record} : List.lookup l r = none ↔ l ∉ r.keys := by
  rw [List.lookup_eq_none_iff]
  simp only [bne_iff_ne, keys, List.mem_map, not_exists, not_and]
  exact forall₂_congr fun _ _ => ne_comm

theorem keys_put (key : String) (value : Value) (r : Record) :
    (put key value r).keys = if key ∈ r.keys then r.keys else r.keys ++ [key] := by
  by_cases h : key ∈ r.keys
  · rw [if_pos h, keys_put_of_mem h]
  · rw [if_neg h, keys_put_of_not_mem h]

theorem mem_keys_put {key l : String} {value : Value} {r : Record} (h : l ∈ r.keys) :
    l ∈ (put key value r).keys := by
  rw [keys_put]
  split
  · exact h
  · exact List.mem_append_left _ h

theorem nodup_keys_put {r : Record} (h : r.keys.Nodup) (key : String) (value : Value) :
    (put key value r).keys.Nodup := by
  rw [keys_put]
  split
  case isTrue => exact h
  case isFalse hnew =>
    refine List.nodup_append.mpr ⟨h, by simp, ?_⟩
    intro l hl k hk heq
    rw [heq, List.mem_singleton.mp hk] at hl
    exact hnew hl

theorem lookup_put (key : String) (value : Value) (l : String) (r : Record) :
    List.lookup l (put key value r) = if l = key then some value else List.lookup l r := by
  induction r with
  | nil => rw [put, lookup_cons]
  | cons entry rest ih =>
    obtain ⟨k, v⟩ := entry
    by_cases hk : k = key
    · subst hk
      rw [put, if_pos rfl, lookup_cons, lookup_cons]
      by_cases h : l = k <;> simp [h]
    · rw [put, if_neg hk, lookup_cons, lookup_cons, ih]
      by_cases h : l = k
      · subst h
        simp [hk]
      · simp [h]

/-- Of two entries with one key, the second one stays. -/
theorem put_put_self (key : String) (v w : Value) (r : Record) :
    put key w (put key v r) = put key w r := by
  induction r with
  | nil => simp [put]
  | cons entry rest ih =>
    obtain ⟨k, u⟩ := entry
    by_cases hk : k = key <;> simp [put, hk, ih]

/-- Two entries with different keys can be swapped when one of them has a place already. -/
theorem put_comm {key l : String} (hne : l ≠ key) {r : Record} (h : key ∈ r.keys) (v w : Value) :
    put l w (put key v r) = put key v (put l w r) := by
  induction r with
  | nil => simp [keys] at h
  | cons entry rest ih =>
    obtain ⟨k, u⟩ := entry
    by_cases hk : k = key
    · subst hk
      simp [put, Ne.symm hne]
    · have hrest : key ∈ keys rest := by
        simp only [keys, List.map_cons, List.mem_cons] at h
        exact h.resolve_left (fun e => hk e.symm)
      by_cases hl : k = l
      · subst hl
        simp [put, hk]
      · simp [put, hk, hl, ih hrest]

/-- Giving a key the value that it holds changes nothing. -/
theorem put_eq_self {key : String} {value : Value} {r : Record}
    (h : List.lookup key r = some value) : put key value r = r := by
  induction r with
  | nil => exact nomatch h
  | cons entry rest ih =>
    obtain ⟨k, v⟩ := entry
    by_cases hk : k = key
    · subst hk
      obtain rfl : v = value := by simpa [lookup_cons] using h
      simp [put]
    · have hrest : List.lookup key rest = some value := by
        simpa [lookup_cons, Ne.symm hk] using h
      simp [put, hk, ih hrest]

/-! ## A whole record -/

@[simp] theorem mergeInto_nil (t : Record) : t.mergeInto [] = t := rfl

@[simp] theorem mergeInto_cons (t : Record) (entry : String × Value) (a : Record) :
    t.mergeInto (entry :: a) = (put entry.1 entry.2 t).mergeInto a := rfl

/-- Merging two records in turn is merging one behind the other. -/
theorem mergeInto_append (t a b : Record) :
    t.mergeInto (a ++ b) = (t.mergeInto a).mergeInto b :=
  List.foldl_append

theorem foldl_mergeInto (t : Record) (ms : List Record) :
    ms.foldl mergeInto t = t.mergeInto ms.flatten := by
  induction ms generalizing t with
  | nil => rfl
  | cons m ms ih => rw [List.foldl_cons, ih, List.flatten_cons, mergeInto_append]

/-- **No key stands twice**, in the target and so in the result. -/
theorem nodup_keys_mergeInto {t : Record} (h : t.keys.Nodup) (a : Record) :
    (t.mergeInto a).keys.Nodup := by
  induction a generalizing t with
  | nil => exact h
  | cons entry a ih => exact ih (nodup_keys_put h entry.1 entry.2)

/-- A name that was met before does not count for the order of first occurrences. -/
theorem eraseDups_append_cons_of_mem {key : String} {ks : List String} (h : key ∈ ks)
    (ls : List String) : (ks ++ key :: ls).eraseDups = (ks ++ ls).eraseDups := by
  rw [List.eraseDups_append, List.eraseDups_append]
  have hdrop : (key :: ls).removeAll ks = ls.removeAll ks := by simp [List.removeAll, h]
  rw [hdrop]

theorem eraseDups_of_nodup {ks : List String} (h : ks.Nodup) : ks.eraseDups = ks := by
  induction ks with
  | nil => rfl
  | cons k ks ih =>
    obtain ⟨hk, hks⟩ := List.nodup_cons.mp h
    have hkeep : ks.filter (fun l => !l == k) = ks := by
      refine List.filter_eq_self.mpr fun l hl => ?_
      have hne : l ≠ k := fun e => hk (e ▸ hl)
      simpa using hne
    rw [List.eraseDups_cons, hkeep, ih hks]

/-- **The keys stand in the order of their first occurrences.** -/
theorem keys_mergeInto {t : Record} (h : t.keys.Nodup) (a : Record) :
    (t.mergeInto a).keys = (t.keys ++ keys a).eraseDups := by
  induction a generalizing t with
  | nil =>
    rw [mergeInto_nil]
    show t.keys = (t.keys ++ []).eraseDups
    rw [List.append_nil, eraseDups_of_nodup h]
  | cons entry a ih =>
    rw [mergeInto_cons, ih (nodup_keys_put h entry.1 entry.2), keys_put]
    show _ = (t.keys ++ entry.1 :: keys a).eraseDups
    by_cases hmem : entry.1 ∈ t.keys
    · rw [if_pos hmem, eraseDups_append_cons_of_mem hmem]
    · rw [if_neg hmem, List.append_assoc, List.singleton_append]

/-- The last entry of a key is the last one behind the first entry, or the first entry. -/
theorem latest_cons (key : String) (entry : String × Value) (a : Record) :
    latest key (entry :: a)
      = (latest key a).or (if key = entry.1 then some entry.2 else none) := by
  rw [latest, List.reverse_cons, List.lookup_append, latest, lookup_cons, List.lookup_nil]

theorem lookup_of_mem {r : Record} (h : r.keys.Nodup) {entry : String × Value} (hentry : entry ∈ r) :
    List.lookup entry.1 r = some entry.2 := by
  induction r with
  | nil => exact absurd hentry List.not_mem_nil
  | cons first rest ih =>
    obtain ⟨hfirst, hrest⟩ := List.nodup_cons.mp h
    rw [lookup_cons]
    rcases List.mem_cons.mp hentry with rfl | hlater
    · rw [if_pos rfl]
    · have hne : entry.1 ≠ first.1 :=
        fun e => hfirst (List.mem_map.mpr ⟨entry, hlater, e⟩)
      rw [if_neg hne, ih hrest hlater]

/-- **A key holds the value of its last occurrence.** -/
theorem lookup_mergeInto (key : String) (t a : Record) :
    List.lookup key (t.mergeInto a) = (latest key a).or (List.lookup key t) := by
  induction a generalizing t with
  | nil => rfl
  | cons entry a ih =>
    rw [mergeInto_cons, ih, lookup_put, latest_cons, Option.or_assoc]
    by_cases h : key = entry.1 <;> simp [h]

theorem latest_eq_none_iff {key : String} {a : Record} : latest key a = none ↔ key ∉ keys a := by
  rw [latest, lookup_eq_none_iff, keys, keys, List.map_reverse, List.mem_reverse]

theorem latest_of_mem {key : String} {a : Record} (h : key ∈ keys a) :
    ∃ value, latest key a = some value :=
  Option.ne_none_iff_exists'.mp fun hnone => latest_eq_none_iff.mp hnone h

/-! A merge that starts from the empty record is a function of the entries alone. -/

theorem nodup_keys_merged (a : Record) : (mergeInto [] a).keys.Nodup :=
  nodup_keys_mergeInto (t := []) List.nodup_nil a

theorem keys_merged (a : Record) : (mergeInto [] a).keys = (keys a).eraseDups :=
  keys_mergeInto (t := []) List.nodup_nil a

theorem lookup_merged (key : String) (a : Record) :
    List.lookup key (mergeInto [] a) = latest key a := by
  rw [lookup_mergeInto, List.lookup_nil, Option.or_none]

/-! ## Merging again -/

/-- A value is not seen any more when a later entry has the same key. -/
theorem mergeInto_put_of_mem {key : String} {t a : Record} (ht : key ∈ t.keys) (ha : key ∈ keys a)
    (v : Value) : (put key v t).mergeInto a = t.mergeInto a := by
  induction a generalizing t with
  | nil => simp [keys] at ha
  | cons entry a ih =>
    obtain ⟨l, w⟩ := entry
    rw [mergeInto_cons, mergeInto_cons]
    by_cases hl : l = key
    · subst hl
      rw [put_put_self]
    · have hrest : key ∈ keys a := by
        simp only [keys, List.map_cons, List.mem_cons] at ha
        exact ha.resolve_left (fun e => hl e.symm)
      rw [put_comm hl ht, ih (mem_keys_put ht) hrest]

/-- A record changes nothing where its keys hold its last values already. -/
theorem mergeInto_eq_self {t a : Record}
    (h : ∀ key ∈ keys a, List.lookup key t = latest key a) : t.mergeInto a = t := by
  induction a with
  | nil => rfl
  | cons entry a ih =>
    obtain ⟨k, v⟩ := entry
    have hhead := h k List.mem_cons_self
    have hrest : t.mergeInto a = t := by
      refine ih fun key hkey => ?_
      obtain ⟨w, hw⟩ := latest_of_mem hkey
      rw [h key (List.mem_cons_of_mem k hkey), latest_cons, hw, Option.some_or]
    rw [mergeInto_cons]
    by_cases hk : k ∈ keys a
    · -- a later entry overwrites this one
      have hplace : k ∈ t.keys := by
        obtain ⟨w, hw⟩ := latest_of_mem hk
        by_contra hno
        rw [lookup_eq_none_iff.mpr hno, latest_cons, hw] at hhead
        exact nomatch hhead
      rw [mergeInto_put_of_mem hplace hk, hrest]
    · -- this is the last entry of its key
      have hvalue : List.lookup k t = some v := by
        rw [hhead, latest_cons, latest_eq_none_iff.mpr hk, if_pos rfl, Option.none_or]
      rw [put_eq_self hvalue, hrest]

/-- **Merging a record twice in a row is merging it once.** -/
theorem mergeInto_mergeInto_self (t a : Record) : (t.mergeInto a).mergeInto a = t.mergeInto a := by
  refine mergeInto_eq_self fun key hkey => ?_
  obtain ⟨w, hw⟩ := latest_of_mem hkey
  rw [lookup_mergeInto, hw, Option.some_or]

end Record

/-! ## The assignments of an UPDATE -/

namespace Update

/-- What a call assigns, if it assigns something. -/
def Call.assigned : Call → Option Record
  | .assign values => some values
  | _ => none

/-- The assignments of an UPDATE after some calls are merged from those that were there and all that
    the calls assign. -/
theorem assignments_applyAll (q : Update) (calls : List Call) :
    (q.applyAll calls).assignments
      = (calls.filterMap Call.assigned).foldl Record.mergeInto q.assignments := by
  induction calls generalizing q with
  | nil => rfl
  | cons call calls ih =>
    show ((q.apply call).applyAll calls).assignments = _
    rw [ih]
    cases call with
    | assign values => rfl
    | addFilter condition => rfl
    | setSettings settings => rfl

/-- One written assignment for each key, in order, with the value that was given last. -/
def SetList (entries : Record) (parts : List Sql) : Prop :=
  List.Forall₂ (fun key part => ∃ value, entries.latest key = some value
    ∧ AssignmentWrites (key, value) part) entries.keys.eraseDups parts

/-- Assignments with no key twice are written one for each key. -/
theorem assignments_by_key {r : Record} (h : r.keys.Nodup) {parts : List Sql}
    (hparts : List.Forall₂ AssignmentWrites r parts) :
    List.Forall₂ (fun key part => ∃ value, List.lookup key r = some value
      ∧ AssignmentWrites (key, value) part) r.keys parts := by
  have hvalues : ∀ entry ∈ r, List.lookup entry.1 r = some entry.2 :=
    fun _ hentry => Record.lookup_of_mem h hentry
  rw [Record.keys, List.forall₂_map_left_iff]
  refine ((List.forall₂_and_left _ _).mpr ⟨hvalues, hparts⟩).imp ?_
  rintro entry part ⟨hvalue, hpart⟩
  exact ⟨entry.2, hvalue, hpart⟩

/-- The SET list of an UPDATE that was built. -/
theorem setList_of_writes {table : String} {calls : List Call} {parts : List Sql}
    (hparts : List.Forall₂ AssignmentWrites (applyAll { table } calls).assignments parts) :
    SetList (calls.filterMap Call.assigned).flatten parts := by
  rw [assignments_applyAll, Record.foldl_mergeInto] at hparts
  have h := assignments_by_key (Record.nodup_keys_merged _) hparts
  rw [Record.keys_merged] at h
  refine h.imp ?_
  rintro key part ⟨value, hvalue, hpart⟩
  rw [Record.lookup_merged] at hvalue
  exact ⟨value, hvalue, hpart⟩

end Update

/-! ## The result -/

/-- **Records merge as ordered maps in which the last value wins.**  No key stands twice, the keys
    stand in the order in which they first occur, and each holds the value of its last occurrence.
    So records can be merged in turn or at once, and one that is merged again changes nothing; and
    the SQL of an UPDATE that was built has exactly one assignment for each key that was
    assigned. -/
theorem last_value_wins :
    (∀ ms : List Record,
        (ms.foldl Record.mergeInto []).keys.Nodup
          ∧ (ms.foldl Record.mergeInto []).keys = (Record.keys ms.flatten).eraseDups
          ∧ ∀ key, List.lookup key (ms.foldl Record.mergeInto []) = Record.latest key ms.flatten)
      ∧ (∀ t a b : Record, (t.mergeInto a).mergeInto b = t.mergeInto (a ++ b))
      ∧ (∀ t a : Record, (t.mergeInto a).mergeInto a = t.mergeInto a)
      ∧ (∀ table calls, (Update.applyAll { table } calls).assignments
          = (calls.filterMap Update.Call.assigned).foldl Record.mergeInto [])
      ∧ ∀ table calls sql, (Query.update (Update.applyAll { table } calls)).compile = .ok sql →
          ∃ name parts filter, NameWrites .selection table name
            ∧ Update.SetList (calls.filterMap Update.Call.assigned).flatten parts
            ∧ ClauseWrites " WHERE " (Update.applyAll { table } calls).filter filter
            ∧ sql = code "ALTER TABLE " ++ name ++ code " UPDATE"
                ++ Statement.clause " " ", " parts ++ filter
                ++ Statement.settingsSql (Update.applyAll { table } calls).settings := by
  refine ⟨fun ms => ?_, fun t a b => (Record.mergeInto_append t a b).symm,
    Record.mergeInto_mergeInto_self, fun table => Update.assignments_applyAll { table }, ?_⟩
  · rw [Record.foldl_mergeInto]
    exact ⟨Record.nodup_keys_merged _, Record.keys_merged _, fun key => Record.lookup_merged key _⟩
  · intro table calls sql hsql
    obtain ⟨-, hwrites⟩ := Query.compile_iff.mp hsql
    obtain ⟨name, parts, filter, hname, hparts, hfilter, rfl⟩ := hwrites
    rw [Update.table_applyAll] at hname
    exact ⟨name, parts, filter, hname, Update.setList_of_writes hparts, hfilter, rfl⟩

/-- Two records that repeat a key, one in itself and one in the other. -/
def Update.reassigned : List Update.Call :=
  [.assign [("b", .int 1), ("a", .int 2), ("b", .int 3)], .addFilter (.raw "c"),
    .assign [("d", .int 4), ("a", .int 5)]]

/-- The keys keep their places and take the later values. -/
theorem last_value_wins_of_reassigned :
    ∃ sql name parts filter,
      (Query.update (Update.applyAll { table := "t" } Update.reassigned)).compile = .ok sql
        ∧ sql.text = "ALTER TABLE `t` UPDATE `b` = 3, `a` = 5, `d` = 4 WHERE c"
        ∧ NameWrites .selection "t" name
        ∧ Update.SetList (Update.reassigned.filterMap Update.Call.assigned).flatten parts
        ∧ ClauseWrites " WHERE " (Update.applyAll { table := "t" } Update.reassigned).filter filter
        ∧ sql = code "ALTER TABLE " ++ name ++ code " UPDATE"
            ++ Statement.clause " " ", " parts ++ filter
            ++ Statement.settingsSql (Update.applyAll { table := "t" } Update.reassigned).settings := by
  obtain ⟨name, parts, filter, hname, hparts, hfilter, hsql⟩ :=
    last_value_wins.2.2.2.2 "t" Update.reassigned _ rfl
  exact ⟨_, name, parts, filter, rfl, rfl, hname, hparts, hfilter, hsql⟩

end SqlLoom
