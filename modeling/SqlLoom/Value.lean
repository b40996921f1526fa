/-
  Values that a query carries: literals in conditions, rows, assignments and settings.

  A value is one of eight kinds.  Arrays and maps nest; a map is an ordered list of entries and its
  keys may repeat, because the order and the repetitions are visible in the SQL.

  * `Value.equal`  — equality as numbers compare: a NaN differs from itself, the two zeros agree, and
    values of different kinds are never equal.
  * `Record.put`, `Record.mergeInto` — assignment to a key: in place when the key is present, at the
    end otherwise.
-/
import SqlLoom.Calendar
import SqlLoom.Number.Binary64

namespace SqlLoom

/-- A value of the query language. -/
inductive Value where
  | null
  | bool (b : Bool)
  | int (n : Int64)
  | float (x : Binary64)
  | text (s : String)
  | instant (t : Instant)
  | array (items : List Value)
  | map (entries : List (String × Value))

/-- Keys with values, in order.  Keys may repeat. -/
abbrev Record := List (String × Value)

/-- The values of one inserted row. -/
abbrev Row := List Value

namespace Value

instance : Inhabited Value := ⟨.null⟩

/-- Whether the value is the SQL null. -/
def isNull : Value → Bool
  | .null => true
  | _ => false

/-! ## Equality -/

mutual

/-- Equality of values of one kind; numbers compare as numbers. -/
def equal : Value → Value → Bool
  | .null, .null => true
  | .bool a, .bool b => a == b
  | .int a, .int b => a == b
  | .float a, .float b => Binary64.equal a b
  | .text a, .text b => a == b
  | .instant a, .instant b => decide (a = b)
  | .array as, .array bs => equalItems as bs
  | .map as, .map bs => equalEntries as bs
  | _, _ => false

/-- Lists are equal when they have the same length and equal items. -/
def equalItems : List Value → List Value → Bool
  | [], [] => true
  | a :: as, b :: bs => equal a b && equalItems as bs
  | _, _ => false

/-- Entries are equal when keys and values are, in the same order. -/
def equalEntries : List (String × Value) → List (String × Value) → Bool
  | [], [] => true
  | (k, a) :: as, (l, b) :: bs => k == l && equal a b && equalEntries as bs
  | _, _ => false

end

instance : BEq Value := ⟨equal⟩

end Value

/-! ## Records -/

namespace Record

/-- Gives `key` a value: the first entry of that key keeps its place and takes the value, and a new
    key goes to the end. -/
def put (key : String) (value : Value) : Record → Record
  | [] => [(key, value)]
  | (k, v) :: rest => if k = key then (k, value) :: rest else (k, v) :: put key value rest

/-- Puts the entries of `source` into `target`, one after the other. -/
def mergeInto (target source : Record) : Record :=
  source.foldl (fun acc entry => put entry.1 entry.2 acc) target

/-- The keys, in order. -/
def keys (r : Record) : List String :=
  r.map (·.1)

theorem keys_put_of_mem {key : String} {value : Value} {r : Record} (h : key ∈ r.keys) :
    (put key value r).keys = r.keys := by
  induction r with
  | nil => simp [keys] at h
  | cons entry rest ih =>
    obtain ⟨k, v⟩ := entry
    by_cases hk : k = key
    · simp [put, hk, keys]
    · have : key ∈ keys rest := by
        simp only [keys, List.map_cons, List.mem_cons] at h ⊢
        exact h.resolve_left (fun e => hk e.symm)
      simpa [put, hk, keys] using ih this

theorem keys_put_of_not_mem {key : String} {value : Value} {r : Record} (h : key ∉ r.keys) :
    (put key value r).keys = r.keys ++ [key] := by
  induction r with
  | nil => rfl
  | cons entry rest ih =>
    obtain ⟨k, v⟩ := entry
    simp only [keys, List.map_cons, List.mem_cons, not_or] at h
    simpa [put, Ne.symm h.1, keys] using ih h.2

end Record

end SqlLoom
