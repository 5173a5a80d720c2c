import DocQuery.Binary64.Shortest
import DocQuery.Text.Segments

set_option autoImplicit false

namespace DocQuery

/-- A number is an integer of the signed or unsigned 64-bit range, or a binary64 value. The two
are never equal: `1` and `1.0` are different numbers. -/
inductive Number where
  | int (value : Int)
  | real (value : Binary64)
  deriving DecidableEq, Repr, Inhabited

namespace Number

def minInt64 : Int := -9223372036854775808

def maxInt64 : Int := 9223372036854775807

def maxNat64 : Int := 18446744073709551615

def asInt64? : Number → Option Int
  | .int i => if minInt64 ≤ i ∧ i ≤ maxInt64 then some i else none
  | .real _ => none

def asNat64? : Number → Option Nat
  | .int i => if 0 ≤ i ∧ i ≤ maxNat64 then some i.toNat else none
  | .real _ => none

def text : Number → String
  | .int i => toString i
  | .real x => x.text

end Number

inductive Json where
  | null
  | bool (value : Bool)
  | num (value : Number)
  | str (value : String)
  | arr (items : List Json)
  | obj (members : List (String × Json))
  deriving Repr, Inhabited

abbrev Fields := List (String × Json)

namespace Fields

def get? : Fields → String → Option Json
  | [], _ => none
  | (k, v) :: rest, key => if k = key then some v else get? rest key

def contains (fields : Fields) (key : String) : Bool := (fields.get? key).isSome

def keys (fields : Fields) : List String := fields.map (·.1)

def insert : Fields → String → Json → Fields
  | [], key, value => [(key, value)]
  | (k, v) :: rest, key, value =>
    if k = key then (k, value) :: rest else (k, v) :: insert rest key value

theorem get?_insert (fields : Fields) (key other : String) (value : Json) :
    (fields.insert key value).get? other =
      if key = other then some value else fields.get? other := by
  induction fields with
  | nil => simp [insert, get?]
  | cons member rest ih =>
    obtain ⟨k, v⟩ := member
    by_cases same : k = key
    · subst same
      by_cases found : k = other <;> simp [insert, get?, found]
    · by_cases found : k = other
      · subst found
        simp [insert, get?, same, Ne.symm same]
      · simp [insert, get?, same, found, ih]

theorem get?_eq_none (fields : Fields) (key : String) :
    fields.get? key = none ↔ key ∉ fields.keys := by
  induction fields with
  | nil => simp [get?, keys]
  | cons member rest ih =>
    obtain ⟨k, v⟩ := member
    simp only [keys] at ih
    by_cases found : k = key
    · simp [get?, keys, found]
    · simp [get?, keys, found, ih, Ne.symm found]

theorem insert_of_not_mem {fields : Fields} {key : String} (fresh : key ∉ fields.keys)
    (value : Json) : fields.insert key value = fields ++ [(key, value)] := by
  induction fields with
  | nil => rfl
  | cons member rest ih =>
    obtain ⟨k, v⟩ := member
    simp only [keys, List.map_cons, List.mem_cons, not_or] at fresh
    simp [insert, Ne.symm fresh.1, ih fresh.2]

theorem keys_insert (fields : Fields) (key : String) (value : Json) :
    (fields.insert key value).keys =
      if key ∈ fields.keys then fields.keys else fields.keys ++ [key] := by
  induction fields with
  | nil => simp [insert, keys]
  | cons member rest ih =>
    obtain ⟨k, v⟩ := member
    simp only [keys] at ih
    by_cases found : k = key
    · simp [insert, keys, found]
    · simp only [insert, keys, found, if_false, List.map_cons, ih, List.mem_cons,
        Ne.symm found, false_or]
      by_cases present : key ∈ rest.map (·.1) <;> simp [present]

def ofList (members : List (String × Json)) : Fields :=
  members.foldl (fun fields member => fields.insert member.1 member.2) []

end Fields

namespace Json

def int (i : Int) : Json := .num (.int i)

def nat (n : Nat) : Json := int n

def ofOption : Option Json → Json
  | some value => value
  | none => .null

def object? : Json → Option Fields
  | .obj members => some members
  | _ => none

def array? : Json → Option (List Json)
  | .arr items => some items
  | _ => none

def nat64? : Json → Option Nat
  | .num n => n.asNat64?
  | _ => none

def isNull : Json → Bool
  | .null => true
  | _ => false

def isObject : Json → Bool
  | .obj _ => true
  | _ => false

def member? (value : Json) (key : String) : Option Json :=
  value.object?.bind (·.get? key)

def under? (value : Json) : List String → Option Json
  | [] => some value
  | key :: rest =>
    match value.member? key with
    | some inner => inner.under? rest
    | none => none

def valueAt? (document : Json) (path : String) : Option Json :=
  match document.under? (Text.segments '.' path) with
  | some .null => none
  | found => found

end Json

end DocQuery
