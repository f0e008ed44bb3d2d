import Mathlib.Data.Rat.Defs

/-!
# JSON values as Python dictionaries hold them

What `json.loads` returns and what the JSON columns store: `None`, booleans, integers, floats,
strings, lists and dictionaries with string keys in insertion order. A string is a text of Unicode
scalar values: one with a lone surrogate, which `json.loads` also reads, is left out. `truthy` is
the test of an `if`, `Dict.get?` is `dict.get` without a default, `Dict.merge` is
`{**left, **right}`.
-/

namespace CreditScoringMlops.Python

/-- A float: a finite value, or one of the three that `json.loads` and `float` also produce. -/
inductive PyFloat where
  | finite (q : ℚ)
  | posInf
  | negInf
  | nan
  deriving DecidableEq

/-- A JSON value. -/
inductive Json where
  | null
  | bool (b : Bool)
  | int (n : ℤ)
  | float (x : PyFloat)
  | str (s : String)
  | arr (items : List Json)
  | obj (fields : List (String × Json))

/-- A dictionary with string keys, oldest key first. -/
abbrev Dict := List (String × Json)

namespace PyFloat

/-- Only zero is false. -/
def truthy : PyFloat → Bool
  | finite q => !decide (q = 0)
  | _ => true

/-- The comparison `x > 0`; every comparison with `nan` is false. -/
def positive : PyFloat → Bool
  | finite q => decide (0 < q)
  | posInf => true
  | negInf => false
  | nan => false

/-- The comparison `x < q`. -/
def below (q : ℚ) : PyFloat → Bool
  | finite x => decide (x < q)
  | negInf => true
  | _ => false

/-- The comparison `x >= q`. -/
def atLeast (q : ℚ) : PyFloat → Bool
  | finite x => decide (q ≤ x)
  | posInf => true
  | _ => false

/-- The quotient by a positive integer. Finite floats are taken to be exact. -/
def divBy (n : ℤ) : PyFloat → PyFloat
  | finite x => finite (x / n)
  | x => x

end PyFloat

namespace Json

/-- The truth value of a JSON value in a condition. -/
def truthy : Json → Bool
  | null => false
  | bool b => b
  | int n => !decide (n = 0)
  | float x => x.truthy
  | str s => !s.isEmpty
  | arr items => !items.isEmpty
  | obj fields => !fields.isEmpty

/-- The test `value is True`, which no other true value passes. -/
def isTrue : Json → Bool
  | bool b => b
  | _ => false

/-- The comparison `value == "text"`. -/
def isStr (text : String) : Json → Bool
  | str s => s == text
  | _ => false

end Json

namespace Dict

/-- `d.get(key)`, where `none` stands for the missing key. -/
def get? (d : Dict) (key : String) : Option Json := (d.find? fun field => field.1 == key).map (·.2)

/-- `d.get(key)` in a condition: a missing key counts as `None`. -/
def truthyAt (d : Dict) (key : String) : Bool := (get? d key).elim false Json.truthy

/-- `d.get(key) == "text"`. -/
def isStrAt (d : Dict) (key text : String) : Bool := (get? d key).elim false (Json.isStr text)

/-- `d.get(key) is True`. -/
def isTrueAt (d : Dict) (key : String) : Bool := (get? d key).elim false Json.isTrue

/-- `d[key] = value`: an existing key keeps its place. -/
def set (d : Dict) (key : String) (value : Json) : Dict :=
  if d.any fun field => field.1 == key then
    d.map fun field => if field.1 == key then (key, value) else field
  else d ++ [(key, value)]

/-- `{**left, **right}`: later keys win. -/
def merge (left right : Dict) : Dict := right.foldl (fun d field => set d field.1 field.2) left

/-- Being `True` is being true. -/
theorem truthyAt_of_isTrueAt {d : Dict} {key : String} (h : isTrueAt d key) : truthyAt d key := by
  unfold isTrueAt at h
  unfold truthyAt
  cases hvalue : get? d key with
  | none => simp [hvalue] at h
  | some value =>
    rw [hvalue] at h
    cases value <;> first | exact h | cases h

/-- Setting another key leaves the value of a key alone. -/
theorem get?_set_of_ne {d : Dict} {key key' : String} (value : Json) (h : key' ≠ key) :
    get? (set d key' value) key = get? d key := by
  have hreplace : get? (d.map fun field => if field.1 == key' then (key', value) else field) key =
      get? d key := by
    unfold get?
    induction d with
    | nil => rfl
    | cons field d ih =>
      by_cases hkey' : field.1 = key'
      · simpa [hkey', h] using ih
      · by_cases hkey : field.1 = key
        · simp [hkey, h.symm]
        · simpa [hkey, hkey'] using ih
  unfold set
  split
  · exact hreplace
  · simp [get?, h]

/-- A key that the right side lacks keeps its value in a merge. -/
theorem get?_merge {left right : Dict} {key : String} (h : get? right key = none) :
    get? (merge left right) key = get? left key := by
  induction right generalizing left with
  | nil => rfl
  | cons field right ih =>
    have hkey : field.1 ≠ key := fun hkey => by simp [get?, hkey] at h
    have hrest : get? right key = none := by simpa [get?, hkey] using h
    exact (ih hrest).trans (get?_set_of_ne field.2 hkey)

end Dict

end CreditScoringMlops.Python
