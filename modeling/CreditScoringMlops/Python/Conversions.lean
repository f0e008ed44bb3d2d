import CreditScoringMlops.Python.Exceptions
import CreditScoringMlops.Python.Floats

/-!
# Conversions of values

Calls that take any JSON value: `float`, `list`, the operator `in`, and attribute access. What the
standard library makes of a text (`json.loads`, `float` of a string) or prints (`json.dumps`,
`str`) is left open.
-/

namespace CreditScoringMlops.Python

/-- Readers and printers of texts. Nothing is assumed of them. -/
structure Conversions where
  loads : String → Except PyExc Json
  dumps : Json → Except PyExc String
  str : Json → String
  parseFloat : String → Option PyFloat
  excName : PyExc → String

/-- `str(value)`. -/
def Conversions.strOf (conversions : Conversions) : Json → String
  | .str s => s
  | value => conversions.str value

/-- `type(value).__name__`. -/
def Json.typeName : Json → String
  | null => "NoneType"
  | bool _ => "bool"
  | int _ => "int"
  | float _ => "float"
  | str _ => "str"
  | arr _ => "list"
  | obj _ => "dict"

/-- The exception of `value.name` for a type without that attribute. -/
def Json.noAttribute (value : Json) (name : String) : PyExc :=
  .attributeError s!"'{value.typeName}' object has no attribute '{name}'"

/-- The least integer that rounds to no finite float. -/
def floatLimit : ℤ := 2 ^ 1024 - 2 ^ 970

/-- `float(value)`. -/
def Conversions.float (conversions : Conversions) : Json → Except PyExc PyFloat
  | .bool b => .ok (.finite (if b then 1 else 0))
  | .int n =>
    if n.natAbs < floatLimit then .ok (.finite n)
    else .error (.overflowError "int too large to convert to float")
  | .float x => .ok x
  | .str s =>
    match conversions.parseFloat s with
    | some x => .ok x
    | none => .error (.valueError s!"could not convert string to float: {reprString s}")
  | value => .error (.typeError
      s!"float() argument must be a string or a real number, not '{value.typeName}'")

/-- `max(lower, min(upper, x))`, which keeps the first of two operands unless the second is
strictly less or greater. -/
def PyFloat.clamp (lower upper x : PyFloat) : PyFloat :=
  let capped := if lt x upper then x else upper
  if lt lower capped then capped else lower

/-- The exceptions of `float`. -/
theorem Conversions.float_error {conversions : Conversions} {value : Json} {exc : PyExc}
    (h : conversions.float value = .error exc) :
    (∃ message, exc = .typeError message) ∨ (∃ message, exc = .valueError message) ∨
      ∃ message, exc = .overflowError message := by
  cases value with
  | bool b => cases h
  | float x => cases h
  | int n =>
    simp only [float] at h
    split at h
    · cases h
    · exact .inr (.inr ⟨_, (Except.error.inj h).symm⟩)
  | str s =>
    simp only [float] at h
    split at h
    · cases h
    · exact .inr (.inl ⟨_, (Except.error.inj h).symm⟩)
  | null => exact .inl ⟨_, (Except.error.inj h).symm⟩
  | arr items => exact .inl ⟨_, (Except.error.inj h).symm⟩
  | obj fields => exact .inl ⟨_, (Except.error.inj h).symm⟩

namespace PyFloat

/-- A finite float is kept between the bounds. -/
theorem clamp_finite (q : ℚ) :
    clamp (finite 0) (finite 1) (finite q) = finite (max 0 (min 1 q)) := by
  by_cases hupper : q < 1
  · by_cases hlower : 0 < q
    · simp [clamp, lt, ge, hupper, hlower, hupper.le, hlower.le]
    · simp [clamp, lt, ge, hupper, hupper.le, not_lt.mp hlower]
  · simp [clamp, lt, ge, not_lt.mp hupper]

/-- An infinite one becomes a bound. -/
theorem clamp_posInf : clamp (finite 0) (finite 1) posInf = finite 1 := by decide

theorem clamp_negInf : clamp (finite 0) (finite 1) negInf = finite 0 := by decide

/-- No number is less than the upper bound, which is therefore kept. -/
theorem clamp_nan : clamp (finite 0) (finite 1) nan = finite 1 := by decide

end PyFloat

/-- `list(value)`. -/
def Json.toList : Json → Except PyExc (List Json)
  | .arr items => .ok items
  | .str s => .ok (s.toList.map fun c => .str c.toString)
  | .obj fields => .ok (fields.map fun field => .str field.1)
  | value => .error (.typeError s!"'{value.typeName}' object is not iterable")

/-- `"text" in value`. -/
def Json.hasMember (text : String) : Json → Except PyExc Bool
  | .arr items => .ok (items.any (isStr text))
  | .str s => .ok (s.toList.tails.any fun rest => text.toList.isPrefixOf rest)
  | .obj fields => .ok (fields.any fun field => field.1 == text)
  | value => .error (.typeError s!"argument of type '{value.typeName}' is not iterable")

/-- `value.get(key, fallback)`. -/
def Json.getOr (value : Json) (key : String) (fallback : Json) : Except PyExc Json :=
  match value with
  | .obj fields => .ok ((Dict.get? fields key).getD fallback)
  | value => .error (value.noAttribute "get")

/-- `value.items()`. -/
def Json.items : Json → Except PyExc Dict
  | .obj fields => .ok fields
  | value => .error (value.noAttribute "items")

/-- `value[key]`. -/
def Json.item (value : Json) (key : String) : Except PyExc Json :=
  match value with
  | .obj fields => (Dict.get? fields key).elim (.error (.keyError key)) .ok
  | .arr _ => .error (.typeError "list indices must be integers or slices, not str")
  | .str _ => .error (.typeError "string indices must be integers, not 'str'")
  | value => .error (.typeError s!"'{value.typeName}' object is not subscriptable")

/-- Membership in a dictionary is having a value there. -/
theorem Json.hasMember_obj (fields : Dict) (key : String) :
    (Json.obj fields).hasMember key = .ok (Dict.get? fields key).isSome := by
  rw [hasMember, Dict.get?, Option.isSome_map, List.isSome_find?]

end CreditScoringMlops.Python
