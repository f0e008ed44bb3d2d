import CreditScoringMlops.Python.Json
import Mathlib.Algebra.Order.Ring.Rat
import Mathlib.Tactic.Linarith

/-!
# Sums and comparisons of floats

Finite floats are taken to be exact. A comparison with `nan` is false in either direction, so `ge`
and `lt` are not each other's negations.
-/

namespace CreditScoringMlops.Python.PyFloat

/-- The sum `x + y`. -/
def add : PyFloat → PyFloat → PyFloat
  | finite x, finite y => finite (x + y)
  | nan, _ => nan
  | _, nan => nan
  | posInf, negInf => nan
  | negInf, posInf => nan
  | posInf, _ => posInf
  | _, posInf => posInf
  | negInf, _ => negInf
  | _, negInf => negInf

/-- The comparison `x >= y`. -/
def ge : PyFloat → PyFloat → Bool
  | nan, _ => false
  | _, nan => false
  | posInf, _ => true
  | _, negInf => true
  | finite x, finite y => decide (y ≤ x)
  | _, _ => false

/-- The comparison `x < y`. -/
def lt : PyFloat → PyFloat → Bool
  | nan, _ => false
  | _, nan => false
  | x, y => !ge x y

/-- The comparison `x > q`. -/
def above (q : ℚ) : PyFloat → Bool
  | finite x => decide (q < x)
  | posInf => true
  | _ => false

/-- The comparison `x == y`. -/
def eq : PyFloat → PyFloat → Bool
  | nan, _ => false
  | x, y => decide (x = y)

/-- A finite float is equal to itself. -/
@[simp] theorem eq_finite_self (q : ℚ) : eq (finite q) (finite q) := by
  simp [eq]

/-- The quotient `x / y` of arrays, which is infinite or `nan` for `y = 0`. -/
def div : PyFloat → PyFloat → PyFloat
  | finite x, finite y =>
    if y ≠ 0 then finite (x / y) else if 0 < x then posInf else if x < 0 then negInf else nan
  | finite _, posInf => finite 0
  | finite _, negInf => finite 0
  | posInf, finite y => if 0 ≤ y then posInf else negInf
  | negInf, finite y => if 0 ≤ y then negInf else posInf
  | _, _ => nan

/-- The quotient by a positive integer. -/
theorem div_finite_of_pos {n : ℤ} (h : 0 < n) (x : PyFloat) : div x (finite n) = divBy n x := by
  have hne : (n : ℚ) ≠ 0 := by exact_mod_cast h.ne'
  have hle : (0 : ℚ) ≤ n := by exact_mod_cast h.le
  cases x <;> simp [div, divBy, hne, hle]

/-- The comparison is transitive, whatever the floats are. -/
theorem ge_trans {x y z : PyFloat} (hxy : ge x y) (hyz : ge y z) : ge x z := by
  cases x <;> cases y <;> cases z <;> simp_all [ge]
  exact hyz.trans hxy

/-- What is at least a sum with a summand that is not negative is at least the other summand. -/
theorem ge_of_ge_add {x y z : PyFloat} (hz : ge z (finite 0)) (h : ge x (add y z)) : ge x y := by
  cases x <;> cases y <;> cases z <;> simp_all [ge, add]
  linarith

end CreditScoringMlops.Python.PyFloat
