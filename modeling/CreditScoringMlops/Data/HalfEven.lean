import Mathlib.Algebra.Order.Floor.Ring
import Mathlib.Algebra.Order.Field.Basic
import Mathlib.Tactic.Linarith

/-!
# Rounding half to even

The nearest integer, and the even one of two that are equally near. It is monotone and odd, so the
magnitude of a rounded value is the rounded magnitude.
-/

namespace CreditScoringMlops.Data

variable {K : Type} [Field K] [LinearOrder K]

/-- The nearest integer; of two, the even one. -/
def halfEven [FloorRing K] (x : K) : ℤ :=
  if x - ⌊x⌋ < 1 / 2 ∨ (x - ⌊x⌋ = 1 / 2 ∧ ⌊x⌋ % 2 = 0) then ⌊x⌋ else ⌊x⌋ + 1

/-- An integer is the nearest one, or it is even and as near as any. -/
def IsHalfEven (x : K) (n : ℤ) : Prop := |x - n| < 1 / 2 ∨ (|x - n| = 1 / 2 ∧ Even n)

/-- Such an integer is at most a half away. -/
theorem IsHalfEven.abs_sub_le {x : K} {n : ℤ} (h : IsHalfEven x n) : |x - n| ≤ 1 / 2 :=
  h.elim le_of_lt fun h => h.1.le

variable [IsStrictOrderedRing K]

/-- There is one such integer only. -/
theorem IsHalfEven.eq {x : K} {m n : ℤ} (hm : IsHalfEven x m) (hn : IsHalfEven x n) : m = n := by
  wlog hle : m ≤ n generalizing m n
  · exact (this hn hm (not_le.mp hle).le).symm
  by_contra hne
  have hstep : (m : K) + 1 ≤ n := by exact_mod_cast hle.lt_of_ne hne
  have hupper := (abs_le.mp hm.abs_sub_le).2
  have hlower := (abs_le.mp hn.abs_sub_le).1
  have hsucc : n = m + 1 := by
    have : (n : K) = ((m + 1 : ℤ) : K) := by push_cast; linarith
    exact_mod_cast this
  -- `x` lies half way between the two, and only one of them is even
  have hmid : x = m + 1 / 2 := by linarith
  have hmhalf : |x - m| = 1 / 2 := by rw [hmid, add_sub_cancel_left, abs_of_pos (by norm_num)]
  have hnhalf : |x - n| = 1 / 2 := by
    rw [hmid, hsucc, Int.cast_add, Int.cast_one, add_sub_add_left_eq_sub,
      abs_of_neg (by norm_num)]
    norm_num
  have hmeven : Even m := hm.elim (fun h => absurd hmhalf h.ne) And.right
  have hneven : Even n := hn.elim (fun h => absurd hnhalf h.ne) And.right
  rw [hsucc] at hneven
  exact Int.not_even_iff_odd.mpr hmeven.add_one hneven

variable [FloorRing K]

/-- Rounding finds it. -/
theorem isHalfEven_halfEven (x : K) : IsHalfEven x (halfEven x) := by
  have hlower : 0 ≤ x - ⌊x⌋ := sub_nonneg.mpr (Int.floor_le x)
  have hupper : x - ⌊x⌋ < 1 := by linarith [Int.lt_floor_add_one x]
  unfold halfEven
  split
  · rename_i hdown
    rw [IsHalfEven, abs_of_nonneg hlower]
    exact hdown.imp_right fun h => ⟨h.1, Int.even_iff.mpr h.2⟩
  · rename_i hup
    rw [not_or, not_lt, not_and] at hup
    have habs : |x - (⌊x⌋ + 1 : ℤ)| = 1 - (x - ⌊x⌋) := by
      push_cast
      rw [abs_of_neg (by linarith)]
      linarith
    rw [IsHalfEven, habs]
    obtain hlt | heq := hup.1.lt_or_eq
    · exact .inl (by linarith)
    · refine .inr ⟨by linarith, ?_⟩
      have hodd : Odd ⌊x⌋ := Int.not_even_iff_odd.mp fun heven =>
        hup.2 heq.symm (Int.even_iff.mp heven)
      exact hodd.add_one

/-- A value is rounded to `n` if that is the integer. -/
theorem halfEven_eq_iff {x : K} {n : ℤ} : halfEven x = n ↔ IsHalfEven x n :=
  ⟨fun h => h ▸ isHalfEven_halfEven x, fun h => (isHalfEven_halfEven x).eq h⟩

/-- Integers are kept. -/
@[simp] theorem halfEven_intCast (n : ℤ) : halfEven (n : K) = n :=
  halfEven_eq_iff.mpr (.inl (by norm_num))

/-- The opposite value is rounded to the opposite integer. -/
@[simp] theorem halfEven_neg (x : K) : halfEven (-x) = -halfEven x := by
  refine halfEven_eq_iff.mpr ?_
  have habs : |-x - (-halfEven x : ℤ)| = |x - halfEven x| := by
    rw [Int.cast_neg, neg_sub_neg, abs_sub_comm]
  rw [IsHalfEven, habs, even_neg]
  exact isHalfEven_halfEven x

/-- Greater values are not rounded to smaller integers. -/
theorem halfEven_mono {x y : K} (h : x ≤ y) : halfEven x ≤ halfEven y := by
  by_contra hlt
  rw [not_le] at hlt
  have hstep : (halfEven y : K) + 1 ≤ halfEven x := by exact_mod_cast hlt
  have hlower := (abs_le.mp (isHalfEven_halfEven x).abs_sub_le).1
  have hupper := (abs_le.mp (isHalfEven_halfEven y).abs_sub_le).2
  have hsame : x = y := by linarith
  exact hlt.ne' (congrArg halfEven hsame)

/-- The magnitude of a rounded value is the rounded magnitude. -/
theorem abs_halfEven (x : K) : |halfEven x| = halfEven |x| := by
  have hzero : halfEven (0 : K) = 0 := by exact_mod_cast halfEven_intCast (K := K) 0
  obtain h | h := le_total 0 x
  · rw [abs_of_nonneg h, abs_of_nonneg (hzero ▸ halfEven_mono h)]
  · rw [abs_of_nonpos h, abs_of_nonpos (hzero ▸ halfEven_mono h), halfEven_neg]

end CreditScoringMlops.Data
