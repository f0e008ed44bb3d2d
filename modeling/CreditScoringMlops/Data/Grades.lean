import Mathlib.Algebra.Order.Field.Basic
import Mathlib.Algebra.Order.Floor.Ring

/-!
# Grades by cut points

A grade counts the cut points that a value has reached. It is monotone, and two values have the same
grade exactly if no cut point separates them. Rounding down is the grade by all integers.
-/

namespace CreditScoringMlops.Data

variable {A : Type} [LinearOrder A]

/-- One of two values has reached the cut point, and the other has not. -/
def Separates (c x y : A) : Prop := (x < c ∧ c ≤ y) ∨ (y < c ∧ c ≤ x)

/-- It does not matter which of them has. -/
theorem separates_comm {c x y : A} : Separates c x y ↔ Separates c y x := or_comm

/-- Of two values in order, it is the greater one that has reached it. -/
theorem separates_iff_of_le {c x y : A} (h : x ≤ y) : Separates c x y ↔ x < c ∧ c ≤ y := by
  refine or_iff_left ?_
  rintro ⟨hlt, hle⟩
  exact absurd (hle.trans h) hlt.not_ge

/-- How many cut points a value has reached. -/
def grade (cuts : List A) (x : A) : ℕ := cuts.countP (· ≤ x)

/-- Greater values have higher grades. -/
theorem grade_mono (cuts : List A) : Monotone (grade cuts) := by
  intro x y h
  refine List.countP_mono_left fun c _ hc => ?_
  rw [decide_eq_true_eq] at hc ⊢
  exact hc.trans h

/-- The ladder of comparisons that finds a grade, the least cut point first. -/
theorem grade_cons {c : A} {cuts : List A} (h : ∀ d ∈ cuts, c ≤ d) (x : A) :
    grade (c :: cuts) x = if x < c then 0 else grade cuts x + 1 := by
  rw [grade, List.countP_cons]
  split_ifs with hreached hlt hlt
  · exact absurd hlt (of_decide_eq_true hreached).not_gt
  · rfl
  · refine List.countP_eq_zero.mpr fun d hd hle => ?_
    exact absurd ((h d hd).trans (of_decide_eq_true hle)) hlt.not_ge
  · exact absurd (decide_eq_true (not_lt.mp hlt)) hreached

/-- The grade of a greater value is the same if it has reached no further cut point. -/
theorem grade_eq_iff_of_le (cuts : List A) {x y : A} (h : x ≤ y) :
    grade cuts x = grade cuts y ↔ ∀ c ∈ cuts, ¬(x < c ∧ c ≤ y) := by
  induction cuts with
  | nil => simp [grade]
  | cons c cuts ih =>
    have hmono : grade cuts x ≤ grade cuts y := grade_mono cuts h
    rw [List.forall_mem_cons, ← ih, grade, grade, List.countP_cons, List.countP_cons]
    change grade cuts x + _ = grade cuts y + _ ↔ _ ∧ grade cuts x = grade cuts y
    by_cases hx : c ≤ x
    · simp [hx, hx.trans h, hx.not_gt]
    · by_cases hy : c ≤ y
      · simp only [hx, hy, decide_true, decide_false, if_true, not_le.mp hx, and_self,
          not_true_eq_false, false_and, iff_false, Bool.false_eq_true, if_false]
        omega
      · simp [hx, hy]

/-- Two values have the same grade if nothing separates them. -/
theorem grade_eq_iff (cuts : List A) (x y : A) :
    grade cuts x = grade cuts y ↔ ∀ c ∈ cuts, ¬Separates c x y := by
  obtain h | h := le_total x y
  · simp only [separates_iff_of_le h]
    exact grade_eq_iff_of_le cuts h
  · simp only [separates_comm (x := x), separates_iff_of_le h]
    rw [eq_comm]
    exact grade_eq_iff_of_le cuts h

section Floor

variable {K : Type} [Ring K] [LinearOrder K] [FloorRing K]

/-- Values are rounded down alike if no integer separates them. -/
theorem floor_eq_floor_iff (x y : K) : ⌊x⌋ = ⌊y⌋ ↔ ∀ n : ℤ, ¬Separates (n : K) x y := by
  constructor
  · rintro h n (⟨hlt, hle⟩ | ⟨hlt, hle⟩)
    · exact absurd (h ▸ Int.le_floor.mpr hle) (Int.floor_lt.mpr hlt).not_ge
    · exact absurd (h ▸ Int.le_floor.mpr hle) (Int.floor_lt.mpr hlt).not_ge
  · intro h
    refine le_antisymm (not_lt.mp fun hlt => ?_) (not_lt.mp fun hlt => ?_)
    · exact h ⌊x⌋ (.inr ⟨Int.floor_lt.mp hlt, Int.floor_le x⟩)
    · exact h ⌊y⌋ (.inl ⟨Int.floor_lt.mp hlt, Int.floor_le y⟩)

end Floor

/-- Scaled values are separated by the scaled cut point. -/
theorem separates_div_iff {K : Type} [Field K] [LinearOrder K] [IsStrictOrderedRing K]
    {c x y k : K} (hk : 0 < k) : Separates (c / k) x y ↔ Separates c (x * k) (y * k) := by
  simp only [Separates, lt_div_iff₀ hk, div_le_iff₀ hk]

end CreditScoringMlops.Data
