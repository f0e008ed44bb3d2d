import CreditScoringMlops.Data.Grades
import CreditScoringMlops.Scoring.CreditApplication
import Mathlib.Data.Rat.Floor
import Mathlib.Tactic.Linarith

/-!
# The scale of scores, risk levels and decisions

All three are derived from one probability of default. The risk level and the decision are its
grades by their thresholds, and within `[0, 1]` the score is the rounded-down scaled probability,
counted down from 850. So each is monotone, and no lower score comes with a better assessment.
-/

namespace CreditScoringMlops.Scoring

open Python Data

/-- What a scoring derives from the probability of default. -/
@[ext] structure Assessment where
  score : ℤ
  riskLevel : RiskLevel
  decision : Decision
  deriving DecidableEq

/-- The three lines of `score_application` that derive it. -/
def assess (defaultProbability : PyFloat) : Except PyExc Assessment := do
  return {
    score := ← probabilityToScore defaultProbability
    riskLevel := getRiskLevel defaultProbability
    decision := getDecision defaultProbability }

/-- How bad a risk level is. -/
def RiskLevel.severity : RiskLevel → ℕ
  | low => 0
  | medium => 1
  | high => 2
  | veryHigh => 3

/-- How unfavourable a decision is. -/
def Decision.severity : Decision → ℕ
  | approved => 0
  | manualReview => 1
  | rejected => 2

/-- Risk levels are told apart by their severity. -/
theorem RiskLevel.severity_injective : Function.Injective severity := by
  intro a b h
  cases a <;> cases b <;> first | rfl | cases h

/-- So are decisions. -/
theorem Decision.severity_injective : Function.Injective severity := by
  intro a b h
  cases a <;> cases b <;> first | rfl | cases h

/-- The risk level is not worse and the decision not less favourable. -/
def Assessment.NoWorse (a b : Assessment) : Prop :=
  a.riskLevel.severity ≤ b.riskLevel.severity ∧ a.decision.severity ≤ b.decision.severity

/-- The thresholds of the risk levels. -/
def riskThresholds : List ℚ := [1 / 4, 1 / 2, 3 / 4]

/-- The thresholds of the decisions. -/
def decisionThresholds : List ℚ := [3 / 10, 3 / 5]

/-- The risk level grades the probability. -/
theorem severity_getRiskLevel (p : ℚ) :
    (getRiskLevel (.finite p)).severity = grade riskThresholds p := by
  have hladder : grade riskThresholds p =
      if p < 1 / 4 then 0 else if p < 1 / 2 then 1 else if p < 3 / 4 then 2 else 3 := by
    rw [riskThresholds, grade_cons (by norm_num), grade_cons (by norm_num),
      grade_cons (by norm_num)]
    split_ifs <;> rfl
  rw [hladder]
  simp only [getRiskLevel, PyFloat.below, decide_eq_true_eq]
  split_ifs <;> rfl

/-- The decision grades it, too. -/
theorem severity_getDecision (p : ℚ) :
    (getDecision (.finite p)).severity = grade decisionThresholds p := by
  have hladder : grade decisionThresholds p =
      if p < 3 / 10 then 0 else if p < 3 / 5 then 1 else 2 := by
    rw [decisionThresholds, grade_cons (by norm_num), grade_cons (by norm_num)]
    split_ifs <;> rfl
  rw [hladder]
  simp only [getDecision, PyFloat.below, decide_eq_true_eq]
  split_ifs <;> rfl

/-- A scaled probability is rounded down. -/
theorem scaledToInt_finite {p : ℚ} (hp : 0 ≤ p) : scaledToInt (.finite p) = .ok ⌊p * 550⌋ := by
  have hnum : 0 ≤ (p * 550).num := Rat.num_nonneg.mpr (by positivity)
  rw [scaledToInt, Rat.floor_def', Int.tdiv_eq_ediv_of_nonneg hnum]

/-- Within the unit interval its floor does not leave the width of the scale. -/
theorem floor_scaled_bounds {p : ℚ} (hp : p ∈ Set.Icc 0 1) : 0 ≤ ⌊p * 550⌋ ∧ ⌊p * 550⌋ ≤ 550 := by
  refine ⟨Int.floor_nonneg.mpr (by linarith [hp.1]), ?_⟩
  have hcast : p * 550 < ((550 + 1 : ℤ) : ℚ) := by
    push_cast
    linarith [hp.2]
  exact Int.lt_add_one_iff.mp (Int.floor_lt.mpr hcast)

/-- So the score is not clamped. -/
theorem probabilityToScore_finite {p : ℚ} (hp : p ∈ Set.Icc 0 1) :
    probabilityToScore (.finite p) = .ok (850 - ⌊p * 550⌋) := by
  have hfloor := floor_scaled_bounds hp
  rw [probabilityToScore, scaledToInt_finite hp.1, ok_bind, min_eq_right (by omega),
    max_eq_right (by omega)]
  rfl

/-- What a probability of the unit interval is assessed as. -/
def assessment (p : ℚ) : Assessment where
  score := 850 - ⌊p * 550⌋
  riskLevel := getRiskLevel (.finite p)
  decision := getDecision (.finite p)

/-- Within the unit interval every probability is assessed. -/
theorem assess_finite {p : ℚ} (hp : p ∈ Set.Icc 0 1) :
    assess (.finite p) = .ok (assessment p) := by
  rw [assess, probabilityToScore_finite hp]
  rfl

/-- The score stays on the scale. -/
theorem score_bounds {p : ℚ} (hp : p ∈ Set.Icc 0 1) :
    300 ≤ (assessment p).score ∧ (assessment p).score ≤ 850 := by
  have hfloor := floor_scaled_bounds hp
  constructor <;> simp only [assessment] <;> omega

/-- A greater probability does not score higher. -/
theorem score_le_of_le {p q : ℚ} (h : p ≤ q) : (assessment q).score ≤ (assessment p).score :=
  sub_le_sub_left (Int.floor_le_floor (mul_le_mul_of_nonneg_right h (by norm_num))) 850

/-- A smaller probability is not assessed worse. -/
theorem noWorse_of_le {p q : ℚ} (h : p ≤ q) : (assessment p).NoWorse (assessment q) := by
  constructor
  · change (getRiskLevel _).severity ≤ (getRiskLevel _).severity
    rw [severity_getRiskLevel, severity_getRiskLevel]
    exact grade_mono riskThresholds h
  · change (getDecision _).severity ≤ (getDecision _).severity
    rw [severity_getDecision, severity_getDecision]
    exact grade_mono decisionThresholds h

/-- A strictly higher score is not assessed worse either: only a smaller probability has it. -/
theorem noWorse_of_score_lt {p q : ℚ} (h : (assessment q).score < (assessment p).score) :
    (assessment p).NoWorse (assessment q) :=
  noWorse_of_le (le_of_not_ge fun hle => h.not_ge (score_le_of_le hle))

/-- Score, risk level and decision follow the probability, and the risk level and the decision
follow the score. -/
theorem assess_monotone {p q : ℚ} (hp : p ∈ Set.Icc 0 1) (hq : q ∈ Set.Icc 0 1) :
    ∃ a b, assess (.finite p) = .ok a ∧ assess (.finite q) = .ok b ∧
      (300 ≤ a.score ∧ a.score ≤ 850) ∧
      (p ≤ q → b.score ≤ a.score ∧ a.NoWorse b) ∧ (b.score < a.score → a.NoWorse b) :=
  ⟨_, _, assess_finite hp, assess_finite hq, score_bounds hp,
    fun h => ⟨score_le_of_le h, noWorse_of_le h⟩, noWorse_of_score_lt⟩

/-- Two applicants whose scores differ by one point and whose decisions differ. -/
theorem assess_monotone_at_threshold :
    ∃ a b, assess (.finite (299 / 1000)) = .ok a ∧ assess (.finite (3 / 10)) = .ok b ∧
      (300 ≤ a.score ∧ a.score ≤ 850) ∧ b.score ≤ a.score ∧ a.NoWorse b := by
  obtain ⟨a, b, ha, hb, hbounds, hle, -⟩ := assess_monotone
    (by constructor <;> norm_num : (299 / 1000 : ℚ) ∈ Set.Icc 0 1)
    (by constructor <;> norm_num : (3 / 10 : ℚ) ∈ Set.Icc 0 1)
  exact ⟨a, b, ha, hb, hbounds, hle (by norm_num)⟩

end CreditScoringMlops.Scoring
