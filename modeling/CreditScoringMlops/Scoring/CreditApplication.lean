import CreditScoringMlops.Python.Exceptions
import CreditScoringMlops.Python.Json

/-!
# Scoring of credit applications

The application schema of the scoring service, its features, and what is derived from a
probability of default. Floats are exact rationals or one of the three special values.
-/

namespace CreditScoringMlops.Scoring

open Python

/-- An integer field with its bounds. -/
abbrev Within (lower upper : ℤ) := { n : ℤ // lower ≤ n ∧ n ≤ upper }

/-- A validated application. -/
structure CreditApplication where
  checkingAccountStatus : Within 1 4
  durationMonths : Within 1 100
  creditHistory : Within 0 4
  purpose : Within 0 10
  creditAmount : { x : PyFloat // x.positive }
  savingsAccount : Within 1 5
  employmentSince : Within 1 5
  installmentRate : Within 1 4
  personalStatusSex : Within 1 4
  otherDebtors : Within 1 3
  residenceSince : Within 1 4
  property : Within 1 4
  age : Within 18 100
  otherInstallmentPlans : Within 1 3
  housing : Within 1 3
  existingCredits : Within 1 4
  job : Within 1 4
  peopleLiable : Within 1 2
  telephone : Within 1 2
  foreignWorker : Within 1 2

/-- An integer field of a payload within its bounds. -/
def integerField (payload : Dict) (name : String) (lower upper : ℤ) :
    Except String (Within lower upper) :=
  match payload.get? name with
  | some (.int n) => if h : lower ≤ n ∧ n ≤ upper then .ok ⟨n, h⟩ else .error name
  | _ => .error name

/-- A positive field of a payload; an integer is taken as a float. -/
def positiveField (payload : Dict) (name : String) : Except String { x : PyFloat // x.positive } :=
  let check (x : PyFloat) := if h : x.positive then .ok ⟨x, h⟩ else .error name
  match payload.get? name with
  | some (.float x) => check x
  | some (.int n) => check (.finite n)
  | _ => .error name

/-- The validation of a payload that has the types of the schema, for sample runs. -/
def validateTyped (payload : Dict) : Except String CreditApplication := do
  return {
    checkingAccountStatus := ← integerField payload "checking_account_status" 1 4
    durationMonths := ← integerField payload "duration_months" 1 100
    creditHistory := ← integerField payload "credit_history" 0 4
    purpose := ← integerField payload "purpose" 0 10
    creditAmount := ← positiveField payload "credit_amount"
    savingsAccount := ← integerField payload "savings_account" 1 5
    employmentSince := ← integerField payload "employment_since" 1 5
    installmentRate := ← integerField payload "installment_rate" 1 4
    personalStatusSex := ← integerField payload "personal_status_sex" 1 4
    otherDebtors := ← integerField payload "other_debtors" 1 3
    residenceSince := ← integerField payload "residence_since" 1 4
    property := ← integerField payload "property" 1 4
    age := ← integerField payload "age" 18 100
    otherInstallmentPlans := ← integerField payload "other_installment_plans" 1 3
    housing := ← integerField payload "housing" 1 3
    existingCredits := ← integerField payload "existing_credits" 1 4
    job := ← integerField payload "job" 1 4
    peopleLiable := ← integerField payload "people_liable" 1 2
    telephone := ← integerField payload "telephone" 1 2
    foreignWorker := ← integerField payload "foreign_worker" 1 2 }

/-- The two thresholds of the feature configuration. -/
structure FeatureConfig where
  longTermThreshold : ℚ
  highAmountThreshold : ℚ

/-- A row of the feature table: the application and the columns added to it. -/
structure Features where
  application : CreditApplication
  creditAmountPerMonth : PyFloat
  creditAmountPerAge : PyFloat
  isLongTermLoan : Bool
  isHighAmountLoan : Bool

/-- `build_features`, once the configuration is loaded. -/
def buildFeatures (application : CreditApplication) (config : FeatureConfig) : Features where
  application := application
  creditAmountPerMonth := application.creditAmount.1.divBy application.durationMonths
  creditAmountPerAge := application.creditAmount.1.divBy application.age
  isLongTermLoan := decide (config.longTermThreshold ≤ (application.durationMonths.1 : ℚ))
  isHighAmountLoan := application.creditAmount.1.atLeast config.highAmountThreshold

/-- `int(p * 550)`, which a special value does not survive. -/
def scaledToInt : PyFloat → Except PyExc ℤ
  | .finite p => .ok ((p * 550).num.tdiv (p * 550).den)
  | .nan => .error (.valueError "cannot convert float NaN to integer")
  | _ => .error (.overflowError "cannot convert float infinity to integer")

/-- `probability_to_score`. -/
def probabilityToScore (defaultProbability : PyFloat) : Except PyExc ℤ := do
  return max 300 (min 850 (850 - (← scaledToInt defaultProbability)))

/-- The risk levels. -/
inductive RiskLevel where
  | low
  | medium
  | high
  | veryHigh
  deriving DecidableEq

/-- The text of a risk level. -/
def RiskLevel.value : RiskLevel → String
  | low => "low"
  | medium => "medium"
  | high => "high"
  | veryHigh => "very_high"

/-- `get_risk_level`. -/
def getRiskLevel (defaultProbability : PyFloat) : RiskLevel :=
  if defaultProbability.below (1 / 4) then .low
  else if defaultProbability.below (1 / 2) then .medium
  else if defaultProbability.below (3 / 4) then .high
  else .veryHigh

/-- The decisions. -/
inductive Decision where
  | approved
  | manualReview
  | rejected
  deriving DecidableEq

/-- The text of a decision. -/
def Decision.value : Decision → String
  | approved => "approved"
  | manualReview => "manual_review"
  | rejected => "rejected"

/-- `get_decision`. -/
def getDecision (defaultProbability : PyFloat) : Decision :=
  if defaultProbability.below (3 / 10) then .approved
  else if defaultProbability.below (3 / 5) then .manualReview
  else .rejected

/-- `round(x, 4)`, half to even. -/
def roundToFour : PyFloat → PyFloat
  | .finite x =>
    let scaled := x * 10000
    let lower := scaled.floor
    let rest := scaled - lower
    let rounded := if rest < 1 / 2 ∨ (rest = 1 / 2 ∧ lower % 2 = 0) then lower else lower + 1
    .finite (rounded / 10000)
  | x => x

/-- `MODEL_NAME`. -/
def modelName : String := "CreditScoringCatBoost"

/-- A row of the scoring log. -/
structure ScoringLog where
  age : ℤ
  durationMonths : ℤ
  creditAmount : PyFloat
  defaultProbability : PyFloat
  score : ℤ
  riskLevel : RiskLevel
  decision : Decision
  modelName : String

end CreditScoringMlops.Scoring
