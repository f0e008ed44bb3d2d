import CreditScoringMlops.Interaction.Program
import CreditScoringMlops.Scoring.Explainability
import CreditScoringMlops.Scoring.FeatureAgreement

/-!
# The scoring endpoint

`score_application` of the scoring service: it scores one application, explains the scoring and
saves it, and returns the response. The model, the explainer and the database are its operations;
the metrics and the closing of the session are left out.
-/

namespace CreditScoringMlops.ScoringApi

open Python Interaction Scoring

/-- The operations. -/
inductive Op where
  | loadFeatureConfig
  | predictProba (features : Features)
  | shapValues (features : Features)
  | saveScoringLog (row : ScoringLog)

/-- What an operation returns. -/
abbrev Op.Result : Op → Type
  | loadFeatureConfig => FeatureConfig
  | predictProba _ => PyFloat
  | shapValues _ => ShapValues
  | saveScoringLog _ => Unit

/-- The answers. -/
abbrev Op.Reply (op : Op) : Type := Except PyExc op.Result

/-- Programs of the service. -/
abbrev Handler (A : Type) := Program Op Op.Reply PyExc A

/-- Perform one operation and return its result, or raise. -/
def ask (op : Op) : Handler op.Result := do
  Program.ofExcept (← Program.request op)

/-- `ScoringResponse`. -/
structure ScoringResponse where
  defaultProbability : PyFloat
  score : ℤ
  riskLevel : RiskLevel
  decision : Decision
  modelName : String
  topReasons : List ExplanationReason

/-- The numbers of a frame of one row. -/
def numbersOf (r : Row) : FeatureRow := r.filterMap fun column =>
  column.2.number?.map (column.1, ·)

/-- `score_application`. -/
def scoreApplication (application : CreditApplication) : Handler ScoringResponse := do
  let config ← ask .loadFeatureConfig
  let features := buildFeatures application config
  let defaultProbability ← ask (.predictProba features)
  let shapValues ← ask (.shapValues features)
  let topReasons ← Program.ofExcept
    (getTopReasons shapValues (numbersOf (servingFeatures config application)) 3)
  let score ← Program.ofExcept (probabilityToScore defaultProbability)
  let riskLevel := getRiskLevel defaultProbability
  let decision := getDecision defaultProbability
  ask (.saveScoringLog
    { age := application.age, durationMonths := application.durationMonths
      creditAmount := application.creditAmount.1, defaultProbability, score, riskLevel, decision
      modelName })
  return {
    defaultProbability := roundToFour defaultProbability
    score, riskLevel, decision, modelName, topReasons }

end CreditScoringMlops.ScoringApi
