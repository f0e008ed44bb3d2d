import CreditScoringMlops.Promotion.MLAgent

/-!
# The two ways to promote a model

`ModelPromotionWorkflow.execute` applies the promotion gate to an evaluation and a human approval
and leaves the alias to `promoteModel`. The script `promote_model.py` promotes the newest finished
run of one family.
-/

namespace CreditScoringMlops.Promotion

open Python Interaction

/-- The outcomes of a promotion attempt. -/
inductive PromotionStatus where
  | manualReview
  | rejected
  | approvalRequired
  | promoted
  | alreadyChampion
  | failed
  deriving DecidableEq

/-- The status text. -/
def PromotionStatus.value : PromotionStatus → String
  | manualReview => "manual_review"
  | rejected => "rejected"
  | approvalRequired => "approval_required"
  | promoted => "promoted"
  | alreadyChampion => "already_champion"
  | failed => "failed"

/-- `PromotionResult`. -/
structure PromotionResult where
  status : PromotionStatus
  reason : Json
  details : Dict

/-- The workflow. -/
structure ModelPromotionWorkflow where
  mlflowTools : MlflowTools := {}

namespace ModelPromotionWorkflow

/-- The result that `execute` makes of the dictionary of `promote_model`, which has a reason
whenever nothing was promoted. -/
def promotionResult (result : Dict) : PromotionResult :=
  if result.truthyAt "promoted" then
    ⟨.promoted, .str "Candidate model promoted to champion", result⟩
  else if result.truthyAt "already_champion" then
    ⟨.alreadyChampion, (result.get? "reason").getD .null, result⟩
  else ⟨.failed, (result.get? "reason").getD (.str "Model promotion failed"), result⟩

/-- `execute`. -/
def execute (workflow : ModelPromotionWorkflow) (candidateVersion : String) (evaluation : Dict)
    (humanApproved : Bool) : MlflowProgram PromotionResult := do
  let decision := (evaluation.get? "decision").getD .null
  if evaluation.isStrAt "decision" "MANUAL_REVIEW" then
    return ⟨.manualReview, .str "Model evaluation requires manual review",
      [("decision", decision)]⟩
  else if evaluation.isStrAt "decision" "REJECT" then
    return ⟨.rejected, .str "Model evaluation rejected the candidate", [("decision", decision)]⟩
  else if !evaluation.isStrAt "decision" "PROMOTE" || !evaluation.isTrueAt "approved" then
    return ⟨.rejected, .str "Candidate does not have a valid PROMOTE evaluation",
      [("decision", decision), ("approved", (evaluation.get? "approved").getD .null)]⟩
  else if !humanApproved then
    return ⟨.approvalRequired, .str "Human approval is required before promotion",
      [("decision", decision)]⟩
  else
    promotionResult <$> workflow.mlflowTools.promoteModel candidateVersion "PROMOTE" humanApproved

end ModelPromotionWorkflow

/-! ## `promote_model.py` -/

namespace PromoteModel

/-- `EXPERIMENT_NAME`. -/
def experimentName : String := "credit-scoring"

/-- `METRIC_NAME`. -/
def metricName : String := "roc_auc"

/-- `MODEL_NAME`. -/
def modelName : String := "CreditScoringCatBoost"

/-- `MODEL_ALIAS`. -/
def modelAlias : String := "champion"

/-- `TARGET_RUN_NAME`. -/
def targetRunName : String := "catboost_baseline"

/-- The search of `main`. -/
def query (experimentId : String) : RunQuery where
  experimentIds := [experimentId]
  runName := some targetRunName
  positiveMetric := some metricName

/-- The rest of `main`, for the newest run: find the version it registered and promote it. -/
def promoteRun (latestRun : MlflowRun) : MlflowProgram Unit := do
  if (latestRun.metrics.get? metricName).isNone then Program.raise (.keyError metricName)
  else
    let modelVersions ← callMlflow (.searchModelVersions modelName)
    match modelVersions.find? fun version => decide (version.runId = some latestRun.runId) with
    | none =>
      Program.raise
        (.valueError s!"No registered model version found for run_id={latestRun.runId}")
    | some version => callMlflow (.setRegisteredModelAlias modelName modelAlias version.version)

/-- `main`. -/
def main : MlflowProgram Unit := do
  match ← callMlflow (.getExperimentByName experimentName) with
  | none => Program.raise (.valueError s!"Experiment not found: {experimentName}")
  | some experimentId =>
    match ← callMlflow (.searchRuns (query experimentId)) with
    | [] => Program.raise (.valueError s!"No finished runs found for {targetRunName}")
    | latestRun :: _ => promoteRun latestRun

end PromoteModel

end CreditScoringMlops.Promotion
