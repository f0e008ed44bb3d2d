import CreditScoringMlops.ControlPlane.KubernetesExecutor

/-!
# The approval service

The human-in-the-loop service, which executes an approval without an audit trail.
-/

namespace CreditScoringMlops.ControlPlane

open Python Interaction

/-- A service around an executor. -/
structure ApprovalService where
  executor : KubernetesExecutor := {}

namespace ApprovalService

/-- `create_training_approval`. -/
def createTrainingApproval (reason : String) (executionPlan : Dict) :
    Handler ApprovalRequest := do
  let approvalId ← ask .uuid4
  let traceId ← ask .uuid4
  let requestedAt ← ask .utcNow
  store (.create
    { approvalId, traceId, action := "create_training_job", reason, requestedAt, executionPlan })

/-- `decide`. -/
def decide (decision : ApprovalDecision) : Handler ApprovalRequest :=
  store (.decide decision)

/-- The rest of `execute` for the owner of the execution. -/
def executeOwned (service : ApprovalService) (approvalId : String) (request : ApprovalRequest) :
    Handler ApprovalRequest := do
  match ← (service.executor.applyTrainingJob true (some approvalId)).attempt with
  | .error (.kubernetesExecutionUnknown message) =>
    store (.markUnknown approvalId
      [("executed", .bool false), ("unknown", .bool true), ("error", .str message)])
  | .error exc =>
    store (.markFailed approvalId [("executed", .bool false), ("action", .str request.action),
      ("reason", .str "Training job execution failed"), ("error", .str exc.str)])
  | .ok result =>
    if !result.truthyAt "executed" then store (.markFailed approvalId result)
    else store (.markCompleted approvalId result)

/-- `execute`. -/
def execute (service : ApprovalService) (approvalId : String) : Handler ApprovalRequest := do
  let (request, ownsExecution) ← store (.claimExecution approvalId)
  if !ownsExecution then return request
  else service.executeOwned approvalId request

end ApprovalService

end CreditScoringMlops.ControlPlane
