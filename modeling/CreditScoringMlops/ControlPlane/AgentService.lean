import CreditScoringMlops.ControlPlane.ApprovalService
import CreditScoringMlops.ControlPlane.ReconciliationService

/-!
# The agent service

The handlers of the API that write the approval table, with the HTTP errors they raise. Request
bodies carry the bounds their models check.
-/

namespace CreditScoringMlops.ControlPlane

open Python Interaction

/-- The body of a request for a decision. -/
structure AgentDecisionRequest where
  task : String
  context : Dict := []
  taskLength : 1 ≤ task.length ∧ task.length ≤ 4000

/-- The answer to it. -/
structure AgentDecisionResponse where
  decision : String
  reason : String
  requiresHumanApproval : Bool
  parameters : Dict
  traceId : String
  approvalId : Option String

/-- The body of a request for an approval. -/
structure ApprovalCreateRequest where
  action : String
  reason : String
  executionPlan : Dict := []
  traceId : Option String := none
  actionLength : 1 ≤ action.length ∧ action.length ≤ 200
  reasonLength : 1 ≤ reason.length ∧ reason.length ≤ 2000
  traceIdLength : ∀ id ∈ traceId, 1 ≤ id.length ∧ id.length ≤ 36

/-- The module state of one API process. Its executor is the one of its reconciliation service. -/
structure AgentService where
  reconciliationService : ReconciliationService := .standard

namespace AgentService

/-- `kubernetes_executor`. -/
def kubernetesExecutor (service : AgentService) : KubernetesExecutor :=
  service.reconciliationService.executor

/-- `ALLOWED_MUTATING_ACTIONS`. -/
def allowedMutatingActions : List String := ["create_training_job"]

/-- `str(value)`. -/
def str : Json → Handler String
  | .str s => return s
  | value => ask (.str value)

/-- `str(context.get("trace_id") or context.get("event_id") or uuid4())`. -/
def traceIdOf (context : Dict) : Handler String :=
  match (context.get? "trace_id").filter Json.truthy with
  | some value => str value
  | none =>
    match (context.get? "event_id").filter Json.truthy with
    | some value => str value
    | none => ask .uuid4

/-- The operations that only name something. -/
def isNaming : Op → Bool
  | .str _ => true
  | .uuid4 => true
  | _ => false

/-- Finding out the trace id only names something. -/
theorem traceIdOf_uses (context : Dict) : (traceIdOf context).Uses fun op => isNaming op := by
  have hstr : ∀ value, (str value).Uses fun op => isNaming op := by
    intro value
    unfold str
    split
    · trivial
    · exact Program.uses_request rfl
  unfold traceIdOf
  split
  · exact hstr _
  · split
    · exact hstr _
    · exact Program.uses_request rfl

/-- The audit event of a new approval. -/
def approvalRequested (approval : ApprovalRequest) : AuditRecord where
  eventType := .approvalRequested
  traceId := approval.traceId
  action := approval.action
  status := approval.status.value
  payload := [("reason", .str approval.reason), ("execution_plan", .obj approval.executionPlan)]

/-- The approval that a proposal of the agent opens. -/
def proposeRetraining (request : AgentDecisionRequest) (decision : AgentDecision)
    (traceId : String) : Handler String := do
  let approvalId ← ask .uuid4
  let requestedAt ← ask .utcNow
  let approval : ApprovalRequest :=
    { approvalId, traceId, action := "create_training_job", reason := decision.reason, requestedAt
      executionPlan := [("source", .str "agent_decision"), ("decision", .str decision.action),
        ("parameters", .obj decision.parameters), ("context", .obj request.context)] }
  let _ ← store (.create approval)
  let _ ← record (approvalRequested approval)
  return approval.approvalId

/-- `create_agent_decision`. -/
def createAgentDecision (request : AgentDecisionRequest) : Handler AgentDecisionResponse := do
  let traceId ← traceIdOf request.context
  if traceId.length > 36 then
    raise (.httpException 400 "trace_id must be at most 36 characters")
  else
    let decision ← ofExcept ((← ask (.reason request.task request.context)).mapError
      fun _ => .httpException 500 "Agent decision failed")
    let _ ← record
      { eventType := .decisionCreated, traceId, action := decision.action
        status := decision.status.value
        payload := [("reason", .str decision.reason), ("parameters", .obj decision.parameters),
          ("requires_human_approval", .bool decision.requiresHumanApproval)] }
    let approvalId ← if decision.action = "propose_retraining" then
        some <$> proposeRetraining request decision traceId
      else pure none
    return {
      decision := decision.action, reason := decision.reason
      requiresHumanApproval := decision.requiresHumanApproval
      parameters := decision.parameters, traceId, approvalId }

/-- `create_approval`. -/
def createApproval (request : ApprovalCreateRequest) : Handler ApprovalRequest := do
  if request.action ∉ allowedMutatingActions then
    raise (.httpException 400 "Unsupported approval action")
  else
    let approvalId ← ask .uuid4
    let requestedAt ← ask .utcNow
    let approval : ApprovalRequest :=
      { approvalId, traceId := request.traceId.getD approvalId, action := request.action
        reason := request.reason, requestedAt, executionPlan := request.executionPlan }
    let _ ← store (.create approval)
    let _ ← record (approvalRequested approval)
    return approval

/-- The handlers of `decide_approval`. -/
def decideError (exc : PyExc) : PyExc :=
  match exc with
  | .keyError _ => .httpException 404 exc.str
  | _ => if exc.isValueError then .httpException 409 exc.str else exc

/-- `decide_approval`. -/
def decideApproval (approvalId : String) (decision : ApprovalDecision) :
    Handler ApprovalRequest := do
  if decision.approvalId ≠ approvalId then
    raise (.httpException 400 "Approval ID in path and body must match")
  else
    let approval ← rethrow (store (.decide decision)) decideError
    let _ ← record
      { eventType := .approvalDecided, traceId := approval.traceId, actor := decision.decidedBy
        action := approval.action, status := approval.status.value
        payload := [("approved", .bool decision.approved),
          ("comment", decision.comment.elim .null .str)] }
    return approval

/-- The rest of `execute_approval` for the owner of the execution, after the started event. -/
def executeOwned (service : AgentService) (approvalId : String) (approval : ApprovalRequest) :
    Handler ApprovalRequest := do
  match ← (service.kubernetesExecutor.applyTrainingJob true (some approvalId)).attempt with
  | .error (.kubernetesExecutionUnknown message) =>
    let unknown ← store (.markUnknown approvalId
      [("executed", .bool false), ("unknown", .bool true), ("error", .str message)])
    let _ ← record
      { eventType := .executionUnknown, traceId := approval.traceId, action := approval.action
        status := "unknown", error := "execution outcome unknown" }
    return unknown
  | .error exc =>
    let failure : Dict := [("executed", .bool false), ("error", .str exc.str)]
    let _ ← store (.markFailed approvalId failure)
    let _ ← record
      { eventType := .executionFailed, traceId := approval.traceId, action := approval.action
        status := "failed", error := "execution failed", payload := [("result", .obj failure)] }
    raise (.httpException 500 "Execution failed")
  | .ok result =>
    if result.isTrueAt "executed" then
      let completed ← store (.markCompleted approvalId result)
      let _ ← record
        { eventType := .executionCompleted, traceId := approval.traceId, action := approval.action
          status := "completed", payload := [("result", .obj result)] }
      return completed
    else
      let failed ← store (.markFailed approvalId result)
      let _ ← record
        { eventType := .executionFailed, traceId := approval.traceId, action := approval.action
          status := "failed", payload := [("result", .obj result)] }
      return failed

/-- The handler of the claim in `execute_approval`. -/
def claimError (exc : PyExc) : PyExc :=
  if exc.isValueError then .httpException 409 exc.str else exc

/-- `execute_approval`. -/
def executeApproval (service : AgentService) (approvalId : String) : Handler ApprovalRequest := do
  match ← store (.get approvalId) with
  | none => raise (.httpException 404 "Approval not found")
  | some approval =>
    if approval.action ∉ allowedMutatingActions then
      raise (.httpException 400 "Unsupported approval action")
    else
      let (approval, ownsExecution) ← rethrow (store (.claimExecution approvalId)) claimError
      if !ownsExecution then return approval
      else
        let _ ← record
          { eventType := .executionStarted, traceId := approval.traceId, action := approval.action
            status := "started" }
        service.executeOwned approvalId approval

/-- The handlers of `reconcile_approval` and `retry_approval`, up to the text of the second. -/
def recoveryError (detail : String) : PyExc → PyExc
  | .keyError _ => .httpException 404 "Approval not found"
  | .kubernetesExecutionUnknown _ => .httpException 503 detail
  | exc => exc

/-- `reconcile_approval`. -/
def reconcileApproval (service : AgentService) (approvalId : String) : Handler ApprovalRequest :=
  rethrow (service.reconciliationService.reconcile approvalId)
    (recoveryError "Reconciliation outcome is unknown")

/-- `retry_approval`. -/
def retryApproval (service : AgentService) (approvalId : String) : Handler ApprovalRequest :=
  rethrow (service.reconciliationService.retryIfAbsent approvalId)
    (recoveryError "Retry outcome is unknown")

end AgentService

end CreditScoringMlops.ControlPlane
