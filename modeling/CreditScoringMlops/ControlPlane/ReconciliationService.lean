import CreditScoringMlops.ControlPlane.KubernetesExecutor

/-!
# Reconciliation, retry and the worker

The recovery of uncertain executions: one approval at a time on request, or a bounded batch in a
worker cycle under the advisory lock.
-/

namespace CreditScoringMlops.ControlPlane

open Python Interaction

/-- A service whose lease has passed the check of its constructor. -/
structure ReconciliationService where
  executor : KubernetesExecutor := {}
  executionLeaseSeconds : ℤ := 900
  positive : 1 ≤ executionLeaseSeconds

namespace ReconciliationService

/-- The service with the defaults of the constructor. -/
def standard : ReconciliationService := { positive := by decide }

/-- The constructor. -/
def init (executor : KubernetesExecutor) (executionLeaseSeconds : ℤ) :
    Except PyExc ReconciliationService :=
  if h : executionLeaseSeconds < 1 then
    .error (.valueError "execution_lease_seconds must be positive")
  else .ok ⟨executor, executionLeaseSeconds, not_lt.mp h⟩

/-- The name of the Job of an approval, as the service asks for it. -/
def trainingJobName (approvalId : String) : String := "credit-training-" ++ approvalId

/-- The names of Jobs tell the approvals apart. -/
theorem trainingJobName_injective : Function.Injective trainingJobName :=
  fun _ _ h => (String.append_right_inj _).mp h

/-- The result recorded when the Job turns out to be finished. -/
def reconciledResult (executed : Bool) (result : Dict) : Dict :=
  Dict.merge [("executed", .bool executed), ("reconciled", .bool true)] result

/-- The branches of `reconcile` on the status of the Job. -/
def recover (service : ReconciliationService) (approvalId : String) (approval : ApprovalRequest)
    (result : Dict) : Handler ApprovalRequest := do
  if result.truthyAt "exists" && result.isStrAt "status" "completed" then
    store (.markCompleted approvalId (reconciledResult true result))
  else if result.truthyAt "exists" && result.isStrAt "status" "failed" then
    store (.markFailed approvalId (reconciledResult false result))
  else if approval.status = .executing && result.isStrAt "status" "absent" then
    let (recovered, stale) ←
      store (.recoverStaleExecution approvalId service.executionLeaseSeconds)
    if stale then
      let _ ← record
        { eventType := .executionUnknown, traceId := approval.traceId, action := approval.action
          status := ApprovalStatus.unknown.value
          error := "execution lease expired while Kubernetes Job was absent"
          payload := [("lease_seconds", .int service.executionLeaseSeconds),
            ("job_name", .str (trainingJobName approvalId))] }
      return recovered
    else return recovered
  else
    return (← store (.get approvalId)).getD approval

/-- The rest of `reconcile` for an uncertain execution, after the started event. -/
def reconcileUncertain (service : ReconciliationService) (approvalId : String)
    (approval : ApprovalRequest) : Handler ApprovalRequest := do
  let result ← service.executor.getTrainingJobStatus (trainingJobName approvalId)
  let recovered ← service.recover approvalId approval result
  let _ ← record
    { eventType := .executionReconciliationCompleted, traceId := approval.traceId
      action := approval.action, status := recovered.status.value, payload := result }
  return recovered

/-- `reconcile`. -/
def reconcile (service : ReconciliationService) (approvalId : String) :
    Handler ApprovalRequest := do
  match ← store (.get approvalId) with
  | none => raise (.keyError ("Approval not found: " ++ approvalId))
  | some approval =>
    if approval.status ≠ .unknown ∧ approval.status ≠ .executing then return approval
    else
      let _ ← record
        { eventType := .executionReconciliationStarted, traceId := approval.traceId
          action := approval.action, status := approval.status.value }
      service.reconcileUncertain approvalId approval

/-- The result recorded when an attempt ends in an exception. -/
def unknownResult (exc : PyExc) : Dict :=
  [("executed", .bool false), ("unknown", .bool true), ("error", .str exc.str)]

/-- The end of `retry_if_absent` when the Job turns out to be finished. -/
def retryFinished (approval : ApprovalRequest) (result : Dict) (mark : Handler ApprovalRequest) :
    Handler ApprovalRequest := do
  let recovered ← mark
  let _ ← record
    { eventType := .executionReconciliationCompleted, traceId := approval.traceId
      action := approval.action, status := recovered.status.value, payload := result }
  return recovered

/-- The end of `retry_if_absent` when the Job is absent: a new apply. -/
def retryApply (service : ReconciliationService) (approvalId : String)
    (approval : ApprovalRequest) (result : Dict) : Handler ApprovalRequest := do
  let _ ← record
    { eventType := .executionRetry, traceId := approval.traceId, action := approval.action
      status := "retrying", payload := result }
  match ← (service.executor.applyTrainingJob true (some approvalId)).attempt with
  | .error exc => store (.markUnknown approvalId (unknownResult exc))
  | .ok execution =>
    if execution.isTrueAt "executed" then
      store (.markCompleted approvalId
        (Dict.merge execution [("reconciled_retry", .bool true)]))
    else store (.markFailed approvalId execution)

/-- The branches of `retry_if_absent` on the status of the Job. -/
def retryBranch (service : ReconciliationService) (approvalId : String)
    (approval claimed : ApprovalRequest) (result : Dict) : Handler ApprovalRequest := do
  if result.truthyAt "exists" && result.isStrAt "status" "completed" then
    retryFinished approval result
      (store (.markCompleted approvalId (reconciledResult true result)))
  else if result.truthyAt "exists" && result.isStrAt "status" "failed" then
    retryFinished approval result
      (store (.markFailed approvalId (reconciledResult false result)))
  else if result.truthyAt "exists" then
    let _ ← record
      { eventType := .executionReconciliationCompleted, traceId := approval.traceId
        action := approval.action, status := ApprovalStatus.executing.value, payload := result }
    return (← store (.get approvalId)).getD claimed
  else if !result.isStrAt "status" "absent" then
    store (.markUnknown approvalId
      [("executed", .bool false), ("unknown", .bool true), ("reconciliation", .obj result)])
  else service.retryApply approvalId approval result

/-- The rest of `retry_if_absent` for the owner of the retry. -/
def retryOwned (service : ReconciliationService) (approvalId : String)
    (approval claimed : ApprovalRequest) : Handler ApprovalRequest := do
  let _ ← record
    { eventType := .executionReconciliationStarted, traceId := claimed.traceId
      action := claimed.action, status := claimed.status.value }
  match ← (service.executor.getTrainingJobStatus (trainingJobName approvalId)).attempt with
  | .error exc => store (.markUnknown approvalId (unknownResult exc))
  | .ok result => service.retryBranch approvalId approval claimed result

/-- `retry_if_absent`. -/
def retryIfAbsent (service : ReconciliationService) (approvalId : String) :
    Handler ApprovalRequest := do
  match ← store (.get approvalId) with
  | none => raise (.keyError ("Approval not found: " ++ approvalId))
  | some approval =>
    if approval.status ≠ .unknown then return approval
    else
      let (claimed, ownsRetry) ← store (.claimRetryExecution approvalId)
      if !ownsRetry then return claimed
      else service.retryOwned approvalId approval claimed

end ReconciliationService

/-- A worker whose batch size has passed the check of its constructor. -/
structure ReconciliationWorker where
  service : ReconciliationService := .standard
  batchSize : ℕ := 100
  positive : 1 ≤ batchSize := by decide

namespace ReconciliationWorker

/-- The loop of `run_once`; a failing item is counted out and the loop goes on. -/
def reconcileAll (service : ReconciliationService) :
    List ApprovalRequest → ℕ → Handler ℕ
  | [], processed => return processed
  | approval :: rest, processed => do
    match ← (service.reconcile approval.approvalId).attempt with
    | .ok _ => reconcileAll service rest (processed + 1)
    | .error _ => reconcileAll service rest processed

/-- `run_once`. -/
def runOnce (worker : ReconciliationWorker) : Handler ℕ := do
  let acquired ← ofExcept (← ask .tryAcquire)
  if !acquired then return 0
  else
    let ended ← Program.attempt (do
      let approvals ← store (.listReconcilable worker.batchSize)
      reconcileAll worker.service approvals 0)
    ofExcept (← ask .release)
    ofExcept ended

end ReconciliationWorker

end CreditScoringMlops.ControlPlane
