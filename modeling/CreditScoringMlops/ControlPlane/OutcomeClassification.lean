import CreditScoringMlops.ControlPlane.Contracts

/-!
# The classification of executor outcomes

Three callers own an execution and close it by how their call of the executor ended. Each has its
own test of `executed` and its own exception clauses. The closes are taken apart from the calls
here, so that they can be compared on every outcome, also on those that the executor of this
repository does not have.
-/

namespace CreditScoringMlops.ControlPlane

open Python Interaction Program ClaimProtocol ApprovalStore

/-- How a call of the executor ends. -/
abbrev Outcome := Except PyExc Dict

/-- What `execute_approval` does once its call of the executor has ended. -/
def AgentService.closeExecution (approvalId : String) (approval : ApprovalRequest) :
    Outcome → Handler ApprovalRequest
  | .error (.kubernetesExecutionUnknown message) => do
    let unknown ← store (.markUnknown approvalId
      [("executed", .bool false), ("unknown", .bool true), ("error", .str message)])
    let _ ← record
      { eventType := .executionUnknown, traceId := approval.traceId, action := approval.action
        status := "unknown", error := "execution outcome unknown" }
    return unknown
  | .error exc => do
    let failure : Dict := [("executed", .bool false), ("error", .str exc.str)]
    let _ ← store (.markFailed approvalId failure)
    let _ ← record
      { eventType := .executionFailed, traceId := approval.traceId, action := approval.action
        status := "failed", error := "execution failed", payload := [("result", .obj failure)] }
    raise (.httpException 500 "Execution failed")
  | .ok result =>
    if result.isTrueAt "executed" then do
      let completed ← store (.markCompleted approvalId result)
      let _ ← record
        { eventType := .executionCompleted, traceId := approval.traceId, action := approval.action
          status := "completed", payload := [("result", .obj result)] }
      return completed
    else do
      let failed ← store (.markFailed approvalId result)
      let _ ← record
        { eventType := .executionFailed, traceId := approval.traceId, action := approval.action
          status := "failed", payload := [("result", .obj result)] }
      return failed

/-- What `ApprovalService.execute` does then. -/
def ApprovalService.closeExecution (approvalId : String) (request : ApprovalRequest) :
    Outcome → Handler ApprovalRequest
  | .error (.kubernetesExecutionUnknown message) =>
    store (.markUnknown approvalId
      [("executed", .bool false), ("unknown", .bool true), ("error", .str message)])
  | .error exc =>
    store (.markFailed approvalId [("executed", .bool false), ("action", .str request.action),
      ("reason", .str "Training job execution failed"), ("error", .str exc.str)])
  | .ok result =>
    if !result.truthyAt "executed" then store (.markFailed approvalId result)
    else store (.markCompleted approvalId result)

/-- What `retry_if_absent` does then. -/
def ReconciliationService.closeRetry (approvalId : String) : Outcome → Handler ApprovalRequest
  | .error exc => store (.markUnknown approvalId (unknownResult exc))
  | .ok execution =>
    if execution.isTrueAt "executed" then
      store (.markCompleted approvalId
        (Dict.merge execution [("reconciled_retry", .bool true)]))
    else store (.markFailed approvalId execution)

/-- The three callers call the executor and close. -/
theorem callers_close (agent : AgentService) (service : ApprovalService)
    (reconciliation : ReconciliationService) (x : String) (approval : ApprovalRequest)
    (result : Dict) :
    agent.executeOwned x approval =
        (agent.kubernetesExecutor.applyTrainingJob true (some x)).attempt >>=
          AgentService.closeExecution x approval ∧
      service.executeOwned x approval =
        (service.executor.applyTrainingJob true (some x)).attempt >>=
          ApprovalService.closeExecution x approval ∧
      reconciliation.retryApply x approval result = (do
        let _ ← record
          { eventType := .executionRetry, traceId := approval.traceId, action := approval.action
            status := "retrying", payload := result }
        (reconciliation.executor.applyTrainingJob true (some x)).attempt >>=
          ReconciliationService.closeRetry x) := by
  exact ⟨rfl, rfl, rfl⟩

/-- The status in which an owner leaves an approval. -/
def leaves (env : ℕ → Env) (w : World) (x : String) (p : Handler ApprovalRequest) :
    Option ApprovalStatus :=
  statusOf (system.finish 0 { env := env } 0 w p).world.approvals x

/-- The status in which a mark leaves an executing row, if the database does not fail. -/
def marksAs (env : ℕ → Env) (target : ApprovalStatus) : ApprovalStatus :=
  if (env 0).fault = none then target else .executing

section Leaves

variable {env : ℕ → Env} {w : World} {x : String} {row : ApprovalRequestRow} {op : StoreOp}
  {target : ApprovalStatus}

/-- An owner that marks the approval and then calls the store no more leaves it as marked. -/
theorem leaves_store_bind {f : op.Result → Handler ApprovalRequest}
    (hrow : w.approvals.lookup x = some row) (hstatus : row.status = .executing)
    (hmarks : op.marks = some (x, target)) (htarget : markWrites target .executing)
    (hf : ∀ a, (f a).Uses fun op => ∀ o, op ≠ .store o) :
    leaves env w x (store op >>= f) = some (marksAs env target) := by
  have hrest (reply : Except PyExc op.Result) :
      (ofExcept reply >>= f).Uses fun op => ∀ o, op ≠ .store o := (uses_ofExcept reply).bind hf
  -- what follows the mark leaves the table alone
  have hkept : (system.finish 0 { env := env } 0 w (store op >>= f)).world.approvals =
      (exec 0 (.store op) (env 0) w).2.approvals :=
    system.finish_relates 0 (R := fun w w' => w'.approvals = w.approvals) (fun _ => rfl)
      (fun _ _ _ h h' => h'.trans h) (fun _ _ _ h => exec_approvals h) (fun _ _ => rfl)
      (hrest _) 1 _
  unfold leaves marksAs statusOf
  rw [hkept]
  obtain ⟨message, hfault, hexec⟩ | ⟨hfault, -, a, result, -, hlookup⟩ |
    ⟨-, hrepeats, -⟩ | ⟨-, hwrites, -⟩ := mark_exec 0 (env 0) hmarks hrow
  · simp [hexec, hrow, hstatus, hfault]
  · simp [hlookup, hfault]
  · rw [hstatus] at hrepeats
    cases target <;> cases hrepeats
  · exact absurd (hstatus ▸ htarget) hwrites

variable (hrow : w.approvals.lookup x = some row) (hstatus : row.status = .executing)
include hrow hstatus

/-- `execute_approval` leaves the approval in the status of the claim protocol. -/
theorem leaves_agentService (approval : ApprovalRequest) (outcome : Outcome) :
    leaves env w x (AgentService.closeExecution x approval outcome) =
      some (marksAs env (closingStatus .execute outcome)) := by
  cases outcome with
  | ok result =>
    change leaves env w x (if result.isTrueAt "executed" = true then _ else _) = _
    cases hexecuted : result.isTrueAt "executed" with
    | true =>
      rw [if_pos rfl]
      exact leaves_store_bind hrow hstatus (by simp [StoreOp.marks, closingStatus, hexecuted])
        (by simp [closingStatus, hexecuted, markWrites])
        fun _ => permitted_record (fun _ hop => by cases hop) fun _ => trivial
    | false =>
      rw [if_neg (by simp)]
      exact leaves_store_bind hrow hstatus (by simp [StoreOp.marks, closingStatus, hexecuted])
        (by simp [closingStatus, hexecuted, markWrites])
        fun _ => permitted_record (fun _ hop => by cases hop) fun _ => trivial
  | error exc =>
    cases exc <;> exact leaves_store_bind hrow hstatus rfl rfl
      fun _ => permitted_record (fun _ hop => by cases hop) fun _ => trivial

/-- `retry_if_absent` does so too. -/
theorem leaves_reconciliationService (outcome : Outcome) :
    leaves env w x (ReconciliationService.closeRetry x outcome) =
      some (marksAs env (closingStatus .retry outcome)) := by
  cases outcome with
  | ok result =>
    change leaves env w x (if result.isTrueAt "executed" = true then _ else _) = _
    cases hexecuted : result.isTrueAt "executed" with
    | true =>
      rw [if_pos rfl, ← bind_ret (store _)]
      exact leaves_store_bind hrow hstatus (by simp [StoreOp.marks, closingStatus, hexecuted])
        (by simp [closingStatus, hexecuted, markWrites]) fun _ => trivial
    | false =>
      rw [if_neg (by simp), ← bind_ret (store _)]
      exact leaves_store_bind hrow hstatus (by simp [StoreOp.marks, closingStatus, hexecuted])
        (by simp [closingStatus, hexecuted, markWrites]) fun _ => trivial
  | error exc =>
    change leaves env w x (store (.markUnknown x _)) = _
    rw [← bind_ret (store _)]
    exact leaves_store_bind hrow hstatus rfl rfl fun _ => trivial

/-- `ApprovalService.execute` takes any true value of `executed` for an execution. -/
theorem leaves_approvalService (request : ApprovalRequest) (outcome : Outcome) :
    leaves env w x (ApprovalService.closeExecution x request outcome) =
      some (marksAs env (match outcome with
        | .ok result => if result.truthyAt "executed" then .completed else .failed
        | .error _ => closingStatus .execute outcome)) := by
  cases outcome with
  | ok result =>
    change leaves env w x (if (!result.truthyAt "executed") = true then _ else _) = _
    cases hexecuted : result.truthyAt "executed" with
    | true =>
      rw [if_neg (by simp), ← bind_ret (store _)]
      exact leaves_store_bind hrow hstatus (by simp [StoreOp.marks, hexecuted])
        (by simp [hexecuted, markWrites]) fun _ => trivial
    | false =>
      rw [if_pos (by simp), ← bind_ret (store _)]
      exact leaves_store_bind hrow hstatus (by simp [StoreOp.marks, hexecuted])
        (by simp [hexecuted, markWrites]) fun _ => trivial
  | error exc =>
    cases exc with
    | kubernetesExecutionUnknown message =>
      change leaves env w x (store (.markUnknown x _)) = _
      rw [← bind_ret (store _)]
      exact leaves_store_bind hrow hstatus rfl rfl fun _ => trivial
    | _ =>
      change leaves env w x (store (.markFailed x _)) = _
      rw [← bind_ret (store _)]
      exact leaves_store_bind hrow hstatus rfl rfl fun _ => trivial

end Leaves

/-- The outcomes on which the tests and the exception clauses of the callers agree: a dictionary
whose `executed` is absent, false or exactly `True`, and the unknown outcome. -/
def ClassifiedAlike : Outcome → Prop
  | .ok result => result.truthyAt "executed" → result.isTrueAt "executed"
  | .error (.kubernetesExecutionUnknown _) => True
  | .error _ => False

/-- The row of an executing approval. -/
def executingRow : ApprovalRequestRow :=
  { newRow { approvalId := "a1", traceId := "t1", action := "create_training_job", reason := "drift"
             requestedAt := 0 } with status := .executing }

/-- A world with that row only. -/
def executingWorld : World := { approvals := ⟨[executingRow], by simp⟩ }

/-- The three owners of an executing approval leave it in one status after an outcome of the
executor, exactly if their tests and clauses agree on it. -/
theorem classified_alike_iff (outcome : Outcome) :
    (∀ (env : ℕ → Env) (w : World) (x : String) (row : ApprovalRequestRow)
        (approval : ApprovalRequest), w.approvals.lookup x = some row → row.status = .executing →
      leaves env w x (AgentService.closeExecution x approval outcome) =
          leaves env w x (ApprovalService.closeExecution x approval outcome) ∧
        leaves env w x (AgentService.closeExecution x approval outcome) =
          leaves env w x (ReconciliationService.closeRetry x outcome)) ↔
      ClassifiedAlike outcome := by
  constructor
  · intro h
    -- the database does not fail
    have hrow : executingWorld.approvals.lookup "a1" = some executingRow := rfl
    obtain ⟨happroval, hretry⟩ :=
      h (fun _ => {}) executingWorld "a1" executingRow executingRow.toSchema hrow rfl
    rw [leaves_agentService hrow rfl, leaves_approvalService hrow rfl] at happroval
    rw [leaves_agentService hrow rfl, leaves_reconciliationService hrow rfl] at hretry
    cases outcome with
    | ok result =>
      intro htrue
      by_contra hexact
      simp [marksAs, closingStatus, htrue, hexact] at happroval
    | error exc => cases exc <;> first | trivial | simp [marksAs, closingStatus] at hretry
  · intro h env w x row approval hrow hstatus
    rw [leaves_agentService hrow hstatus, leaves_approvalService hrow hstatus,
      leaves_reconciliationService hrow hstatus]
    cases outcome with
    | ok result =>
      have htrue : result.truthyAt "executed" = result.isTrueAt "executed" :=
        Bool.eq_iff_iff.mpr ⟨h, Dict.truthyAt_of_isTrueAt⟩
      simp [closingStatus, htrue]
    | error exc => cases exc <;> first | exact ⟨rfl, rfl⟩ | cases h

/-- A manifest that is missing is a failure to `execute_approval`, and unknown to
`retry_if_absent`. -/
theorem missing_manifest_classified_apart :
    ¬∀ (outcome : Outcome) (env : ℕ → Env) (w : World) (x : String) (row : ApprovalRequestRow)
        (approval : ApprovalRequest), w.approvals.lookup x = some row → row.status = .executing →
      leaves env w x (AgentService.closeExecution x approval outcome) =
          leaves env w x (ApprovalService.closeExecution x approval outcome) ∧
        leaves env w x (AgentService.closeExecution x approval outcome) =
          leaves env w x (ReconciliationService.closeRetry x outcome) := by
  intro h
  have hrow : executingWorld.approvals.lookup "a1" = some executingRow := rfl
  have hretry := (h (.error (.fileNotFoundError
    "Training manifest not found: k8s/jobs/model-training-job.yaml")) (fun _ => {}) executingWorld
    "a1" executingRow executingRow.toSchema hrow rfl).2
  rw [leaves_agentService hrow rfl, leaves_reconciliationService hrow rfl] at hretry
  simp [marksAs, closingStatus] at hretry

end CreditScoringMlops.ControlPlane
