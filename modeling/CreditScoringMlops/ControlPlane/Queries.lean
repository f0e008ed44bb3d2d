import CreditScoringMlops.ControlPlane.Effects

/-!
# Queries of the two tables

The reading calls of the stores that only the command center makes: counts by state and by kind,
and the lists of approvals and audit events. Each is one query of one table.
-/

namespace CreditScoringMlops.ControlPlane

open Python

/-- The states in the order of their definition. -/
def ApprovalStatus.all : List ApprovalStatus :=
  [pending, approved, rejected, executing, unknown, completed, failed]

/-- The kinds of audit events in the order of their definition. -/
def AuditEventType.all : List AuditEventType :=
  [agentRequested, toolCalled, toolResult, decisionCreated, approvalRequested, approvalDecided,
    executionStarted, executionUnknown, executionReconciliationStarted,
    executionReconciliationCompleted, executionRetry, executionCompleted, executionFailed]

/-- The text a kind is stored and printed as. -/
def AuditEventType.value : AuditEventType → String
  | agentRequested => "agent_requested"
  | toolCalled => "tool_called"
  | toolResult => "tool_result"
  | decisionCreated => "decision_created"
  | approvalRequested => "approval_requested"
  | approvalDecided => "approval_decided"
  | executionStarted => "execution_started"
  | executionUnknown => "execution_unknown"
  | executionReconciliationStarted => "execution_reconciliation_started"
  | executionReconciliationCompleted => "execution_reconciliation_completed"
  | executionRetry => "execution_retry"
  | executionCompleted => "execution_completed"
  | executionFailed => "execution_failed"

/-- A dictionary of counts. -/
abbrev Counts := List (String × ℕ)

namespace ApprovalStore

/-- `list_pending`: all of them, oldest request first. -/
def listPending (t : ApprovalTable) : List ApprovalRequest :=
  let pending := t.rows.filter fun row => row.status = .pending
  let ordered := pending.mergeSort fun a b => Decidable.decide (a.requestedAt ≤ b.requestedAt)
  ordered.map (·.toSchema)

/-- `list_recent`: newest request first. -/
def listRecent (t : ApprovalTable) (limit : ℕ) : Except PyExc (List ApprovalRequest) :=
  if limit < 1 then .error (.valueError "limit must be positive")
  else
    let ordered := t.rows.mergeSort fun a b => Decidable.decide (b.requestedAt ≤ a.requestedAt)
    .ok ((ordered.take limit).map (·.toSchema))

/-- `status_counts`, which names the states without rows as well. -/
def statusCounts (t : ApprovalTable) : Counts :=
  ApprovalStatus.all.map fun status => (status.value, t.rows.countP fun row => row.status = status)

/-- The pending approvals are counted as they are listed. -/
theorem statusCounts_pending (t : ApprovalTable) :
    (statusCounts t).lookup ApprovalStatus.pending.value = some (listPending t).length := by
  simp [statusCounts, ApprovalStatus.all, listPending, List.countP_eq_length_filter]

end ApprovalStore

namespace AuditStore

/-- `list`. The events of one trace come oldest first, all others newest first; events of one
instant come in the order in which they were appended. -/
def list (audit : List AuditEvent) (traceId : Option String) (eventType : Option AuditEventType)
    (limit : Option ℕ) : Except PyExc (List AuditEvent) :=
  if limit.any fun n => n < 1 || 1000 < n then
    .error (.valueError "limit must be between 1 and 1000")
  else
    let matching := audit.filter fun event =>
      traceId.all (· == event.traceId) && eventType.all (· == event.eventType)
    let ordered := matching.mergeSort fun a b =>
      if traceId.isSome then decide (a.occurredAt ≤ b.occurredAt)
      else decide (b.occurredAt ≤ a.occurredAt)
    .ok (limit.elim ordered ordered.take)

/-- `event_counts`, which names the kinds without events as well. -/
def eventCounts (audit : List AuditEvent) : Counts :=
  AuditEventType.all.map fun kind => (kind.value, audit.countP fun event => event.eventType = kind)

/-- The events of a trace, oldest first. -/
def ofTrace (audit : List AuditEvent) (traceId : String) : List AuditEvent :=
  (audit.filter fun event => traceId == event.traceId).mergeSort fun a b =>
    decide (a.occurredAt ≤ b.occurredAt)

/-- They are what `list` finds for the trace. -/
@[simp] theorem list_traceId (audit : List AuditEvent) (traceId : String) :
    list audit (some traceId) none none = .ok (ofTrace audit traceId) := by
  simp [list, ofTrace]

/-- The events of a trace are the recorded ones that carry its id. -/
theorem mem_ofTrace {audit : List AuditEvent} {traceId : String} {event : AuditEvent} :
    event ∈ ofTrace audit traceId ↔ event ∈ audit ∧ event.traceId = traceId := by
  rw [ofTrace, List.mem_mergeSort, List.mem_filter, beq_iff_eq, eq_comm]

/-- A trace has no events if no recorded event carries its id. -/
theorem ofTrace_eq_nil_iff {audit : List AuditEvent} {traceId : String} :
    ofTrace audit traceId = [] ↔ ∀ event ∈ audit, event.traceId ≠ traceId := by
  simp only [List.eq_nil_iff_forall_not_mem, mem_ofTrace, not_and, ne_eq]

end AuditStore

end CreditScoringMlops.ControlPlane
