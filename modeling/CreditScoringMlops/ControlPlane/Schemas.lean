import CreditScoringMlops.Python.Datetime
import CreditScoringMlops.Python.Json

/-!
# Schemas of approvals and audit events

The pydantic models that the stores, services and handlers exchange. Defaults that draw a
fresh identifier or read the clock belong to the code that builds the value.
-/

namespace CreditScoringMlops.ControlPlane

open Python

/-- The states of an approval. -/
inductive ApprovalStatus where
  | pending
  | approved
  | rejected
  | executing
  | unknown
  | completed
  | failed
  deriving DecidableEq

/-- The text a status is stored and printed as. -/
def ApprovalStatus.value : ApprovalStatus → String
  | pending => "pending"
  | approved => "approved"
  | rejected => "rejected"
  | executing => "executing"
  | unknown => "unknown"
  | completed => "completed"
  | failed => "failed"

/-- An approval as the API returns it. -/
structure ApprovalRequest where
  approvalId : String
  traceId : String
  action : String
  reason : String
  requestedAt : Time
  status : ApprovalStatus := .pending
  executionPlan : Dict := []
  decidedAt : Option Time := none
  decidedBy : Option String := none
  decisionComment : Option String := none
  executionStartedAt : Option Time := none
  executionResult : Option Dict := none

/-- A human decision on an approval. -/
structure ApprovalDecision where
  approvalId : String
  approved : Bool
  decidedAt : Time
  decidedBy : String := "human"
  comment : Option String := none

/-- The kinds of audit events. -/
inductive AuditEventType where
  | agentRequested
  | toolCalled
  | toolResult
  | decisionCreated
  | approvalRequested
  | approvalDecided
  | executionStarted
  | executionUnknown
  | executionReconciliationStarted
  | executionReconciliationCompleted
  | executionRetry
  | executionCompleted
  | executionFailed
  deriving DecidableEq

/-- An audit event without the identifier and instant it gets when it is built. -/
structure AuditRecord where
  eventType : AuditEventType
  traceId : String
  actor : String := "ai-engineering-agent"
  action : Option String := none
  toolName : Option String := none
  status : Option String := none
  payload : Dict := []
  error : Option String := none

/-- A stored audit event. -/
structure AuditEvent extends AuditRecord where
  eventId : String
  occurredAt : Time

/-- The status of a decision of an agent. -/
inductive DecisionStatus where
  | proposed
  | approved
  | rejected
  | needsHumanApproval
  deriving DecidableEq

/-- The text of a decision status. -/
def DecisionStatus.value : DecisionStatus → String
  | proposed => "proposed"
  | approved => "approved"
  | rejected => "rejected"
  | needsHumanApproval => "needs_human_approval"

/-- A proposed action of an agent. -/
structure AgentDecision where
  action : String
  status : DecisionStatus := .proposed
  reason : String := ""
  parameters : Dict := []
  requiresHumanApproval : Bool := true

end CreditScoringMlops.ControlPlane
