import CreditScoringMlops.ControlPlane.Queries
import CreditScoringMlops.ControlPlane.System
import CreditScoringMlops.Interaction.Snapshot
import CreditScoringMlops.Interaction.Translation

/-!
# The command center

The reading requests of the service, each a program over single queries, next to the requests of the
control plane. A query sees the tables as they are when it runs, and changes nothing.
-/

namespace CreditScoringMlops.ControlPlane.CommandCenter

open Python Interaction

/-- The operations: those of the control plane, and the queries. -/
inductive QueryOp where
  | control (op : Op)
  | statusCounts
  | listPending
  | listRecent (limit : ℕ)
  | eventCounts
  | auditList (traceId : Option String) (eventType : Option AuditEventType) (limit : Option ℕ)

/-- The answers. -/
abbrev QueryOp.Reply : QueryOp → Type
  | control op => op.Reply
  | statusCounts => Except PyExc Counts
  | listPending => Except PyExc (List ApprovalRequest)
  | listRecent _ => Except PyExc (List ApprovalRequest)
  | eventCounts => Except PyExc Counts
  | auditList _ _ _ => Except PyExc (List AuditEvent)

/-- The answer to an operation of caller `i`, and the world after it. -/
def exec (i : ℕ) (op : QueryOp) (env : Env) (w : World) : op.Reply × World :=
  match op with
  | .control op => ControlPlane.exec i op env w
  | .statusCounts => orFault env w (.ok (ApprovalStore.statusCounts w.approvals), w)
  | .listPending => orFault env w (.ok (ApprovalStore.listPending w.approvals), w)
  | .listRecent limit => orFault env w (ApprovalStore.listRecent w.approvals limit, w)
  | .eventCounts => orFault env w (.ok (AuditStore.eventCounts w.audit), w)
  | .auditList traceId eventType limit =>
      orFault env w (AuditStore.list w.audit traceId eventType limit, w)

/-- Programs of the command center. -/
abbrev QueryProgram (A : Type) := Program QueryOp QueryOp.Reply PyExc A

/-- Perform one operation. -/
abbrev ask (op : QueryOp) : QueryProgram op.Reply := Program.request op

/-- Return a result or raise its exception. -/
abbrev ofExcept {A : Type} (result : Except PyExc A) : QueryProgram A := Program.ofExcept result

/-- Run a program of the control plane. -/
abbrev onControl {A : Type} (p : Handler A) : QueryProgram A :=
  p.translate fun op => ask (.control op)

/-- Call `AuditStore.list`. -/
def auditList (traceId : Option String) (limit : Option ℕ) : QueryProgram (List AuditEvent) := do
  ofExcept (← ask (.auditList traceId none limit))

/-- `get_trace`: the events of a trace, or of the trace of the approval with this id. -/
def getTrace (traceId : String) : QueryProgram (List AuditEvent) := do
  let events ← auditList (some traceId) none
  if !events.isEmpty then return events
  else
    match ← onControl (store (.get traceId)) with
    | none => return events
    | some approval =>
      if approval.traceId ≠ traceId then
        auditList (some approval.traceId) none
      else return events

/-- The parameters of an overview, within their bounds. -/
structure OverviewQuery where
  approvalLimit : ℕ := 20
  auditLimit : ℕ := 20
  approvalBounds : 1 ≤ approvalLimit ∧ approvalLimit ≤ 100 := by decide
  auditBounds : 1 ≤ auditLimit ∧ auditLimit ≤ 100 := by decide

/-- `CommandCenterOverview`. -/
structure CommandCenterOverview where
  approvalCounts : Counts
  auditEventCounts : Counts
  pendingApprovals : List ApprovalRequest
  reconcilableApprovals : List ApprovalRequest
  recentApprovals : List ApprovalRequest
  recentAuditEvents : List AuditEvent

/-- `command_center_overview`. -/
def commandCenterOverview (query : OverviewQuery) : QueryProgram CommandCenterOverview := do
  let approvalCounts ← ofExcept (← ask .statusCounts)
  let auditEventCounts ← ofExcept (← ask .eventCounts)
  let pending ← ofExcept (← ask .listPending)
  let reconcilableApprovals ← onControl (store (.listReconcilable query.approvalLimit))
  let recentApprovals ← ofExcept (← ask (.listRecent query.approvalLimit))
  let recentAuditEvents ← auditList none (some query.auditLimit)
  return {
    approvalCounts, auditEventCounts, pendingApprovals := pending.take query.approvalLimit
    reconcilableApprovals, recentApprovals, recentAuditEvents }

/-- What can arrive. -/
inductive QueryRequest where
  | control (request : Request)
  | getTrace (traceId : String)
  | overview (query : OverviewQuery)

/-- What a request returns. -/
inductive QueryResponse where
  | control (response : Response)
  | trace (events : List AuditEvent)
  | overview (overview : CommandCenterOverview)

/-- The program that serves a request. -/
def serve : QueryRequest → QueryProgram QueryResponse
  | .control request => .control <$> onControl (ControlPlane.serve request)
  | .getTrace traceId => .trace <$> getTrace traceId
  | .overview query => .overview <$> commandCenterOverview query

/-- The service with its reading requests. -/
def system : Machine QueryOp QueryOp.Reply PyExc Env World QueryRequest QueryResponse where
  program := serve
  exec := exec
  abort := abort

/-- The outcome of a program of caller `i` that is served alone, while the database does not
fail. -/
def answer {A : Type} (i : ℕ) (w : World) (p : QueryProgram A) : Except PyExc A :=
  system.alone i {} w p

/-- Entries of its traces. -/
abbrev QueryEntry := Entry QueryOp QueryOp.Reply Env World

/-- Events of its runs. -/
abbrev QueryEvent := Event Env QueryRequest

/-- A run from the empty tables, with any Jobs in the cluster. -/
def runFrom (jobs : Jobs) (events : List QueryEvent) :
    Config QueryOp QueryOp.Reply PyExc Env World QueryRequest QueryResponse :=
  system.run { jobs := jobs } events

end CreditScoringMlops.ControlPlane.CommandCenter
