import CreditScoringMlops.ControlPlane.ApprovalTable
import CreditScoringMlops.Python.Exceptions
import Mathlib.Data.List.Sort

/-!
# The approval store

Each operation is one transaction: it locks the row (`SELECT ... FOR UPDATE`), decides, writes
and commits, or raises and leaves the table as it was. The reading of the clock inside a
transaction is a parameter. `perform` runs any of them on a table.
-/

namespace CreditScoringMlops.ControlPlane

open Python

namespace ApprovalStore

/-- The transition table of the store. -/
def transitions : ApprovalStatus → List ApprovalStatus
  | .pending => [.approved, .rejected]
  | .approved => [.executing]
  | .rejected => []
  | .executing => [.unknown, .completed, .failed]
  | .unknown => [.completed, .failed]
  | .completed => []
  | .failed => []

/-- Select a row for update. -/
def getLocked (t : ApprovalTable) (approvalId : String) : Except PyExc ApprovalRequestRow :=
  match t.lookup approvalId with
  | some row => .ok row
  | none => .error (.keyError ("Approval not found: " ++ approvalId))

/-- Move a row to a status that the transition table allows. -/
def transition (row : ApprovalRequestRow) (target : ApprovalStatus) :
    Except PyExc ApprovalRequestRow :=
  if target ∈ transitions row.status then .ok { row with status := target }
  else .error (.invalidApprovalTransition
    ("Invalid approval transition: " ++ row.status.value ++ " -> " ++ target.value))

/-- The row of a new approval. Only the creation columns are written; the rest start as null. -/
def newRow (request : ApprovalRequest) : ApprovalRequestRow where
  approvalId := request.approvalId
  traceId := request.traceId
  action := request.action
  reason := request.reason
  requestedAt := request.requestedAt
  status := request.status
  executionPlan := request.executionPlan
  decidedAt := none
  decidedBy := none
  decisionComment := none
  executionStartedAt := none
  executionResult := none

/-- Insert a new approval. -/
def create (t : ApprovalTable) (request : ApprovalRequest) :
    Except PyExc (ApprovalRequest × ApprovalTable) :=
  if request.status ≠ .pending then
    .error (.invalidApprovalTransition "New approvals must start in pending state")
  else
    match t.insert? (newRow request) with
    | some t' => .ok (request, t')
    | none => .error (.other "IntegrityError: approval_id is not unique")

/-- Read one approval. -/
def get (t : ApprovalTable) (approvalId : String) : Option ApprovalRequest :=
  (t.lookup approvalId).map (·.toSchema)

/-- Uncertain executions, oldest request first. -/
def listReconcilable (t : ApprovalTable) (limit : ℕ) : Except PyExc (List ApprovalRequest) :=
  if limit < 1 then .error (.valueError "limit must be positive")
  else
    let uncertain := t.rows.filter fun row => row.status = .unknown ∨ row.status = .executing
    let ordered := uncertain.mergeSort fun a b => decide (a.requestedAt ≤ b.requestedAt)
    .ok ((ordered.take limit).map (·.toSchema))

/-- Record a human decision. -/
def decide (t : ApprovalTable) (decision : ApprovalDecision) :
    Except PyExc (ApprovalRequest × ApprovalTable) := do
  let row ← getLocked t decision.approvalId
  let target := if decision.approved then ApprovalStatus.approved else .rejected
  let row ← transition row target
  let row := { row with
    decidedAt := some decision.decidedAt
    decidedBy := some decision.decidedBy
    decisionComment := decision.comment }
  return (row.toSchema, t.write row)

/-- Start an approved execution. -/
def markExecuting (now : Time) (t : ApprovalTable) (approvalId : String) :
    Except PyExc (ApprovalRequest × ApprovalTable) := do
  let row ← getLocked t approvalId
  let row ← transition row .executing
  let row := { row with executionStartedAt := some now }
  return (row.toSchema, t.write row)

/-- Claim an approved execution; the flag says whether this call is the owner. -/
def claimExecution (now : Time) (t : ApprovalTable) (approvalId : String) :
    Except PyExc ((ApprovalRequest × Bool) × ApprovalTable) := do
  let row ← getLocked t approvalId
  if row.status = .executing then
    return ((row.toSchema, false), t)
  let row ← transition row .executing
  let row := { row with executionStartedAt := some now }
  return ((row.toSchema, true), t.write row)

/-- Record an unknown outcome. -/
def markUnknown (t : ApprovalTable) (approvalId : String) (result : Dict) :
    Except PyExc (ApprovalRequest × ApprovalTable) := do
  let row ← getLocked t approvalId
  let row ← transition row .unknown
  let row := { row with executionResult := some result }
  return (row.toSchema, t.write row)

/-- Record completion, unless the row is completed already. -/
def markCompleted (t : ApprovalTable) (approvalId : String) (result : Dict) :
    Except PyExc (ApprovalRequest × ApprovalTable) := do
  let row ← getLocked t approvalId
  if row.status ≠ .completed then
    let row ← transition row .completed
    let row := { row with executionResult := some result }
    return (row.toSchema, t.write row)
  return (row.toSchema, t)

/-- Record failure, unless the row has failed already. -/
def markFailed (t : ApprovalTable) (approvalId : String) (result : Dict) :
    Except PyExc (ApprovalRequest × ApprovalTable) := do
  let row ← getLocked t approvalId
  if row.status ≠ .failed then
    let row ← transition row .failed
    let row := { row with executionResult := some result }
    return (row.toSchema, t.write row)
  return (row.toSchema, t)

/-- Restart an unknown execution; this edge is not in the transition table. -/
def markRetryExecuting (now : Time) (t : ApprovalTable) (approvalId : String) :
    Except PyExc (ApprovalRequest × ApprovalTable) := do
  let row ← getLocked t approvalId
  if row.status ≠ .unknown then
    .error (.invalidApprovalTransition
      ("Retry execution requires unknown state, got " ++ row.status.value))
  else
    let row := { row with status := .executing, executionStartedAt := some now }
    return (row.toSchema, t.write row)

/-- Claim the retry of an unknown execution; the flag says whether this call is the owner. -/
def claimRetryExecution (now : Time) (t : ApprovalTable) (approvalId : String) :
    Except PyExc ((ApprovalRequest × Bool) × ApprovalTable) := do
  let row ← getLocked t approvalId
  if row.status ≠ .unknown then
    return ((row.toSchema, false), t)
  let row := { row with status := .executing, executionStartedAt := some now }
  return ((row.toSchema, true), t.write row)

/-- The result recorded when an abandoned execution is taken back. -/
def recoveredResult (startedAt : Time) : Dict :=
  [("executed", .bool false), ("unknown", .bool true), ("recovered_stale_execution", .bool true),
    ("execution_started_at", .str (isoformat startedAt))]

/-- Move an execution whose lease has run out back to unknown; the flag says whether it did. An
instant before `datetime.min` cannot be represented, so the subtraction raises. -/
def recoverStaleExecution (now : Time) (t : ApprovalTable) (approvalId : String)
    (staleAfterSeconds : ℤ) : Except PyExc ((ApprovalRequest × Bool) × ApprovalTable) := do
  if staleAfterSeconds < 1 then
    .error (.valueError "stale_after_seconds must be positive")
  else
    let row ← getLocked t approvalId
    match row.status, row.executionStartedAt with
    | .executing, some startedAt =>
      let age := seconds staleAfterSeconds.toNat
      if now < age then
        .error (.overflowError "date value out of range")
      else if startedAt > now - age then
        return ((row.toSchema, false), t)
      else
        let row := { row with
          status := .unknown
          executionResult := some (recoveredResult startedAt) }
        return ((row.toSchema, true), t.write row)
    | _, _ => return ((row.toSchema, false), t)

end ApprovalStore

/-- The calls of the store that a transaction can serve. -/
inductive StoreOp where
  | create (request : ApprovalRequest)
  | get (approvalId : String)
  | listReconcilable (limit : ℕ)
  | decide (decision : ApprovalDecision)
  | markExecuting (approvalId : String)
  | claimExecution (approvalId : String)
  | markUnknown (approvalId : String) (result : Dict)
  | markCompleted (approvalId : String) (result : Dict)
  | markFailed (approvalId : String) (result : Dict)
  | markRetryExecuting (approvalId : String)
  | claimRetryExecution (approvalId : String)
  | recoverStaleExecution (approvalId : String) (staleAfterSeconds : ℤ)

namespace StoreOp

/-- What a call returns. -/
abbrev Result : StoreOp → Type
  | get _ => Option ApprovalRequest
  | listReconcilable _ => List ApprovalRequest
  | claimExecution _ => ApprovalRequest × Bool
  | claimRetryExecution _ => ApprovalRequest × Bool
  | recoverStaleExecution _ _ => ApprovalRequest × Bool
  | _ => ApprovalRequest

/-- The approval a call is about. -/
def target : StoreOp → Option String
  | create request => some request.approvalId
  | get id => some id
  | listReconcilable _ => none
  | decide decision => some decision.approvalId
  | markExecuting id => some id
  | claimExecution id => some id
  | markUnknown id _ => some id
  | markCompleted id _ => some id
  | markFailed id _ => some id
  | markRetryExecuting id => some id
  | claimRetryExecution id => some id
  | recoverStaleExecution id _ => some id

/-- The approval that the reply to a call shows. -/
def shown : (op : StoreOp) → op.Result → Option ApprovalRequest
  | create _, approval => some approval
  | get _, found => found
  | listReconcilable _, _ => none
  | decide _, approval => some approval
  | markExecuting _, approval => some approval
  | claimExecution _, reply => some reply.1
  | markUnknown _ _, approval => some approval
  | markCompleted _ _, approval => some approval
  | markFailed _ _, approval => some approval
  | markRetryExecuting _, approval => some approval
  | claimRetryExecution _, reply => some reply.1
  | recoverStaleExecution _ _, reply => some reply.1

/-- The mark of an execution that a call makes: the approval and the status it records. -/
def marks : StoreOp → Option (String × ApprovalStatus)
  | markUnknown id _ => some (id, .unknown)
  | markCompleted id _ => some (id, .completed)
  | markFailed id _ => some (id, .failed)
  | _ => none

end StoreOp

namespace ApprovalStore

/-- Run one call as one transaction on the table. The reply is of the moment of the commit, after
which the source reads the row once more. -/
def perform (now : Time) (t : ApprovalTable) :
    (op : StoreOp) → Except PyExc (op.Result × ApprovalTable)
  | .create request => create t request
  | .get id => .ok (get t id, t)
  | .listReconcilable limit => (listReconcilable t limit).map (·, t)
  | .decide decision => decide t decision
  | .markExecuting id => markExecuting now t id
  | .claimExecution id => claimExecution now t id
  | .markUnknown id result => markUnknown t id result
  | .markCompleted id result => markCompleted t id result
  | .markFailed id result => markFailed t id result
  | .markRetryExecuting id => markRetryExecuting now t id
  | .claimRetryExecution id => claimRetryExecution now t id
  | .recoverStaleExecution id s => recoverStaleExecution now t id s

/-- The table after a call: a call that raises has been rolled back. -/
def tableAfter (now : Time) (t : ApprovalTable) (op : StoreOp) : ApprovalTable :=
  match perform now t op with
  | .ok (_, t') => t'
  | .error _ => t

end ApprovalStore

end CreditScoringMlops.ControlPlane
