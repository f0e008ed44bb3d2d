import CreditScoringMlops.ControlPlane.System

/-!
# The claim protocol

What a program of the control plane may do, as a monitor. A program reads, opens approvals,
decides and audits freely. It may mark an execution finished or recover it only after it has
read an uncertain status of the approval and the state of its Job. It may claim an execution as
its first act; the loser may do nothing more. The owner may apply, at most once, and then close
with the mark that fits the result; the owner of a retry must have read that the Job is absent.
After the close there is only the audit.

`OwnerPrograms` and `RequestPrograms` show that every program obeys the protocol.
-/

namespace CreditScoringMlops.ControlPlane

open Python Interaction

/-- How an execution came to its owner. -/
inductive Route where
  | execute
  | retry
  deriving DecidableEq

/-- The claim on each route. -/
def Route.claim : Route → String → StoreOp
  | execute, approvalId => .claimExecution approvalId
  | retry, approvalId => .claimRetryExecution approvalId

/-- The store calls that can raise an illegal transition. -/
def StoreOp.canRefuse : StoreOp → Bool
  | get _ => false
  | listReconcilable _ => false
  | claimRetryExecution _ => false
  | recoverStaleExecution _ _ => false
  | _ => true

/-- The statuses that `reconcile` looks into. -/
def ApprovalStatus.isUncertain : ApprovalStatus → Bool
  | executing => true
  | unknown => true
  | _ => false

/-- An illegal transition, as opposed to any other exception. -/
def isTransitionError : PyExc → Bool
  | .invalidApprovalTransition _ => true
  | _ => false

namespace ClaimProtocol

/-- The replies that occur: only some store calls raise an illegal transition. -/
def possible : (op : Op) → op.Reply → Prop
  | .store op, .error exc => isTransitionError exc → op.canRefuse
  | .record _, .error exc => ¬isTransitionError exc
  | _, _ => True

/-- The claim that an operation makes. -/
def claimOf : Op → Option (Route × String)
  | .store (.claimExecution approvalId) => some (.execute, approvalId)
  | .store (.claimRetryExecution approvalId) => some (.retry, approvalId)
  | _ => none

/-- The claim that an operation has won. -/
def claimWon : (op : Op) → op.Reply → Option (Route × String)
  | .store (.claimExecution approvalId), .ok (_, true) => some (.execute, approvalId)
  | .store (.claimRetryExecution approvalId), .ok (_, true) => some (.retry, approvalId)
  | _, _ => none

/-- The store refused an operation as an illegal transition. -/
def refusal : (op : Op) → op.Reply → Bool
  | .store _, .error exc => isTransitionError exc
  | _, _ => false

/-- The mark that an operation makes. -/
def markOf : Op → Option (String × ApprovalStatus)
  | .store op => op.marks
  | _ => none

/-- The result of a status check names this state of an existing Job. -/
def reports (result : Dict) (state : String) : Bool :=
  result.truthyAt "exists" && result.isStrAt "status" state

/-- The result of a status check names the Job absent. -/
def reportsAbsent (result : Dict) : Bool := result.isStrAt "status" "absent"

/-- How `apply_training_job` may end, given the kubectl it ran, if it ran one. -/
inductive Returns : Option KubectlApply → Except PyExc Dict → Prop where
  | executed {result : Dict} (stdout : String) (h : result.isTrueAt "executed") :
      Returns (some (.ok stdout)) (.ok result)
  | notExecuted {ended : Option KubectlApply} (hended : ∀ stdout, ended ≠ some (.ok stdout))
      (reason : String) : Returns ended (.ok (KubernetesExecutor.notExecuted reason))
  | raised {ended : Option KubectlApply} (hended : ∀ stdout, ended ≠ some (.ok stdout))
      (exc : PyExc) : Returns ended (.error exc)

/-- The status in which the owner closes an execution. -/
def closingStatus : Route → Except PyExc Dict → ApprovalStatus
  | _, .ok result => if result.isTrueAt "executed" then .completed else .failed
  | .retry, .error _ => .unknown
  | .execute, .error (.kubernetesExecutionUnknown _) => .unknown
  | .execute, .error _ => .failed

/-- What a program knows that has claimed nothing: whether a claim may still be its first act, the
approval it has read last, the Job it has looked up last, and whether it has settled the outcome
of that Job. -/
structure Free where
  fresh : Bool := true
  found : Option (String × ApprovalStatus) := none
  judged : Option (String × Except PyExc Dict) := none
  settled : Bool := false

/-- How far a program has come. A refused transaction is remembered with its mark. -/
inductive Phase where
  | free (f : Free)
  | lost
  | owns (route : Route) (approvalId : String)
  | seen (approvalId : String) (status : Except PyExc Dict)
  | applying (route : Route) (approvalId : String) (ended : Option KubectlApply)
  | applied (route : Route) (approvalId : String) (result : Except PyExc Dict)
  | closed (route : Route) (approvalId : String)
  | refused (owner : Option (Route × String)) (mark : Option (String × ApprovalStatus))

namespace Phase

/-- The execution the program owns. -/
def owner : Phase → Option (Route × String)
  | owns route approvalId => some (route, approvalId)
  | seen approvalId _ => some (.retry, approvalId)
  | applying route approvalId _ => some (route, approvalId)
  | applied route approvalId _ => some (route, approvalId)
  | closed route approvalId => some (route, approvalId)
  | refused owner _ => owner
  | _ => none

/-- What the program knows, if it has claimed nothing. A refusal makes it forget. -/
def free? : Phase → Option Free
  | free f => some f
  | refused none _ => some { fresh := false }
  | _ => none

/-- No claim has been made. -/
def isFree (s : Phase) : Bool := s.free?.isSome

end Phase

/-- Operations that change no execution. -/
def isReading : Op → Bool
  | .store (.get _) => true
  | .store (.listReconcilable _) => true
  | .store (.decide _) => true
  | .record _ => true
  | .tryAcquire => true
  | .release => true
  | .uuid4 => true
  | .utcNow => true
  | .str _ => true
  | .reason _ _ => true
  | .kubectlGet _ => true
  | .cluster _ => true
  | _ => false

open ReconciliationService in
/-- What a program may do next. -/
inductive May : Phase → Op → Prop where
  | read {s : Phase} {op : Op} (hs : s.isFree) (hop : isReading op) : May s op
  | create {s : Phase} {request : ApprovalRequest} (hs : s.isFree)
      (hstatus : request.status = .pending) (haction : request.action = "create_training_job") :
      May s (.store (.create request))
  | claim {f : Free} (route : Route) (x : String) (hf : f.fresh) :
      May (.free f) (.store (route.claim x))
  | complete {f : Free} {status : ApprovalStatus} {result : Dict} (x : String)
      (hfound : f.found = some (x, status)) (hstatus : status.isUncertain)
      (hjudged : f.judged = some (trainingJobName x, .ok result))
      (h : reports result "completed") :
      May (.free f) (.store (.markCompleted x (reconciledResult true result)))
  | fail {f : Free} {status : ApprovalStatus} {result : Dict} (x : String)
      (hfound : f.found = some (x, status)) (hstatus : status.isUncertain)
      (hjudged : f.judged = some (trainingJobName x, .ok result)) (h : reports result "failed") :
      May (.free f) (.store (.markFailed x (reconciledResult false result)))
  | recover {f : Free} {result : Dict} (x : String) {lease : ℤ}
      (hfound : f.found = some (x, .executing))
      (hjudged : f.judged = some (trainingJobName x, .ok result)) (h : reportsAbsent result)
      (hlease : 1 ≤ lease) : May (.free f) (.store (.recoverStaleExecution x lease))
  | announce {route : Route} {x : String} (event : AuditRecord) :
      May (.owns route x) (.record event)
  | inspect {x : String} : May (.owns .retry x) (.kubectlGet (trainingJobName x))
  | giveUp {x : String} (result : Dict) : May (.owns .retry x) (.store (.markUnknown x result))
  | applyFirst {x : String} : May (.owns .execute x) (.applyCalled true (some x))
  | note {x : String} {status : Except PyExc Dict} (event : AuditRecord) :
      May (.seen x status) (.record event)
  | reread {x : String} {status : Except PyExc Dict} : May (.seen x status) (.store (.get x))
  | retryComplete {x : String} {result : Dict} (h : reports result "completed") :
      May (.seen x (.ok result)) (.store (.markCompleted x (reconciledResult true result)))
  | retryFail {x : String} {result : Dict} (h : reports result "failed") :
      May (.seen x (.ok result)) (.store (.markFailed x (reconciledResult false result)))
  | retryUnclear {x : String} {status : Except PyExc Dict} (result : Dict) :
      May (.seen x status) (.store (.markUnknown x result))
  | applyAgain {x : String} {result : Dict} (h : reportsAbsent result) :
      May (.seen x (.ok result)) (.applyCalled true (some x))
  | manifestExists {route : Route} {x : String} : May (.applying route x none) .manifestExists
  | readManifest {route : Route} {x : String} : May (.applying route x none) .readManifest
  | kubectlApply {route : Route} {x name : String} (manifest : String)
      (hname : KubernetesExecutor.jobName x = .ok name) :
      May (.applying route x none) (.kubectlApply name manifest)
  | applyReturned {route : Route} {x : String} {ended : Option KubectlApply}
      {result : Except PyExc Dict} (h : Returns ended result) :
      May (.applying route x ended) (.applyReturned (some x) result)
  | close {route : Route} {x : String} {result : Except PyExc Dict} {op : StoreOp}
      (h : op.marks = some (x, closingStatus route result)) :
      May (.applied route x result) (.store op)
  | audit {route : Route} {x : String} (event : AuditRecord) :
      May (.closed route x) (.record event)

/-- What a program without a claim knows after an operation. -/
def Free.after (f : Free) : (op : Op) → op.Reply → Free
  | .store (.get x), .ok found => { f with found := found.map fun approval => (x, approval.status) }
  | .store op, .ok _ => { f with fresh := false, settled := f.settled || op.marks.isSome }
  | .kubectlGet name, ended =>
      { f with fresh := false, judged := some (name, KubernetesExecutor.classify ended),
               settled := false }
  | _, _ => { f with fresh := false }

/-- The phase of an owner after an operation that was not refused. -/
def ownerAfter : Phase → (op : Op) → op.Reply → Phase
  | .owns _ x, .kubectlGet _, ended => .seen x (KubernetesExecutor.classify ended)
  | .owns route x, .applyCalled _ _, _ => .applying route x none
  | .owns route x, .store _, _ => .closed route x
  | .seen x status, .store (.get _), _ => .seen x status
  | .seen x _, .store _, _ => .closed .retry x
  | .seen x _, .applyCalled _ _, _ => .applying .retry x none
  | .applying route x _, .kubectlApply _ _, ended => .applying route x (some ended)
  | .applying route x _, .applyReturned _ result, _ => .applied route x result
  | .applied route x _, .store _, _ => .closed route x
  | s, _, _ => s

/-- The phase after an operation that was not refused and is no claim. -/
def after (s : Phase) (op : Op) (reply : op.Reply) : Phase :=
  match s.free? with
  | some f => .free (f.after op reply)
  | none => ownerAfter s op reply

/-- The phase after an operation. -/
def next (s : Phase) (op : Op) (reply : op.Reply) : Phase :=
  match claimOf op, claimWon op reply with
  | some _, some (route, x) => .owns route x
  | some _, none => .lost
  | none, _ => if refusal op reply then .refused s.owner (markOf op) else after s op reply

/-- Only some store calls raise an illegal transition. -/
theorem perform_error {now : Time} {t : ApprovalTable} {op : StoreOp} {exc : PyExc}
    (h : ApprovalStore.perform now t op = .error exc) (htransition : isTransitionError exc) :
    op.canRefuse := by
  have hlocked : ∀ id, ApprovalStore.getLocked t id = .error exc → False := by
    intro id hid
    unfold ApprovalStore.getLocked at hid
    split at hid <;> cases hid
    simp [isTransitionError] at htransition
  cases op with
  | get id => cases h
  | listReconcilable limit =>
    simp only [ApprovalStore.perform, ApprovalStore.listReconcilable] at h
    split at h <;> cases h
    simp [isTransitionError] at htransition
  | claimRetryExecution id =>
    simp only [ApprovalStore.perform, ApprovalStore.claimRetryExecution] at h
    obtain h | ⟨row, -, h⟩ := bind_eq_error.mp h
    · exact (hlocked id h).elim
    · split at h <;> cases h
  | recoverStaleExecution id s =>
    simp only [ApprovalStore.perform, ApprovalStore.recoverStaleExecution] at h
    split at h
    · cases h
      simp [isTransitionError] at htransition
    · obtain h | ⟨row, -, h⟩ := bind_eq_error.mp h
      · exact (hlocked id h).elim
      · split at h
        · split at h
          · cases h
            simp [isTransitionError] at htransition
          · split at h <;> cases h
        · cases h
  | _ => rfl

/-- The replies of the system are possible. -/
theorem exec_possible (i : ℕ) (op : Op) (env : Env) (w : World) :
    possible op (exec i op env w).1 := by
  cases op with
  | store op =>
    simp only [exec, orFault, execStore]
    split
    · simp [possible, isTransitionError]
    · split
      · simp [possible]
      · exact perform_error ‹_›
  | record event =>
    simp only [exec, orFault, execRecord]
    split
    · simp [possible, isTransitionError]
    · split <;> simp [possible, isTransitionError]
  | _ => simp [possible]

end ClaimProtocol

/-- The protocol as a monitor. -/
def claimProtocol : Monitor Op Op.Reply ClaimProtocol.Phase where
  start := .free {}
  may := ClaimProtocol.May
  possible := ClaimProtocol.possible
  next := ClaimProtocol.next

end CreditScoringMlops.ControlPlane
