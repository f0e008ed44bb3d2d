import CreditScoringMlops.ControlPlane.ApprovalStore
import CreditScoringMlops.Interaction.Machine

/-!
# The operations of the control plane and the world they act on

The handlers, services and the worker are programs over `Op`. The world holds the two tables,
the advisory lock and the Jobs of the cluster. `Env` is what the surroundings contribute to one
operation: the clock, a failing database, fresh identifiers, the LLM, the manifest file and the
outcome of a kubectl process. `applyCalled` and `applyReturned` have no effect; they mark where
a call of `apply_training_job` begins and ends. `cluster` is a step of the cluster itself.
-/

namespace CreditScoringMlops.ControlPlane

open Python Interaction

/-- How a finished Job ended. -/
inductive JobOutcome where
  | completed
  | failed
  deriving DecidableEq

/-- A Job of the cluster: its failed pods so far, and its outcome once it has finished. -/
structure Job where
  failedPods : ℕ := 0
  outcome : Option JobOutcome := none
  deriving DecidableEq

/-- What the cluster does on its own. A submitted Job may appear after its kubectl has ended. -/
inductive ClusterChange where
  | created (jobName : String)
  | podFailed (jobName : String)
  | finished (jobName : String) (outcome : JobOutcome)
  | deleted (jobName : String)

/-- The Jobs by name. -/
abbrev Jobs := String → Option Job

namespace Jobs

/-- Create a Job, unless there is one. -/
def create (jobs : Jobs) (jobName : String) : Jobs := fun name =>
  if name = jobName then some ((jobs name).getD {}) else jobs name

/-- Change a Job that exists. -/
def modify (jobs : Jobs) (jobName : String) (f : Job → Job) : Jobs := fun name =>
  if name = jobName then (jobs name).map f else jobs name

/-- Delete a Job. -/
def delete (jobs : Jobs) (jobName : String) : Jobs := fun name =>
  if name = jobName then none else jobs name

/-- The effect of a step of the cluster; a finished Job stays as it ended. -/
def change (jobs : Jobs) : ClusterChange → Jobs
  | .created jobName => jobs.create jobName
  | .podFailed jobName => jobs.modify jobName fun job =>
      if job.outcome = none then { job with failedPods := job.failedPods + 1 } else job
  | .finished jobName outcome => jobs.modify jobName fun job =>
      if job.outcome = none then { job with outcome := some outcome } else job
  | .deleted jobName => jobs.delete jobName

end Jobs

/-- What else opening a file or running a process can raise. -/
inductive SystemFailure where
  | fileNotFound (message : String)
  | permission (message : String)
  | unicodeDecode (message : String)
  | other (message : String)
  deriving DecidableEq

/-- The exception raised. -/
def SystemFailure.exc : SystemFailure → PyExc
  | fileNotFound message => .fileNotFoundError message
  | permission message => .permissionError message
  | unicodeDecode message => .unicodeDecodeError message
  | other message => .other message

/-- How `kubectl apply` ends: the timeout, a non-zero exit code, another failure (a missing
kubectl is a file not found), or exit code 0 with its output. -/
inductive KubectlApply where
  | timeout
  | failed
  | raised (failure : SystemFailure)
  | ok (stdout : String)
  deriving DecidableEq

/-- How `kubectl get` ends. The output is kept as what `json.loads` makes of it: a value or the
message of its error. -/
inductive KubectlGet where
  | timeout
  | raised (failure : SystemFailure)
  | exited (returncode : ℤ) (stdout : Except String Json)

/-- The operations. -/
inductive Op where
  | store (op : StoreOp)
  | record (event : AuditRecord)
  | tryAcquire
  | release
  | uuid4
  | utcNow
  | str (value : Json)
  | reason (task : String) (context : Dict)
  | manifestExists
  | readManifest
  | applyCalled (approved : Bool) (executionId : Option String)
  | applyReturned (executionId : Option String) (result : Except PyExc Dict)
  | kubectlApply (jobName manifest : String)
  | kubectlGet (jobName : String)
  | cluster (change : ClusterChange)

/-- The answers. -/
abbrev Op.Reply : Op → Type
  | store op => Except PyExc op.Result
  | record _ => Except PyExc AuditEvent
  | tryAcquire => Except PyExc Bool
  | release => Except PyExc Unit
  | uuid4 => String
  | utcNow => Time
  | str _ => String
  | reason _ _ => Except PyExc AgentDecision
  | manifestExists => Bool
  | readManifest => Except SystemFailure String
  | applyCalled _ _ => Unit
  | applyReturned _ _ => Unit
  | kubectlApply _ _ => KubectlApply
  | kubectlGet _ => KubectlGet
  | cluster _ => Unit

/-- What the surroundings contribute to one operation; `fault` is a failure of the database. -/
structure Env where
  now : Time := 0
  fault : Option String := none
  uuid : String := ""
  text : String := ""
  decision : Except PyExc AgentDecision := .error (.other "no provider")
  manifest : Except SystemFailure String := .error (.fileNotFound "no manifest")
  kubectlApply : KubectlApply := .timeout
  jobCreated : Bool := false
  kubectlGet : KubectlGet := .timeout

/-- The shared state. The lock is held by a caller; the audit table only grows. -/
structure World where
  approvals : ApprovalTable := .empty
  audit : List AuditEvent := []
  lock : Option ℕ := none
  jobs : Jobs := fun _ => none

/-- A database operation fails as a whole, or takes effect and answers. One that fails after its
commit, as it reads the row once more, is left out. -/
def orFault {A : Type} (env : Env) (w : World) (effect : Except PyExc A × World) :
    Except PyExc A × World :=
  match env.fault with
  | some message => (.error (.other message), w)
  | none => effect

/-- One transaction of the approval store. -/
def execStore (env : Env) (op : StoreOp) (w : World) : Except PyExc op.Result × World :=
  match ApprovalStore.perform env.now w.approvals op with
  | .ok (reply, approvals) => (.ok reply, { w with approvals := approvals })
  | .error exc => (.error exc, w)

/-- Append an audit event under a fresh identifier, which the table requires to be new. -/
def execRecord (env : Env) (record : AuditRecord) (w : World) : Except PyExc AuditEvent × World :=
  if w.audit.any fun event => event.eventId == env.uuid then
    (.error (.other "IntegrityError: event_id is not unique"), w)
  else
    let event : AuditEvent := { record with eventId := env.uuid, occurredAt := env.now }
    (.ok event, { w with audit := w.audit ++ [event] })

/-- The answer to an operation of caller `i`, and the world after it. -/
def exec (i : ℕ) (op : Op) (env : Env) (w : World) : op.Reply × World :=
  match op with
  | .store op => orFault env w (execStore env op w)
  | .record record => orFault env w (execRecord env record w)
  | .tryAcquire => orFault env w <|
      match w.lock with
      | none => (.ok true, { w with lock := some i })
      | some _ => (.ok false, w)
  | .release => orFault env w (.ok (), { w with lock := if w.lock = some i then none else w.lock })
  | .uuid4 => (env.uuid, w)
  | .utcNow => (env.now, w)
  | .str _ => (env.text, w)
  | .reason _ _ => (env.decision, w)
  | .manifestExists => (env.manifest.toBool, w)
  | .readManifest => (env.manifest, w)
  | .applyCalled _ _ => ((), w)
  | .applyReturned _ _ => ((), w)
  | .kubectlApply jobName _ =>
      (env.kubectlApply, if env.jobCreated then { w with jobs := w.jobs.create jobName } else w)
  | .kubectlGet _ => (env.kubectlGet, w)
  | .cluster change => ((), { w with jobs := w.jobs.change change })

/-- A dying session gives its advisory lock back. -/
def abort (i : ℕ) (w : World) : World := { w with lock := if w.lock = some i then none else w.lock }

/-- Programs of the control plane. -/
abbrev Handler (A : Type) := Program Op Op.Reply PyExc A

/-- Perform one operation. -/
abbrev ask (op : Op) : Handler op.Reply := Program.request op

/-- Raise an exception. -/
abbrev raise {A : Type} (exc : PyExc) : Handler A := Program.raise exc

/-- Return a result or raise its exception. -/
abbrev ofExcept {A : Type} (result : Except PyExc A) : Handler A := Program.ofExcept result

/-- `try: ... except ...: raise`, where the handlers only replace the exception. -/
def rethrow {A : Type} (p : Handler A) (handler : PyExc → PyExc) : Handler A := do
  ofExcept ((← p.attempt).mapError handler)

/-- Call the approval store. -/
def store (op : StoreOp) : Handler op.Result := do
  ofExcept (← ask (.store op))

/-- `audit_service.record(...)`. -/
def record (event : AuditRecord) : Handler AuditEvent := do
  ofExcept (← ask (.record event))

end CreditScoringMlops.ControlPlane
