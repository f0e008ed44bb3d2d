import CreditScoringMlops.ControlPlane.ReconciliationService
import CreditScoringMlops.Interaction.Conversation

/-!
# The advisory lock of the workers

`PostgresAdvisoryLock` keeps the connection that holds the lock of the database, and drops it again
when it is released. A worker cycle runs between the two, whatever the store and the service do. The
operations here are the calls of the engine, of the connection, of the store and of the service;
`runOnce_translate` leads to the cycle in which the lock is one operation of the control plane.
-/

namespace CreditScoringMlops.ControlPlane

open Python Interaction

/-- What a worker calls. A connection stands for the session behind it. -/
inductive WorkerOp where
  | connect
  | tryAdvisoryLock (key : ℤ) (connection : ℕ)
  | advisoryUnlock (key : ℤ) (connection : ℕ)
  | close (connection : ℕ)
  | listReconcilable (limit : ℕ)
  | reconcile (approvalId : String)

/-- What it returns. -/
abbrev WorkerOp.Result : WorkerOp → Type
  | connect => ℕ
  | tryAdvisoryLock _ _ => Bool
  | advisoryUnlock _ _ => Unit
  | close _ => Unit
  | listReconcilable _ => List ApprovalRequest
  | reconcile _ => ApprovalRequest

/-- Every call returns or raises. -/
abbrev WorkerOp.Reply (op : WorkerOp) : Type := Except PyExc op.Result

/-- Programs of a worker. -/
abbrev WorkerProgram (A : Type) := Program WorkerOp WorkerOp.Reply PyExc A

/-- Make one call. -/
abbrev call (op : WorkerOp) : WorkerProgram op.Reply := Program.request op

/-- `ADVISORY_LOCK_KEY`. -/
def advisoryLockKey : ℤ := 918273645

/-- The lock object of a worker, with the connection it holds. -/
structure PostgresAdvisoryLock where
  key : ℤ := advisoryLockKey
  connection : Option ℕ := none

namespace PostgresAdvisoryLock

/-- `try_acquire`: what it returns or raises, and the lock then. A connection that has not got the
lock is closed. -/
def tryAcquire (lock : PostgresAdvisoryLock) :
    WorkerProgram (Except PyExc Bool × PostgresAdvisoryLock) := do
  if lock.connection.isSome then return (.ok true, lock)
  else
    match ← call .connect with
    | .error exc => return (.error exc, lock)
    | .ok connection =>
      match ← call (.tryAdvisoryLock lock.key connection) with
      | .ok true => return (.ok true, { lock with connection := some connection })
      | acquired =>
        let closed ← call (.close connection)
        return (closed >>= fun _ => acquired, lock)

/-- `release`. The connection is closed also when the unlock fails. -/
def release (lock : PostgresAdvisoryLock) :
    WorkerProgram (Except PyExc Unit × PostgresAdvisoryLock) := do
  match lock.connection with
  | none => return (.ok (), lock)
  | some connection =>
    let unlocked ← call (.advisoryUnlock lock.key connection)
    match ← call (.close connection) with
    | .error exc => return (.error exc, lock)
    | .ok () => return (unlocked, { lock with connection := none })

end PostgresAdvisoryLock

namespace WorkerProgram

/-- The loop of `run_once`. -/
def reconcileAll : List ApprovalRequest → ℕ → WorkerProgram ℕ
  | [], processed => return processed
  | approval :: rest, processed => do
    match ← call (.reconcile approval.approvalId) with
    | .ok _ => reconcileAll rest (processed + 1)
    | .error _ => reconcileAll rest processed

/-- The `try` block of `run_once`. -/
def reconcileBatch (worker : ReconciliationWorker) : WorkerProgram ℕ := do
  let approvals ← Program.ofExcept (← call (.listReconcilable worker.batchSize))
  reconcileAll approvals 0

/-- `run_once` with the lock: the `finally` block releases it. -/
def reconcileLocked (worker : ReconciliationWorker) (lock : PostgresAdvisoryLock) :
    WorkerProgram (Except PyExc ℕ × PostgresAdvisoryLock) := do
  let ended ← (reconcileBatch worker).attempt
  let (released, lock) ← lock.release
  return (released >>= fun _ => ended, lock)

/-- `run_once`: what it returns or raises, and the lock then. -/
def runOnce (worker : ReconciliationWorker) (lock : PostgresAdvisoryLock) :
    WorkerProgram (Except PyExc ℕ × PostgresAdvisoryLock) := do
  match ← lock.tryAcquire with
  | (.error exc, lock) => return (.error exc, lock)
  | (.ok false, lock) => return (.ok 0, lock)
  | (.ok true, lock) => reconcileLocked worker lock

/-- The first rounds of `run_forever`, with what each cycle returned or raised. -/
def runForever (worker : ReconciliationWorker) :
    ℕ → PostgresAdvisoryLock → WorkerProgram (List (Except PyExc ℕ) × PostgresAdvisoryLock)
  | 0, lock => return ([], lock)
  | rounds + 1, lock => do
    let (ended, lock) ← runOnce worker lock
    let (outcomes, lock) ← runForever worker rounds lock
    return (ended :: outcomes, lock)

end WorkerProgram

/-! ## The lock as one operation -/

/-- The calls of a worker in the control plane, where taking and releasing the lock are single
operations and connections do not appear. -/
def abstractCall (service : ReconciliationService) : (op : WorkerOp) → Handler op.Reply
  | .connect => return .ok 0
  | .tryAdvisoryLock _ _ => ask .tryAcquire
  | .advisoryUnlock _ _ => ask .release
  | .close _ => return .ok ()
  | .listReconcilable limit => ask (.store (.listReconcilable limit))
  | .reconcile approvalId => (service.reconcile approvalId).attempt

/-- None of them raises. -/
theorem attempt_abstractCall (service : ReconciliationService) (op : WorkerOp) :
    (abstractCall service op).attempt = Except.ok <$> abstractCall service op := by
  cases op with
  | reconcile approvalId => exact Program.attempt_attempt _
  | _ => rfl

/-- The loop is that of the control plane. -/
theorem reconcileAll_translate (service : ReconciliationService)
    (approvals : List ApprovalRequest) (processed : ℕ) :
    (WorkerProgram.reconcileAll approvals processed).translate (abstractCall service) =
      ReconciliationWorker.reconcileAll service approvals processed := by
  induction approvals generalizing processed with
  | nil => rfl
  | cons approval rest ih =>
    rw [WorkerProgram.reconcileAll, Program.translate_bind, Program.translate_request,
      ReconciliationWorker.reconcileAll]
    refine congrArg ((service.reconcile approval.approvalId).attempt >>= ·) (funext fun reply => ?_)
    cases reply with
    | ok _ => exact ih (processed + 1)
    | error _ => exact ih processed

/-- So is the batch. -/
theorem reconcileBatch_translate (worker : ReconciliationWorker) :
    (WorkerProgram.reconcileBatch worker).translate (abstractCall worker.service) = (do
      let approvals ← store (.listReconcilable worker.batchSize)
      ReconciliationWorker.reconcileAll worker.service approvals 0) := by
  rw [WorkerProgram.reconcileBatch, Program.translate_bind, Program.translate_request]
  refine congrArg (ask (.store (.listReconcilable worker.batchSize)) >>= ·)
    (funext fun reply => ?_)
  cases reply with
  | ok approvals => exact reconcileAll_translate worker.service approvals 0
  | error exc => rfl

/-- So is the rest of a cycle that has the lock. -/
theorem reconcileLocked_translate (worker : ReconciliationWorker) :
    (WorkerProgram.reconcileLocked worker { connection := some 0 } >>= fun ended =>
      Program.ofExcept ended.1).translate (abstractCall worker.service) = (do
        let ended ← Program.attempt (do
          let approvals ← store (.listReconcilable worker.batchSize)
          ReconciliationWorker.reconcileAll worker.service approvals 0)
        Program.ofExcept (← ask .release)
        Program.ofExcept ended) := by
  rw [WorkerProgram.reconcileLocked, Program.bind_assoc, Program.translate_bind,
    Program.translate_attempt (attempt_abstractCall worker.service), reconcileBatch_translate]
  refine congrArg (Program.attempt _ >>= ·) (funext fun ended => ?_)
  refine congrArg (ask .release >>= ·) (funext fun released => ?_)
  cases released with
  | ok _ => exact Program.translate_ofExcept ended
  | error exc => rfl

/-- With the lock as one operation, a cycle is `run_once` of the control plane. -/
theorem runOnce_translate (worker : ReconciliationWorker) :
    (WorkerProgram.runOnce worker {} >>= fun ended => Program.ofExcept ended.1).translate
      (abstractCall worker.service) = worker.runOnce := by
  refine congrArg (ask .tryAcquire >>= ·) (funext fun acquired => ?_)
  match acquired with
  | .error exc => rfl
  | .ok false => rfl
  | .ok true => exact reconcileLocked_translate worker

end CreditScoringMlops.ControlPlane
