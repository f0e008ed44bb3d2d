import CreditScoringMlops.ControlPlane.WorkerSessions

/-!
# The discipline of the workers

Every cycle of a worker is one of three: the lock is refused, or the batch cannot be loaded, or every
item of the batch is attempted once and in order. Each ends with the lock released and the lock
object without a connection, so the next cycle starts as the first one did. Together with the
invariant of the sessions this gives the discipline of any number of workers.
-/

namespace CreditScoringMlops.ControlPlane

open Python Interaction Program

/-! ## Cycles -/

/-- The calls of a worker, with their replies. -/
abbrev WorkerLog := List (Exchange WorkerOp WorkerOp.Reply)

/-- The attempts of a batch, with what became of each. -/
def attempts (outcomes : List (ApprovalRequest × Except PyExc ApprovalRequest)) : WorkerLog :=
  outcomes.map fun attempt => ⟨.reconcile attempt.1.approvalId, attempt.2⟩

/-- The calls of a cycle, and what it returns or raises: the lock is refused, or the batch cannot be
loaded, or everything in it is attempted once and in order. -/
inductive Cycle (worker : ReconciliationWorker) : WorkerLog → Except PyExc ℕ → Prop where
  | refused (connection : ℕ) :
    Cycle worker [⟨.connect, .ok connection⟩,
      ⟨.tryAdvisoryLock advisoryLockKey connection, .ok false⟩, ⟨.close connection, .ok ()⟩] (.ok 0)
  | unloaded (connection : ℕ) (exc : PyExc) :
    Cycle worker [⟨.connect, .ok connection⟩,
      ⟨.tryAdvisoryLock advisoryLockKey connection, .ok true⟩,
      ⟨.listReconcilable worker.batchSize, .error exc⟩,
      ⟨.advisoryUnlock advisoryLockKey connection, .ok ()⟩, ⟨.close connection, .ok ()⟩]
      (.error exc)
  | worked (connection : ℕ) (outcomes : List (ApprovalRequest × Except PyExc ApprovalRequest)) :
    Cycle worker ([⟨.connect, .ok connection⟩,
      ⟨.tryAdvisoryLock advisoryLockKey connection, .ok true⟩,
      ⟨.listReconcilable worker.batchSize, .ok (outcomes.map (·.1))⟩] ++ (attempts outcomes ++
      [⟨.advisoryUnlock advisoryLockKey connection, .ok ()⟩, ⟨.close connection, .ok ()⟩]))
      (.ok (outcomes.countP (·.2.isOk)))

/-- The calls of the lock return. -/
def Answered (log : WorkerLog) : Prop := ∀ e, e ∈ log → e.op.Returns e.reply

section

variable {worker : ReconciliationWorker} {log : WorkerLog} {connection : ℕ}

/-- Taking the lock. -/
theorem converses_tryAcquire {result : Except PyExc (Except PyExc Bool × PostgresAdvisoryLock)}
    (h : (PostgresAdvisoryLock.tryAcquire {}).Converses log result) (hlog : Answered log) :
    ∃ connection, (log = [⟨.connect, .ok connection⟩,
        ⟨.tryAdvisoryLock advisoryLockKey connection, .ok true⟩] ∧
      result = .ok (.ok true, { connection := some connection })) ∨
    (log = [⟨.connect, .ok connection⟩,
        ⟨.tryAdvisoryLock advisoryLockKey connection, .ok false⟩, ⟨.close connection, .ok ()⟩] ∧
      result = .ok (.ok false, {})) := by
  obtain ⟨connected, log₁, rfl, h₁⟩ := converses_perform.mp h
  obtain ⟨hconnected, hlog₁⟩ := List.forall_mem_cons.mp hlog
  match connected with
  | .error exc => cases hconnected
  | .ok connection =>
    refine ⟨connection, ?_⟩
    obtain ⟨acquired, log₂, rfl, h₂⟩ := converses_perform.mp h₁
    obtain ⟨hacquired, hlog₂⟩ := List.forall_mem_cons.mp hlog₁
    match acquired with
    | .error exc => cases hacquired
    | .ok true =>
      obtain ⟨rfl, rfl⟩ := converses_ret.mp h₂
      exact .inl ⟨rfl, rfl⟩
    | .ok false =>
      obtain ⟨closed, log₃, rfl, h₃⟩ := converses_perform.mp h₂
      obtain ⟨rfl, rfl⟩ := converses_ret.mp h₃
      obtain ⟨hclosed, -⟩ := List.forall_mem_cons.mp hlog₂
      match closed with
      | .error exc => cases hclosed
      | .ok () => exact .inr ⟨rfl, rfl⟩

/-- Releasing it. -/
theorem converses_release {result : Except PyExc (Except PyExc Unit × PostgresAdvisoryLock)}
    (h : (PostgresAdvisoryLock.release { connection := some connection }).Converses log result)
    (hlog : Answered log) :
    log = [⟨.advisoryUnlock advisoryLockKey connection, .ok ()⟩, ⟨.close connection, .ok ()⟩] ∧
      result = .ok (.ok (), {}) := by
  obtain ⟨unlocked, log₁, rfl, h₁⟩ := converses_perform.mp h
  obtain ⟨hunlocked, hlog₁⟩ := List.forall_mem_cons.mp hlog
  obtain ⟨closed, log₂, rfl, h₂⟩ := converses_perform.mp h₁
  obtain ⟨hclosed, -⟩ := List.forall_mem_cons.mp hlog₁
  match unlocked, closed with
  | .error exc, _ => cases hunlocked
  | .ok (), .error exc => cases hclosed
  | .ok (), .ok () =>
    obtain ⟨rfl, rfl⟩ := converses_ret.mp h₂
    exact ⟨rfl, rfl⟩

/-- Releasing it in the `finally` block keeps how the batch ended. -/
theorem converses_finally {ended : Except PyExc ℕ}
    {result : Except PyExc (Except PyExc ℕ × PostgresAdvisoryLock)}
    (h : (PostgresAdvisoryLock.release { connection := some connection } >>= fun released =>
      (pure (released.1 >>= fun _ => ended, released.2) : WorkerProgram _)).Converses log result)
    (hlog : Answered log) :
    log = [⟨.advisoryUnlock advisoryLockKey connection, .ok ()⟩, ⟨.close connection, .ok ()⟩] ∧
      result = .ok (ended, {}) := by
  obtain ⟨exc, rfl, h₁⟩ | ⟨released, log₁, log₂, rfl, h₁, h₂⟩ := converses_bind.mp h
  · cases (converses_release h₁ hlog).2
  · obtain ⟨rfl, rfl⟩ := converses_ret.mp h₂
    rw [List.append_nil] at hlog ⊢
    obtain ⟨rfl, hreleased⟩ := converses_release h₁ hlog
    obtain rfl := Except.ok.inj hreleased
    exact ⟨rfl, rfl⟩

/-- The loop attempts every item once, in order, and counts what did not raise. -/
theorem converses_reconcileAll {approvals : List ApprovalRequest} {processed : ℕ}
    {result : Except PyExc ℕ}
    (h : (WorkerProgram.reconcileAll approvals processed).Converses log result) :
    ∃ outcomes, outcomes.map (·.1) = approvals ∧ log = attempts outcomes ∧
      result = .ok (processed + outcomes.countP (·.2.isOk)) := by
  induction approvals generalizing log processed with
  | nil =>
    obtain ⟨rfl, rfl⟩ := converses_ret.mp h
    exact ⟨[], rfl, rfl, rfl⟩
  | cons approval rest ih =>
    obtain ⟨reply, log₁, rfl, hrest⟩ := converses_perform.mp h
    match reply with
    | .ok recovered =>
      obtain ⟨outcomes, rfl, rfl, rfl⟩ := ih hrest
      refine ⟨(approval, .ok recovered) :: outcomes, rfl, rfl, ?_⟩
      rw [List.countP_cons_of_pos rfl, Nat.add_right_comm, Nat.add_assoc]
    | .error exc =>
      obtain ⟨outcomes, rfl, rfl, rfl⟩ := ih hrest
      refine ⟨(approval, .error exc) :: outcomes, rfl, rfl, ?_⟩
      rw [List.countP_cons_of_neg (by simp [Except.isOk, Except.toBool])]

/-- A cycle with the lock ends in one of two ways, and without it. -/
theorem converses_reconcileLocked {result : Except PyExc (Except PyExc ℕ × PostgresAdvisoryLock)}
    (h : (WorkerProgram.reconcileLocked worker { connection := some connection }).Converses log
      result) (hlog : Answered log) :
    ∃ ended, Cycle worker (⟨.connect, .ok connection⟩ ::
      ⟨.tryAdvisoryLock advisoryLockKey connection, .ok true⟩ :: log) ended ∧
      result = .ok (ended, {}) := by
  obtain ⟨exc, rfl, h₁⟩ | ⟨ended, log₁, log₂, rfl, h₁, h₂⟩ := converses_bind.mp h
  · obtain ⟨ended, hended, -⟩ := converses_attempt.mp h₁
    cases hended
  obtain ⟨_, hended, hbatch⟩ := converses_attempt.mp h₁
  obtain rfl := Except.ok.inj hended
  obtain ⟨rfl, rfl⟩ := converses_finally h₂ fun e he => hlog e (List.mem_append_right _ he)
  refine ⟨ended, ?_, rfl⟩
  obtain ⟨listed, log₃, rfl, h₃⟩ := converses_perform.mp hbatch
  match listed with
  | .error exc =>
    obtain ⟨rfl, rfl⟩ := converses_raise.mp h₃
    exact .unloaded connection exc
  | .ok approvals =>
    obtain ⟨outcomes, rfl, rfl, rfl⟩ := converses_reconcileAll h₃
    rw [Nat.zero_add]
    exact .worked connection outcomes

/-- Every conversation of `run_once` is a cycle, and leaves the lock object as it was. -/
theorem converses_runOnce {result : Except PyExc (Except PyExc ℕ × PostgresAdvisoryLock)}
    (h : (WorkerProgram.runOnce worker {}).Converses log result) (hlog : Answered log) :
    ∃ ended, Cycle worker log ended ∧ result = .ok (ended, {}) := by
  obtain ⟨exc, rfl, h₁⟩ | ⟨acquired, log₁, log₂, rfl, h₁, h₂⟩ := converses_bind.mp h
  · obtain ⟨_, ⟨-, hended⟩ | ⟨-, hended⟩⟩ := converses_tryAcquire h₁ hlog <;> cases hended
  obtain ⟨connection, ⟨rfl, hended⟩ | ⟨rfl, hended⟩⟩ :=
    converses_tryAcquire h₁ fun e he => hlog e (List.mem_append_left _ he)
  · obtain rfl := Except.ok.inj hended
    exact converses_reconcileLocked h₂ fun e he => hlog e (List.mem_append_right _ he)
  · obtain rfl := Except.ok.inj hended
    obtain ⟨rfl, rfl⟩ := converses_ret.mp h₂
    exact ⟨.ok 0, .refused connection, rfl⟩

/-- The rounds of `run_forever` are cycles, one after the other. -/
theorem converses_runForever {rounds : ℕ}
    {result : Except PyExc (List (Except PyExc ℕ) × PostgresAdvisoryLock)}
    (h : (WorkerProgram.runForever worker rounds {}).Converses log result) (hlog : Answered log) :
    ∃ cycles outcomes, List.Forall₂ (Cycle worker) cycles outcomes ∧ cycles.length = rounds ∧
      log = cycles.flatten ∧ result = .ok (outcomes, {}) := by
  induction rounds generalizing log result with
  | zero =>
    obtain ⟨rfl, rfl⟩ := converses_ret.mp h
    exact ⟨[], [], .nil, rfl, rfl, rfl⟩
  | succ rounds ih =>
    obtain ⟨exc, rfl, h₁⟩ | ⟨ended, log₁, log₂, rfl, h₁, h₂⟩ := converses_bind.mp h
    · obtain ⟨_, -, hended⟩ := converses_runOnce h₁ hlog
      cases hended
    obtain ⟨outcome, hcycle, hended⟩ :=
      converses_runOnce h₁ fun e he => hlog e (List.mem_append_left _ he)
    obtain rfl := Except.ok.inj hended
    have hlog₂ : Answered log₂ := fun e he => hlog e (List.mem_append_right _ he)
    obtain ⟨exc, rfl, h₃⟩ | ⟨rest, log₃, log₄, rfl, h₃, h₄⟩ := converses_bind.mp h₂
    · obtain ⟨_, _, _, _, _, hrest⟩ := ih h₃ hlog₂
      cases hrest
    obtain ⟨rfl, rfl⟩ := converses_ret.mp h₄
    rw [List.append_nil] at hlog₂ ⊢
    obtain ⟨cycles, outcomes, hcycles, rfl, rfl, hrest⟩ := ih h₃ hlog₂
    obtain rfl := Except.ok.inj hrest
    exact ⟨log₁ :: cycles, outcome :: outcomes, .cons hcycle hcycles, rfl, rfl, rfl⟩

end

/-! ## Any run -/

/-- The calls of a batch. -/
def WorkerOp.InBatch : WorkerOp → Prop
  | listReconcilable _ => True
  | reconcile _ => True
  | _ => False

/-- What is listed is the first part of what can be reconciled. -/
def ListsFirst : Entry WorkerOp WorkerOp.Reply WorkerEnv Sessions → Prop
  | ⟨_, env, .listReconcilable limit, .ok approvals, _, _⟩ =>
    ∃ reconcilable, env.reconcilable = .ok reconcilable ∧ approvals = reconcilable.take limit
  | _ => True

/-- What holds of workers under way: one of them at most holds the lock, and only it works on a
batch, of what comes first; what they have done are cycles, of which the last one may not be over,
and every cycle finds the lock object without a connection; what is granted is held. -/
structure WorkerDiscipline (config : WorkerConfig) : Prop where
  exclusive : ∀ i j connection connection', config.phases i = some (.holding connection) →
    config.phases j = some (.holding connection') → i = j
  batches : ∀ pre e post, config.trace = pre ++ e :: post → e.op.InBatch →
    ∃ connection, discipline.stateOf pre e.caller = .holding connection
  listed : ∀ e, e ∈ config.trace → ListsFirst e
  cycles : ∀ i request rest, config.callers[i]? = some ⟨request, rest⟩ →
    ∃ cycles outcomes, List.Forall₂ (Cycle request.worker) cycles outcomes ∧
      cycles.length = request.rounds ∧
      (own config.trace i).map Entry.exchange <+: cycles.flatten ∧
      ∀ ended, rest = some (.ret ended) →
        (own config.trace i).map Entry.exchange = cycles.flatten ∧ ended = (outcomes, {})
  released : ∀ grant, grant ∈ config.world.grants →
    ∃ i, config.phases i = some (.holding grant.2)

/-- Surroundings in which the lock is refused and nothing else goes well. -/
def refusing : (op : WorkerOp) → op.Reply
  | .connect => .ok 0
  | .tryAdvisoryLock _ _ => .ok false
  | .advisoryUnlock _ _ => .ok ()
  | .close _ => .ok ()
  | .listReconcilable _ => .error (.other "")
  | .reconcile _ => .error (.other "")

/-- They answer the calls of the lock. -/
theorem returns_refusing (op : WorkerOp) : op.Returns (refusing op) := by
  cases op with
  | listReconcilable limit => trivial
  | reconcile approvalId => trivial
  | _ => rfl

/-- The store lists what comes first. -/
theorem listsFirst_entry (i : ℕ) (env : WorkerEnv) (op : WorkerOp) (w : Sessions) :
    ListsFirst (workers.entry i env op w) := by
  cases op with
  | listReconcilable limit =>
    change ListsFirst ⟨i, env, .listReconcilable limit,
      if limit < 1 then .error (.valueError "limit must be positive")
        else env.reconcilable.map (·.take limit), w, w⟩
    by_cases hlimit : limit < 1
    · rw [if_pos hlimit]
      trivial
    · rw [if_neg hlimit]
      cases hreconcilable : env.reconcilable with
      | error exc => trivial
      | ok reconcilable => exact ⟨reconcilable, hreconcilable, rfl⟩
  | _ => trivial

/-- Only a worker that is holding the lock works on a batch. -/
theorem holding_of_may {phase : Phase} {op : WorkerOp} (hmay : phase.may op)
    (hbatch : op.InBatch) : ∃ connection, phase = .holding connection := by
  match phase, op, hmay with
  | .holding connection, _, _ => exact ⟨connection, rfl⟩
  | .idle, .connect, _ => cases hbatch
  | .connected _, .tryAdvisoryLock _ _, _ => cases hbatch
  | .leaving _, .close _, _ => cases hbatch

/-- Workers keep their discipline in every run. -/
theorem workers_disciplined (events : List (Event WorkerEnv WorkerRequest)) :
    WorkerDiscipline (workers.run {} events) := by
  have hinvariant := sessionInvariant_run events
  have hentry : ∀ pre e post, (workers.run {} events).trace = pre ++ e :: post →
      (discipline.stateOf pre e.caller).may e.op ∧
        e = workers.entry e.caller e.env e.op e.before :=
    fun pre e post htrace => ((disciplined_workers events).legal.split htrace).2
  have hmem : ∀ e ∈ (workers.run {} events).trace,
      e = workers.entry e.caller e.env e.op e.before := fun e he => by
    obtain ⟨pre, post, htrace⟩ := List.append_of_mem he
    exact (hentry pre e post htrace).2
  have hanswered : ∀ i, Answered ((own (workers.run {} events).trace i).map Entry.exchange) := by
    intro i exchange hexchange
    obtain ⟨e, he, rfl⟩ := List.mem_map.mp hexchange
    rw [hmem e (List.mem_of_mem_filter he)]
    exact returns_exec _ _ _ _
  refine ⟨fun i j _ _ => hinvariant.exclusive, fun pre e post htrace hbatch => ?_,
    fun e he => ?_, fun i request rest hcaller => ?_, hinvariant.granted⟩
  · exact holding_of_may (hentry pre e post htrace).1 hbatch
  · rw [hmem e he]
    exact listsFirst_entry _ _ _ _
  · obtain ⟨post, result, hconverses, hpost⟩ :=
      workers.exists_converses_run refusing {} events hcaller
    have hlog : Answered ((own (workers.run {} events).trace i).map Entry.exchange ++ post) := by
      refine fun e he => (List.mem_append.mp he).elim (hanswered i e) fun hmore => ?_
      rw [hpost e hmore]
      exact returns_refusing e.op
    by_cases hended : ∃ ended, rest = some (.ret ended)
    · obtain ⟨ended, rfl⟩ := hended
      obtain ⟨cycles, outcomes, hcycles, hlength, hflatten, hresult⟩ :=
        converses_runForever (workers.converses_run {} events hcaller) (hanswered i)
      refine ⟨cycles, outcomes, hcycles, hlength, hflatten ▸ List.prefix_rfl, ?_⟩
      intro ended' hrest
      obtain rfl := Program.ret.inj (Option.some.inj hrest)
      exact ⟨hflatten, Except.ok.inj hresult⟩
    · obtain ⟨cycles, outcomes, hcycles, hlength, hflatten, -⟩ :=
        converses_runForever hconverses hlog
      exact ⟨cycles, outcomes, hcycles, hlength, hflatten ▸ List.prefix_append _ _,
        fun ended hrest => absurd ⟨ended, hrest⟩ hended⟩

end CreditScoringMlops.ControlPlane
