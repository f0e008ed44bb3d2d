import CreditScoringMlops.ControlPlane.AdvisoryLock
import Mathlib.Data.List.MinMax

/-!
# Workers and the sessions of the database

Any number of workers, each with a lock object of its own, go through their cycles side by side;
the database grants the advisory lock to one connection at a time. `Phase` follows a worker through
the calls of its lock, and `SessionInvariant` ties the phases to what the database has granted: no
two workers hold the lock, and what a worker has released or left behind is free again.
-/

namespace CreditScoringMlops.ControlPlane

open Python Interaction Program

/-! ## The database -/

/-- What a call meets: the connection that the pool would hand out, and how the store and the
service end. -/
structure WorkerEnv where
  connection : ℕ := 0
  reconcilable : Except PyExc (List ApprovalRequest) := .ok []
  reconciled : Except PyExc ApprovalRequest

/-- The connections that are in use, each by one worker, and the advisory locks granted to them. -/
structure Sessions where
  checkedOut : List (ℕ × ℕ) := []
  grants : List (ℤ × ℕ) := []

namespace Sessions

variable (w : Sessions)

/-- The pool hands out a connection that is not in use. -/
def handOut (wish : ℕ) : ℕ :=
  if wish ∈ w.checkedOut.map (·.1) then (w.checkedOut.map (·.1)).foldr max 0 + 1 else wish

/-- The lock may be granted to a connection if no other one has it. -/
def grantable (key : ℤ) (connection : ℕ) : Bool :=
  w.grants.all fun grant => decide (grant.1 = key → grant.2 = connection)

/-- The sessions of a worker that dies end, and with them their locks. -/
def abort (i : ℕ) : Sessions where
  checkedOut := w.checkedOut.filter fun session => session.2 ≠ i
  grants := w.grants.filter fun grant => (grant.2, i) ∉ w.checkedOut

/-- One call of worker `i`. Only the store and the service may fail. -/
def exec (i : ℕ) : (op : WorkerOp) → WorkerEnv → Sessions → op.Reply × Sessions
  | .connect, env, w =>
    (.ok (w.handOut env.connection),
      { w with checkedOut := (w.handOut env.connection, i) :: w.checkedOut })
  | .tryAdvisoryLock key connection, _, w =>
    if w.grantable key connection then
      (.ok true, { w with grants := (key, connection) :: w.grants })
    else (.ok false, w)
  | .advisoryUnlock key connection, _, w =>
    (.ok (), { w with grants := w.grants.erase (key, connection) })
  | .close connection, _, w =>
    (.ok (), { w with checkedOut := w.checkedOut.erase (connection, i) })
  | .listReconcilable limit, env, w =>
    (if limit < 1 then .error (.valueError "limit must be positive")
      else env.reconcilable.map (·.take limit), w)
  | .reconcile _, env, w => (env.reconciled, w)

end Sessions

/-- A worker that is started for a number of rounds. -/
structure WorkerRequest where
  worker : ReconciliationWorker
  rounds : ℕ

/-- Workers side by side, each with a lock object of its own. -/
def workers : Machine WorkerOp WorkerOp.Reply PyExc WorkerEnv Sessions WorkerRequest
    (List (Except PyExc ℕ) × PostgresAdvisoryLock) where
  program r := WorkerProgram.runForever r.worker r.rounds {}
  exec := Sessions.exec
  abort i w := w.abort i

/-! ## Phases -/

/-- Where a worker is: between cycles, with a connection that has not got the lock, with the lock,
or about to close its connection. -/
inductive Phase where
  | idle
  | connected (connection : ℕ)
  | holding (connection : ℕ)
  | leaving (connection : ℕ)

/-- The connection of a phase. -/
def Phase.connection? : Phase → Option ℕ
  | idle => none
  | connected connection => some connection
  | holding connection => some connection
  | leaving connection => some connection

/-- What a worker does in its phase. -/
def Phase.may : Phase → WorkerOp → Prop
  | idle, .connect => True
  | connected connection, .tryAdvisoryLock key c => key = advisoryLockKey ∧ c = connection
  | holding _, .listReconcilable _ => True
  | holding _, .reconcile _ => True
  | holding connection, .advisoryUnlock key c => key = advisoryLockKey ∧ c = connection
  | leaving connection, .close c => c = connection
  | _, _ => False

/-- Where it leads to. -/
def Phase.next : Phase → (op : WorkerOp) → op.Reply → Phase
  | _, .connect, .ok connection => connected connection
  | _, .tryAdvisoryLock _ connection, .ok true => holding connection
  | _, .tryAdvisoryLock _ connection, _ => leaving connection
  | _, .advisoryUnlock _ connection, _ => leaving connection
  | _, .close _, _ => idle
  | phase, _, _ => phase

/-- The calls of the lock return. -/
def WorkerOp.Returns : (op : WorkerOp) → op.Reply → Prop
  | .listReconcilable _, _ => True
  | .reconcile _, _ => True
  | _, reply => reply.isOk

/-- The discipline of a worker. -/
def discipline : Monitor WorkerOp WorkerOp.Reply Phase where
  start := .idle
  may := Phase.may
  possible := WorkerOp.Returns
  next := Phase.next

/-- The database always answers the calls of the lock. -/
theorem returns_exec (i : ℕ) (op : WorkerOp) (env : WorkerEnv) (w : Sessions) :
    op.Returns (workers.exec i op env w).1 := by
  cases op with
  | listReconcilable limit => trivial
  | reconcile approvalId => trivial
  | tryAdvisoryLock key connection =>
    cases hgrant : w.grantable key connection <;>
      simp [workers, Sessions.exec, WorkerOp.Returns, hgrant, Except.isOk, Except.toBool]
  | _ => rfl

/-- A worker without a connection gets the lock with one, or is without it again. -/
theorem tryAcquire_obeys :
    (PostgresAdvisoryLock.tryAcquire {}).Obeys discipline
      (fun phase ended =>
        (∃ connection, phase = .holding connection ∧
          ended = (.ok true, { connection := some connection })) ∨
        phase = .idle ∧ ended = (.ok false, {})) (fun _ _ => False) .idle := by
  refine ⟨trivial, fun reply hreply => ?_⟩
  match reply with
  | .error exc => cases hreply
  | .ok connection =>
    refine ⟨⟨rfl, rfl⟩, fun acquired hacquired => ?_⟩
    match acquired with
    | .error exc => cases hacquired
    | .ok true => exact .inl ⟨connection, rfl, rfl⟩
    | .ok false =>
      refine ⟨rfl, fun closed hclosed => ?_⟩
      match closed with
      | .error exc => cases hclosed
      | .ok () => exact .inr ⟨rfl, rfl⟩

/-- A worker with the lock releases it and closes its connection. -/
theorem release_obeys (connection : ℕ) :
    (PostgresAdvisoryLock.release { connection := some connection }).Obeys discipline
      (fun phase ended => phase = .idle ∧ ended = (.ok (), {})) (fun _ _ => False)
      (.holding connection) := by
  refine ⟨⟨rfl, rfl⟩, fun unlocked hunlocked => ?_⟩
  match unlocked with
  | .error exc => cases hunlocked
  | .ok () =>
    refine ⟨rfl, fun closed hclosed => ?_⟩
    match closed with
    | .error exc => cases hclosed
    | .ok () => exact ⟨rfl, rfl⟩

/-- The batch keeps the lock. -/
theorem reconcileAll_obeys (approvals : List ApprovalRequest) (processed connection : ℕ) :
    (WorkerProgram.reconcileAll approvals processed).Obeys discipline
      (fun phase _ => phase = .holding connection) (fun _ _ => False) (.holding connection) := by
  induction approvals generalizing processed with
  | nil => rfl
  | cons approval rest ih =>
    refine ⟨trivial, fun reply _ => ?_⟩
    cases reply with
    | ok _ => exact ih (processed + 1)
    | error _ => exact ih processed

/-- A cycle that has the lock ends without it. -/
theorem reconcileLocked_obeys (worker : ReconciliationWorker) (connection : ℕ) :
    (WorkerProgram.reconcileLocked worker { connection := some connection }).Obeys discipline
      (fun phase ended => phase = .idle ∧ ended.2 = {}) (fun _ _ => False)
      (.holding connection) := by
  have hbatch : (WorkerProgram.reconcileBatch worker).Obeys discipline
      (fun phase _ => phase = .holding connection) (fun phase _ => phase = .holding connection)
      (.holding connection) := by
    refine ⟨trivial, fun reply _ => ?_⟩
    cases reply with
    | ok approvals =>
      exact (reconcileAll_obeys approvals 0 connection).mono (fun _ _ h => h) fun _ _ => False.elim
    | error exc => rfl
  have hrelease (ended : Except PyExc ℕ) {phase : Phase} (h : phase = .holding connection) :
      ((PostgresAdvisoryLock.release { connection := some connection }) >>= fun released =>
        (pure (released.1 >>= fun _ => ended, released.2) : WorkerProgram _)).Obeys discipline
          (fun phase ended => phase = .idle ∧ ended.2 = {}) (fun _ _ => False) phase := by
    rw [h, obeys_bind]
    refine (release_obeys connection).mono (fun phase released h => ?_) fun _ _ h => h
    exact ⟨h.1, by rw [h.2]⟩
  refine (obeys_bind _ _).mpr ((obeys_attempt _).mpr (hbatch.mono ?_ ?_))
  · exact fun phase processed h => hrelease _ h
  · exact fun phase exc h => hrelease _ h

/-- Every cycle starts and ends without a connection. -/
theorem runOnce_obeys (worker : ReconciliationWorker) :
    (WorkerProgram.runOnce worker {}).Obeys discipline
      (fun phase ended => phase = .idle ∧ ended.2 = {}) (fun _ _ => False) .idle := by
  refine (obeys_bind _ _).mpr (tryAcquire_obeys.mono (fun phase acquired h => ?_) fun _ _ h => h)
  obtain ⟨connection, rfl, rfl⟩ | ⟨rfl, rfl⟩ := h
  · exact reconcileLocked_obeys worker connection
  · exact ⟨rfl, rfl⟩

/-- So do any number of rounds. -/
theorem runForever_obeys (worker : ReconciliationWorker) (rounds : ℕ) :
    (WorkerProgram.runForever worker rounds {}).Obeys discipline
      (fun phase ended => phase = .idle ∧ ended.2 = {}) (fun _ _ => False) .idle := by
  induction rounds with
  | zero => exact ⟨rfl, rfl⟩
  | succ rounds ih =>
    refine (obeys_bind _ _).mpr ((runOnce_obeys worker).mono (fun phase ended h => ?_) fun _ _ h => h)
    obtain ⟨ended, lock⟩ := ended
    obtain ⟨rfl, rfl⟩ := h
    exact (obeys_bind _ _).mpr (ih.mono (fun _ _ h => h) fun _ _ h => h)

/-! ## Who has the lock -/

/-- The phases of the live workers, and the database: every connection has one owner, and at most
one lock is granted, to the worker that is holding it. -/
structure SessionInvariant (phases : ℕ → Option Phase) (w : Sessions) : Prop where
  distinct : (w.checkedOut.map (·.1)).Nodup
  owned : ∀ i phase connection, phases i = some phase → phase.connection? = some connection →
    (connection, i) ∈ w.checkedOut
  held : ∀ i connection, phases i = some (.holding connection) →
    (advisoryLockKey, connection) ∈ w.grants
  granted : ∀ grant, grant ∈ w.grants → ∃ i, phases i = some (.holding grant.2)
  single : w.grants = [] ∨ ∃ grant, w.grants = [grant]

section

variable {phases : ℕ → Option Phase} {w : Sessions} {i j connection : ℕ} {phase : Phase}

/-- A connection has one owner. -/
theorem SessionInvariant.owner_eq (h : SessionInvariant phases w) {phase' : Phase}
    (hi : phases i = some phase) (hphase : phase.connection? = some connection)
    (hj : phases j = some phase') (hphase' : phase'.connection? = some connection) : i = j := by
  have hsame := List.inj_on_of_nodup_map h.distinct (h.owned i _ _ hi hphase)
    (h.owned j _ _ hj hphase') rfl
  exact (Prod.mk.inj hsame).2

/-- One worker is holding the lock at most. -/
theorem SessionInvariant.exclusive (h : SessionInvariant phases w) {connection' : ℕ}
    (hi : phases i = some (.holding connection)) (hj : phases j = some (.holding connection')) :
    i = j := by
  have hheld := h.held i _ hi
  have hheld' := h.held j _ hj
  obtain hnone | ⟨grant, hgrant⟩ := h.single
  · rw [hnone] at hheld
    cases hheld
  · rw [hgrant] at hheld hheld'
    have hsame := (List.mem_singleton.mp hheld).trans (List.mem_singleton.mp hheld').symm
    obtain rfl := (Prod.mk.inj hsame).2
    exact h.owner_eq hi rfl hj rfl

/-- One worker moves, and the others keep what they have. -/
theorem SessionInvariant.update (h : SessionInvariant phases w) {w' : Sessions}
    {next : Option Phase} (hdistinct : (w'.checkedOut.map (·.1)).Nodup)
    (howned : ∀ j connection, j ≠ i → (connection, j) ∈ w.checkedOut →
      (connection, j) ∈ w'.checkedOut)
    (hown : ∀ phase connection, next = some phase → phase.connection? = some connection →
      (connection, i) ∈ w'.checkedOut)
    (hheld : ∀ j connection, j ≠ i → phases j = some (.holding connection) →
      (advisoryLockKey, connection) ∈ w'.grants)
    (hhold : ∀ connection, next = some (.holding connection) →
      (advisoryLockKey, connection) ∈ w'.grants)
    (hgranted : ∀ grant, grant ∈ w'.grants → next = some (.holding grant.2) ∨
      ∃ j, j ≠ i ∧ phases j = some (.holding grant.2))
    (hsingle : w'.grants = [] ∨ ∃ grant, w'.grants = [grant]) :
    SessionInvariant (Function.update phases i next) w' where
  distinct := hdistinct
  owned j phase connection hj hphase := by
    by_cases hij : j = i
    · subst hij
      rw [Function.update_self] at hj
      exact hown phase connection hj hphase
    · rw [Function.update_of_ne hij] at hj
      exact howned j connection hij (h.owned j phase connection hj hphase)
  held j connection hj := by
    by_cases hij : j = i
    · subst hij
      rw [Function.update_self] at hj
      exact hhold connection hj
    · rw [Function.update_of_ne hij] at hj
      exact hheld j connection hij hj
  granted grant hgrant := by
    obtain hnext | ⟨j, hij, hj⟩ := hgranted grant hgrant
    · exact ⟨i, by rw [Function.update_self, hnext]⟩
    · exact ⟨j, by rw [Function.update_of_ne hij, hj]⟩
  single := hsingle

/-- A lock that is granted to a worker without it is not granted to another one. -/
theorem SessionInvariant.granted_other (h : SessionInvariant phases w) (hi : phases i = some phase)
    (hphase : ∀ connection, phase ≠ .holding connection) {grant : ℤ × ℕ}
    (hgrant : grant ∈ w.grants) : ∃ j, j ≠ i ∧ phases j = some (.holding grant.2) := by
  obtain ⟨j, hj⟩ := h.granted grant hgrant
  refine ⟨j, fun hij => ?_, hj⟩
  subst hij
  exact hphase _ (Option.some.inj (hi.symm.trans hj))

/-- A worker that does not hold the lock moves on without it. -/
theorem SessionInvariant.move (h : SessionInvariant phases w) (hi : phases i = some phase)
    (hphase : ∀ connection, phase ≠ .holding connection) {next : Phase}
    (hnext : ∀ connection, next ≠ .holding connection) {checkedOut : List (ℕ × ℕ)}
    (hdistinct : (checkedOut.map (·.1)).Nodup)
    (howned : ∀ j connection, j ≠ i → (connection, j) ∈ w.checkedOut →
      (connection, j) ∈ checkedOut)
    (hown : ∀ connection, next.connection? = some connection → (connection, i) ∈ checkedOut) :
    SessionInvariant (Function.update phases i (some next)) { w with checkedOut } := by
  refine h.update hdistinct howned (fun phase' connection hsome hconnection => ?_)
    (fun j connection _ hj => h.held j connection hj)
    (fun connection hsome => absurd (Option.some.inj hsome) (hnext connection))
    (fun grant hgrant => .inr (h.granted_other hi hphase hgrant)) h.single
  obtain rfl := Option.some.inj hsome
  exact hown connection hconnection

/-- The lock can be granted to a new connection only if nobody has it. -/
theorem SessionInvariant.grants_eq_nil (h : SessionInvariant phases w)
    (hi : phases i = some (.connected connection))
    (hgrantable : w.grantable advisoryLockKey connection = true) : w.grants = [] := by
  obtain hnone | ⟨grant, hgrant⟩ := h.single
  · exact hnone
  · have hmem : grant ∈ w.grants := by rw [hgrant]; exact List.mem_singleton_self _
    obtain ⟨j, hij, hj⟩ := h.granted_other hi (by simp) hmem
    have hheld := h.held j _ hj
    have hsame := of_decide_eq_true (List.all_eq_true.mp hgrantable _ hheld) rfl
    exact absurd (h.owner_eq hj rfl hi (congrArg some hsame.symm)) hij

/-- The pool hands out a connection that nobody has. -/
theorem handOut_not_mem (w : Sessions) (wish : ℕ) : w.handOut wish ∉ w.checkedOut.map (·.1) := by
  unfold Sessions.handOut
  split
  · intro hmem
    exact absurd (List.le_max_of_le' 0 hmem le_rfl) (Nat.not_succ_le_self _)
  · assumption

/-- Every call that a worker makes in its phase keeps the invariant. -/
theorem SessionInvariant.exec (h : SessionInvariant phases w) (hi : phases i = some phase)
    {op : WorkerOp} (hmay : phase.may op) (env : WorkerEnv) :
    SessionInvariant
      (Function.update phases i (some (phase.next op (workers.exec i op env w).1)))
      (workers.exec i op env w).2 := by
  match phase, op, hmay with
  | .idle, .connect, _ =>
    refine h.move hi (by simp) (by simp [Phase.next, workers, Sessions.exec]) ?_ ?_ ?_
    · exact List.nodup_cons.mpr ⟨handOut_not_mem w env.connection, h.distinct⟩
    · exact fun j connection _ hmem => List.mem_cons_of_mem _ hmem
    · intro connection hconnection
      obtain rfl := Option.some.inj hconnection
      exact List.mem_cons_self
  | .connected connection, .tryAdvisoryLock key c, ⟨hkey, hc⟩ =>
    subst hkey hc
    cases hgrant : w.grantable advisoryLockKey c with
    | true =>
      have hnone := h.grants_eq_nil hi hgrant
      simp only [workers, Sessions.exec, hgrant, Phase.next, hnone]
      refine h.update h.distinct (fun _ _ _ hmem => hmem) ?_ ?_ ?_ ?_ (.inr ⟨_, rfl⟩)
      · intro phase connection hphase hconnection
        obtain rfl := Option.some.inj hphase
        exact h.owned i _ connection hi hconnection
      · intro j connection _ hj
        have hheld := h.held j connection hj
        rw [hnone] at hheld
        cases hheld
      · intro connection hholding
        obtain rfl := Phase.holding.inj (Option.some.inj hholding)
        exact List.mem_singleton_self _
      · intro grant hmem
        obtain rfl := List.mem_singleton.mp hmem
        exact .inl rfl
    | false =>
      simp only [workers, Sessions.exec, hgrant, Phase.next]
      exact h.move hi (by simp) (by simp) h.distinct (fun _ _ _ hmem => hmem)
        fun connection hconnection => h.owned i _ connection hi hconnection
  | .holding connection, .listReconcilable limit, _ =>
    simpa only [workers, Sessions.exec, Phase.next, ← hi, Function.update_eq_self] using h
  | .holding connection, .reconcile approvalId, _ =>
    simpa only [workers, Sessions.exec, Phase.next, ← hi, Function.update_eq_self] using h
  | .holding connection, .advisoryUnlock key c, ⟨hkey, hc⟩ =>
    subst hkey hc
    have hheld := h.held i _ hi
    have hgrants : w.grants = [(advisoryLockKey, c)] := by
      obtain hnone | ⟨grant, hgrant⟩ := h.single
      · rw [hnone] at hheld
        cases hheld
      · rw [hgrant] at hheld ⊢
        rw [List.mem_singleton.mp hheld]
    simp only [workers, Sessions.exec, Phase.next, hgrants, List.erase_cons_head]
    refine h.update h.distinct (fun _ _ _ hmem => hmem) ?_ ?_ (by simp) (by simp) (.inl rfl)
    · intro phase connection hphase hconnection
      obtain rfl := Option.some.inj hphase
      exact h.owned i _ connection hi hconnection
    · exact fun j connection hij hj => absurd (h.exclusive hj hi) hij
  | .leaving connection, .close c, hc =>
    subst hc
    refine h.move hi (by simp) (by simp [Phase.next]) ?_ ?_ (by simp [Phase.next, Phase.connection?])
    · exact h.distinct.sublist (List.erase_sublist.map _)
    · intro j connection hij hmem
      exact (List.mem_erase_of_ne (by simp [hij])).mpr hmem

/-- A new worker has nothing. -/
theorem SessionInvariant.arrive (h : SessionInvariant phases w) (hi : phases i = none) :
    SessionInvariant (Function.update phases i (some .idle)) w := by
  refine h.update h.distinct (fun _ _ _ hmem => hmem) ?_ (fun j _ _ hj => h.held j _ hj) (by simp)
    (fun grant hgrant => .inr ?_) h.single
  · intro phase connection hphase hconnection
    obtain rfl := Option.some.inj hphase
    cases hconnection
  · obtain ⟨j, hj⟩ := h.granted grant hgrant
    refine ⟨j, fun hij => ?_, hj⟩
    rw [hij, hi] at hj
    cases hj

/-- What a worker that dies had is free again. -/
theorem SessionInvariant.abort (h : SessionInvariant phases w) (i : ℕ) :
    SessionInvariant (Function.update phases i none) (w.abort i) := by
  have hkeeps : ∀ j connection, j ≠ i → (connection, j) ∈ w.checkedOut →
      (connection, j) ∈ (w.abort i).checkedOut := fun j connection hij hmem =>
    List.mem_filter.mpr ⟨hmem, decide_eq_true hij⟩
  refine h.update (h.distinct.sublist (List.filter_sublist.map _)) hkeeps (by simp) ?_ (by simp)
    ?_ ?_
  · intro j connection hij hj
    refine List.mem_filter.mpr ⟨h.held j _ hj, decide_eq_true fun hmem => hij ?_⟩
    have hsame := List.inj_on_of_nodup_map h.distinct (h.owned j _ _ hj rfl) hmem rfl
    exact (Prod.mk.inj hsame).2
  · intro grant hgrant
    obtain ⟨hgrant, hother⟩ := List.mem_filter.mp hgrant
    obtain ⟨j, hj⟩ := h.granted grant hgrant
    refine .inr ⟨j, fun hij => ?_, hj⟩
    subst hij
    exact of_decide_eq_true hother (h.owned j _ _ hj rfl)
  · obtain hnone | ⟨grant, hgrant⟩ := h.single
    · exact .inl (by rw [Sessions.abort, hnone]; rfl)
    · rw [Sessions.abort, hgrant]
      dsimp only
      rw [List.filter_singleton]
      cases decide ((grant.2, i) ∉ w.checkedOut) with
      | true => exact .inr ⟨grant, rfl⟩
      | false => exact .inl rfl

end

/-! ## Runs -/

/-- Workers that are under way. -/
abbrev WorkerConfig := Config WorkerOp WorkerOp.Reply PyExc WorkerEnv Sessions WorkerRequest
  (List (Except PyExc ℕ) × PostgresAdvisoryLock)

/-- The phases of the workers that are alive. -/
def WorkerConfig.phases (config : WorkerConfig) (i : ℕ) : Option Phase :=
  match config.callers[i]? with
  | some ⟨_, some _⟩ => some (discipline.stateOf config.trace i)
  | _ => none

section

variable {config : WorkerConfig} {i : ℕ} {r : WorkerRequest}

/-- Only the phase of the worker that moves changes. -/
theorem phases_eq_update {config' : WorkerConfig} {next : Option Phase}
    (hother : ∀ j, j ≠ i → config'.callers[j]? = config.callers[j]? ∧
      discipline.stateOf config'.trace j = discipline.stateOf config.trace j)
    (hself : config'.phases i = next) :
    config'.phases = Function.update config.phases i next := by
  funext j
  by_cases hij : j = i
  · rw [hij, Function.update_self, hself]
  · rw [Function.update_of_ne hij, WorkerConfig.phases, (hother j hij).1, (hother j hij).2]
    rfl

/-- A worker that arrives is idle. -/
theorem phases_arrive (harrived : ∀ e ∈ config.trace, e.caller < config.callers.length) :
    WorkerConfig.phases (workers.step config (.arrive r)) =
      Function.update config.phases config.callers.length (some .idle) := by
  refine phases_eq_update (fun j hij => ⟨?_, rfl⟩) ?_
  · simp only [Machine.step]
    rcases Nat.lt_or_gt_of_ne hij with hlt | hgt
    · exact List.getElem?_append_left hlt
    · rw [List.getElem?_eq_none (by rw [List.length_append]; exact hgt), List.getElem?_eq_none hgt.le]
  · have hfresh := discipline.stateOf_of_forall_ne config.trace fun e he =>
      (harrived e he).ne
    simp only [WorkerConfig.phases, Machine.step, List.getElem?_concat_length]
    exact congrArg some hfresh

/-- A worker that makes a call moves to the next phase. -/
theorem phases_step {op : WorkerOp}
    {next : op.Reply → WorkerProgram (List (Except PyExc ℕ) × PostgresAdvisoryLock)}
    (hi : config.callers[i]? = some ⟨r, some (.perform op next)⟩) (env : WorkerEnv) :
    WorkerConfig.phases (workers.step config (.step i env)) =
      Function.update config.phases i (some (Phase.next (discipline.stateOf config.trace i) op
        (workers.exec i op env config.world).1)) := by
  have hlength : i < config.callers.length := (List.getElem?_eq_some_iff.mp hi).1
  have hstate := discipline.stateOf_concat_self config.trace
    (workers.entry i env op config.world)
  refine phases_eq_update (fun j hij => ?_) ?_
  · simp only [Machine.step, hi]
    exact ⟨List.getElem?_set_ne hij.symm,
      discipline.stateOf_concat_of_ne _ (show i ≠ j from hij.symm)⟩
  · simp only [WorkerConfig.phases, Machine.step, hi, List.getElem?_set_self hlength]
    exact congrArg some hstate

/-- A worker that dies has no phase. -/
theorem phases_crash {p : WorkerProgram (List (Except PyExc ℕ) × PostgresAdvisoryLock)}
    (hi : config.callers[i]? = some ⟨r, some p⟩) :
    WorkerConfig.phases (workers.step config (.crash i)) =
      Function.update config.phases i none := by
  have hlength : i < config.callers.length := (List.getElem?_eq_some_iff.mp hi).1
  refine phases_eq_update (fun j hij => ?_) ?_
  · simp only [Machine.step, hi]
    exact ⟨List.getElem?_set_ne hij.symm, trivial⟩
  · simp only [WorkerConfig.phases, Machine.step, hi, List.getElem?_set_self hlength]

/-- One event keeps the invariant. -/
theorem SessionInvariant.step (h : SessionInvariant config.phases config.world)
    (hdisciplined : workers.Disciplined discipline (fun _ phase ended => phase = .idle ∧ ended.2 = {})
      (fun _ _ _ => False) {} config) (event : Event WorkerEnv WorkerRequest) :
    SessionInvariant (WorkerConfig.phases (workers.step config event))
      (workers.step config event).world := by
  cases event with
  | arrive r =>
    rw [phases_arrive hdisciplined.arrived]
    exact h.arrive (by simp [WorkerConfig.phases])
  | step i env =>
    rcases hi : config.callers[i]? with _ | ⟨r, _ | (ended | exc | ⟨op, next⟩)⟩
    · simpa only [Machine.step, hi] using h
    · simpa only [Machine.step, hi] using h
    · simpa only [Machine.step, hi] using h
    · simpa only [Machine.step, hi] using h
    · have hphase : config.phases i = some (discipline.stateOf config.trace i) := by
        simp only [WorkerConfig.phases, hi]
      rw [phases_step hi]
      simp only [Machine.step, hi]
      exact h.exec hphase (hdisciplined.live i r _ hi).1 env
  | crash i =>
    rcases hi : config.callers[i]? with _ | ⟨r, _ | p⟩
    · simpa only [Machine.step, hi] using h
    · simpa only [Machine.step, hi] using h
    · rw [phases_crash hi]
      simp only [Machine.step, hi]
      exact h.abort i

end

/-- Every worker keeps to its discipline. -/
theorem disciplined_workers (events : List (Event WorkerEnv WorkerRequest)) :
    workers.Disciplined discipline (fun _ phase ended => phase = .idle ∧ ended.2 = {})
      (fun _ _ _ => False) {} (workers.run {} events) :=
  workers.disciplined_run (fun i op env w => returns_exec i op env w)
    (fun r => runForever_obeys r.worker r.rounds) {} events

/-- In every run, the database has granted the lock to the worker that is holding it. -/
theorem sessionInvariant_run (events : List (Event WorkerEnv WorkerRequest)) :
    SessionInvariant (WorkerConfig.phases (workers.run {} events))
      (workers.run {} events).world := by
  induction events using List.reverseRecOn with
  | nil =>
    exact ⟨List.nodup_nil, fun _ _ _ h => (by cases h), fun _ _ h => (by cases h),
      fun _ h => (by cases h), .inl rfl⟩
  | append_singleton events event ih =>
    rw [Machine.run_concat]
    exact ih.step (disciplined_workers events) event

end CreditScoringMlops.ControlPlane
