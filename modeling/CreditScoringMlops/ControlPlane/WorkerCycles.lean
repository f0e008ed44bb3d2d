import CreditScoringMlops.ControlPlane.Contracts
import CreditScoringMlops.ControlPlane.RequestPrograms
import CreditScoringMlops.Interaction.Batch

/-!
# Cycles of the worker

While the Jobs stay as they are and nobody else writes, a cycle of the worker is a batch from the
front of a queue: the uncertain executions, oldest request first. An execution whose Job has
finished leaves the queue; the others stay where they are. So a finished Job is never noticed
while as many others as a batch holds are in front of it.
-/

namespace CreditScoringMlops.ControlPlane

open Python Interaction Program ClaimProtocol ApprovalStore

/-! ## The queue -/

/-- The execution of an approval is uncertain. -/
def uncertainAt (t : ApprovalTable) (x : String) : Bool :=
  (t.lookup x).any fun row => row.status.isUncertain

/-- The approvals whose execution is uncertain, oldest request first. -/
def queue (t : ApprovalTable) : List String :=
  ((t.rows.filter fun row => row.status = .unknown ∨ row.status = .executing).mergeSort
    fun a b => decide (a.requestedAt ≤ b.requestedAt)).map (·.approvalId)

/-- The columns that the order depends on. -/
def orderColumns (t : ApprovalTable) : List (String × Time) :=
  t.rows.map fun row => (row.approvalId, row.requestedAt)

/-- All approvals, oldest request first. -/
def oldestFirst (columns : List (String × Time)) : List String :=
  (columns.mergeSort fun a b => decide (a.2 ≤ b.2)).map (·.1)

/-- A row is uncertain as the table says of its id. -/
theorem uncertainAt_of_mem {t : ApprovalTable} {row : ApprovalRequestRow} (h : row ∈ t.rows) :
    uncertainAt t row.approvalId = decide (row.status = .unknown ∨ row.status = .executing) := by
  rw [uncertainAt, ApprovalTable.lookup_eq_some_iff.mpr ⟨h, rfl⟩, Option.any_some]
  cases row.status <;> rfl

/-- The queue is what is uncertain among all approvals. -/
theorem queue_eq (t : ApprovalTable) :
    queue t = (oldestFirst (orderColumns t)).filter (uncertainAt t) := by
  have horder : oldestFirst (orderColumns t) =
      (t.rows.mergeSort fun a b => decide (a.requestedAt ≤ b.requestedAt)).map (·.approvalId) := by
    rw [oldestFirst, orderColumns,
      ← List.map_mergeSort (r := fun a b => decide (a.requestedAt ≤ b.requestedAt))
        (fun _ _ _ _ => rfl), List.map_map]
    rfl
  rw [horder, List.filter_map, queue, filter_mergeSort]
  · refine congrArg _ (List.filter_congr fun row hrow => ?_)
    rw [Function.comp_apply, uncertainAt_of_mem (List.mem_mergeSort.mp hrow)]
  · intro a b c hab hbc
    simp only [decide_eq_true_eq] at hab hbc ⊢
    exact hab.trans hbc
  · intro a b
    simp only [Bool.or_eq_true, decide_eq_true_eq]
    exact le_total _ _

/-- An approval stands in the queue exactly if its execution is uncertain. -/
theorem mem_queue {t : ApprovalTable} {x : String} : x ∈ queue t ↔ uncertainAt t x := by
  rw [queue_eq, List.mem_filter, and_iff_right_iff_imp]
  intro h
  obtain ⟨row, hrow, -⟩ := (Option.any_eq_true _ _).mp h
  obtain ⟨hmem, rfl⟩ := ApprovalTable.lookup_eq_some_iff.mp hrow
  exact List.mem_map.mpr ⟨_, List.mem_mergeSort.mpr (List.mem_map_of_mem hmem), rfl⟩

/-- No approval stands in it twice. -/
theorem queue_nodup (t : ApprovalTable) : (queue t).Nodup := by
  have hids : (oldestFirst (orderColumns t)).Perm (t.rows.map (·.approvalId)) := by
    refine ((List.mergeSort_perm _ _).map _).trans (List.Perm.of_eq ?_)
    rw [orderColumns, List.map_map]
    rfl
  rw [queue_eq]
  exact (hids.nodup_iff.mpr t.unique).filter _

/-- The store lists the front of the queue. -/
theorem listReconcilable_eq {t : ApprovalTable} {limit : ℕ} (h : 1 ≤ limit) :
    ∃ approvals, listReconcilable t limit = .ok approvals ∧
      approvals.map (·.approvalId) = (queue t).take limit := by
  refine ⟨_, if_neg (not_lt.mpr h), ?_⟩
  rw [queue, ← List.map_take, List.map_map]
  rfl

/-! ## What leaves the queue -/

/-- Those among some approvals that can finish are no longer uncertain; nothing else that the
queue depends on has changed. -/
structure Leaves (finishes : String → Bool) (xs : List String) (before after : ApprovalTable) :
    Prop where
  columns : orderColumns after = orderColumns before
  uncertain : ∀ y, uncertainAt after y =
    (uncertainAt before y && !(decide (y ∈ xs) && finishes y))

section Leaves

variable {finishes : String → Bool} {x : String} {xs : List String} {t : ApprovalTable}
  {row row' : ApprovalRequestRow}

/-- Nothing needs to change for an approval that cannot finish or is not uncertain. -/
theorem leaves_same (h : ¬(uncertainAt t x ∧ finishes x)) : Leaves finishes [x] t t := by
  refine ⟨rfl, fun y => ?_⟩
  by_cases hy : y = x
  · subst hy
    cases hu : uncertainAt t y <;> cases hf : finishes y <;> simp_all
  · simp [hy]

/-- Writing an uncertain row back settles it if its new status does. -/
theorem leaves_write (hrow : t.lookup x = some row) (huncertain : row.status.isUncertain)
    (hid : row'.approvalId = row.approvalId) (htime : row'.requestedAt = row.requestedAt)
    (hstatus : row'.status.isUncertain = !finishes x) : Leaves finishes [x] t (t.write row') := by
  obtain ⟨hmem, rfl⟩ := ApprovalTable.lookup_eq_some_iff.mp hrow
  refine ⟨?_, fun y => ?_⟩
  · simp only [orderColumns, ApprovalTable.write, List.map_map]
    refine List.map_congr_left fun r hr => ?_
    simp only [Function.comp_apply]
    split
    · rename_i heq
      obtain rfl := List.inj_on_of_nodup_map t.unique hr hmem (heq.trans hid)
      rw [hid, htime]
    · rfl
  · rw [uncertainAt, ApprovalTable.lookup_write, hid]
    by_cases hy : row.approvalId = y
    · subst hy
      simp [uncertainAt, hrow, huncertain, hstatus]
    · simp only [if_neg hy, Option.map_id', List.mem_singleton, uncertainAt]
      simp [Ne.symm hy]

/-- One approval after the other. -/
theorem Leaves.cons {t' t'' : ApprovalTable} (h : Leaves finishes [x] t t')
    (h' : Leaves finishes xs t' t'') : Leaves finishes (x :: xs) t t'' := by
  refine ⟨h'.columns.trans h.columns, fun y => ?_⟩
  rw [h'.uncertain, h.uncertain]
  by_cases hy : y = x <;> cases finishes y <;> simp [hy]

/-- The queue after a cycle. -/
theorem Leaves.queue {limit : ℕ} {t' : ApprovalTable}
    (h : Leaves finishes ((queue t).take limit) t t') :
    queue t' = batchCycle finishes limit (queue t) := by
  rw [queue_eq t', h.columns, ← filter_take_eq_batchCycle (queue_nodup t)]
  conv => rhs; rw [queue_eq t, List.filter_filter]
  refine List.filter_congr fun y _ => ?_
  rw [h.uncertain, Bool.and_comm, queue_eq t]

end Leaves

/-! ## Cycles with fixed Jobs -/

/-- The states of a Job. -/
inductive JobState where
  | running
  | absent
  | completed
  | failed
  deriving DecidableEq

namespace JobState

/-- The Job has finished. -/
def isFinished : JobState → Bool
  | completed => true
  | failed => true
  | _ => false

/-- The state that the result of a status check tells. -/
def told (result : Dict) : Option JobState :=
  if reports result "completed" then some completed
  else if reports result "failed" then some failed
  else if reportsAbsent result then some absent
  else if reports result "running" then some running
  else none

end JobState

/-- The lock is available, the audit takes its events, and kubectl tells the states of the Jobs. -/
def steady (jobs : String → JobState) : (op : Op) → op.Reply → Bool
  | .record _, reply => reply.toBool
  | .tryAcquire, .ok acquired => acquired
  | .tryAcquire, .error _ => false
  | .kubectlGet name, ended =>
    match KubernetesExecutor.classify ended with
    | .ok result => JobState.told result = some (jobs name)
    | .error _ => false
  | _, _ => true

/-- The approval has a Job that has finished. -/
def hasFinished (jobs : String → JobState) (x : String) : Bool :=
  (KubernetesExecutor.validateJobName (ReconciliationService.trainingJobName x)).toBool &&
    (jobs (ReconciliationService.trainingJobName x)).isFinished

/-- Nobody else writes, the database is there, and the Jobs stay as they are. -/
def unattended (jobs : String → JobState) : Contract Op Op.Reply Env World where
  rely := Eq
  given e := e.env.fault.isNone ∧ steady jobs e.op e.reply

section Cycle

variable {i : ℕ} {jobs : String → JobState} {h : List LogEntry} {w : World}
  {E : List LogEntry → World → PyExc → Prop}

/-- A store call has the effect that it has on the table. -/
theorem unattended_store {op : StoreOp} {Q : List LogEntry → World → op.Result → Prop}
    (hok : ∀ h now a t, perform now w.approvals op = .ok (a, t) → Q h { w with approvals := t } a)
    (herror : ∀ h now exc, perform now w.approvals op = .error exc → E h w exc) :
    system.Ensures i (unattended jobs) Q E h w (store op) := by
  refine ensures_store op trivial fun w' env hrely hgiven => ⟨trivial, ?_⟩
  obtain rfl : w = w' := hrely
  have hfault : env.fault = none := Option.isNone_iff_eq_none.mp hgiven.1
  cases hperform : perform env.now w.approvals op with
  | ok result =>
    have hexec : exec i (.store op) env w = (.ok result.1, { w with approvals := result.2 }) := by
      simp only [exec, orFault, hfault, execStore, hperform]
    rw [hexec]
    exact ⟨fun _ heq => (by cases heq; exact hok _ _ _ _ hperform), fun _ heq => (by cases heq)⟩
  | error exc =>
    have hexec : exec i (.store op) env w = (.error exc, w) := by
      simp only [exec, orFault, hfault, execStore, hperform]
    rw [hexec]
    exact ⟨fun _ heq => (by cases heq), fun _ heq => (by cases heq; exact herror _ _ _ hperform)⟩

/-- An audit record succeeds and leaves the approvals alone. -/
theorem unattended_record {event : AuditRecord} {Q : List LogEntry → World → AuditEvent → Prop}
    (hQ : ∀ h w' a, w'.approvals = w.approvals → Q h w' a) :
    system.Ensures i (unattended jobs) Q E h w (record event) := by
  refine ensures_record event trivial fun w' env hrely hgiven => ⟨trivial, fun a _ => ?_, ?_⟩
  · obtain rfl : w = w' := hrely
    exact hQ _ _ a (exec_approvals (by simp))
  · intro exc hexc
    have hok : (exec i (.record event) env w').1.toBool := hgiven.2
    simp [hexc, Except.toBool] at hok

/-- A status check tells the state of the Job, or is not made. -/
theorem unattended_status {executor : KubernetesExecutor} {x : String}
    {Q : List LogEntry → World → Dict → Prop} (hnamespace : executor.namespace = "ai-engineering")
    (hnone : hasFinished jobs x = false → ∀ exc, E h w exc)
    (hQ : ∀ h w' result, w'.approvals = w.approvals →
      JobState.told result = some (jobs (ReconciliationService.trainingJobName x)) →
        hasFinished jobs x = (jobs (ReconciliationService.trainingJobName x)).isFinished →
          Q h w' result) :
    system.Ensures i (unattended jobs) Q E h w
      (executor.getTrainingJobStatus (ReconciliationService.trainingJobName x)) := by
  refine ensures_getTrainingJobStatus executor _ trivial ?_ fun hvalid w' env hrely hgiven => ?_
  · rintro (hother | hinvalid)
    · exact absurd hnamespace hother
    · refine hnone ?_
      cases hvalid : KubernetesExecutor.validateJobName
        (ReconciliationService.trainingJobName x) with
      | ok a => exact absurd hvalid hinvalid
      | error exc => simp [hasFinished, hvalid, Except.toBool]
  · obtain rfl : w = w' := hrely
    have hsteady : steady jobs (.kubectlGet (ReconciliationService.trainingJobName x))
        env.kubectlGet := hgiven.2
    refine ⟨trivial, fun result hresult => ?_, fun exc hexc => ?_⟩
    · simp only [steady, hresult, decide_eq_true_eq] at hsteady
      exact hQ _ _ _ rfl hsteady (by simp [hasFinished, hvalid, Except.toBool])
    · simp [steady, hexc] at hsteady

variable {x : String} {service : ReconciliationService}

/-- The branches of `reconcile` settle the approval if its Job has finished. -/
theorem recover_leaves {row : ApprovalRequestRow} (hrow : w.approvals.lookup x = some row)
    (huncertain : row.status.isUncertain) {result : Dict} {state : JobState}
    (hstate : JobState.told result = some state) (hfinished : hasFinished jobs x = state.isFinished) :
    system.Ensures i (unattended jobs)
      (fun _ w' _ => Leaves (hasFinished jobs) [x] w.approvals w'.approvals)
      (fun _ w' _ => Leaves (hasFinished jobs) [x] w.approvals w'.approvals) h w
      (service.recover x row.toSchema result) := by
  have hopen : row.status = .executing ∨ row.status = .unknown := by
    cases hs : row.status <;> simp_all [ApprovalStatus.isUncertain]
  -- a mark is written back over the row
  have hmark {op : StoreOp} {a : op.Result} {row' : ApprovalRequestRow}
      (hperform : ∀ now, perform now w.approvals op = .ok (a, w.approvals.write row'))
      (hleaves : Leaves (hasFinished jobs) [x] w.approvals (w.approvals.write row')) :
      system.Ensures i (unattended jobs)
        (fun _ w' _ => Leaves (hasFinished jobs) [x] w.approvals w'.approvals)
        (fun _ w' _ => Leaves (hasFinished jobs) [x] w.approvals w'.approvals) h w (store op) := by
    refine unattended_store (fun _ now a' t hok => ?_) fun _ now exc herror => ?_
    · cases (hperform now).symm.trans hok
      exact hleaves
    · cases (hperform now).symm.trans herror
  unfold JobState.told at hstate
  unfold ReconciliationService.recover
  split
  · rename_i hc
    rw [if_pos (show reports result "completed" from hc)] at hstate
    obtain rfl := Option.some.inj hstate
    exact hmark (fun _ => markCompleted_of_open hrow hopen)
      (leaves_write hrow huncertain rfl rfl (by rw [hfinished]; rfl))
  rename_i hc
  rw [if_neg (show ¬reports result "completed" from hc)] at hstate
  split
  · rename_i hf
    rw [if_pos (show reports result "failed" from hf)] at hstate
    obtain rfl := Option.some.inj hstate
    exact hmark (fun _ => markFailed_of_open hrow hopen)
      (leaves_write hrow huncertain rfl rfl (by rw [hfinished]; rfl))
  rename_i hf
  rw [if_neg (show ¬reports result "failed" from hf)] at hstate
  -- neither a running nor an absent Job ends the execution
  have hnot : hasFinished jobs x = false := by
    rw [hfinished]
    split at hstate
    · cases hstate; rfl
    · split at hstate <;> cases hstate; rfl
  have hsame : Leaves (hasFinished jobs) [x] w.approvals w.approvals :=
    leaves_same (by simp [hnot])
  split
  · rw [Machine.ensures_bind]
    refine unattended_store (fun _ now a t hok => ?_) fun _ _ _ _ => hsame
    have hleaves : Leaves (hasFinished jobs) [x] w.approvals t := by
      rcases recoverStaleExecution_ok hrow hok with ⟨-, rfl⟩ | ⟨startedAt, -, -, -, -, -, rfl⟩
      · exact hsame
      · exact leaves_write hrow huncertain rfl rfl (by simp [hnot, ApprovalStatus.isUncertain])
    obtain ⟨recovered, stale⟩ := a
    cases stale with
    | true =>
      simp only [if_true]
      rw [Machine.ensures_bind]
      refine unattended_record fun _ w' _ hw' => ⟨trivial, ?_⟩
      change Leaves _ _ _ w'.approvals
      rwa [hw']
    | false => exact ⟨trivial, hleaves⟩
  · rw [Machine.ensures_bind]
    refine unattended_store (fun _ now a t hok => ?_) fun _ _ _ _ => hsame
    obtain ⟨-, rfl⟩ := Prod.mk.inj (Except.ok.inj hok)
    exact ⟨trivial, hsame⟩

/-- `reconcile` settles an uncertain approval exactly if its Job has finished. -/
theorem reconcile_leaves (hnamespace : service.executor.namespace = "ai-engineering") :
    system.Ensures i (unattended jobs)
      (fun _ w' _ => Leaves (hasFinished jobs) [x] w.approvals w'.approvals)
      (fun _ w' _ => Leaves (hasFinished jobs) [x] w.approvals w'.approvals) h w
      (service.reconcile x) := by
  unfold ReconciliationService.reconcile
  rw [Machine.ensures_bind]
  refine unattended_store (fun _ now a t hok => ?_) fun _ _ _ herror => by cases herror
  obtain ⟨rfl, rfl⟩ := Prod.mk.inj (Except.ok.inj hok)
  cases hrow : w.approvals.lookup x with
  | none =>
    simp only [ApprovalStore.get, hrow, Option.map_none]
    exact ⟨trivial, leaves_same (by simp [uncertainAt, hrow])⟩
  | some row =>
    simp only [ApprovalStore.get, hrow, Option.map_some]
    by_cases huncertain : row.toSchema.status.isUncertain = true
    · rw [if_neg (isUncertain_iff.mp huncertain), Machine.ensures_bind]
      refine unattended_record fun _ w₁ _ hw₁ => ?_
      unfold ReconciliationService.reconcileUncertain
      rw [Machine.ensures_bind]
      refine unattended_status hnamespace (fun hnot exc => ?_) ?_
      · rw [hw₁]
        exact leaves_same (by simp [hnot])
      · intro _ w₂ result hw₂ hstate hfinished
        have hw := hw₂.trans hw₁
        rw [Machine.ensures_bind]
        refine (recover_leaves (hw ▸ hrow) huncertain hstate hfinished).mono
          (fun _ w₃ recovered _ hleaves => ?_) fun _ w₃ _ _ hleaves => hw ▸ hleaves
        rw [Machine.ensures_bind]
        refine unattended_record fun _ w₄ _ hw₄ => ⟨trivial, ?_⟩
        change Leaves _ _ _ w₄.approvals
        rwa [hw₄, ← hw]
    · rw [if_pos (not_not.mp (mt isUncertain_iff.mpr huncertain))]
      refine ⟨trivial, leaves_same fun ⟨h, _⟩ => huncertain ?_⟩
      simpa [uncertainAt, hrow, ApprovalRequestRow.toSchema] using h

/-- The loop of `run_once` settles every item whose Job has finished, one after the other. -/
theorem reconcileAll_leaves (hnamespace : service.executor.namespace = "ai-engineering")
    (approvals : List ApprovalRequest) (processed : ℕ) :
    system.Ensures i (unattended jobs)
      (fun _ w' _ => Leaves (hasFinished jobs) (approvals.map (·.approvalId)) w.approvals w'.approvals)
      (fun _ _ _ => False) h w
      (ReconciliationWorker.reconcileAll service approvals processed) := by
  induction approvals generalizing h w processed with
  | nil => exact ⟨trivial, rfl, fun y => by simp⟩
  | cons approval rest ih =>
    have hrest {h : List LogEntry} {w' : World} (processed : ℕ)
        (hleaves : Leaves (hasFinished jobs) [approval.approvalId] w.approvals w'.approvals) :
        system.Ensures i (unattended jobs)
          (fun _ w'' _ => Leaves (hasFinished jobs) ((approval :: rest).map (·.approvalId))
            w.approvals w''.approvals)
          (fun _ _ _ => False) h w'
          (ReconciliationWorker.reconcileAll service rest processed) :=
      (ih processed).mono (fun _ _ _ _ h => hleaves.cons h) fun _ _ _ _ h => h
    unfold ReconciliationWorker.reconcileAll
    rw [Machine.ensures_bind, Machine.ensures_attempt]
    exact (reconcile_leaves hnamespace).mono (fun _ _ _ _ hleaves => hrest _ hleaves)
      fun _ _ _ _ hleaves => hrest _ hleaves

/-- `run_once` is one cycle of the queue. -/
theorem runOnce_leaves {worker : ReconciliationWorker}
    (hnamespace : worker.service.executor.namespace = "ai-engineering") :
    system.Ensures i (unattended jobs)
      (fun _ w' _ => Leaves (hasFinished jobs) ((queue w.approvals).take worker.batchSize)
        w.approvals w'.approvals)
      (fun _ _ _ => False) h w worker.runOnce := by
  unfold ReconciliationWorker.runOnce
  rw [Machine.ensures_bind]
  refine ensures_ask _ trivial fun w' env hrely hgiven => ⟨trivial, ?_⟩
  obtain rfl : w = w' := hrely
  have hlock : steady jobs .tryAcquire (exec i .tryAcquire env w).1 := hgiven.2
  have hsame : (exec i .tryAcquire env w).2.approvals = w.approvals := exec_approvals (by simp)
  obtain ⟨listed, hlisted, hids⟩ := listReconcilable_eq (t := w.approvals) worker.positive
  rw [Machine.ensures_bind]
  refine Machine.ensures_ofExcept trivial (fun acquired hacquired => ?_) fun exc hexc => ?_
  · rw [hacquired] at hlock
    simp only [show acquired = true from hlock, Bool.not_true, Bool.false_eq_true, if_false]
    rw [Machine.ensures_bind, Machine.ensures_attempt, Machine.ensures_bind]
    refine unattended_store (fun _ now approvals t hok => ?_) fun _ now exc herror => ?_
    · rw [hsame, ApprovalStore.perform, hlisted] at hok
      obtain ⟨rfl, rfl⟩ := Prod.mk.inj (Except.ok.inj hok)
      refine (reconcileAll_leaves hnamespace _ _).mono (fun _ w₁ _ _ hleaves => ?_)
        fun _ _ _ _ => False.elim
      rw [hids] at hleaves
      rw [Machine.ensures_bind]
      refine ensures_ask _ trivial fun w₂ env hrely hgiven => ⟨trivial, ?_⟩
      obtain rfl : w₁ = w₂ := hrely
      have hfault : env.fault = none := Option.isNone_iff_eq_none.mp hgiven.1
      have hrelease : (exec i .release env w₁).1 = .ok () := by simp only [exec, orFault, hfault]
      rw [hrelease]
      refine ⟨trivial, ?_⟩
      change Leaves _ _ _ (exec i .release env w₁).2.approvals
      rwa [exec_approvals (by simp)]
    · rw [hsame, ApprovalStore.perform, hlisted] at herror
      cases herror
  · rw [hexc] at hlock
    cases hlock

end Cycle

/-- The worker after some cycles: the operations it has performed, and the world. -/
def cycles (worker : ReconciliationWorker) (i : ℕ) (env : ℕ → ℕ → Env) (w : World) :
    ℕ → List LogEntry × World
  | 0 => ([], w)
  | n + 1 =>
    let (entries, w') := cycles worker i env w n
    let ended := system.finish (i + n) { env := env n } 0 w' worker.runOnce
    (entries ++ ended.entries, ended.world)

/-- After any run, a cycle that is served without interruption is a continuation of it. -/
theorem exists_run_runOnce (jobs : Jobs) (events : List SystemEvent)
    (worker : ReconciliationWorker) (env : ℕ → Env) :
    let config := runFrom jobs events
    let ended := system.finish config.callers.length { env } 0 config.world worker.runOnce
    ∃ more, (runFrom jobs (events ++ more)).callers.length = config.callers.length + 1 ∧
      (runFrom jobs (events ++ more)).trace = config.trace ++ ended.entries ∧
        (runFrom jobs (events ++ more)).world = ended.world := by
  intro config ended
  have hserved : system.finish config.callers.length { env } 0 config.world
      (system.program (.runOnce worker)) = ⟨ended.outcome.map .processed, ended.entries,
        ended.world⟩ := system.finish_map ..
  obtain ⟨more, hmore⟩ : ∃ more, runFrom jobs (events ++ more) = _ :=
    ⟨_, system.run_finish env { jobs } events (.runOnce worker)⟩
  refine ⟨more, ?_⟩
  rw [hmore]
  change _ ∧ _ ++ (system.finish config.callers.length _ 0 config.world _).entries = _ ∧
    (system.finish config.callers.length _ 0 config.world _).world = _
  rw [hserved]
  exact ⟨List.length_append, rfl, rfl⟩

/-- So are cycles that are served one after the other. -/
theorem exists_run_cycles (jobs : Jobs) (events : List SystemEvent) (worker : ReconciliationWorker)
    (env : ℕ → ℕ → Env) (n : ℕ) :
    let config := runFrom jobs events
    let ended := cycles worker config.callers.length env config.world n
    ∃ later, (runFrom jobs (events ++ later)).callers.length = config.callers.length + n ∧
      (runFrom jobs (events ++ later)).trace = config.trace ++ ended.1 ∧
        (runFrom jobs (events ++ later)).world = ended.2 := by
  intro config ended
  induction n with
  | zero =>
    refine ⟨[], ?_⟩
    simp [config, ended, cycles]
  | succ n ih =>
    obtain ⟨later, hlength, htrace, hworld⟩ := ih
    obtain ⟨more, hlength', htrace', hworld'⟩ :=
      exists_run_runOnce jobs (events ++ later) worker (env n)
    rw [hlength, hworld] at htrace' hworld'
    refine ⟨later ++ more, ?_⟩
    rw [← List.append_assoc, hlength', hlength, htrace', htrace, hworld', List.append_assoc]
    exact ⟨rfl, rfl, rfl⟩

/-- The cycles of the worker are the cycles of the queue. -/
theorem queue_cycles {worker : ReconciliationWorker}
    (hnamespace : worker.service.executor.namespace = "ai-engineering") (jobs : String → JobState)
    (w : World) (i : ℕ) (env : ℕ → ℕ → Env) (n : ℕ)
    (hgiven : ∀ e ∈ (cycles worker i env w n).1, (unattended jobs).given e) :
    queue (cycles worker i env w n).2.approvals =
      (batchCycle (hasFinished jobs) worker.batchSize)^[n] (queue w.approvals) := by
  induction n with
  | zero => rfl
  | succ n ih =>
    simp only [cycles, List.forall_mem_append] at hgiven ⊢
    have hmeets := (runOnce_leaves (i := i + n) (h := []) (w := (cycles worker i env w n).2)
      hnamespace).finish (s := { env := env n }) (k := 0) (fun _ _ => rfl) hgiven.2
    rw [Function.iterate_succ_apply', ← ih hgiven.1]
    unfold Ended.Meets at hmeets
    split at hmeets
    · exact hmeets.queue
    · exact hmeets.elim

/-- As many cycles as there are uncertain executions, or more, leave none whose Job has finished,
exactly if fewer than a batch of others stand before each one in the order of the requests. -/
theorem worker_reaches_all_iff (worker : ReconciliationWorker)
    (hnamespace : worker.service.executor.namespace = "ai-engineering") (jobs : String → JobState)
    (w : World) (i : ℕ) (env : ℕ → ℕ → Env) (n : ℕ) (hn : (queue w.approvals).length ≤ n)
    (hsteady : ∀ e ∈ (cycles worker i env w n).1, e.env.fault.isNone ∧ steady jobs e.op e.reply) :
    (∀ x, hasFinished jobs x → ¬uncertainAt (cycles worker i env w n).2.approvals x) ↔
      Unobstructed (hasFinished jobs) worker.batchSize (queue w.approvals) := by
  rw [← forall_settle_iff, ← batchCycle_iterate hn,
    ← queue_cycles hnamespace jobs w i env n hsteady]
  refine forall_congr' fun x => ?_
  rw [mem_queue, ← Bool.not_eq_true]
  exact imp_not_comm

/-- The events of callers that open an approval, decide it and claim its execution, where the last
one crashes. -/
def claimedRun (first : ℕ) (x : String) (requestedAt : Time) : List SystemEvent :=
  [.arrive (.createTrainingApproval "drift" []), .step first { uuid := x },
    .step first { uuid := "t" }, .step first { now := requestedAt }, .step first {},
    .arrive (.decide { approvalId := x, approved := true, decidedAt := requestedAt }),
    .step (first + 1) {}, .arrive (.execute {} x), .step (first + 2) { now := requestedAt },
    .crash (first + 2)]

/-- Two executing approvals: the Job of the older one is running, that of the other has
completed. -/
def runningFirst : World :=
  (runFrom (fun _ => none) (claimedRun 0 "a1" 1 ++ claimedRun 3 "a2" 2)).world

/-- Surroundings in which every status check finds a running Job. -/
def findsRunning (n k : ℕ) : Env :=
  { now := 1000000000, uuid := String.ofList (List.replicate (10 * n + k) 'e')
    kubectlGet := .exited 0 (.ok (.obj [])) }

/-- The first uncertain rows of a table. -/
def firstUncertain (t : ApprovalTable) (limit : ℕ) : List ApprovalRequest :=
  ((t.rows.filter fun row => row.status = .unknown ∨ row.status = .executing).take limit).map
    (·.toSchema)

/-- A cycle that looks at the first uncertain rows. -/
def sweep (worker : ReconciliationWorker) (i : ℕ) (s : Surroundings Env World) (w : World) :
    Ended Op Op.Reply PyExc Env World ℕ :=
  let w' := { w with lock := some i }
  let rest := system.finish i s 2 w' (do
    let ended ← (ReconciliationWorker.reconcileAll worker.service
      (firstUncertain w.approvals worker.batchSize) 0).attempt
    ofExcept (← ask .release)
    ofExcept ended)
  { rest with entries := system.entry i (s.env 0) .tryAcquire w ::
      system.entry i (s.env 1) (.store (.listReconcilable worker.batchSize)) w' :: rest.entries }

/-- On a table whose rows are in order already, this is what the worker does. -/
theorem finish_runOnce {worker : ReconciliationWorker} {i : ℕ} {s : Surroundings Env World}
    {w : World} (hlock : w.lock = none) (hfault : ∀ k, (s.env k).fault = none)
    (hothers : ∀ k w, s.others k w = w)
    (hordered : w.approvals.rows.Pairwise fun a b => decide (a.requestedAt ≤ b.requestedAt)) :
    system.finish i s 0 w worker.runOnce = sweep worker i s w := by
  have hacquire : system.exec i .tryAcquire (s.env 0) (s.others 0 w) =
      (.ok true, { w with lock := some i }) := by
    simp only [system, exec, orFault, hfault, hothers, hlock]
  have hlist : system.exec i (.store (.listReconcilable worker.batchSize)) (s.env 1)
      (s.others 1 { w with lock := some i }) =
        (.ok (firstUncertain w.approvals worker.batchSize), { w with lock := some i }) := by
    simp only [system, exec, orFault, hfault, hothers, execStore, ApprovalStore.perform,
      listReconcilable, if_neg (not_lt.mpr worker.positive),
      List.mergeSort_of_pairwise (hordered.filter _), Except.map, firstUncertain]
  have hrest : system.finish i s 1 { w with lock := some i } (do
      let ended ← Program.attempt (do
        let approvals ← store (.listReconcilable worker.batchSize)
        ReconciliationWorker.reconcileAll worker.service approvals 0)
      ofExcept (← ask .release)
      ofExcept ended) = _ := Machine.finish_perform hlist
  refine (Machine.finish_perform hacquire).trans ?_
  rw [hothers] at hrest ⊢
  exact congrArg (fun rest : Ended Op Op.Reply PyExc Env World ℕ =>
    { rest with entries := system.entry i (s.env 0) .tryAcquire w :: rest.entries }) hrest

/-- With a batch of one, the second approval is never looked at. -/
theorem worker_starves :
    let jobs (name : String) : JobState :=
      if name = "credit-training-a1" then .running else .completed
    let worker : ReconciliationWorker := { batchSize := 1, positive := by decide }
    let ended := cycles worker 6 findsRunning runningFirst 2
    queue runningFirst.approvals = ["a1", "a2"] ∧
      (∀ e ∈ ended.1, e.env.fault.isNone ∧ steady jobs e.op e.reply) ∧
        hasFinished jobs "a2" ∧ uncertainAt ended.2.approvals "a2" := by
  intro jobs worker ended
  let first := sweep worker 6 { env := findsRunning 0 } runningFirst
  let second := sweep worker 7 { env := findsRunning 1 } first.world
  have hended : ended = (([] ++ first.entries) ++ second.entries, second.world) := by
    simp only [ended, cycles]
    rw [finish_runOnce (s := { env := findsRunning 0 }) rfl (fun _ => rfl) (fun _ _ => rfl)
      (by decide)]
    rw [finish_runOnce (s := { env := findsRunning 1 }) (by decide +kernel) (fun _ => rfl)
      (fun _ _ => rfl) (by decide +kernel)]
  have hqueue : queue runningFirst.approvals = ["a1", "a2"] := by
    rw [queue, List.mergeSort_of_pairwise (by decide)]
    rfl
  rw [hended]
  exact ⟨hqueue, by decide +kernel, by decide +kernel, by decide +kernel⟩

/-- With a batch of one, two cycles notice that the Jobs of two executions have completed. -/
theorem worker_reaches_all_iff_pair :
    let jobs : String → JobState := fun _ => .completed
    let worker : ReconciliationWorker := { batchSize := 1, positive := by decide }
    let env (n k : ℕ) : Env := { findsRunning n k with
      kubectlGet := .exited 0 (.ok (.obj [("status", .obj [("completionTime", .str "t")])])) }
    let w' := (cycles worker 6 env runningFirst 2).2
    (∀ x ∈ ["a1", "a2"], hasFinished jobs x ∧ uncertainAt runningFirst.approvals x) ∧
      ∀ x ∈ ["a1", "a2"], ¬uncertainAt w'.approvals x := by
  intro jobs worker env w'
  let first := sweep worker 6 { env := env 0 } runningFirst
  let second := sweep worker 7 { env := env 1 } first.world
  have hended : cycles worker 6 env runningFirst 2 =
      (([] ++ first.entries) ++ second.entries, second.world) := by
    simp only [cycles]
    rw [finish_runOnce (s := { env := env 0 }) rfl (fun _ => rfl) (fun _ _ => rfl) (by decide)]
    rw [finish_runOnce (s := { env := env 1 }) (by decide +kernel) (fun _ => rfl)
      (fun _ _ => rfl) (by decide +kernel)]
  have hqueue : queue runningFirst.approvals = ["a1", "a2"] := by
    rw [queue, List.mergeSort_of_pairwise (by decide)]
    rfl
  have hfree : Unobstructed (hasFinished jobs) worker.batchSize ["a1", "a2"] :=
    (forall_settle_iff _ _).mp (by decide)
  have hreached := (worker_reaches_all_iff worker rfl jobs runningFirst 6 env 2 (by simp [hqueue])
    (by rw [hended]; decide +kernel)).mpr (hqueue ▸ hfree)
  have hlooked : ∀ x ∈ ["a1", "a2"], hasFinished jobs x ∧ uncertainAt runningFirst.approvals x := by
    decide
  exact ⟨hlooked, fun x hx => hreached x (hlooked x hx).1⟩

end CreditScoringMlops.ControlPlane
