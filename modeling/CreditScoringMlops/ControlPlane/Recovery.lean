import CreditScoringMlops.ControlPlane.Contracts
import CreditScoringMlops.ControlPlane.LeaseExclusivity
import CreditScoringMlops.ControlPlane.RetryOnAbsence

/-!
# Recovery after a crash

An execution whose caller is gone, wherever it stopped, is brought to its end by one reconcile and
one retry: the row of an executing approval holds the instant of its last claim, so that the
lease runs out, and each of the two calls has a branch for every answer about the Job.
-/

namespace CreditScoringMlops.ControlPlane

open Python Interaction Program ClaimProtocol ApprovalStore

/-! ## The start of an execution -/

/-- The last claim for an approval that was won in a trace was won at this instant. -/
def LastClaim (trace : List LogEntry) (x : String) (t : Time) : Prop :=
  ∃ pre claim post, trace = pre ++ claim :: post ∧ wonApproval claim.op claim.reply = some x ∧
    claim.env.now = t ∧ ∀ e ∈ post, wonApproval e.op e.reply ≠ some x

/-- Some lease is as short as any in a trace. -/
theorem exists_recoveryLease_le (trace : List LogEntry) :
    ∃ L : ℤ, ∀ e ∈ trace, ∀ l, recoveryLease e.op = some l → L ≤ l := by
  induction trace with
  | nil => exact ⟨0, by simp⟩
  | cons e trace ih =>
    obtain ⟨L, hL⟩ := ih
    refine ⟨min L ((recoveryLease e.op).getD L), List.forall_mem_cons.mpr ⟨fun l hl => ?_, ?_⟩⟩
    · simp [hl]
    · exact fun e he l hl => (min_le_left _ _).trans (hL e he l hl)

/-- An executing row holds the instant of the last claim. -/
theorem Legal.executing_since {jobs : Jobs} {trace : List LogEntry} {w : World} {x : String}
    {row : ApprovalRequestRow} (h : Legal jobs trace w) (hrow : w.approvals.lookup x = some row)
    (hstatus : row.status = .executing) :
    ∃ t, row.executionStartedAt = some t ∧ LastClaim trace x t := by
  have hsome := (Legal.rowInvariant h hrow).executionStartedAt.mpr (by rw [hstatus]; rfl)
  obtain ⟨t, ht⟩ := Option.isSome_iff_exists.mp hsome
  obtain ⟨L, hL⟩ := exists_recoveryLease_le trace
  have hrun := h.leaseRun (x := x) hL
  rw [show leaseOf (w.approvals.lookup x) = .held t by simp [leaseOf, hrow, hstatus, ht]] at hrun
  obtain ⟨pre, g, post, hlog, hgrant, htime, hpost⟩ := hrun.held
  obtain ⟨pre', rest, rfl, -, hrest⟩ := List.map_eq_append_iff.mp hlog
  obtain ⟨claim, post', rfl, rfl, rfl⟩ := List.map_eq_cons_iff.mp hrest
  refine ⟨t, ht, pre', claim, post', rfl, wonApproval_eq_some.mpr (leaseEffect_eq_grant.mp hgrant),
    htime, fun e he hwon => ?_⟩
  exact hpost _ (List.mem_map_of_mem he)
    (leaseEffect_eq_grant.mpr (wonApproval_eq_some.mp hwon))

/-! ## What the two calls rely on -/

/-- The audit takes its events, kubectl tells whether the Job has completed, has failed or is
absent, and an apply returns its result. -/
def answered : (op : Op) → op.Reply → Bool
  | .record _, reply => reply.toBool
  | .kubectlGet _, ended =>
    match KubernetesExecutor.classify ended with
    | .ok result => reports result "completed" || reports result "failed" || reportsAbsent result
    | .error _ => false
  | .applyReturned _ result, _ => result.toBool
  | _, _ => true

/-- The surroundings serve an operation: the database is there, and it is answered. -/
def served (e : LogEntry) : Bool := e.env.fault.isNone && answered e.op e.reply

/-- Nobody else touches the approval, and every operation is served, from some instant on. -/
def recovery (x : String) (since : Time) : Contract Op Op.Reply Env World where
  rely w w' := w'.approvals.lookup x = w.approvals.lookup x
  given e := served e ∧ since ≤ e.env.now

/-- The row of the approval has one of these statuses. -/
def HasStatus (x : String) (statuses : List ApprovalStatus) (w : World) : Prop :=
  ∃ row, w.approvals.lookup x = some row ∧ row.status ∈ statuses

section Rules

variable {A : Type} {i : ℕ} {x : String} {since : Time} {h : List LogEntry} {w : World}
  {E : List LogEntry → World → PyExc → Prop} {row : ApprovalRequestRow}

/-- A store call on the row that was there before. -/
theorem recovery_store {op : StoreOp} {Q : List LogEntry → World → op.Result → Prop}
    (hrow : w.approvals.lookup x = some row)
    (hperform : ∀ (h : List LogEntry) (w' : World) now, w'.approvals.lookup x = some row →
      since ≤ now → ∃ a t, perform now w'.approvals op = .ok (a, t) ∧
        Q h { w' with approvals := t } a) :
    system.Ensures i (recovery x since) Q E h w (store op) := by
  refine ensures_store op trivial fun w' env hrely hgiven => ⟨trivial, ?_⟩
  obtain ⟨a, t, ht, hQ⟩ := hperform (h ++ [system.entry i env (.store op) w']) w' env.now
    (hrely.trans hrow) hgiven.2
  have hfault : env.fault = none :=
    Option.isNone_iff_eq_none.mp (Bool.and_eq_true_iff.mp hgiven.1).1
  have hexec : exec i (.store op) env w' = (.ok a, { w' with approvals := t }) := by
    simp only [exec, orFault, hfault, execStore, ht]
  rw [hexec]
  exact ⟨fun _ heq => by cases heq; exact hQ, fun _ heq => by cases heq⟩

/-- An audit record succeeds and leaves the row alone. -/
theorem recovery_record {event : AuditRecord} {Q : List LogEntry → World → AuditEvent → Prop}
    (hrow : w.approvals.lookup x = some row)
    (hQ : ∀ h w' a, w'.approvals.lookup x = some row → Q h w' a) :
    system.Ensures i (recovery x since) Q E h w (record event) := by
  refine ensures_record event trivial fun w' env hrely hgiven => ⟨trivial, fun a _ => ?_, ?_⟩
  · refine hQ _ _ a ?_
    rw [exec_approvals (by simp)]
    exact hrely.trans hrow
  · intro exc hexc
    have hanswered : (exec i (.record event) env w').1.toBool :=
      (Bool.and_eq_true_iff.mp hgiven.1).2
    simp [hexc, Except.toBool] at hanswered

/-- The name of the Job of a UUID is valid. -/
theorem validateJobName_of_isUuid (h : isUuid x.toList) :
    KubernetesExecutor.validateJobName (ReconciliationService.trainingJobName x) = .ok () := by
  have hname : (ReconciliationService.trainingJobName x).toList =
      KubernetesExecutor.jobNamePrefix ++ x.toList := String.toList_append
  simp [KubernetesExecutor.validateJobName, KubernetesExecutor.matchesJobName, hname,
    List.isPrefixOf_iff_prefix, KubernetesExecutor.matchesJobId_of_isUuid h]

/-- A Job that is reported absent does not exist. -/
theorem not_exists_of_reportsAbsent {ended : KubectlGet} {result : Dict}
    (hresult : KubernetesExecutor.classify ended = .ok result) (habsent : reportsAbsent result) :
    ¬result.truthyAt "exists" := by
  obtain ⟨returncode, stdout, rfl, hcode⟩ := classify_absent_iff.mp ⟨result, hresult, habsent⟩
  rw [KubernetesExecutor.classify_exited_of_ne_zero hcode] at hresult
  cases hresult
  decide

/-- A status check tells one of the three states. -/
theorem recovery_status {executor : KubernetesExecutor} {Q : List LogEntry → World → Dict → Prop}
    (hnamespace : executor.namespace = "ai-engineering") (hid : isUuid x.toList)
    (hrow : w.approvals.lookup x = some row)
    (hQ : ∀ h w' result, w'.approvals.lookup x = some row →
      reports result "completed" ∨ reports result "failed" ∨
        reportsAbsent result ∧ ¬result.truthyAt "exists" → Q h w' result) :
    system.Ensures i (recovery x since) Q E h w
      (executor.getTrainingJobStatus (ReconciliationService.trainingJobName x)) := by
  refine ensures_getTrainingJobStatus executor _ trivial ?_ fun _ w' env hrely hgiven => ?_
  · rintro (h | h)
    · exact absurd hnamespace h
    · exact absurd (validateJobName_of_isUuid hid) h
  have hanswered :
      answered (.kubectlGet (ReconciliationService.trainingJobName x)) env.kubectlGet :=
    (Bool.and_eq_true_iff.mp hgiven.1).2
  refine ⟨trivial, fun result hresult => ?_, fun exc hexc => ?_⟩
  · simp only [answered, hresult, Bool.or_eq_true, or_assoc] at hanswered
    exact hQ _ _ _ (hrely.trans hrow) (hanswered.imp_right fun h => h.imp_right fun habsent =>
      ⟨habsent, not_exists_of_reportsAbsent hresult habsent⟩)
  · simp [answered, hexc] at hanswered

/-- An apply returns its result and leaves the row alone. -/
theorem recovery_apply {executor : KubernetesExecutor} {Q : List LogEntry → World → Dict → Prop}
    (hrow : w.approvals.lookup x = some row)
    (hQ : ∀ h w' result, w'.approvals.lookup x = some row → Q h w' result) :
    system.Ensures i (recovery x since) Q E h w (executor.applyTrainingJob true (some x)) := by
  refine ensures_applyTrainingJob executor true (some x)
    (I := fun _ w => w.approvals.lookup x = some row) (fun _ _ _ => trivial) ?_
    (fun h w result hrow => hQ h w result hrow) ?_ hrow
  · intro h w w' op env hop hrow hrely _
    rw [(exec_of_isApplying hop i env w').1]
    exact hrely.trans hrow
  · intro h w env exc hgiven _
    cases (Bool.and_eq_true_iff.mp hgiven.1).2

end Rules

/-! ## The two calls -/

section Calls

variable {i : ℕ} {x : String} {since : Time} {h : List LogEntry} {w : World}
  {row : ApprovalRequestRow} {service : ReconciliationService}

/-- The execution can be recovered from some instant on: its outcome is unknown, or its lease has
run out by then. -/
def Recoverable (service : ReconciliationService) (since : Time) (row : ApprovalRequestRow) : Prop :=
  row.status = .unknown ∨ row.status = .executing ∧ ∃ startedAt,
    row.executionStartedAt = some startedAt ∧
      startedAt + seconds service.executionLeaseSeconds.toNat ≤ since

/-- The branches of `reconcile` leave an execution unknown or finished. -/
theorem recover_recovers (hrow : w.approvals.lookup x = some row)
    (hrecoverable : Recoverable service since row) {result : Dict}
    (hstate : reports result "completed" ∨ reports result "failed" ∨
      reportsAbsent result ∧ ¬result.truthyAt "exists") :
    system.Ensures i (recovery x since)
      (fun _ w _ => HasStatus x [.unknown, .completed, .failed] w) (fun _ _ _ => False) h w
      (service.recover x row.toSchema result) := by
  have hopen : row.status = .executing ∨ row.status = .unknown :=
    hrecoverable.elim .inr fun h => .inl h.1
  unfold ReconciliationService.recover
  split
  · exact recovery_store hrow fun _ w' now hrow' _ => ⟨_, _, markCompleted_of_open hrow' hopen,
      _, ApprovalTable.lookup_write_of_lookup hrow' rfl, by simp⟩
  rename_i hc
  split
  · exact recovery_store hrow fun _ w' now hrow' _ => ⟨_, _, markFailed_of_open hrow' hopen,
      _, ApprovalTable.lookup_write_of_lookup hrow' rfl, by simp⟩
  rename_i hf
  have habsent : result.isStrAt "status" "absent" :=
    ((hstate.resolve_left hc).resolve_left hf).1
  rcases hrecoverable with hunknown | ⟨hexecuting, startedAt, hstarted, hstale⟩
  · rw [if_neg (by simp [ApprovalRequestRow.toSchema, hunknown]), Machine.ensures_bind]
    refine recovery_store hrow fun _ w' now hrow' _ => ⟨_, _, rfl, trivial, row, hrow', ?_⟩
    simp [hunknown]
  · rw [if_pos (by simp [ApprovalRequestRow.toSchema, hexecuting, habsent]), Machine.ensures_bind]
    refine recovery_store hrow fun _ w' now hrow' hlate => ⟨_, _,
      recoverStaleExecution_of_stale hrow' service.positive hexecuting hstarted
        (hstale.trans hlate), ?_⟩
    simp only [if_true]
    rw [Machine.ensures_bind]
    refine recovery_record (ApprovalTable.lookup_write_of_lookup hrow' rfl) fun _ w' _ hrow' => ?_
    exact ⟨trivial, _, hrow', by simp⟩

/-- `reconcile` does not raise, and leaves an execution unknown or finished. -/
theorem reconcile_recovers (hnamespace : service.executor.namespace = "ai-engineering")
    (hid : isUuid x.toList) (hrow : w.approvals.lookup x = some row)
    (hrecoverable : Recoverable service since row) :
    system.Ensures i (recovery x since)
      (fun _ w _ => HasStatus x [.unknown, .completed, .failed] w) (fun _ _ _ => False) h w
      (service.reconcile x) := by
  have hopen : ¬(row.toSchema.status ≠ .unknown ∧ row.toSchema.status ≠ .executing) := by
    rcases hrecoverable with h | ⟨h, -⟩ <;> simp [ApprovalRequestRow.toSchema, h]
  unfold ReconciliationService.reconcile
  rw [Machine.ensures_bind]
  refine recovery_store hrow fun _ w' now hrow' _ => ⟨_, _, rfl, ?_⟩
  simp only [ApprovalStore.get, hrow', Option.map_some, if_neg hopen]
  rw [Machine.ensures_bind]
  refine recovery_record hrow' fun _ w' _ hrow' => ?_
  unfold ReconciliationService.reconcileUncertain
  rw [Machine.ensures_bind]
  refine recovery_status hnamespace hid hrow' fun _ w' result hrow' hstate => ?_
  rw [Machine.ensures_bind]
  refine (recover_recovers hrow' hrecoverable hstate).mono ?_ fun _ _ _ _ => False.elim
  rintro _ w' recovered - ⟨row', hrow', hstatus⟩
  rw [Machine.ensures_bind]
  exact recovery_record hrow' fun _ w' _ hrow' => ⟨trivial, row', hrow', hstatus⟩

/-- The owner of a retry closes the execution. -/
theorem retryOwned_recovers (hnamespace : service.executor.namespace = "ai-engineering")
    (hid : isUuid x.toList) (hstatus : HasStatus x [.executing] w)
    (approval claimed : ApprovalRequest) :
    system.Ensures i (recovery x since)
      (fun _ w _ => HasStatus x [.completed, .failed] w) (fun _ _ _ => False) h w
      (service.retryOwned x approval claimed) := by
  obtain ⟨row, hrow, hstatus⟩ := hstatus
  have hstatus := List.mem_singleton.mp hstatus
  -- both terminal marks write on the executing row
  have hcomplete : ∀ {h w} result, w.approvals.lookup x = some row →
      system.Ensures i (recovery x since) (fun _ w _ => HasStatus x [.completed, .failed] w)
        (fun _ _ _ => False) h w (store (.markCompleted x result)) := by
    intro h w result hrow
    exact recovery_store hrow fun _ w' now hrow' _ => ⟨_, _,
      markCompleted_of_open hrow' (.inl hstatus),
      _, ApprovalTable.lookup_write_of_lookup hrow' rfl, by simp⟩
  have hfail : ∀ {h w} result, w.approvals.lookup x = some row →
      system.Ensures i (recovery x since) (fun _ w _ => HasStatus x [.completed, .failed] w)
        (fun _ _ _ => False) h w (store (.markFailed x result)) := by
    intro h w result hrow
    exact recovery_store hrow fun _ w' now hrow' _ => ⟨_, _,
      markFailed_of_open hrow' (.inl hstatus),
      _, ApprovalTable.lookup_write_of_lookup hrow' rfl, by simp⟩
  have hfinish : ∀ {h w} result (mark : Handler ApprovalRequest),
      system.Ensures i (recovery x since) (fun _ w _ => HasStatus x [.completed, .failed] w)
        (fun _ _ _ => False) h w mark →
      system.Ensures i (recovery x since) (fun _ w _ => HasStatus x [.completed, .failed] w)
        (fun _ _ _ => False) h w (ReconciliationService.retryFinished approval result mark) := by
    intro h w result mark hmark
    unfold ReconciliationService.retryFinished
    rw [Machine.ensures_bind]
    refine hmark.mono ?_ fun _ _ _ _ => False.elim
    rintro _ w' recovered - ⟨row', hrow', hstatus⟩
    rw [Machine.ensures_bind]
    exact recovery_record hrow' fun _ w' _ hrow' => ⟨trivial, row', hrow', hstatus⟩
  unfold ReconciliationService.retryOwned
  rw [Machine.ensures_bind]
  refine recovery_record hrow fun _ w' _ hrow => ?_
  rw [Machine.ensures_bind, Machine.ensures_attempt]
  refine recovery_status hnamespace hid hrow fun _ w' result hrow hstate => ?_
  change system.Ensures _ _ _ _ _ _ (service.retryBranch x approval claimed result)
  unfold ReconciliationService.retryBranch
  split
  · exact hfinish _ _ (hcomplete _ hrow)
  rename_i hc
  split
  · exact hfinish _ _ (hfail _ hrow)
  rename_i hf
  obtain ⟨habsent, hexists⟩ := (hstate.resolve_left hc).resolve_left hf
  rw [if_neg hexists, if_neg (by simpa [reportsAbsent] using habsent)]
  unfold ReconciliationService.retryApply
  rw [Machine.ensures_bind]
  refine recovery_record hrow fun _ w' _ hrow => ?_
  rw [Machine.ensures_bind, Machine.ensures_attempt]
  refine recovery_apply hrow fun _ w' execution hrow => ?_
  simp only
  split
  · exact hcomplete _ hrow
  · exact hfail _ hrow

/-- `retry_if_absent` finishes an execution that is unknown. -/
theorem retryIfAbsent_recovers (hnamespace : service.executor.namespace = "ai-engineering")
    (hid : isUuid x.toList) (hstatus : HasStatus x [.unknown, .completed, .failed] w) :
    system.Ensures i (recovery x since)
      (fun _ w _ => HasStatus x [.completed, .failed] w) (fun _ _ _ => False) h w
      (service.retryIfAbsent x) := by
  obtain ⟨row, hrow, hstatus⟩ := hstatus
  unfold ReconciliationService.retryIfAbsent
  rw [Machine.ensures_bind]
  refine recovery_store hrow fun _ w' now hrow _ => ⟨_, _, rfl, ?_⟩
  simp only [ApprovalStore.get, hrow, Option.map_some]
  by_cases hunknown : row.status = .unknown
  · rw [if_neg (by simp [ApprovalRequestRow.toSchema, hunknown]), Machine.ensures_bind]
    refine recovery_store hrow fun _ w' now hrow _ => ⟨_, _,
      (claimRetryExecution_of_lookup hrow).trans (if_pos hunknown), ?_⟩
    have hclaimed := ApprovalTable.lookup_write_of_lookup hrow
      (show ({ row with status := .executing, executionStartedAt := some now } :
        ApprovalRequestRow).approvalId = row.approvalId from rfl)
    exact retryOwned_recovers hnamespace hid ⟨_, hclaimed, by simp⟩ _ _
  · rw [if_pos (by simpa [ApprovalRequestRow.toSchema] using hunknown)]
    exact ⟨trivial, row, hrow, by simpa [hunknown] using hstatus⟩

end Calls

/-- After every run with crashes anywhere, an execution that is executing or unknown and that
nobody else touches any more is brought to its end by one `reconcile` and one `retry_if_absent`,
if they are served and come when the lease of its last claim is over. -/
theorem no_dead_end (jobs : Jobs) (events : List SystemEvent) (x : String) (i j : ℕ)
    (service : ReconciliationService) (s₁ s₂ : Surroundings Env World)
    (hnamespace : service.executor.namespace = "ai-engineering") (hid : isUuid x.toList)
    (hstatus : HasStatus x [.executing, .unknown] (runFrom jobs events).world)
    (halone : ∀ k w, (s₁.others k w).approvals.lookup x = w.approvals.lookup x ∧
      (s₂.others k w).approvals.lookup x = w.approvals.lookup x) :
    let first := system.finish i s₁ 0 (runFrom jobs events).world (service.reconcile x)
    let second := system.finish j s₂ 0 first.world (service.retryIfAbsent x)
    (∀ e ∈ first.entries ++ second.entries, served e ∧
      ∀ t, LastClaim (runFrom jobs events).trace x t →
        t + seconds service.executionLeaseSeconds.toNat ≤ e.env.now) →
    HasStatus x [.completed, .failed] second.world := by
  intro first second hserved
  obtain ⟨row, hrow, hstatus⟩ := hstatus
  have hlegal := legal_runFrom jobs events
  -- the calls come late enough for the lease, if there is one
  obtain ⟨since, hrecoverable, hlate⟩ : ∃ since, Recoverable service since row ∧
      ∀ e ∈ first.entries ++ second.entries, since ≤ e.env.now := by
    by_cases hexecuting : row.status = .executing
    · obtain ⟨t, ht, hlast⟩ := Legal.executing_since hlegal hrow hexecuting
      exact ⟨_, .inr ⟨hexecuting, t, ht, le_rfl⟩, fun e he => (hserved e he).2 t hlast⟩
    · exact ⟨0, .inl (by simpa [hexecuting] using hstatus), fun _ _ => Nat.zero_le _⟩
  have hgiven : ∀ e ∈ first.entries ++ second.entries, served e ∧ since ≤ e.env.now :=
    fun e he => ⟨(hserved e he).1, hlate e he⟩
  have hfirst := (reconcile_recovers (i := i) (h := []) hnamespace hid hrow hrecoverable).finish
    (fun k w => (halone k w).1) fun e he => hgiven e (List.mem_append_left _ he)
  have hmiddle : HasStatus x [.unknown, .completed, .failed] first.world := by
    unfold Ended.Meets at hfirst
    split at hfirst
    · exact hfirst
    · exact hfirst.elim
  have hsecond := (retryIfAbsent_recovers (i := j) (h := []) hnamespace hid hmiddle).finish
    (fun k w => (halone k w).2) fun e he => hgiven e (List.mem_append_right _ he)
  unfold Ended.Meets at hsecond
  split at hsecond
  · exact hsecond
  · exact hsecond.elim

/-- An execution whose caller crashes right after its claim, and the Job of which was never
created: it is recovered when its lease is over, and retried. -/
theorem no_dead_end_claimed :
    let x := "00000000-0000-4000-8000-000000000000"
    let events : List SystemEvent := [.arrive (.createTrainingApproval "drift" []),
      .step 0 { uuid := x }, .step 0 { uuid := "t1" }, .step 0 {}, .step 0 {},
      .arrive (.decide { approvalId := x, approved := true, decidedAt := 1 }), .step 1 {},
      .arrive (.execute {} x), .step 2 { now := 2 }, .crash 2]
    let late (tag : Char) (k : ℕ) : Env :=
      { now := 1000000000, uuid := String.ofList (List.replicate k tag)
        manifest := .ok "name: credit-model-training", kubectlGet := .exited 1 (.error "")
        kubectlApply := .ok "created" }
    let first := system.finish 3 { env := late 'a' } 0 (runFrom (fun _ => none) events).world
      (ReconciliationService.standard.reconcile x)
    let second := system.finish 4 { env := late 'b' } 0 first.world
      (ReconciliationService.standard.retryIfAbsent x)
    HasStatus x [.executing] (runFrom (fun _ => none) events).world ∧
      HasStatus x [.completed, .failed] second.world := by
  intro x events late first second
  have hlookup : ((runFrom (fun _ => none) events).world.approvals.lookup x).map (·.status) =
      some .executing := by decide +kernel
  obtain ⟨row, hrow, hrowStatus⟩ := Option.map_eq_some_iff.mp hlookup
  have hexecuting : HasStatus x [.executing] (runFrom (fun _ => none) events).world :=
    ⟨row, hrow, List.mem_singleton.mpr hrowStatus⟩
  have hentries : ∀ e ∈ first.entries ++ second.entries, served e ∧ e.env.now = 1000000000 := by
    decide +kernel
  have hclaims : ∀ e ∈ (runFrom (fun _ => none) events).trace, e.env.now ≤ 2 := by decide +kernel
  have hstatus : HasStatus x [.executing, .unknown] (runFrom (fun _ => none) events).world :=
    ⟨row, hrow, List.mem_cons.mpr (.inl hrowStatus)⟩
  have hgiven : ∀ e ∈ first.entries ++ second.entries, served e ∧
      ∀ t, LastClaim (runFrom (fun _ => none) events).trace x t →
        t + seconds ReconciliationService.standard.executionLeaseSeconds.toNat ≤ e.env.now := by
    intro e he
    constructor
    · exact (hentries e he).1
    · intro t hlast
      obtain ⟨pre, claim, post, htrace, -, hclaimed, -⟩ := hlast
      have hclaim := hclaims claim (by rw [htrace]; simp)
      rw [hclaimed] at hclaim
      rw [(hentries e he).2]
      exact (Nat.add_le_add_right hclaim _).trans (by decide)
  constructor
  · exact hexecuting
  · exact no_dead_end (fun _ => none) events x 3 4 .standard { env := late 'a' }
      { env := late 'b' } rfl (by decide) hstatus (fun _ _ => ⟨rfl, rfl⟩) hgiven

end CreditScoringMlops.ControlPlane
