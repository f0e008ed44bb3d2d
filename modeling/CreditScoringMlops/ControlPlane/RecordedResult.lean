import CreditScoringMlops.ControlPlane.Contracts

/-!
# The recorded result

The flags of `execution_result` are written by hand in each branch that marks an execution, or
merged into what a status check returned. Each result carries the flags of the status it is
recorded with: what the executor returns says whether it executed, and what a status check returns
says nothing of it.
-/

namespace CreditScoringMlops.ControlPlane

open Python Interaction Program ApprovalStore

/-- The flags of `execution_result` that go with a status. -/
def ApprovalStatus.Fits : ApprovalStatus → Dict → Prop
  | completed, result => result.get? "executed" = some (.bool true)
  | failed, result => result.get? "executed" = some (.bool false)
  | unknown, result =>
      result.get? "executed" = some (.bool false) ∧ result.get? "unknown" = some (.bool true)
  | _, _ => True

/-- A mark records a result that fits. -/
def marksFit : Op → Prop
  | .store (.markUnknown _ result) => ApprovalStatus.unknown.Fits result
  | .store (.markCompleted _ result) => ApprovalStatus.completed.Fits result
  | .store (.markFailed _ result) => ApprovalStatus.failed.Fits result
  | _ => True

/-- It fits the status in which its owner closes the execution. -/
theorem SaysExecuted.fits {result : Dict} (h : SaysExecuted result) :
    if result.isTrueAt "executed" then ApprovalStatus.completed.Fits result
    else ApprovalStatus.failed.Fits result := by
  obtain ⟨b, hb⟩ := h
  cases b <;> simp [Dict.isTrueAt, hb, Json.isTrue, ApprovalStatus.Fits]

/-- For such a result, being executed and being executed exactly are the same. -/
theorem SaysExecuted.truthyAt {result : Dict} (h : SaysExecuted result) :
    result.truthyAt "executed" = result.isTrueAt "executed" := by
  obtain ⟨b, hb⟩ := h
  simp [Dict.truthyAt, Dict.isTrueAt, hb, Json.truthy, Json.isTrue]

/-- What a status check returned does not say whether anything was executed. -/
theorem get?_reconciledResult {result : Dict} (h : result.get? "executed" = none) (b : Bool) :
    (ReconciliationService.reconciledResult b result).get? "executed" = some (.bool b) :=
  Dict.get?_merge h

/-- A result that an apply ended with is an unknown one. -/
theorem fits_unknownResult (exc : PyExc) :
    ApprovalStatus.unknown.Fits (ReconciliationService.unknownResult exc) := ⟨rfl, rfl⟩

/-! ## The programs -/

section Programs

/-- What a recovery of an approval does: it records what fits, and asks for the Job of the
approval. -/
def recovers (x : String) : Op → Prop
  | .kubectlGet name => name = ReconciliationService.trainingJobName x
  | op => marksFit op

/-- A recovery records what fits. -/
theorem marksFit_of_recovers {x : String} {op : Op} (h : recovers x op) : marksFit op := by
  cases op <;> first | exact h | trivial

/-- An apply is part of any recovery, and says whether it executed. -/
theorem obeys_applyTrainingJob_recovers (executor : KubernetesExecutor) (approved : Bool)
    (id : Option String) (x : String) :
    (executor.applyTrainingJob approved id).Obeys (.only (recovers x))
      (fun _ result => SaysExecuted result) (fun _ _ => True) () := by
  refine (obeys_applyTrainingJob_applies executor approved id).weaken fun op hop => ?_
  cases op <;> trivial

/-- It marks nothing. -/
theorem obeys_applyTrainingJob_fits (executor : KubernetesExecutor) (approved : Bool)
    (id : Option String) :
    (executor.applyTrainingJob approved id).Obeys (.only marksFit)
      (fun _ result => SaysExecuted result) (fun _ _ => True) () :=
  (obeys_applyTrainingJob_recovers executor approved id "").weaken fun _ => marksFit_of_recovers

/-- A status check of the Job of an approval is part of its recovery, and does not say whether
anything was executed. -/
theorem obeys_getTrainingJobStatus_recovers (executor : KubernetesExecutor) (x : String) :
    (executor.getTrainingJobStatus (ReconciliationService.trainingJobName x)).Obeys
      (.only (recovers x)) (fun _ result => result.get? "executed" = none) (fun _ _ => True) () :=
  (obeys_getTrainingJobStatus_asking executor _).weaken (by rintro _ rfl; rfl)

/-- The owner of an approval service records what fits. -/
theorem approvalService_executeOwned_uses (service : ApprovalService) (x : String)
    (request : ApprovalRequest) : (service.executeOwned x request).Uses marksFit := by
  unfold ApprovalService.executeOwned
  rw [Uses, obeys_bind, obeys_attempt]
  refine (obeys_applyTrainingJob_fits _ _ _).mono (fun _ result hresult => ?_) fun _ exc _ => ?_
  · have hfits := hresult.fits
    change Uses _ (if (!result.truthyAt "executed") = true then _ else _)
    rw [hresult.truthyAt]
    cases hexecuted : result.isTrueAt "executed" <;> rw [hexecuted] at hfits <;>
      exact uses_store hfits
  · cases exc with
    | kubernetesExecutionUnknown message => exact uses_store ⟨rfl, rfl⟩
    | _ => exact uses_store rfl

/-- So does the owner of an agent service. -/
theorem agentService_executeOwned_uses (service : AgentService) (x : String)
    (approval : ApprovalRequest) : (service.executeOwned x approval).Uses marksFit := by
  unfold AgentService.executeOwned
  rw [Uses, obeys_bind, obeys_attempt]
  refine (obeys_applyTrainingJob_fits _ _ _).mono (fun _ result hresult => ?_) fun _ exc _ => ?_
  · have hfits := hresult.fits
    change Uses _ (if result.isTrueAt "executed" = true then _ else _)
    split <;> rename_i hexecuted
    · rw [if_pos hexecuted] at hfits
      exact permitted_store hfits fun _ => permitted_record trivial fun _ => trivial
    · rw [if_neg hexecuted] at hfits
      exact permitted_store hfits fun _ => permitted_record trivial fun _ => trivial
  · cases exc with
    | kubernetesExecutionUnknown message =>
      exact permitted_store ⟨rfl, rfl⟩ fun _ => permitted_record trivial fun _ => trivial
    | _ => exact permitted_store rfl fun _ => permitted_record trivial fun _ => trivial

variable (service : ReconciliationService) (x : String)

/-- A reconciliation records what fits. -/
theorem reconcile_uses : (service.reconcile x).Uses (recovers x) := by
  suffices hpermits : PermitsReconcile (.only (recovers x)) x
      fun result => result.get? "executed" = none from hpermits.reconcile service
  refine ⟨fun op hop => ?_, rfl, fun ended result _ => get?_classify, ?_, ?_⟩
  · cases op with
    | store op => cases op <;> trivial
    | record event => trivial
    | _ => cases hop
  · exact fun result hresult _ => get?_reconciledResult hresult true
  · exact fun result hresult _ => get?_reconciledResult hresult false

/-- A new apply of a retry records what fits. -/
theorem retryApply_uses (approval : ApprovalRequest) (result : Dict) :
    (service.retryApply x approval result).Uses (recovers x) := by
  unfold ReconciliationService.retryApply
  refine permitted_record trivial fun _ => ?_
  rw [obeys_bind, obeys_attempt]
  refine (obeys_applyTrainingJob_recovers _ _ _ _).mono (fun _ execution hexecution => ?_)
    fun _ exc _ => uses_store (fits_unknownResult exc)
  have hfits := hexecution.fits
  change Uses _ (if execution.isTrueAt "executed" = true then _ else _)
  split <;> rename_i hexecuted
  · rw [if_pos hexecuted] at hfits
    exact uses_store ((Dict.get?_merge (by decide)).trans hfits)
  · rw [if_neg hexecuted] at hfits
    exact uses_store hfits

/-- So does a whole retry. -/
theorem retryIfAbsent_uses : (service.retryIfAbsent x).Uses (recovers x) := by
  have hfinished : ∀ approval result {mark : Handler ApprovalRequest}, mark.Uses (recovers x) →
      (ReconciliationService.retryFinished approval result mark).Uses (recovers x) :=
    fun _ _ _ hmark => hmark.bind fun _ => permitted_record trivial fun _ => trivial
  have hbranch : ∀ approval claimed result, Dict.get? result "executed" = none →
      (service.retryBranch x approval claimed result).Uses (recovers x) := by
    intro approval claimed result hresult
    unfold ReconciliationService.retryBranch
    split
    · exact hfinished _ _ (uses_store (get?_reconciledResult hresult true))
    split
    · exact hfinished _ _ (uses_store (get?_reconciledResult hresult false))
    split
    · exact permitted_record trivial fun _ => permitted_store trivial fun _ => trivial
    split
    · exact uses_store ⟨rfl, rfl⟩
    · exact retryApply_uses service x approval result
  unfold ReconciliationService.retryIfAbsent
  refine permitted_store trivial fun found => ?_
  cases found with
  | none => trivial
  | some approval =>
    change Uses _ (if _ then _ else _)
    split
    · trivial
    refine permitted_store trivial fun (claimed, ownsRetry) => ?_
    cases ownsRetry
    · trivial
    · refine permitted_record trivial fun _ => ?_
      rw [obeys_bind, obeys_attempt]
      exact (obeys_getTrainingJobStatus_recovers _ _).mono
        (fun _ result hresult => hbranch approval claimed result hresult)
        fun _ exc _ => uses_store (fits_unknownResult exc)

/-- A worker cycle records what fits. -/
theorem runOnce_uses (worker : ReconciliationWorker) : worker.runOnce.Uses marksFit := by
  have hall : ∀ approvals processed,
      (ReconciliationWorker.reconcileAll worker.service approvals processed).Uses marksFit := by
    intro approvals
    induction approvals with
    | nil => exact fun _ => trivial
    | cons approval rest ih =>
      intro processed
      unfold ReconciliationWorker.reconcileAll
      have hreconcile : (worker.service.reconcile approval.approvalId).Uses marksFit :=
        (reconcile_uses worker.service _).weaken fun _ => marksFit_of_recovers
      refine hreconcile.attempt.bind fun ended => ?_
      cases ended with
      | ok _ => exact ih _
      | error _ => exact ih _
  unfold ReconciliationWorker.runOnce
  refine .bind (uses_request trivial) fun _ => .bind (uses_ofExcept _) fun acquired => ?_
  split
  · trivial
  · refine .bind (.attempt (permitted_store trivial fun _ => hall _ _)) fun ended => ?_
    refine .bind (uses_request trivial) fun _ => .bind (uses_ofExcept _) fun _ => ?_
    exact uses_ofExcept ended

/-- So does every request. -/
theorem serve_uses_marksFit (r : Request) : (serve r).Uses marksFit := by
  cases r with
  | createAgentDecision request =>
    refine (obeys_map _ _).mpr (Uses.bind ((AgentService.traceIdOf_uses _).weaken ?_) fun _ => ?_)
    · exact fun op hop => by cases op <;> trivial
    · change Uses _ (if _ then _ else _)
      split
      · trivial
      refine .bind (uses_request trivial) fun _ => .bind (uses_ofExcept _) fun decision => ?_
      refine permitted_record trivial fun _ => ?_
      split
      · rw [obeys_bind, obeys_map]
        refine Uses.bind (uses_request trivial) fun _ => .bind (uses_request trivial) fun _ => ?_
        exact permitted_store trivial fun _ => permitted_record trivial fun _ => trivial
      · trivial
  | createApproval request =>
    refine (obeys_map _ _).mpr ?_
    change Uses _ (if _ then _ else _)
    split
    · trivial
    refine .bind (uses_request trivial) fun _ => .bind (uses_request trivial) fun _ => ?_
    exact permitted_store trivial fun _ => permitted_record trivial fun _ => trivial
  | decideApproval id decision =>
    refine (obeys_map _ _).mpr ?_
    change Uses _ (if _ then _ else _)
    split
    · trivial
    have hdecide : marksFit (.store (.decide decision)) := trivial
    refine (uses_rethrow (uses_store hdecide) _).bind fun _ => ?_
    exact permitted_record trivial fun _ => trivial
  | executeApproval service x =>
    refine (obeys_map _ _).mpr (permitted_store trivial fun found => ?_)
    cases found with
    | none => trivial
    | some approval =>
      change Uses _ (if _ then _ else _)
      split
      · trivial
      have hclaim : marksFit (.store (.claimExecution x)) := trivial
      refine (uses_rethrow (uses_store hclaim) _).bind fun (claimed, ownsExecution) => ?_
      cases ownsExecution
      · trivial
      · exact permitted_record trivial fun _ => agentService_executeOwned_uses service x claimed
  | reconcileApproval service x =>
    refine (obeys_map _ _).mpr (uses_rethrow ?_ _)
    exact (reconcile_uses _ x).weaken fun _ => marksFit_of_recovers
  | retryApproval service x =>
    refine (obeys_map _ _).mpr (uses_rethrow ?_ _)
    exact (retryIfAbsent_uses _ x).weaken fun _ => marksFit_of_recovers
  | createTrainingApproval reason plan =>
    refine (obeys_map _ _).mpr (Uses.bind (uses_request trivial) fun _ => ?_)
    refine .bind (uses_request trivial) fun _ => .bind (uses_request trivial) fun _ => ?_
    exact uses_store trivial
  | decide decision => exact (obeys_map _ _).mpr (uses_store trivial)
  | execute service x =>
    refine (obeys_map _ _).mpr (permitted_store trivial fun (request, ownsExecution) => ?_)
    cases ownsExecution
    · trivial
    · exact approvalService_executeOwned_uses service x request
  | runOnce worker => exact (obeys_map _ _).mpr (runOnce_uses worker)
  | cluster change => exact (obeys_map _ _).mpr (uses_request trivial)

end Programs

/-! ## The table -/

/-- The result of a row fits its status. -/
def ResultFits (row : ApprovalRequestRow) : Prop :=
  row.status = .completed ∨ row.status = .failed ∨ row.status = .unknown →
    ∃ result, row.executionResult = some result ∧ row.status.Fits result

/-- A change that records what fits keeps it so. -/
theorem RowChange.resultFits {now : Time} {op : StoreOp} {row row' : ApprovalRequestRow}
    (h : RowChange now op row row') (hop : marksFit (.store op)) : ResultFits row' := by
  intro hstatus
  cases h with
  | decide decision h => cases happroved : decision.approved <;> simp [happroved] at hstatus
  | execute id hop h => simp at hstatus
  | unknown id result h => exact ⟨result, rfl, hop⟩
  | complete id result h => exact ⟨result, rfl, hop⟩
  | fail id result h => exact ⟨result, rfl, hop⟩
  | retry id hop h => simp at hstatus
  | recover id s h hstarted hpos hstale => exact ⟨_, rfl, rfl, rfl⟩

/-- So does every operation. -/
theorem exec_resultFits (i : ℕ) (op : Op) (env : Env) (w : World) (hop : marksFit op)
    (h : ∀ x row, w.approvals.lookup x = some row → ResultFits row) :
    ∀ x row, (exec i op env w).2.approvals.lookup x = some row → ResultFits row := by
  intro x row hrow
  by_cases hstore : ∃ o, op = .store o
  · obtain ⟨o, rfl⟩ := hstore
    have hstep := exec_rowStep i o env w x
    rw [hrow] at hstep
    generalize hbefore : w.approvals.lookup x = before at hstep
    cases hstep with
    | stay row => exact h x row hbefore
    | insert request hcreate hid hstatus => simp [ResultFits, newRow, hstatus]
    | change hid htarget hchange => exact RowChange.resultFits hchange hop
  · rw [exec_approvals fun o ho => hstore ⟨o, ho⟩] at hrow
    exact h x row hrow

/-- At every moment of every run, a completed approval has recorded that it was executed, a failed
one that it was not, and an unknown one that it was not and that this is unknown. -/
theorem recorded_result_agrees (jobs : Jobs) (events : List SystemEvent) :
    ∀ row ∈ (runFrom jobs events).world.approvals.rows,
      (row.status = .completed → ∃ result, row.executionResult = some result ∧
        result.get? "executed" = some (.bool true)) ∧
      (row.status = .failed → ∃ result, row.executionResult = some result ∧
        result.get? "executed" = some (.bool false)) ∧
      (row.status = .unknown → ∃ result, row.executionResult = some result ∧
        result.get? "executed" = some (.bool false) ∧
          result.get? "unknown" = some (.bool true)) := by
  intro row hrow
  have hfits : ∀ x row, (runFrom jobs events).world.approvals.lookup x = some row →
      ResultFits row :=
    system.invariant_run (I := fun w => ∀ x row, w.approvals.lookup x = some row → ResultFits row)
      serve_uses_marksFit exec_resultFits (fun _ _ h => h) (fun _ _ h => by cases h) events
  have hrow := hfits row.approvalId row (ApprovalTable.lookup_eq_some_iff.mpr ⟨hrow, rfl⟩)
  refine ⟨fun hstatus => ?_, fun hstatus => ?_, fun hstatus => ?_⟩ <;>
    simpa [ResultFits, hstatus, ApprovalStatus.Fits] using hrow

/-- A run in which the manifest is gone when an approved execution starts. -/
def missingManifestRun : List SystemEvent :=
  approvedRun ++ [.arrive (.execute {} "a1"), .step 2 {}, .step 2 {}, .step 2 {}, .step 2 {},
    .step 2 {}]

/-- The failed approval of that run has recorded that it was not executed. -/
theorem recorded_result_agrees_failed :
    ∃ row ∈ (runFrom (fun _ => none) missingManifestRun).world.approvals.rows,
      row.status = .failed ∧ ∃ result, row.executionResult = some result ∧
        result.get? "executed" = some (.bool false) := by
  refine ⟨_, List.mem_of_getElem? (i := 0) rfl, rfl, ?_⟩
  exact (recorded_result_agrees (fun _ => none) missingManifestRun _
    (List.mem_of_getElem? (i := 0) rfl)).2.1 rfl

end CreditScoringMlops.ControlPlane
