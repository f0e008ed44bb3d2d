import CreditScoringMlops.ControlPlane.OwnerPrograms

/-!
# Every request obeys the claim protocol

The functions around the owners: reconciliation, the worker, and the handlers. `obeys_serve`
assembles them, and `runFrom_disciplined` carries the protocol over to every run.
-/

namespace CreditScoringMlops.ControlPlane

open Python Interaction Program ClaimProtocol

variable {s : Phase}

/-! ## Reconciliation -/

section Reconciliation

variable {f : Free}

/-- A free program owns nothing. -/
theorem owner_of_free (hs : s.free? = some f) : s.owner = none := by
  cases s with
  | refused owner mark => cases owner <;> first | rfl | cases hs
  | _ => first | rfl | cases hs

/-- An operation that is no claim either is refused or moves on. -/
theorem next_of_not_claim {op : Op} (h : claimOf op = none) (reply : op.Reply) :
    next s op reply =
      if refusal op reply then .refused s.owner (markOf op) else after s op reply := by
  simp only [next, h]

/-- What a free program knows after an operation short of a claim. -/
theorem free_next (hs : s.free? = some f) {op : Op} (hclaim : claimOf op = none)
    (reply : op.Reply) :
    (next s op reply).free? =
      some (if refusal op reply then { fresh := false } else f.after op reply) := by
  rw [next_of_not_claim hclaim, owner_of_free hs]
  split
  · rfl
  · simp only [after, hs]
    rfl

/-- A free program stays free, whatever it does short of a claim. -/
theorem isFree_next (hs : s.isFree) {op : Op} (hclaim : claimOf op = none) (reply : op.Reply) :
    (next s op reply).isFree := by
  obtain ⟨f, hf⟩ := Option.isSome_iff_exists.mp hs
  rw [Phase.isFree, free_next hf hclaim]
  rfl

/-- Reading is no claim. -/
theorem claimOf_of_isReading {op : Op} (h : isReading op) : claimOf op = none := by
  cases op with
  | store op => cases op <;> simp [isReading] at h <;> rfl
  | _ => rfl

/-- A free program remembers the approval that it reads. -/
theorem next_get (hs : s.free? = some f) {x : String} (found : Option ApprovalRequest) :
    next s (.store (.get x)) (.ok found) =
      .free { f with found := found.map fun approval => (x, approval.status) } := by
  rw [next_of_not_claim rfl]
  simp only [refusal, Bool.false_eq_true, if_false, after, hs]
  rfl

/-- The two statuses that are uncertain. -/
theorem isUncertain_iff {status : ApprovalStatus} :
    status.isUncertain ↔ ¬(status ≠ .unknown ∧ status ≠ .executing) := by
  cases status <;> decide

/-- The outcome of the Job has been read, and settled if it was there to settle. -/
def Settled (x : String) (result : Dict) (s : Phase) : Prop :=
  ∃ f, s = .free f ∧ f.judged = some (ReconciliationService.trainingJobName x, .ok result) ∧
    (reports result "completed" ∨ reports result "failed" → f.settled)

/-- How a normal return of `reconcile` ends: the approval was certain, or the outcome of the Job
has been read and settled. -/
def Reconciled (x : String) (s : Phase) (approval : ApprovalRequest) : Prop :=
  (∃ f, s = .free f ∧ f.found = some (x, approval.status) ∧ ¬approval.status.isUncertain) ∨
    ∃ result, Settled x result s

/-- A program that has read the outcome of a Job is free. -/
theorem Settled.isFree {x : String} {result : Dict} (h : Settled x result s) : s.isFree := by
  obtain ⟨f, rfl, -⟩ := h
  rfl

/-- So is one that has reconciled. -/
theorem Reconciled.isFree {x : String} {approval : ApprovalRequest}
    (h : Reconciled x s approval) : s.isFree := by
  obtain ⟨f, rfl, -⟩ | ⟨result, h⟩ := h
  · rfl
  · exact h.isFree

variable {x : String} (service : ReconciliationService)

/-- The branches of `reconcile`. -/
theorem obeys_recover (approval : ApprovalRequest) (result : Dict)
    (hfound : f.found = some (x, approval.status)) (hstatus : approval.status.isUncertain)
    (hjudged : f.judged = some (ReconciliationService.trainingJobName x, .ok result)) :
    Obeys claimProtocol (fun s _ => Settled x result s) (fun s exc => s.isFree ∧ Unhandled x s exc)
      (.free f) (service.recover x approval result) := by
  unfold ReconciliationService.recover
  split
  · rename_i hcompleted
    exact obeys_store _ (.complete x hfound hstatus hjudged hcompleted)
      (fun _ => ⟨_, rfl, hjudged, fun _ => Bool.or_true _⟩)
      fun exc _ => ⟨isFree_next rfl rfl _, unhandled_mark rfl exc⟩
  rename_i hcompleted
  split
  · rename_i hfailed
    exact obeys_store _ (.fail x hfound hstatus hjudged hfailed)
      (fun _ => ⟨_, rfl, hjudged, fun _ => Bool.or_true _⟩)
      fun exc _ => ⟨isFree_next rfl rfl _, unhandled_mark rfl exc⟩
  rename_i hfailed
  have hopen : ∀ f : Free, reports result "completed" ∨ reports result "failed" → f.settled :=
    fun _ h => (h.elim hcompleted hfailed).elim
  split
  · rename_i hexecuting
    obtain ⟨hexecuting, habsent⟩ := Bool.and_eq_true_iff.mp hexecuting
    rw [obeys_bind]
    refine obeys_store _ (.recover x ?_ hjudged habsent service.positive) (fun reply => ?_)
      fun exc h => ⟨isFree_next rfl rfl _, unhandled_of_not_canRefuse h rfl⟩
    · rw [hfound, of_decide_eq_true hexecuting]
    · obtain ⟨recovered, stale⟩ := reply
      cases stale
      · exact ⟨_, rfl, hjudged, hopen _⟩
      · change Obeys _ _ _ (Phase.free _) (record _ >>= _)
        rw [obeys_bind]
        exact obeys_record _ (.read rfl rfl) (fun _ => ⟨_, rfl, hjudged, hopen _⟩)
          fun _ h => ⟨isFree_next rfl rfl _, fun htransition => absurd htransition h⟩
  · rw [obeys_bind]
    exact obeys_store _ (.read rfl rfl) (fun _ => ⟨_, rfl, hjudged, hopen _⟩)
      fun exc h => ⟨isFree_next rfl rfl _, unhandled_of_not_canRefuse h rfl⟩

/-- `reconcile` of an uncertain execution. -/
theorem obeys_reconcileUncertain (approval : ApprovalRequest)
    (hfound : f.found = some (x, approval.status)) (hstatus : approval.status.isUncertain) :
    Obeys claimProtocol (Reconciled x) (fun s exc => s.isFree ∧ Unhandled x s exc) (.free f)
      (service.reconcileUncertain x approval) := by
  unfold ReconciliationService.reconcileUncertain
  rw [obeys_bind]
  refine obeys_getTrainingJobStatus _ (.read rfl rfl) (fun ended result h => ?_)
    (fun ended exc h => ?_) fun exc h => ⟨rfl, fun htransition => absurd htransition h⟩
  · rw [obeys_bind]
    refine (obeys_recover
      (f := f.after (.kubectlGet (ReconciliationService.trainingJobName x)) ended)
      service approval result hfound hstatus ?_).mono ?_ fun _ _ h => h
    · rw [← h]
      rfl
    rintro _ recovered ⟨f', rfl, hjudged, hsettled⟩
    rw [obeys_bind]
    exact obeys_record _ (.read rfl rfl)
      (fun _ => .inr ⟨result, { f' with fresh := false }, rfl, hjudged, hsettled⟩)
      fun _ h => ⟨isFree_next rfl rfl _, fun htransition => absurd htransition h⟩
  · exact ⟨rfl, fun htransition => absurd htransition (classify_error h)⟩

/-- `reconcile`, by a program that owns nothing. -/
theorem obeys_reconcile (hs : s.isFree) :
    Obeys claimProtocol (Reconciled x) (fun s exc => s.isFree ∧ Unhandled x s exc) s
      (service.reconcile x) := by
  obtain ⟨f, hf⟩ := Option.isSome_iff_exists.mp hs
  unfold ReconciliationService.reconcile
  rw [obeys_bind]
  refine obeys_store _ (.read hs rfl) (fun found => ?_)
    fun exc h => ⟨isFree_next hs rfl _, unhandled_of_not_canRefuse h rfl⟩
  rw [next_get hf]
  cases found with
  | none => exact ⟨rfl, fun h => by simp [isTransitionError] at h⟩
  | some approval =>
    change Obeys _ _ _ _ (if _ then _ else _)
    split
    · rename_i hcertain
      exact .inl ⟨_, rfl, rfl, fun h => isUncertain_iff.mp h hcertain⟩
    · rename_i huncertain
      rw [obeys_bind]
      exact obeys_record _ (.read rfl rfl)
        (fun _ => obeys_reconcileUncertain service approval rfl (isUncertain_iff.mpr huncertain))
        fun _ h => ⟨isFree_next rfl rfl _, fun htransition => absurd htransition h⟩

/-- The loop of a worker. -/
theorem obeys_reconcileAll (approvals : List ApprovalRequest) (processed : ℕ) (hs : s.isFree) :
    Obeys claimProtocol (fun s _ => s.isFree) (fun s _ => s.isFree) s
      (ReconciliationWorker.reconcileAll service approvals processed) := by
  induction approvals generalizing s processed with
  | nil => exact hs
  | cons approval rest ih =>
    unfold ReconciliationWorker.reconcileAll
    rw [obeys_bind, obeys_attempt]
    exact (obeys_reconcile service hs).mono (fun _ _ h => ih _ h.isFree) fun _ _ h => ih _ h.1

/-- A worker cycle. -/
theorem obeys_runOnce (worker : ReconciliationWorker) :
    Obeys claimProtocol (fun _ _ => True) (fun _ _ => True) (.free {}) worker.runOnce := by
  have hend : ∀ {s : Phase}, s.isFree → ∀ ended : Except PyExc ℕ,
      Obeys claimProtocol (fun _ _ => True) (fun _ _ => True) s
        (do
          ofExcept (← ask .release)
          ofExcept ended : Handler ℕ) := by
    intro s hs ended
    rw [obeys_bind]
    refine obeys_ask _ (.read hs rfl) fun released => ?_
    rw [obeys_bind]
    exact obeys_ofExcept _ (fun _ _ => obeys_ofExcept _ (fun _ _ => trivial) fun _ _ => trivial)
      fun _ _ => trivial
  unfold ReconciliationWorker.runOnce
  rw [obeys_bind]
  refine obeys_ask _ (.read rfl rfl) fun reply => ?_
  rw [obeys_bind]
  refine obeys_ofExcept _ (fun acquired _ => ?_) fun _ _ => trivial
  have hs : (next (.free {}) .tryAcquire reply).isFree := isFree_next rfl rfl reply
  split
  · trivial
  · rw [obeys_bind, obeys_attempt, obeys_bind]
    refine obeys_store _ (.read hs rfl) (fun approvals => ?_)
      fun exc _ => hend (isFree_next hs rfl _) _
    exact (obeys_reconcileAll worker.service approvals 0 (isFree_next hs rfl _)).mono
      (fun _ _ h => hend h _) fun _ _ h => hend h _

end Reconciliation

/-! ## Requests -/

section Requests

/-- Opening an approval, by a program that owns nothing. -/
theorem obeys_create {request : ApprovalRequest} {Q : Phase → ApprovalRequest → Prop}
    (hs : s.isFree) (hstatus : request.status = .pending)
    (haction : request.action = "create_training_job")
    (hok : ∀ s a, s.isFree → Q s a) :
    Obeys claimProtocol Q (fun _ _ => True) s (store (.create request)) :=
  obeys_store _ (.create hs hstatus haction) (fun a => hok _ a (isFree_next hs rfl _))
    fun _ _ => trivial

/-- An audit record by a program that owns nothing. -/
theorem obeys_freeRecord (event : AuditRecord) {Q : Phase → AuditEvent → Prop} (hs : s.isFree)
    (hok : ∀ s a, s.isFree → Q s a) :
    Obeys claimProtocol Q (fun _ _ => True) s (record event) :=
  obeys_record _ (.read hs rfl) (fun a => hok _ a (isFree_next hs rfl _)) fun _ _ => trivial

/-- A reading operation by a program that owns nothing. -/
theorem obeys_freeAsk {op : Op} {Q : Phase → op.Reply → Prop} (hs : s.isFree)
    (hop : isReading op) (hok : ∀ s a, s.isFree → Q s a) :
    Obeys claimProtocol Q (fun _ _ => True) s (ask op) :=
  obeys_ask _ (.read hs hop) fun reply =>
    hok _ reply (isFree_next hs (claimOf_of_isReading hop) reply)

/-- Naming something is reading. -/
theorem isReading_of_isNaming {op : Op} (h : AgentService.isNaming op) : isReading op := by
  cases op <;> first | rfl | cases h

/-- The trace identifier of a decision. -/
theorem obeys_traceIdOf (context : Dict) (hs : s.isFree) {Q : Phase → String → Prop}
    (hok : ∀ s a, s.isFree → Q s a) :
    Obeys claimProtocol Q (fun _ _ => True) s (AgentService.traceIdOf context) := by
  have hfree : Obeys claimProtocol (fun s _ => s.isFree) (fun s _ => s.isFree) s
      (AgentService.traceIdOf context) := by
    refine (AgentService.traceIdOf_uses context).obeys (I := fun s : Phase => s.isFree) ?_ ?_ hs
    · exact fun s op hs hop => May.read hs (isReading_of_isNaming hop)
    · exact fun s op reply hs hop _ =>
        isFree_next hs (claimOf_of_isReading (isReading_of_isNaming hop)) reply
  exact hfree.mono hok fun _ _ _ => trivial

/-- The approval that a proposal opens. -/
theorem obeys_proposeRetraining (request : AgentDecisionRequest) (decision : AgentDecision)
    (traceId : String) (hs : s.isFree) :
    Obeys claimProtocol (fun _ _ => True) (fun _ _ => True) s
      (AgentService.proposeRetraining request decision traceId) := by
  unfold AgentService.proposeRetraining
  rw [obeys_bind]
  refine obeys_freeAsk hs rfl fun _ approvalId hs => ?_
  rw [obeys_bind]
  refine obeys_freeAsk hs rfl fun _ requestedAt hs => ?_
  rw [obeys_bind]
  refine obeys_create hs rfl rfl fun _ _ hs => ?_
  rw [obeys_bind]
  exact obeys_freeRecord _ hs fun _ _ _ => trivial

/-- `create_agent_decision`. -/
theorem obeys_createAgentDecision (request : AgentDecisionRequest) :
    Obeys claimProtocol (fun _ _ => True) (fun _ _ => True) (.free {})
      (AgentService.createAgentDecision request) := by
  unfold AgentService.createAgentDecision
  rw [obeys_bind]
  refine obeys_traceIdOf request.context rfl fun s traceId hs => ?_
  split
  · trivial
  rw [obeys_bind]
  refine obeys_freeAsk hs rfl fun s answer hs => ?_
  rw [obeys_bind]
  refine obeys_ofExcept _ (fun decision _ => ?_) fun _ _ => trivial
  rw [obeys_bind]
  refine obeys_freeRecord _ hs fun s _ hs => ?_
  split
  · rw [obeys_bind, obeys_map]
    exact obeys_proposeRetraining request decision traceId hs
  · trivial

/-- `create_approval`. -/
theorem obeys_createApproval (request : ApprovalCreateRequest) :
    Obeys claimProtocol (fun _ _ => True) (fun _ _ => True) (.free {})
      (AgentService.createApproval request) := by
  unfold AgentService.createApproval
  split
  · trivial
  rename_i hallowed
  have haction : request.action = "create_training_job" := by
    simpa [AgentService.allowedMutatingActions] using hallowed
  rw [obeys_bind]
  refine obeys_freeAsk rfl rfl fun _ approvalId hs => ?_
  rw [obeys_bind]
  refine obeys_freeAsk hs rfl fun _ requestedAt hs => ?_
  rw [obeys_bind]
  refine obeys_create hs rfl haction fun _ _ hs => ?_
  rw [obeys_bind]
  exact obeys_freeRecord _ hs fun _ _ _ => trivial

/-- `decide_approval`. -/
theorem obeys_decideApproval (approvalId : String) (decision : ApprovalDecision) :
    Obeys claimProtocol (fun _ _ => True) (fun _ _ => True) (.free {})
      (AgentService.decideApproval approvalId decision) := by
  unfold AgentService.decideApproval
  split
  · trivial
  rw [obeys_bind, obeys_rethrow]
  refine obeys_store _ (.read rfl rfl) (fun approval => ?_) fun _ _ => trivial
  rw [obeys_bind]
  exact obeys_freeRecord _ rfl fun _ _ _ => trivial

/-- `execute_approval`. -/
theorem obeys_executeApproval (service : AgentService) (x : String) :
    Obeys claimProtocol (fun _ _ => True) (Unhandled x) (.free {}) (service.executeApproval x) := by
  unfold AgentService.executeApproval
  rw [obeys_bind]
  refine obeys_store _ (.read rfl rfl) (fun found => ?_) fun _ h => unhandled_of_not_canRefuse h rfl
  cases found with
  | none => exact fun h => by simp [isTransitionError] at h
  | some approval =>
    change Obeys _ _ _ (Phase.free _) (if _ then _ else _)
    split
    · exact fun h => by simp [isTransitionError] at h
    rw [obeys_bind, obeys_rethrow]
    refine obeys_store _ (.claim .execute x rfl) (fun reply => ?_) fun exc _ => ?_
    · obtain ⟨claimed, owns⟩ := reply
      cases owns
      · trivial
      · change Obeys _ _ _ (Phase.owns .execute x) (record _ >>= _)
        rw [obeys_bind]
        exact obeys_record _ (.announce _)
          (fun _ => obeys_agentService_executeOwned service claimed)
          fun _ h htransition => absurd htransition h
    · -- a refused claim is answered with 409
      intro htransition
      cases exc <;> simp [AgentService.claimError, PyExc.isValueError, isTransitionError]
        at htransition

/-- `execute` of the approval service. A refused claim is passed on. -/
theorem obeys_execute (service : ApprovalService) (x : String) :
    Obeys claimProtocol (fun _ _ => True) (fun s exc => Unhandled x s exc ∨ s = .lost) (.free {})
      (service.execute x) := by
  unfold ApprovalService.execute
  rw [obeys_bind]
  refine obeys_store _ (.claim .execute x rfl) (fun reply => ?_) fun exc _ => .inr rfl
  obtain ⟨request, owns⟩ := reply
  cases owns
  · trivial
  · exact (obeys_approvalService_executeOwned service request).mono (fun _ _ h => h)
      fun _ _ h => .inl h

/-- The handlers of the two recovery requests turn nothing into an illegal transition. -/
theorem unhandled_recoveryError {x detail : String} {exc : PyExc} (h : Unhandled x s exc) :
    Unhandled x s (AgentService.recoveryError detail exc) := by
  intro htransition
  cases exc <;> exact h htransition

/-- What holds where a request returns. -/
def MayReturn : Request → Phase → Response → Prop
  | .reconcileApproval _ x, s, .approval approval => Reconciled x s approval
  | _, _, _ => True

/-- What holds where a request raises. -/
def MayRaise : Request → Phase → PyExc → Prop
  | .executeApproval _ x, s, exc => Unhandled x s exc
  | .reconcileApproval _ x, s, exc => Unhandled x s exc
  | .retryApproval _ x, s, exc => Unhandled x s exc
  | .execute _ x, s, exc => Unhandled x s exc ∨ s = .lost
  | _, _, _ => True

/-- Every request obeys the claim protocol. -/
theorem obeys_serve (r : Request) :
    Obeys claimProtocol (MayReturn r) (MayRaise r) claimProtocol.start (serve r) := by
  cases r with
  | createAgentDecision request => exact (obeys_map _ _).mpr (obeys_createAgentDecision request)
  | createApproval request => exact (obeys_map _ _).mpr (obeys_createApproval request)
  | decideApproval id decision => exact (obeys_map _ _).mpr (obeys_decideApproval id decision)
  | executeApproval service x => exact (obeys_map _ _).mpr (obeys_executeApproval service x)
  | reconcileApproval service x =>
    refine (obeys_map _ _).mpr ((obeys_rethrow _ _).mpr ?_)
    exact (obeys_reconcile service.reconciliationService rfl).mono (fun _ _ h => h)
      fun _ _ h => unhandled_recoveryError h.2
  | retryApproval service x =>
    refine (obeys_map _ _).mpr ((obeys_rethrow _ _).mpr ?_)
    exact (obeys_retryIfAbsent service.reconciliationService).mono (fun _ _ h => h)
      fun _ _ h => unhandled_recoveryError h
  | createTrainingApproval reason plan =>
    refine (obeys_map _ _).mpr ?_
    change Obeys _ _ _ _ (ask _ >>= _)
    rw [obeys_bind]
    refine obeys_freeAsk rfl rfl fun _ approvalId hs => ?_
    rw [obeys_bind]
    refine obeys_freeAsk hs rfl fun _ traceId hs => ?_
    rw [obeys_bind]
    refine obeys_freeAsk hs rfl fun _ requestedAt hs => ?_
    exact obeys_create hs rfl rfl fun _ _ _ => trivial
  | decide decision =>
    exact (obeys_map _ _).mpr
      (obeys_store _ (.read rfl rfl) (fun _ => trivial) fun _ _ => trivial)
  | execute service x => exact (obeys_map _ _).mpr (obeys_execute service x)
  | runOnce worker => exact (obeys_map _ _).mpr (obeys_runOnce worker)
  | cluster change => exact (obeys_map _ _).mpr (obeys_freeAsk rfl rfl fun _ _ _ => trivial)

/-- Every run of the system is disciplined. -/
theorem runFrom_disciplined (jobs : Jobs) (events : List SystemEvent) :
    system.Disciplined claimProtocol MayReturn MayRaise { jobs := jobs } (runFrom jobs events) :=
  Machine.disciplined_run exec_possible obeys_serve _ events

end Requests

end CreditScoringMlops.ControlPlane
