import CreditScoringMlops.ControlPlane.ClaimProtocol

/-!
# Owners obey the claim protocol

One lemma for each function of the executor and of the owners of an execution, in the order in
which they call each other. The postconditions say where in the protocol a function ends; a
raised exception that is an illegal transition ends in a phase that remembers the refusal.
-/

namespace CreditScoringMlops.ControlPlane

open Python Interaction Program ClaimProtocol

variable {A : Type} {s : Phase}

/-- An illegal transition is only raised by a mark of the approval that the store has just
refused. -/
def Unhandled (x : String) (s : Phase) (exc : PyExc) : Prop :=
  isTransitionError exc → ∃ owner target, s = .refused owner (some (x, target))

/-- `rethrow` replaces the exception before the postcondition sees it. -/
theorem obeys_rethrow {S : Type} {m : Monitor Op Op.Reply S} {Q : S → A → Prop}
    {E : S → PyExc → Prop} {s : S} (p : Handler A) (handler : PyExc → PyExc) :
    Obeys m Q E s (rethrow p handler) ↔ Obeys m Q (fun s exc => E s (handler exc)) s p := by
  rw [rethrow, obeys_bind, obeys_attempt]
  rfl

section Steps

variable {E : Phase → PyExc → Prop}

/-- One operation. -/
theorem obeys_ask (op : Op) {Q : Phase → op.Reply → Prop} (hmay : May s op)
    (h : ∀ reply, Q (next s op reply) reply) : Obeys claimProtocol Q E s (ask op) :=
  ⟨hmay, fun reply _ => h reply⟩

/-- A store call. -/
theorem obeys_store (op : StoreOp) {Q : Phase → op.Result → Prop} (hmay : May s (.store op))
    (hok : ∀ a, Q (next s (.store op) (.ok a)) a)
    (herror : ∀ exc, (isTransitionError exc → op.canRefuse) →
      E (next s (.store op) (.error exc)) exc) :
    Obeys claimProtocol Q E s (store op) := by
  rw [store, obeys_bind]
  refine ⟨hmay, ?_⟩
  rintro (exc | a) hpossible
  · exact herror exc hpossible
  · exact hok a

/-- An audit record. -/
theorem obeys_record (event : AuditRecord) {Q : Phase → AuditEvent → Prop}
    (hmay : May s (.record event)) (hok : ∀ a, Q (next s (.record event) (.ok a)) a)
    (herror : ∀ exc, ¬isTransitionError exc → E (next s (.record event) (.error exc)) exc) :
    Obeys claimProtocol Q E s (record event) := by
  rw [record, obeys_bind]
  refine ⟨hmay, ?_⟩
  rintro (exc | a) hpossible
  · exact herror exc hpossible
  · exact hok a

/-- A mark is no claim. -/
theorem claimOf_of_marks {op : StoreOp} {mark : String × ApprovalStatus}
    (h : op.marks = some mark) : claimOf (.store op) = none := by
  cases op <;> simp [StoreOp.marks] at h <;> rfl

/-- A call that succeeds and is no claim moves on. -/
theorem next_store_ok {op : StoreOp} (h : claimOf (.store op) = none) (a : op.Result) :
    next s (.store op) (.ok a) = after s (.store op) (.ok a) := by
  simp only [next, h, refusal, Bool.false_eq_true, if_false]

/-- A mark that is refused is remembered. -/
theorem unhandled_mark {op : StoreOp} {x : String} {target : ApprovalStatus}
    (h : op.marks = some (x, target)) (exc : PyExc) :
    Unhandled x (next s (.store op) (.error exc)) exc := by
  intro htransition
  refine ⟨s.owner, target, ?_⟩
  simp only [next, claimOf_of_marks h, refusal, htransition, markOf, h, if_true]

/-- A call that cannot be refused is no illegal transition. -/
theorem unhandled_of_not_canRefuse {op : StoreOp} {x : String} {exc : PyExc}
    (h : isTransitionError exc → op.canRefuse) (hop : op.canRefuse = false) :
    Unhandled x s exc := fun htransition => by simp [hop] at h; simp [h] at htransition

end Steps

/-! ## The executor -/

section Executor

variable (executor : KubernetesExecutor) {route : Route} {x : String}

/-- Rendering the manifest stays in front of kubectl. -/
theorem obeys_renderManifest :
    Obeys claimProtocol (fun s _ => s = .applying route x none)
      (fun s _ => s = .applying route x none) (.applying route x none)
      (KubernetesExecutor.renderManifest x) := by
  unfold KubernetesExecutor.renderManifest
  rw [obeys_bind]
  refine obeys_ask _ .readManifest fun reply => ?_
  rw [obeys_bind]
  refine obeys_ofExcept _ (fun manifest _ => ?_) fun _ _ => rfl
  rw [obeys_bind]
  refine obeys_ofExcept _ (fun name _ => ?_) fun _ _ => rfl
  split <;> rfl

/-- The apply ends as the protocol allows. -/
theorem obeys_runKubectlApply {name : String} (hname : KubernetesExecutor.jobName x = .ok name) :
    Obeys claimProtocol
      (fun s d => ∃ ended, s = .applying route x ended ∧ Returns ended (.ok d))
      (fun s exc => ∃ ended, s = .applying route x ended ∧ Returns ended (.error exc))
      (.applying route x none) (executor.runKubectlApply name x) := by
  have honError : ∀ (ended : Option KubectlApply) (exc : PyExc),
      (∀ stdout, ended ≠ some (.ok stdout)) →
      Obeys claimProtocol
        (fun s d => ∃ ended, s = .applying route x ended ∧ Returns ended (.ok d))
        (fun s exc => ∃ ended, s = .applying route x ended ∧ Returns ended (.error exc))
        (.applying route x ended) (KubernetesExecutor.onApplyError exc) := by
    intro ended exc hended
    unfold KubernetesExecutor.onApplyError
    split
    · exact ⟨ended, rfl, .notExecuted hended _⟩
    · exact ⟨ended, rfl, .raised hended _⟩
  unfold KubernetesExecutor.runKubectlApply
  rw [obeys_bind, obeys_attempt, obeys_bind]
  refine obeys_renderManifest.mono ?_ ?_
  · rintro _ manifest rfl
    refine obeys_ask _ (.kubectlApply manifest hname) fun ended => ?_
    cases ended with
    | timeout => exact ⟨_, rfl, .raised (by simp) _⟩
    | failed => exact ⟨_, rfl, .notExecuted (by simp) _⟩
    | raised failure => exact honError _ _ (by simp)
    | ok stdout => exact ⟨_, rfl, .executed stdout rfl⟩
  · rintro _ exc rfl
    exact honError none exc (by simp)

/-- The body of an approved apply ends as the protocol allows. -/
theorem obeys_applyBody :
    Obeys claimProtocol
      (fun s d => ∃ ended, s = .applying route x ended ∧ Returns ended (.ok d))
      (fun s exc => ∃ ended, s = .applying route x ended ∧ Returns ended (.error exc))
      (.applying route x none) (executor.applyBody true (some x)) := by
  have hraise : ∀ exc : PyExc, ∃ ended, Phase.applying route x none = .applying route x ended ∧
      Returns ended (.error exc) := fun exc => ⟨none, rfl, .raised (by simp) exc⟩
  simp only [KubernetesExecutor.applyBody, Option.getD_some, Bool.not_true, Bool.false_eq_true,
    if_false]
  by_cases hnamespace : executor.namespace ≠ "ai-engineering"
  · rw [if_pos hnamespace]
    exact hraise _
  rw [if_neg hnamespace]
  by_cases hempty : x = ""
  · rw [if_pos hempty]
    exact hraise _
  rw [if_neg hempty, obeys_bind]
  refine obeys_ask _ .manifestExists fun found => ?_
  cases found
  · exact hraise _
  · change Obeys _ _ _ _ (ofExcept (KubernetesExecutor.jobName x) >>= _)
    rw [obeys_bind]
    refine obeys_ofExcept _ (fun name hname => ?_) fun exc _ => hraise exc
    exact obeys_runKubectlApply executor hname

/-- A whole apply: from a phase that permits it to the phase that holds its result. -/
theorem obeys_applyTrainingJob {Q : Phase → Dict → Prop} {E : Phase → PyExc → Prop}
    (hmay : May s (.applyCalled true (some x)))
    (hnext : next s (.applyCalled true (some x)) () = .applying route x none)
    (hok : ∀ ended d, Returns ended (.ok d) → Q (.applied route x (.ok d)) d)
    (herror : ∀ exc, E (.applied route x (.error exc)) exc) :
    Obeys claimProtocol Q E s (executor.applyTrainingJob true (some x)) := by
  unfold KubernetesExecutor.applyTrainingJob
  rw [obeys_bind]
  refine obeys_ask _ hmay fun _ => ?_
  rw [hnext, obeys_bind, obeys_attempt]
  refine (obeys_applyBody executor).mono ?_ ?_
  · rintro _ d ⟨ended, rfl, hreturns⟩
    rw [obeys_bind]
    exact obeys_ask _ (.applyReturned hreturns) fun _ => hok ended d hreturns
  · rintro _ exc ⟨ended, rfl, hreturns⟩
    rw [obeys_bind]
    exact obeys_ask _ (.applyReturned hreturns) fun _ => herror exc

/-- A status check: what it returns or raises is the classification of what kubectl did, unless
it raises before kubectl runs. -/
theorem obeys_getTrainingJobStatus {name : String} {Q : Phase → Dict → Prop}
    {E : Phase → PyExc → Prop} (hmay : May s (.kubectlGet name))
    (hok : ∀ ended result, KubernetesExecutor.classify ended = .ok result →
      Q (next s (.kubectlGet name) ended) result)
    (herror : ∀ ended exc, KubernetesExecutor.classify ended = .error exc →
      E (next s (.kubectlGet name) ended) exc)
    (hearly : ∀ exc, ¬isTransitionError exc → E s exc) :
    Obeys claimProtocol Q E s (executor.getTrainingJobStatus name) := by
  unfold KubernetesExecutor.getTrainingJobStatus
  by_cases hnamespace : executor.namespace ≠ "ai-engineering"
  · rw [if_pos hnamespace]
    exact hearly _ (by simp [isTransitionError])
  rw [if_neg hnamespace, obeys_bind]
  refine obeys_ofExcept _ (fun _ _ => ?_) fun exc hexc => ?_
  · rw [obeys_bind]
    exact obeys_ask _ hmay fun ended => obeys_ofExcept _ (hok ended) (herror ended)
  · unfold KubernetesExecutor.validateJobName at hexc
    split at hexc <;> cases hexc
    exact hearly _ (by simp [isTransitionError])

/-- For the results of the executor, being executed and being executed exactly are the same. -/
theorem truthyAt_executed {ended : Option KubectlApply} {d : Dict}
    (h : Returns ended (.ok d)) : d.truthyAt "executed" = d.isTrueAt "executed" := by
  cases h with
  | executed stdout h => rw [h, Dict.truthyAt_of_isTrueAt h]
  | notExecuted hended reason => rfl

/-- A status object that cannot be read never raises an illegal transition. -/
theorem jobState_error {data : Json} {exc : PyExc}
    (h : KubernetesExecutor.jobState data = .error exc) : ¬isTransitionError exc := by
  have hdict : ∀ value, KubernetesExecutor.asDict value = .error exc → ¬isTransitionError exc := by
    intro value hvalue
    cases value <;> cases hvalue <;> simp [isTransitionError]
  have hzero : ∀ value, KubernetesExecutor.exceedsZero value = .error exc →
      ¬isTransitionError exc := by
    intro value hvalue
    cases value <;> cases hvalue <;> simp [isTransitionError]
  unfold KubernetesExecutor.jobState at h
  obtain h | ⟨fields, -, h⟩ := bind_eq_error.mp h
  · exact hdict _ h
  obtain h | ⟨status, -, h⟩ := bind_eq_error.mp h
  · exact hdict _ h
  split at h
  · cases h
  · obtain h | ⟨failed, -, h⟩ := bind_eq_error.mp h
    · exact hzero _ h
    · cases failed <;> cases h

/-- A status check never raises an illegal transition. -/
theorem classify_error {ended : KubectlGet} {exc : PyExc}
    (h : KubernetesExecutor.classify ended = .error exc) : ¬isTransitionError exc := by
  cases ended with
  | timeout => cases h; simp [isTransitionError]
  | raised failure => cases failure <;> cases h <;> simp [isTransitionError, SystemFailure.exc]
  | exited returncode stdout =>
    by_cases hcode : returncode = 0
    · subst hcode
      rw [KubernetesExecutor.classify_exited_zero] at h
      cases stdout with
      | error message => cases h; simp [isTransitionError]
      | ok data =>
        simp only [Except.mapError, Except.bind] at h
        cases hstate : KubernetesExecutor.jobState data with
        | error exc' => rw [hstate] at h; cases h; exact jobState_error hstate
        | ok state => rw [hstate] at h; cases h
    · rw [KubernetesExecutor.classify_exited_of_ne_zero hcode] at h
      cases h

end Executor

/-! ## Owners -/

section Owners

variable {route : Route} {x : String}

/-- The close of an execution. -/
theorem obeys_close {op : StoreOp} {result : Except PyExc Dict} {Q : Phase → op.Result → Prop}
    (h : op.marks = some (x, closingStatus route result)) (hok : ∀ a, Q (.closed route x) a) :
    Obeys claimProtocol Q (Unhandled x) (.applied route x result) (store op) := by
  refine obeys_store op (.close h) (fun a => ?_) fun exc _ => unhandled_mark h exc
  rw [next_store_ok (claimOf_of_marks h)]
  exact hok a

/-- The audit after the close. -/
theorem obeys_audit (event : AuditRecord) {Q : Phase → AuditEvent → Prop}
    (hok : ∀ a, Q (.closed route x) a) :
    Obeys claimProtocol Q (Unhandled x) (.closed route x) (record event) :=
  obeys_record event (.audit event) hok fun _ h htransition => absurd htransition h

/-- `executeOwned` of the approval service. -/
theorem obeys_approvalService_executeOwned (service : ApprovalService)
    (request : ApprovalRequest) :
    Obeys claimProtocol (fun _ _ => True) (Unhandled x) (.owns .execute x)
      (service.executeOwned x request) := by
  unfold ApprovalService.executeOwned
  rw [obeys_bind, obeys_attempt]
  refine obeys_applyTrainingJob _ .applyFirst rfl (fun ended d hreturns => ?_) fun exc => ?_
  · change Obeys _ _ _ _ (if (!d.truthyAt "executed") = true then _ else _)
    rw [truthyAt_executed hreturns]
    cases hexecuted : d.isTrueAt "executed" with
    | false =>
      exact obeys_close (by simp [StoreOp.marks, closingStatus, hexecuted]) fun _ => trivial
    | true => exact obeys_close (by simp [StoreOp.marks, closingStatus, hexecuted]) fun _ => trivial
  · cases exc <;> exact obeys_close rfl fun _ => trivial

/-- `executeOwned` of the agent service. -/
theorem obeys_agentService_executeOwned (service : AgentService) (approval : ApprovalRequest) :
    Obeys claimProtocol (fun _ _ => True) (Unhandled x) (.owns .execute x)
      (service.executeOwned x approval) := by
  have hfailed : ∀ (failure : Dict) (exc : PyExc) (event : AuditRecord),
      closingStatus .execute (.error exc) = .failed →
      Obeys claimProtocol (fun _ _ => True) (Unhandled x) (.applied .execute x (.error exc))
        (do
          let _ ← store (.markFailed x failure)
          let _ ← record event
          raise (.httpException 500 "Execution failed") : Handler ApprovalRequest) := by
    intro failure exc event hclosing
    rw [obeys_bind]
    refine obeys_close (by rw [hclosing]; rfl) fun _ => ?_
    rw [obeys_bind]
    exact obeys_audit event fun _ h => by simp [isTransitionError] at h
  unfold AgentService.executeOwned
  rw [obeys_bind, obeys_attempt]
  refine obeys_applyTrainingJob _ .applyFirst rfl (fun ended d hreturns => ?_) fun exc => ?_
  · change Obeys _ _ _ _ (if d.isTrueAt "executed" = true then _ else _)
    cases hexecuted : d.isTrueAt "executed" with
    | false =>
      rw [if_neg (by simp), obeys_bind]
      refine obeys_close (by simp [StoreOp.marks, closingStatus, hexecuted]) fun _ => ?_
      rw [obeys_bind]
      exact obeys_audit _ fun _ => trivial
    | true =>
      rw [if_pos rfl, obeys_bind]
      refine obeys_close (by simp [StoreOp.marks, closingStatus, hexecuted]) fun _ => ?_
      rw [obeys_bind]
      exact obeys_audit _ fun _ => trivial
  · cases exc with
    | kubernetesExecutionUnknown message =>
      change Obeys _ _ _ _ (store _ >>= _)
      rw [obeys_bind]
      refine obeys_close rfl fun _ => ?_
      rw [obeys_bind]
      exact obeys_audit _ fun _ => trivial
    | _ => exact hfailed _ _ _ rfl

/-- An audit record by the owner of a retry that has read the Job. -/
theorem obeys_note {status : Except PyExc Dict} (event : AuditRecord)
    {Q : Phase → AuditEvent → Prop} (hok : ∀ a, Q (.seen x status) a) :
    Obeys claimProtocol Q (Unhandled x) (.seen x status) (record event) :=
  obeys_record event (.note event) hok fun _ h htransition => absurd htransition h

/-- `retry_if_absent` when the Job turns out to be finished. -/
theorem obeys_retryFinished {status : Except PyExc Dict} (approval : ApprovalRequest)
    (result : Dict) {mark : Handler ApprovalRequest}
    (hmark : Obeys claimProtocol (fun s _ => s = .closed .retry x) (Unhandled x) (.seen x status)
      mark) :
    Obeys claimProtocol (fun _ _ => True) (Unhandled x) (.seen x status)
      (ReconciliationService.retryFinished approval result mark) := by
  unfold ReconciliationService.retryFinished
  rw [obeys_bind]
  refine hmark.mono ?_ fun _ _ h => h
  rintro _ recovered rfl
  rw [obeys_bind]
  exact obeys_audit _ fun _ => trivial

variable (service : ReconciliationService)

/-- `retry_if_absent` when the Job is absent. -/
theorem obeys_retryApply (approval : ApprovalRequest) {result : Dict}
    (h : reportsAbsent result) :
    Obeys claimProtocol (fun _ _ => True) (Unhandled x) (.seen x (.ok result))
      (service.retryApply x approval result) := by
  unfold ReconciliationService.retryApply
  rw [obeys_bind]
  refine obeys_note _ fun _ => ?_
  rw [obeys_bind, obeys_attempt]
  refine obeys_applyTrainingJob _ (.applyAgain h) rfl (fun ended d hreturns => ?_) fun exc => ?_
  · change Obeys _ _ _ _ (if d.isTrueAt "executed" = true then _ else _)
    cases hexecuted : d.isTrueAt "executed" with
    | false =>
      exact obeys_close (by simp [StoreOp.marks, closingStatus, hexecuted]) fun _ => trivial
    | true => exact obeys_close (by simp [StoreOp.marks, closingStatus, hexecuted]) fun _ => trivial
  · exact obeys_close rfl fun _ => trivial

/-- The branches of `retry_if_absent`. -/
theorem obeys_retryBranch (approval claimed : ApprovalRequest) (result : Dict) :
    Obeys claimProtocol (fun _ _ => True) (Unhandled x) (.seen x (.ok result))
      (service.retryBranch x approval claimed result) := by
  unfold ReconciliationService.retryBranch
  split
  · rename_i hcompleted
    exact obeys_retryFinished approval result <|
      obeys_store _ (.retryComplete hcompleted) (fun _ => rfl) fun exc _ => unhandled_mark rfl exc
  split
  · rename_i hfailed
    exact obeys_retryFinished approval result <|
      obeys_store _ (.retryFail hfailed) (fun _ => rfl) fun exc _ => unhandled_mark rfl exc
  split
  · rw [obeys_bind]
    refine obeys_note _ fun _ => ?_
    rw [obeys_bind]
    exact obeys_store _ .reread (fun _ => trivial) fun _ h => unhandled_of_not_canRefuse h rfl
  split
  · exact obeys_store _ (.retryUnclear _) (fun _ => trivial) fun exc _ => unhandled_mark rfl exc
  · rename_i habsent
    exact obeys_retryApply service approval (by simpa [reportsAbsent] using habsent)

/-- `retry_if_absent` for the owner. -/
theorem obeys_retryOwned (approval claimed : ApprovalRequest) :
    Obeys claimProtocol (fun _ _ => True) (Unhandled x) (.owns .retry x)
      (service.retryOwned x approval claimed) := by
  unfold ReconciliationService.retryOwned
  rw [obeys_bind]
  refine obeys_record _ (.announce _) (fun _ => ?_) fun _ h htransition => absurd htransition h
  rw [obeys_bind, obeys_attempt]
  refine obeys_getTrainingJobStatus _ .inspect (fun ended result h => ?_)
    (fun ended exc h => ?_) fun exc h => ?_
  · change Obeys _ _ _ (Phase.seen x (KubernetesExecutor.classify ended)) _
    rw [h]
    exact obeys_retryBranch service approval claimed result
  · exact obeys_store _ (.retryUnclear _) (fun _ => trivial) fun exc _ => unhandled_mark rfl exc
  · exact obeys_store _ (.giveUp _) (fun _ => trivial) fun exc _ => unhandled_mark rfl exc

/-- `retry_if_absent`. -/
theorem obeys_retryIfAbsent :
    Obeys claimProtocol (fun _ _ => True) (Unhandled x) (.free {}) (service.retryIfAbsent x) := by
  unfold ReconciliationService.retryIfAbsent
  rw [obeys_bind]
  refine obeys_store _ (.read rfl rfl) (fun found => ?_) fun _ h => unhandled_of_not_canRefuse h rfl
  cases found with
  | none => exact fun h => by simp [isTransitionError] at h
  | some approval =>
    change Obeys _ _ _ (Phase.free _) (if _ then _ else _)
    split
    · trivial
    · rw [obeys_bind]
      refine obeys_store _ (.claim .retry x rfl) (fun reply => ?_)
        fun _ h => unhandled_of_not_canRefuse h rfl
      obtain ⟨claimed, owns⟩ := reply
      cases owns
      · trivial
      · exact obeys_retryOwned service approval claimed

end Owners

end CreditScoringMlops.ControlPlane
