import CreditScoringMlops.ControlPlane.System

/-!
# Rules for the programs of the control plane

What the calls of the executor and a reconciliation perform and return, for any monitor without a
state. A development that watches their operations uses these rules by name and does not walk
through the programs again.
-/

namespace CreditScoringMlops.ControlPlane

open Python Interaction Program

/-- The operations of an apply. -/
def isApplying : Op → Bool
  | .applyCalled _ _ => true
  | .applyReturned _ _ => true
  | .manifestExists => true
  | .readManifest => true
  | .kubectlApply _ _ => true
  | _ => false

/-- They leave both tables alone. -/
theorem exec_of_isApplying {op : Op} (h : isApplying op) (i : ℕ) (env : Env) (w : World) :
    (exec i op env w).2.approvals = w.approvals ∧ (exec i op env w).2.audit = w.audit := by
  cases op with
  | kubectlApply name manifest =>
    simp only [exec]
    split <;> exact ⟨rfl, rfl⟩
  | _ => first | exact ⟨rfl, rfl⟩ | cases h

section Permitted

variable {A : Type} {allowed : Op → Prop} {m : Monitor Op Op.Reply Unit}

/-- A store call, if it is permitted. -/
theorem uses_store {op : StoreOp} (h : allowed (.store op)) : (store op).Uses allowed :=
  (uses_request h).bind fun _ => uses_ofExcept _

/-- Replacing the exception performs nothing. -/
theorem uses_rethrow {p : Handler A} (hp : p.Uses allowed) (handler : PyExc → PyExc) :
    (rethrow p handler).Uses allowed :=
  hp.attempt.bind fun _ => uses_ofExcept _

/-- A store call under a monitor without a state. -/
theorem permitted_store {op : StoreOp} {f : op.Result → Handler A}
    (h : m.may () (.store op))
    (hf : ∀ a, (f a).Obeys m (fun _ _ => True) (fun _ _ => True) ()) :
    (store op >>= f).Obeys m (fun _ _ => True) (fun _ _ => True) () := by
  rw [store, obeys_bind, obeys_bind]
  exact ⟨h, fun reply _ => obeys_ofExcept _ (fun a _ => hf a) fun _ _ => trivial⟩

/-- An audit record under such a monitor. -/
theorem permitted_record {event : AuditRecord} {f : AuditEvent → Handler A}
    (h : m.may () (.record event))
    (hf : ∀ a, (f a).Obeys m (fun _ _ => True) (fun _ _ => True) ()) :
    (record event >>= f).Obeys m (fun _ _ => True) (fun _ _ => True) () := by
  rw [record, obeys_bind, obeys_bind]
  exact ⟨h, fun reply _ => obeys_ofExcept _ (fun a _ => hf a) fun _ _ => trivial⟩

end Permitted

/-- The operations of an apply for an execution, which creates the Job of the execution. -/
def applies (id : Option String) : Op → Prop
  | .kubectlApply name _ => KubernetesExecutor.jobName (id.getD "") = .ok name
  | op => isApplying op

/-- They are operations of an apply. -/
theorem isApplying_of_applies {id : Option String} {op : Op} (h : applies id op) :
    isApplying op := by
  cases op <;> first | rfl | exact h

/-- Rendering the manifest reads it. -/
theorem renderManifest_uses (x : String) (id : Option String) :
    (KubernetesExecutor.renderManifest x).Uses (applies id) := by
  unfold KubernetesExecutor.renderManifest
  refine .bind (uses_request rfl) fun _ => .bind (uses_ofExcept _) fun _ => ?_
  refine .bind (uses_ofExcept _) fun _ => ?_
  split <;> trivial

/-- A result says whether it executed. -/
def SaysExecuted (result : Dict) : Prop := ∃ b, result.get? "executed" = some (.bool b)

/-- The body of an apply performs these operations only, and returns a result that says whether it
executed. -/
theorem obeys_applyBody_applies (executor : KubernetesExecutor) (approved : Bool)
    (id : Option String) :
    (executor.applyBody approved id).Obeys (.only (applies id))
      (fun _ result => SaysExecuted result) (fun _ _ => True) () := by
  have honError : ∀ exc, (KubernetesExecutor.onApplyError exc).Obeys (.only (applies id))
      (fun _ result => SaysExecuted result) (fun _ _ => True) () := by
    intro exc
    unfold KubernetesExecutor.onApplyError
    split
    · exact ⟨false, rfl⟩
    · trivial
  unfold KubernetesExecutor.applyBody
  split
  · exact ⟨false, rfl⟩
  split
  · trivial
  split
  · trivial
  rw [obeys_bind]
  refine ⟨rfl, fun found _ => ?_⟩
  change Obeys _ _ _ _ (if _ then _ else _)
  split
  · trivial
  rw [obeys_bind]
  refine obeys_ofExcept _ (fun name hname => ?_) fun _ _ => trivial
  unfold KubernetesExecutor.runKubectlApply
  have hkubectl : Program.Uses (applies id) (do
      let manifest ← KubernetesExecutor.renderManifest (id.getD "")
      ask (.kubectlApply name manifest)) :=
    .bind (renderManifest_uses _ id) fun _ => uses_request hname
  rw [obeys_bind, obeys_attempt]
  refine hkubectl.mono (fun _ ended _ => ?_) fun _ exc _ => honError exc
  cases ended with
  | timeout => trivial
  | failed => exact ⟨false, rfl⟩
  | raised failure => exact honError _
  | ok stdout => exact ⟨true, rfl⟩

/-- So does a whole apply. -/
theorem obeys_applyTrainingJob_applies (executor : KubernetesExecutor) (approved : Bool)
    (id : Option String) :
    (executor.applyTrainingJob approved id).Obeys (.only (applies id))
      (fun _ result => SaysExecuted result) (fun _ _ => True) () := by
  unfold KubernetesExecutor.applyTrainingJob
  rw [obeys_bind]
  refine ⟨rfl, fun _ _ => ?_⟩
  change Obeys _ _ _ _ (_ >>= _)
  rw [obeys_bind, obeys_attempt]
  refine (obeys_applyBody_applies executor approved id).mono (fun _ result hresult => ?_)
    fun _ exc _ => ⟨rfl, fun _ _ => trivial⟩
  exact ⟨rfl, fun _ _ => hresult⟩

/-- The operations of the body, whatever it ends with. -/
theorem applyBody_uses (executor : KubernetesExecutor) (approved : Bool) (id : Option String) :
    (executor.applyBody approved id).Uses fun op => isApplying op :=
  (obeys_applyBody_applies executor approved id).uses.weaken fun _ => isApplying_of_applies

/-- The operations of a whole apply. -/
theorem applyTrainingJob_uses (executor : KubernetesExecutor) (approved : Bool)
    (id : Option String) : (executor.applyTrainingJob approved id).Uses fun op => isApplying op :=
  (obeys_applyTrainingJob_applies executor approved id).uses.weaken fun _ => isApplying_of_applies

/-- What a status check returns does not say whether anything was executed. -/
theorem get?_classify {ended : KubectlGet} {result : Dict}
    (h : KubernetesExecutor.classify ended = .ok result) : result.get? "executed" = none := by
  cases ended with
  | timeout => cases h
  | raised failure =>
    cases failure with
    | fileNotFound message => cases h; rfl
    | _ => cases h
  | exited returncode stdout =>
    by_cases hcode : returncode = 0
    · subst hcode
      rw [KubernetesExecutor.classify_exited_zero] at h
      cases stdout with
      | error message => cases h
      | ok data =>
        simp only [Except.mapError, Except.bind] at h
        cases hstate : KubernetesExecutor.jobState data with
        | error exc => rw [hstate] at h; cases h
        | ok state => rw [hstate] at h; cases h; rfl
    · rw [KubernetesExecutor.classify_exited_of_ne_zero hcode] at h
      cases h
      rfl

/-- A status check asks for its Job and nothing else. -/
theorem obeys_getTrainingJobStatus_asking (executor : KubernetesExecutor) (name : String) :
    (executor.getTrainingJobStatus name).Obeys (.only fun op => op = .kubectlGet name)
      (fun _ result => result.get? "executed" = none) (fun _ _ => True) () := by
  unfold KubernetesExecutor.getTrainingJobStatus
  split
  · trivial
  · rw [obeys_bind]
    refine obeys_ofExcept _ (fun _ _ => ?_) fun _ _ => trivial
    rw [obeys_bind]
    exact ⟨rfl, fun ended _ => obeys_ofExcept _ (fun _ h => get?_classify h) fun _ _ => trivial⟩

/-- Whatever it ends with. -/
theorem getTrainingJobStatus_uses (executor : KubernetesExecutor) (name : String) :
    (executor.getTrainingJobStatus name).Uses fun op => op = .kubectlGet name :=
  (obeys_getTrainingJobStatus_asking executor name).uses

/-! ## Reconciliation -/

/-- The operations of a reconciliation other than its status check and its marks. -/
def isReconciling : Op → Bool
  | .store (.get _) => true
  | .store (.recoverStaleExecution _ _) => true
  | .record _ => true
  | _ => false

/-- A monitor permits the reconciliation of an approval, where `told` holds of the results of its
status check. -/
structure PermitsReconcile (m : Monitor Op Op.Reply Unit) (x : String) (told : Dict → Prop) :
    Prop where
  plain : ∀ op, isReconciling op → m.may () op
  check : m.may () (.kubectlGet (ReconciliationService.trainingJobName x))
  checked : ∀ ended result, m.possible (.kubectlGet (ReconciliationService.trainingJobName x)) ended →
    KubernetesExecutor.classify ended = .ok result → told result
  completed : ∀ result, told result → result.isStrAt "status" "completed" →
    m.may () (.store (.markCompleted x (ReconciliationService.reconciledResult true result)))
  failed : ∀ result, told result → result.isStrAt "status" "failed" →
    m.may () (.store (.markFailed x (ReconciliationService.reconciledResult false result)))

section Reconciliation

variable {m : Monitor Op Op.Reply Unit} {x : String} {told : Dict → Prop}

variable (h : PermitsReconcile m x told) (service : ReconciliationService)
include h

/-- The branches of `reconcile`. -/
theorem PermitsReconcile.recover (approval : ApprovalRequest) {result : Dict}
    (hresult : told result) :
    (service.recover x approval result).Obeys m (fun _ _ => True) (fun _ _ => True) () := by
  unfold ReconciliationService.recover
  split
  · rename_i hcompleted
    rw [← bind_ret (store _)]
    exact permitted_store
      (h.completed result hresult (Bool.and_eq_true_iff.mp hcompleted).2) fun _ => trivial
  split
  · rename_i hfailed
    rw [← bind_ret (store _)]
    exact permitted_store
      (h.failed result hresult (Bool.and_eq_true_iff.mp hfailed).2) fun _ => trivial
  split
  · refine permitted_store (h.plain _ rfl) fun (recovered, stale) => ?_
    cases stale
    · trivial
    · exact permitted_record (h.plain _ rfl) fun _ => trivial
  · exact permitted_store (h.plain _ rfl) fun _ => trivial

/-- A whole reconciliation. -/
theorem PermitsReconcile.reconcile :
    (service.reconcile x).Obeys m (fun _ _ => True) (fun _ _ => True) () := by
  unfold ReconciliationService.reconcile
  refine permitted_store (h.plain _ rfl) fun found => ?_
  cases found with
  | none => trivial
  | some approval =>
    change Obeys _ _ _ _ (if _ then _ else _)
    split
    · trivial
    refine permitted_record (h.plain _ rfl) fun _ => ?_
    unfold ReconciliationService.reconcileUncertain KubernetesExecutor.getTrainingJobStatus
    rw [obeys_bind]
    split
    · trivial
    rw [obeys_bind]
    refine obeys_ofExcept _ (fun _ _ => ?_) fun _ _ => trivial
    rw [obeys_bind]
    refine ⟨h.check, fun ended hended => obeys_ofExcept _ (fun result hresult => ?_)
      fun _ _ => trivial⟩
    rw [obeys_bind]
    refine (h.recover service approval (h.checked ended result hended hresult)).mono
      (fun _ recovered _ => ?_) fun _ _ _ => trivial
    exact permitted_record (h.plain _ rfl) fun _ => trivial

end Reconciliation

end CreditScoringMlops.ControlPlane
