import CreditScoringMlops.ControlPlane.ClaimHistory
import CreditScoringMlops.ControlPlane.ProgramRules
import CreditScoringMlops.Interaction.Contract

/-!
# Contracts of the control plane

One rule for each way in which the programs perform their operations, for any contract: a single
operation, a store call, an audit record, a status check, and a whole apply, whose operations
leave both tables alone.
-/

namespace CreditScoringMlops.ControlPlane

open Python Interaction Program

section Rules

variable {A : Type} {i : ℕ} {c : Contract Op Op.Reply Env World} {h : List LogEntry} {w : World}
  {E : List LogEntry → World → PyExc → Prop}

/-- One operation. -/
theorem ensures_ask (op : Op) {Q : List LogEntry → World → op.Reply → Prop} (halways : c.always h)
    (hstep : ∀ w' env, c.rely w w' → c.given (system.entry i env op w') →
      c.always (h ++ [system.entry i env op w']) ∧
        Q (h ++ [system.entry i env op w']) (exec i op env w').2 (exec i op env w').1) :
    system.Ensures i c Q E h w (ask op) :=
  ⟨halways, hstep⟩

/-- A store call returns or raises. -/
theorem ensures_store (op : StoreOp) {Q : List LogEntry → World → op.Result → Prop}
    (halways : c.always h)
    (hstep : ∀ w' env, c.rely w w' → c.given (system.entry i env (.store op) w') →
      c.always (h ++ [system.entry i env (.store op) w']) ∧
      (∀ a, (exec i (.store op) env w').1 = .ok a →
        Q (h ++ [system.entry i env (.store op) w']) (exec i (.store op) env w').2 a) ∧
      ∀ exc, (exec i (.store op) env w').1 = .error exc →
        E (h ++ [system.entry i env (.store op) w']) (exec i (.store op) env w').2 exc) :
    system.Ensures i c Q E h w (store op) := by
  rw [store, Machine.ensures_bind]
  refine ensures_ask _ halways fun w' env hrely hgiven => ?_
  obtain ⟨hnext, hok, herror⟩ := hstep w' env hrely hgiven
  exact ⟨hnext, Machine.ensures_ofExcept hnext hok herror⟩

/-- So does an audit record. -/
theorem ensures_record (event : AuditRecord) {Q : List LogEntry → World → AuditEvent → Prop}
    (halways : c.always h)
    (hstep : ∀ w' env, c.rely w w' → c.given (system.entry i env (.record event) w') →
      c.always (h ++ [system.entry i env (.record event) w']) ∧
      (∀ a, (exec i (.record event) env w').1 = .ok a →
        Q (h ++ [system.entry i env (.record event) w']) (exec i (.record event) env w').2 a) ∧
      ∀ exc, (exec i (.record event) env w').1 = .error exc →
        E (h ++ [system.entry i env (.record event) w']) (exec i (.record event) env w').2 exc) :
    system.Ensures i c Q E h w (record event) := by
  rw [record, Machine.ensures_bind]
  refine ensures_ask _ halways fun w' env hrely hgiven => ?_
  obtain ⟨hnext, hok, herror⟩ := hstep w' env hrely hgiven
  exact ⟨hnext, Machine.ensures_ofExcept hnext hok herror⟩

/-- `rethrow` replaces the exception before the postcondition sees it. -/
theorem ensures_rethrow {Q : List LogEntry → World → A → Prop} (p : Handler A)
    (handler : PyExc → PyExc) :
    system.Ensures i c Q E h w (rethrow p handler) ↔
      system.Ensures i c Q (fun h w exc => E h w (handler exc)) h w p := by
  rw [rethrow, Machine.ensures_bind, Machine.ensures_attempt]
  refine ⟨fun hp => hp.mono (fun _ _ _ _ ha => ha.2) fun _ _ _ _ he => he.2,
    fun hp => hp.mono (fun _ _ _ halways ha => ⟨halways, ha⟩) fun _ _ _ halways he => ⟨halways, he⟩⟩

/-- A status check asks kubectl once, if the namespace and the name of the Job are right. -/
theorem ensures_getTrainingJobStatus (executor : KubernetesExecutor) (name : String)
    {Q : List LogEntry → World → Dict → Prop} (halways : c.always h)
    (hearly : executor.namespace ≠ "ai-engineering" ∨
      KubernetesExecutor.validateJobName name ≠ .ok () → ∀ exc, E h w exc)
    (hstep : KubernetesExecutor.validateJobName name = .ok () → ∀ w' env, c.rely w w' →
      c.given (system.entry i env (.kubectlGet name) w') →
      c.always (h ++ [system.entry i env (.kubectlGet name) w']) ∧
      (∀ result, KubernetesExecutor.classify env.kubectlGet = .ok result →
        Q (h ++ [system.entry i env (.kubectlGet name) w']) w' result) ∧
      ∀ exc, KubernetesExecutor.classify env.kubectlGet = .error exc →
        E (h ++ [system.entry i env (.kubectlGet name) w']) w' exc) :
    system.Ensures i c Q E h w (executor.getTrainingJobStatus name) := by
  unfold KubernetesExecutor.getTrainingJobStatus
  by_cases hnamespace : executor.namespace ≠ "ai-engineering"
  · rw [if_pos hnamespace]
    exact ⟨halways, hearly (.inl hnamespace) _⟩
  rw [if_neg hnamespace, Machine.ensures_bind]
  refine Machine.ensures_ofExcept halways (fun _ hvalid => ?_) fun exc hexc => ?_
  · rw [Machine.ensures_bind]
    refine ensures_ask _ halways fun w' env hrely hgiven => ?_
    obtain ⟨hnext, hok, herror⟩ := hstep hvalid w' env hrely hgiven
    exact ⟨hnext, Machine.ensures_ofExcept hnext hok herror⟩
  · exact hearly (.inr (by simp [hexc])) exc

/-- A whole apply keeps what its operations keep, and ends as its mark says. -/
theorem ensures_applyTrainingJob (executor : KubernetesExecutor) (approved : Bool)
    (id : Option String) {I : List LogEntry → World → Prop} {Q : List LogEntry → World → Dict → Prop}
    (halways : ∀ h w, I h w → c.always h)
    (hkeep : ∀ h w w' op env, isApplying op → I h w → c.rely w w' →
      c.given (system.entry i env op w') →
        I (h ++ [system.entry i env op w']) (exec i op env w').2)
    (hok : ∀ h w result, I h w → Q h w result)
    (herror : ∀ h w env exc, c.given (system.entry i env (.applyReturned id (.error exc)) w) →
      I h w → E h w exc)
    (hI : I h w) : system.Ensures i c Q E h w (executor.applyTrainingJob approved id) := by
  have hbody : ∀ h w, I h w → system.Ensures i c (fun h w _ => I h w) (fun h w _ => I h w) h w
      (executor.applyBody approved id) := fun h w hI =>
    (Machine.ensures_of_obeys (applyBody_uses executor approved id)
      (I := fun _ h w => I h w) (fun _ => halways)
      (fun _ h w w' op env hop hI hrely hgiven =>
        ⟨trivial, hkeep h w w' op env hop hI hrely hgiven⟩) hI).mono
      (fun _ _ _ _ ⟨_, _, hI⟩ => hI) fun _ _ _ _ ⟨_, _, hI⟩ => hI
  have hreturn : ∀ h w result, I h w → system.Ensures i c Q E h w (do
      ask (.applyReturned id result)
      ofExcept result) := by
    intro h w result hI
    rw [Machine.ensures_bind]
    refine ensures_ask _ (halways _ _ hI) fun w' env hrely hgiven => ?_
    have hnext := hkeep h w w' _ env rfl hI hrely hgiven
    refine ⟨halways _ _ hnext, Machine.ensures_ofExcept (halways _ _ hnext) ?_ ?_⟩
    · exact fun a _ => hok _ _ a hnext
    · rintro exc rfl
      exact herror _ _ env exc hgiven hnext
  unfold KubernetesExecutor.applyTrainingJob
  rw [Machine.ensures_bind]
  refine ensures_ask _ (halways _ _ hI) fun w' env hrely hgiven => ?_
  have hnext := hkeep h w w' _ env rfl hI hrely hgiven
  refine ⟨halways _ _ hnext, ?_⟩
  rw [Machine.ensures_bind, Machine.ensures_attempt]
  exact (hbody _ _ hnext).mono (fun _ _ _ _ hI => hreturn _ _ _ hI)
    fun _ _ _ _ hI => hreturn _ _ _ hI

end Rules

end CreditScoringMlops.ControlPlane
