import CreditScoringMlops.Interaction.Guarantee
import CreditScoringMlops.Training.TrainingScripts

/-!
# What the scripts guarantee each other

Every run that is finished under the name of a model family has its metric and a registered version,
and the champion is a version of such a run. A script logs only to runs that it has opened itself,
and closes them; nobody changes a run that is closed. These are the guarantees under which the
scripts run side by side.
-/

namespace CreditScoringMlops.Training

open Python Interaction Machine Data Promotion

/-- Entries of the traces. -/
abbrev LogEntry := Entry Op Op.Reply Env World

/-- Events of the runs. -/
abbrev TrainingEvent := Event Env Request

/-! ## The agreement -/

/-- The names of the runs of the model families, and the names of their registered models. -/
def families : List (String × String) :=
  [("catboost_baseline", "CreditScoringCatBoost"), ("lightgbm_baseline", "CreditScoringLightGBM"),
    ("xgboost_baseline", "CreditScoringXGBoost")]

/-- A run of a family has its metric, and a version of the model of the family. -/
def Registered (r : Registry) (run : MlflowRun) : Prop :=
  ∀ family ∈ families, run.runName = some family.1 →
    (run.metrics.get? PromoteModel.metricName).isSome ∧
      ∃ v ∈ r.modelVersions.items, v.name = family.2 ∧ v.runId = some run.runId

/-- A version comes from a finished run of the family that is promoted, with a positive metric. -/
def IsTrained (r : Registry) (v : ModelVersion) : Prop :=
  ∃ run, v.runId = some run.runId ∧ r.run? run.runId = some run ∧ run.status = .finished ∧
    run.runName = some PromoteModel.targetRunName ∧
    (run.metrics.get? PromoteModel.metricName).any PyFloat.positive

/-- The invariant. -/
structure Tracked (w : World) : Prop where
  owned : ∀ runId i, w.owner runId = some i → (w.registry.run? runId).isSome
  registered : ∀ runId run, w.registry.run? runId = some run → run.status = .finished →
    Registered w.registry run
  champion : ∀ version,
    w.registry.aliases PromoteModel.modelName PromoteModel.modelAlias = some version →
      ∃ v, w.registry.modelVersion? PromoteModel.modelName version = some v ∧
        IsTrained w.registry v

/-- A process has opened the run, and it is as given. -/
structure Mine (i : ℕ) (run : MlflowRun) (w : World) : Prop where
  owner : w.owner run.runId = some i
  found : w.registry.run? run.runId = some run

/-- What every operation has to be. -/
def right : LogEntry → Prop
  | ⟨i, _, .logMetrics runId _, _, w, _⟩ => ∃ run, run.runId = runId ∧ Mine i run w ∧
      run.status = .running
  | ⟨i, _, .endRun runId status, _, w, _⟩ => ∃ run, run.runId = runId ∧ Mine i run w ∧
      run.status = .running ∧ (status = .finished → Registered w.registry run)
  | ⟨_, _, .client (.setRegisteredModelAlias name _ version), _, w, _⟩ =>
      ∃ v, w.registry.modelVersion? name version = some v ∧ IsTrained w.registry v
  | _ => True

/-- What a process relies on. -/
structure Rely (i : ℕ) (w w' : World) : Prop where
  closed : ∀ runId run, w.registry.run? runId = some run → run.status ≠ .running →
    w'.registry.run? runId = some run
  owner : ∀ runId, w.owner runId = some i → w'.owner runId = some i
  own : ∀ runId, w.owner runId = some i → w'.registry.run? runId = w.registry.run? runId
  versions : ∀ v ∈ w.registry.modelVersions.items, v ∈ w'.registry.modelVersions.items

/-- The agreement of the scripts. -/
def agreement : Agreement Op Op.Reply Env World where
  right := right
  invariant := Tracked
  rely := Rely

/-- No run has changed. -/
theorem Rely.of_eq {i : ℕ} {w w' : World} (hruns : w'.registry.runs = w.registry.runs)
    (howner : w'.owner = w.owner)
    (hversions : ∀ v ∈ w.registry.modelVersions.items, v ∈ w'.registry.modelVersions.items) :
    Rely i w w' := by
  have hrun (runId : String) : w'.registry.run? runId = w.registry.run? runId :=
    congrArg (Keyed.find? · runId) hruns
  exact ⟨fun runId _ h _ => (hrun runId).trans h, fun _ h => howner ▸ h, fun runId _ => hrun runId,
    hversions⟩

/-- Nothing has changed. -/
theorem Rely.refl (i : ℕ) (w : World) : Rely i w w := .of_eq rfl rfl fun _ h => h

/-- One change after the other. -/
theorem Rely.trans {i : ℕ} {a b c : World} (hab : Rely i a b) (hbc : Rely i b c) : Rely i a c where
  closed runId run hrun hstatus := hbc.closed runId run (hab.closed runId run hrun hstatus) hstatus
  owner runId h := hbc.owner runId (hab.owner runId h)
  own runId h := (hbc.own runId (hab.owner runId h)).trans (hab.own runId h)
  versions v h := hbc.versions v (hab.versions v h)

/-- A process keeps what is its own. -/
theorem Mine.rely {i : ℕ} {run : MlflowRun} {w w' : World} (h : Mine i run w)
    (hrely : Rely i w w') : Mine i run w' :=
  ⟨hrely.owner _ h.owner, (hrely.own _ h.owner).trans h.found⟩

/-- Registration lasts. -/
theorem Registered.mono {r r' : Registry} {run : MlflowRun} (h : Registered r run)
    (hversions : ∀ v ∈ r.modelVersions.items, v ∈ r'.modelVersions.items) : Registered r' run := by
  intro family hfamily hname
  obtain ⟨hmetric, v, hv, hversion⟩ := h family hfamily hname
  exact ⟨hmetric, v, hversions v hv, hversion⟩

/-- So does what a finished run has trained. -/
theorem IsTrained.mono {r r' : Registry} {v : ModelVersion} (h : IsTrained r v)
    (hclosed : ∀ runId run, r.run? runId = some run → run.status ≠ .running →
      r'.run? runId = some run) : IsTrained r' v := by
  obtain ⟨run, hrunId, hrun, hfinished, hrest⟩ := h
  exact ⟨run, hrunId, hclosed _ _ hrun (by simp [hfinished]), hfinished, hrest⟩

/-! ## What an operation changes -/

/-- What an operation of process `i` can have changed. -/
inductive Change (i : ℕ) : Op → World → World → Prop where
  | none {op : Op} (w : World) : Change i op w w
  | experiment {name : String} (w : World) (experiments : String → Option String) :
      Change i (.setExperiment name) w { w with registry := { w.registry with experiments } }
  | started {experimentId runName : String} (w : World) (run : MlflowRun)
      (hnew : w.registry.run? run.runId = .none) (hstatus : run.status = .running) :
      Change i (.startRun experimentId runName) w
        { registry := { w.registry with runs := w.registry.runs.insert run }
          owner := fun runId => if runId = run.runId then some i else w.owner runId }
  | metrics {runId : String} {metrics : Metrics} (w : World) :
      Change i (.logMetrics runId metrics) w
        { w with registry := updateRun w.registry runId (logged metrics) fun _ => rfl }
  | ended {runId : String} {status : RunStatus} (w : World) :
      Change i (.endRun runId status) w
        { w with registry := updateRun w.registry runId (inStatus status) fun _ => rfl }
  | version {runId name : String} (w : World) (v : ModelVersion) :
      Change i (.logModel runId name) w { w with registry :=
        { w.registry with modelVersions := w.registry.modelVersions.insert v } }
  | aliased {name modelAlias version : String} (w : World) :
      Change i (.client (.setRegisteredModelAlias name modelAlias version)) w
        { w with registry := w.registry.setAlias name modelAlias version }

/-- A call has had its effect or none. -/
theorem withFault_snd {A : Type} {P : World → Prop} {env : Env} {w : World}
    {result : Except PyExc (A × World)} (hw : P w)
    (hresult : ∀ a after, result = .ok (a, after) → P after) : P (withFault env w result).2 := by
  cases result with
  | error exc => exact hw
  | ok x =>
    have hafter := hresult x.1 x.2 rfl
    unfold withFault
    split
    · exact hw
    · rename_i heq _
      cases heq
      exact hafter
    · rename_i heq _
      cases heq
      split
      · exact hafter
      · exact hw

variable {server : MlflowServer}

/-- An operation changes one thing at most. -/
theorem exec_change (hserver : server.Documented) (i : ℕ) (op : Op) (env : Env) (w : World) :
    Change i op w (exec server i op env w).2 := by
  cases op with
  | setExperiment name =>
    refine withFault_snd (.none w) fun a after hafter => ?_
    unfold execSetExperiment at hafter
    split at hafter <;> cases hafter
    · exact .none w
    · exact .experiment w _
  | startRun experimentId runName =>
    refine withFault_snd (.none w) fun a after hafter => ?_
    unfold execStartRun at hafter
    split at hafter
    · cases hafter
    · rename_i hnew
      cases hafter
      exact .started w _ hnew rfl
  | logParams runId =>
    refine withFault_snd (.none w) fun a after hafter => ?_
    unfold execFind at hafter
    split at hafter <;> cases hafter
    exact .none w
  | logMetrics runId metrics =>
    refine withFault_snd (.none w) fun a after hafter => ?_
    unfold execUpdate at hafter
    split at hafter <;> cases hafter
    exact .metrics w
  | endRun runId status =>
    refine withFault_snd (.none w) fun a after hafter => ?_
    unfold execUpdate at hafter
    split at hafter <;> cases hafter
    exact .ended w
  | logModel runId name =>
    refine withFault_snd (.none w) fun a after hafter => ?_
    unfold execLogModel at hafter
    split at hafter <;> cases hafter
    exact .version w _
  | loadModel name modelAlias =>
    simp only [exec]
    split
    · refine withFault_snd (.none w) fun a after hafter => ?_
      cases hafter
      exact .none w
    · exact .none w
  | client op =>
    cases op with
    | setRegisteredModelAlias name modelAlias version =>
      have hcases := exec_setRegisteredModelAlias hserver
        { fault := env.fault, applied := env.applied } w.registry name modelAlias version
      simp only [exec]
      rcases hcases with h | h <;> rw [h]
      · exact .none w
      · exact .aliased w
    | _ =>
      simp only [exec]
      rw [exec_readOnly hserver (by trivial)]
      exact .none w
  | _ => exact .none w

/-! ## The agreement holds together -/

/-- The runs after the change of one. -/
theorem run?_updateRun (r : Registry) (runId runId' : String) (f : MlflowRun → MlflowRun)
    (hf : ∀ run, (f run).runId = run.runId) :
    (updateRun r runId f hf).run? runId' =
      if runId' = runId then (r.run? runId).map f else r.run? runId' := by
  split
  · rename_i heq
    subst heq
    exact Keyed.find?_modify_self hf
  · rename_i hne
    exact Keyed.find?_modify_of_ne hf hne

/-- The runs after a new one. -/
theorem run?_insert {r : Registry} {run : MlflowRun} (hnew : r.run? run.runId = none)
    (runId : String) :
    Registry.run? { r with runs := r.runs.insert run } runId =
      if runId = run.runId then some run else r.run? runId := by
  split
  · rename_i heq
    subst heq
    exact Keyed.find?_insert_self hnew
  · rename_i hne
    exact Keyed.find?_insert_of_ne (Ne.symm hne)

/-- The invariant after a change that leaves closed runs, versions and aliases alone, and finishes
no run that is not registered. -/
theorem Tracked.of_frame {w w' : World} (hw : Tracked w)
    (howned : ∀ runId i, w'.owner runId = some i → (w'.registry.run? runId).isSome)
    (hfinished : ∀ runId run, w'.registry.run? runId = some run → run.status = .finished →
      w.registry.run? runId = some run ∨ Registered w'.registry run)
    (hclosed : ∀ runId run, w.registry.run? runId = some run → run.status ≠ .running →
      w'.registry.run? runId = some run)
    (hversions : ∀ v ∈ w.registry.modelVersions.items, v ∈ w'.registry.modelVersions.items)
    (hfound : ∀ name version v, w.registry.modelVersion? name version = some v →
      w'.registry.modelVersion? name version = some v)
    (haliases : w'.registry.aliases = w.registry.aliases) : Tracked w' := by
  refine ⟨howned, fun runId run hrun hstatus => ?_, fun version hversion => ?_⟩
  · rcases hfinished runId run hrun hstatus with hold | hregistered
    · exact (hw.registered runId run hold hstatus).mono hversions
    · exact hregistered
  · rw [haliases] at hversion
    obtain ⟨v, hv, htrained⟩ := hw.champion version hversion
    exact ⟨v, hfound _ _ _ hv, htrained.mono hclosed⟩

section Updates

variable {i : ℕ} {w : World} {run : MlflowRun} {f : MlflowRun → MlflowRun}
  {hf : ∀ run, (f run).runId = run.runId}

/-- Changing an open run of one's own keeps the invariant, if the run is registered where the
change finishes it. -/
theorem Tracked.update (hw : Tracked w) (hmine : Mine i run w) (hrunning : run.status = .running)
    (hregistered : (f run).status = .finished → Registered w.registry (f run)) :
    Tracked { w with registry := updateRun w.registry run.runId f hf } := by
  have hrun := fun runId => run?_updateRun w.registry run.runId runId f hf
  refine hw.of_frame (fun runId k howner => ?_) (fun runId run' hrun' hstatus => ?_)
    (fun runId run' hrun' hstatus => ?_) (fun _ h => h) (fun _ _ _ h => h) rfl
  · have hsome := hw.owned runId k howner
    rw [hrun]
    split
    · simp [hmine.found]
    · exact hsome
  · rw [hrun] at hrun'
    split at hrun'
    · rw [hmine.found] at hrun'
      obtain rfl := Option.some.inj hrun'
      exact .inr (hregistered hstatus)
    · exact .inl hrun'
  · rw [hrun, if_neg, hrun']
    rintro rfl
    rw [hmine.found] at hrun'
    obtain rfl := Option.some.inj hrun'
    exact hstatus hrunning

/-- Others do not notice. -/
theorem Rely.update (hmine : Mine i run w) (hrunning : run.status = .running) {k : ℕ} (hk : k ≠ i) :
    Rely k w { w with registry := updateRun w.registry run.runId f hf } := by
  have hrun := fun runId => run?_updateRun w.registry run.runId runId f hf
  refine ⟨fun runId run' hrun' hstatus => ?_, fun _ h => h, fun runId howner => ?_, fun _ h => h⟩
  · rw [hrun, if_neg, hrun']
    rintro rfl
    rw [hmine.found] at hrun'
    obtain rfl := Option.some.inj hrun'
    exact hstatus hrunning
  · rw [hrun, if_neg]
    rintro rfl
    exact hk (Option.some.inj (howner.symm.trans hmine.owner))

end Updates

/-- A right operation keeps the invariant. -/
theorem Change.tracked {i : ℕ} {op : Op} {w w' : World} (h : Change i op w w') (hw : Tracked w)
    {env : Env} {reply : op.Reply} {after : World} (hright : right ⟨i, env, op, reply, w, after⟩) :
    Tracked w' := by
  cases h with
  | none => exact hw
  | experiment w experiments => exact ⟨hw.owned, hw.registered, hw.champion⟩
  | started w run hnew hstatus =>
    have hrun := run?_insert hnew
    refine hw.of_frame (fun runId k howner => ?_) (fun runId run' hrun' hfinished => ?_)
      (fun runId run' hrun' _ => ?_) (fun _ h => h) (fun _ _ _ h => h) rfl
    · rw [hrun]
      split
      · rfl
      · rename_i hne
        exact hw.owned runId k (by simpa [hne] using howner)
    · rw [hrun] at hrun'
      split at hrun'
      · obtain rfl := Option.some.inj hrun'
        rw [hstatus] at hfinished
        cases hfinished
      · exact .inl hrun'
    · rw [hrun, if_neg, hrun']
      rintro rfl
      rw [hnew] at hrun'
      cases hrun'
  | metrics w =>
    obtain ⟨run, rfl, hmine, hrunning⟩ := hright
    exact hw.update hmine hrunning fun hfinished => by
      rw [logged, hrunning] at hfinished
      cases hfinished
  | ended w =>
    obtain ⟨run, rfl, hmine, hrunning, hregistered⟩ := hright
    exact hw.update hmine hrunning fun hfinished => hregistered hfinished
  | version w v =>
    refine hw.of_frame hw.owned (fun _ _ hrun _ => .inl hrun) (fun _ _ hrun _ => hrun)
      (fun _ hv => Keyed.mem_insert_of_mem hv) (fun _ _ _ hv => Keyed.find?_insert_of_find? hv) rfl
  | @aliased name modelAlias version w =>
    refine ⟨hw.owned, hw.registered, fun version' hversion => ?_⟩
    simp only [Registry.setAlias] at hversion
    split at hversion
    · rename_i heq
      obtain ⟨v, hv, htrained⟩ := hright
      obtain rfl := Option.some.inj hversion
      exact ⟨v, heq.1 ▸ hv, htrained⟩
    · exact hw.champion version' hversion

/-- It changes nothing that others rely on. -/
theorem Change.rely {i : ℕ} {op : Op} {w w' : World} (h : Change i op w w') (hw : Tracked w)
    {env : Env} {reply : op.Reply} {after : World} (hright : right ⟨i, env, op, reply, w, after⟩)
    {k : ℕ} (hk : k ≠ i) : Rely k w w' := by
  cases h with
  | none => exact .refl k w
  | experiment w experiments => exact .of_eq rfl rfl fun _ => id
  | started w run hnew hstatus =>
    have hrun := run?_insert hnew
    refine ⟨fun runId run' hrun' _ => ?_, fun runId howner => ?_, fun runId howner => ?_,
      fun _ h => h⟩
    · rw [hrun, if_neg, hrun']
      rintro rfl
      rw [hnew] at hrun'
      cases hrun'
    · have hne : runId ≠ run.runId := by
        rintro rfl
        simpa [hnew] using hw.owned _ k howner
      exact (if_neg hne).trans howner
    · rw [hrun, if_neg]
      rintro rfl
      simpa [hnew] using hw.owned _ k howner
  | metrics w =>
    obtain ⟨run, rfl, hmine, hrunning⟩ := hright
    exact .update hmine hrunning hk
  | ended w =>
    obtain ⟨run, rfl, hmine, hrunning, -⟩ := hright
    exact .update hmine hrunning hk
  | version w v => exact .of_eq rfl rfl fun _ => Keyed.mem_insert_of_mem
  | aliased w => exact .of_eq rfl rfl fun _ => id

/-- The agreement holds together. -/
theorem agreement_sound (hserver : server.Documented) : agreement.Sound (system server) where
  refl := Rely.refl
  trans _ _ _ _ := Rely.trans
  exec j env op w hw hright :=
    have hchange := exec_change hserver j op env w
    ⟨hchange.tracked hw hright, fun _ hi => hchange.rely hw hright hi⟩
  abort _ w hw := ⟨hw, fun i _ => .refl i w⟩

end CreditScoringMlops.Training
