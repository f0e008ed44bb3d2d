import CreditScoringMlops.Training.TrackedRuns

/-!
# The champion is trained

In every run of the scripts, whatever fails and whoever dies, the champion is a version that a
finished run of the promoted family has registered, and a script that promotes never misses the
version of the run that it has found.
-/

namespace CreditScoringMlops.Training

open Python Interaction Machine Program Data Promotion

section Rules

variable {server : MlflowServer} {i : ℕ} {h : List LogEntry} {w : World} {A B : Type}

/-- One operation, in the company of the others. -/
theorem ensures_ask {op : Op} {Q : List LogEntry → World → op.Result → Prop}
    {E : List LogEntry → World → PyExc → Prop} (hh : ∀ e ∈ h, right e)
    (hright : ∀ w' env, Rely i w w' → Tracked w' → right ((system server).entry i env op w'))
    (hQ : ∀ w' env a, Rely i w w' → Tracked w' → (exec server i op env w').1 = .ok a →
      Q (h ++ [(system server).entry i env op w']) (exec server i op env w').2 a)
    (hE : ∀ w' env exc, Rely i w w' → Tracked w' → (exec server i op env w').1 = .error exc →
      E (h ++ [(system server).entry i env op w']) (exec server i op env w').2 exc) :
    (system server).Ensures i (agreement.contract i) Q E h w (ask op) := by
  rw [ask, ensures_bind]
  refine ⟨hh, fun w' env hrely htracked => ?_⟩
  have hnext : ∀ e ∈ h ++ [(system server).entry i env op w'], right e := by
    intro e he
    rcases List.mem_append.mp he with he | he
    · exact hh e he
    · exact List.mem_singleton.mp he ▸ hright w' env hrely htracked
  have hexec : (system server).exec i op env w' = exec server i op env w' := rfl
  rw [hexec]
  refine ⟨hnext, ?_⟩
  cases hreply : (exec server i op env w').1 with
  | ok a => exact ⟨hnext, hQ w' env a hrely htracked hreply⟩
  | error exc => exact ⟨hnext, hE w' env exc hrely htracked hreply⟩

/-- Operations that leave all runs alone, and the champion. -/
def isQuiet : Op → Prop
  | .startRun _ _ => False
  | .logMetrics _ _ => False
  | .endRun _ _ => False
  | .client op => op.ReadOnly
  | _ => True

/-- They are right, and a process can rely on itself. -/
theorem exec_quiet (hserver : server.Documented) (op : Op) (hop : isQuiet op) (env : Env)
    (w : World) : right ((system server).entry i env op w) ∧
      Rely i w (exec server i op env w).2 := by
  constructor
  · cases op with
    | client op =>
      cases op with
      | setRegisteredModelAlias name modelAlias version => exact hop.elim
      | _ => trivial
    | startRun experimentId runName => trivial
    | logMetrics runId metrics => exact hop.elim
    | endRun runId status => exact hop.elim
    | _ => trivial
  · have hchange := exec_change hserver i op env w
    generalize (exec server i op env w).2 = w' at hchange
    cases hchange with
    | none => exact .refl i w
    | experiment w experiments => exact .of_eq rfl rfl fun _ => id
    | version w v => exact .of_eq rfl rfl fun _ => Keyed.mem_insert_of_mem
    | started w run hnew hstatus => exact hop.elim
    | metrics w => exact hop.elim
    | ended w => exact hop.elim
    | aliased w => exact hop.elim

/-- A program of such operations. -/
theorem ensures_quiet (hserver : server.Documented) {p : Handler A} {Q : A → Prop}
    (hp : p.Obeys (.only isQuiet) (fun _ a => Q a) (fun _ _ => True) ())
    (hh : ∀ e ∈ h, right e) :
    (system server).Ensures i (agreement.contract i) (fun _ w' a => Q a ∧ Rely i w w')
      (fun _ w' _ => Rely i w w') h w p := by
  refine (ensures_of_obeys hp (I := fun _ h' w' => (∀ e ∈ h', right e) ∧ Rely i w w')
    (fun _ _ _ hI => hI.1) ?_ ⟨hh, .refl i w⟩).mono (fun _ _ a _ hend => ?_)
    fun _ _ _ _ hend => ?_
  · intro _ h' w₁ w' op env hop hI hrely htracked
    obtain ⟨hright, hown⟩ := exec_quiet hserver op hop env w'
    refine ⟨trivial, fun e he => ?_, hI.2.trans (hrely.trans hown)⟩
    rcases List.mem_append.mp he with he | he
    · exact hI.1 e he
    · exact List.mem_singleton.mp he ▸ hright
  · obtain ⟨_, hQ, hI⟩ := hend
    exact ⟨hQ, hI.2⟩
  · obtain ⟨_, -, hI⟩ := hend
    exact hI.2

/-- One such operation. -/
theorem obeys_quiet (op : Op) (hop : isQuiet op) {Q : Unit → op.Result → Prop}
    (hQ : ∀ a, Q () a) : (ask op).Obeys (.only isQuiet) Q (fun _ _ => True) () := by
  rw [ask, obeys_bind]
  refine ⟨hop, ?_⟩
  rintro (exc | a) -
  · trivial
  · exact hQ a

/-- Quiet operations, and what follows them. -/
theorem ensures_quiet_bind (hserver : server.Documented) {p : Handler A} {f : A → Handler B}
    {Q : A → Prop} {R : List LogEntry → World → B → Prop}
    {E : List LogEntry → World → PyExc → Prop}
    (hp : p.Obeys (.only isQuiet) (fun _ a => Q a) (fun _ _ => True) ())
    (hh : ∀ e ∈ h, right e) (hE : ∀ h' w' exc, Rely i w w' → E h' w' exc)
    (hf : ∀ h' w' a, Q a → (∀ e ∈ h', right e) → Rely i w w' →
      (system server).Ensures i (agreement.contract i) R E h' w' (f a)) :
    (system server).Ensures i (agreement.contract i) R E h w (p >>= f) := by
  rw [ensures_bind]
  exact (ensures_quiet hserver hp hh).mono
    (fun h' w' a hright hend => hf h' w' a hend.1 hright hend.2)
    fun h' w' exc _ hrely => hE h' w' exc hrely

end Rules

/-! ## Runs -/

section Training

variable {server : MlflowServer} {i : ℕ} {h : List LogEntry} {w : World}

/-- A run that a process has opened under a name, and has not closed. -/
structure IsOpen (i : ℕ) (runName : String) (run : MlflowRun) (w : World) : Prop where
  mine : Mine i run w
  running : run.status = .running
  runName_eq : run.runName = some runName

/-- Only its process closes it. -/
theorem IsOpen.rely {runName : String} {run : MlflowRun} {w' : World}
    (hopen : IsOpen i runName run w) (hrely : Rely i w w') : IsOpen i runName run w' :=
  ⟨hopen.mine.rely hrely, hopen.running, hopen.runName_eq⟩

/-- Opening a run. -/
theorem ensures_startRun (hh : ∀ e ∈ h, right e) (experimentId runName : String) :
    (system server).Ensures i (agreement.contract i)
      (fun _ w' runId => ∃ run, run.runId = runId ∧ IsOpen i runName run w') (fun _ _ _ => True)
      h w (ask (.startRun experimentId runName)) := by
  refine ensures_ask hh (fun _ _ _ _ => trivial) (fun w' env runId _ _ hreply => ?_)
    fun _ _ _ _ _ _ => trivial
  simp only [exec, execStartRun] at hreply ⊢
  cases hnew : w'.registry.run? env.newId with
  | some run =>
    rw [hnew] at hreply
    cases hreply
  | none =>
    rw [hnew] at hreply
    cases hfault : env.fault with
    | some exc =>
      simp only [withFault, hfault] at hreply
      cases hreply
    | none =>
      simp only [withFault, hfault] at hreply ⊢
      obtain rfl := Except.ok.inj hreply
      exact ⟨_, rfl, ⟨if_pos rfl, (run?_insert hnew _).trans (if_pos rfl)⟩, rfl, rfl⟩

/-- A change of an open run that takes effect, or not. -/
theorem withFault_update {f : MlflowRun → MlflowRun} {hf : ∀ run, (f run).runId = run.runId}
    {env : Env} {run : MlflowRun} (hmine : Mine i run w) {result : Except PyExc Unit} {w' : World}
    (hresult : withFault env w (execUpdate run.runId f hf w) = (result, w')) :
    Mine i (f run) w' ∨ result ≠ .ok () ∧ Mine i run w' := by
  have hafter : Mine i (f run) { w with registry := updateRun w.registry run.runId f hf } := by
    refine ⟨(hf run).symm ▸ hmine.owner, ?_⟩
    rw [run?_updateRun, hf, if_pos rfl, hmine.found, Option.map_some]
  simp only [execUpdate, hmine.found, withFault] at hresult
  cases hfault : env.fault with
  | none =>
    rw [hfault] at hresult
    obtain ⟨rfl, rfl⟩ := Prod.mk.inj hresult
    exact .inl hafter
  | some exc =>
    rw [hfault] at hresult
    obtain ⟨rfl, rfl⟩ := Prod.mk.inj hresult
    cases env.applied with
    | true => exact .inl hafter
    | false => exact .inr ⟨by simp, hmine⟩

/-- Logging metrics to an open run. -/
theorem ensures_logMetrics (hh : ∀ e ∈ h, right e) {runName : String} {run : MlflowRun}
    (hopen : IsOpen i runName run w) (metrics : Metrics) :
    (system server).Ensures i (agreement.contract i)
      (fun _ w' _ => IsOpen i runName (logged metrics run) w')
      (fun _ w' _ => ∃ run', run'.runId = run.runId ∧ IsOpen i runName run' w')
      h w (ask (.logMetrics run.runId metrics)) := by
  refine ensures_ask hh (fun w' env hrely _ => ⟨run, rfl, hopen.mine.rely hrely, hopen.running⟩)
    (fun w' env _ hrely _ hreply => ?_) fun w' env exc hrely _ hreply => ?_
  · rcases withFault_update (hopen.mine.rely hrely) (Prod.mk.eta (p := withFault env w' _)).symm
      with hmine | ⟨hfail, -⟩
    · exact ⟨hmine, hopen.running, hopen.runName_eq⟩
    · exact (hfail hreply).elim
  · rcases withFault_update (hopen.mine.rely hrely) (Prod.mk.eta (p := withFault env w' _)).symm
      with hmine | ⟨-, hmine⟩
    · exact ⟨logged metrics run, rfl, hmine, hopen.running, hopen.runName_eq⟩
    · exact ⟨run, rfl, hmine, hopen.running, hopen.runName_eq⟩

/-- No operation loses a version. -/
theorem versions_exec (hserver : server.Documented) (op : Op) (env : Env) (w : World) :
    ∀ v ∈ w.registry.modelVersions.items,
      v ∈ (exec server i op env w).2.registry.modelVersions.items := by
  have hchange := exec_change hserver i op env w
  generalize (exec server i op env w).2 = w' at hchange
  intro v hv
  cases hchange with
  | version w v' => exact Keyed.mem_insert_of_mem hv
  | _ => exact hv

/-- Closing it: a run that is finished has to be registered, and stays so. -/
theorem ensures_endRun (hserver : server.Documented) (hh : ∀ e ∈ h, right e)
    {runName : String} {run : MlflowRun} (hopen : IsOpen i runName run w) {status : RunStatus}
    (hregistered : status = .finished → Registered w.registry run) :
    (system server).Ensures i (agreement.contract i)
      (fun _ w' _ => Mine i (inStatus status run) w' ∧
        (Registered w.registry run → Registered w'.registry (inStatus status run)))
      (fun _ _ _ => True) h w (ask (.endRun run.runId status)) := by
  refine ensures_ask hh (fun w' env hrely _ => ⟨run, rfl, hopen.mine.rely hrely, hopen.running,
    fun hstatus => (hregistered hstatus).mono hrely.versions⟩) (fun w' env _ hrely _ hreply => ?_)
    fun _ _ _ _ _ _ => trivial
  rcases withFault_update (hopen.mine.rely hrely) (Prod.mk.eta (p := withFault env w' _)).symm
    with hmine | ⟨hfail, -⟩
  · refine ⟨hmine, fun hrun => ?_⟩
    have hmono : Registered _ run := hrun.mono fun v hv =>
      versions_exec (i := i) hserver (.endRun run.runId status) env w' v (hrely.versions v hv)
    exact hmono
  · exact (hfail hreply).elim

/-- A finished run of the registry, which has its metric and a registered version if its name is
that of a family. -/
structure Finished (runName : String) (run : MlflowRun) (r : Registry) : Prop where
  found : r.run? run.runId = some run
  status : run.status = .finished
  runName_eq : run.runName = some runName
  registered : Registered r run

/-- A process has finished a run, and it is registered. -/
def HasFinished (i : ℕ) (runName : String) (w : World) : Prop :=
  ∃ run, w.owner run.runId = some i ∧ Finished runName run w.registry

/-- A finished run stays as it is, and registered. -/
theorem Finished.rely {runName : String} {run : MlflowRun} {w w' : World}
    (h : Finished runName run w.registry) {k : ℕ} (hrely : Rely k w w') :
    Finished runName run w'.registry where
  found := hrely.closed _ _ h.found (by simp [h.status])
  status := h.status
  runName_eq := h.runName_eq
  registered := h.registered.mono hrely.versions

/-- A `with` block whose body leaves the run open, and registered where it returns. -/
theorem ensures_withRun (hserver : server.Documented) (hh : ∀ e ∈ h, right e)
    (experimentId runName : String) {body : String → Handler Unit}
    (hbody : ∀ h w run, (∀ e ∈ h, right e) → IsOpen i runName run w →
      (system server).Ensures i (agreement.contract i)
        (fun _ w' _ => ∃ run', run'.runId = run.runId ∧ IsOpen i runName run' w' ∧
          Registered w'.registry run')
        (fun _ w' _ => ∃ run', run'.runId = run.runId ∧ IsOpen i runName run' w')
        h w (body run.runId)) :
    (system server).Ensures i (agreement.contract i) (fun _ w' _ => HasFinished i runName w')
      (fun _ _ _ => True) h w (withRun experimentId runName body) := by
  unfold withRun
  rw [ensures_bind]
  refine (ensures_startRun hh experimentId runName).mono (fun h₁ w₁ runId hh₁ hstarted => ?_)
    fun _ _ _ _ _ => trivial
  obtain ⟨run, rfl, hopen⟩ := hstarted
  rw [ensures_bind, ensures_attempt]
  refine (hbody h₁ w₁ run hh₁ hopen).mono (fun h₂ w₂ _ hh₂ hend => ?_)
    fun h₂ w₂ exc hh₂ hend => ?_
  · obtain ⟨run', hrunId, hopen', hregistered⟩ := hend
    rw [← hrunId]
    exact (ensures_endRun hserver hh₂ hopen' fun _ => hregistered).mono
      (fun _ _ _ _ hclosed => ⟨_, hclosed.1.owner, hclosed.1.found, rfl, hopen'.runName_eq,
        hclosed.2 hregistered⟩)
      fun _ _ _ _ _ => trivial
  · obtain ⟨run', hrunId, hopen'⟩ := hend
    change (system server).Ensures _ _ _ _ _ _ (ask (.endRun run.runId .failed) >>= _)
    rw [ensures_bind, ← hrunId]
    exact (ensures_endRun hserver hh₂ hopen' (by simp)).mono (fun _ _ _ hh₃ _ => ⟨hh₃, trivial⟩)
      fun _ _ _ _ _ => trivial

/-- Registering a version of an open run. -/
theorem ensures_logModel (hserver : server.Documented) (hh : ∀ e ∈ h, right e) {runName : String}
    {run : MlflowRun} (hopen : IsOpen i runName run w) (name : String) :
    (system server).Ensures i (agreement.contract i)
      (fun _ w' _ => IsOpen i runName run w' ∧
        ∃ v ∈ w'.registry.modelVersions.items, v.name = name ∧ v.runId = some run.runId)
      (fun _ w' _ => IsOpen i runName run w') h w (ask (.logModel run.runId name)) := by
  refine ensures_ask hh (fun _ _ _ _ => trivial) (fun w' env _ hrely _ hreply => ?_)
    fun w' env exc hrely _ _ => (hopen.rely hrely).rely
      (exec_quiet hserver (.logModel run.runId name) trivial env w').2
  refine ⟨(hopen.rely hrely).rely
    (exec_quiet hserver (.logModel run.runId name) trivial env w').2, ?_⟩
  have hmine := hopen.mine.rely hrely
  simp only [exec, execLogModel, hmine.found] at hreply ⊢
  cases hversion : w'.registry.modelVersion? name env.version with
  | some v =>
    rw [hversion] at hreply
    cases hreply
  | none =>
    rw [hversion] at hreply
    cases hfault : env.fault with
    | some exc =>
      simp only [withFault, hfault] at hreply
      cases hreply
    | none =>
      simp only [withFault, hfault]
      exact ⟨_, Keyed.mem_of_find? (Keyed.find?_insert_self hversion), rfl, rfl⟩

/-- Logging parameters changes nothing. -/
theorem uses_logParams (paramCalls : ℕ) (runId : String) :
    ((List.replicate paramCalls runId).forM fun runId => ask (.logParams runId)).Uses isQuiet := by
  induction paramCalls with
  | zero => trivial
  | succ n ih =>
    exact Uses.bind (obeys_quiet (.logParams runId) trivial fun _ => trivial) fun _ => ih

/-- The `with` block of a training script registers a version of the model of its family. -/
theorem ensures_trainRun (hserver : server.Documented) {runName registeredModelName : String}
    (hfamily : ∀ family ∈ families, family.1 = runName → family.2 = registeredModelName)
    {calculate : Handler Metrics}
    (hcalculate : calculate.Obeys (.only isQuiet)
      (fun _ metrics => (metrics.get? PromoteModel.metricName).isSome) (fun _ _ => True) ())
    (classifier : String) (features catFeatures : List String) (paramCalls : ℕ)
    (hh : ∀ e ∈ h, right e) {run : MlflowRun} (hopen : IsOpen i runName run w) :
    (system server).Ensures i (agreement.contract i)
      (fun _ w' _ => ∃ run', run'.runId = run.runId ∧ IsOpen i runName run' w' ∧
        Registered w'.registry run')
      (fun _ w' _ => ∃ run', run'.runId = run.runId ∧ IsOpen i runName run' w')
      h w (trainRun classifier registeredModelName features catFeatures calculate paramCalls
        run.runId) := by
  have hfails {w' : World} (hrely : Rely i w w') :
      ∃ run', run'.runId = run.runId ∧ IsOpen i runName run' w' :=
    ⟨run, rfl, hopen.rely hrely⟩
  unfold trainRun
  refine ensures_quiet_bind (Q := fun _ => True) hserver
    (obeys_quiet (.fit classifier features catFeatures) trivial fun _ => trivial) hh
    (fun _ _ _ hrely => hfails hrely) fun h₁ w₁ _ _ hh₁ hrely₁ => ?_
  refine ensures_quiet_bind (Q := fun _ => True) hserver
    (obeys_quiet .predictProba trivial fun _ => trivial) hh₁
    (fun _ _ _ hrely => hfails (hrely₁.trans hrely)) fun h₂ w₂ _ _ hh₂ hrely₂ => ?_
  refine ensures_quiet_bind hserver hcalculate hh₂
    (fun _ _ _ hrely => hfails (hrely₁.trans (hrely₂.trans hrely)))
    fun h₃ w₃ metrics hmetrics hh₃ hrely₃ => ?_
  refine ensures_quiet_bind (Q := fun _ => True) hserver (uses_logParams paramCalls run.runId) hh₃
    (fun _ _ _ hrely => hfails (hrely₁.trans (hrely₂.trans (hrely₃.trans hrely))))
    fun h₄ w₄ _ _ hh₄ hrely₄ => ?_
  have hopen₄ := hopen.rely (hrely₁.trans (hrely₂.trans (hrely₃.trans hrely₄)))
  rw [ensures_bind]
  refine (ensures_logMetrics hh₄ hopen₄ metrics).mono (fun h₅ w₅ _ hh₅ hopen₅ => ?_)
    fun _ _ _ _ hend => hend
  change (system server).Ensures _ _ _ _ _ _
    (ask (.logModel (logged metrics run).runId registeredModelName) >>= _)
  rw [ensures_bind]
  refine (ensures_logModel hserver hh₅ hopen₅ registeredModelName).mono
    (fun h₆ w₆ _ hh₆ hmodel => ?_) fun _ _ _ _ hend => ⟨logged metrics run, rfl, hend⟩
  obtain ⟨hopen₆, v, hv, hname, hrunId⟩ := hmodel
  refine (ensures_quiet hserver (Q := fun _ => True)
    (obeys_quiet (.print _) trivial fun _ => trivial) hh₆).mono (fun h₇ w₇ _ _ hprinted => ?_)
    fun _ _ _ _ hrely => ⟨logged metrics run, rfl, hopen₆.rely hrely⟩
  refine ⟨logged metrics run, rfl, hopen₆.rely hprinted.2, fun family hmem hfamilyName => ⟨?_, v,
    hprinted.2.versions v hv, ?_, hrunId⟩⟩
  · change (Metrics.get? (metrics ++ run.metrics) PromoteModel.metricName).isSome
    rw [Metrics.get?, List.lookup_append, Option.isSome_or, Bool.or_eq_true]
    exact .inl hmetrics
  · rw [hname]
    exact (hfamily family hmem (Option.some.inj (hfamilyName.symm.trans hopen.runName_eq))).symm

/-- The metrics have `roc_auc`. -/
theorem obeys_calculateMetrics : calculateMetrics.Obeys (.only isQuiet)
    (fun _ metrics => (metrics.get? PromoteModel.metricName).isSome) (fun _ _ => True) () := by
  unfold calculateMetrics
  iterate 5
    rw [obeys_bind]
    refine obeys_quiet (.score _) trivial fun _ => ?_
  rfl

/-- So do those of the CatBoost script. -/
theorem obeys_calculateMetricsAgain : calculateMetricsAgain.Obeys (.only isQuiet)
    (fun _ metrics => (metrics.get? PromoteModel.metricName).isSome) (fun _ _ => True) () := by
  unfold calculateMetricsAgain
  iterate 6
    rw [obeys_bind]
    refine obeys_quiet (.score _) trivial fun _ => ?_
  rfl

/-- Loading the data calls no server. -/
theorem uses_loadData : loadData.Uses isQuiet := by
  refine Uses.bind (obeys_quiet (.readCsv trainPath) trivial fun _ => trivial) fun train => ?_
  refine Uses.bind (obeys_quiet (.readCsv testPath) trivial fun _ => trivial) fun test => ?_
  refine Uses.bind (uses_ofExcept _) fun xTrain => ?_
  exact Uses.bind (uses_ofExcept _) fun xTest => trivial

/-- Nor does looking for the files. -/
theorem uses_loadCheckedData : loadCheckedData.Uses isQuiet := by
  refine Uses.bind (obeys_quiet (.pathExists trainPath) trivial fun _ => trivial) fun found => ?_
  split
  · trivial
  · refine Uses.bind (obeys_quiet (.pathExists testPath) trivial fun _ => trivial) fun found => ?_
    split
    · trivial
    · exact uses_loadData

/-- A training script: the data, the experiment, and the run. -/
theorem ensures_train (hserver : server.Documented) {runName registeredModelName : String}
    (hfamily : ∀ family ∈ families, family.1 = runName → family.2 = registeredModelName)
    {load : Handler (List String × List String)} (hload : load.Uses isQuiet)
    {calculate : Handler Metrics}
    (hcalculate : calculate.Obeys (.only isQuiet)
      (fun _ metrics => (metrics.get? PromoteModel.metricName).isSome) (fun _ _ => True) ())
    (classifier : String) (catFeatures : List String → List String) (paramCalls : ℕ)
    (hh : ∀ e ∈ h, right e) :
    (system server).Ensures i (agreement.contract i) (fun _ w' _ => HasFinished i runName w')
      (fun _ _ _ => True) h w (do
        let (xTrain, _) ← load
        let experimentId ← ask (.setExperiment experimentName)
        withRun experimentId runName
          (trainRun classifier registeredModelName xTrain (catFeatures xTrain) calculate
            paramCalls)) := by
  refine ensures_quiet_bind (Q := fun _ => True) hserver hload hh (fun _ _ _ _ => trivial)
    fun h₁ w₁ columns _ hh₁ _ => ?_
  obtain ⟨xTrain, xTest⟩ := columns
  refine ensures_quiet_bind (Q := fun _ => True) hserver
    (obeys_quiet (.setExperiment experimentName) trivial fun _ => trivial) hh₁
    (fun _ _ _ _ => trivial) fun h₂ w₂ experimentId _ hh₂ _ => ?_
  exact ensures_withRun hserver hh₂ experimentId runName fun h₃ w₃ run hh₃ hopen =>
    ensures_trainRun hserver hfamily hcalculate classifier xTrain (catFeatures xTrain) paramCalls
      hh₃ hopen

/-- The selection itself only reads. -/
theorem uses_selectBestModel : SelectBestModel.main.Uses MlflowOp.ReadOnly := by
  unfold SelectBestModel.main
  refine Uses.bind (callMlflow_uses trivial) fun found => ?_
  split
  · trivial
  · refine Uses.bind (callMlflow_uses trivial) fun runs => ?_
    split
    · trivial
    · dsimp only
      split
      · trivial
      · split <;> trivial

/-- The selection script only reads before it logs its choice. -/
theorem ensures_selectBestModel (hserver : server.Documented) (hh : ∀ e ∈ h, right e) :
    (system server).Ensures i (agreement.contract i)
      (fun _ w' _ => HasFinished i "best_model_selection" w') (fun _ _ _ => True) h w
      selectBestModel := by
  have hreads : (client SelectBestModel.main).Uses isQuiet := by
    refine Uses.translate (fun op hop => ?_) uses_selectBestModel
    have hquiet : isQuiet (.client op) := hop
    exact uses_request hquiet
  refine ensures_quiet_bind (Q := fun _ => True) hserver hreads hh (fun _ _ _ _ => trivial)
    fun h₁ w₁ selection _ hh₁ _ => ?_
  refine ensures_quiet_bind (Q := fun _ => True) hserver
    (obeys_quiet (.setExperiment _) trivial fun _ => trivial) hh₁
    (fun _ _ _ _ => trivial) fun h₂ w₂ experimentId _ hh₂ _ => ?_
  refine ensures_withRun hserver hh₂ experimentId _ fun h₃ w₃ run hh₃ hopen => ?_
  refine ensures_quiet_bind (Q := fun _ => True) hserver (uses_logParams 4 run.runId) hh₃
    (fun _ _ _ hrely => ⟨run, rfl, hopen.rely hrely⟩) fun h₄ w₄ _ _ hh₄ hrely₄ => ?_
  refine (ensures_logMetrics hh₄ (hopen.rely hrely₄) _).mono (fun h₅ w₅ _ _ hopen₅ => ?_)
    fun _ _ _ _ hend => hend
  refine ⟨logged _ run, rfl, hopen₅, fun family hfamily hname => ?_⟩
  have hother : ∀ family ∈ families, "best_model_selection" ≠ family.1 := by decide
  exact (hother family hfamily (Option.some.inj (hopen.runName_eq.symm.trans hname))).elim

/-- How many versions `search_model_versions` returns at most, if it is not told otherwise. -/
def searchMaxResults : ℕ := 10000

/-- The versions of a model. -/
def versionsOf (r : Registry) (name : String) : List ModelVersion :=
  r.modelVersions.items.filter (·.name = name)

/-- A search for the versions of a model returns all of them, unless there are more than it returns
at most. -/
def CompleteSearch (server : MlflowServer) : Prop :=
  ∀ r name versions, (server.call (.searchModelVersions name) r).1 = .ok versions →
    (versionsOf r name).length ≤ searchMaxResults → ∀ v ∈ versionsOf r name, v ∈ versions

/-- Why a process has raised: one of its operations has. -/
def Blamed (h : List LogEntry) (exc : PyExc) : Prop := ∃ e ∈ h, e.reply = .error exc

/-- At one of its operations there were more versions of the promoted model than a search
returns. -/
def Overfull (h : List LogEntry) : Prop :=
  ∃ e ∈ h, searchMaxResults < (versionsOf e.before.registry PromoteModel.modelName).length

/-- What `promote_model.py` raises by itself. -/
def promotionErrors : List PyExc :=
  [.valueError s!"Experiment not found: {PromoteModel.experimentName}",
    .valueError s!"No finished runs found for {PromoteModel.targetRunName}"]

/-- A call of the client. -/
theorem client_call (op : MlflowOp) : client (callMlflow op) = ask (.client op) := by
  unfold client callMlflow
  rw [translate_bind, translate_request]
  exact congrArg (Program.request (Op.client op) >>= ·)
    (funext fun reply => translate_ofExcept reply)

/-- A call of the client, and what follows it. -/
theorem client_bind {A : Type} (op : MlflowOp) (f : op.Result → MlflowProgram A) :
    client (callMlflow op >>= f) = ask (.client op) >>= fun a => client (f a) := by
  rw [← client_call]
  exact translate_bind _ _

/-- A call that only reads is answered by the server in the registry of that moment. -/
theorem ensures_clientRead (hserver : server.Documented) {op : MlflowOp} (hop : op.ReadOnly)
    (hh : ∀ e ∈ h, right e) :
    (system server).Ensures i (agreement.contract i)
      (fun h' w' a => Tracked w' ∧ Rely i w w' ∧ (server.call op w'.registry).1 = .ok a ∧
        ∃ e ∈ h', e.before = w')
      (fun h' _ exc => Blamed h' exc) h w (ask (.client op)) := by
  have hquiet : isQuiet (.client op) := hop
  have hsame (env : Env) (w' : World) : (exec server i (.client op) env w').2 = w' := by
    simp only [exec]
    rw [exec_readOnly hserver hop]
  refine ensures_ask hh (fun w' env _ _ => (exec_quiet hserver _ hquiet env w').1)
    (fun w' env a hrely htracked hreply => ?_) fun w' env exc _ _ hreply =>
      ⟨_, List.mem_concat_self, hreply⟩
  rw [hsame]
  exact ⟨htracked, hrely, call_of_exec hreply, _, List.mem_concat_self, rfl⟩

/-- What the search of the promotion script accepts. -/
theorem accepts_promoteQuery {experimentId : String} {run : MlflowRun}
    (haccepts : (PromoteModel.query experimentId).accepts run = true) :
    run.status = .finished ∧ run.runName = some PromoteModel.targetRunName ∧
      (run.metrics.get? PromoteModel.metricName).any PyFloat.positive := by
  simp only [RunQuery.accepts, PromoteModel.query, Option.all_some, Bool.and_eq_true,
    decide_eq_true_eq] at haccepts
  exact ⟨haccepts.1.1.2, haccepts.1.2, haccepts.2⟩

/-- The end of the promotion script, for the run that it has found: the run has a version, and the
search returns it, unless there are too many. -/
theorem ensures_promoteRun (hserver : server.Documented) (hcomplete : CompleteSearch server)
    (hh : ∀ e ∈ h, right e) (htracked : Tracked w) {latestRun : MlflowRun}
    (hrun : w.registry.run? latestRun.runId = some latestRun)
    (hfinished : latestRun.status = .finished)
    (hname : latestRun.runName = some PromoteModel.targetRunName)
    (hmetric : (latestRun.metrics.get? PromoteModel.metricName).any PyFloat.positive) :
    (system server).Ensures i (agreement.contract i) (fun _ _ _ => True)
      (fun h' _ exc => Blamed h' exc ∨ Overfull h') h w
        (client (PromoteModel.promoteRun latestRun)) := by
  obtain ⟨hsome, v, hv, hmodel, hrunId⟩ := htracked.registered _ _ hrun hfinished
    ("catboost_baseline", "CreditScoringCatBoost") (by simp [families]) hname
  unfold PromoteModel.promoteRun
  rw [if_neg (by simpa [Option.isSome_iff_ne_none] using hsome), client_bind, ensures_bind]
  refine (ensures_clientRead hserver (by trivial) hh).mono (fun h₁ w₁ versions hh₁ hread => ?_)
    fun _ _ _ _ hblamed => .inl hblamed
  obtain ⟨-, hrely₁, hversions, e, he, rfl⟩ := hread
  have hall := hcomplete _ _ _ hversions
  cases hfind : versions.find? fun version => decide (version.runId = some latestRun.runId) with
  | none =>
    refine ⟨hh₁, .inr ⟨e, he, not_le.mp fun hfew => ?_⟩⟩
    have hmem : v ∈ versions := hall hfew v
      (List.mem_filter.mpr ⟨hrely₁.versions v hv, decide_eq_true hmodel⟩)
    have hno := List.find?_eq_none.mp hfind v hmem
    simp [hrunId] at hno
  | some version =>
    have hversionRun : version.runId = some latestRun.runId :=
      of_decide_eq_true (List.find?_some
        (p := fun version : ModelVersion => decide (version.runId = some latestRun.runId)) hfind)
    obtain ⟨hversionName, hversionMem⟩ := hserver.searchModelVersions _ _ _ hversions version
      (List.mem_of_find?_eq_some hfind)
    have hrun₁ := hrely₁.closed _ _ hrun (by simp [hfinished])
    dsimp only
    rw [client_call]
    refine ensures_ask hh₁ (fun w' env hrely _ => ?_) (fun _ _ _ _ _ _ => trivial)
      fun w' env exc _ _ hreply => .inl ⟨_, List.mem_concat_self, hreply⟩
    have hfound := Keyed.find?_key_of_mem (hrely.versions version hversionMem)
    rw [hversionName] at hfound
    exact ⟨version, hfound, latestRun, hversionRun,
      hrely.closed _ _ hrun₁ (by simp [hfinished]), hfinished, hname, hmetric⟩

/-- The promotion script finds the version of the run that it has found. -/
theorem ensures_promoteModel (hserver : server.Documented) (hcomplete : CompleteSearch server)
    (hh : ∀ e ∈ h, right e) :
    (system server).Ensures i (agreement.contract i) (fun _ _ _ => True)
      (fun h' _ exc => exc ∈ promotionErrors ∨ Blamed h' exc ∨ Overfull h') h w
        promoteModel := by
  unfold promoteModel PromoteModel.main
  rw [client_bind, Program.bind_assoc, ensures_bind]
  refine (ensures_clientRead hserver (by trivial) hh).mono (fun h₁ w₁ found hh₁ hfound => ?_)
    fun _ _ _ _ hblamed => .inr (.inl hblamed)
  cases found with
  | none => exact ⟨hh₁, .inl (by simp [promotionErrors])⟩
  | some experimentId =>
    dsimp only
    rw [client_bind, Program.bind_assoc, ensures_bind]
    refine (ensures_clientRead hserver (by trivial) hh₁).mono (fun h₂ w₂ runs hh₂ hread => ?_)
      fun _ _ _ _ hblamed => .inr (.inl hblamed)
    obtain ⟨htracked, -, hruns, -⟩ := hread
    cases runs with
    | nil => exact ⟨hh₂, .inl (by simp [promotionErrors])⟩
    | cons latestRun rest =>
      obtain ⟨hrun, haccepts⟩ := mem_searchRuns hserver hruns (List.mem_cons_self ..)
      obtain ⟨hfinished, hname, hmetric⟩ := accepts_promoteQuery haccepts
      dsimp only
      rw [ensures_bind]
      refine (ensures_promoteRun hserver hcomplete hh₂ htracked hrun hfinished hname hmetric).mono
        (fun h₃ w₃ _ hh₃ _ => ?_) fun _ _ _ _ hblamed => .inr hblamed
      refine ensures_ask hh₃ (fun _ _ _ _ => trivial) (fun _ _ _ _ _ _ => trivial)
        fun _ _ _ _ _ hreply => ?_
      cases hreply

/-- The service loads the champion, which is trained. -/
theorem ensures_loadModel (hh : ∀ e ∈ h, right e) :
    (system server).Ensures i (agreement.contract i) (fun _ w' v => IsTrained w'.registry v)
      (fun _ _ _ => True) h w loadModel := by
  refine ensures_ask hh (fun _ _ _ _ => trivial) (fun w' env v _ htracked hreply => ?_)
    fun _ _ _ _ _ _ => trivial
  simp only [exec] at hreply ⊢
  cases haliased : w'.registry.aliased? PromoteModel.modelName PromoteModel.modelAlias with
  | none =>
    rw [haliased] at hreply
    cases hreply
  | some champion =>
    rw [haliased] at hreply
    cases hfault : env.fault with
    | some exc =>
      simp only [withFault, hfault] at hreply
      cases hreply
    | none =>
      simp only [withFault, hfault] at hreply ⊢
      obtain rfl := Except.ok.inj hreply
      obtain ⟨version, hversion, hfound⟩ := Option.bind_eq_some_iff.mp haliased
      obtain ⟨v', hv', htrained⟩ := htracked.champion version hversion
      obtain rfl := Option.some.inj (hfound.symm.trans hv')
      exact htrained

/-! ## All scripts -/

/-- What holds of one that has raised. -/
def HasRaised : Request → List LogEntry → PyExc → Prop
  | .promoteModel, h, exc => exc ∈ promotionErrors ∨ Blamed h exc ∨ Overfull h
  | _, _, _ => True

/-- The name of the run that a request leaves. -/
def Request.runName? : Request → Option String
  | .trainCatBoost => some "catboost_baseline"
  | .trainLightGbm => some "lightgbm_baseline"
  | .trainXgBoost => some "xgboost_baseline"
  | .selectBestModel => some "best_model_selection"
  | _ => none

/-- What holds of a process that has returned. -/
def Returned (r : Request) (i : ℕ) (w : World) (model : Option ModelVersion) : Prop :=
  (∀ runName, r.runName? = some runName → HasFinished i runName w) ∧
    (r = .loadModel → ∃ v, model = some v ∧ IsTrained w.registry v)

/-- It holds from then on. -/
theorem Returned.rely {r : Request} {model : Option ModelVersion} {w' : World}
    (hreturned : Returned r i w model) (hrely : Rely i w w') : Returned r i w' model := by
  refine ⟨fun runName hname => ?_, fun hload => ?_⟩
  · obtain ⟨run, howner, hfinished⟩ := hreturned.1 runName hname
    exact ⟨run, hrely.owner _ howner, hfinished.rely hrely⟩
  · obtain ⟨v, hv, htrained⟩ := hreturned.2 hload
    exact ⟨v, hv, htrained.mono hrely.closed⟩

/-- A script that leaves a run, and returns nothing. -/
theorem returned_of_hasFinished {r : Request} {runName : String} (hr : r.runName? = some runName)
    (h : HasFinished i runName w) (model : Option ModelVersion) : Returned r i w model := by
  refine ⟨fun name hname => ?_, ?_⟩
  · rw [← Option.some.inj (hr.symm.trans hname)]
    exact h
  · rintro rfl
    cases hr

/-- A promotion leaves nothing to tell of. -/
theorem returned_promoteModel (model : Option ModelVersion) : Returned .promoteModel i w model :=
  ⟨fun _ hname => (by cases hname), fun hload => (by cases hload)⟩

/-- A service that has loaded a trained model. -/
theorem returned_loadModel {v : ModelVersion} (h : IsTrained w.registry v) :
    Returned .loadModel i w (some v) :=
  ⟨fun _ hname => (by cases hname), fun _ => ⟨v, rfl, h⟩⟩

/-- Every request. -/
theorem ensures_serve (hserver : server.Documented) (hcomplete : CompleteSearch server)
    (r : Request) (i : ℕ) (w : World) :
    (system server).Ensures i (agreement.contract i) (fun _ w' model => Returned r i w' model)
      (fun h' _ exc => HasRaised r h' exc) [] w ((system server).program r) := by
  have hh : ∀ e ∈ ([] : List LogEntry), right e := fun _ he => (List.not_mem_nil he).elim
  cases r with
  | trainCatBoost =>
    refine (ensures_map _ _).mpr ?_
    exact (ensures_train hserver (by decide) uses_loadCheckedData obeys_calculateMetricsAgain _
      getCatFeatures 2 hh).mono (fun _ _ _ _ hrun => returned_of_hasFinished rfl hrun none)
      fun _ _ _ _ h => h
  | trainLightGbm =>
    refine (ensures_map _ _).mpr ?_
    exact (ensures_train hserver (by decide) uses_loadData obeys_calculateMetrics _ (fun _ => [])
      1 hh).mono (fun _ _ _ _ hrun => returned_of_hasFinished rfl hrun none) fun _ _ _ _ h => h
  | trainXgBoost =>
    refine (ensures_map _ _).mpr ?_
    exact (ensures_train hserver (by decide) uses_loadData obeys_calculateMetrics _ (fun _ => [])
      1 hh).mono (fun _ _ _ _ hrun => returned_of_hasFinished rfl hrun none) fun _ _ _ _ h => h
  | selectBestModel =>
    refine (ensures_map _ _).mpr ?_
    exact (ensures_selectBestModel hserver hh).mono
      (fun _ _ _ _ hrun => returned_of_hasFinished rfl hrun none) fun _ _ _ _ h => h
  | promoteModel =>
    refine (ensures_map _ _).mpr ?_
    refine (ensures_promoteModel hserver hcomplete hh).mono (fun _ w' _ _ _ => ?_)
      fun _ _ _ _ h => h
    exact returned_promoteModel none
  | loadModel =>
    refine (ensures_map _ _).mpr ?_
    refine (ensures_loadModel hh).mono (fun _ w' v _ htrained => ?_) fun _ _ _ _ _ => trivial
    exact returned_loadModel htrained

end Training

/-! ## Main result -/

/-- However the scripts and the service overlap, and whatever fails: the champion is a version that
a finished CatBoost run with a positive `roc_auc` has registered, so that the service loads nothing
else; a script that promotes raises for want of an experiment or a run, because a call has failed,
or if there are too many versions to search, and never for want of a version; and the run that a
training script has finished stays as it was when the script returned. -/
theorem champion_trained {server : MlflowServer} (hserver : server.Documented)
    (hcomplete : CompleteSearch server) {w : World} (hw : Tracked w) (events : List TrainingEvent) :
    let config := (system server).run w events
    (∀ version,
      config.world.registry.aliases PromoteModel.modelName PromoteModel.modelAlias = some version →
        ∃ v, config.world.registry.modelVersion? PromoteModel.modelName version = some v ∧
          IsTrained config.world.registry v) ∧
    (∀ (i : ℕ) model, config.callers[i]? = some ⟨.loadModel, some (.ret model)⟩ →
      ∃ v, model = some v ∧ IsTrained config.world.registry v) ∧
    (∀ (i : ℕ) exc, config.callers[i]? = some ⟨.promoteModel, some (.raise exc)⟩ →
      exc ∈ promotionErrors ∨ Blamed (own config.trace i) exc ∨ Overfull (own config.trace i)) ∧
    ∀ earlier, earlier <+: events →
      let returned := (system server).run w earlier
      ∀ (i : ℕ) r model runName, returned.callers[i]? = some ⟨r, some (.ret model)⟩ →
        r.runName? = some runName → ∃ run, returned.world.owner run.runId = some i ∧
          Finished runName run returned.world.registry ∧
            Finished runName run config.world.registry := by
  intro config
  have hagreed (events : List TrainingEvent) := agreed_run (agreement_sound hserver)
    (fun r i w => ensures_serve hserver hcomplete r i w) hw events
  have hreturned (events : List TrainingEvent) {i : ℕ} {r : Request} {model : Option ModelVersion}
      (hi : ((system server).run w events).callers[i]? = some ⟨r, some (.ret model)⟩) :
      Returned r i ((system server).run w events).world model := by
    obtain ⟨w', hrely, hreturned⟩ := (hagreed events).returned hi
    exact Returned.rely hreturned hrely
  refine ⟨(hagreed events).invariant.champion, fun i model hi => ?_, fun i exc hi => ?_, ?_⟩
  · exact (hreturned events hi).2 rfl
  · obtain ⟨w', -, hraised⟩ := (hagreed events).raised hi
    exact hraised
  · rintro earlier ⟨later, hevents⟩ returned i r model runName hi hname
    obtain ⟨run, howner, hfinished⟩ := (hreturned earlier hi).1 runName hname
    have hrely := rely_run (agreement_sound hserver)
      (fun r i w => ensures_serve hserver hcomplete r i w) hw earlier later le_rfl
    rw [hevents] at hrely
    exact ⟨run, howner, hfinished, hfinished.rely hrely⟩

/-- The server that answers from its registry finds all versions. -/
theorem trackingServer_completeSearch : CompleteSearch trackingServer := by
  intro r name versions hversions _ v hv
  rw [← Except.ok.inj hversions]
  exact hv

/-- A server on which nothing has happened. -/
def emptyWorld : World where
  registry :=
    { experiments := fun _ => none, runs := .empty, modelVersions := .empty
      aliases := fun _ _ => none }

/-- Nothing has gone wrong on it. -/
theorem tracked_emptyWorld : Tracked emptyWorld where
  owned _ _ h := by cases h
  registered _ _ h := by cases h
  champion _ h := by cases h

/-- The model that a process has loaded. -/
def loadedBy (config : Config Op Op.Reply PyExc Env World Request (Option ModelVersion)) (i : ℕ) :
    Option ModelVersion :=
  match config.callers[i]? with
  | some ⟨.loadModel, some (.ret model)⟩ => model
  | _ => none

/-- It has returned it. -/
theorem callers_of_loadedBy
    {config : Config Op Op.Reply PyExc Env World Request (Option ModelVersion)} {i : ℕ}
    {v : ModelVersion} (h : loadedBy config i = some v) :
    config.callers[i]? = some ⟨.loadModel, some (.ret (some v))⟩ := by
  unfold loadedBy at h
  split at h
  · rename_i model hi
    rw [hi, h]
  · cases h

/-- The CatBoost script of a process has returned. -/
def hasReturned (config : Config Op Op.Reply PyExc Env World Request (Option ModelVersion))
    (i : ℕ) : Bool :=
  match config.callers[i]? with
  | some ⟨.trainCatBoost, some (.ret none)⟩ => true
  | _ => false

/-- Nothing is left of its program. -/
theorem callers_of_hasReturned
    {config : Config Op Op.Reply PyExc Env World Request (Option ModelVersion)} {i : ℕ}
    (h : hasReturned config i) : config.callers[i]? = some ⟨.trainCatBoost, some (.ret none)⟩ := by
  unfold hasReturned at h
  split at h
  · assumption
  · cases h

/-- While a LightGBM script dies, a CatBoost script finishes; its model is promoted and loaded, and
its run is still as it was. -/
theorem champion_trained_loaded :
    let first : Env := { newId := "1", version := "1" }
    let second : Env := { newId := "2", version := "1" }
    let earlier : List TrainingEvent :=
      [.arrive .trainCatBoost, .arrive .trainLightGbm] ++ List.replicate 7 (.step 1 second) ++
        List.replicate 20 (.step 0 first)
    let later : List TrainingEvent :=
      [.crash 1, .arrive .promoteModel] ++ List.replicate 5 (.step 2 first) ++
        [.arrive .loadModel, .step 3 first]
    let events := earlier ++ later
    let returned := (system trackingServer).run emptyWorld earlier
    let config := (system trackingServer).run emptyWorld events
    (∃ v, loadedBy config 3 = some v ∧ v.version = "1" ∧ IsTrained config.world.registry v) ∧
      ∃ run, returned.world.owner run.runId = some 0 ∧
        Finished "catboost_baseline" run returned.world.registry ∧
          Finished "catboost_baseline" run config.world.registry := by
  intro first second earlier later events
  have hversion : (loadedBy ((system trackingServer).run emptyWorld events) 3).map (·.version) =
      some "1" := by decide +kernel
  have hdone : hasReturned ((system trackingServer).run emptyWorld earlier) 0 = true := by
    decide +kernel
  obtain ⟨-, hloads, -, hleft⟩ := champion_trained trackingServer_documented
    trackingServer_completeSearch tracked_emptyWorld events
  have hsaved := hleft earlier (List.prefix_append _ _) 0 .trainCatBoost none "catboost_baseline"
  generalize (system trackingServer).run emptyWorld events = config at hversion hloads hsaved ⊢
  generalize (system trackingServer).run emptyWorld earlier = returned at hdone hsaved ⊢
  obtain ⟨v, hloaded, hv⟩ := Option.map_eq_some_iff.mp hversion
  obtain ⟨v', hv', htrained⟩ := hloads 3 (some v) (callers_of_loadedBy hloaded)
  obtain rfl := Option.some.inj hv'
  exact ⟨⟨v, hloaded, hv, htrained⟩, hsaved (callers_of_hasReturned hdone) rfl⟩

end CreditScoringMlops.Training
