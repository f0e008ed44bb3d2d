import CreditScoringMlops.Data.Runs
import CreditScoringMlops.Promotion.PromotionGate

/-!
# The champion over time

Training runs register versions, reviews compare a version with the champion of that moment, and
two ways of promoting move the alias: `execute` with an earlier review, and the script, which looks
at recency alone. The champion never gets worse exactly if every promotion of a run could still be
justified against the champion that it replaces.
-/

namespace CreditScoringMlops.Promotion

open Python Interaction Data

/-! ## What the script does -/

/-- Everything between the start of `promote_model.py` and the move of the alias. -/
structure PromotesRun (server : MlflowServer) (env : ℕ → MlflowEnv) (r : Registry)
    (latestRun : MlflowRun) (version : ModelVersion) : Prop where
  selected : ∃ experimentId rest,
    (server.exec (.getExperimentByName PromoteModel.experimentName) (env 0) r).1 =
      .ok (some experimentId) ∧
    (server.exec (.searchRuns (PromoteModel.query experimentId)) (env 1) r).1 =
      .ok (latestRun :: rest)
  matched : ∃ versions,
    (server.exec (.searchModelVersions PromoteModel.modelName) (env 2) r).1 = .ok versions ∧
    versions.find? (fun v => decide (v.runId = some latestRun.runId)) = some version
  written : (server.exec (.setRegisteredModelAlias PromoteModel.modelName PromoteModel.modelAlias
      version.version) (env 3) r).2 =
    r.setAlias PromoteModel.modelName PromoteModel.modelAlias version.version

variable {server : MlflowServer} {env : ℕ → MlflowEnv} {r : Registry}

/-- The last call of the script. -/
theorem runFrom_callMlflow_snd {k : ℕ} (op : MlflowOp) :
    (server.runFrom env k r (callMlflow op)).2 = (server.exec op (env k) r).2 := by
  change (server.runFrom env (k + 1) (server.exec op (env k) r).2
    (Program.ofExcept (server.exec op (env k) r).1)).2 = _
  generalize (server.exec op (env k) r).1 = reply
  cases reply <;> rfl

/-- The selected run has the metric that the search asks for. -/
theorem metric_of_query {experimentId : String} {run : MlflowRun}
    (h : (PromoteModel.query experimentId).accepts run = true) :
    (run.metrics.get? PromoteModel.metricName).isSome := by
  simp only [RunQuery.accepts, PromoteModel.query, Bool.and_eq_true, Option.all_some] at h
  cases hmetric : run.metrics.get? PromoteModel.metricName with
  | none => simp [hmetric] at h
  | some x => rfl

/-- The end of the script, from the run it has selected. -/
theorem runFrom_promoteRun_snd (hserver : server.Documented) {latestRun : MlflowRun}
    (hmetric : (latestRun.metrics.get? PromoteModel.metricName).isSome) :
    (server.runFrom env 2 r (PromoteModel.promoteRun latestRun)).2 =
      match (server.exec (.searchModelVersions PromoteModel.modelName) (env 2) r).1 with
      | .error _ => r
      | .ok versions =>
        match versions.find? fun v => decide (v.runId = some latestRun.runId) with
        | none => r
        | some version => (server.exec (.setRegisteredModelAlias PromoteModel.modelName
            PromoteModel.modelAlias version.version) (env 3) r).2 := by
  have hread := exec_readOnly hserver
    (show (MlflowOp.searchModelVersions PromoteModel.modelName).ReadOnly from trivial) (env 2) r
  unfold PromoteModel.promoteRun
  rw [if_neg (by simpa [Option.isSome_iff_ne_none] using hmetric), runFrom_callMlflow_bind, hread]
  cases (server.exec (.searchModelVersions PromoteModel.modelName) (env 2) r).1 with
  | error exc => rfl
  | ok versions =>
    dsimp only
    cases versions.find? fun v => decide (v.runId = some latestRun.runId) with
    | none => rfl
    | some version =>
      dsimp only
      rw [runFrom_callMlflow_snd]

/-- The script from its start. -/
theorem run_main_snd (hserver : server.Documented) :
    (server.run env r PromoteModel.main).2 =
      match (server.exec (.getExperimentByName PromoteModel.experimentName) (env 0) r).1 with
      | .ok (some experimentId) =>
        match (server.exec (.searchRuns (PromoteModel.query experimentId)) (env 1) r).1 with
        | .ok (latestRun :: _) => (server.runFrom env 2 r (PromoteModel.promoteRun latestRun)).2
        | _ => r
      | _ => r := by
  have hexperiment := exec_readOnly hserver
    (show (MlflowOp.getExperimentByName PromoteModel.experimentName).ReadOnly from trivial) (env 0) r
  unfold PromoteModel.main
  rw [MlflowServer.run, runFrom_callMlflow_bind, hexperiment]
  cases (server.exec (.getExperimentByName PromoteModel.experimentName) (env 0) r).1 with
  | error exc => rfl
  | ok found =>
    cases found with
    | none => rfl
    | some experimentId =>
      have hsearch := exec_readOnly hserver
        (show (MlflowOp.searchRuns (PromoteModel.query experimentId)).ReadOnly from trivial)
        (env 1) r
      dsimp only
      rw [runFrom_callMlflow_bind, Nat.zero_add, hsearch]
      cases (server.exec (.searchRuns (PromoteModel.query experimentId)) (env 1) r).1 with
      | error exc => rfl
      | ok runs => cases runs <;> rfl

/-- Where everything is in order, the script moves the alias. -/
theorem PromotesRun.run_main_snd (hserver : server.Documented) {latestRun : MlflowRun}
    {version : ModelVersion} (h : PromotesRun server env r latestRun version) :
    (server.run env r PromoteModel.main).2 =
      r.setAlias PromoteModel.modelName PromoteModel.modelAlias version.version := by
  obtain ⟨experimentId, rest, hexperiment, hruns⟩ := h.selected
  obtain ⟨versions, hversions, hfind⟩ := h.matched
  have haccepts := (mem_searchRuns hserver (call_of_exec hruns) List.mem_cons_self).2
  rw [Promotion.run_main_snd hserver, hexperiment]
  dsimp only
  rw [hruns]
  dsimp only
  rw [runFrom_promoteRun_snd hserver (metric_of_query haccepts), hversions]
  dsimp only
  rw [hfind]
  exact h.written

/-- The script moves the alias to the version of the run it selected, or leaves the registry. -/
theorem run_main_cases (hserver : server.Documented) (env : ℕ → MlflowEnv) (r : Registry) :
    (∃ latestRun version, PromotesRun server env r latestRun version ∧
      (server.run env r PromoteModel.main).2 =
        r.setAlias PromoteModel.modelName PromoteModel.modelAlias version.version) ∨
    (server.run env r PromoteModel.main).2 = r := by
  rw [run_main_snd hserver]
  cases hexperiment : (server.exec (.getExperimentByName PromoteModel.experimentName)
    (env 0) r).1 with
  | error exc => exact .inr rfl
  | ok found =>
    cases found with
    | none => exact .inr rfl
    | some experimentId =>
      dsimp only
      cases hruns : (server.exec (.searchRuns (PromoteModel.query experimentId)) (env 1) r).1 with
      | error exc => exact .inr rfl
      | ok runs =>
        cases runs with
        | nil => exact .inr rfl
        | cons latestRun rest =>
          have haccepts := (mem_searchRuns hserver (call_of_exec hruns) List.mem_cons_self).2
          dsimp only
          rw [runFrom_promoteRun_snd hserver (metric_of_query haccepts)]
          cases hversions : (server.exec (.searchModelVersions PromoteModel.modelName)
            (env 2) r).1 with
          | error exc => exact .inr rfl
          | ok versions =>
            dsimp only
            cases hfind : versions.find? fun v => decide (v.runId = some latestRun.runId) with
            | none => exact .inr rfl
            | some version =>
              refine (exec_setRegisteredModelAlias hserver (env 3) r _ _ _).symm.imp
                (fun hwritten => ?_) id
              exact ⟨latestRun, version, ⟨⟨experimentId, rest, hexperiment, hruns⟩,
                ⟨versions, hversions, hfind⟩, hwritten⟩, hwritten⟩

/-! ## The `roc_auc` of the champion -/

/-- The metrics of the version under the champion alias; none without a champion. -/
def Registry.championMetrics (r : Registry) : Metrics :=
  ((r.aliased? PromoteModel.modelName PromoteModel.modelAlias).map r.metricsOf).getD []

/-- The `roc_auc` of the version under the champion alias. -/
def Registry.championRocAuc (r : Registry) : Option PyFloat := r.championMetrics.get? "roc_auc"

/-- The second value is not below the first: nothing is below a missing value, and a value stays or
is replaced by one that is at least as large. -/
def NotBelow : Option PyFloat → Option PyFloat → Prop
  | none, _ => True
  | some x, later => later = some x ∨ ∃ y, later = some y ∧ y.ge x = true

/-- A value is not below itself. -/
theorem NotBelow.refl (x : Option PyFloat) : NotBelow x x := by
  cases x with
  | none => trivial
  | some x => exact .inl rfl

/-- Nor is an equal one. -/
theorem NotBelow.of_eq {x y : Option PyFloat} (h : y = x) : NotBelow x y := h ▸ .refl x

/-- A smaller value is below. -/
theorem not_notBelow {x y : PyFloat} (hne : y ≠ x) (hge : y.ge x = false) :
    ¬NotBelow (some x) (some y) := by
  rintro (heq | ⟨z, heq, h⟩)
  · exact hne (Option.some.inj heq)
  · obtain rfl := Option.some.inj heq
    exact absurd h (by rw [hge]; decide)

/-- The order is transitive. -/
theorem NotBelow.trans {x y z : Option PyFloat} (hxy : NotBelow x y) (hyz : NotBelow y z) :
    NotBelow x z := by
  cases x with
  | none => trivial
  | some x =>
    obtain rfl | ⟨y, rfl, hge⟩ := hxy
    · exact hyz
    · obtain rfl | ⟨z, rfl, hge'⟩ := hyz
      · exact .inr ⟨y, rfl, hge⟩
      · exact .inr ⟨z, rfl, PyFloat.ge_trans hge' hge⟩

/-- What is stored stays stored: a registry with more runs, more versions and other aliases. -/
structure Registry.Extends (r r' : Registry) : Prop where
  runs : ∀ runId run, r.run? runId = some run → r'.run? runId = some run
  modelVersions : ∀ name version v, r.modelVersion? name version = some v →
    r'.modelVersion? name version = some v

namespace Registry

/-- Nothing has to be added. -/
theorem Extends.of_eq {r r' : Registry} (h : r' = r) : r.Extends r' := by
  subst h
  exact ⟨fun _ _ h => h, fun _ _ _ h => h⟩

/-- Moving an alias adds nothing and loses nothing. -/
theorem extends_setAlias (r : Registry) (name modelAlias version : String) :
    r.Extends (r.setAlias name modelAlias version) := ⟨fun _ _ h => h, fun _ _ _ h => h⟩

/-- A training run adds a run and a version. -/
theorem extends_register (r : Registry) (run : MlflowRun) (v : ModelVersion) :
    r.Extends (r.register run v) :=
  ⟨fun _ _ h => Keyed.find?_insert_of_find? h, fun _ _ _ h => Keyed.find?_insert_of_find? h⟩

/-- A metric of a version keeps its value. -/
theorem Extends.metric {r r' : Registry} (h : r.Extends r') {v : ModelVersion} {name : String}
    {x : PyFloat} (hx : (r.metricsOf v).get? name = some x) :
    (r'.metricsOf v).get? name = some x := by
  unfold metricsOf at hx ⊢
  cases hrunId : v.runId with
  | none => simp [hrunId, Metrics.get?] at hx
  | some runId =>
    rw [hrunId, Option.bind_some] at hx
    cases hrun : r.run? runId with
    | none => simp [hrun, Metrics.get?] at hx
    | some run =>
      rw [hrun] at hx
      rw [Option.bind_some, h.runs runId run hrun]
      exact hx

/-- Without a move of the alias the champion keeps its `roc_auc`. -/
theorem Extends.championRocAuc {r r' : Registry} (h : r.Extends r')
    (haliases : r'.aliases = r.aliases) : NotBelow r.championRocAuc r'.championRocAuc := by
  cases hx : r.championRocAuc with
  | none => trivial
  | some x =>
    refine .inl ?_
    unfold Registry.championRocAuc championMetrics aliased? at hx ⊢
    rw [haliases]
    cases halias : r.aliases PromoteModel.modelName PromoteModel.modelAlias with
    | none => simp [halias, Metrics.get?] at hx
    | some version =>
      rw [halias, Option.bind_some] at hx
      cases hversion : r.modelVersion? PromoteModel.modelName version with
      | none => simp [hversion, Metrics.get?] at hx
      | some v =>
        rw [hversion] at hx
        rw [Option.bind_some, h.modelVersions _ _ _ hversion]
        exact h.metric hx

/-- After a move of the alias the champion's `roc_auc` is that of the version. -/
theorem championRocAuc_setAlias {r : Registry} {v : ModelVersion}
    (h : r.modelVersion? PromoteModel.modelName v.version = some v) :
    (r.setAlias PromoteModel.modelName PromoteModel.modelAlias v.version).championRocAuc =
      (r.metricsOf v).get? "roc_auc" := by
  unfold championRocAuc championMetrics aliased?
  rw [setAlias_aliases, Option.bind_some, setAlias_modelVersion?, h]
  rfl

end Registry

/-! ## Runs -/

/-- The registry, and the reviews made so far with the versions they are about. -/
structure PromotionState where
  registry : Registry
  reviews : List (String × Dict)

/-- What happens: a training run logs a run and registers a version, a version is reviewed, a review
is used by the workflow, or the script runs. -/
inductive PromotionStep where
  | train (run : MlflowRun) (name version : String)
  | review (version : String)
  | execute (review : ℕ) (humanApproved : Bool) (env : ℕ → MlflowEnv)
  | promoteModel (env : ℕ → MlflowEnv)

/-- The version that a training run registers. -/
def versionOf (run : MlflowRun) (name version : String) : ModelVersion where
  name := name
  version := version
  runId := some run.runId
  status := "READY"

/-- One step. -/
def promotionStep (server : MlflowServer) (reviewer : ReviewerAgent) (s : PromotionState) :
    PromotionStep → PromotionState
  | .train run name version =>
    { s with registry := s.registry.register run (versionOf run name version) }
  | .review version =>
    match s.registry.modelVersion? PromoteModel.modelName version with
    | none => s
    | some v => { s with reviews := s.reviews ++
        [(version, reviewer.review s.registry.championMetrics (s.registry.metricsOf v))] }
  | .execute review humanApproved env =>
    match s.reviews[review]? with
    | none => s
    | some (version, evaluation) => { s with registry := (server.run env s.registry
        (ModelPromotionWorkflow.execute {} version evaluation humanApproved)).2 }
  | .promoteModel env =>
    { s with registry := (server.run env s.registry PromoteModel.main).2 }

/-- The state after a run without reviews at its start. -/
def promotionRun (server : MlflowServer) (reviewer : ReviewerAgent) (r : Registry)
    (steps : List PromotionStep) : PromotionState :=
  steps.foldl (promotionStep server reviewer) ⟨r, []⟩

/-- The `roc_auc` of the champion never decreases between two moments of a run. -/
def NeverWorse (server : MlflowServer) (reviewer : ReviewerAgent) (r : Registry)
    (steps : List PromotionStep) : Prop :=
  ∀ earlier later rest, steps = earlier ++ later ++ rest →
    NotBelow (promotionRun server reviewer r earlier).registry.championRocAuc
      (promotionRun server reviewer r (earlier ++ later)).registry.championRocAuc

/-- A float in a dictionary. -/
def floatAt (d : Dict) (key : String) : Option PyFloat :=
  match d.get? key with
  | some (.float x) => some x
  | _ => none

/-- A promotion is still justified when it is made. A review is, if the champion of that moment is
not better than the one it was made against, or not better than the candidate; the script's choice
is, if the champion is not better than the selected run. -/
def Justified (server : MlflowServer) (s : PromotionState) : PromotionStep → Prop
  | .train _ _ _ => True
  | .review _ => True
  | .execute review humanApproved env =>
    ∀ version evaluation candidate, s.reviews[review]? = some (version, evaluation) →
      Promotable server env {} s.registry version evaluation humanApproved candidate →
        NotBelow s.registry.championRocAuc (floatAt evaluation "champion_roc_auc") ∨
          NotBelow s.registry.championRocAuc (floatAt evaluation "candidate_roc_auc")
  | .promoteModel env => ∀ latestRun version, PromotesRun server env s.registry latestRun version →
    NotBelow s.registry.championRocAuc (latestRun.metrics.get? PromoteModel.metricName)

variable {reviewer : ReviewerAgent}

/-! ## Reviews and the registry -/

/-- A review is about a registered version, whose metrics it has seen. -/
def Genuine (reviewer : ReviewerAgent) (r : Registry) (version : String) (evaluation : Dict) :
    Prop :=
  ∃ v champion candidate, r.modelVersion? PromoteModel.modelName version = some v ∧
    evaluation = reviewer.review champion candidate ∧
    ∀ x, candidate.get? "roc_auc" = some x → (r.metricsOf v).get? "roc_auc" = some x

/-- It stays so. -/
theorem Genuine.extends {r r' : Registry} (h : r.Extends r') {version : String} {evaluation : Dict}
    (hgenuine : Genuine reviewer r version evaluation) : Genuine reviewer r' version evaluation := by
  obtain ⟨v, champion, candidate, hversion, hreview, hmetric⟩ := hgenuine
  exact ⟨v, champion, candidate, h.modelVersions _ _ _ hversion, hreview,
    fun x hx => h.metric (hmetric x hx)⟩

/-- Every step only adds to the registry. -/
theorem extends_promotionStep (hserver : server.Documented) (reviewer : ReviewerAgent)
    (s : PromotionState) (a : PromotionStep) :
    s.registry.Extends (promotionStep server reviewer s a).registry := by
  cases a with
  | train run name version => exact Registry.extends_register _ _ _
  | review version =>
    simp only [promotionStep]
    split <;> exact .of_eq rfl
  | execute review humanApproved env =>
    simp only [promotionStep]
    split
    · exact .of_eq rfl
    · rename_i version evaluation _
      obtain ⟨candidate, -, hworld⟩ | ⟨-, hworld⟩ :=
        run_execute_snd hserver env s.registry {} version evaluation humanApproved
      · exact hworld ▸ Registry.extends_setAlias _ _ _ _
      · exact .of_eq hworld
  | promoteModel env =>
    simp only [promotionStep]
    obtain ⟨latestRun, version, -, hworld⟩ | hworld := run_main_cases hserver env s.registry
    · exact hworld ▸ Registry.extends_setAlias _ _ _ _
    · exact .of_eq hworld

/-- Every review of a run is genuine. -/
theorem genuine_promotionStep (hserver : server.Documented) (s : PromotionState)
    (a : PromotionStep)
    (h : ∀ review ∈ s.reviews, Genuine reviewer s.registry review.1 review.2) :
    ∀ review ∈ (promotionStep server reviewer s a).reviews,
      Genuine reviewer (promotionStep server reviewer s a).registry review.1 review.2 := by
  have hextends := extends_promotionStep hserver reviewer s a
  have hold : ∀ review ∈ s.reviews,
      Genuine reviewer (promotionStep server reviewer s a).registry review.1 review.2 :=
    fun review hreview => (h review hreview).extends hextends
  cases a with
  | train run name version => exact hold
  | review version =>
    simp only [promotionStep] at hold ⊢
    split
    · exact h
    · rename_i v hversion
      intro review hreview
      rcases List.mem_append.mp hreview with hreview | hreview
      · exact h review hreview
      · obtain rfl := List.mem_singleton.mp hreview
        exact ⟨v, _, _, hversion, rfl, fun _ hx => hx⟩
  | execute review humanApproved env =>
    simp only [promotionStep] at hold ⊢
    split
    · exact h
    · rename_i version evaluation hheld
      rw [hheld] at hold
      exact hold
  | promoteModel env => exact hold

/-! ## One step -/

/-- What a review has recorded. -/
theorem floatAt_review (reviewer : ReviewerAgent) (champion candidate : Metrics) :
    floatAt (reviewer.review champion candidate) "champion_roc_auc" = champion.get? "roc_auc" ∧
      floatAt (reviewer.review champion candidate) "candidate_roc_auc" =
        candidate.get? "roc_auc" := by
  constructor
  · change (match some (optionFloat (champion.get? "roc_auc")) with
      | some (.float x) => some x
      | _ => none) = _
    cases champion.get? "roc_auc" <;> rfl
  · change (match some (optionFloat (candidate.get? "roc_auc")) with
      | some (.float x) => some x
      | _ => none) = _
    cases candidate.get? "roc_auc" <;> rfl

/-- An approved review has compared two values, and the candidate's is not below. -/
theorem notBelow_of_approved (hmin : reviewer.config.minRocAucImprovement.ge (.finite 0) = true)
    {champion candidate : Metrics}
    (h : Dict.isTrueAt (reviewer.review champion candidate) "approved" = true) :
    NotBelow (champion.get? "roc_auc") (candidate.get? "roc_auc") := by
  have hpasses : reviewer.passes champion candidate = true := h
  have himproves := ((reviewer.passes_iff champion candidate).mp hpasses).2.2.2
  unfold ReviewerAgent.improves at himproves
  cases hchampion : champion.get? "roc_auc" with
  | none => trivial
  | some championAuc =>
    cases hcandidate : candidate.get? "roc_auc" with
    | none => simp [hchampion, hcandidate] at himproves
    | some candidateAuc =>
      rw [hchampion, hcandidate] at himproves
      exact .inr ⟨candidateAuc, rfl, PyFloat.ge_of_ge_add hmin himproves⟩

/-- An approved review has seen the candidate's `roc_auc`. -/
theorem candidate_of_approved {champion candidate : Metrics}
    (h : Dict.isTrueAt (reviewer.review champion candidate) "approved" = true) :
    ∃ x, candidate.get? "roc_auc" = some x := by
  have hpasses : reviewer.passes champion candidate = true := h
  have hmeets := ((reviewer.passes_iff champion candidate).mp hpasses).1
  cases hcandidate : candidate.get? "roc_auc" with
  | none => simp [hcandidate, ReviewerAgent.meets] at hmeets
  | some x => exact ⟨x, rfl⟩

/-- A use of a genuine review does not make the champion worse exactly if it is justified. -/
theorem execute_notBelow_iff (hserver : server.Documented)
    (hmin : reviewer.config.minRocAucImprovement.ge (.finite 0) = true) {version : String}
    {evaluation : Dict} {humanApproved : Bool} (hgenuine : Genuine reviewer r version evaluation) :
    NotBelow r.championRocAuc (server.run env r
        (ModelPromotionWorkflow.execute {} version evaluation humanApproved)).2.championRocAuc ↔
      ∀ candidate, Promotable server env {} r version evaluation humanApproved candidate →
        NotBelow r.championRocAuc (floatAt evaluation "champion_roc_auc") ∨
          NotBelow r.championRocAuc (floatAt evaluation "candidate_roc_auc") := by
  obtain ⟨v, champion, candidateMetrics, hversion, rfl, hmetric⟩ := hgenuine
  obtain ⟨hchampion, hcandidate⟩ := floatAt_review reviewer champion candidateMetrics
  rw [hchampion, hcandidate]
  obtain ⟨candidate, hpromotable, hworld⟩ | ⟨hnone, hworld⟩ := run_execute_snd hserver env r {}
    version (reviewer.review champion candidateMetrics) humanApproved
  · have hfound := hserver.getModelVersion _ _ _ _ (call_of_exec hpromotable.found)
    obtain rfl : candidate = v := hfound.2 v hversion
    obtain ⟨x, hx⟩ := candidate_of_approved hpromotable.approved
    have hafter : (server.run env r (ModelPromotionWorkflow.execute {} version
        (reviewer.review champion candidateMetrics) humanApproved)).2.championRocAuc =
        candidateMetrics.get? "roc_auc" := by
      rw [hworld, hx, ← hmetric x hx]
      exact Registry.championRocAuc_setAlias hfound.1
    rw [hafter]
    constructor
    · exact fun hbelow _ _ => .inr hbelow
    · intro h
      -- the review itself has compared the candidate with the champion of its moment
      obtain hfresh | hbelow := h candidate hpromotable
      · exact hfresh.trans (notBelow_of_approved hmin hpromotable.approved)
      · exact hbelow
  · rw [hworld]
    exact iff_of_true (.refl _) fun candidate h => absurd h (hnone candidate)

/-- An execution of the script does not make the champion worse exactly if it is justified. -/
theorem main_notBelow_iff (hserver : server.Documented) :
    NotBelow r.championRocAuc (server.run env r PromoteModel.main).2.championRocAuc ↔
      ∀ latestRun version, PromotesRun server env r latestRun version →
        NotBelow r.championRocAuc (latestRun.metrics.get? PromoteModel.metricName) := by
  have hafter : ∀ latestRun version, PromotesRun server env r latestRun version →
      (server.run env r PromoteModel.main).2.championRocAuc =
        latestRun.metrics.get? PromoteModel.metricName := by
    intro latestRun version h
    obtain ⟨experimentId, rest, -, hruns⟩ := h.selected
    obtain ⟨versions, hversions, hfind⟩ := h.matched
    have hrun := (mem_searchRuns hserver (call_of_exec hruns) List.mem_cons_self).1
    obtain ⟨hname, hmem⟩ := hserver.searchModelVersions _ _ _ (call_of_exec hversions) version
      (List.mem_of_find?_eq_some hfind)
    have hrunId : version.runId = some latestRun.runId := by simpa using List.find?_some hfind
    have hregistered : r.modelVersion? PromoteModel.modelName version.version = some version := by
      rw [← hname]
      exact Keyed.find?_key_of_mem hmem
    rw [h.run_main_snd hserver, Registry.championRocAuc_setAlias hregistered]
    simp only [Registry.metricsOf, hrunId, Option.bind_some, hrun, Option.map_some,
      Option.getD_some, PromoteModel.metricName]
  constructor
  · intro hbelow latestRun version h
    rwa [hafter latestRun version h] at hbelow
  · intro h
    obtain ⟨latestRun, version, hpromotes, -⟩ | hworld := run_main_cases hserver env r
    · rw [hafter latestRun version hpromotes]
      exact h latestRun version hpromotes
    · rw [hworld]
      exact .refl _

/-- A step does not make the champion worse exactly if it is justified. -/
theorem promotionStep_notBelow_iff (hserver : server.Documented)
    (hmin : reviewer.config.minRocAucImprovement.ge (.finite 0) = true) {s : PromotionState}
    (hs : ∀ review ∈ s.reviews, Genuine reviewer s.registry review.1 review.2)
    (a : PromotionStep) :
    NotBelow s.registry.championRocAuc (promotionStep server reviewer s a).registry.championRocAuc ↔
      Justified server s a := by
  cases a with
  | train run name version =>
    exact iff_of_true ((Registry.extends_register _ _ _).championRocAuc rfl) trivial
  | review version =>
    refine iff_of_true ?_ trivial
    simp only [promotionStep]
    split <;> exact .refl _
  | execute review humanApproved env =>
    simp only [promotionStep, Justified]
    cases hheld : s.reviews[review]? with
    | none => exact iff_of_true (.refl _) fun _ _ _ h => by cases h
    | some held =>
      obtain ⟨version, evaluation⟩ := held
      have hgenuine := hs _ (List.mem_of_getElem? hheld)
      refine (execute_notBelow_iff hserver hmin hgenuine).trans ?_
      constructor
      · rintro h _ _ candidate heq
        cases heq
        exact h candidate
      · exact fun h candidate => h version evaluation candidate rfl
  | promoteModel env => exact main_notBelow_iff hserver

/-! ## A run -/

/-- In every run, the champion never gets worse exactly if every step of it is justified. -/
theorem neverWorse_iff (hserver : server.Documented)
    (hmin : reviewer.config.minRocAucImprovement.ge (.finite 0) = true) (r : Registry)
    (steps : List PromotionStep) :
    NeverWorse server reviewer r steps ↔
      ∀ pre a post, steps = pre ++ a :: post →
        Justified server (promotionRun server reviewer r pre) a := by
  have hgenuine : ∀ pre, ∀ review ∈ (promotionRun server reviewer r pre).reviews,
      Genuine reviewer (promotionRun server reviewer r pre).registry review.1 review.2 :=
    fun pre => foldl_invariant (promotionStep server reviewer)
      (I := fun s => ∀ review ∈ s.reviews, Genuine reviewer s.registry review.1 review.2)
      (fun s a h => genuine_promotionStep hserver s a h) pre (s := ⟨r, []⟩) (by simp)
  refine (foldl_relates_iff (promotionStep server reviewer)
    (R := fun s s' => NotBelow s.registry.championRocAuc s'.registry.championRocAuc)
    (fun s => .refl _) (fun _ _ _ hab hbc => hab.trans hbc) steps ⟨r, []⟩).trans ?_
  refine forall_congr' fun pre => forall_congr' fun a => forall_congr' fun post => ?_
  exact imp_congr_right fun _ => promotionStep_notBelow_iff hserver hmin (hgenuine pre) a

/-- A finished run of the promoted family. -/
def catboostRun (runId : String) (startTime : ℤ) (rocAuc : ℚ) : MlflowRun where
  runId := runId
  experimentId := "1"
  runName := some "catboost_baseline"
  status := .finished
  startTime := startTime
  metrics := [("roc_auc", .finite rocAuc), ("recall", .finite (7 / 10)),
    ("precision", .finite (3 / 5))]
  params := []

/-- Version 3 is reviewed against the first champion and used after a better one has come. -/
def staleReview : List PromotionStep :=
  [.review "3", .train (catboostRun "run-d" 4 (95 / 100)) "CreditScoringCatBoost" "4",
    .promoteModel noFaults, .execute 0 true noFaults]

/-- A worse model is trained, and the script promotes it because it is the newest. -/
def newestRun : List PromotionStep :=
  [.train (catboostRun "run-d" 4 (60 / 100)) "CreditScoringCatBoost" "4", .promoteModel noFaults]

/-- The use of the stale review replaces a champion of 0.95 by one of 0.90, and the script replaces
one of 0.85 by one of 0.60. -/
theorem champion_gets_worse :
    (promotionRun trackingServer {} threeVersions (staleReview.take 3)).registry.championRocAuc =
        some (.finite (95 / 100)) ∧
      (promotionRun trackingServer {} threeVersions staleReview).registry.championRocAuc =
        some (.finite (90 / 100)) ∧
      ¬NeverWorse trackingServer {} threeVersions staleReview ∧
      (promotionRun trackingServer {} threeVersions (newestRun.take 1)).registry.championRocAuc =
        some (.finite (85 / 100)) ∧
      (promotionRun trackingServer {} threeVersions newestRun).registry.championRocAuc =
        some (.finite (60 / 100)) ∧
      ¬NeverWorse trackingServer {} threeVersions newestRun := by
  have hbetter : (promotionRun trackingServer {} threeVersions
      (staleReview.take 3)).registry.championRocAuc = some (.finite (95 / 100)) := by decide +kernel
  have hstale : (promotionRun trackingServer {} threeVersions
      staleReview).registry.championRocAuc = some (.finite (90 / 100)) := by decide +kernel
  have htrained : (promotionRun trackingServer {} threeVersions
      (newestRun.take 1)).registry.championRocAuc = some (.finite (85 / 100)) := by decide +kernel
  have hnewest : (promotionRun trackingServer {} threeVersions
      newestRun).registry.championRocAuc = some (.finite (60 / 100)) := by decide +kernel
  refine ⟨hbetter, hstale, fun h => ?_, htrained, hnewest, fun h => ?_⟩
  · have hbelow := h (staleReview.take 3) (staleReview.drop 3) [] rfl
    rw [hbetter, List.take_append_drop, hstale] at hbelow
    exact not_notBelow (by decide +kernel) (by decide +kernel) hbelow
  · have hbelow := h (newestRun.take 1) (newestRun.drop 1) [] rfl
    rw [htrained, List.take_append_drop, hnewest] at hbelow
    exact not_notBelow (by decide +kernel) (by decide +kernel) hbelow

/-- A review that is used before anything else happens is justified. -/
theorem neverWorse_iff_fresh :
    NeverWorse trackingServer {} threeVersions [.review "3", .execute 0 true noFaults] := by
  refine (neverWorse_iff trackingServer_documented (by decide +kernel) threeVersions _).mpr ?_
  intro pre a post hsplit
  rcases pre with _ | ⟨first, _ | ⟨second, pre⟩⟩
  · obtain ⟨rfl, -⟩ := List.cons.inj hsplit
    trivial
  · obtain ⟨rfl, hrest⟩ := List.cons.inj hsplit
    obtain ⟨rfl, -⟩ := List.cons.inj hrest
    intro version evaluation candidate hheld _
    have hchampion : (promotionRun trackingServer {} threeVersions
        [.review "3"]).registry.championRocAuc = some (.finite (85 / 100)) := by decide +kernel
    have hreviewed : (promotionRun trackingServer {} threeVersions [.review "3"]).reviews[0]?.map
        (fun held => floatAt held.2 "champion_roc_auc") = some (some (.finite (85 / 100))) := by
      decide +kernel
    rw [hheld] at hreviewed
    exact .inl (.of_eq ((Option.some.inj hreviewed).trans hchampion.symm))
  · simp at hsplit

end CreditScoringMlops.Promotion
