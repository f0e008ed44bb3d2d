import CreditScoringMlops.Promotion.ModelComparison
import CreditScoringMlops.Promotion.PromotionGate
import Mathlib.Order.WithBot

/-!
# Sound evaluations

`evaluate` picks the best of the latest runs of the supported families in the window that it
fetches, and compares its metrics with those of the champion. Whatever cannot be read, of the alias
or of a run, leads to a manual review; whatever metric is missing fails its gate.
-/

namespace CreditScoringMlops.Promotion

open Python Interaction Data

/-- The rank of a run by `roc_auc`; without one it comes last. -/
def rocAucRank : Option PyFloat → WithBot ℚ
  | some (.finite q) => q
  | _ => ⊥

/-- Runs have identifiers, also where a model version names one, and rational metrics. -/
structure RunHistory (r : Registry) : Prop where
  named : ∀ run, run ∈ r.runs.items → isBlank run.runId = false
  logged : ∀ v, v ∈ r.modelVersions.items → ∀ runId, v.runId = some runId → runId ≠ "" →
    isBlank runId = false
  rational : ∀ run, run ∈ r.runs.items → ∀ name x, run.metrics.get? name = some x →
    ∃ q : ℚ, x = .finite q

/-- The lookups of the champion and of runs. -/
def MlflowOp.IsLookup : MlflowOp → Prop
  | getModelVersionByAlias _ _ => True
  | getRun _ => True
  | _ => False

/-- Whatever else a program calls is available. -/
def OnlyLookupsFail {A : Type} (server : MlflowServer) (env : ℕ → MlflowEnv) (r : Registry)
    (p : MlflowProgram A) : Prop :=
  ∀ e, e ∈ (server.machine.finish 0 { env := env } 0 r p).entries → e.env.fault.isSome →
    e.op.IsLookup

/-- The runs that the comparison fetches: none without the experiment. -/
def Fetches (server : MlflowServer) (tools : MlflowTools) (r : Registry)
    (window : List MlflowRun) : Prop :=
  match r.experiments tools.experimentName with
  | none => window = []
  | some experimentId =>
    (server.call (.searchRuns { experimentIds := [experimentId], maxResults := 100 }) r).1 =
      .ok window

/-- The hundred newest finished runs of the experiment, newest first. -/
def IsWindow (tools : MlflowTools) (r : Registry) (window : List MlflowRun) : Prop :=
  match r.experiments tools.experimentName with
  | none => window = []
  | some experimentId => ∃ all : List MlflowRun, all.Perm (r.finishedRuns experimentId) ∧
    all.Pairwise newestFirst ∧ window = all.take 100

/-- The best of the latest runs of the supported families. -/
structure IsCandidate (window : List MlflowRun) (run : MlflowRun) : Prop where
  latest : ∃ family ∈ MlflowTools.supported, latestRun? window family = some run
  best : ∀ family ∈ MlflowTools.supported, ∀ other, latestRun? window family = some other →
    rocAucRank other.rocAuc? ≤ rocAucRank run.rocAuc?

/-- A candidate is picked wherever some supported family has a run. -/
structure Picks (window : List MlflowRun) (picked : Option MlflowRun) : Prop where
  none_iff : picked = none ↔ ∀ family ∈ MlflowTools.supported, latestRun? window family = none
  candidate : ∀ run, picked = some run → IsCandidate window run

/-- The four gates, of metrics that are all there. -/
structure GatesHold (config : QualityGateConfig) (champion candidate : Metrics) : Prop where
  rocAucMet : ∃ x, candidate.get? "roc_auc" = some x ∧ x.ge config.minRocAuc
  recallMet : ∃ x, candidate.get? "recall" = some x ∧ x.ge config.minRecall
  precisionMet : ∃ x, candidate.get? "precision" = some x ∧ x.ge config.minPrecision
  improvementMet : ∃ x y, candidate.get? "roc_auc" = some x ∧ champion.get? "roc_auc" = some y ∧
    x.ge (y.add config.minRocAucImprovement)

section

variable (server : MlflowServer) (env : ℕ → MlflowEnv) (tools : MlflowTools) (r : Registry)

/-- The metrics of the candidate are retrieved. -/
def CandidateFound (run found : MlflowRun) : Prop :=
  (server.exec (.getRun run.runId) (env 3) r).1 = .ok found

/-- The alias resolves, and the metrics of the run that it names are retrieved. -/
def ChampionFound (found : MlflowRun) : Prop :=
  ∃ v runId, (server.exec (.getModelVersionByAlias tools.modelName tools.modelAlias) (env 0) r).1 =
      .ok v ∧
    v.runId = some runId ∧ runId ≠ "" ∧ (server.exec (.getRun runId) (env 4) r).1 = .ok found

/-- An evaluation of the run that was picked, as far as everything was found. -/
structure SoundEvaluation (config : QualityGateConfig) (picked : Option MlflowRun)
    (evaluation : Dict) : Prop where
  reported : candidateRunId evaluation = picked.map (·.runId)
  promote : evaluation.isStrAt "decision" "PROMOTE" = true ↔
    ∃ run candidate champion, picked = some run ∧ CandidateFound server env r run candidate ∧
      ChampionFound server env tools r champion ∧
      GatesHold config champion.metrics candidate.metrics
  manual : evaluation.isStrAt "decision" "MANUAL_REVIEW" = true ↔
    picked = none ∨ (∃ run, picked = some run ∧ ¬∃ candidate, CandidateFound server env r run
      candidate) ∨ ¬∃ champion, ChampionFound server env tools r champion
  human : evaluation.isTrueAt "requires_human_approval" = true

end

/-! ## Gates and ranks -/

/-- A missing value meets no threshold. -/
theorem meets_iff {value : Option PyFloat} {threshold : PyFloat} :
    ReviewerAgent.meets value threshold = true ↔ ∃ x, value = some x ∧ x.ge threshold := by
  simp [ReviewerAgent.meets, Option.any_eq_true]

/-- A review passes if the gates hold. -/
theorem passes_iff_gatesHold (reviewer : ReviewerAgent) (champion candidate : Metrics) :
    reviewer.passes champion candidate = true ↔ GatesHold reviewer.config champion candidate := by
  have himproves : reviewer.improves (champion.get? "roc_auc") (candidate.get? "roc_auc") = true ↔
      ∃ x y, candidate.get? "roc_auc" = some x ∧ champion.get? "roc_auc" = some y ∧
        x.ge (y.add reviewer.config.minRocAucImprovement) := by
    unfold ReviewerAgent.improves
    cases champion.get? "roc_auc" <;> cases candidate.get? "roc_auc" <;> simp
  rw [ReviewerAgent.passes_iff, meets_iff, meets_iff, meets_iff, himproves]
  exact ⟨fun ⟨hrocAuc, hrecall, hprecision, himprovement⟩ =>
      ⟨hrocAuc, hrecall, hprecision, himprovement⟩,
    fun h => ⟨h.rocAucMet, h.recallMet, h.precisionMet, h.improvementMet⟩⟩

/-- Rows with rational values are sorted by rank. -/
theorem before_iff_rank {a b : ModelRow} (ha : ∀ x, a.rocAuc = some x → ∃ q : ℚ, x = .finite q)
    (hb : ∀ x, b.rocAuc = some x → ∃ q : ℚ, x = .finite q) :
    a.before b ↔ rocAucRank b.rocAuc ≤ rocAucRank a.rocAuc := by
  unfold ModelRow.before ModelRow.key
  cases hax : a.rocAuc with
  | none =>
    cases hbx : b.rocAuc with
    | none => simp [rocAucRank, PyFloat.lt, PyFloat.ge]
    | some y =>
      obtain ⟨q, rfl⟩ := hb y hbx
      simp [rocAucRank, PyFloat.lt, PyFloat.ge]
  | some x =>
    obtain ⟨p, rfl⟩ := ha x hax
    cases hbx : b.rocAuc with
    | none => simp [rocAucRank, PyFloat.lt, PyFloat.ge]
    | some y =>
      obtain ⟨q, rfl⟩ := hb y hbx
      simp [rocAucRank, PyFloat.lt, PyFloat.ge]

/-! ## The window and its best run -/

variable {server : MlflowServer} {env : ℕ → MlflowEnv} {r : Registry} {agent : MLAgent}
  {window : List MlflowRun}

/-- The search fetches the newest finished runs. -/
theorem Fetches.isWindow (hserver : server.Documented) {tools : MlflowTools}
    (hfetch : Fetches server tools r window) : IsWindow tools r window := by
  unfold Fetches at hfetch
  unfold IsWindow
  cases hexperiment : r.experiments tools.experimentName with
  | none => simpa only [hexperiment] using hfetch
  | some experimentId =>
    simp only [hexperiment] at hfetch
    obtain ⟨all, hperm, hsorted, hwindow⟩ := hserver.searchRuns r _ window hfetch
    exact ⟨all, hperm.trans (by rw [filter_accepts_eq]), hsorted, hwindow⟩

/-- What is fetched is in the registry. -/
theorem IsWindow.mem_items {tools : MlflowTools} (hwindow : IsWindow tools r window)
    {run : MlflowRun} (hrun : run ∈ window) : run ∈ r.runs.items := by
  unfold IsWindow at hwindow
  cases hexperiment : r.experiments tools.experimentName with
  | none =>
    simp only [hexperiment] at hwindow
    rw [hwindow] at hrun
    cases hrun
  | some experimentId =>
    simp only [hexperiment] at hwindow
    obtain ⟨all, hperm, -, rfl⟩ := hwindow
    exact List.mem_of_mem_filter (hperm.subset (List.mem_of_mem_take hrun))

/-- Without rows there is nothing to pick. -/
theorem picks_none (hrows : (MlflowTools.latest window).insertionSort ModelRow.before = []) :
    Picks window none := by
  refine ⟨iff_of_true rfl fun family hfamily => ?_, fun run hrun => by cases hrun⟩
  cases hrun : latestRun? window family with
  | none => rfl
  | some run =>
    have hmem := mem_latest_iff.mpr ⟨family, hfamily, run, hrun, rfl⟩
    rw [← List.mem_insertionSort ModelRow.before, hrows] at hmem
    cases hmem

/-- The first row belongs to the best of the latest runs. -/
theorem exists_picks_some (hhistory : RunHistory r) {tools : MlflowTools}
    (hwindow : IsWindow tools r window) {row : ModelRow}
    {rest : List ModelRow}
    (hrows : (MlflowTools.latest window).insertionSort ModelRow.before = row :: rest) :
    ∃ family, ∃ run ∈ r.runs.items, row = .ofRun family run ∧ Picks window (some run) := by
  have hrational : ∀ a ∈ MlflowTools.latest window,
      ∀ x, a.rocAuc = some x → ∃ q : ℚ, x = .finite q := fun a ha x hx => by
    obtain ⟨family, -, run, hrun, rfl⟩ := mem_latest_iff.mp ha
    have hitem := hwindow.mem_items (List.mem_of_find?_eq_some hrun)
    exact hhistory.rational run hitem "roc_auc" x hx
  have hmem : row ∈ MlflowTools.latest window := by
    rw [← List.mem_insertionSort ModelRow.before, hrows]
    exact List.mem_cons_self
  have hbest := le_of_head?_insertionSort (fun row : ModelRow => rocAucRank row.rocAuc)
    (fun a ha b hb => before_iff_rank (hrational a ha) (hrational b hb))
    (congrArg List.head? hrows)
  obtain ⟨family, hfamily, run, hrun, rfl⟩ := mem_latest_iff.mp hmem
  have hitem := hwindow.mem_items (List.mem_of_find?_eq_some hrun)
  refine ⟨family, run, hitem, rfl, ?_, fun run' hrun' => ?_⟩
  · refine iff_of_false (by simp) fun hnone => ?_
    rw [hnone family hfamily] at hrun
    cases hrun
  · obtain rfl := Option.some.inj hrun'
    exact ⟨⟨family, hfamily, hrun⟩, fun family' hfamily' other hother =>
      hbest _ (mem_latest_iff.mpr ⟨family', hfamily', other, hother, rfl⟩)⟩

/-! ## Running the evaluation -/

/-- Reading the metrics of a run with an identifier is one call. -/
theorem runFrom_getRunMetrics_bind {A : Type} {k : ℕ} (hserver : server.Documented)
    {runId : String} (hnamed : isBlank runId = false) (f : RunMetrics → MlflowProgram A) :
    server.runFrom env k r (MlflowTools.getRunMetrics runId >>= f) =
      server.runFrom env (k + 1) r
        (f (.ofReply runId (server.exec (.getRun runId) (env k) r).1)) := by
  have hread := exec_readOnly hserver (show (MlflowOp.getRun runId).ReadOnly from trivial) (env k) r
  rw [MlflowTools.getRunMetrics, if_neg (by simp [hnamed])]
  refine (runFrom_request_bind (.getRun runId) fun reply => f (.ofReply runId reply)).trans ?_
  rw [hread]

/-- The calls of the comparison, before what follows it. -/
theorem compareLatestModels_bind {A : Type} (tools : MlflowTools)
    (f : List ModelRow → MlflowProgram A) :
    tools.compareLatestModels >>= f =
      callMlflow (.getExperimentByName tools.experimentName) >>= fun experiment =>
        (match experiment with
          | none => pure []
          | some experimentId =>
            callMlflow (.searchRuns { experimentIds := [experimentId], maxResults := 100 })) >>=
        fun runs => f ((MlflowTools.latest runs).insertionSort ModelRow.before) := by
  rw [MlflowTools.compareLatestModels, MlflowTools.getLatestModelRuns, if_neg (by decide),
    Program.bind_assoc, Program.bind_assoc]
  rfl

/-- Comparing the latest models is two calls, or one without the experiment. -/
theorem runFrom_compareLatestModels_bind {A : Type} (hserver : server.Documented)
    (hanswers : server.Answers r) {tools : MlflowTools} (hfind : (env 1).fault = none)
    (hsearch : (r.experiments tools.experimentName).isSome → (env 2).fault = none)
    (f : List ModelRow → MlflowProgram A) :
    ∃ window k, Fetches server tools r window ∧ (window ≠ [] → k = 3) ∧
      server.runFrom env 1 r (tools.compareLatestModels >>= f) =
        server.runFrom env k r (f ((MlflowTools.latest window).insertionSort ModelRow.before)) := by
  have hfound := hanswers.getExperimentByName tools.experimentName
  rw [compareLatestModels_bind, runFrom_answered_bind hserver hfind (by trivial) hfound]
  unfold Fetches
  cases hexperiment : r.experiments tools.experimentName with
  | none => exact ⟨[], 2, rfl, fun h => absurd rfl h, rfl⟩
  | some experimentId =>
    obtain ⟨window, hwindow⟩ :=
      hanswers.searchRuns { experimentIds := [experimentId], maxResults := 100 }
    refine ⟨window, 3, hwindow, fun _ => rfl, ?_⟩
    dsimp only
    rw [runFrom_answered_bind hserver (hsearch (by rw [hexperiment]; rfl)) (by trivial) hwindow]

/-- A call that is answered is the next entry. -/
theorem entries_answered_bind {A : Type} {k : ℕ} (hserver : server.Documented)
    (hfault : (env k).fault = none) {op : MlflowOp} (hop : op.ReadOnly) {result : op.Result}
    (h : (server.call op r).1 = .ok result) (f : op.Result → MlflowProgram A) :
    (server.machine.finish 0 { env := env } k r (callMlflow op >>= f)).entries =
      server.machine.entry 0 (env k) op r ::
        (server.machine.finish 0 { env := env } (k + 1) r (f result)).entries := by
  have hexec : server.exec op (env k) r = server.call op r := by rw [MlflowServer.exec, hfault]
  rw [callMlflow, Program.bind_assoc, finish_read hserver op hop, hexec, h]
  rfl

/-- `evaluate` after `inspect`. -/
def MLAgent.evaluateInspected (agent : MLAgent) (champion : ChampionModel) :
    List ModelRow → MlflowProgram Dict
  | [] =>
    return agent.manualReview "No comparable model runs are available" champion
      [("candidate", .null)]
  | candidate :: _ => do
    match ← MlflowTools.getRunMetrics candidate.runId with
    | .unavailable runId error =>
      return agent.manualReview "Candidate metrics could not be retrieved from MLflow" champion
        [("candidate", .obj candidate.toDict),
          ("candidate_metrics", .obj (RunMetrics.unavailable runId error).toDict)]
    | .available candidateRun => agent.evaluateCandidate champion candidate candidateRun

/-- Inspecting is looking the champion up and comparing the models. -/
theorem evaluate_eq (agent : MLAgent) :
    agent.evaluate = agent.tools.getChampionModel >>= fun champion =>
      agent.tools.compareLatestModels >>= agent.evaluateInspected champion := by
  rw [MLAgent.evaluate, MLAgent.inspect, Program.bind_assoc]
  refine congrArg (agent.tools.getChampionModel >>= ·) (funext fun champion => ?_)
  rw [Program.bind_assoc]
  refine congrArg (agent.tools.compareLatestModels >>= ·) (funext fun rows => ?_)
  cases rows <;> rfl

variable (env r) in
/-- The evaluation looks the champion up, and then compares. -/
theorem entries_evaluate (hserver : server.Documented) (agent : MLAgent) :
    ∃ f : List ModelRow → MlflowProgram Dict,
      (server.machine.finish 0 { env := env } 0 r agent.evaluate).entries =
      server.machine.entry 0 (env 0)
          (.getModelVersionByAlias agent.tools.modelName agent.tools.modelAlias) r ::
        (server.machine.finish 0 { env := env } 1 r
          (agent.tools.compareLatestModels >>= f)).entries := by
  rw [evaluate_eq]
  exact ⟨_, congrArg Ended.entries (finish_read hserver
    (.getModelVersionByAlias agent.tools.modelName agent.tools.modelAlias) trivial
    fun reply => agent.tools.compareLatestModels >>= agent.evaluateInspected (.ofReply reply))⟩

/-- What the comparison calls is available. -/
theorem OnlyLookupsFail.evaluate (hserver : server.Documented) (hanswers : server.Answers r)
    (h : OnlyLookupsFail server env r agent.evaluate) :
    (env 1).fault = none ∧
      ((r.experiments agent.tools.experimentName).isSome → (env 2).fault = none) := by
  obtain ⟨f, hentries⟩ := entries_evaluate env r hserver agent
  rw [compareLatestModels_bind] at hentries
  have havailable : ∀ k op, ¬op.IsLookup → server.machine.entry 0 (env k) op r ∈
      (server.machine.finish 0 { env := env } 0 r agent.evaluate).entries →
      (env k).fault = none := fun k op hop hmem =>
    Option.not_isSome_iff_eq_none.mp fun hfault => hop (h _ hmem hfault)
  have hfind : (env 1).fault = none := by
    refine havailable 1 (.getExperimentByName agent.tools.experimentName) id ?_
    rw [hentries]
    exact List.mem_cons_of_mem _ List.mem_cons_self
  refine ⟨hfind, fun hsome => ?_⟩
  obtain ⟨experimentId, hexperiment⟩ := Option.isSome_iff_exists.mp hsome
  have hfound := hanswers.getExperimentByName agent.tools.experimentName
  rw [hexperiment] at hfound
  rw [entries_answered_bind hserver hfind (by trivial) hfound] at hentries
  refine havailable 2 (.searchRuns { experimentIds := [experimentId], maxResults := 100 }) id ?_
  rw [hentries]
  exact List.mem_cons_of_mem _ (List.mem_cons_of_mem _ List.mem_cons_self)

/-- Inspecting leads to the rows of the window. -/
theorem run_evaluate (hserver : server.Documented) (hanswers : server.Answers r)
    (hfail : OnlyLookupsFail server env r agent.evaluate) :
    ∃ window k, Fetches server agent.tools r window ∧ (window ≠ [] → k = 3) ∧
      server.run env r agent.evaluate =
        server.runFrom env k r (agent.evaluateInspected
          (.ofReply (server.exec (.getModelVersionByAlias agent.tools.modelName
            agent.tools.modelAlias) (env 0) r).1)
          ((MlflowTools.latest window).insertionSort ModelRow.before)) := by
  obtain ⟨hfind, hsearch⟩ := hfail.evaluate hserver hanswers
  have hread := exec_readOnly hserver (show (MlflowOp.getModelVersionByAlias agent.tools.modelName
    agent.tools.modelAlias).ReadOnly from trivial) (env 0) r
  rw [evaluate_eq, MlflowServer.run, runFrom_getChampionModel_bind, hread]
  exact runFrom_compareLatestModels_bind hserver hanswers hfind hsearch _

/-! ## Its three endings -/

variable {picked : Option MlflowRun}

/-- A manual review is sound where something is missing. -/
theorem sound_manualReview {reason : String} {champion : ChampionModel} {rest : Dict}
    (hreported : candidateRunId (agent.manualReview reason champion rest) =
      picked.map (·.runId))
    (hmissing : picked = none ∨ (∃ run, picked = some run ∧ ¬∃ candidate,
      CandidateFound server env r run candidate) ∨
        ¬∃ champion, ChampionFound server env agent.tools r champion) :
    SoundEvaluation server env agent.tools r agent.reviewer.config picked
      (agent.manualReview reason champion rest) where
  reported := hreported
  promote := by
    refine iff_of_false (Bool.eq_false_iff.mp rfl) ?_
    rintro ⟨run, candidate, champion, hpicked, hcandidate, hchampion, -⟩
    obtain hnone | ⟨run', hpicked', hmissing⟩ | hmissing := hmissing
    · rw [hnone] at hpicked
      cases hpicked
    · obtain rfl := Option.some.inj (hpicked.symm.trans hpicked')
      exact hmissing ⟨candidate, hcandidate⟩
    · exact hmissing ⟨champion, hchampion⟩
  manual := iff_of_true rfl hmissing
  human := rfl

/-- The decision of a review. -/
theorem isStrAt_reviewed (champion : ChampionModel) (candidate : ModelRow)
    (championMetrics candidateMetrics : Metrics) (text : String) :
    (agent.reviewed champion candidate championMetrics candidateMetrics).isStrAt "decision" text =
      decide ((if agent.reviewer.passes championMetrics candidateMetrics then "PROMOTE"
        else "REJECT") = text) := rfl

/-- There is one champion to be found. -/
theorem ChampionFound.eq {tools : MlflowTools} {champion champion' : MlflowRun}
    (h : ChampionFound server env tools r champion)
    (h' : ChampionFound server env tools r champion') : champion = champion' := by
  obtain ⟨v, runId, halias, hrunId, -, hrun⟩ := h
  obtain ⟨v', runId', halias', hrunId', -, hrun'⟩ := h'
  obtain rfl := Except.ok.inj (halias.symm.trans halias')
  obtain rfl := Option.some.inj (hrunId.symm.trans hrunId')
  exact Except.ok.inj (hrun.symm.trans hrun')

/-- A review is sound where everything was found. -/
theorem sound_reviewed {run candidate found : MlflowRun} {champion : ChampionModel} {family : String}
    (hcandidate : CandidateFound server env r run candidate)
    (hchampion : ChampionFound server env agent.tools r found) :
    SoundEvaluation server env agent.tools r agent.reviewer.config (some run)
      (agent.reviewed champion (.ofRun family run) found.metrics candidate.metrics) where
  reported := rfl
  promote := by
    have hdecision : (agent.reviewed champion (.ofRun family run) found.metrics
        candidate.metrics).isStrAt "decision" "PROMOTE" = true ↔
          agent.reviewer.passes found.metrics candidate.metrics = true := by
      rw [isStrAt_reviewed]
      cases agent.reviewer.passes found.metrics candidate.metrics <;> simp
    rw [hdecision, passes_iff_gatesHold]
    constructor
    · exact fun hgates => ⟨run, candidate, found, rfl, hcandidate, hchampion, hgates⟩
    · rintro ⟨run', candidate', champion', hpicked, hcandidate', hchampion', hgates⟩
      obtain rfl := Option.some.inj hpicked
      obtain rfl := Except.ok.inj (hcandidate.symm.trans hcandidate')
      obtain rfl := hchampion.eq hchampion'
      exact hgates
  manual := by
    refine iff_of_false ?_ ?_
    · rw [isStrAt_reviewed]
      cases agent.reviewer.passes found.metrics candidate.metrics <;> simp
    · rintro (hnone | ⟨run', hpicked, hmissing⟩ | hmissing)
      · cases hnone
      · obtain rfl := Option.some.inj hpicked
        exact hmissing ⟨candidate, hcandidate⟩
      · exact hmissing ⟨found, hchampion⟩
  human := rfl

/-- The run that a version names. -/
theorem championRunId_eq_some {v : ModelVersion} {runId : String} :
    MLAgent.championRunId (.available v) = some runId ↔ v.runId = some runId ∧ runId ≠ "" := by
  simp [MLAgent.championRunId, Option.filter_eq_some_iff]

/-- Once the candidate's metrics are there, the champion decides how the evaluation ends. -/
theorem runFrom_evaluateCandidate (hserver : server.Documented) (hhistory : RunHistory r)
    {run candidate : MlflowRun} (hcandidate : CandidateFound server env r run candidate)
    (family : String) :
    ∃ evaluation, (server.runFrom env 4 r (agent.evaluateCandidate
        (.ofReply (server.exec (.getModelVersionByAlias agent.tools.modelName
          agent.tools.modelAlias) (env 0) r).1) (.ofRun family run) candidate)).1 =
        .ok evaluation ∧
      SoundEvaluation server env agent.tools r agent.reviewer.config (some run) evaluation := by
  unfold MLAgent.evaluateCandidate
  cases halias : (server.exec (.getModelVersionByAlias agent.tools.modelName
      agent.tools.modelAlias) (env 0) r).1 with
  | error exc =>
    refine ⟨_, rfl, sound_manualReview rfl (.inr (.inr ?_))⟩
    rintro ⟨champion, v, runId, hv, -⟩
    cases halias.symm.trans hv
  | ok v =>
    have hversion : v ∈ r.modelVersions.items := by
      obtain ⟨version, -, hfind⟩ := Option.bind_eq_some_iff.mp
        (hserver.getModelVersionByAlias _ _ _ _ (call_of_exec halias))
      exact Keyed.mem_of_find? hfind
    cases hrunId : MLAgent.championRunId (.ofReply (.ok v)) with
    | none =>
      refine ⟨_, rfl, sound_manualReview rfl (.inr (.inr ?_))⟩
      rintro ⟨champion, v', runId, hv', hlogged, hne, -⟩
      obtain rfl := Except.ok.inj (halias.symm.trans hv')
      cases hrunId.symm.trans (championRunId_eq_some.mpr ⟨hlogged, hne⟩)
    | some runId =>
      obtain ⟨hlogged, hne⟩ := championRunId_eq_some.mp hrunId
      have hnamed := hhistory.logged v hversion runId hlogged hne
      dsimp only
      rw [runFrom_getRunMetrics_bind hserver hnamed]
      cases hrun : (server.exec (.getRun runId) (env 4) r).1 with
      | error exc =>
        refine ⟨_, rfl, sound_manualReview rfl (.inr (.inr ?_))⟩
        rintro ⟨champion, v', runId', hv', hlogged', -, hfound⟩
        obtain rfl := Except.ok.inj (halias.symm.trans hv')
        obtain rfl := Option.some.inj (hlogged.symm.trans hlogged')
        cases hrun.symm.trans hfound
      | ok found =>
        exact ⟨_, rfl, sound_reviewed hcandidate ⟨v, runId, halias, hlogged, hne, hrun⟩⟩

/-- Every evaluation is sound: it picks the best of the latest runs in the window, promotes exactly
if everything was found and all gates hold, and asks for a manual review exactly if something is
missing. -/
theorem evaluate_sound (hserver : server.Documented) (hanswers : server.Answers r)
    (hhistory : RunHistory r) (hfail : OnlyLookupsFail server env r agent.evaluate) :
    ∃ evaluation window picked, (server.run env r agent.evaluate).1 = .ok evaluation ∧
      Fetches server agent.tools r window ∧ IsWindow agent.tools r window ∧ Picks window picked ∧
      SoundEvaluation server env agent.tools r agent.reviewer.config picked evaluation := by
  obtain ⟨window, k, hfetch, hk, hrun⟩ := run_evaluate hserver hanswers hfail
  have hwindow := hfetch.isWindow hserver
  rw [hrun]
  cases hrows : (MlflowTools.latest window).insertionSort ModelRow.before with
  | nil =>
    exact ⟨_, window, none, rfl, hfetch, hwindow, picks_none hrows, sound_manualReview rfl (.inl rfl)⟩
  | cons row rest =>
    obtain ⟨family, run, hitem, rfl, hpicks⟩ := exists_picks_some hhistory hwindow hrows
    have hne : window ≠ [] := by
      rintro rfl
      cases hrows
    obtain rfl := hk hne
    have hnamed : isBlank (ModelRow.ofRun family run).runId = false := hhistory.named run hitem
    rw [MLAgent.evaluateInspected, runFrom_getRunMetrics_bind hserver hnamed,
      show (ModelRow.ofRun family run).runId = run.runId from rfl]
    cases hcandidate : (server.exec (.getRun run.runId) (env 3) r).1 with
    | error exc =>
      refine ⟨_, window, some run, rfl, hfetch, hwindow, hpicks,
        sound_manualReview rfl (.inr (.inl ⟨run, rfl, ?_⟩))⟩
      rintro ⟨candidate, hfound⟩
      cases hcandidate.symm.trans hfound
    | ok candidate =>
      obtain ⟨evaluation, hevaluation, hsound⟩ :=
        runFrom_evaluateCandidate hserver hhistory hcandidate family
      exact ⟨evaluation, window, some run, hevaluation, hfetch, hwindow, hpicks, hsound⟩

/-- The runs and versions of the registry have identifiers, and all metrics are rational. -/
theorem threeVersions_runHistory : RunHistory threeVersions where
  named := by decide +kernel
  logged := by
    have hversions : ∀ v ∈ threeVersions.modelVersions.items, v.runId.all fun runId =>
        !isBlank runId := by decide +kernel
    intro v hv runId hrunId _
    have hnamed := hversions v hv
    rw [hrunId] at hnamed
    simpa using hnamed
  rational := by
    have hfinite : ∀ run ∈ threeVersions.runs.items, ∀ entry ∈ run.metrics,
        entry.2 ≠ .posInf ∧ entry.2 ≠ .negInf ∧ entry.2 ≠ .nan := by decide +kernel
    intro run hrun name x hx
    obtain ⟨front, back, hmetrics, -⟩ := List.lookup_eq_some_iff.mp hx
    obtain ⟨hposInf, hnegInf, hnan⟩ := hfinite run hrun (name, x) (by simp [hmetrics])
    cases x with
    | finite q => exact ⟨q, rfl⟩
    | posInf => cases hposInf rfl
    | negInf => cases hnegInf rfl
    | nan => cases hnan rfl

/-- The evaluation of the newest run, where nothing fails. -/
theorem evaluate_sound_threeVersions :
    ∃ evaluation window picked,
      (trackingServer.run noFaults threeVersions (MLAgent.evaluate {})).1 = .ok evaluation ∧
      Fetches trackingServer {} threeVersions window ∧ IsWindow {} threeVersions window ∧
      Picks window picked ∧
      SoundEvaluation trackingServer noFaults {} threeVersions {} picked evaluation := by
  refine evaluate_sound trackingServer_documented (trackingServer_answers _)
    threeVersions_runHistory fun e he hfault => ?_
  obtain ⟨n, hn⟩ := Machine.env_of_mem_finish _ _ he
  rw [hn] at hfault
  cases hfault

end CreditScoringMlops.Promotion
