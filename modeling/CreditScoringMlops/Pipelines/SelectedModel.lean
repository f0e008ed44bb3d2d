import CreditScoringMlops.Promotion.ChampionHistory
import CreditScoringMlops.Promotion.ModelComparison

/-!
# The selected model and the promoted one

In the retraining DAG `select_best_model.py` is followed by `promote_model.py`. The first compares
the latest runs of all model families and logs its choice as a run of the experiment; the second
does not read that run. It looks for the latest run of one family by itself, so the champion is the
selected model exactly if that family has won.
-/

namespace CreditScoringMlops.Pipelines

open Python Interaction Data Promotion

/-- The run `best_model_selection`, which the first script logs for its choice. -/
def selectionRun (runId experimentId : String) (startTime : ℤ)
    (bestRow : SelectBestModel.ResultRow) : MlflowRun where
  runId := runId
  experimentId := experimentId
  runName := some "best_model_selection"
  status := .finished
  startTime := startTime
  metrics := [("best_" ++ SelectBestModel.metricName, bestRow.rocAuc.getD .nan)]
  params :=
    [("selection_metric", SelectBestModel.metricName),
      ("selection_strategy", "latest_run_per_model"), ("best_run_id", bestRow.runId),
      ("best_run_name", bestRow.runName)]

/-- A registry with one run more. -/
def logRun (r : Registry) (run : MlflowRun) : Registry := { r with runs := r.runs.insert run }

variable {server : MlflowServer} {env : ℕ → MlflowEnv} {r : Registry} {experimentId : String}
  {selection : SelectBestModel.Selection}

/-- A call that returns has been answered from the registry, and a read leaves it alone. -/
theorem runFrom_callMlflow_ok {A : Type} (hserver : server.Documented) {op : MlflowOp}
    (hop : op.ReadOnly) {k : ℕ} {f : op.Result → MlflowProgram A} {a : A}
    (h : (server.runFrom env k r (callMlflow op >>= f)).1 = .ok a) :
    ∃ result, (server.call op r).1 = .ok result ∧
      server.runFrom env k r (callMlflow op >>= f) = server.runFrom env (k + 1) r (f result) := by
  rw [runFrom_callMlflow_bind] at h ⊢
  rw [exec_readOnly hserver hop] at h ⊢
  cases hreply : (server.exec op (env k) r).1 with
  | error exc =>
    rw [hreply] at h
    cases h
  | ok result => exact ⟨result, call_of_exec hreply, rfl⟩

/-- A write of an alias that returns has taken effect. -/
theorem setAlias_of_run (hserver : server.Documented) {name modelAlias version : String} {k : ℕ}
    (h : (server.runFrom env k r
      (callMlflow (.setRegisteredModelAlias name modelAlias version))).1 = .ok ()) :
    (server.runFrom env k r (callMlflow (.setRegisteredModelAlias name modelAlias version))).2 =
      r.setAlias name modelAlias version := by
  have hreply : (server.exec (.setRegisteredModelAlias name modelAlias version) (env k) r).1 =
      .ok () := by
    rw [← Program.bind_ret (callMlflow _), runFrom_callMlflow_bind] at h
    split at h
    · assumption
    · cases h
  have hcall := call_of_exec hreply
  rw [runFrom_callMlflow_snd]
  unfold MlflowServer.exec at hreply ⊢
  cases hfault : (env k).fault with
  | none =>
    dsimp only
    rw [hserver.setRegisteredModelAlias, hcall]
  | some exc => simp [hfault] at hreply

/-- What a selection that succeeds has looked at, whatever else happened. -/
theorem selection_of_run (hserver : server.Documented) (hanswers : server.Answers r)
    (hhistory : ModelHistory r experimentId)
    (h : (server.run env r SelectBestModel.main).1 = .ok selection) :
    ∃ runs, NewestFirst (·.startTime) runs ∧ (∀ run, run ∈ runs ↔ r.Scored experimentId run) ∧
      SelectBestModel.latestResults (runs.filterMap SelectBestModel.ResultRow.ofRun?) =
        selection.latestResults ∧
      selection.latestResults.head? = some selection.bestRow := by
  obtain ⟨runs, hsearch, hnewest, hmem⟩ := search_scored hserver hanswers hhistory
  refine ⟨runs, hnewest, hmem, ?_⟩
  unfold SelectBestModel.main at h
  obtain ⟨found, hfound, heq⟩ := runFrom_callMlflow_ok hserver (by trivial) h
  rw [MlflowServer.run, heq] at h
  rw [hanswers.getExperimentByName, hhistory.experiment] at hfound
  obtain rfl := Except.ok.inj hfound
  obtain ⟨found, hfound, heq⟩ := runFrom_callMlflow_ok hserver (by trivial) h
  rw [heq] at h
  obtain rfl := Except.ok.inj (hsearch.symm.trans hfound)
  dsimp only at h
  split at h
  · cases h
  · split at h
    · cases h
    · split at h
      · cases h
      · rename_i bestRow rest htable
        obtain rfl := Except.ok.inj h
        exact ⟨htable, rfl⟩

/-- The selected row belongs to the latest run of its family, and no other family has a better
one. -/
theorem bestRow_of_run (hserver : server.Documented) (hanswers : server.Answers r)
    (hhistory : ModelHistory r experimentId)
    (h : (server.run env r SelectBestModel.main).1 = .ok selection) :
    Considered (r.Scored experimentId) selection.bestRow.toModelRow ∧
      ∀ row, Considered (r.Scored experimentId) row → row.value ≤ selection.bestRow.value := by
  obtain ⟨runs, hnewest, hmem, htable, hbest⟩ := selection_of_run hserver hanswers hhistory h
  have hrow (row : ModelRow) : row ∈ selection.latestResults.map (·.toModelRow) ↔
      Considered (r.Scored experimentId) row := by
    rw [← htable, (SelectBestModel.latestResults_perm hnewest).mem_iff, mem_latest hnewest,
      funext fun run => propext (hmem run)]
  have hbestMem : selection.bestRow ∈ selection.latestResults := List.mem_of_head? hbest
  refine ⟨(hrow _).mp (List.mem_map_of_mem hbestMem), fun row hconsidered => ?_⟩
  have hvalue : ∀ row ∈ selection.latestResults, row.rocAuc = some (.finite row.value) :=
    fun row hmem => hhistory.rocAuc_eq ((hrow _).mp (List.mem_map_of_mem hmem))
  obtain ⟨other, hother, rfl⟩ := List.mem_map.mp ((hrow row).mpr hconsidered)
  rw [← htable, SelectBestModel.latestResults] at hbest hother hvalue
  simp only [List.mem_insertionSort] at hother hvalue
  exact le_of_head?_insertionSort (fun row : SelectBestModel.ResultRow => row.value)
    (fun a ha b hb => SelectBestModel.ResultRow.better_iff (hvalue a ha) (hvalue b hb)) hbest
    other hother

/-- A family has one latest run. -/
theorem latestOf_unique (hhistory : ModelHistory r experimentId) {family : String}
    {run other : MlflowRun} (hrun : LatestOf (r.Scored experimentId) family run)
    (hother : LatestOf (r.Scored experimentId) family other) : run = other :=
  hhistory.eq_of_startTime hrun.1.1.1 hother.1.1.1
    (le_antisymm (hother.2 run hrun.1) (hrun.2 other hother.1))

/-- The logged selection is no run that the second script looks for. -/
theorem filter_logRun (runId : String) (startTime : ℤ) (bestRow : SelectBestModel.ResultRow) :
    (logRun r (selectionRun runId experimentId startTime bestRow)).runs.items.filter
        (PromoteModel.query experimentId).accepts =
      r.runs.items.filter (PromoteModel.query experimentId).accepts := by
  have hrejected : (PromoteModel.query experimentId).accepts
      (selectionRun runId experimentId startTime bestRow) = false := by
    simp [RunQuery.accepts, PromoteModel.query, selectionRun, PromoteModel.targetRunName]
  change (r.runs.insert _).items.filter _ = _
  unfold Keyed.insert
  split
  · rfl
  · rw [List.filter_append, List.filter_singleton, hrejected, cond_false, List.append_nil]

/-- The runs that the second script looks for are those of its family with the metric. -/
theorem mem_filter_query (hhistory : ModelHistory r experimentId) {run : MlflowRun} :
    run ∈ r.runs.items.filter (PromoteModel.query experimentId).accepts ↔
      r.Scored experimentId run ∧ run.runName = some PromoteModel.targetRunName := by
  simp only [List.mem_filter, RunQuery.accepts, PromoteModel.query, Option.all_some,
    Bool.and_eq_true, List.contains_iff_mem, List.mem_singleton, decide_eq_true_eq]
  constructor
  · rintro ⟨hrun, ⟨⟨hexperiment, hfinished⟩, hname⟩, hmetric⟩
    have hmem : run ∈ r.finishedRuns experimentId :=
      List.mem_filter.mpr ⟨hrun, decide_eq_true ⟨hexperiment, hfinished⟩⟩
    exact ⟨⟨hmem, Option.isSome_of_any hmetric⟩, hname⟩
  · rintro ⟨⟨hmem, hsome⟩, hname⟩
    obtain ⟨hrun, hfinished⟩ := List.mem_filter.mp hmem
    obtain ⟨hexperiment, hstatus⟩ := of_decide_eq_true hfinished
    obtain ⟨x, hx⟩ := Option.isSome_iff_exists.mp hsome
    obtain ⟨q, hq, rfl⟩ := hhistory.positive x (List.mem_filterMap.mpr ⟨run, hmem, hx⟩)
    refine ⟨hrun, ⟨⟨hexperiment, hstatus⟩, hname⟩, ?_⟩
    exact (Option.any_eq_true _ _).mpr ⟨_, hx, decide_eq_true hq⟩

/-- After the selection has been logged, the search of the second script still returns exactly these
runs, newest first. -/
theorem search_logged (hserver : server.Documented) (hhistory : ModelHistory r experimentId)
    {runId : String} {startTime : ℤ} {bestRow : SelectBestModel.ResultRow} {runs : List MlflowRun}
    (h : (server.call (.searchRuns (PromoteModel.query experimentId))
      (logRun r (selectionRun runId experimentId startTime bestRow))).1 = .ok runs) :
    NewestFirst (·.startTime) runs ∧ ∀ run, run ∈ runs ↔
      r.Scored experimentId run ∧ run.runName = some PromoteModel.targetRunName := by
  have hsublist : (r.runs.items.filter (PromoteModel.query experimentId).accepts).Sublist
      (r.finishedRuns experimentId) := by
    refine List.monotone_filter_right _ fun run haccepts => ?_
    simp only [RunQuery.accepts, PromoteModel.query, Bool.and_eq_true, List.contains_iff_mem,
      List.mem_singleton, decide_eq_true_eq] at haccepts
    exact decide_eq_true haccepts.1.1
  have hfilter : (logRun r (selectionRun runId experimentId startTime bestRow)).runs.items.filter
      (PromoteModel.query experimentId).accepts =
        r.runs.items.filter (PromoteModel.query experimentId).accepts :=
    filter_logRun runId startTime bestRow
  obtain ⟨hnewest, hmem⟩ := newestFirst_searchRuns hserver (by
    rw [hfilter]
    exact hhistory.startTimes.sublist (hsublist.map _)) h
  rw [hfilter] at hmem
  refine ⟨hnewest, fun run => (hmem run).trans ?_⟩
  rw [mem_filter_query hhistory]
  refine and_iff_left_of_imp fun hrun => ?_
  calc (r.runs.items.filter (PromoteModel.query experimentId).accepts).countP
        (fun other => run.startTime < other.startTime)
      < (r.runs.items.filter (PromoteModel.query experimentId).accepts).length :=
        List.countP_lt_length_iff.mpr ⟨run, (mem_filter_query hhistory).mpr hrun, by simp⟩
    _ ≤ (r.finishedRuns experimentId).length := hsublist.length_le
    _ ≤ 1000 := hhistory.length_le

/-- What a promotion that succeeds has done. -/
theorem promotion_of_run (hserver : server.Documented) (hanswers : server.Answers r)
    (hexperiment : r.experiments PromoteModel.experimentName = some experimentId)
    (h : (server.run env r PromoteModel.main).1 = .ok ()) :
    ∃ latestRun rest versions version,
      (server.call (.searchRuns (PromoteModel.query experimentId)) r).1 = .ok (latestRun :: rest) ∧
      (server.call (.searchModelVersions PromoteModel.modelName) r).1 = .ok versions ∧
      versions.find? (fun v => decide (v.runId = some latestRun.runId)) = some version ∧
      (server.run env r PromoteModel.main).2 =
        r.setAlias PromoteModel.modelName PromoteModel.modelAlias version.version := by
  unfold PromoteModel.main at h ⊢
  obtain ⟨found, hfound, heq⟩ := runFrom_callMlflow_ok hserver (by trivial) h
  rw [MlflowServer.run, heq] at h ⊢
  rw [hanswers.getExperimentByName, hexperiment] at hfound
  obtain rfl := Except.ok.inj hfound
  obtain ⟨runs, hruns, heq⟩ := runFrom_callMlflow_ok hserver (by trivial) h
  rw [heq] at h ⊢
  cases runs with
  | nil => cases h
  | cons latestRun rest =>
    dsimp only at h ⊢
    unfold PromoteModel.promoteRun at h ⊢
    split at h
    · cases h
    · rename_i hmetric
      rw [if_neg hmetric]
      obtain ⟨versions, hversions, heq⟩ := runFrom_callMlflow_ok hserver (by trivial) h
      rw [heq] at h ⊢
      cases hfind : versions.find? fun v => decide (v.runId = some latestRun.runId) with
      | none =>
        simp only [hfind] at h
        cases h
      | some version =>
        refine ⟨latestRun, rest, versions, version, hruns, hversions, hfind, ?_⟩
        simp only [hfind] at h ⊢
        exact setAlias_of_run hserver h

/-- After a selection, the second script makes the latest run of its own family the champion, which
is the selected run exactly if this family has been selected, and has a lower `roc_auc` otherwise.
-/
theorem champion_of_selection (hserver : server.Documented)
    (hanswers : ∀ r, server.Answers r) (hhistory : ModelHistory r experimentId)
    (hselect : (server.run env r SelectBestModel.main).1 = .ok selection)
    {runId : String} {startTime : ℤ} {env' : ℕ → MlflowEnv} {logged : Registry}
    (hlogged : logged = logRun r (selectionRun runId experimentId startTime selection.bestRow))
    (hpromote : (server.run env' logged PromoteModel.main).1 = .ok ()) :
    ∃ run version, LatestOf (r.Scored experimentId) PromoteModel.targetRunName run ∧
      (server.run env' logged PromoteModel.main).2.aliased? PromoteModel.modelName
        PromoteModel.modelAlias = some version ∧
      version.runId = some run.runId ∧
      (run.runId = selection.bestRow.runId ↔
        selection.bestRow.runName = PromoteModel.targetRunName) ∧
      (selection.bestRow.runName ≠ PromoteModel.targetRunName →
        (ModelRow.ofRun PromoteModel.targetRunName run).value < selection.bestRow.value) := by
  subst hlogged
  obtain ⟨hbest, hmax⟩ := bestRow_of_run hserver (hanswers r) hhistory hselect
  obtain ⟨run, rest, versions, version, hruns, hversions, hfind, hworld⟩ :=
    promotion_of_run hserver (hanswers _)
      (show (logRun r _).experiments _ = _ from hhistory.experiment) hpromote
  obtain ⟨hnewest, hmem⟩ := search_logged hserver hhistory hruns
  have hlatest : LatestOf (r.Scored experimentId) PromoteModel.targetRunName run := by
    refine ⟨(hmem run).mp List.mem_cons_self, fun other hother => ?_⟩
    rcases List.mem_cons.mp ((hmem other).mpr hother) with rfl | hrest
    · exact le_refl _
    · exact ((List.pairwise_cons.mp hnewest).1 other hrest).le
  have hrunId : version.runId = some run.runId := by simpa using List.find?_some hfind
  obtain ⟨hname, hversion⟩ := hserver.searchModelVersions _ _ _ hversions version
    (List.mem_of_find?_eq_some hfind)
  have hconsidered : Considered (r.Scored experimentId)
      (.ofRun PromoteModel.targetRunName run) := ⟨_, by decide, run, hlatest, rfl⟩
  obtain ⟨family, hfamily, best, hbestLatest, hrow⟩ := hbest
  have hbestName : selection.bestRow.runName = family := congrArg ModelRow.runName hrow
  have hbestId : selection.bestRow.runId = best.runId := congrArg ModelRow.runId hrow
  refine ⟨run, version, hlatest, ?_, hrunId, ?_, fun hother => ?_⟩
  · rw [hworld, Registry.aliased?, Registry.setAlias_aliases, Option.bind_some,
      Registry.setAlias_modelVersion?, ← hname]
    exact Keyed.find?_key_of_mem hversion
  · rw [hbestName, hbestId]
    constructor
    · intro hsame
      obtain rfl := eq_of_runId hlatest.1.1.1 hbestLatest.1.1.1 hsame
      exact Option.some.inj (hbestLatest.1.2.symm.trans hlatest.1.2)
    · rintro rfl
      rw [latestOf_unique hhistory hlatest hbestLatest]
  · refine lt_of_le_of_ne (hmax _ hconsidered) fun heq => hother ?_
    have hsame := hhistory.eq_of_value hconsidered (hrow ▸ ⟨family, hfamily, best, hbestLatest, rfl⟩)
      heq
    exact (congrArg ModelRow.runName hsame).symm

/-- Runs of two families, of which the one with a registered version has not won. -/
def registeredCatboost : Registry :=
  { twoFamilies with
    modelVersions :=
      { items := [{ name := "CreditScoringCatBoost", version := "1", runId := some "r1",
                    status := "READY" }]
        unique := by decide } }

/-- They satisfy what is assumed of a history, as it does not mention the versions. -/
theorem registeredCatboost_history : ModelHistory registeredCatboost "1" where
  experiment := twoFamilies_history.experiment
  length_le := twoFamilies_history.length_le
  startTimes := twoFamilies_history.startTimes
  rocAucs := twoFamilies_history.rocAucs
  positive := twoFamilies_history.positive
  candidate := twoFamilies_history.candidate

/-- What is selected there. -/
def registeredSelection : Option SelectBestModel.Selection :=
  (trackingServer.run noFaults registeredCatboost SelectBestModel.main).1.toOption

/-- The registry after it has been logged. -/
def registeredLogged : Registry :=
  registeredSelection.elim registeredCatboost fun selection =>
    logRun registeredCatboost (selectionRun "s1" "1" 3 selection.bestRow)

/-- LightGBM is selected, and the run of CatBoost becomes the champion with a lower `roc_auc`. -/
theorem champion_of_selection_lightgbm :
    ∃ selection run version, registeredSelection = some selection ∧
      selection.bestRow.runName = "lightgbm_baseline" ∧
      (trackingServer.run noFaults registeredLogged PromoteModel.main).2.aliased?
        "CreditScoringCatBoost" "champion" = some version ∧
      version.runId = some run.runId ∧
      (ModelRow.ofRun "catboost_baseline" run).value < selection.bestRow.value := by
  obtain ⟨_, _, _, bestRow, rest, -, hselect⟩ := run_main trackingServer_documented
    (trackingServer_answers _) registeredCatboost_history
  have hselection : registeredSelection = some ⟨bestRow :: rest, bestRow⟩ := by
    rw [registeredSelection, hselect]
    rfl
  have hname : registeredSelection.map (·.bestRow.runName) = some "lightgbm_baseline" := by
    decide +kernel
  rw [hselection] at hname
  have hother : bestRow.runName = "lightgbm_baseline" := Option.some.inj hname
  have hlogged : registeredLogged =
      logRun registeredCatboost (selectionRun "s1" "1" 3 bestRow) := by
    rw [registeredLogged, hselection]
    rfl
  have hok : (trackingServer.run noFaults registeredLogged PromoteModel.main).1.isOk = true := by
    decide +kernel
  have hpromote : (trackingServer.run noFaults registeredLogged PromoteModel.main).1 = .ok () := by
    cases hrun : (trackingServer.run noFaults registeredLogged PromoteModel.main).1 with
    | ok => rfl
    | error exc => simp [hrun, Except.isOk, Except.toBool] at hok
  obtain ⟨run, version, -, hchampion, hrunId, -, hlower⟩ := champion_of_selection
    trackingServer_documented trackingServer_answers registeredCatboost_history hselect hlogged
    hpromote
  exact ⟨_, run, version, hselection, hother, hchampion, hrunId, hlower (by rw [hother]; decide)⟩

end CreditScoringMlops.Pipelines
