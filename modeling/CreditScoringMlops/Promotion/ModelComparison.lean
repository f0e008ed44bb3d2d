import CreditScoringMlops.Promotion.SelectBestModel

/-!
# Two model comparisons

`compare_latest_models` looks at the hundred newest finished runs of the experiment, whatever they
are, and takes the first run of each family. `select_best_model.py` looks at the finished runs that
have `roc_auc`, and takes the first run of each family. Both choices are the newest run of the
family among those looked at, so the two comparisons agree exactly if looking at less makes no
difference to any family.
-/

namespace CreditScoringMlops.Promotion

open Python Interaction Data

/-- The metric that models are compared by. -/
def MlflowRun.rocAuc? (run : MlflowRun) : Option PyFloat := run.metrics.get? "roc_auc"

/-- The finished runs of an experiment. -/
def Registry.finishedRuns (r : Registry) (experimentId : String) : List MlflowRun :=
  r.runs.items.filter fun run => run.experimentId = experimentId ∧ run.status = .finished

/-- How many finished runs of the experiment started after a run. -/
def Registry.newerRuns (r : Registry) (experimentId : String) (run : MlflowRun) : ℕ :=
  (r.finishedRuns experimentId).countP fun other => run.startTime < other.startTime

/-- A run is the newest of its family among the runs with a property. -/
def LatestOf (P : MlflowRun → Prop) (family : String) : MlflowRun → Prop :=
  IsNewest (·.startTime) fun run => P run ∧ run.runName = some family

/-- A row belongs to the newest run of a supported family among the runs with a property. -/
def Considered (P : MlflowRun → Prop) (row : ModelRow) : Prop :=
  ∃ family ∈ MlflowTools.supported, ∃ run, LatestOf P family run ∧ row = .ofRun family run

/-! ## The rows of a table -/

/-- The row of a run, if its family is supported. -/
def ModelRow.ofRun? (run : MlflowRun) : Option ModelRow :=
  run.runName.bind fun name =>
    if name ∈ MlflowTools.supported then some (.ofRun name run) else none

/-- A row belongs to a run of a supported family. -/
theorem ModelRow.ofRun?_eq_some {run : MlflowRun} {row : ModelRow} :
    ModelRow.ofRun? run = some row ↔
      ∃ family ∈ MlflowTools.supported, run.runName = some family ∧ row = .ofRun family run := by
  unfold ModelRow.ofRun?
  constructor
  · intro h
    obtain ⟨name, hname, hrow⟩ := Option.bind_eq_some_iff.mp h
    split at hrow
    next hsupported => exact ⟨name, hsupported, hname, (Option.some.inj hrow).symm⟩
    next => cases hrow
  · rintro ⟨family, hsupported, hname, rfl⟩
    rw [hname, Option.bind_some, if_pos hsupported]

/-- The tools keep the first row of each name. -/
theorem latest_eq (runs : List MlflowRun) :
    MlflowTools.latest runs = dropDuplicates (·.runName) (runs.filterMap ModelRow.ofRun?) := by
  induction runs using List.reverseRecOn with
  | nil => rfl
  | append_singleton runs run ih =>
    rw [MlflowTools.latest, List.foldl_append, List.foldl_cons, List.foldl_nil,
      ← MlflowTools.latest, List.filterMap_append, ih]
    cases hname : run.runName with
    | none => simp [ModelRow.ofRun?, hname]
    | some name =>
      by_cases hsupported : name ∈ MlflowTools.supported
      · have hrow : [run].filterMap ModelRow.ofRun? = [.ofRun name run] := by
          simp [ModelRow.ofRun?, hname, hsupported]
        rw [hrow, dropDuplicates_append_singleton]
        simp only [hsupported, not_true, false_or]
        rfl
      · simp [ModelRow.ofRun?, hname, hsupported]

/-- A run has a row of a supported family exactly if it is one of the family. -/
theorem ModelRow.any_ofRun? {family : String} (hfamily : family ∈ MlflowTools.supported)
    (run : MlflowRun) :
    (ModelRow.ofRun? run).any (fun row => row.runName = family) ↔ run.runName = some family := by
  simp only [Option.any_eq_true, ModelRow.ofRun?_eq_some, decide_eq_true_eq]
  constructor
  · rintro ⟨_, ⟨name, _, hname, rfl⟩, heq⟩
    exact hname.trans (congrArg some heq)
  · exact fun hname => ⟨_, ⟨family, hfamily, hname, rfl⟩, rfl⟩

/-- The first run of a family. -/
def latestRun? (runs : List MlflowRun) (family : String) : Option MlflowRun :=
  runs.find? fun run => run.runName = some family

/-- It belongs to the family. -/
theorem runName_of_latestRun? {runs : List MlflowRun} {family : String} {run : MlflowRun}
    (h : latestRun? runs family = some run) : run.runName = some family := by
  unfold latestRun? at h
  simpa using List.find?_some h

/-- The tools keep the first run of each supported family. -/
theorem mem_latest_iff {runs : List MlflowRun} {row : ModelRow} :
    row ∈ MlflowTools.latest runs ↔
      ∃ family ∈ MlflowTools.supported, ∃ run, latestRun? runs family = some run ∧
        row = .ofRun family run := by
  have hsame : ∀ family ∈ MlflowTools.supported,
      runs.find? (fun run => (ModelRow.ofRun? run).any fun row => row.runName = family) =
        latestRun? runs family := fun family hfamily =>
    congrArg (runs.find? ·) (funext fun run => Bool.eq_iff_iff.mpr
      ((ModelRow.any_ofRun? hfamily run).trans decide_eq_true_iff.symm))
  rw [latest_eq, mem_dropDuplicates, List.find?_filterMap, Option.bind_eq_some_iff]
  constructor
  · rintro ⟨run, hfind, hrow⟩
    obtain ⟨family, hfamily, hname, rfl⟩ := ModelRow.ofRun?_eq_some.mp hrow
    exact ⟨family, hfamily, run, (hsame family hfamily).symm.trans hfind, rfl⟩
  · rintro ⟨family, hfamily, run, hfind, rfl⟩
    exact ⟨run, (hsame family hfamily).trans hfind,
      ModelRow.ofRun?_eq_some.mpr ⟨family, hfamily, runName_of_latestRun? hfind, rfl⟩⟩

/-- The rows that the tools keep of a history belong to the newest runs in it. -/
theorem mem_latest {runs : List MlflowRun} (hruns : NewestFirst (·.startTime) runs)
    {row : ModelRow} : row ∈ MlflowTools.latest runs ↔ Considered (· ∈ runs) row := by
  rw [mem_latest_iff]
  refine exists_congr fun family => and_congr_right fun _ => exists_congr fun run => ?_
  refine and_congr_left fun _ => hruns.find?_eq_some_iff.trans ?_
  simp only [LatestOf, decide_eq_true_eq]

/-- No family has two rows. -/
theorem nodup_latest (runs : List MlflowRun) : (MlflowTools.latest runs).Nodup := by
  rw [latest_eq]
  exact (nodup_dropDuplicates _).of_map

namespace SelectBestModel

/-- The script knows the families of the tools. -/
theorem modelRunNames_eq : modelRunNames = MlflowTools.supported := rfl

/-- The row of the script holds the row of the tools. -/
theorem ResultRow.ofRun?_eq (run : MlflowRun) :
    ResultRow.ofRun? run =
      (ModelRow.ofRun? run).map fun row => { row with startTime := run.startTime } := by
  unfold ResultRow.ofRun? ModelRow.ofRun?
  cases run.runName with
  | none => rfl
  | some name =>
    dsimp only
    rw [modelRunNames_eq, Option.bind_some]
    by_cases hname : name ∈ MlflowTools.supported
    · rw [if_pos hname, if_neg (not_not_intro hname), Option.map_some]
    · rw [if_neg hname, if_pos hname, Option.map_none]

/-- The table of a history holds the rows of the tools. -/
theorem map_toModelRow (runs : List MlflowRun) :
    (runs.filterMap ResultRow.ofRun?).map (·.toModelRow) = runs.filterMap ModelRow.ofRun? := by
  rw [List.map_filterMap]
  refine congrArg (runs.filterMap ·) (funext fun run => ?_)
  rw [ResultRow.ofRun?_eq, Option.map_map]
  exact Option.map_id'

/-- The table of a history that comes newest first is in order already. -/
theorem insertionSort_newer {runs : List MlflowRun} (hruns : NewestFirst (·.startTime) runs) :
    (runs.filterMap ResultRow.ofRun?).insertionSort ResultRow.newer =
      runs.filterMap ResultRow.ofRun? := by
  refine List.Pairwise.insertionSort_eq (List.Pairwise.filterMap _ ?_ hruns)
  intro run run' hnewer row hrow row' hrow'
  rw [ResultRow.ofRun?_eq] at hrow hrow'
  obtain ⟨_, _, rfl⟩ := Option.map_eq_some_iff.mp hrow
  obtain ⟨_, _, rfl⟩ := Option.map_eq_some_iff.mp hrow'
  exact hnewer.le

/-- The script considers the rows that the tools would keep of the same history. -/
theorem latestResults_perm {runs : List MlflowRun} (hruns : NewestFirst (·.startTime) runs) :
    ((latestResults (runs.filterMap ResultRow.ofRun?)).map (·.toModelRow)).Perm
      (MlflowTools.latest runs) := by
  rw [latestResults, insertionSort_newer hruns, latest_eq, ← map_toModelRow, ← map_dropDuplicates]
  exact (List.perm_insertionSort _ _).map _

end SelectBestModel

/-! ## The runs looked at -/

/-- A finished run with fewer than a hundred newer ones, which the tools look at. -/
def Registry.Recent (r : Registry) (experimentId : String) (run : MlflowRun) : Prop :=
  run ∈ r.finishedRuns experimentId ∧ r.newerRuns experimentId run < 100

/-- A finished run with the metric, which the script looks at. -/
def Registry.Scored (r : Registry) (experimentId : String) (run : MlflowRun) : Prop :=
  run ∈ r.finishedRuns experimentId ∧ run.rocAuc?.isSome

/-- The runs of the experiment: at most a thousand finished ones, with distinct start times and
with distinct positive values of `roc_auc` where they have one, which some run of a supported family
has. Runs that are not finished may be anything. -/
structure ModelHistory (r : Registry) (experimentId : String) : Prop where
  experiment : r.experiments SelectBestModel.experimentName = some experimentId
  length_le : (r.finishedRuns experimentId).length ≤ 1000
  startTimes : ((r.finishedRuns experimentId).map (·.startTime)).Nodup
  rocAucs : ((r.finishedRuns experimentId).filterMap (·.rocAuc?)).Nodup
  positive : ∀ x ∈ (r.finishedRuns experimentId).filterMap (·.rocAuc?),
    ∃ q : ℚ, 0 < q ∧ x = .finite q
  candidate : ∃ run ∈ r.finishedRuns experimentId, ∃ family ∈ MlflowTools.supported,
    run.runName = some family ∧ run.rocAuc?.isSome

/-- The server finds experiments by name and answers searches. -/
structure MlflowServer.Answers (server : MlflowServer) (r : Registry) : Prop where
  getExperimentByName : ∀ name,
    (server.call (.getExperimentByName name) r).1 = .ok (r.experiments name)
  searchRuns : ∀ query, ∃ runs, (server.call (.searchRuns query) r).1 = .ok runs

variable {server : MlflowServer} {r : Registry} {experimentId : String}

/-- A search among runs with distinct start times returns the newest of them. -/
theorem newestFirst_searchRuns (hserver : server.Documented) {query : RunQuery}
    (hdistinct : ((r.runs.items.filter query.accepts).map (·.startTime)).Nodup)
    {runs : List MlflowRun} (h : (server.call (.searchRuns query) r).1 = .ok runs) :
    NewestFirst (·.startTime) runs ∧ ∀ run, run ∈ runs ↔
      run ∈ r.runs.items.filter query.accepts ∧
        (r.runs.items.filter query.accepts).countP
          (fun other => run.startTime < other.startTime) < query.maxResults := by
  obtain ⟨all, hperm, hsorted, rfl⟩ := hserver.searchRuns r query runs h
  have hall : NewestFirst (·.startTime) all := newestFirst_of_perm hperm hdistinct hsorted
  refine ⟨hall.sublist (List.take_sublist ..), fun run => ?_⟩
  rw [hall.mem_take_iff, hperm.mem_iff, hperm.countP_eq]

/-- The filter of the tools accepts the finished runs. -/
theorem filter_accepts_eq (r : Registry) (experimentId : String) (maxResults : ℕ) :
    r.runs.items.filter
        (RunQuery.accepts { experimentIds := [experimentId], maxResults := maxResults }) =
      r.finishedRuns experimentId := by
  refine List.filter_congr fun run _ => ?_
  simp [RunQuery.accepts, Bool.decide_and]

/-- The search of the tools returns the recent runs. -/
theorem search_recent (hserver : server.Documented) (hanswers : server.Answers r)
    (hhistory : ModelHistory r experimentId) :
    ∃ runs, (server.call (.searchRuns { experimentIds := [experimentId], maxResults := 100 }) r).1 =
        .ok runs ∧
      NewestFirst (·.startTime) runs ∧ ∀ run, run ∈ runs ↔ r.Recent experimentId run := by
  have haccepts := filter_accepts_eq r experimentId 100
  obtain ⟨runs, hruns⟩ := hanswers.searchRuns { experimentIds := [experimentId], maxResults := 100 }
  have hnewest := newestFirst_searchRuns hserver (by rw [haccepts]; exact hhistory.startTimes) hruns
  rw [haccepts] at hnewest
  exact ⟨runs, hruns, hnewest⟩

/-- The search of the script returns the runs with the metric. -/
theorem search_scored (hserver : server.Documented) (hanswers : server.Answers r)
    (hhistory : ModelHistory r experimentId) :
    ∃ runs, (server.call (.searchRuns (SelectBestModel.query experimentId)) r).1 = .ok runs ∧
      NewestFirst (·.startTime) runs ∧ ∀ run, run ∈ runs ↔ r.Scored experimentId run := by
  have haccepts : r.runs.items.filter (SelectBestModel.query experimentId).accepts =
      (r.finishedRuns experimentId).filter (·.rocAuc?.isSome) := by
    rw [Registry.finishedRuns, List.filter_filter]
    refine List.filter_congr fun run hrun => Bool.eq_iff_iff.mpr ?_
    simp only [RunQuery.accepts, SelectBestModel.query, Option.all_none, Option.all_some,
      Bool.and_true, Bool.and_eq_true, List.contains_iff_mem, List.mem_singleton,
      decide_eq_true_eq]
    rw [and_comm]
    refine and_congr_left fun hfinished => ⟨fun hpositive => ?_, fun hsome => ?_⟩
    · exact Option.isSome_of_any hpositive
    · obtain ⟨x, hx⟩ := Option.isSome_iff_exists.mp hsome
      have hmem : run ∈ r.finishedRuns experimentId :=
        List.mem_filter.mpr ⟨hrun, decide_eq_true hfinished⟩
      obtain ⟨q, hq, rfl⟩ := hhistory.positive x (List.mem_filterMap.mpr ⟨run, hmem, hx⟩)
      exact (Option.any_eq_true _ _).mpr ⟨_, hx, decide_eq_true hq⟩
  obtain ⟨runs, hruns⟩ := hanswers.searchRuns (SelectBestModel.query experimentId)
  have hnewest := newestFirst_searchRuns hserver (by
    rw [haccepts]
    exact hhistory.startTimes.sublist (List.filter_sublist.map _)) hruns
  rw [haccepts] at hnewest
  refine ⟨runs, hruns, hnewest.1, fun run => (hnewest.2 run).trans ?_⟩
  rw [List.mem_filter]
  refine and_iff_left_of_imp fun hrun => ?_
  calc ((r.finishedRuns experimentId).filter (·.rocAuc?.isSome)).countP
        (fun other => run.startTime < other.startTime)
      ≤ (r.finishedRuns experimentId).countP fun other => run.startTime < other.startTime :=
        List.filter_sublist.countP_le
    _ < (r.finishedRuns experimentId).length :=
        List.countP_lt_length_iff.mpr ⟨run, hrun.1, by simp⟩
    _ ≤ 1000 := hhistory.length_le

/-! ## The two comparisons -/

/-- A call that only reads and is answered, and the program goes on in the same registry. -/
theorem runFrom_answered_bind {A : Type} {env : ℕ → MlflowEnv} {k : ℕ}
    (hserver : server.Documented) (hfault : (env k).fault = none) {op : MlflowOp}
    (hop : op.ReadOnly) {result : op.Result} (h : (server.call op r).1 = .ok result)
    (f : op.Result → MlflowProgram A) :
    server.runFrom env k r (callMlflow op >>= f) = server.runFrom env (k + 1) r (f result) := by
  have hexec : server.exec op (env k) r = server.call op r := by rw [MlflowServer.exec, hfault]
  rw [runFrom_callMlflow_bind, hexec, h, hserver.readOnly op r hop]

/-- A program that is one such call. -/
theorem runFrom_answered {k : ℕ} (hserver : server.Documented) {op : MlflowOp}
    (hop : op.ReadOnly) {result : op.Result} (h : (server.call op r).1 = .ok result) :
    server.runFrom noFaults k r (callMlflow op) = (.ok result, r) := by
  change server.runFrom noFaults (k + 1) (server.call op r).2
    (Program.ofExcept (server.call op r).1) = _
  rw [h, hserver.readOnly op r hop]
  rfl

/-- What `compare_latest_models` returns: the rows of the recent runs, sorted. -/
theorem run_compareLatestModels (hserver : server.Documented) (hanswers : server.Answers r)
    (hhistory : ModelHistory r experimentId) {tools : MlflowTools}
    (htools : tools.experimentName = SelectBestModel.experimentName) :
    ∃ runs, NewestFirst (·.startTime) runs ∧ (∀ run, run ∈ runs ↔ r.Recent experimentId run) ∧
      (server.run noFaults r tools.compareLatestModels).1 =
        .ok ((MlflowTools.latest runs).insertionSort ModelRow.before) := by
  obtain ⟨runs, hsearch, hnewest, hmem⟩ := search_recent hserver hanswers hhistory
  refine ⟨runs, hnewest, hmem, ?_⟩
  have hexperiment : (server.call (.getExperimentByName tools.experimentName) r).1 =
      .ok (some experimentId) := by
    rw [hanswers.getExperimentByName, htools, hhistory.experiment]
  have hruns : server.run noFaults r (tools.getLatestModelRuns 100) = (.ok runs, r) := by
    rw [MlflowTools.getLatestModelRuns, if_neg (by decide), MlflowServer.run,
      runFrom_answered_bind hserver rfl (by trivial) hexperiment]
    exact runFrom_answered hserver (by trivial) hsearch
  rw [MlflowTools.compareLatestModels, run_bind, hruns]
  rfl

/-- A supported family with a run that is looked at has a row. -/
theorem exists_considered {P : MlflowRun → Prop} {runs : List MlflowRun}
    (hP : ∀ run, P run → run ∈ runs) {family : String} (hfamily : family ∈ MlflowTools.supported)
    {run : MlflowRun} (hrun : P run) (hname : run.runName = some family) :
    ∃ row, Considered P row := by
  obtain ⟨newest, hnewest⟩ := exists_isNewest MlflowRun.startTime
    (fun run (h : P run ∧ run.runName = some family) => hP run h.1) ⟨hrun, hname⟩
  exact ⟨_, family, hfamily, newest, hnewest, rfl⟩

/-- What the selection of `select_best_model.py` returns: the table of the runs with the metric, and
its first row. -/
theorem run_main (hserver : server.Documented) (hanswers : server.Answers r)
    (hhistory : ModelHistory r experimentId) :
    ∃ runs, NewestFirst (·.startTime) runs ∧ (∀ run, run ∈ runs ↔ r.Scored experimentId run) ∧
      ∃ bestRow rest,
        SelectBestModel.latestResults (runs.filterMap SelectBestModel.ResultRow.ofRun?) =
          bestRow :: rest ∧
        (server.run noFaults r SelectBestModel.main).1 = .ok ⟨bestRow :: rest, bestRow⟩ := by
  obtain ⟨runs, hsearch, hnewest, hmem⟩ := search_scored hserver hanswers hhistory
  obtain ⟨run, hfinished, family, hfamily, hname, hsome⟩ := hhistory.candidate
  obtain ⟨row, hrow⟩ := exists_considered (P := (· ∈ runs)) (fun _ h => h) hfamily
    ((hmem run).mpr ⟨hfinished, hsome⟩) hname
  have hlatest := (SelectBestModel.latestResults_perm hnewest).mem_iff.mpr
    ((mem_latest hnewest).mpr hrow)
  refine ⟨runs, hnewest, hmem, ?_⟩
  have hexperiment : (server.call (.getExperimentByName SelectBestModel.experimentName) r).1 =
      .ok (some experimentId) := by
    rw [hanswers.getExperimentByName, hhistory.experiment]
  cases htable : SelectBestModel.latestResults
      (runs.filterMap SelectBestModel.ResultRow.ofRun?) with
  | nil =>
    rw [htable] at hlatest
    cases hlatest
  | cons bestRow rest =>
    refine ⟨bestRow, rest, rfl, ?_⟩
    have hsome : runs.isEmpty = false := by
      cases runs with
      | nil => cases htable
      | cons _ _ => rfl
    have hrows : (runs.filterMap SelectBestModel.ResultRow.ofRun?).isEmpty = false := by
      cases hrows : runs.filterMap SelectBestModel.ResultRow.ofRun? with
      | nil =>
        rw [hrows] at htable
        cases htable
      | cons _ _ => rfl
    rw [SelectBestModel.main, MlflowServer.run,
      runFrom_answered_bind hserver rfl (by trivial) hexperiment]
    change (server.runFrom noFaults 1 r
      (callMlflow (.searchRuns (SelectBestModel.query experimentId)) >>= _)).1 = _
    rw [runFrom_answered_bind hserver rfl (by trivial) hsearch]
    simp only [hsome, hrows, htable]
    rfl

/-- The two comparisons consider the same runs, and the first row of the one is the best row of the
other. -/
def ComparisonsAgree (server : MlflowServer) (tools : MlflowTools) (r : Registry) : Prop :=
  ∃ rows selection, (server.run noFaults r tools.compareLatestModels).1 = .ok rows ∧
    (server.run noFaults r SelectBestModel.main).1 = .ok selection ∧
    rows.Perm (selection.latestResults.map (·.toModelRow)) ∧
    rows.head? = some selection.bestRow.toModelRow

/-- The latest finished run of a family is in view of both comparisons or of neither: it has
`roc_auc` and fewer than a hundred newer runs if the family has a run with `roc_auc`, and a hundred
newer runs if the family has none. -/
def Registry.InView (r : Registry) (experimentId family : String) : Prop :=
  ∀ run, LatestOf (· ∈ r.finishedRuns experimentId) family run →
    ((∃ other, r.Scored experimentId other ∧ other.runName = some family) →
      run.rocAuc?.isSome ∧ r.newerRuns experimentId run < 100) ∧
    ((¬∃ other, r.Scored experimentId other ∧ other.runName = some family) →
      100 ≤ r.newerRuns experimentId run)

/-- A run that started later has fewer newer runs. -/
theorem newerRuns_le {run other : MlflowRun} (h : run.startTime ≤ other.startTime) :
    r.newerRuns experimentId other ≤ r.newerRuns experimentId run := by
  refine List.countP_mono_left fun third _ hthird => ?_
  exact decide_eq_true (h.trans_lt (of_decide_eq_true hthird))

/-- A finished run is known by its start time. -/
theorem ModelHistory.eq_of_startTime (hhistory : ModelHistory r experimentId)
    {run other : MlflowRun} (hrun : run ∈ r.finishedRuns experimentId)
    (hother : other ∈ r.finishedRuns experimentId) (h : run.startTime = other.startTime) :
    run = other :=
  List.inj_on_of_nodup_map hhistory.startTimes hrun hother h

/-- The comparisons see the same latest run of a family exactly if its latest finished run is in
view of both or of neither. -/
theorem latestOf_recent_iff_scored (hhistory : ModelHistory r experimentId) (family : String) :
    (∀ run, LatestOf (r.Recent experimentId) family run ↔
      LatestOf (r.Scored experimentId) family run) ↔ r.InView experimentId family := by
  constructor
  · intro hsame run hrun
    have hrecent : r.newerRuns experimentId run < 100 →
        LatestOf (r.Recent experimentId) family run := fun hcount =>
      ⟨⟨⟨hrun.1.1, hcount⟩, hrun.1.2⟩, fun other hother => hrun.2 other ⟨hother.1.1, hother.2⟩⟩
    constructor
    · rintro ⟨other, hother, hname⟩
      obtain ⟨best, hbest⟩ := exists_isNewest MlflowRun.startTime
        (l := r.finishedRuns experimentId)
        (fun run (h : r.Scored experimentId run ∧ run.runName = some family) => h.1.1)
        ⟨hother, hname⟩
      have hseen := (hsame best).mpr hbest
      have hcount : r.newerRuns experimentId run < 100 :=
        (newerRuns_le (hrun.2 best ⟨hbest.1.1.1, hbest.1.2⟩)).trans_lt hseen.1.1.2
      exact ⟨((hsame run).mp (hrecent hcount)).1.1.2, hcount⟩
    · intro hnone
      by_contra hcount
      have hscored := (hsame run).mp (hrecent (not_le.mp hcount))
      exact hnone ⟨run, hscored.1⟩
  · intro hview run
    have hexists : ∀ {other}, other ∈ r.finishedRuns experimentId →
        other.runName = some family →
        ∃ latest, LatestOf (· ∈ r.finishedRuns experimentId) family latest ∧
          other.startTime ≤ latest.startTime := fun {other} hother hname => by
      obtain ⟨latest, hlatest⟩ := exists_isNewest MlflowRun.startTime
        (l := r.finishedRuns experimentId)
        (fun run (h : run ∈ r.finishedRuns experimentId ∧ run.runName = some family) => h.1)
        ⟨hother, hname⟩
      exact ⟨latest, hlatest, hlatest.2 other ⟨hother, hname⟩⟩
    constructor
    · intro hrun
      obtain ⟨latest, hlatest, hle⟩ := hexists hrun.1.1.1 hrun.1.2
      have hcount := (newerRuns_le hle).trans_lt hrun.1.1.2
      have hge := hrun.2 latest ⟨⟨hlatest.1.1, hcount⟩, hlatest.1.2⟩
      obtain rfl := hhistory.eq_of_startTime hrun.1.1.1 hlatest.1.1 (le_antisymm hle hge)
      have hscored : ∃ other, r.Scored experimentId other ∧ other.runName = some family :=
        by_contra fun hnone => absurd hcount (not_lt.mpr ((hview run hlatest).2 hnone))
      exact ⟨⟨⟨hlatest.1.1, ((hview run hlatest).1 hscored).1⟩, hlatest.1.2⟩,
        fun other hother => hlatest.2 other ⟨hother.1.1, hother.2⟩⟩
    · intro hrun
      obtain ⟨latest, hlatest, hle⟩ := hexists hrun.1.1.1 hrun.1.2
      obtain ⟨hsome, hcount⟩ := (hview latest hlatest).1 ⟨run, hrun.1⟩
      have hge := hrun.2 latest ⟨⟨hlatest.1.1, hsome⟩, hlatest.1.2⟩
      obtain rfl := hhistory.eq_of_startTime hrun.1.1.1 hlatest.1.1 (le_antisymm hle hge)
      exact ⟨⟨⟨hlatest.1.1, hcount⟩, hlatest.1.2⟩,
        fun other hother => hlatest.2 other ⟨hother.1.1, hother.2⟩⟩

/-- A finished run is known by its identifier. -/
theorem eq_of_runId {run other : MlflowRun} (hrun : run ∈ r.finishedRuns experimentId)
    (hother : other ∈ r.finishedRuns experimentId) (h : run.runId = other.runId) : run = other :=
  List.inj_on_of_nodup_map r.runs.unique (List.mem_of_mem_filter hrun)
    (List.mem_of_mem_filter hother) h

/-- A row tells which run it belongs to. -/
theorem latestOf_of_considered {P Q : MlflowRun → Prop}
    (hP : ∀ run, P run → run ∈ r.finishedRuns experimentId)
    (hQ : ∀ run, Q run → run ∈ r.finishedRuns experimentId) {family : String} {run : MlflowRun}
    (hrun : LatestOf P family run) (h : Considered Q (.ofRun family run)) :
    LatestOf Q family run := by
  obtain ⟨family', hfamily', run', hrun', hrow⟩ := h
  have hname : family = family' := congrArg ModelRow.runName hrow
  have hsame := eq_of_runId (hP run hrun.1.1) (hQ run' hrun'.1.1) (congrArg ModelRow.runId hrow)
  rwa [hname, hsame]

/-- The rows are the same exactly if the latest runs of all families are. -/
theorem considered_iff_latestOf :
    (∀ row, Considered (r.Recent experimentId) row ↔ Considered (r.Scored experimentId) row) ↔
      ∀ family ∈ MlflowTools.supported, ∀ run, LatestOf (r.Recent experimentId) family run ↔
        LatestOf (r.Scored experimentId) family run := by
  constructor
  · intro h family hfamily run
    constructor
    · intro hrun
      exact latestOf_of_considered (fun _ h => h.1) (fun _ h => h.1) hrun
        ((h _).mp ⟨family, hfamily, run, hrun, rfl⟩)
    · intro hrun
      exact latestOf_of_considered (fun _ h => h.1) (fun _ h => h.1) hrun
        ((h _).mpr ⟨family, hfamily, run, hrun, rfl⟩)
  · intro h row
    refine exists_congr fun family => and_congr_right fun hfamily => exists_congr fun run => ?_
    rw [h family hfamily run]

/-! ## The best row -/

/-- The value of a finite `roc_auc`. -/
def ModelRow.value (row : ModelRow) : ℚ :=
  match row.rocAuc with
  | some (.finite q) => q
  | _ => 0

/-- The order of the tools is that of the values. -/
theorem ModelRow.before_iff {a b : ModelRow} (ha : a.rocAuc = some (.finite a.value))
    (hb : b.rocAuc = some (.finite b.value)) : a.before b ↔ b.value ≤ a.value := by
  simp [ModelRow.before, ModelRow.key, ha, hb, PyFloat.lt, PyFloat.ge]

/-- So is the order of the script. -/
theorem SelectBestModel.ResultRow.better_iff {a b : SelectBestModel.ResultRow}
    (ha : a.rocAuc = some (.finite a.value)) (hb : b.rocAuc = some (.finite b.value)) :
    a.better b ↔ b.value ≤ a.value := by
  simp [SelectBestModel.ResultRow.better, ha, hb, Option.filter, PyFloat.lt, PyFloat.ge]

/-- The row of a run with the metric has a value. -/
theorem ModelHistory.rocAuc_eq (hhistory : ModelHistory r experimentId) {row : ModelRow}
    (h : Considered (r.Scored experimentId) row) : row.rocAuc = some (.finite row.value) := by
  obtain ⟨family, -, run, hrun, rfl⟩ := h
  obtain ⟨x, hx⟩ := Option.isSome_iff_exists.mp hrun.1.1.2
  obtain ⟨q, -, rfl⟩ := hhistory.positive x (List.mem_filterMap.mpr ⟨run, hrun.1.1.1, hx⟩)
  have hrow : (ModelRow.ofRun family run).rocAuc = some (.finite q) := hx
  rw [ModelRow.value, hrow]

/-- Rows of runs with the metric differ in value. -/
theorem ModelHistory.eq_of_value (hhistory : ModelHistory r experimentId) {a b : ModelRow}
    (ha : Considered (r.Scored experimentId) a) (hb : Considered (r.Scored experimentId) b)
    (h : a.value = b.value) : a = b := by
  have hrocAuc : a.rocAuc = b.rocAuc := by
    rw [hhistory.rocAuc_eq ha, hhistory.rocAuc_eq hb, h]
  obtain ⟨family, -, run, hrun, rfl⟩ := ha
  obtain ⟨family', -, run', hrun', rfl⟩ := hb
  obtain ⟨x, hx⟩ := Option.isSome_iff_exists.mp hrun.1.1.2
  have hsymm : Std.Symm fun a b : MlflowRun =>
      ∀ x, a.rocAuc? = some x → ∀ y, b.rocAuc? = some y → x ≠ y :=
    ⟨fun _ _ h x hx y hy => (h y hy x hx).symm⟩
  have hsame : run = run' := by
    by_contra hne
    have hdiffer := (List.pairwise_filterMap.mp hhistory.rocAucs).forall
      hrun.1.1.1 hrun'.1.1.1 hne
    exact hdiffer x hx x (hrocAuc.symm.trans hx) rfl
  subst hsame
  rw [Option.some.inj (hrun.1.2.symm.trans hrun'.1.2)]

/-- Two tables of the same rows have the same best row. -/
theorem ModelHistory.best_eq (hhistory : ModelHistory r experimentId) {rows : List ModelRow}
    {table : List SelectBestModel.ResultRow}
    (hscored : ∀ row ∈ rows, Considered (r.Scored experimentId) row)
    (hperm : rows.Perm (table.map (·.toModelRow))) {bestRow : SelectBestModel.ResultRow}
    (hbest : (table.insertionSort SelectBestModel.ResultRow.better).head? = some bestRow) :
    (rows.insertionSort ModelRow.before).head? = some bestRow.toModelRow := by
  have hvalue : ∀ row ∈ table, row.rocAuc = some (.finite row.value) := fun row hrow =>
    hhistory.rocAuc_eq (hscored _ (hperm.mem_iff.mpr (List.mem_map_of_mem hrow)))
  have hmem : bestRow ∈ table :=
    (List.mem_insertionSort _).mp (List.mem_of_head? hbest)
  have hbestMem : bestRow.toModelRow ∈ rows := hperm.mem_iff.mpr (List.mem_map_of_mem hmem)
  have hmax := le_of_head?_insertionSort
    (fun row : SelectBestModel.ResultRow => row.value)
    (fun a ha b hb => SelectBestModel.ResultRow.better_iff (hvalue a ha) (hvalue b hb)) hbest
  cases hfirst : (rows.insertionSort ModelRow.before).head? with
  | none =>
    have hempty := List.head?_eq_none_iff.mp hfirst
    have hlost := (List.mem_insertionSort ModelRow.before).mpr hbestMem
    rw [hempty] at hlost
    cases hlost
  | some first =>
    have hfirstMem : first ∈ rows := (List.mem_insertionSort _).mp (List.mem_of_head? hfirst)
    have hfirstMax := le_of_head?_insertionSort ModelRow.value
      (fun a ha b hb => ModelRow.before_iff (hhistory.rocAuc_eq (hscored a ha))
        (hhistory.rocAuc_eq (hscored b hb))) hfirst
    obtain ⟨row, hrow, rfl⟩ := List.mem_map.mp (hperm.mem_iff.mp hfirstMem)
    refine congrArg some (hhistory.eq_of_value (hscored _ hfirstMem) (hscored _ hbestMem) ?_)
    exact le_antisymm (hmax row hrow) (hfirstMax _ hbestMem)

/-- The two comparisons agree exactly if the latest finished run of each supported family is in
view of both or of neither. -/
theorem comparisonsAgree_iff (hserver : server.Documented) (hanswers : server.Answers r)
    (hhistory : ModelHistory r experimentId) {tools : MlflowTools}
    (htools : tools.experimentName = SelectBestModel.experimentName) :
    ComparisonsAgree server tools r ↔
      ∀ family ∈ MlflowTools.supported, r.InView experimentId family := by
  obtain ⟨recent, hrecent, hrecentMem, hcompare⟩ :=
    run_compareLatestModels hserver hanswers hhistory htools
  obtain ⟨scored, hscored, hscoredMem, bestRow, rest, htable, hmain⟩ :=
    run_main hserver hanswers hhistory
  have htablePerm := SelectBestModel.latestResults_perm hscored
  rw [htable] at htablePerm
  have hsame : (MlflowTools.latest recent).Perm (MlflowTools.latest scored) ↔
      ∀ family ∈ MlflowTools.supported, r.InView experimentId family := by
    rw [List.perm_ext_iff_of_nodup (nodup_latest _) (nodup_latest _)]
    simp only [mem_latest hrecent, mem_latest hscored, funext fun run => propext (hrecentMem run),
      funext fun run => propext (hscoredMem run), considered_iff_latestOf,
      latestOf_recent_iff_scored hhistory]
  constructor
  · rintro ⟨rows, selection, hrows, hselection, hperm, -⟩
    obtain rfl := Except.ok.inj (hcompare.symm.trans hrows)
    obtain rfl := Except.ok.inj (hmain.symm.trans hselection)
    exact hsame.mp (((List.perm_insertionSort _ _).symm.trans hperm).trans htablePerm)
  · intro hview
    have hperm := hsame.mpr hview
    refine ⟨_, _, hcompare, hmain, ?_, ?_⟩
    · exact ((List.perm_insertionSort _ _).trans hperm).trans htablePerm.symm
    · rw [SelectBestModel.latestResults] at htable
      refine hhistory.best_eq (fun row hrow => ?_) ((hperm.trans htablePerm.symm).trans ?_)
        (congrArg List.head? htable)
      · have hrow := (mem_latest hscored).mp (hperm.mem_iff.mp hrow)
        rwa [funext fun run => propext (hscoredMem run)] at hrow
      · rw [← htable]
        exact (List.perm_insertionSort _ _).map _

/-! ## Two histories -/

/-- The tracking server finds experiments and answers searches. -/
theorem trackingServer_answers (r : Registry) : trackingServer.Answers r where
  getExperimentByName _ := rfl
  searchRuns _ := ⟨_, rfl⟩

/-- A finished run of the experiment `credit-scoring`. -/
def finishedRun (runId runName : String) (startTime : ℤ) (metrics : Metrics) : MlflowRun where
  runId := runId
  experimentId := "1"
  runName := some runName
  status := .finished
  startTime := startTime
  metrics := metrics
  params := []

/-- A registry with the experiment `credit-scoring` and its runs. -/
def experimentWith (runs : Keyed MlflowRun.runId) : Registry where
  experiments name := if name = "credit-scoring" then some "1" else none
  runs := runs
  modelVersions := .empty
  aliases _ _ := none

/-- Runs of two families, both with the metric. -/
def twoFamilies : Registry :=
  experimentWith
    { items :=
        [finishedRun "r2" "lightgbm_baseline" 2 [("roc_auc", .finite (9 / 10))],
          finishedRun "r1" "catboost_baseline" 1 [("roc_auc", .finite (8 / 10))]]
      unique := by decide }

/-- They satisfy what is assumed of a history. -/
theorem twoFamilies_history : ModelHistory twoFamilies "1" where
  experiment := rfl
  length_le := by decide +kernel
  startTimes := by decide +kernel
  rocAucs := by decide +kernel
  positive x hx := by
    have hvalues : (twoFamilies.finishedRuns "1").filterMap (·.rocAuc?) =
        [.finite (9 / 10), .finite (8 / 10)] := by decide +kernel
    rw [hvalues] at hx
    rcases List.mem_pair.mp hx with rfl | rfl
    · exact ⟨9 / 10, by norm_num, rfl⟩
    · exact ⟨8 / 10, by norm_num, rfl⟩
  candidate := ⟨_, List.mem_cons_self, "lightgbm_baseline", by decide, rfl, rfl⟩

/-- With every run in view, the comparisons agree. -/
theorem comparisonsAgree_iff_twoFamilies : ComparisonsAgree trackingServer {} twoFamilies := by
  refine (comparisonsAgree_iff trackingServer_documented (trackingServer_answers _)
    twoFamilies_history rfl).mpr fun family hfamily run hrun => ?_
  have hscored : ∀ run ∈ twoFamilies.finishedRuns "1", run.rocAuc?.isSome := by decide +kernel
  have hfew : twoFamilies.newerRuns "1" run < 100 :=
    List.countP_le_length.trans_lt (by decide +kernel)
  refine ⟨fun _ => ⟨hscored run hrun.1.1, hfew⟩, fun hnone => ?_⟩
  exact (hnone ⟨run, ⟨hrun.1.1, hscored run hrun.1.1⟩, hrun.1.2⟩).elim

/-- A run with the metric, and a hundred newer runs that `select_best_model.py` has logged. -/
def crowded : Registry :=
  experimentWith
    { items :=
        finishedRun "candidate" "catboost_baseline" 0 [("roc_auc", .finite (8 / 10))] ::
          (List.range 100).map fun n : ℕ =>
            finishedRun (.ofList (List.replicate n 's')) "best_model_selection" (n + 1)
              [("best_roc_auc", .finite (8 / 10))]
      unique := by
        rw [List.map_cons, List.map_map, List.nodup_cons]
        refine ⟨by decide +kernel, List.nodup_range.map fun m n h => ?_⟩
        simpa [finishedRun] using congrArg String.length h }

/-- They satisfy what is assumed of a history. -/
theorem crowded_history : ModelHistory crowded "1" where
  experiment := rfl
  length_le := by decide +kernel
  startTimes := by decide +kernel
  rocAucs := by decide +kernel
  positive x hx := by
    have hvalues : (crowded.finishedRuns "1").filterMap (·.rocAuc?) = [.finite (8 / 10)] := by
      decide +kernel
    rw [hvalues, List.mem_singleton] at hx
    exact ⟨8 / 10, by norm_num, hx⟩
  candidate := ⟨_, List.mem_cons_self, "catboost_baseline", by decide, rfl, rfl⟩

/-- The tools find no model, where the script selects one. -/
theorem comparisons_disagree :
    trackingServer.Documented ∧ trackingServer.Answers crowded ∧ ModelHistory crowded "1" ∧
      ¬ComparisonsAgree trackingServer {} crowded := by
  refine ⟨trackingServer_documented, trackingServer_answers _, crowded_history, ?_⟩
  rintro ⟨rows, selection, hrows, -, -, hhead⟩
  have hempty : ((trackingServer.run noFaults crowded
      (MlflowTools.compareLatestModels {})).1.map List.length).toOption = some 0 := by
    decide +kernel
  rw [hrows] at hempty
  have hrows : rows = [] := List.length_eq_zero_iff.mp (Option.some.inj hempty)
  rw [hrows] at hhead
  cases hhead

end CreditScoringMlops.Promotion
