import CreditScoringMlops.Promotion.Mlflow

/-!
# The MLflow tools

Inspection of the champion, of runs and of the latest models, and the one write: `promoteModel`
moves the champion alias after its own guards. Results are dictionaries as in the source, or data
with the dictionary they stand for.
-/

namespace CreditScoringMlops.Promotion

open Python Interaction

/-- A string in a dictionary, or `None`. -/
def optionStr (s : Option String) : Json := s.elim .null .str

/-- A float in a dictionary, or `None`. -/
def optionFloat (x : Option PyFloat) : Json := x.elim .null .float

/-- Truth and content: `not s or not s.strip()`. -/
def isBlank (s : String) : Bool := s.isEmpty || (strip s.toList).isEmpty

/-- The names that the tools work on. -/
structure MlflowTools where
  experimentName : String := "credit-scoring"
  modelName : String := "CreditScoringCatBoost"
  modelAlias : String := "champion"

/-- What `get_champion_model` finds. -/
inductive ChampionModel where
  | unavailable (error : String)
  | available (modelVersion : ModelVersion)

/-- The `try` block around the lookup of the alias. -/
def ChampionModel.ofReply : Except PyExc ModelVersion → ChampionModel
  | .error exc => .unavailable exc.str
  | .ok modelVersion => .available modelVersion

/-- Its dictionary. -/
def ChampionModel.toDict (tools : MlflowTools) : ChampionModel → Dict
  | unavailable error =>
    [("available", .bool false), ("model_name", .str tools.modelName),
      ("alias", .str tools.modelAlias), ("error", .str error)]
  | available v =>
    [("available", .bool true), ("model_name", .str tools.modelName),
      ("alias", .str tools.modelAlias), ("version", .str v.version),
      ("run_id", optionStr v.runId), ("status", .str v.status)]

/-- What `get_run_metrics` finds. -/
inductive RunMetrics where
  | unavailable (runId error : String)
  | available (run : MlflowRun)

/-- The `try` block around the lookup of the run. -/
def RunMetrics.ofReply (runId : String) : Except PyExc MlflowRun → RunMetrics
  | .error exc => .unavailable runId exc.str
  | .ok run => .available run

/-- Its dictionary. -/
def RunMetrics.toDict : RunMetrics → Dict
  | unavailable runId error =>
    [("available", .bool false), ("run_id", .str runId), ("error", .str error)]
  | available run =>
    [("available", .bool true), ("run_id", .str run.runId), ("run_name", optionStr run.runName),
      ("metrics", .obj run.metrics.toDict),
      ("params", .obj (run.params.map fun (name, value) => (name, .str value)))]

/-- A row of the model comparison. -/
structure ModelRow where
  runName : String
  runId : String
  rocAuc : Option PyFloat
  gini : Option PyFloat
  accuracy : Option PyFloat
  precision : Option PyFloat
  recallScore : Option PyFloat
  f1 : Option PyFloat

/-- The row of a run. -/
def ModelRow.ofRun (name : String) (run : MlflowRun) : ModelRow where
  runName := name
  runId := run.runId
  rocAuc := run.metrics.get? "roc_auc"
  gini := run.metrics.get? "gini"
  accuracy := run.metrics.get? "accuracy"
  precision := run.metrics.get? "precision"
  recallScore := run.metrics.get? "recall"
  f1 := run.metrics.get? "f1"

/-- Its dictionary. -/
def ModelRow.toDict (row : ModelRow) : Dict :=
  [("run_name", .str row.runName), ("run_id", .str row.runId), ("roc_auc", optionFloat row.rocAuc),
    ("gini", optionFloat row.gini), ("accuracy", optionFloat row.accuracy),
    ("precision", optionFloat row.precision), ("recall", optionFloat row.recallScore),
    ("f1", optionFloat row.f1)]

/-- The sort key: a missing `roc_auc` comes last. -/
def ModelRow.key (row : ModelRow) : PyFloat := row.rocAuc.getD .negInf

/-- The comparison of a stable sort in descending order of the key. -/
def ModelRow.before (a b : ModelRow) : Prop := PyFloat.lt a.key b.key = false

instance : DecidableRel ModelRow.before := fun _ _ => inferInstanceAs (Decidable (_ = _))

namespace MlflowTools

/-- The names of the supported model families. -/
def supported : List String := ["catboost_baseline", "lightgbm_baseline", "xgboost_baseline"]

/-- The first run of each supported family. -/
def latest (runs : List MlflowRun) : List ModelRow :=
  runs.foldl (fun rows run =>
    match run.runName with
    | some name =>
      if name ∉ supported ∨ rows.any (fun row => row.runName == name) then rows
      else rows ++ [.ofRun name run]
    | none => rows) []

variable (tools : MlflowTools)

/-- `get_champion_model`. -/
def getChampionModel : MlflowProgram ChampionModel := do
  let reply ← Program.request (MlflowOp.getModelVersionByAlias tools.modelName tools.modelAlias)
  return .ofReply reply

/-- `get_run_metrics`. -/
def getRunMetrics (runId : String) : MlflowProgram RunMetrics := do
  if isBlank runId then Program.raise (.valueError "run_id must not be empty")
  else
    let reply ← Program.request (MlflowOp.getRun runId)
    return .ofReply runId reply

/-- The dictionary of a promotion that was not made. -/
def notPromoted (reason : String) : Dict := [("promoted", .bool false), ("reason", .str reason)]

/-- The end of `promote_model`: the write of the alias. -/
def moveAlias (candidate : ModelVersion) : MlflowProgram Dict := do
  match ← Program.request
      (.setRegisteredModelAlias tools.modelName tools.modelAlias candidate.version) with
  | .error exc => return notPromoted s!"MLflow promotion failed: {exc.str}"
  | .ok () =>
    return [("promoted", .bool true), ("already_champion", .bool false),
      ("model_name", .str tools.modelName), ("alias", .str tools.modelAlias),
      ("version", .str candidate.version), ("run_id", optionStr candidate.runId)]

/-- `current.get("available") and str(current.get("version")) == str(candidate.version)`. -/
def isChampion (current : ChampionModel) (candidate : ModelVersion) : Bool :=
  match current with
  | .available v => decide (v.version = candidate.version)
  | .unavailable _ => false

/-- `promote_model`. -/
def promoteModel (candidateVersion decision : String) (humanApproved : Bool) :
    MlflowProgram Dict := do
  if decision ≠ "PROMOTE" then
    return notPromoted s!"Promotion blocked because decision is {reprString decision}"
  else if !humanApproved then
    return notPromoted "Human approval is required before model promotion"
  else if isBlank candidateVersion then
    return notPromoted "Candidate model version is required"
  else
    match ← Program.request (.getModelVersion tools.modelName candidateVersion) with
    | .error exc => return notPromoted s!"Candidate model version is unavailable: {exc.str}"
    | .ok candidate =>
      let current ← tools.getChampionModel
      if isChampion current candidate then
        return [("promoted", .bool false), ("already_champion", .bool true),
          ("reason", .str s!"Model version {candidate.version} is already champion"),
          ("version", .str candidate.version)]
      else tools.moveAlias candidate

/-- `get_latest_model_runs`. -/
def getLatestModelRuns (limit : ℤ) : MlflowProgram (List MlflowRun) := do
  if limit < 1 ∨ limit > 100 then
    Program.raise (.valueError "limit must be between 1 and 100")
  else
    match ← callMlflow (.getExperimentByName tools.experimentName) with
    | none => return []
    | some experimentId =>
      callMlflow (.searchRuns { experimentIds := [experimentId], maxResults := limit.toNat })

/-- `compare_latest_models`. -/
def compareLatestModels : MlflowProgram (List ModelRow) := do
  let runs ← tools.getLatestModelRuns 100
  return (latest runs).insertionSort ModelRow.before

/-! ## They only read -/

/-- Looking up the champion. -/
theorem getChampionModel_uses : tools.getChampionModel.Uses MlflowOp.ReadOnly :=
  ⟨trivial, fun _ _ => trivial⟩

/-- Looking up the metrics of a run. -/
theorem getRunMetrics_uses (runId : String) : (getRunMetrics runId).Uses MlflowOp.ReadOnly := by
  unfold getRunMetrics
  split
  · trivial
  · exact ⟨trivial, fun _ _ => trivial⟩

/-- Looking up the latest runs. -/
theorem getLatestModelRuns_uses (limit : ℤ) :
    (tools.getLatestModelRuns limit).Uses MlflowOp.ReadOnly := by
  unfold getLatestModelRuns
  split
  · trivial
  · refine (callMlflow_uses trivial).bind fun experimentId => ?_
    cases experimentId with
    | none => trivial
    | some experimentId => exact callMlflow_uses trivial

/-- Comparing the latest models. -/
theorem compareLatestModels_uses : tools.compareLatestModels.Uses MlflowOp.ReadOnly :=
  (tools.getLatestModelRuns_uses 100).bind fun _ => trivial

end MlflowTools

end CreditScoringMlops.Promotion
