import CreditScoringMlops.Interaction.Translation
import CreditScoringMlops.Promotion.ModelPromotionWorkflow
import CreditScoringMlops.Promotion.SelectBestModel

/-!
# The training scripts and what uses their models

The three training scripts, the selection and promotion scripts and the start of the scoring
service, as programs over one tracking server. A run is opened by `mlflow.start_run` and closed by
the end of its `with` block: as finished, or as failed if the block raises. A process that dies
leaves its run open. What `pandas` and the model libraries compute is a reply.
-/

namespace CreditScoringMlops.Training

open Python Interaction Data Promotion

/-! ## Operations -/

/-- The operations. -/
inductive Op where
  | pathExists (path : String)
  | readCsv (path : String)
  | fit (classifier : String) (features catFeatures : List String)
  | predictProba
  | score (metric : String)
  | setExperiment (name : String)
  | startRun (experimentId runName : String)
  | logParams (runId : String)
  | logMetrics (runId : String) (metrics : Metrics)
  | logModel (runId registeredModelName : String)
  | endRun (runId : String) (status : RunStatus)
  | client (op : MlflowOp)
  | loadModel (name modelAlias : String)
  | print (line : String)

/-- What an operation returns. A table is the list of its columns. -/
abbrev Op.Result : Op → Type
  | pathExists _ => Bool
  | readCsv _ => List String
  | score _ => PyFloat
  | setExperiment _ => String
  | startRun _ _ => String
  | client op => op.Result
  | loadModel _ _ => ModelVersion
  | _ => Unit

/-- An operation returns or raises. -/
abbrev Op.Reply (op : Op) : Type := Except PyExc op.Result

/-- What the surroundings contribute to one operation: what the files and the libraries answer, the
names that the server assigns, and a fault, which an effect may have preceded. -/
structure Env where
  pathExists : Bool := true
  table : Except PyExc (List String) := .ok ["age", "target"]
  library : Except PyExc Unit := .ok ()
  score : Except PyExc PyFloat := .ok (.finite 1)
  newId : String := ""
  version : String := ""
  startTime : ℤ := 0
  fault : Option PyExc := none
  applied : Bool := false

/-- The registry, and who has started which run. The owner of a run is ghost data. -/
structure World where
  registry : Registry
  owner : String → Option ℕ := fun _ => none

/-- A run with some metrics more; the last value of a name counts. -/
def logged (metrics : Metrics) (run : MlflowRun) : MlflowRun :=
  { run with metrics := metrics ++ run.metrics }

/-- A run with another status. -/
def inStatus (status : RunStatus) (run : MlflowRun) : MlflowRun := { run with status }

/-- Change the run of an identifier. -/
def updateRun (r : Registry) (runId : String) (f : MlflowRun → MlflowRun)
    (hf : ∀ run, (f run).runId = run.runId) : Registry :=
  { r with runs := r.runs.modify runId f hf }

/-- A call that names what the server does not have. -/
def notFound : PyExc := .other "RESOURCE_DOES_NOT_EXIST"

/-- A name that is taken. -/
def alreadyExists : PyExc := .other "RESOURCE_ALREADY_EXISTS"

/-- `mlflow.set_experiment`, which creates the experiment if there is none. -/
def execSetExperiment (name : String) (env : Env) (w : World) : Except PyExc (String × World) :=
  match w.registry.experiments name with
  | some experimentId => .ok (experimentId, w)
  | none =>
    let experiments := fun n => if n = name then some env.newId else w.registry.experiments n
    .ok (env.newId, { w with registry := { w.registry with experiments } })

/-- `mlflow.start_run`. -/
def execStartRun (i : ℕ) (experimentId runName : String) (env : Env) (w : World) :
    Except PyExc (String × World) :=
  match w.registry.run? env.newId with
  | some _ => .error alreadyExists
  | none =>
    let run : MlflowRun :=
      { runId := env.newId, experimentId, runName := some runName, status := .running
        startTime := env.startTime, metrics := [], params := [] }
    .ok (env.newId,
      { registry := { w.registry with runs := w.registry.runs.insert run }
        owner := fun runId => if runId = env.newId then some i else w.owner runId })

/-- Look for a run. The parameters of a run are left out. -/
def execFind (runId : String) (w : World) : Except PyExc (Unit × World) :=
  match w.registry.run? runId with
  | none => .error notFound
  | some _ => .ok ((), w)

/-- Change a run that the server has. -/
def execUpdate (runId : String) (f : MlflowRun → MlflowRun)
    (hf : ∀ run, (f run).runId = run.runId) (w : World) : Except PyExc (Unit × World) :=
  match w.registry.run? runId with
  | none => .error notFound
  | some _ => .ok ((), { w with registry := updateRun w.registry runId f hf })

/-- `log_model` with a registered name: the server assigns a version. -/
def execLogModel (runId name : String) (env : Env) (w : World) : Except PyExc (Unit × World) :=
  match w.registry.run? runId, w.registry.modelVersion? name env.version with
  | none, _ => .error notFound
  | _, some _ => .error alreadyExists
  | some _, none =>
    let version : ModelVersion :=
      { name, version := env.version, runId := some runId, status := "READY" }
    .ok ((), { w with registry :=
      { w.registry with modelVersions := w.registry.modelVersions.insert version } })

/-- A call of the server may fail, before or after it took effect. -/
def withFault {A : Type} (env : Env) (w : World) (result : Except PyExc (A × World)) :
    Except PyExc A × World :=
  match result, env.fault with
  | .error exc, _ => (.error exc, w)
  | .ok (a, after), none => (.ok a, after)
  | .ok (_, after), some exc => (.error exc, if env.applied then after else w)

variable (server : MlflowServer)

/-- The answer to an operation of process `i` and the world after it. -/
def exec (i : ℕ) (op : Op) (env : Env) (w : World) : op.Reply × World :=
  match op with
  | .pathExists _ => (.ok env.pathExists, w)
  | .readCsv _ => (env.table, w)
  | .fit _ _ _ => (env.library, w)
  | .predictProba => (env.library, w)
  | .score _ => (env.score, w)
  | .setExperiment name => withFault env w (execSetExperiment name env w)
  | .startRun experimentId runName => withFault env w (execStartRun i experimentId runName env w)
  | .logParams runId => withFault env w (execFind runId w)
  | .logMetrics runId metrics =>
    withFault env w (execUpdate runId (logged metrics) (fun _ => rfl) w)
  | .logModel runId name => withFault env w (execLogModel runId name env w)
  | .endRun runId status => withFault env w (execUpdate runId (inStatus status) (fun _ => rfl) w)
  | .client op =>
    let (reply, registry) :=
      server.exec op { fault := env.fault, applied := env.applied } w.registry
    (reply, { w with registry })
  | .loadModel name modelAlias =>
    match w.registry.aliased? name modelAlias with
    | some version => withFault env w (.ok (version, w))
    | none => (.error notFound, w)
  | .print _ => (.ok (), w)

/-- Programs of the scripts. -/
abbrev Handler (A : Type) := Program Op Op.Reply PyExc A

/-- Perform one operation and return its result, or raise. -/
def ask (op : Op) : Handler op.Result := do
  Program.ofExcept (← Program.request op)

/-- A program that calls `MlflowClient`, among the other operations. -/
def client {A : Type} (p : MlflowProgram A) : Handler A :=
  p.translate fun op => Program.request (Op.client op)

/-! ## The data -/

/-- `TRAIN_PATH`. -/
def trainPath : String := "data/processed/train.csv"

/-- `TEST_PATH`. -/
def testPath : String := "data/processed/test.csv"

/-- `TARGET_COLUMN`. -/
def targetColumn : String := "target"

/-- `EXPERIMENT_NAME`. -/
def experimentName : String := "credit-scoring"

/-- `df.drop(columns=[TARGET_COLUMN])`, followed by `df[TARGET_COLUMN]`. -/
def dropTarget (columns : List String) : Except PyExc (List String) :=
  if targetColumn ∈ columns then .ok (columns.filter (· ≠ targetColumn))
  else .error (.keyError "['target'] not found in axis")

/-- `load_data`: the columns of `X_train` and of `X_test`. -/
def loadData : Handler (List String × List String) := do
  let train ← ask (.readCsv trainPath)
  let test ← ask (.readCsv testPath)
  let xTrain ← Program.ofExcept (dropTarget train)
  let xTest ← Program.ofExcept (dropTarget test)
  return (xTrain, xTest)

/-- `load_data` of the CatBoost script, which looks for the files first. -/
def loadCheckedData : Handler (List String × List String) := do
  if !(← ask (.pathExists trainPath)) then
    Program.raise (.fileNotFoundError s!"File not found: {trainPath}")
  else if !(← ask (.pathExists testPath)) then
    Program.raise (.fileNotFoundError s!"File not found: {testPath}")
  else loadData

/-- `categorical_columns`. -/
def categoricalColumns : List String :=
  ["checking_account_status", "credit_history", "purpose", "savings_account", "employment_since",
    "personal_status_sex", "other_debtors", "property", "other_installment_plans", "housing", "job",
    "people_liable", "telephone", "foreign_worker", "is_long_term_loan", "is_high_amount_loan"]

/-- `get_cat_features`. -/
def getCatFeatures (columns : List String) : List String :=
  categoricalColumns.filter (· ∈ columns)

/-! ## The metrics -/

/-- `2 * roc_auc - 1`. -/
def giniOf : PyFloat → PyFloat
  | .finite x => .finite (2 * x - 1)
  | x => x

/-- `calculate_metrics`. -/
def calculateMetrics : Handler Metrics := do
  let rocAuc ← ask (.score "roc_auc")
  return [("accuracy", ← ask (.score "accuracy")), ("precision", ← ask (.score "precision")),
    ("recall", ← ask (.score "recall")), ("f1", ← ask (.score "f1")), ("roc_auc", rocAuc),
    ("gini", giniOf rocAuc)]

/-- `calculate_metrics` of the CatBoost script, which computes `roc_auc` again for `gini`. -/
def calculateMetricsAgain : Handler Metrics := do
  return [("accuracy", ← ask (.score "accuracy")), ("precision", ← ask (.score "precision")),
    ("recall", ← ask (.score "recall")), ("f1", ← ask (.score "f1")),
    ("roc_auc", ← ask (.score "roc_auc")), ("gini", giniOf (← ask (.score "roc_auc")))]

/-! ## Runs -/

/-- `with mlflow.start_run(run_name=...)`. -/
def withRun (experimentId runName : String) (body : String → Handler Unit) : Handler Unit := do
  let runId ← ask (.startRun experimentId runName)
  match ← (body runId).attempt with
  | .ok () => ask (.endRun runId .finished)
  | .error exc =>
    ask (.endRun runId .failed)
    Program.raise exc

/-- The `with` block of a training script. `paramCalls` is how often it logs parameters. -/
def trainRun (classifier registeredModelName : String) (features catFeatures : List String)
    (calculate : Handler Metrics) (paramCalls : ℕ) (runId : String) : Handler Unit := do
  ask (.fit classifier features catFeatures)
  ask .predictProba
  let metrics ← calculate
  (List.replicate paramCalls runId).forM fun runId => ask (.logParams runId)
  ask (.logMetrics runId metrics)
  ask (.logModel runId registeredModelName)
  ask (.print "training completed")

/-- `main` of `train_catboost.py`. -/
def trainCatBoost : Handler Unit := do
  let (xTrain, _) ← loadCheckedData
  let experimentId ← ask (.setExperiment experimentName)
  withRun experimentId "catboost_baseline"
    (trainRun "CatBoostClassifier" "CreditScoringCatBoost" xTrain (getCatFeatures xTrain)
      calculateMetricsAgain 2)

/-- `main` of `train_lightgbm.py`. -/
def trainLightGbm : Handler Unit := do
  let (xTrain, _) ← loadData
  let experimentId ← ask (.setExperiment experimentName)
  withRun experimentId "lightgbm_baseline"
    (trainRun "LGBMClassifier" "CreditScoringLightGBM" xTrain [] calculateMetrics 1)

/-- `main` of `train_xgboost.py`. -/
def trainXgBoost : Handler Unit := do
  let (xTrain, _) ← loadData
  let experimentId ← ask (.setExperiment experimentName)
  withRun experimentId "xgboost_baseline"
    (trainRun "XGBClassifier" "CreditScoringXGBoost" xTrain [] calculateMetrics 1)

/-- `main` of `select_best_model.py`, with the run in which it logs its choice. -/
def selectBestModel : Handler Unit := do
  let selection ← client SelectBestModel.main
  let experimentId ← ask (.setExperiment SelectBestModel.experimentName)
  withRun experimentId "best_model_selection" fun runId => do
    (List.replicate 4 runId).forM fun runId => ask (.logParams runId)
    ask (.logMetrics runId
      [("best_" ++ SelectBestModel.metricName, selection.bestRow.rocAuc.getD .nan)])

/-- `main` of `promote_model.py`. -/
def promoteModel : Handler Unit := do
  client PromoteModel.main
  ask (.print "Model promoted successfully")

/-- `load_model`, at the start of the scoring service. -/
def loadModel : Handler ModelVersion :=
  ask (.loadModel PromoteModel.modelName PromoteModel.modelAlias)

/-! ## The system -/

/-- What can arrive. -/
inductive Request where
  | trainCatBoost
  | trainLightGbm
  | trainXgBoost
  | selectBestModel
  | promoteModel
  | loadModel

/-- The program of a request. Only the loader returns a model. -/
def serve : Request → Handler (Option ModelVersion)
  | .trainCatBoost => (fun _ => none) <$> trainCatBoost
  | .trainLightGbm => (fun _ => none) <$> trainLightGbm
  | .trainXgBoost => (fun _ => none) <$> trainXgBoost
  | .selectBestModel => (fun _ => none) <$> selectBestModel
  | .promoteModel => (fun _ => none) <$> promoteModel
  | .loadModel => some <$> loadModel

/-- The scripts and the service over one tracking server. -/
def system : Machine Op Op.Reply PyExc Env World Request (Option ModelVersion) where
  program := serve
  exec := exec server
  abort _ w := w

end CreditScoringMlops.Training
