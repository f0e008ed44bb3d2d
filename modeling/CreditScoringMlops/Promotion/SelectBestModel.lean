import CreditScoringMlops.Data.Newest
import CreditScoringMlops.Promotion.MlflowTools

/-!
# The selection script

`select_best_model.py` compares the latest runs of the model families as well. It searches for the
finished runs that have the metric, collects them in a table and reduces the table: newest row
first, the first row of each name, best row first. What it prints and logs about the selection is
left out.
-/

namespace CreditScoringMlops.Promotion.SelectBestModel

open Python Interaction Data

/-- `EXPERIMENT_NAME`. -/
def experimentName : String := "credit-scoring"

/-- `METRIC_NAME`. -/
def metricName : String := "roc_auc"

/-- `MODEL_RUN_NAMES`. -/
def modelRunNames : List String := ["catboost_baseline", "lightgbm_baseline", "xgboost_baseline"]

/-- The search of `main`. -/
def query (experimentId : String) : RunQuery where
  experimentIds := [experimentId]
  positiveMetric := some metricName

/-- A row of `results_df`, with the columns of a row of the model comparison and `start_time`. -/
structure ResultRow extends ModelRow where
  startTime : ℤ

/-- The row of a run, if the run is one of a model. -/
def ResultRow.ofRun? (run : MlflowRun) : Option ResultRow :=
  match run.runName with
  | some name =>
    if name ∉ modelRunNames then none
    else some { ModelRow.ofRun name run with startTime := run.startTime }
  | none => none

/-- The order of `sort_values(by="start_time", ascending=False)`. -/
def ResultRow.newer (a b : ResultRow) : Prop := b.startTime ≤ a.startTime

instance : DecidableRel ResultRow.newer := fun _ _ => inferInstanceAs (Decidable (_ ≤ _))

/-- The order of `sort_values(by=METRIC_NAME, ascending=False)`, in which what is missing or `nan`
comes last. -/
def ResultRow.better (a b : ResultRow) : Prop :=
  match a.rocAuc.filter (· ≠ .nan), b.rocAuc.filter (· ≠ .nan) with
  | some x, some y => PyFloat.lt x y = false
  | none, some _ => False
  | _, none => True

instance : DecidableRel ResultRow.better := fun a b => by
  unfold ResultRow.better
  split <;> infer_instance

/-- What `main` selects: the table it prints, and `iloc[0]` of it. -/
structure Selection where
  latestResults : List ResultRow
  bestRow : ResultRow

/-- `latest_results_df`: the latest row of each model, best first. -/
def latestResults (rows : List ResultRow) : List ResultRow :=
  (dropDuplicates (·.runName) (rows.insertionSort ResultRow.newer)).insertionSort ResultRow.better

/-- `main`, up to the selection. -/
def main : MlflowProgram Selection := do
  match ← callMlflow (.getExperimentByName experimentName) with
  | none => Program.raise (.valueError s!"Experiment not found: {experimentName}")
  | some experimentId =>
    let runs ← callMlflow (.searchRuns (query experimentId))
    if runs.isEmpty then Program.raise (.valueError "No finished model runs found")
    else
      let rows := runs.filterMap ResultRow.ofRun?
      if rows.isEmpty then Program.raise (.valueError "No model runs found for comparison")
      else
        match latestResults rows with
        | [] => Program.raise (.other "single positional indexer is out-of-bounds")
        | bestRow :: rest => return ⟨bestRow :: rest, bestRow⟩

end CreditScoringMlops.Promotion.SelectBestModel
