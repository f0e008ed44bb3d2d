import CreditScoringMlops.Agent.MonitoringAgent
import Mathlib.Data.List.Nodup

/-!
# The drift report

The drift pipeline makes a signal of the metrics of a report. The flag is overwritten by every
metric that reports a drift of the dataset, the drifted columns of all metrics are appended. So the
signal aggregates the metrics exactly if they agree on the dataset and flag different columns. The
monitoring agent decides on what is read back from the file. The report itself comes from a library,
and writing the signal to its file is left out.
-/

namespace CreditScoringMlops.Monitoring

open Python

/-! ## The signal -/

/-- The signal that is written. -/
structure RetrainSignal where
  retrainRequired : Bool
  reason : String
  driftedFeatures : List String

/-- The dictionary that is dumped. -/
def RetrainSignal.toDict (signal : RetrainSignal) : Dict :=
  [("retrain_required", .bool signal.retrainRequired), ("reason", .str signal.reason),
    ("drifted_features", .arr (signal.driftedFeatures.map .str))]

/-- `column_info.get("drift_detected") is True`. -/
def isFlagged : Json → Except PyExc Bool
  | .obj info => .ok (Dict.isTrueAt info "drift_detected")
  | value => .error (value.noAttribute "get")

/-- The loop over `drift_by_columns`. -/
def flaggedColumns : Dict → Except PyExc (List String)
  | [] => .ok []
  | (columnName, columnInfo) :: columns => do
    let flagged ← isFlagged columnInfo
    let rest ← flaggedColumns columns
    return if flagged then columnName :: rest else rest

/-- The flag and the list of columns, while the metrics are read. -/
structure Drift where
  detected : Bool := false
  features : List String := []

/-- The flag after a result, which may carry a `dataset_drift`. -/
def readDetected (detected : Bool) (result : Json) : Except PyExc Bool := do
  if ← result.hasMember "dataset_drift" then return (← result.item "dataset_drift").truthy
  else return detected

/-- The columns of a result, which may carry a `drift_by_columns`. -/
def readFlagged (result : Json) : Except PyExc (List String) := do
  if ← result.hasMember "drift_by_columns" then
    flaggedColumns (← (← result.item "drift_by_columns").items)
  else return []

/-- One round of the loop over the metrics. -/
def readMetric (drift : Drift) (metric : Json) : Except PyExc Drift := do
  let result ← metric.getOr "result" (.obj [])
  let detected ← readDetected drift.detected result
  let flagged ← readFlagged result
  return { detected, features := drift.features ++ flagged }

/-- `save_retrain_signal`, which returns the signal that it writes. -/
def saveRetrainSignal (reportDict : Dict) : Except PyExc RetrainSignal := do
  let metrics ← ((reportDict.get? "metrics").getD (.arr [])).toList
  let drift ← metrics.foldlM readMetric {}
  return {
    retrainRequired := drift.detected
    reason := if drift.detected then "Data drift detected" else "No data drift detected"
    driftedFeatures := drift.features }

/-! ## The metrics of a report -/

/-- A metric of a report. Its result may be missing, and so may the drift of the dataset and of the
columns, which have distinct names. -/
structure Metric where
  fields : Dict
  result : Dict
  columns : List (String × Dict)
  fields_result : fields.get? "result" = some (.obj result) ∨
    (fields.get? "result" = none ∧ result = [])
  result_columns : result.get? "drift_by_columns" =
      some (.obj (columns.map fun column => (column.1, .obj column.2))) ∨
    (result.get? "drift_by_columns" = none ∧ columns = [])
  nodup : (columns.map Prod.fst).Nodup

namespace Metric

/-- The metric in the report. -/
def toJson (m : Metric) : Json := .obj m.fields

/-- Whether the dataset has drifted, if the metric reports on it. -/
def datasetDrift? (m : Metric) : Option Bool := (m.result.get? "dataset_drift").map Json.truthy

/-- The columns that it flags. -/
def flagged (m : Metric) : List String :=
  (m.columns.filter fun column => Dict.isTrueAt column.2 "drift_detected").map Prod.fst

/-- It flags a column once. -/
theorem nodup_flagged (m : Metric) : m.flagged.Nodup :=
  m.nodup.sublist (List.filter_sublist.map _)

end Metric

/-- The loop over the columns of a metric. -/
theorem flaggedColumns_eq (columns : List (String × Dict)) :
    flaggedColumns (columns.map fun column => (column.1, .obj column.2)) =
      .ok ((columns.filter fun column =>
        Dict.isTrueAt column.2 "drift_detected").map Prod.fst) := by
  induction columns with
  | nil => rfl
  | cons column columns ih =>
    rw [List.map_cons, flaggedColumns, ih, List.filter_cons]
    change Except.ok (if Dict.isTrueAt column.2 "drift_detected" then _ else _) = _
    split <;> rfl

/-- The result of a metric, or an empty one. -/
theorem Metric.getOr_result (m : Metric) :
    m.toJson.getOr "result" (.obj []) = .ok (.obj m.result) := by
  rw [toJson, Json.getOr]
  obtain h | ⟨h, hempty⟩ := m.fields_result
  · rw [h, Option.getD_some]
  · rw [h, Option.getD_none, hempty]

/-- The flag after a metric. -/
theorem readDetected_result (detected : Bool) (m : Metric) :
    readDetected detected (.obj m.result) = .ok (m.datasetDrift?.getD detected) := by
  rw [readDetected, Json.hasMember_obj, ok_bind, Json.item, Metric.datasetDrift?]
  cases Dict.get? m.result "dataset_drift" <;> rfl

/-- The columns of a metric. -/
theorem readFlagged_result (m : Metric) : readFlagged (.obj m.result) = .ok m.flagged := by
  rw [readFlagged, Json.hasMember_obj, ok_bind, Json.item]
  obtain h | ⟨h, hempty⟩ := m.result_columns
  · rw [h]
    exact flaggedColumns_eq m.columns
  · rw [h, Metric.flagged, hempty]
    rfl

/-- Reading one metric. -/
theorem readMetric_toJson (drift : Drift) (m : Metric) :
    readMetric drift m.toJson =
      .ok ⟨m.datasetDrift?.getD drift.detected, drift.features ++ m.flagged⟩ := by
  rw [readMetric, m.getOr_result, ok_bind, readDetected_result, ok_bind, readFlagged_result,
    ok_bind]
  rfl

/-- The flag after some metrics: each that reports on the dataset overwrites it. -/
def flagAfter (detected : Bool) (metrics : List Metric) : Bool :=
  metrics.foldl (fun detected m => m.datasetDrift?.getD detected) detected

theorem flagAfter_cons (detected : Bool) (m : Metric) (metrics : List Metric) :
    flagAfter detected (m :: metrics) = flagAfter (m.datasetDrift?.getD detected) metrics := rfl

/-- The last report is what remains. -/
theorem flagAfter_concat (detected : Bool) (metrics : List Metric) {m : Metric} {x : Bool}
    (hm : m.datasetDrift? = some x) : flagAfter detected (metrics ++ [m]) = x := by
  rw [flagAfter, List.foldl_append, List.foldl_cons, List.foldl_nil, hm, Option.getD_some]

/-- Reading the metrics. -/
theorem foldlM_readMetric (metrics : List Metric) (drift : Drift) :
    (metrics.map Metric.toJson).foldlM readMetric drift =
      .ok ⟨flagAfter drift.detected metrics, drift.features ++ metrics.flatMap Metric.flagged⟩ := by
  induction metrics generalizing drift with
  | nil => simp [flagAfter, pure, Except.pure]
  | cons m metrics ih =>
    rw [List.map_cons, List.foldlM_cons, readMetric_toJson, ok_bind, ih]
    simp [flagAfter]

/-- The metrics of a report. -/
def HasMetrics (reportDict : Dict) (metrics : List Metric) : Prop :=
  reportDict.get? "metrics" = some (.arr (metrics.map Metric.toJson))

/-- A report with nothing else in it. -/
def reportOf (metrics : List Metric) : Dict := [("metrics", .arr (metrics.map Metric.toJson))]

/-- What is written for a report. -/
theorem saveRetrainSignal_eq {reportDict : Dict} {metrics : List Metric}
    (h : HasMetrics reportDict metrics) : ∃ reason, saveRetrainSignal reportDict =
      .ok ⟨flagAfter false metrics, reason, metrics.flatMap Metric.flagged⟩ := by
  rw [saveRetrainSignal, h, Option.getD_some, Json.toList, ok_bind, foldlM_readMetric, ok_bind]
  exact ⟨_, rfl⟩

/-! ## Aggregation -/

/-- Some metric reports a drift of the dataset. -/
def SomeDrift (metrics : List Metric) : Prop := ∃ m ∈ metrics, m.datasetDrift? = some true

/-- A signal aggregates metrics: it requires a retraining if one of them reports a drift, and lists
every column that one of them flags once. -/
structure Aggregates (signal : RetrainSignal) (metrics : List Metric) : Prop where
  required : signal.retrainRequired = true ↔ SomeDrift metrics
  features : ∀ name, name ∈ signal.driftedFeatures ↔ ∃ m ∈ metrics, name ∈ m.flagged
  once : signal.driftedFeatures.Nodup

/-- The order of the metrics does not matter for the signal of a report. -/
def OrderFree (signal : RetrainSignal) (metrics : List Metric) : Prop :=
  ∀ reportDict' metrics', HasMetrics reportDict' metrics' → metrics'.Perm metrics →
    ∃ signal', saveRetrainSignal reportDict' = .ok signal' ∧
      signal'.retrainRequired = signal.retrainRequired ∧
      ∀ name, name ∈ signal'.driftedFeatures ↔ name ∈ signal.driftedFeatures

/-- All metrics that report on the dataset report the same. -/
def AgreeOnDataset (metrics : List Metric) : Prop :=
  ∀ a ∈ metrics, ∀ b ∈ metrics, ∀ x y, a.datasetDrift? = some x → b.datasetDrift? = some y → x = y

/-- No column is flagged by two metrics. -/
def FlagDifferentColumns (metrics : List Metric) : Prop :=
  metrics.Pairwise fun a b => a.flagged.Disjoint b.flagged

/-- The flag is one of the reports, if there are any. -/
theorem flagAfter_cases (detected : Bool) (metrics : List Metric) :
    (flagAfter detected metrics = detected ∧ ∀ m ∈ metrics, m.datasetDrift? = none) ∨
      ∃ m ∈ metrics, m.datasetDrift? = some (flagAfter detected metrics) := by
  induction metrics generalizing detected with
  | nil => exact .inl ⟨rfl, by simp⟩
  | cons m metrics ih =>
    rw [flagAfter_cons, List.forall_mem_cons]
    obtain ⟨hflag, hnone⟩ | ⟨a, ha, hreport⟩ := ih (m.datasetDrift?.getD detected)
    · rw [hflag]
      cases hm : m.datasetDrift? with
      | none => exact .inl ⟨rfl, rfl, hnone⟩
      | some x => exact .inr ⟨m, List.mem_cons_self, hm⟩
    · exact .inr ⟨a, List.mem_cons_of_mem _ ha, hreport⟩

/-- If the reports agree, the flag says whether one of them is a drift. -/
theorem flagAfter_eq_true_iff {metrics : List Metric} (hagree : AgreeOnDataset metrics) :
    flagAfter false metrics = true ↔ SomeDrift metrics := by
  obtain ⟨hflag, hnone⟩ | ⟨a, ha, hreport⟩ := flagAfter_cases false metrics
  · rw [hflag]
    refine ⟨nofun, ?_⟩
    rintro ⟨m, hm, hdrift⟩
    exact absurd (hnone m hm) (by simp [hdrift])
  · constructor
    · intro hflag
      exact ⟨a, ha, hflag ▸ hreport⟩
    · rintro ⟨m, hm, hdrift⟩
      exact hagree a ha m hm _ _ hreport hdrift

/-- Agreement does not depend on the order. -/
theorem AgreeOnDataset.perm {metrics metrics' : List Metric} (h : AgreeOnDataset metrics)
    (hperm : metrics'.Perm metrics) : AgreeOnDataset metrics' :=
  fun a ha b hb => h a (hperm.mem_iff.mp ha) b (hperm.mem_iff.mp hb)

/-- Neither does there being a drift. -/
theorem someDrift_perm {metrics metrics' : List Metric} (hperm : metrics'.Perm metrics) :
    SomeDrift metrics' ↔ SomeDrift metrics :=
  exists_congr fun _ => and_congr_left fun _ => hperm.mem_iff

/-- Any report can be moved behind the others, and then it is the flag. -/
theorem agreeOnDataset_of_flagAfter {metrics : List Metric}
    (h : ∀ metrics', metrics'.Perm metrics → flagAfter false metrics' = flagAfter false metrics) :
    AgreeOnDataset metrics := by
  have hreport : ∀ m ∈ metrics, ∀ x, m.datasetDrift? = some x → x = flagAfter false metrics := by
    intro m hm x hx
    obtain ⟨before, after, rfl⟩ := List.append_of_mem hm
    rw [← h (before ++ after ++ [m]), flagAfter_concat false _ hx]
    rw [List.append_assoc]
    exact List.perm_append_comm.append_left before
  intro a ha b hb x y hx hy
  rw [hreport a ha x hx, hreport b hb y hy]

/-- The list of columns has no duplicates if no column is flagged by two metrics. -/
theorem nodup_flatMap_flagged_iff (metrics : List Metric) :
    (metrics.flatMap Metric.flagged).Nodup ↔ FlagDifferentColumns metrics := by
  rw [List.nodup_flatMap]
  exact and_iff_right fun m _ => m.nodup_flagged

/-- The signal of a report aggregates its metrics in any order exactly if those that report on the
dataset agree, and no column is flagged by two of them. -/
theorem saveRetrainSignal_aggregates_iff {reportDict : Dict} {metrics : List Metric}
    (hreport : HasMetrics reportDict metrics) :
    ∃ signal, saveRetrainSignal reportDict = .ok signal ∧
      (Aggregates signal metrics ∧ OrderFree signal metrics ↔
        AgreeOnDataset metrics ∧ FlagDifferentColumns metrics) := by
  obtain ⟨reason, hsignal⟩ := saveRetrainSignal_eq hreport
  refine ⟨_, hsignal, ?_, ?_⟩
  · rintro ⟨haggregates, horder⟩
    refine ⟨agreeOnDataset_of_flagAfter fun metrics' hperm => ?_,
      (nodup_flatMap_flagged_iff metrics).mp haggregates.once⟩
    have hreport' : HasMetrics (reportOf metrics') metrics' := rfl
    obtain ⟨signal', hsignal', hrequired, -⟩ := horder _ metrics' hreport' hperm
    obtain ⟨reason', heq⟩ := saveRetrainSignal_eq hreport'
    obtain rfl := Except.ok.inj (hsignal'.symm.trans heq)
    exact hrequired
  · rintro ⟨hagree, hdifferent⟩
    refine ⟨⟨flagAfter_eq_true_iff hagree, fun name => List.mem_flatMap,
      (nodup_flatMap_flagged_iff metrics).mpr hdifferent⟩, ?_⟩
    intro reportDict' metrics' hreport' hperm
    obtain ⟨reason', hsignal'⟩ := saveRetrainSignal_eq hreport'
    refine ⟨_, hsignal', ?_, fun name => (hperm.flatMap_right _).mem_iff⟩
    rw [Bool.eq_iff_iff, flagAfter_eq_true_iff hagree, flagAfter_eq_true_iff (hagree.perm hperm),
      someDrift_perm hperm]

/-- A metric about one column. -/
def columnMetric (drift : Bool) (column : String) : Metric where
  fields := [("result", .obj [("dataset_drift", .bool drift),
    ("drift_by_columns", .obj [(column, .obj [("drift_detected", .bool drift)])])])]
  result := [("dataset_drift", .bool drift),
    ("drift_by_columns", .obj [(column, .obj [("drift_detected", .bool drift)])])]
  columns := [(column, [("drift_detected", .bool drift)])]
  fields_result := .inl rfl
  result_columns := .inl rfl
  nodup := List.nodup_singleton column

/-- Two drifts of different columns are aggregated. -/
theorem saveRetrainSignal_aggregates_iff_two :
    let metrics := [columnMetric true "age", columnMetric true "credit_amount"]
    ∃ signal, saveRetrainSignal (reportOf metrics) = .ok signal ∧
      signal.driftedFeatures = ["age", "credit_amount"] ∧
        Aggregates signal metrics ∧ OrderFree signal metrics := by
  intro metrics
  have hreports : ∀ m ∈ metrics, m.datasetDrift? = some true :=
    List.forall_mem_cons.mpr ⟨rfl, List.forall_mem_singleton.mpr rfl⟩
  have hagree : AgreeOnDataset metrics := fun a ha b hb x y hx hy =>
    Option.some.inj (hx.symm.trans ((hreports a ha).trans ((hreports b hb).symm.trans hy)))
  have hdifferent : FlagDifferentColumns metrics :=
    List.pairwise_pair.mpr (show ["age"].Disjoint ["credit_amount"] by simp)
  have hreport : HasMetrics (reportOf metrics) metrics := rfl
  obtain ⟨signal, hsignal, hiff⟩ := saveRetrainSignal_aggregates_iff hreport
  have hfeatures : (saveRetrainSignal (reportOf metrics)).map (·.driftedFeatures) =
    .ok ["age", "credit_amount"] := rfl
  rw [hsignal] at hfeatures
  exact ⟨signal, hsignal, Except.ok.inj hfeatures, hiff.mpr ⟨hagree, hdifferent⟩⟩

/-- A drift that a later metric does not report is lost. -/
theorem saveRetrainSignal_loses_drift :
    ¬∀ reportDict metrics, HasMetrics reportDict metrics →
      ∃ signal, saveRetrainSignal reportDict = .ok signal ∧
        Aggregates signal metrics ∧ OrderFree signal metrics := by
  intro h
  obtain ⟨signal, hsignal, haggregates, -⟩ := h
    (reportOf [columnMetric true "age", columnMetric false "credit_amount"]) _ rfl
  have hlost : saveRetrainSignal
      (reportOf [columnMetric true "age", columnMetric false "credit_amount"]) =
        .ok ⟨false, "No data drift detected", ["age"]⟩ := rfl
  obtain rfl := Except.ok.inj (hsignal.symm.trans hlost)
  have hdrift : SomeDrift [columnMetric true "age", columnMetric false "credit_amount"] :=
    ⟨columnMetric true "age", List.mem_cons_self, rfl⟩
  exact Bool.false_ne_true (haggregates.required.mpr hdrift)

/-! ## What the monitoring agent makes of it -/

section Agent

open Agent Promotion

variable (process : AgentProcess) (server : MlflowServer) (w : AgentWorld)
  (conversions : Conversions) (file : SignalFile) (agent : MonitoringAgent)
  (event : EngineeringEvent)

/-- On a signal that is written, it proposes a retraining if the signal requires one. -/
theorem proposes_of_signal (signal : RetrainSignal) :
    (MonitoringAgent.decide event (MonitoringTools.available signal.toDict)).action =
      "propose_retraining" ↔ signal.retrainRequired = true := by
  have hread : Dict.truthyAt signal.toDict "retrain_required" = signal.retrainRequired := rfl
  rw [decide_available, hread]
  cases signal.retrainRequired <;> decide

/-- If the metrics of a report agree on the dataset and its signal is in the file, it proposes a
retraining exactly if one of them reports a drift. -/
theorem investigate_written {reportDict : Dict} {metrics : List Metric} {signal : RetrainSignal}
    (hreport : HasMetrics reportDict metrics) (hagree : AgreeOnDataset metrics)
    (hsignal : saveRetrainSignal reportDict = .ok signal)
    (hfile : file.object? conversions = some signal.toDict) :
    ∃ decision, file.outcome process server w (agent.investigate conversions event) =
        .ok decision ∧ (decision.action = "propose_retraining" ↔ SomeDrift metrics) := by
  obtain ⟨reason, heq⟩ := saveRetrainSignal_eq hreport
  have hrequired : signal.retrainRequired = flagAfter false metrics :=
    congrArg RetrainSignal.retrainRequired (Except.ok.inj (hsignal.symm.trans heq))
  refine ⟨MonitoringAgent.decide event (MonitoringTools.available signal.toDict), ?_, ?_⟩
  · rw [outcome_investigate, report_of_object conversions file hfile]
    rfl
  · rw [proposes_of_signal, hrequired, flagAfter_eq_true_iff hagree]

end Agent

end CreditScoringMlops.Monitoring
