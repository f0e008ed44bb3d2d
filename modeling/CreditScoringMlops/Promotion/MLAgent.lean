import CreditScoringMlops.Promotion.MlflowTools

/-!
# The evaluation of a candidate

`ReviewerAgent.review` compares the metrics of a candidate with the gates and with the champion.
`MLAgent.evaluate` finds the champion and the strongest latest candidate, reads the metrics of both
and reviews them; where something is missing it asks for a manual review.
-/

namespace CreditScoringMlops.Promotion

open Python Interaction

/-- The quality gates. -/
structure QualityGateConfig where
  minRocAuc : PyFloat := .finite (4 / 5)
  minRecall : PyFloat := .finite (3 / 5)
  minPrecision : PyFloat := .finite (1 / 2)
  minRocAucImprovement : PyFloat := .finite 0

/-- The reviewer. -/
structure ReviewerAgent where
  config : QualityGateConfig := {}

namespace ReviewerAgent

/-- `_meets`. -/
def meets (value : Option PyFloat) (threshold : PyFloat) : Bool :=
  value.any fun x => x.ge threshold

/-- The candidate's `roc_auc` exceeds the champion's by the required improvement. -/
def improves (reviewer : ReviewerAgent) (champion candidate : Option PyFloat) : Bool :=
  match champion, candidate with
  | some championAuc, some candidateAuc =>
    candidateAuc.ge (championAuc.add reviewer.config.minRocAucImprovement)
  | _, _ => false

/-- The checks of a review. -/
def checks (reviewer : ReviewerAgent) (champion candidate : Metrics) : List (String × Bool) :=
  [("roc_auc_threshold", meets (candidate.get? "roc_auc") reviewer.config.minRocAuc),
    ("recall_threshold", meets (candidate.get? "recall") reviewer.config.minRecall),
    ("precision_threshold", meets (candidate.get? "precision") reviewer.config.minPrecision),
    ("roc_auc_improvement", reviewer.improves (champion.get? "roc_auc") (candidate.get? "roc_auc"))]

/-- `all(checks.values())`. -/
def passes (reviewer : ReviewerAgent) (champion candidate : Metrics) : Bool :=
  (reviewer.checks champion candidate).all (·.2)

/-- `review`. -/
def review (reviewer : ReviewerAgent) (champion candidate : Metrics) : Dict :=
  let checks := reviewer.checks champion candidate
  let approved := reviewer.passes champion candidate
  [("decision", .str (if approved then "PROMOTE" else "REJECT")), ("approved", .bool approved),
    ("checks", .obj (checks.map fun (name, passed) => (name, .bool passed))),
    ("failed_checks", .arr ((checks.filter fun check => !check.2).map fun check => .str check.1)),
    ("champion_roc_auc", optionFloat (champion.get? "roc_auc")),
    ("candidate_roc_auc", optionFloat (candidate.get? "roc_auc")),
    ("reason", .str (if approved then "All quality gates passed" else "Quality gates failed"))]

/-- A candidate passes if it meets the thresholds and improves on the champion. -/
theorem passes_iff (reviewer : ReviewerAgent) (champion candidate : Metrics) :
    reviewer.passes champion candidate = true ↔
      meets (candidate.get? "roc_auc") reviewer.config.minRocAuc = true ∧
      meets (candidate.get? "recall") reviewer.config.minRecall = true ∧
      meets (candidate.get? "precision") reviewer.config.minPrecision = true ∧
      reviewer.improves (champion.get? "roc_auc") (candidate.get? "roc_auc") = true := by
  simp [passes, checks]

end ReviewerAgent

/-- The agent that evaluates models. -/
structure MLAgent where
  tools : MlflowTools := {}
  reviewer : ReviewerAgent := {}

namespace MLAgent

variable (agent : MLAgent)

/-- `inspect`. -/
def inspect : MlflowProgram (ChampionModel × List ModelRow) := do
  let champion ← agent.tools.getChampionModel
  let modelComparison ← agent.tools.compareLatestModels
  return (champion, modelComparison)

/-- The evaluation that asks for a manual review. -/
def manualReview (reason : String) (champion : ChampionModel) (rest : Dict) : Dict :=
  [("decision", .str "MANUAL_REVIEW"), ("reason", .str reason),
    ("requires_human_approval", .bool true),
    ("champion", .obj (champion.toDict agent.tools))] ++ rest

/-- The run of the champion, if its metadata is available and names one. -/
def championRunId : ChampionModel → Option String
  | .available v => v.runId.filter fun runId => !runId.isEmpty
  | .unavailable _ => none

/-- The evaluation that follows a review. -/
def reviewed (champion : ChampionModel) (candidate : ModelRow)
    (championMetrics candidateMetrics : Metrics) : Dict :=
  let review := agent.reviewer.review championMetrics candidateMetrics
  [("decision", (review.get? "decision").getD .null), ("reason", (review.get? "reason").getD .null),
    ("requires_human_approval", .bool true),
    ("champion",
      .obj ((champion.toDict agent.tools).set "metrics" (.obj championMetrics.toDict))),
    ("candidate", .obj (candidate.toDict.set "metrics" (.obj candidateMetrics.toDict))),
    ("quality_review", .obj review)]

/-- The evaluation without metrics of the champion. -/
def noChampionMetrics (champion : ChampionModel) (candidate : ModelRow) (candidateRun : MlflowRun)
    (championMetrics : Dict) : Dict :=
  agent.manualReview "Champion metrics could not be retrieved from MLflow" champion
    [("champion_metrics", .obj championMetrics), ("candidate", .obj candidate.toDict),
      ("candidate_metrics", .obj (RunMetrics.available candidateRun).toDict)]

/-- The evaluation once the metrics of the candidate are there. -/
def evaluateCandidate (champion : ChampionModel) (candidate : ModelRow)
    (candidateRun : MlflowRun) : MlflowProgram Dict := do
  match championRunId champion with
  | none =>
    return agent.noChampionMetrics champion candidate candidateRun
      [("available", .bool false), ("reason", .str "Champion run metadata is unavailable")]
  | some runId =>
    match ← MlflowTools.getRunMetrics runId with
    | .unavailable runId error =>
      return agent.noChampionMetrics champion candidate candidateRun
        (RunMetrics.unavailable runId error).toDict
    | .available championRun =>
      return agent.reviewed champion candidate championRun.metrics candidateRun.metrics

/-- `evaluate`. -/
def evaluate : MlflowProgram Dict := do
  let (champion, candidates) ← agent.inspect
  match candidates with
  | [] =>
    return agent.manualReview "No comparable model runs are available" champion
      [("candidate", .null)]
  | candidate :: _ =>
    match ← MlflowTools.getRunMetrics candidate.runId with
    | .unavailable runId error =>
      return agent.manualReview "Candidate metrics could not be retrieved from MLflow" champion
        [("candidate", .obj candidate.toDict),
          ("candidate_metrics", .obj (RunMetrics.unavailable runId error).toDict)]
    | .available candidateRun => agent.evaluateCandidate champion candidate candidateRun

end MLAgent

end CreditScoringMlops.Promotion
