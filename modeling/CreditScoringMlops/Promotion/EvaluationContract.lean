import CreditScoringMlops.Promotion.PromotionGate

/-!
# Evaluation and promotion

`execute` looks for `approved` next to the decision, while `evaluate` keeps it inside
`quality_review`. An evaluation of the agent therefore never opens the gate, and the two agree
exactly where the review has not passed.
-/

namespace CreditScoringMlops.Promotion

open Python Interaction

variable {server : MlflowServer} {agent : MLAgent} {workflow : ModelPromotionWorkflow}
  {r : Registry} {candidateVersion : String}

/-- The review inside an evaluation has passed all quality gates. -/
def reviewPassed (evaluation : Dict) : Bool :=
  match evaluation.get? "quality_review" with
  | some (.obj review) => Dict.isTrueAt review "approved"
  | _ => false

/-- Evaluate, and feed the evaluation unchanged to the workflow with a human approval. -/
def evaluateThenExecute (agent : MLAgent) (workflow : ModelPromotionWorkflow)
    (candidateVersion : String) : MlflowProgram (Dict × PromotionResult) := do
  let evaluation ← agent.evaluate
  let result ← workflow.execute candidateVersion evaluation true
  return (evaluation, result)

/-- The attempt ends promoted exactly if the review inside the evaluation has passed. -/
def PromotesIfPassed (server : MlflowServer) (agent : MLAgent) (workflow : ModelPromotionWorkflow)
    (r : Registry) (candidateVersion : String) : Prop :=
  let ended := (server.run noFaults r (evaluateThenExecute agent workflow candidateVersion)).1
  (∃ evaluation result, ended = .ok (evaluation, result) ∧ result.status = .promoted) ↔
    ∃ evaluation result, ended = .ok (evaluation, result) ∧ reviewPassed evaluation = true

/-- The metrics that an evaluation compares: those of the run behind the champion alias, and those
of the first row of the comparison. -/
structure Compared (server : MlflowServer) (agent : MLAgent) (r : Registry)
    (champion candidate : MlflowRun) : Prop where
  champion : ∃ runId, MLAgent.championRunId (.ofReply (server.call
      (.getModelVersionByAlias agent.tools.modelName agent.tools.modelAlias) r).1) = some runId ∧
    isBlank runId = false ∧ (server.call (.getRun runId) r).1 = .ok champion
  candidate : ∃ row rest, (server.run noFaults r agent.tools.compareLatestModels).1 =
      .ok (row :: rest) ∧
    isBlank row.runId = false ∧ (server.call (.getRun row.runId) r).1 = .ok candidate

/-! ## What an evaluation looks like -/

/-- A review is all that an evaluation adds to the metrics. -/
theorem evaluateCandidate_obeys (agent : MLAgent) (champion : ChampionModel) (candidate : ModelRow)
    (candidateRun : MlflowRun) :
    (agent.evaluateCandidate champion candidate candidateRun).Obeys (.only MlflowOp.ReadOnly)
      (fun _ evaluation => Dict.get? evaluation "approved" = none) (fun _ _ => True) () := by
  unfold MLAgent.evaluateCandidate
  cases MLAgent.championRunId champion with
  | none => rfl
  | some runId =>
    refine (Program.obeys_bind _ _).mpr ((MlflowTools.getRunMetrics_uses runId).mono
      (fun _ found _ => ?_) fun _ _ _ => trivial)
    cases found <;> rfl

/-- No evaluation of the agent says `approved` on its own level, and evaluating only reads. -/
theorem evaluate_obeys (agent : MLAgent) :
    agent.evaluate.Obeys (.only MlflowOp.ReadOnly)
      (fun _ evaluation => Dict.get? evaluation "approved" = none) (fun _ _ => True) () := by
  have hinspect : agent.inspect.Uses MlflowOp.ReadOnly :=
    agent.tools.getChampionModel_uses.bind fun _ =>
      agent.tools.compareLatestModels_uses.bind fun _ => trivial
  refine (Program.obeys_bind _ _).mpr (hinspect.mono (fun _ found _ => ?_) fun _ _ _ => trivial)
  obtain ⟨champion, candidates⟩ := found
  cases candidates with
  | nil => rfl
  | cons candidate rest =>
    refine (Program.obeys_bind _ _).mpr ((MlflowTools.getRunMetrics_uses candidate.runId).mono
      (fun _ found _ => ?_) fun _ _ _ => trivial)
    cases found with
    | unavailable runId error => rfl
    | available candidateRun => exact evaluateCandidate_obeys agent champion candidate candidateRun

/-- Such an evaluation does not open the gate. -/
theorem execute_of_unapproved (workflow : ModelPromotionWorkflow) (candidateVersion : String)
    {evaluation : Dict} (humanApproved : Bool) (h : Dict.get? evaluation "approved" = none) :
    ∃ result, workflow.execute candidateVersion evaluation humanApproved = pure result ∧
      result.status ≠ .promoted :=
  execute_of_not_gate _ _ fun ⟨_, happroved, _⟩ => by simp [Dict.isTrueAt, h] at happroved

/-! ## When the review passes -/

/-- Reading the champion and the comparison. -/
theorem run_inspect (hserver : server.Documented) :
    server.run noFaults r agent.inspect =
      match (server.run noFaults r agent.tools.compareLatestModels).1 with
      | .ok rows => (.ok (.ofReply (server.call (.getModelVersionByAlias agent.tools.modelName
          agent.tools.modelAlias) r).1, rows), r)
      | .error exc => (.error exc, r) := by
  have hlook := hserver.readOnly
    (.getModelVersionByAlias agent.tools.modelName agent.tools.modelAlias) r trivial
  have hcompare := runFrom_of_uses hserver agent.tools.compareLatestModels_uses noFaults 0 r
  unfold MLAgent.inspect
  rw [MlflowServer.run, runFrom_getChampionModel_bind, exec_noFaults, hlook, runFrom_noFaults,
    run_bind]
  rw [← Prod.mk.eta (p := server.run noFaults r agent.tools.compareLatestModels), hcompare]
  dsimp only
  cases (server.run noFaults r agent.tools.compareLatestModels).1 <;> rfl

/-- The review at the end of an evaluation. -/
theorem reviewPassed_reviewed (champion : ChampionModel) (candidate : ModelRow)
    (championMetrics candidateMetrics : Metrics) :
    reviewPassed (agent.reviewed champion candidate championMetrics candidateMetrics) =
      agent.reviewer.passes championMetrics candidateMetrics := by
  change Json.isTrue (.bool _) = _
  rfl

/-- An evaluation returns with a review that has passed. -/
def Passes (server : MlflowServer) (r : Registry) (p : MlflowProgram Dict) : Prop :=
  ∃ evaluation, (server.run noFaults r p).1 = .ok evaluation ∧ reviewPassed evaluation = true

/-- Only the run of a program counts. -/
theorem passes_congr {p q : MlflowProgram Dict}
    (h : server.run noFaults r p = server.run noFaults r q) :
    Passes server r p ↔ Passes server r q := by
  unfold Passes
  rw [h]

/-- An evaluation passes if its review does. -/
@[simp] theorem passes_pure (evaluation : Dict) :
    Passes server r (pure evaluation) ↔ reviewPassed evaluation = true := by
  simp [Passes]

/-- What raises does not pass. -/
@[simp] theorem not_passes_raise (exc : PyExc) : ¬Passes server r (Program.raise exc) := by
  simp [Passes]

/-- Reading the metrics of a run on the way. -/
theorem passes_getRunMetrics_bind (hserver : server.Documented) (runId : String)
    (f : RunMetrics → MlflowProgram Dict) :
    Passes server r (MlflowTools.getRunMetrics runId >>= f) ↔
      isBlank runId = false ∧
        Passes server r (f (.ofReply runId (server.call (.getRun runId) r).1)) := by
  have hread := hserver.readOnly (.getRun runId) r trivial
  unfold MlflowTools.getRunMetrics
  by_cases hblank : isBlank runId = true
  · rw [if_pos hblank]
    exact iff_of_false (not_passes_raise _) (by simp [hblank])
  · rw [if_neg hblank, and_iff_right (by simpa using hblank)]
    refine passes_congr ?_
    change server.runFrom noFaults 1 (server.call (.getRun runId) r).2 _ = _
    rw [hread, runFrom_noFaults]
    rfl

/-- The review passes if the metrics of the champion are there and the candidate's pass. -/
theorem passes_evaluateCandidate (hserver : server.Documented) (champion : ChampionModel)
    (candidate : ModelRow) (candidateRun : MlflowRun) :
    Passes server r (agent.evaluateCandidate champion candidate candidateRun) ↔
      ∃ championRun, (∃ runId, MLAgent.championRunId champion = some runId ∧
          isBlank runId = false ∧ (server.call (.getRun runId) r).1 = .ok championRun) ∧
        agent.reviewer.passes championRun.metrics candidateRun.metrics = true := by
  unfold MLAgent.evaluateCandidate
  cases MLAgent.championRunId champion with
  | none =>
    refine iff_of_false (fun h => ?_) (by simp)
    cases (passes_pure _).mp h
  | some runId =>
    rw [passes_getRunMetrics_bind hserver]
    cases hrun : (server.call (.getRun runId) r).1 with
    | error exc =>
      refine iff_of_false (fun h => ?_) (by simp [hrun])
      cases (passes_pure _).mp h.2
    | ok championRun =>
      change _ ∧ Passes server r (pure _) ↔ _
      rw [passes_pure, reviewPassed_reviewed]
      simp [hrun, and_assoc]

/-- The review of an evaluation passes if there are a champion and a candidate to compare, and the
candidate's metrics pass. -/
theorem passes_evaluate (hserver : server.Documented) :
    Passes server r agent.evaluate ↔
      ∃ champion candidate, Compared server agent r champion candidate ∧
        agent.reviewer.passes champion.metrics candidate.metrics = true := by
  have hrun : server.run noFaults r agent.evaluate = _ :=
    (run_bind _ _).trans (by rw [run_inspect hserver])
  cases hcompare : (server.run noFaults r agent.tools.compareLatestModels).1 with
  | error exc =>
    rw [hcompare] at hrun
    refine iff_of_false ?_ ?_
    · rintro ⟨evaluation, hevaluation, -⟩
      rw [hrun] at hevaluation
      cases hevaluation
    · rintro ⟨champion, candidate, ⟨-, row, rest, hrows, -⟩, -⟩
      simp [hcompare] at hrows
  | ok rows =>
    rw [hcompare] at hrun
    refine (passes_congr hrun).trans ?_
    cases rows with
    | nil =>
      refine iff_of_false (fun h => ?_) ?_
      · cases (passes_pure _).mp h
      · rintro ⟨champion, candidate, ⟨-, row, rest, hrows, -⟩, -⟩
        simp [hcompare] at hrows
    | cons row rest =>
      dsimp only
      rw [passes_getRunMetrics_bind hserver]
      cases hcandidate : (server.call (.getRun row.runId) r).1 with
      | error exc =>
        refine iff_of_false (fun h => ?_) ?_
        · cases (passes_pure _).mp h.2
        · rintro ⟨champion, candidate, ⟨-, row', rest', hrows, -, hfound⟩, -⟩
          rw [hcompare] at hrows
          obtain ⟨rfl, -⟩ := List.cons.inj (Except.ok.inj hrows)
          simp [hcandidate] at hfound
      | ok candidateRun =>
        change _ ∧ Passes server r (agent.evaluateCandidate _ row candidateRun) ↔ _
        rw [passes_evaluateCandidate hserver]
        constructor
        · rintro ⟨hnamed, champion, hchampion, hpasses⟩
          exact ⟨champion, candidateRun, ⟨hchampion, row, rest, hcompare, hnamed, hcandidate⟩,
            hpasses⟩
        · rintro ⟨champion, candidate, ⟨hchampion, row', rest', hrows, hnamed, hfound⟩, hpasses⟩
          rw [hcompare] at hrows
          obtain ⟨rfl, -⟩ := List.cons.inj (Except.ok.inj hrows)
          rw [hcandidate] at hfound
          obtain rfl := Except.ok.inj hfound
          exact ⟨hnamed, champion, hchampion, hpasses⟩

/-! ## The contract -/

/-- What the attempt returns is the evaluation with a result that is not a promotion. -/
theorem run_evaluateThenExecute (hserver : server.Documented) (agent : MLAgent)
    (workflow : ModelPromotionWorkflow) (r : Registry) (candidateVersion : String) :
    match (server.run noFaults r agent.evaluate).1 with
    | .error exc =>
      (server.run noFaults r (evaluateThenExecute agent workflow candidateVersion)).1 = .error exc
    | .ok evaluation => ∃ result, result.status ≠ .promoted ∧
      (server.run noFaults r (evaluateThenExecute agent workflow candidateVersion)).1 =
        .ok (evaluation, result) := by
  have hrun : server.run noFaults r (evaluateThenExecute agent workflow candidateVersion) = _ :=
    run_bind agent.evaluate _
  have huses : agent.evaluate.Uses MlflowOp.ReadOnly :=
    (evaluate_obeys agent).mono (fun _ _ _ => trivial) fun _ _ _ => trivial
  have hread := runFrom_of_uses hserver huses noFaults 0 r
  rw [← Prod.mk.eta (p := server.run noFaults r agent.evaluate), hread] at hrun
  cases hevaluation : (server.run noFaults r agent.evaluate).1 with
  | error exc =>
    rw [hevaluation] at hrun
    exact congrArg Prod.fst hrun
  | ok evaluation =>
    rw [hevaluation] at hrun
    obtain ⟨result, hresult, hstatus⟩ := execute_of_unapproved workflow candidateVersion true
      (runFrom_of_obeys (evaluate_obeys agent) hevaluation)
    refine ⟨result, hstatus, (congrArg Prod.fst hrun).trans ?_⟩
    dsimp only
    rw [hresult]
    rfl

/-- The evaluation and the promotion agree exactly where no candidate passes the gates against the
champion. -/
theorem promotesIfPassed_iff (hserver : server.Documented) :
    PromotesIfPassed server agent workflow r candidateVersion ↔
      ¬∃ champion candidate, Compared server agent r champion candidate ∧
        agent.reviewer.passes champion.metrics candidate.metrics = true := by
  rw [← passes_evaluate hserver]
  have hended := run_evaluateThenExecute hserver agent workflow r candidateVersion
  unfold PromotesIfPassed Passes
  cases hevaluation : (server.run noFaults r agent.evaluate).1 with
  | error exc =>
    rw [hevaluation] at hended
    simp [hended]
  | ok evaluation =>
    rw [hevaluation] at hended
    obtain ⟨result, hstatus, hended⟩ := hended
    simp [hended, hstatus]

/-- The newest run is better than the champion and passes all gates, its version is registered, and
no call fails; the attempt to promote it is rejected. -/
theorem evaluated_not_promoted :
    threeVersions.modelVersion? "CreditScoringCatBoost" "3" ≠ none ∧
      threeVersions.aliases "CreditScoringCatBoost" "champion" = some "1" ∧
      ((trackingServer.run noFaults threeVersions (evaluateThenExecute {} {} "3")).1.toOption.map
        fun ended => (reviewPassed ended.1, ended.2.status)) = some (true, .rejected) ∧
      ¬PromotesIfPassed trackingServer {} {} threeVersions "3" := by
  have hended : ((trackingServer.run noFaults threeVersions
      (evaluateThenExecute {} {} "3")).1.toOption.map
        fun ended => (reviewPassed ended.1, ended.2.status)) = some (true, .rejected) := by
    decide +kernel
  refine ⟨by simp [threeVersions, Registry.modelVersion?, Data.Keyed.find?], rfl, hended, ?_⟩
  intro h
  obtain ⟨⟨evaluation, result⟩, hoption, hboth⟩ := Option.map_eq_some_iff.mp hended
  obtain ⟨hpassed, hstatus⟩ := Prod.mk.inj hboth
  have hreturned : ∀ ended : Except PyExc (Dict × PromotionResult),
      ended.toOption = some (evaluation, result) → ended = .ok (evaluation, result) := by
    rintro (exc | ended) hended
    · cases hended
    · exact congrArg _ (Option.some.inj hended)
  have hok := hreturned _ hoption
  obtain ⟨evaluation', result', hok', hpromoted⟩ := h.mpr ⟨evaluation, result, hok, hpassed⟩
  obtain ⟨-, rfl⟩ := Prod.mk.inj (Except.ok.inj (hok.symm.trans hok'))
  exact absurd (hpromoted.symm.trans hstatus) (by decide)

/-- With a stricter gate the newest run does not pass, and it is not promoted. -/
theorem promotesIfPassed_iff_strict :
    PromotesIfPassed trackingServer { reviewer := { config := { minRocAuc := .finite (95 / 100) } } }
      {} threeVersions "3" := by
  refine (promotesIfPassed_iff trackingServer_documented).mpr ?_
  rintro ⟨champion, candidate, ⟨-, row, rest, hrows, -, hcandidate⟩, hpasses⟩
  obtain ⟨hrow, -⟩ := List.cons.inj (Except.ok.inj hrows)
  rw [← hrow] at hcandidate
  obtain rfl := Except.ok.inj hcandidate
  have hmeets := ((ReviewerAgent.passes_iff _ _ _).mp hpasses).1
  exact absurd hmeets (by decide +kernel)

end CreditScoringMlops.Promotion
