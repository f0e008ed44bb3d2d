import CreditScoringMlops.Promotion.ModelPromotionWorkflow

/-!
# What the promotion gate lets through

`Promotable` lists everything that `execute` and `promote_model` check before the alias moves, and
`run_execute_snd` says that the alias moves exactly then. None of the checks relates the version to
the candidate of the evaluation, so that the version promoted belongs to the evaluated run only if
the caller has seen to it.
-/

namespace CreditScoringMlops.Promotion

open Python Interaction

variable {server : MlflowServer} {env : ℕ → MlflowEnv} {tools : MlflowTools} {r : Registry}

/-- Everything between a call of `execute` and the move of the alias to `candidate`. -/
structure Promotable (server : MlflowServer) (env : ℕ → MlflowEnv) (tools : MlflowTools)
    (r : Registry) (candidateVersion : String) (evaluation : Dict) (humanApproved : Bool)
    (candidate : ModelVersion) : Prop where
  decision : evaluation.isStrAt "decision" "PROMOTE" = true
  approved : evaluation.isTrueAt "approved" = true
  human : humanApproved = true
  named : isBlank candidateVersion = false
  found : (server.exec (.getModelVersion tools.modelName candidateVersion) (env 0) r).1 =
    .ok candidate
  notChampion : MlflowTools.isChampion (.ofReply (server.exec
    (.getModelVersionByAlias tools.modelName tools.modelAlias) (env 1) r).1) candidate = false
  written : (server.exec (.setRegisteredModelAlias tools.modelName tools.modelAlias
    candidate.version) (env 2) r).2 = r.setAlias tools.modelName tools.modelAlias candidate.version

/-- A dictionary has one decision. -/
theorem isStrAt_ne {d : Dict} {key text other : String} (h : d.isStrAt key text = true)
    (hne : text ≠ other) : d.isStrAt key other = false := by
  unfold Dict.isStrAt at h ⊢
  cases hget : d.get? key with
  | none => rfl
  | some value =>
    rw [hget] at h
    cases value with
    | str s =>
      obtain rfl : s = text := by simpa [Json.isStr] using h
      simpa [Json.isStr] using hne
    | _ => rfl

/-- An evaluation that opens the gate goes on to `promote_model`. -/
theorem execute_of_gate {workflow : ModelPromotionWorkflow} {candidateVersion : String}
    {evaluation : Dict} {humanApproved : Bool}
    (hdecision : evaluation.isStrAt "decision" "PROMOTE" = true)
    (happroved : evaluation.isTrueAt "approved" = true) (hhuman : humanApproved = true) :
    workflow.execute candidateVersion evaluation humanApproved =
      ModelPromotionWorkflow.promotionResult <$>
        workflow.mlflowTools.promoteModel candidateVersion "PROMOTE" true := by
  have hmanual := isStrAt_ne hdecision (show "PROMOTE" ≠ "MANUAL_REVIEW" by decide)
  have hreject := isStrAt_ne hdecision (show "PROMOTE" ≠ "REJECT" by decide)
  simp [ModelPromotionWorkflow.execute, hmanual, hreject, hdecision, happroved, hhuman]

/-- Any other leaves everything as it is, with a status of its own. -/
theorem execute_of_not_gate (workflow : ModelPromotionWorkflow) (candidateVersion : String)
    {evaluation : Dict} {humanApproved : Bool}
    (h : ¬(evaluation.isStrAt "decision" "PROMOTE" = true ∧
      evaluation.isTrueAt "approved" = true ∧ humanApproved = true)) :
    ∃ result, workflow.execute candidateVersion evaluation humanApproved = pure result ∧
      result.status ≠ .promoted := by
  unfold ModelPromotionWorkflow.execute
  by_cases hmanual : evaluation.isStrAt "decision" "MANUAL_REVIEW" = true
  · exact ⟨_, by rw [if_pos hmanual], by simp⟩
  by_cases hreject : evaluation.isStrAt "decision" "REJECT" = true
  · exact ⟨_, by rw [if_neg hmanual, if_pos hreject], by simp⟩
  by_cases hvalid : (!evaluation.isStrAt "decision" "PROMOTE" ||
      !evaluation.isTrueAt "approved") = true
  · exact ⟨_, by rw [if_neg hmanual, if_neg hreject, if_pos hvalid], by simp⟩
  by_cases hhuman : (!humanApproved) = true
  · exact ⟨_, by rw [if_neg hmanual, if_neg hreject, if_neg hvalid, if_pos hhuman], by simp⟩
  · exact absurd (by simpa [and_assoc] using And.intro hvalid hhuman) h

/-- The end of `promote_model` is the write of the alias. -/
theorem runFrom_moveAlias (candidate : ModelVersion) {k : ℕ} :
    (server.runFrom env k r (tools.moveAlias candidate)).2 =
      (server.exec (.setRegisteredModelAlias tools.modelName tools.modelAlias candidate.version)
        (env k) r).2 := by
  unfold MlflowTools.moveAlias
  rw [runFrom_request_bind]
  cases (server.exec (.setRegisteredModelAlias tools.modelName tools.modelAlias candidate.version)
    (env k) r).1 with
  | ok _ => rfl
  | error exc => rfl

/-- Looking the champion up is one call. -/
theorem runFrom_getChampionModel_bind {A : Type} {k : ℕ} (f : ChampionModel → MlflowProgram A) :
    server.runFrom env k r (tools.getChampionModel >>= f) =
      server.runFrom env (k + 1)
        (server.exec (.getModelVersionByAlias tools.modelName tools.modelAlias) (env k) r).2
        (f (.ofReply (server.exec
          (.getModelVersionByAlias tools.modelName tools.modelAlias) (env k) r).1)) := rfl

/-- What `promote_model` does to the registry with an approved decision, version by version. -/
theorem run_promoteModel (hserver : server.Documented) {candidateVersion : String}
    (hnamed : isBlank candidateVersion = false) :
    (server.run env r (tools.promoteModel candidateVersion "PROMOTE" true)).2 =
      match (server.exec (.getModelVersion tools.modelName candidateVersion) (env 0) r).1 with
      | .error _ => r
      | .ok candidate =>
        if MlflowTools.isChampion (.ofReply (server.exec
          (.getModelVersionByAlias tools.modelName tools.modelAlias) (env 1) r).1) candidate then r
        else (server.exec (.setRegisteredModelAlias tools.modelName tools.modelAlias
          candidate.version) (env 2) r).2 := by
  have hfind := exec_readOnly hserver
    (show (MlflowOp.getModelVersion tools.modelName candidateVersion).ReadOnly from trivial) (env 0) r
  have hlook := exec_readOnly hserver (show (MlflowOp.getModelVersionByAlias tools.modelName
    tools.modelAlias).ReadOnly from trivial) (env 1) r
  unfold MlflowTools.promoteModel
  rw [if_neg (by decide), if_neg (by decide), if_neg (by simp [hnamed]), MlflowServer.run,
    runFrom_request_bind, hfind]
  cases (server.exec (.getModelVersion tools.modelName candidateVersion) (env 0) r).1 with
  | error exc => rfl
  | ok candidate =>
    dsimp only
    rw [runFrom_getChampionModel_bind, hlook]
    split
    · rfl
    · exact runFrom_moveAlias candidate

variable {workflow : ModelPromotionWorkflow} {candidateVersion : String} {evaluation : Dict}
  {humanApproved : Bool}

/-- Where everything is in order, the alias moves. -/
theorem Promotable.run_execute_snd (hserver : server.Documented) {candidate : ModelVersion}
    (h : Promotable server env workflow.mlflowTools r candidateVersion evaluation humanApproved
      candidate) :
    (server.run env r (workflow.execute candidateVersion evaluation humanApproved)).2 =
      r.setAlias workflow.mlflowTools.modelName workflow.mlflowTools.modelAlias
        candidate.version := by
  rw [execute_of_gate h.decision h.approved h.human, MlflowServer.run, runFrom_map]
  refine (run_promoteModel hserver h.named).trans ?_
  rw [h.found]
  dsimp only
  rw [h.notChampion, if_neg (by decide), h.written]

/-- Where it is not, the registry stays as it is. -/
theorem run_execute_snd_of_not (hserver : server.Documented)
    (h : ∀ candidate, ¬Promotable server env workflow.mlflowTools r candidateVersion evaluation
      humanApproved candidate) :
    (server.run env r (workflow.execute candidateVersion evaluation humanApproved)).2 = r := by
  by_cases hgate : evaluation.isStrAt "decision" "PROMOTE" = true ∧
      evaluation.isTrueAt "approved" = true ∧ humanApproved = true
  · obtain ⟨hdecision, happroved, hhuman⟩ := hgate
    rw [execute_of_gate hdecision happroved hhuman, MlflowServer.run, runFrom_map]
    by_cases hblank : isBlank candidateVersion = true
    · simp [MlflowTools.promoteModel, hblank]
    · have hnamed : isBlank candidateVersion = false := by simpa using hblank
      refine (run_promoteModel hserver hnamed).trans ?_
      cases hfound : (server.exec (.getModelVersion workflow.mlflowTools.modelName
        candidateVersion) (env 0) r).1 with
      | error exc => rfl
      | ok candidate =>
        dsimp only
        split
        · rfl
        · rename_i hchampion
          -- the write of the alias is all that could still fail
          refine (exec_setRegisteredModelAlias hserver (env 2) r _ _ _).resolve_right
            fun hwritten => h candidate ?_
          exact ⟨hdecision, happroved, hhuman, hnamed, hfound, by simpa using hchampion, hwritten⟩
  · obtain ⟨result, hresult, -⟩ := execute_of_not_gate workflow candidateVersion hgate
    rw [hresult, MlflowServer.run, runFrom_pure]

/-- A call of `execute` moves the alias to a promotable version, or leaves the registry. -/
theorem run_execute_snd (hserver : server.Documented) (env : ℕ → MlflowEnv) (r : Registry)
    (workflow : ModelPromotionWorkflow) (candidateVersion : String) (evaluation : Dict)
    (humanApproved : Bool) :
    (∃ candidate, Promotable server env workflow.mlflowTools r candidateVersion evaluation
        humanApproved candidate ∧
      (server.run env r (workflow.execute candidateVersion evaluation humanApproved)).2 =
        r.setAlias workflow.mlflowTools.modelName workflow.mlflowTools.modelAlias
          candidate.version) ∨
    (∀ candidate, ¬Promotable server env workflow.mlflowTools r candidateVersion evaluation
        humanApproved candidate) ∧
      (server.run env r (workflow.execute candidateVersion evaluation humanApproved)).2 = r := by
  by_cases h : ∃ candidate, Promotable server env workflow.mlflowTools r candidateVersion evaluation
      humanApproved candidate
  · obtain ⟨candidate, hcandidate⟩ := h
    exact .inl ⟨candidate, hcandidate, hcandidate.run_execute_snd hserver⟩
  · have hnone := not_exists.mp h
    exact .inr ⟨hnone, run_execute_snd_of_not hserver hnone⟩

/-! ## The version and the evaluation -/

/-- `evaluation["candidate"]["run_id"]`. -/
def candidateRunId (evaluation : Dict) : Option String :=
  match evaluation.get? "candidate" with
  | some (.obj candidate) =>
    match Dict.get? candidate "run_id" with
    | some (.str runId) => some runId
    | _ => none
  | _ => none

/-- The champion alias moves to a version. -/
def MovesChampion (tools : MlflowTools) (before after : Registry) (version : String) : Prop :=
  before.aliases tools.modelName tools.modelAlias ≠ some version ∧
    after.aliases tools.modelName tools.modelAlias = some version

/-- The version that `execute` moves the champion to belongs to the run of the evaluation. -/
def PromotesEvaluated (server : MlflowServer) (env : ℕ → MlflowEnv)
    (workflow : ModelPromotionWorkflow) (r : Registry) (candidateVersion : String)
    (evaluation : Dict) (humanApproved : Bool) : Prop :=
  ∀ version, MovesChampion workflow.mlflowTools r
      (server.run env r (workflow.execute candidateVersion evaluation humanApproved)).2 version →
    (r.modelVersion? workflow.mlflowTools.modelName version).bind (·.runId) =
      candidateRunId evaluation

/-- `execute` promotes the evaluated model exactly if the registered version that it is given was
logged by the run of the evaluation, wherever that version passes the checks and is not under the
alias already. -/
theorem promotesEvaluated_iff (hserver : server.Documented) :
    PromotesEvaluated server env workflow r candidateVersion evaluation humanApproved ↔
      ∀ candidate, Promotable server env workflow.mlflowTools r candidateVersion evaluation
          humanApproved candidate →
        r.aliases workflow.mlflowTools.modelName workflow.mlflowTools.modelAlias ≠
            some candidate.version →
          candidate.runId = candidateRunId evaluation := by
  constructor
  · intro h candidate hcandidate hmoves
    have hworld := hcandidate.run_execute_snd hserver
    have hregistered := (hserver.getModelVersion _ _ _ _ (call_of_exec hcandidate.found)).1
    have hrun := h candidate.version ⟨hmoves, by rw [hworld, Registry.setAlias_aliases]⟩
    rwa [hregistered, Option.bind_some] at hrun
  · intro h version ⟨hbefore, hafter⟩
    obtain ⟨candidate, hcandidate, hworld⟩ | ⟨-, hworld⟩ :=
      run_execute_snd hserver env r workflow candidateVersion evaluation humanApproved
    · rw [hworld, Registry.setAlias_aliases] at hafter
      obtain rfl := Option.some.inj hafter
      have hregistered := (hserver.getModelVersion _ _ _ _ (call_of_exec hcandidate.found)).1
      rw [hregistered, Option.bind_some]
      exact h candidate hcandidate hbefore
    · exact absurd (hworld ▸ hafter) hbefore

/-- A registry with three finished runs of one family and the versions they registered: the
champion, a weaker one, and the newest, which is the best. -/
def threeVersions : Registry where
  experiments name := if name = "credit-scoring" then some "1" else none
  runs :=
    let run (id : String) (startTime : ℤ) (rocAuc : ℚ) : MlflowRun :=
      { runId := id, experimentId := "1", runName := some "catboost_baseline", status := .finished
        startTime, params := []
        metrics := [("roc_auc", .finite rocAuc), ("recall", .finite (7 / 10)),
          ("precision", .finite (3 / 5))] }
    { items := [run "run-a" 1 (85 / 100), run "run-b" 2 (70 / 100), run "run-c" 3 (90 / 100)]
      unique := by decide }
  modelVersions :=
    let version (version runId : String) : ModelVersion :=
      { name := "CreditScoringCatBoost", version, runId := some runId, status := "READY" }
    { items := [version "1" "run-a", version "2" "run-b", version "3" "run-c"]
      unique := by decide }
  aliases name modelAlias :=
    if name = "CreditScoringCatBoost" ∧ modelAlias = "champion" then some "1" else none

/-- An approved evaluation of `run-c`. -/
def evaluationOfRunC : Dict :=
  [("decision", .str "PROMOTE"), ("approved", .bool true),
    ("candidate", .obj [("run_name", .str "catboost_baseline"), ("run_id", .str "run-c")])]

/-- With the approved evaluation of `run-c`, the weaker version of `run-b` becomes champion. -/
theorem execute_promotes_other :
    candidateRunId evaluationOfRunC = some "run-c" ∧
      (trackingServer.run noFaults threeVersions
        (ModelPromotionWorkflow.execute {} "2" evaluationOfRunC true)).2.aliases
          "CreditScoringCatBoost" "champion" = some "2" ∧
      ((threeVersions.modelVersion? "CreditScoringCatBoost" "2").bind (·.runId)) = some "run-b" ∧
      ¬PromotesEvaluated trackingServer noFaults {} threeVersions "2" evaluationOfRunC true := by
  have hmoved : (trackingServer.run noFaults threeVersions
      (ModelPromotionWorkflow.execute {} "2" evaluationOfRunC true)).2.aliases
        "CreditScoringCatBoost" "champion" = some "2" := by decide +kernel
  refine ⟨rfl, hmoved, rfl, fun h => ?_⟩
  exact absurd (h "2" ⟨by decide, hmoved⟩) (by decide)

/-- Given the version of the evaluated run, `execute` promotes that one. -/
theorem promotesEvaluated_iff_own :
    PromotesEvaluated trackingServer noFaults {} threeVersions "3" evaluationOfRunC true := by
  refine (promotesEvaluated_iff trackingServer_documented).mpr fun candidate hcandidate _ => ?_
  have hfound := hcandidate.found
  obtain rfl := Except.ok.inj hfound
  rfl

end CreditScoringMlops.Promotion
