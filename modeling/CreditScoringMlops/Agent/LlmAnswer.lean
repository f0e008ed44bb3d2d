import CreditScoringMlops.Agent.Containment
import CreditScoringMlops.Agent.MonitoringAgent

/-!
# The answer of the LLM as a decision

The orchestrator reads the answer of the LLM as a JSON object with an action, a confidence and a
flag. What can go wrong before the action is checked, and with a confidence that is no number, is
not all caught; the flag is taken over from the answer.
-/

namespace CreditScoringMlops.Agent

open Python Interaction ControlPlane Promotion OrchestratorAgent

/-! ## What an answer recommends -/

section Recommendation

variable (conversions : Conversions)

/-- The allowed action of an answer, and the object that it comes from. -/
def recommendation? (raw : String) : Option (String × Dict) :=
  match conversions.loads raw with
  | .ok (.obj payload) =>
    match Dict.get? payload "action" with
    | some (.str action) => if action ∈ allowedActions then some (action, payload) else none
    | _ => none
  | _ => none

/-- The confidence of a recommendation: the number that was supplied, kept between 0 and 1, and 0
where there is none. -/
def safeConfidence (payload : Dict) : ℚ :=
  match (payload.get? "confidence").map conversions.float with
  | some (.ok (.finite q)) => max 0 (min 1 q)
  | some (.ok .posInf) => 1
  | _ => 0

/-- The supplied confidence is not an integer that is too large for a float. -/
def ConfidenceConverts (payload : Dict) : Prop :=
  ∀ value, payload.get? "confidence" = some value →
    ∀ message, conversions.float value ≠ .error (.overflowError message)

/-- Nor is it read as `nan`. -/
structure ConfidenceReadable (payload : Dict) : Prop where
  converts : ConfidenceConverts conversions payload
  notNan : ∀ value, payload.get? "confidence" = some value → conversions.float value ≠ .ok .nan

/-- The flag of an answer, which is true if it is missing. -/
def approvalFlag (payload : Dict) : Bool :=
  ((payload.get? "requires_human_approval").getD (.bool true)).truthy

/-- The answers that are prepared for: no JSON, or an object whose action can be looked up, and
whose confidence is readable if the action is allowed. -/
def ReadableAnswer (raw : String) : Prop :=
  match conversions.loads raw with
  | .ok (.obj payload) =>
    match Dict.get? payload "action" with
    | some (.str action) => action ∈ allowedActions → ConfidenceReadable conversions payload
    | some (.arr _) => False
    | some (.obj _) => False
    | _ => True
  | .error (.jsonDecodeError _) => True
  | _ => False

/-- A decision that an answer may be turned into. -/
structure FailSafeDecision (raw : String) (decision : AgentDecision) : Prop where
  action : decision.action ∈ "manual_review" :: allowedActions
  review : recommendation? conversions raw = none →
    decision.action = "manual_review" ∧ decision.requiresHumanApproval = true
  confidence : ∀ action payload, recommendation? conversions raw = some (action, payload) →
    ∃ q, decision.parameters.get? "confidence" = some (.float (.finite q)) ∧
      q ∈ Set.Icc 0 1 ∧ q = safeConfidence conversions payload

end Recommendation

variable {conversions : Conversions} {payload : Dict} {raw action : String}

/-- A safe confidence lies between 0 and 1. -/
theorem safeConfidence_mem : safeConfidence conversions payload ∈ Set.Icc (0 : ℚ) 1 := by
  unfold safeConfidence
  split
  · exact ⟨le_max_left _ _, max_le zero_le_one (min_le_left _ _)⟩
  · exact ⟨zero_le_one, le_refl _⟩
  · exact ⟨le_refl _, zero_le_one⟩

/-- A confidence that converts is read, and `nan` is read as 1. -/
theorem confidenceOf_supplied (h : ConfidenceConverts conversions payload) :
    confidenceOf conversions ((payload.get? "confidence").getD (.float (.finite 0))) =
      .ok (.finite (if (payload.get? "confidence").map conversions.float = some (.ok .nan) then 1
        else safeConfidence conversions payload)) := by
  cases hvalue : payload.get? "confidence" with
  | none =>
    simp only [Option.getD_none, Option.map_none, reduceCtorEq, if_false, safeConfidence, hvalue]
    exact congrArg Except.ok (PyFloat.clamp_finite 0)
  | some value =>
    simp only [Option.getD_some, Option.map_some, Option.some.injEq, safeConfidence, hvalue,
      confidenceOf]
    cases hfloat : conversions.float value with
    | ok x =>
      cases x with
      | finite q => simp [PyFloat.clamp_finite]
      | posInf => simp [PyFloat.clamp_posInf]
      | negInf => simp [PyFloat.clamp_negInf]
      | nan => simp [PyFloat.clamp_nan]
    | error exc =>
      obtain ⟨message, rfl⟩ | ⟨message, rfl⟩ | ⟨message, rfl⟩ := Conversions.float_error hfloat
      · simp
      · simp [PyExc.isValueError]
      · exact absurd hfloat (h value hvalue message)

/-- An integer that is too large makes the reading fail. -/
theorem confidenceOf_error (h : ¬ConfidenceConverts conversions payload) : ∃ exc,
    confidenceOf conversions ((payload.get? "confidence").getD (.float (.finite 0))) =
      .error exc := by
  simp only [ConfidenceConverts, not_forall, not_not] at h
  obtain ⟨value, hvalue, message, hfloat⟩ := h
  exact ⟨_, by simp only [hvalue, Option.getD_some, confidenceOf, hfloat]; rfl⟩

/-- The decision for an allowed action. -/
def recommended (conversions : Conversions) (payload : Dict) (action : String) (confidence : ℚ) :
    AgentDecision where
  action
  reason := conversions.strOf ((payload.get? "reason").getD (.str "No reason provided"))
  parameters := [("confidence", .float (.finite confidence)),
    ("tools_used", (payload.get? "tools_used").getD (.arr []))]
  requiresHumanApproval := approvalFlag payload

/-- An allowed action is recommended if the confidence converts. -/
theorem allowedDecision_eq (action : String) (h : ConfidenceConverts conversions payload) :
    allowedDecision conversions payload action = .ok (recommended conversions payload action
      (if (payload.get? "confidence").map conversions.float = some (.ok .nan) then 1
        else safeConfidence conversions payload)) := by
  unfold allowedDecision
  rw [confidenceOf_supplied h]
  rfl

/-- Otherwise the reading fails. -/
theorem allowedDecision_error (action : String) (h : ¬ConfidenceConverts conversions payload) :
    ∃ exc, allowedDecision conversions payload action = .error exc := by
  obtain ⟨exc, hconfidence⟩ := confidenceOf_error h
  exact ⟨exc, by unfold allowedDecision; rw [hconfidence]; rfl⟩

/-! ## Reading is fail-safe -/

/-- An answer without a recommendation is reviewed by a human if it is prepared for, and cannot be
read if it is not. -/
theorem decisionOf_of_none (hnone : recommendation? conversions raw = none) :
    (ReadableAnswer conversions raw ∧ ∃ decision, decisionOf conversions raw = .ok decision ∧
      decision.action = "manual_review" ∧ decision.requiresHumanApproval = true) ∨
    (¬ReadableAnswer conversions raw ∧ ∃ exc, decisionOf conversions raw = .error exc) := by
  unfold ReadableAnswer decisionOf
  unfold recommendation? at hnone
  cases hloads : conversions.loads raw with
  | error exc =>
    cases exc with
    | jsonDecodeError message => exact .inl ⟨trivial, _, rfl, rfl, rfl⟩
    | _ => exact .inr ⟨not_false, _, rfl⟩
  | ok value =>
    rw [hloads] at hnone
    cases value with
    | obj payload =>
      unfold decisionOfPayload
      dsimp only at hnone ⊢
      cases haction : Dict.get? payload "action" with
      | none => exact .inl ⟨trivial, _, rfl, rfl, rfl⟩
      | some value =>
        rw [haction] at hnone
        cases value with
        | str action =>
          by_cases hallowed : action ∈ allowedActions
          · simp only [if_pos hallowed, reduceCtorEq] at hnone
          · exact .inl ⟨fun hmem => absurd hmem hallowed, _, if_neg hallowed, rfl, rfl⟩
        | arr items => exact .inr ⟨not_false, _, rfl⟩
        | obj fields => exact .inr ⟨not_false, _, rfl⟩
        | _ => exact .inl ⟨trivial, _, rfl, rfl, rfl⟩
    | _ => exact .inr ⟨not_false, _, rfl⟩

/-- Where an answer comes from that recommends something. -/
theorem recommendation?_eq_some {payload : Dict} :
    recommendation? conversions raw = some (action, payload) ↔
      conversions.loads raw = .ok (.obj payload) ∧
        payload.get? "action" = some (.str action) ∧ action ∈ allowedActions := by
  unfold recommendation?
  constructor
  · intro h
    split at h
    · rename_i fields hloads
      split at h
      · rename_i text htext
        by_cases hallowed : text ∈ allowedActions
        · rw [if_pos hallowed] at h
          obtain ⟨rfl, rfl⟩ := Prod.mk.inj (Option.some.inj h)
          exact ⟨hloads, htext, hallowed⟩
        · rw [if_neg hallowed] at h
          cases h
      · cases h
    · cases h
  · rintro ⟨hloads, haction, hallowed⟩
    simp only [hloads, haction, if_pos hallowed]

/-- A recommendation is decided on by its action and its confidence. -/
theorem decisionOf_of_some (h : recommendation? conversions raw = some (action, payload)) :
    decisionOf conversions raw = allowedDecision conversions payload action := by
  obtain ⟨hloads, haction, hallowed⟩ := recommendation?_eq_some.mp h
  simp only [decisionOf, hloads, decisionOfPayload, haction, if_pos hallowed]

/-- It is prepared for if its confidence is readable. -/
theorem readableAnswer_of_some (h : recommendation? conversions raw = some (action, payload)) :
    ReadableAnswer conversions raw ↔ ConfidenceReadable conversions payload := by
  obtain ⟨hloads, haction, hallowed⟩ := recommendation?_eq_some.mp h
  simp only [ReadableAnswer, hloads, haction, hallowed, true_imp_iff]

/-- An answer is turned into a fail-safe decision exactly if it is prepared for. -/
theorem decisionOf_failSafe_iff :
    (∃ decision, decisionOf conversions raw = .ok decision ∧
      FailSafeDecision conversions raw decision) ↔ ReadableAnswer conversions raw := by
  cases hrecommendation : recommendation? conversions raw with
  | none =>
    obtain ⟨hreadable, decision, hdecision, haction, happroval⟩ | ⟨hreadable, exc, herror⟩ :=
      decisionOf_of_none hrecommendation
    · refine iff_of_true ⟨decision, hdecision, ?_⟩ hreadable
      exact ⟨by simp [haction], fun _ => ⟨haction, happroval⟩, fun action payload hsome => by
        rw [hrecommendation] at hsome
        cases hsome⟩
    · refine iff_of_false ?_ hreadable
      rintro ⟨decision, hdecision, -⟩
      rw [herror] at hdecision
      cases hdecision
  | some found =>
    obtain ⟨action, payload⟩ := found
    rw [readableAnswer_of_some hrecommendation, decisionOf_of_some hrecommendation]
    by_cases hconverts : ConfidenceConverts conversions payload
    · rw [allowedDecision_eq action hconverts]
      constructor
      · rintro ⟨decision, hdecision, hsafe⟩
        refine ⟨hconverts, fun value hvalue hfloat => ?_⟩
        -- the confidence 1 is not the safe one of `nan`
        have hnan : (payload.get? "confidence").map conversions.float = some (.ok .nan) := by
          rw [hvalue]
          exact congrArg some hfloat
        rw [if_pos hnan] at hdecision
        obtain rfl := Except.ok.inj hdecision
        obtain ⟨q, hq, -, hsafe⟩ := hsafe.confidence action payload hrecommendation
        have hconfidence : (recommended conversions payload action 1).parameters.get? "confidence" =
            some (.float (.finite 1)) := rfl
        have hone : (1 : ℚ) = q := by
          simpa only [hconfidence, Option.some.injEq, Json.float.injEq, PyFloat.finite.injEq] using hq
        have hzero : safeConfidence conversions payload = 0 := by
          unfold safeConfidence
          rw [hnan]
        rw [← hone, hzero] at hsafe
        exact absurd hsafe one_ne_zero
      · intro hreadable
        have hnotNan : ¬(payload.get? "confidence").map conversions.float = some (.ok .nan) := by
          intro hnan
          obtain ⟨value, hvalue, hfloat⟩ := Option.map_eq_some_iff.mp hnan
          exact hreadable.notNan value hvalue hfloat
        rw [if_neg hnotNan]
        refine ⟨_, rfl, ?_, fun hnone => ?_, fun action' payload' hsome => ?_⟩
        · exact List.mem_cons_of_mem _ (recommendation?_eq_some.mp hrecommendation).2.2
        · rw [hrecommendation] at hnone
          cases hnone
        · rw [hrecommendation] at hsome
          obtain ⟨rfl, rfl⟩ := Prod.mk.inj (Option.some.inj hsome)
          exact ⟨_, rfl, safeConfidence_mem, rfl⟩
    · obtain ⟨exc, herror⟩ := allowedDecision_error action hconverts
      rw [herror]
      refine iff_of_false ?_ fun hreadable => hconverts hreadable.converts
      rintro ⟨decision, hdecision, -⟩
      cases hdecision

/-! ## The orchestrator -/

/-- `user_prompt`, before it is printed. -/
def OrchestratorAgent.userPrompt (agent : OrchestratorAgent) (task : String)
    (context : Option Dict) : Json :=
  .obj [("task", .str task), ("context", .obj (context.getD [])),
    ("available_tools", .arr (agent.availableTools.map .str))]

/-- The surroundings in which the LLM gives an answer. -/
def answering (raw : String) : AgentEnv := { choices := .ok [{ content := some raw }] }

section Orchestrator

variable (process : AgentProcess) (server : MlflowServer) (w : AgentWorld)
  (conversions : Conversions) (agent : OrchestratorAgent) (task : String) (context : Option Dict)
  (raw : String)

/-- Once the prompt is printed, `reason` returns what it makes of the answer. -/
theorem outcome_reason :
    (system process server).alone 0 (answering raw) w (agent.reason conversions task context) =
      conversions.dumps (agent.userPrompt task context) >>= fun _ => decisionOf conversions raw := by
  unfold OrchestratorAgent.reason
  change (system process server).alone 0 (answering raw) w
    (Program.ofExcept (conversions.dumps (agent.userPrompt task context)) >>= _) = _
  cases conversions.dumps (agent.userPrompt task context) with
  | error exc => rfl
  | ok prompt => exact Machine.alone_ofExcept (decisionOf conversions raw)

/-- `reason` returns a fail-safe decision exactly if the prompt can be printed and the answer is
prepared for. -/
theorem reason_failSafe_iff :
    (∃ decision, (system process server).alone 0 (answering raw) w
        (agent.reason conversions task context) = .ok decision ∧
      FailSafeDecision conversions raw decision) ↔
    (∃ prompt, conversions.dumps (agent.userPrompt task context) = .ok prompt) ∧
      ReadableAnswer conversions raw := by
  rw [outcome_reason, ← decisionOf_failSafe_iff]
  cases conversions.dumps (agent.userPrompt task context) with
  | error exc => simp [bind, Except.bind]
  | ok prompt => simp [bind, Except.bind]

end Orchestrator

/-- An answer with the confidence `NaN`. -/
def nanText : String := "\x7b\"action\": \"investigate\", \"confidence\": NaN\x7d"

/-- An answer that is a list. -/
def listText : String := "[]"

/-- What the standard library makes of the two. -/
def untrustedConversions : Conversions :=
  { sampleConversions with
    loads := fun text =>
      if text = nanText then .ok (.obj [("action", .str "investigate"), ("confidence", .float .nan)])
      else if text = listText then .ok (.arr [])
      else .error (.jsonDecodeError "Expecting value: line 1 column 1 (char 0)") }

/-- The confidence `NaN` is read as 1, and the list cannot be read. -/
theorem reason_not_failSafe :
    (decisionOf untrustedConversions nanText).map (·.parameters.get? "confidence") =
        .ok (some (.float (.finite 1))) ∧
      decisionOf untrustedConversions listText =
        .error (.attributeError "'list' object has no attribute 'get'") ∧
      ¬∀ (process : AgentProcess) (server : MlflowServer) (w : AgentWorld)
        (conversions : Conversions) (agent : OrchestratorAgent) (task : String)
        (context : Option Dict) (raw : String), ∃ decision,
          (system process server).alone 0 (answering raw) w
            (agent.reason conversions task context) = .ok decision ∧
          FailSafeDecision conversions raw decision := by
  refine ⟨rfl, rfl, fun h => ?_⟩
  obtain ⟨-, hreadable⟩ := (reason_failSafe_iff _ _ _ _ _ _ _ _).mp
    (h { conversions := untrustedConversions } trackingServer emptyWorld untrustedConversions
      { llmProvider := .init fun _ => none } "check the drift" none listText)
  exact hreadable

/-! ## The answers that a request has been given -/

/-- The monitor that keeps the answers of the LLM. -/
def answers : Monitor AgentOp AgentOp.Reply (List String) where
  start := []
  may _ _ := True
  possible _ _ := True
  next s op reply := s ++ (op.rawResponse reply).toList

/-- In a trace it has kept those of its caller. -/
theorem stateOf_answers (trace : List AgentEntry) (i : ℕ) :
    answers.stateOf trace i = rawResponses (own trace i) := by
  induction trace using List.reverseRecOn with
  | nil => rfl
  | append_singleton trace e ih =>
    rw [Monitor.stateOf_concat, own_concat, ih]
    split
    · rw [rawResponses_concat]
      rfl
    · rfl

/-- A program without a chat leaves the answers as they are. -/
theorem obeys_answers_of_uses {A : Type} {p : AgentProgram A} (s : List String)
    (hp : p.Uses fun op => ∀ request, op ≠ .chat request) :
    p.Obeys answers (fun s' _ => s' = s) (fun _ _ => True) s := by
  refine (hp.obeys (I := fun s' => s' = s) (fun _ _ _ _ => trivial)
    (fun s' op reply hs hop _ => ?_) rfl).mono (fun _ _ h => h) fun _ _ _ => trivial
  subst hs
  cases op with
  | chat request => exact absurd rfl (hop request)
  | _ => exact List.append_nil s'

/-- The operations of the control plane, other than decisions, are without a chat. -/
theorem translate_uses {A : Type} (process : AgentProcess) {p : Handler A}
    (hp : p.Uses fun op => ∀ task context, op ≠ .reason task context) :
    (p.translate process.implement).Uses fun op => ∀ request, op ≠ .chat request := by
  refine hp.translate fun op hop => ?_
  have hcontrol (op : Op) : (ask (.control op)).Uses fun op => ∀ request, op ≠ .chat request :=
    Program.uses_request fun _ => nofun
  cases op with
  | reason task context => exact absurd rfl (hop task context)
  | _ => exact hcontrol _

/-- Recording an event asks for no decision. -/
theorem record_uses_noReason (event : AuditRecord) :
    (ControlPlane.record event).Uses fun op => ∀ task context, op ≠ .reason task context :=
  .bind (Program.uses_request fun _ _ => nofun) fun _ => Program.uses_ofExcept _

/-- Nor does opening an approval. -/
theorem proposeRetraining_uses (request : AgentDecisionRequest) (decision : AgentDecision)
    (traceId : String) : (AgentService.proposeRetraining request decision traceId).Uses
      fun op => ∀ task context, op ≠ .reason task context := by
  unfold AgentService.proposeRetraining
  refine .bind (Program.uses_request fun _ _ => nofun) fun approvalId => ?_
  refine .bind (Program.uses_request fun _ _ => nofun) fun requestedAt => ?_
  refine .bind (.bind (Program.uses_request fun _ _ => nofun) fun _ => Program.uses_ofExcept _)
    fun _ => ?_
  exact .bind (record_uses_noReason _) fun _ => trivial

/-- A response tells the flag of the decision on the one answer, and names an approval only if the
decision proposes retraining. -/
def RespondsWith (conversions : Conversions) (raws : List String)
    (response : AgentDecisionResponse) : Prop :=
  ∃ raw decision, raws = [raw] ∧ decisionOf conversions raw = .ok decision ∧
    response.requiresHumanApproval = decision.requiresHumanApproval ∧
    (response.approvalId.isSome → decision.action = "propose_retraining")

/-- A request for a decision is answered so. -/
theorem createAgentDecision_responds (process : AgentProcess) (request : AgentDecisionRequest) :
    ((AgentService.createAgentDecision request).translate process.implement).Obeys answers
      (RespondsWith process.conversions) (fun _ _ => True) [] := by
  have htrace : (AgentService.traceIdOf request.context).Uses
      fun op => ∀ task context, op ≠ .reason task context :=
    (AgentService.traceIdOf_uses _).weaken fun op hop _ _ heq => by
      rw [heq] at hop
      cases hop
  unfold AgentService.createAgentDecision
  rw [Program.obeys_translate_bind]
  refine (obeys_answers_of_uses [] (translate_uses process htrace)).mono
    (fun s traceId hs => ?_) fun _ _ h => h
  subst hs
  split
  · trivial
  rw [Program.obeys_translate_bind, Program.obeys_translate_request, AgentProcess.implement,
    Program.obeys_attempt]
  refine (obeys_reason (Q := fun s decision => ∃ raw, s = [raw] ∧
    decisionOf process.conversions raw = .ok decision) (fun _ => ⟨trivial, rfl⟩)
    (fun _ _ _ => ⟨trivial, rfl⟩) (fun _ => ⟨trivial, fun message _ decision hdecision =>
      ⟨message.text, rfl, hdecision⟩⟩) _ _ _).mono (fun s decision hs => ?_) fun _ _ _ => ?_
  · obtain ⟨raw, rfl, hdecision⟩ := hs
    rw [Program.obeys_translate_bind, Program.translate_ofExcept]
    refine Program.obeys_ofExcept _ (fun decision' heq => ?_) fun _ _ => trivial
    obtain rfl : decision = decision' := Except.ok.inj heq
    rw [Program.obeys_translate_bind]
    refine (obeys_answers_of_uses [raw] (translate_uses process (record_uses_noReason _))).mono
      (fun s _ hs => ?_) fun _ _ h => h
    subst hs
    by_cases hpropose : decision.action = "propose_retraining"
    · simp only [if_pos hpropose, Program.obeys_translate_bind, Program.obeys_translate_map]
      refine (obeys_answers_of_uses [raw] (translate_uses process
        (proposeRetraining_uses request decision traceId))).mono (fun s _ hs => ?_) fun _ _ h => h
      subst hs
      exact ⟨raw, decision, rfl, hdecision, rfl, fun _ => hpropose⟩
    · simp only [if_neg hpropose]
      exact ⟨raw, decision, rfl, hdecision, rfl, fun hsome => by cases hsome⟩
  · rw [Program.obeys_translate_bind, Program.translate_ofExcept]
    trivial

/-- In every run of the service, a response to a request for a decision is the one for the answer
that its caller has been given. -/
theorem responds_run (process : AgentProcess) (server : MlflowServer) (w : AgentWorld)
    (events : List AgentEvent) {i : ℕ} {request : AgentDecisionRequest}
    {response : AgentDecisionResponse}
    (hcaller : ((system process server).run w events).callers[i]? =
      some ⟨.control (.createAgentDecision request),
        some (.ret (.control (.decision response)))⟩) :
    RespondsWith process.conversions
      (rawResponses (own ((system process server).run w events).trace i)) response := by
  let Q : AgentRequest → List String → AgentResponse → Prop := fun r s out =>
    ∀ request response, r = .control (.createAgentDecision request) →
      out = .control (.decision response) → RespondsWith process.conversions s response
  have hprogram : ∀ r, (serve process r).Obeys answers (Q r) (fun _ _ => True) [] := by
    intro r
    by_cases hr : ∃ request, r = .control (.createAgentDecision request)
    · obtain ⟨request, rfl⟩ := hr
      rw [serve, Program.obeys_map, ControlPlane.serve, Program.obeys_translate_map]
      refine (createAgentDecision_responds process request).mono (fun s response hs => ?_)
        fun _ _ h => h
      rintro request' response' - heq
      cases heq
      exact hs
    · refine ((Program.uses_all (serve process r)).obeys (I := fun _ => True)
        (fun _ _ _ _ => trivial) (fun _ _ _ _ _ _ => trivial) trivial).mono
        (fun s out _ => ?_) fun _ _ h => h
      exact fun request _ hrequest _ => absurd ⟨request, hrequest⟩ hr
  have hlive := ((system process server).disciplined_run (m := answers) (E := fun _ _ _ => True)
    (fun _ _ _ _ => trivial) hprogram w events).live i _ _ hcaller
  rw [stateOf_answers] at hlive
  exact hlive request response rfl rfl

/-! ## Mutating recommendations -/

/-- Whatever recommends retraining on an answer, or opens an approval for it, requires the approval
of a human. -/
structure ApprovalRequired (process : AgentProcess) (server : MlflowServer) (raw : String) :
    Prop where
  decision : ∀ decision, decisionOf process.conversions raw = .ok decision →
    decision.action = "propose_retraining" → decision.requiresHumanApproval = true
  reason : ∀ (agent : OrchestratorAgent) (task : String) (context : Option Dict) (w : AgentWorld)
    (decision : AgentDecision), (system process server).alone 0 (answering raw) w
      (agent.reason process.conversions task context) = .ok decision →
    decision.action = "propose_retraining" → decision.requiresHumanApproval = true
  service : ∀ (w : AgentWorld) (events : List AgentEvent) (i : ℕ) (request : AgentDecisionRequest)
    (response : AgentDecisionResponse),
    ((system process server).run w events).callers[i]? =
      some ⟨.control (.createAgentDecision request),
        some (.ret (.control (.decision response)))⟩ →
    rawResponses (own ((system process server).run w events).trace i) = [raw] →
    response.approvalId.isSome → response.requiresHumanApproval = true
  monitoring : ∀ (file : SignalFile) (agent : MonitoringAgent) (event : EngineeringEvent)
    (w : AgentWorld) (decision : MonitoringDecision),
    file.outcome process server w (agent.investigate process.conversions event) = .ok decision →
    decision.action = "propose_retraining" → decision.requiresHumanApproval = true

/-- A decision of the monitoring agent that proposes retraining requires approval. -/
theorem decide_requiresApproval (event : EngineeringEvent) (signal : Dict)
    (h : (MonitoringAgent.decide event signal).action = "propose_retraining") :
    (MonitoringAgent.decide event signal).requiresHumanApproval = true := by
  unfold MonitoringAgent.decide at h ⊢
  split
  · rfl
  · split
    · rfl
    · rename_i hrequired
      simp [*] at h

/-- A decision to propose retraining takes over the flag of its answer. -/
theorem decisionOf_flag {decision : AgentDecision} (h : decisionOf conversions raw = .ok decision)
    (hpropose : decision.action = "propose_retraining") :
    ∃ payload, recommendation? conversions raw = some ("propose_retraining", payload) ∧
      ConfidenceConverts conversions payload ∧
      decision.requiresHumanApproval = approvalFlag payload := by
  cases hrecommendation : recommendation? conversions raw with
  | none =>
    obtain ⟨-, decision', hdecision', haction, -⟩ | ⟨-, exc, herror⟩ :=
      decisionOf_of_none hrecommendation
    · obtain rfl := Except.ok.inj (h.symm.trans hdecision')
      exact absurd (haction.symm.trans hpropose) (by decide)
    · cases h.symm.trans herror
  | some found =>
    obtain ⟨action, payload⟩ := found
    rw [decisionOf_of_some hrecommendation] at h
    obtain rfl := (allowedDecision_action h).symm.trans hpropose
    refine ⟨payload, rfl, ?_⟩
    by_cases hconverts : ConfidenceConverts conversions payload
    · rw [allowedDecision_eq _ hconverts] at h
      rw [← Except.ok.inj h]
      exact ⟨hconverts, rfl⟩
    · obtain ⟨exc, herror⟩ := allowedDecision_error "propose_retraining" hconverts
      cases h.symm.trans herror

/-- Mutating recommendations on an answer require approval exactly if an answer that proposes
retraining, and can be read, does not deny the flag. -/
theorem approvalRequired_iff (process : AgentProcess) (server : MlflowServer) (raw : String) :
    ApprovalRequired process server raw ↔
      ∀ payload, recommendation? process.conversions raw = some ("propose_retraining", payload) →
        ConfidenceConverts process.conversions payload → approvalFlag payload = true := by
  constructor
  · intro h payload hrecommendation hconverts
    have hdecision := decisionOf_of_some hrecommendation
    rw [allowedDecision_eq _ hconverts] at hdecision
    exact h.decision _ hdecision rfl
  · intro h
    have hflag : ∀ decision, decisionOf process.conversions raw = .ok decision →
        decision.action = "propose_retraining" → decision.requiresHumanApproval = true := by
      intro decision hdecision hpropose
      obtain ⟨payload, hrecommendation, hconverts, hflag⟩ := decisionOf_flag hdecision hpropose
      exact hflag.trans (h payload hrecommendation hconverts)
    refine ⟨hflag, fun agent task context w decision hreason => ?_, ?_, ?_⟩
    · rw [outcome_reason] at hreason
      obtain ⟨_, -, hdecision⟩ := bind_eq_ok.mp hreason
      exact hflag decision hdecision
    · intro w events i request response hcaller hraw hsome
      obtain ⟨raw', decision, hraw', hdecision, hresponse, hpropose⟩ :=
        responds_run process server w events hcaller
      obtain rfl : raw = raw' := by simpa using hraw.symm.trans hraw'
      exact hresponse.trans (hflag decision hdecision (hpropose hsome))
    · intro file agent event w decision hdecision
      rw [outcome_investigate] at hdecision
      cases hreport : file.report process.conversions with
      | error exc =>
        rw [hreport] at hdecision
        cases hdecision
      | ok report =>
        rw [hreport] at hdecision
        obtain rfl := Except.ok.inj hdecision
        exact decide_requiresApproval event report

/-- A proposal that denies the flag. -/
def deniedText : String :=
  "\x7b\"action\": \"propose_retraining\", \"requires_human_approval\": false\x7d"

/-- What the standard library makes of it. -/
def denyingConversions : Conversions :=
  { sampleConversions with
    loads := fun text =>
      if text = deniedText then .ok (.obj [("action", .str "propose_retraining"),
        ("requires_human_approval", .bool false)])
      else .error (.jsonDecodeError "Expecting value: line 1 column 1 (char 0)") }

/-- The proposal becomes a decision that requires no approval. -/
theorem approval_not_required :
    (decisionOf denyingConversions deniedText).map
        (fun decision => (decision.action, decision.requiresHumanApproval)) =
      .ok ("propose_retraining", false) ∧
    ¬∀ (process : AgentProcess) (server : MlflowServer) (raw : String),
      ApprovalRequired process server raw := by
  refine ⟨rfl, fun h => ?_⟩
  have hdenied := (h { conversions := denyingConversions } trackingServer deniedText).decision
    (recommended denyingConversions [("action", .str "propose_retraining"),
      ("requires_human_approval", .bool false)] "propose_retraining" 0) rfl rfl
  cases hdenied

end CreditScoringMlops.Agent
