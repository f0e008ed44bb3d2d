import CreditScoringMlops.Agent.Effects

/-!
# The orchestrator

`reason` asks the LLM for a recommendation and reads its answer. Reading is a function of the raw
text, `decisionOf`, which may also raise: only the two `try` blocks of the source are caught.
-/

namespace CreditScoringMlops.Agent

open Python Interaction ControlPlane

/-- `OrchestratorAgent`, with the names of its registered tools. -/
structure OrchestratorAgent where
  toolNames : List String := []
  llmProvider : OpenAICompatibleProvider

namespace OrchestratorAgent

/-- The first prompt of `reason`. -/
def systemPrompt : String :=
  "You are the reasoning layer of an ML engineering command center. " ++
  "Never execute infrastructure actions. Return JSON only with keys: " ++
  "action, reason, confidence, requires_human_approval, tools_used. " ++
  "Allowed actions: no_action, investigate, propose_retraining, " ++
  "request_human_approval. Confidence must be a number from 0 to 1. " ++
  "Dangerous or mutating actions always require human approval."

/-- `allowed_actions`. -/
def allowedActions : List String :=
  ["no_action", "investigate", "propose_retraining", "request_human_approval"]

/-- `available_tools`. -/
def availableTools (agent : OrchestratorAgent) : List String :=
  agent.toolNames.mergeSort fun a b => decide (a ≤ b)

variable (conversions : Conversions)

/-- The `try` block around `float(confidence)`. -/
def confidenceOf (value : Json) : Except PyExc PyFloat :=
  match conversions.float value with
  | .ok x => .ok (PyFloat.clamp (.finite 0) (.finite 1) x)
  | .error (.typeError _) => .ok (.finite 0)
  | .error exc => if exc.isValueError then .ok (.finite 0) else .error exc

/-- The end of `reason`, for an action of the allowlist. -/
def allowedDecision (payload : Dict) (action : String) : Except PyExc AgentDecision := do
  let confidence ← confidenceOf conversions ((payload.get? "confidence").getD (.float (.finite 0)))
  return {
    action
    reason := conversions.strOf ((payload.get? "reason").getD (.str "No reason provided"))
    parameters := [("confidence", .float confidence),
      ("tools_used", (payload.get? "tools_used").getD (.arr []))]
    requiresHumanApproval :=
      ((payload.get? "requires_human_approval").getD (.bool true)).truthy }

/-- The decision for an action that is not in the allowlist. -/
def outsideAllowlist (payload : Dict) : AgentDecision where
  action := "manual_review"
  reason := "LLM returned an action outside the allowlist."
  parameters := [("llm_response", .obj payload)]
  requiresHumanApproval := true

/-- The check of the action. A list or a dictionary cannot be looked up in a set. -/
def decisionOfPayload (payload : Dict) : Except PyExc AgentDecision :=
  match payload.get? "action" with
  | some (.str action) =>
    if action ∈ allowedActions then allowedDecision conversions payload action
    else .ok (outsideAllowlist payload)
  | some (.arr _) => .error (.typeError "unhashable type: 'list'")
  | some (.obj _) => .error (.typeError "unhashable type: 'dict'")
  | _ => .ok (outsideAllowlist payload)

/-- What `reason` makes of the raw answer of the LLM. -/
def decisionOf (raw : String) : Except PyExc AgentDecision :=
  match conversions.loads raw with
  | .error (.jsonDecodeError message) => .ok {
      action := "manual_review"
      reason := s!"LLM returned invalid JSON: {message}"
      parameters := [("raw_response", .str raw)]
      requiresHumanApproval := true }
  | .error exc => .error exc
  | .ok (.obj payload) => decisionOfPayload conversions payload
  | .ok value => .error (value.noAttribute "get")

/-- `reason`. -/
def reason (agent : OrchestratorAgent) (task : String) (context : Option Dict := none) :
    AgentProgram AgentDecision := do
  let userPrompt ← ofExcept <| conversions.dumps <| .obj
    [("task", .str task), ("context", .obj (context.getD [])),
      ("available_tools", .arr (agent.availableTools.map .str))]
  let raw ← agent.llmProvider.generate systemPrompt userPrompt (.finite 0)
  ofExcept (decisionOf conversions raw)

/-! ## What a decision tells of the answer -/

/-- The raw answer is a JSON object with this action. -/
def RepliesWith (raw action : String) : Prop :=
  ∃ payload : Dict, conversions.loads raw = .ok (.obj payload) ∧
    payload.get? "action" = some (.str action)

variable {conversions} {payload : Dict} {raw action : String} {decision : AgentDecision}

/-- The action of an allowed decision is the one that was checked. -/
theorem allowedDecision_action (h : allowedDecision conversions payload action = .ok decision) :
    decision.action = action := by
  unfold allowedDecision at h
  obtain ⟨confidence, -, hdecision⟩ := bind_eq_ok.mp h
  rw [← Except.ok.inj hdecision]

/-- An allowed action of a decision is the action of its payload. -/
theorem decisionOfPayload_action (h : decisionOfPayload conversions payload = .ok decision)
    (hallowed : decision.action ∈ allowedActions) :
    payload.get? "action" = some (.str decision.action) := by
  have houtside : .ok (outsideAllowlist payload) ≠ Except.ok (ε := PyExc) decision := by
    intro heq
    rw [← Except.ok.inj heq] at hallowed
    exact absurd hallowed (by decide : "manual_review" ∉ allowedActions)
  unfold decisionOfPayload at h
  split at h
  · rename_i action haction
    by_cases hmem : action ∈ allowedActions
    · rw [if_pos hmem] at h
      rw [haction, allowedDecision_action h]
    · rw [if_neg hmem] at h
      exact absurd h houtside
  · cases h
  · cases h
  · exact absurd h houtside

/-- An allowed action of a decision comes from a JSON object that the LLM answered. -/
theorem decisionOf_action (h : decisionOf conversions raw = .ok decision)
    (hallowed : decision.action ∈ allowedActions) :
    RepliesWith conversions raw decision.action := by
  unfold decisionOf at h
  split at h
  · -- the text does not parse, so a human reviews it
    have hreview : decision.action = "manual_review" := by rw [← Except.ok.inj h]
    rw [hreview] at hallowed
    exact absurd hallowed (by decide)
  · cases h
  · rename_i payload hloads
    exact ⟨payload, hloads, decisionOfPayload_action h hallowed⟩
  · cases h

end OrchestratorAgent

end CreditScoringMlops.Agent
