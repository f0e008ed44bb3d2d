import CreditScoringMlops.Agent.Tools

/-!
# The tool-calling agent

`run` talks to the LLM for a bounded number of rounds. In each round the LLM either answers, or asks
for tools; the results go back to it as messages, and every call leaves two audit events. The
recursion of `rounds` is on the rounds that are left.
-/

namespace CreditScoringMlops.Agent

open Python Interaction ControlPlane Promotion

/-- What `run` returns. -/
structure AgentRun where
  status : String
  answer : String
  toolsUsed : List String
  traceId : String

namespace Session

/-- `audit.record(...)`. -/
def record (event : AuditRecord) (error : Json := .null) : Session AuditEvent := do
  Program.ofExcept (← Program.request (.record event error))

/-- `finish(status, failure_reason=...)`. -/
def finish (status : String) (failureReason : Option String := none) : Session Unit :=
  Program.request (SessionOp.finish status failureReason)

/-- `client.chat.completions.create(...).choices[0].message`. -/
def create (request : ChatRequest) : Session ChatMessage := do
  match ← Program.ofExcept (← Program.request (.chat request)) with
  | [] => Program.raise (.other "list index out of range")
  | message :: _ => return message

end Session

/-- `ToolCallingAgent`. -/
structure ToolCallingAgent where
  provider : OpenAICompatibleProvider
  registry : ToolRegistry
  maxRounds : ℕ
  bounded : 1 ≤ maxRounds ∧ maxRounds ≤ 10

namespace ToolCallingAgent

/-- `ToolCallingAgent(provider, registry, max_rounds)`. -/
def init (provider : OpenAICompatibleProvider) (registry : ToolRegistry) (maxRounds : ℤ := 4) :
    Except PyExc ToolCallingAgent :=
  if h : maxRounds < 1 ∨ maxRounds > 10 then
    .error (.valueError "max_rounds must be between 1 and 10")
  else .ok { provider, registry, maxRounds := maxRounds.toNat, bounded := by omega }

/-- The first message. -/
def systemPrompt : String :=
  "You are the AI Engineering Command Center orchestrator. " ++
  "Analyze the engineering task using only registered tools. " ++
  "Never invent tool results. Never execute destructive actions. " ++
  "For actions that change infrastructure or models, request human approval."

/-- The messages of the first round. -/
def firstMessages (task : String) : List Dict :=
  [[("role", .str "system"), ("content", .str systemPrompt)],
    [("role", .str "user"), ("content", .str task)]]

/-- `assistant_message`. -/
def assistantMessage (message : ChatMessage) : Dict :=
  [("role", .str "assistant"), ("content", .str message.text),
    ("tool_calls", .arr (message.toolCalls.map fun call =>
      .obj [("id", .str call.id), ("type", .str "function"),
        ("function", .obj [("name", .str call.name), ("arguments", optionStr call.arguments)])]))]

/-- The message that carries the result of a call. -/
def toolMessage (call : ToolCall) (content : String) : Dict :=
  [("role", .str "tool"), ("tool_call_id", .str call.id), ("content", .str content)]

/-- `call.function.arguments or "{}"`. -/
def argumentsText (call : ToolCall) : String :=
  (call.arguments.filter fun text => !text.isEmpty).getD "{}"

variable (conversions : Conversions)

/-- The handlers of the exceptions of a tool. -/
def errorResult (exc : PyExc) : Dict :=
  let expected := match exc with
    | .keyError _ => true
    | .typeError _ => true
    | _ => exc.isValueError
  if expected then [("error", .str exc.str)]
  else [("error", .str "Tool execution failed"), ("detail", .str exc.str),
    ("error_type", .str (conversions.excName exc))]

/-- The result of a call whose arguments are no JSON. -/
def invalidArguments (detail : String) : Dict :=
  [("error", .str "Invalid JSON tool arguments"), ("detail", .str detail)]

/-- The `try` block of one call: its result, and whether the tool is counted as used. -/
def callTool (agent : ToolCallingAgent) (call : ToolCall) : Session (ToolResult × Bool) := do
  match conversions.loads (argumentsText call) with
  | .error (.jsonDecodeError detail) => return (.json (.obj (invalidArguments detail)), false)
  | .error exc => Program.raise exc
  | .ok arguments =>
    match ← (agent.registry.execute call.name arguments).attempt with
    | .ok result => return (result, true)
    | .error exc => return (.json (.obj (errorResult conversions exc)), false)

/-- The audit event of a call. -/
def toolCalled (traceId : String) (call : ToolCall) : AuditRecord where
  eventType := .toolCalled
  traceId := traceId
  toolName := call.name
  status := "requested"
  payload := [("arguments", optionStr call.arguments)]

/-- The audit event of its result. -/
def toolResult (traceId : String) (call : ToolCall) (result : ToolResult) (failed : Bool) :
    AuditRecord where
  eventType := .toolResult
  traceId := traceId
  toolName := call.name
  status := if failed then "failed" else "completed"
  payload := [("result", result.stored)]

/-- What is recorded and sent of the result of a call. -/
def reportResult (traceId : String) (call : ToolCall) (result : ToolResult) : Session Dict := do
  let failed ← Program.ofExcept (result.hasMember "error")
  let error ← Program.ofExcept (if failed then result.get "detail" else .ok .null)
  let _ ← Session.record (toolResult traceId call result failed) error
  return toolMessage call (← Program.ofExcept (result.dumps conversions))

/-- The calls of one round, with the messages and the used tools so far. -/
def callTools (agent : ToolCallingAgent) (traceId : String) :
    List ToolCall → List Dict → List String → Session (List Dict × List String)
  | [], messages, usedTools => return (messages, usedTools)
  | call :: calls, messages, usedTools => do
    let _ ← Session.record (toolCalled traceId call)
    let (result, used) ← agent.callTool conversions call
    let message ← reportResult conversions traceId call result
    agent.callTools traceId calls (messages ++ [message])
      (if used then usedTools ++ [call.name] else usedTools)

/-- The names of tools in a payload. -/
def toolNames (usedTools : List String) : Json := .arr (usedTools.map .str)

/-- The answer of a run that was cut off. -/
def maxRoundsExceeded : String :=
  "The agent reached the maximum number of tool-calling rounds."

/-- The request of a round. -/
def request (agent : ToolCallingAgent) (messages : List Dict) : ChatRequest where
  model := agent.provider.model
  messages := messages
  tools := some agent.registry.definitions
  toolChoice := some "auto"
  temperature := .finite 0

/-- The last audit event of a run that was cut off. -/
def runExceeded (agent : ToolCallingAgent) (traceId : String) (usedTools : List String) :
    AuditRecord where
  eventType := .executionFailed
  traceId := traceId
  status := "max_rounds_exceeded"
  payload := [("rounds", .int agent.maxRounds), ("tools_used", toolNames usedTools)]

/-- The last audit event of a run that was answered. -/
def runCompleted (traceId : String) (round : ℕ) (usedTools : List String) (answer : String) :
    AuditRecord where
  eventType := .executionCompleted
  traceId := traceId
  status := "completed"
  payload := [("rounds", .int round), ("tools_used", toolNames usedTools), ("answer", .str answer)]

/-- The rounds that are left, and the end of the run. -/
def rounds (agent : ToolCallingAgent) (traceId : String) :
    ℕ → List Dict → List String → Session AgentRun
  | 0, _, usedTools => do
    Session.finish "max_rounds_exceeded" "max_rounds_exceeded"
    let _ ← Session.record (agent.runExceeded traceId usedTools) (.str maxRoundsExceeded)
    return { status := "max_rounds_exceeded", answer := maxRoundsExceeded, toolsUsed := usedTools
             traceId }
  | left + 1, messages, usedTools => do
    let message ← Session.create (agent.request messages)
    if message.toolCalls.isEmpty then
      Session.finish "completed"
      let _ ← Session.record
        (runCompleted traceId (agent.maxRounds - left) usedTools message.text)
      return { status := "completed", answer := message.text, toolsUsed := usedTools, traceId }
    else
      let (messages, usedTools) ← agent.callTools conversions traceId message.toolCalls
        (messages ++ [assistantMessage message]) usedTools
      agent.rounds traceId left messages usedTools

/-- The first audit event of a run. -/
def runRequested (traceId task : String) : AuditRecord where
  eventType := .agentRequested
  traceId := traceId
  status := "started"
  payload := [("task", .str task)]

/-- The last audit event of a run without the library. -/
def runFailed (traceId : String) : AuditRecord where
  eventType := .executionFailed
  traceId := traceId
  status := "failed"

/-- The text of the failure without the library. -/
def missingOpenai : String := "Install the 'openai' package to use tool calling"

/-- `from openai import OpenAI`, with the handler of the `ImportError`. -/
def importOpenai (traceId : String) : Session Unit := do
  if ← Program.ofExcept (← Program.request .importOpenai) then return ()
  else
    Session.finish "failed" "missing_openai_dependency"
    let _ ← Session.record (runFailed traceId) (.str missingOpenai)
    Program.raise (.other missingOpenai)

/-- `run`. -/
def run (agent : ToolCallingAgent) (task : String) : Session AgentRun := do
  let traceId ← Program.request .newTraceId
  let _ ← Session.record (runRequested traceId task)
  importOpenai traceId
  Program.ofExcept (← Program.request (.openaiClient agent.provider.baseUrl agent.provider.apiKey))
  agent.rounds conversions traceId agent.maxRounds (firstMessages task) []

/-! ## What a run performs -/

/-- The operations of an agent: reading, drawing an identifier, and writing the audit trail. -/
def Harmless : AgentOp → Prop
  | .control .uuid4 => True
  | .control (.record _) => True
  | op => op.ReadOnly

/-- Reading is harmless. -/
theorem harmless_of_readOnly {op : AgentOp} (h : op.ReadOnly) : Harmless op := by
  cases op with
  | control op => exact h.elim
  | _ => exact h

variable {conversions} {agent : ToolCallingAgent}

/-- The operations of the calls of a round. -/
def CallOp (registry : ToolRegistry) : SessionOp → Prop
  | .record event _ => event.eventType = .toolCalled ∨ event.eventType = .toolResult
  | op => registry.Calls op

/-- The operations of the rounds. -/
def RoundOp (registry : ToolRegistry) : SessionOp → Prop
  | .record _ _ => True
  | .chat _ => True
  | .finish _ _ => True
  | op => registry.Calls op

/-- The operations of a session with the tools of a registry. -/
def Offers (registry : ToolRegistry) : SessionOp → Prop
  | .invoke tool _ => tool ∈ registry.tools.items
  | _ => True

/-- The calls of a round are part of the rounds. -/
theorem roundOp_of_callOp {registry : ToolRegistry} {op : SessionOp} (h : CallOp registry op) :
    RoundOp registry op := by
  cases op <;> first | exact h | trivial

/-- The rounds are part of the session. -/
theorem offers_of_roundOp {registry : ToolRegistry} {op : SessionOp} (h : RoundOp registry op) :
    Offers registry op := by
  cases op <;> first | exact h | trivial

/-- An audit event, if it is permitted. -/
theorem record_uses {allowed : SessionOp → Prop} {event : AuditRecord} {error : Json}
    (h : allowed (.record event error)) : (Session.record event error).Uses allowed :=
  .bind (Program.uses_request h) Program.uses_ofExcept

/-- The `try` block of a call keeps to the tools of the registry. -/
theorem callTool_uses (call : ToolCall) :
    (agent.callTool conversions call).Uses (CallOp agent.registry) := by
  have hexecute (arguments : Json) :
      (agent.registry.execute call.name arguments).Uses (CallOp agent.registry) :=
    (agent.registry.execute_uses _ _).weaken fun op hop => by cases op <;> first | exact hop | cases hop
  unfold callTool
  split
  · trivial
  · trivial
  · refine .bind (hexecute _).attempt fun result => ?_
    split <;> trivial

/-- Reporting a result calls no handler. -/
theorem reportResult_uses (traceId : String) (call : ToolCall) (result : ToolResult) :
    (reportResult conversions traceId call result).Uses (CallOp agent.registry) := by
  unfold reportResult
  refine .bind (Program.uses_ofExcept _) fun failed => .bind (Program.uses_ofExcept _) fun error => ?_
  exact .bind (record_uses (.inr rfl)) fun _ => .bind (Program.uses_ofExcept _) fun _ => trivial

/-- All calls of a round keep to the registry. -/
theorem callTools_uses (traceId : String) (calls : List ToolCall) (messages : List Dict)
    (usedTools : List String) :
    (agent.callTools conversions traceId calls messages usedTools).Uses (CallOp agent.registry) := by
  induction calls generalizing messages usedTools with
  | nil => trivial
  | cons call calls ih =>
    rw [callTools]
    refine .bind (record_uses (.inl rfl)) fun _ => .bind (callTool_uses call) fun result => ?_
    exact .bind (reportResult_uses traceId call result.1) fun message => ih _ _

/-- So do all rounds. -/
theorem rounds_uses (traceId : String) (left : ℕ) (messages : List Dict)
    (usedTools : List String) :
    (agent.rounds conversions traceId left messages usedTools).Uses (RoundOp agent.registry) := by
  induction left generalizing messages usedTools with
  | zero =>
    refine .bind (Program.uses_request trivial) fun _ => ?_
    exact .bind (record_uses trivial) fun _ => trivial
  | succ left ih =>
    rw [rounds]
    refine .bind ?_ fun message => ?_
    · refine .bind (Program.uses_request trivial) fun reply => ?_
      refine .bind (Program.uses_ofExcept reply) fun choices => ?_
      split <;> trivial
    split
    · refine .bind (Program.uses_request trivial) fun _ => ?_
      exact .bind (record_uses trivial) fun _ => trivial
    · exact .bind ((callTools_uses traceId _ _ _).weaken fun _ => roundOp_of_callOp) fun next =>
        ih _ _

/-- A run calls handlers of the registry of its agent only, whatever the LLM answers. -/
theorem run_uses (task : String) : (agent.run conversions task).Uses (Offers agent.registry) := by
  unfold run
  refine .bind (Program.uses_request trivial) fun traceId => .bind (record_uses trivial) fun _ => ?_
  refine .bind ?_ fun _ => .bind (Program.uses_request trivial) fun client => ?_
  · refine .bind (Program.uses_request trivial) fun reply => ?_
    refine .bind (Program.uses_ofExcept reply) fun found => ?_
    split
    · trivial
    · refine .bind (Program.uses_request trivial) fun _ => ?_
      exact .bind (record_uses trivial) fun _ => trivial
  · exact .bind (Program.uses_ofExcept client) fun _ =>
      (rounds_uses traceId _ _ _).weaken fun _ => offers_of_roundOp

/-- What the service does for an operation of a session is harmless if the handlers are. -/
theorem implement_uses {registry : ToolRegistry}
    (htool : ∀ tool ∈ registry.tools.items, ∀ arguments, (tool.handler arguments).Uses Harmless)
    (op : SessionOp) (hop : Offers registry op) : op.implement.Uses Harmless := by
  cases op with
  | invoke tool arguments => exact (htool tool hop arguments).attempt
  | record event error => cases error <;> first | trivial | exact Program.uses_request trivial
  | finish status failureReason => trivial
  | _ => exact Program.uses_request trivial

/-- So an agent whose handlers are harmless is harmless, whatever the LLM answers. -/
theorem translate_run_uses (htool : ∀ tool ∈ agent.registry.tools.items, ∀ arguments,
    (tool.handler arguments).Uses Harmless) (task : String) :
    ((agent.run conversions task).translate SessionOp.implement).Uses Harmless :=
  (run_uses task).translate (implement_uses htool)

end ToolCallingAgent

end CreditScoringMlops.Agent
