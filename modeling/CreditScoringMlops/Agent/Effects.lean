import CreditScoringMlops.ControlPlane.System
import CreditScoringMlops.Interaction.Translation
import CreditScoringMlops.Promotion.Mlflow
import CreditScoringMlops.Python.Conversions

/-!
# The operations of the agents

An agent works on the tables of the control plane and on the MLflow registry, reads files, and talks
to an LLM. The LLM is part of the surroundings: it answers a chat request with any messages, or the
call raises.
-/

namespace CreditScoringMlops.Agent

open Python Interaction ControlPlane Promotion

/-- What the LLM asks to be called. -/
structure ToolCall where
  id : String
  name : String
  arguments : Option String

/-- A message of the LLM; no tool calls are the empty list. -/
structure ChatMessage where
  content : Option String := none
  toolCalls : List ToolCall := []

/-- `message.content or ""`. -/
def ChatMessage.text (message : ChatMessage) : String := message.content.getD ""

/-- The arguments of `client.chat.completions.create`. -/
structure ChatRequest where
  model : String
  messages : List Dict
  tools : Option (List Dict) := none
  toolChoice : Option String := none
  temperature : PyFloat

/-- How reading a file fails. -/
inductive ReadFailure where
  | osError (message : String)
  | raised (exc : PyExc)

/-- The operations. `import openai` answers whether there is such a module. -/
inductive AgentOp where
  | control (op : Op)
  | mlflow (op : MlflowOp)
  | importOpenai
  | openaiClient (baseUrl apiKey : String)
  | chat (request : ChatRequest)
  | mlflowClient (trackingUri : String)
  | pathExists (path : String)
  | readText (path : String)

/-- The answers. -/
abbrev AgentOp.Reply : AgentOp → Type
  | control op => op.Reply
  | mlflow op => op.Reply
  | importOpenai => Except PyExc Bool
  | openaiClient _ _ => Except PyExc Unit
  | chat _ => Except PyExc (List ChatMessage)
  | mlflowClient _ => Except PyExc Unit
  | pathExists _ => Except PyExc Bool
  | readText _ => Except ReadFailure String

/-- What the surroundings contribute to one operation. -/
structure AgentEnv where
  control : Env := {}
  mlflow : MlflowEnv := {}
  openai : Except PyExc Bool := .ok true
  client : Except PyExc Unit := .ok ()
  choices : Except PyExc (List ChatMessage) := .ok []
  found : Except PyExc Bool := .ok false
  text : Except ReadFailure String := .error (.osError "no such file")

/-- The state of the control plane and of the MLflow registry. -/
structure AgentWorld where
  control : World := {}
  registry : Registry

/-- The approval table of a world. -/
abbrev AgentWorld.approvals (w : AgentWorld) : ApprovalTable := w.control.approvals

/-- The answer to an operation of caller `i`, and the world after it. -/
def exec (server : MlflowServer) (i : ℕ) (op : AgentOp) (env : AgentEnv) (w : AgentWorld) :
    op.Reply × AgentWorld :=
  match op with
  | .control op =>
    let (reply, control) := ControlPlane.exec i op env.control w.control
    (reply, { w with control })
  | .mlflow op =>
    let (reply, registry) := server.exec op env.mlflow w.registry
    (reply, { w with registry })
  | .importOpenai => (env.openai, w)
  | .openaiClient _ _ => (env.client, w)
  | .chat _ => (env.choices, w)
  | .mlflowClient _ => (env.client, w)
  | .pathExists _ => (env.found, w)
  | .readText _ => (env.text, w)

/-- A dying caller is a dying session of the control plane. -/
def abort (i : ℕ) (w : AgentWorld) : AgentWorld :=
  { w with control := ControlPlane.abort i w.control }

/-- Programs of the agents. -/
abbrev AgentProgram (A : Type) := Program AgentOp AgentOp.Reply PyExc A

/-- Perform one operation. -/
abbrev ask (op : AgentOp) : AgentProgram op.Reply := Program.request op

/-- Raise an exception. -/
abbrev raise {A : Type} (exc : PyExc) : AgentProgram A := Program.raise exc

/-- Return a result or raise its exception. -/
abbrev ofExcept {A : Type} (result : Except PyExc A) : AgentProgram A := Program.ofExcept result

/-- Call MLflow. -/
abbrev onMlflow {A : Type} (p : MlflowProgram A) : AgentProgram A :=
  p.translate fun op => ask (.mlflow op)

/-- `audit.record(...)`. -/
def record (event : AuditRecord) : AgentProgram AuditEvent := do
  ofExcept (← ask (.control (.record event)))

/-! ## The LLM provider -/

/-- The configured endpoint of the LLM. -/
structure OpenAICompatibleProvider where
  baseUrl : String
  apiKey : String
  model : String

namespace OpenAICompatibleProvider

/-- An argument that was given, or a variable of the environment, or its default. -/
def orGetenv (getenv : String → Option String) (value : Option String) (name default : String) :
    String :=
  (value.filter fun text => !text.isEmpty).getD ((getenv name).getD default)

/-- `OpenAICompatibleProvider(base_url, api_key, model)`. -/
def init (getenv : String → Option String) (baseUrl apiKey model : Option String := none) :
    OpenAICompatibleProvider where
  baseUrl := orGetenv getenv baseUrl "LLM_BASE_URL" "http://localhost:8000/v1"
  apiKey := orGetenv getenv apiKey "LLM_API_KEY" "local"
  model := orGetenv getenv model "LLM_MODEL" "Qwen/Qwen3-8B"

/-- `from openai import OpenAI`, where `missing` handles the `ImportError`. -/
def importOpenai (missing : AgentProgram Unit) : AgentProgram Unit := do
  if ← ofExcept (← ask .importOpenai) then return () else missing

/-- `client.chat.completions.create(...).choices[0].message`. -/
def create (request : ChatRequest) : AgentProgram ChatMessage := do
  match ← ofExcept (← ask (.chat request)) with
  | [] => raise (.other "list index out of range")
  | message :: _ => return message

/-- `generate`. -/
def generate (provider : OpenAICompatibleProvider) (systemPrompt userPrompt : String)
    (temperature : PyFloat := .finite 0) : AgentProgram String := do
  importOpenai (raise (.other "Install the 'openai' package to use the LLM provider"))
  ofExcept (← ask (.openaiClient provider.baseUrl provider.apiKey))
  let message ← create
    { model := provider.model, temperature
      messages := [[("role", .str "system"), ("content", .str systemPrompt)],
        [("role", .str "user"), ("content", .str userPrompt)]] }
  return message.text

end OpenAICompatibleProvider

end CreditScoringMlops.Agent
