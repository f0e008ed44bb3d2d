import CreditScoringMlops.Agent.Orchestrator
import CreditScoringMlops.Agent.ToolCalling

/-!
# The agents in the service

`run_agent` serves a run of the tool-calling agent with the default registry. The requests of the
control plane are served as before, with the orchestrator in the place of the one operation that
asks for a decision. Other clients of MLflow move the registry in the meantime.
-/

namespace CreditScoringMlops.Agent

open Python Interaction ControlPlane Promotion

/-- The process of the service: its environment variables and the standard library. -/
structure AgentProcess where
  getenv : String → Option String := fun _ => none
  conversions : Conversions

/-- The body of a request for a run. -/
structure AgentRunRequest where
  task : String
  taskLength : 1 ≤ task.length ∧ task.length ≤ 4000

namespace AgentProcess

variable (process : AgentProcess)

/-- `build_agent`. The default registry makes an MLflow client. -/
def buildAgent : AgentProgram ToolCallingAgent := do
  let provider := OpenAICompatibleProvider.init process.getenv
  ofExcept (← ask (.mlflowClient
    ((process.getenv "MLFLOW_TRACKING_URI").getD "http://127.0.0.1:5000")))
  let registry ← ofExcept (buildDefaultRegistry process.conversions)
  ofExcept (ToolCallingAgent.init provider registry 4)

/-- `build_orchestrator`. -/
def buildOrchestrator : OrchestratorAgent where
  llmProvider := OpenAICompatibleProvider.init process.getenv

/-- `run_agent`. -/
def runAgent (request : AgentRunRequest) : AgentProgram AgentRun := do
  let session := do
    let agent ← process.buildAgent
    (agent.run process.conversions request.task).translate SessionOp.implement
  let result ← session.attempt
  ofExcept (result.mapError fun _ => .httpException 500 "Agent execution failed")

/-- How the operations of the control plane are performed: a decision is asked of the
orchestrator. -/
def implement : (op : Op) → AgentProgram op.Reply
  | .reason task context =>
    (process.buildOrchestrator.reason process.conversions task (some context)).attempt
  | .store op => ask (.control (.store op))
  | .record event => ask (.control (.record event))
  | .tryAcquire => ask (.control .tryAcquire)
  | .release => ask (.control .release)
  | .uuid4 => ask (.control .uuid4)
  | .utcNow => ask (.control .utcNow)
  | .str value => ask (.control (.str value))
  | .manifestExists => ask (.control .manifestExists)
  | .readManifest => ask (.control .readManifest)
  | .applyCalled approved id => ask (.control (.applyCalled approved id))
  | .applyReturned id result => ask (.control (.applyReturned id result))
  | .kubectlApply name manifest => ask (.control (.kubectlApply name manifest))
  | .kubectlGet name => ask (.control (.kubectlGet name))
  | .cluster change => ask (.control (.cluster change))

end AgentProcess

/-- What can arrive. -/
inductive AgentRequest where
  | control (request : Request)
  | runAgent (request : AgentRunRequest)
  | mlflow (program : MlflowProgram Unit)

/-- What a request returns. -/
inductive AgentResponse where
  | control (response : Response)
  | run (result : AgentRun)
  | done

/-- The program that serves a request. -/
def serve (process : AgentProcess) : AgentRequest → AgentProgram AgentResponse
  | .control request => .control <$> (ControlPlane.serve request).translate process.implement
  | .runAgent request => .run <$> process.runAgent request
  | .mlflow program => (fun _ => .done) <$> onMlflow program

/-- The service with its agents. -/
def system (process : AgentProcess) (server : MlflowServer) :
    Machine AgentOp AgentOp.Reply PyExc AgentEnv AgentWorld AgentRequest AgentResponse where
  program := serve process
  exec := exec server
  abort := abort

/-- Entries of its traces. -/
abbrev AgentEntry := Entry AgentOp AgentOp.Reply AgentEnv AgentWorld

/-- Events of its runs. -/
abbrev AgentEvent := Event AgentEnv AgentRequest

end CreditScoringMlops.Agent
