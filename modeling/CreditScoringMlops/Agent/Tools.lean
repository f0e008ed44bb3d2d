import CreditScoringMlops.Agent.Effects
import CreditScoringMlops.Promotion.MlflowTools

/-!
# The tools of the LLM

A registry offers the LLM a list of tools under unique names. The four tools of the default registry
read files and the MLflow server; planning a training Job only describes it.

A session with the LLM is a program over operations of its own, one of which is a call of a handler.
`SessionOp.implement` says what they come to in the service.
-/

namespace CreditScoringMlops.Agent

open Python Interaction ControlPlane Promotion Data

/-- The operations that change no table, no registry and no Job. -/
def AgentOp.ReadOnly : AgentOp → Prop
  | control _ => False
  | mlflow op => op.ReadOnly
  | _ => True

/-! ## The tools -/

/-- `MonitoringTools`. -/
structure MonitoringTools where
  signalPath : String := "reports/retrain_signal.json"

namespace MonitoringTools

/-- The signal when there is none to read. -/
def unavailable (reason : String) : Dict :=
  [("available", .bool false), ("retrain_required", .bool false), ("reason", .str reason),
    ("drifted_features", .arr [])]

/-- The signal that was read. -/
def available (signal : Dict) : Dict :=
  [("available", .bool true),
    ("retrain_required", .bool ((signal.get? "retrain_required").getD (.bool false)).truthy),
    ("reason", (signal.get? "reason").getD (.str "Unknown")),
    ("drifted_features", (signal.get? "drifted_features").getD (.arr []))]

/-- What is made of the text of the file: only a `JSONDecodeError` is caught. -/
def ofText (conversions : Conversions) (text : String) : Except PyExc Dict :=
  match conversions.loads text with
  | .error (.jsonDecodeError message) =>
    .ok (unavailable s!"Failed to read retrain signal: {message}")
  | .error exc => .error exc
  | .ok (.obj signal) => .ok (available signal)
  | .ok value => .error (value.noAttribute "get")

/-- `get_retrain_signal`. -/
def getRetrainSignal (tools : MonitoringTools) (conversions : Conversions) : AgentProgram Dict := do
  if ← ofExcept (← ask (.pathExists tools.signalPath)) then
    match ← ask (.readText tools.signalPath) with
    | .error (.osError message) => return unavailable s!"Failed to read retrain signal: {message}"
    | .error (.raised exc) => raise exc
    | .ok text => ofExcept (ofText conversions text)
  else return unavailable "Retrain signal file does not exist"

/-- Reading the signal reads only. -/
theorem getRetrainSignal_uses (tools : MonitoringTools) (conversions : Conversions) :
    (tools.getRetrainSignal conversions).Uses AgentOp.ReadOnly := by
  unfold getRetrainSignal
  refine .bind (Program.uses_request trivial) fun found => ?_
  refine .bind (Program.uses_ofExcept found) fun found => ?_
  split
  · refine .bind (Program.uses_request trivial) fun text => ?_
    split
    · trivial
    · trivial
    · exact Program.uses_ofExcept _
  · trivial

end MonitoringTools

/-- `KubernetesTools`. -/
structure KubernetesTools where
  manifestPath : String := "k8s/jobs/model-training-job.yaml"
  «namespace» : String := "ai-engineering"
  jobName : String := "credit-model-training"

namespace KubernetesTools

/-- The plan without a manifest. -/
def noManifest (tools : KubernetesTools) : Dict :=
  [("available", .bool false), ("action", .str "manual_review"),
    ("reason", .str s!"Training manifest not found: {tools.manifestPath}"),
    ("requires_human_approval", .bool true)]

/-- `build_training_job_plan`. -/
def buildTrainingJobPlan (tools : KubernetesTools)
    (reason : Json := .str "Retraining requested by the monitoring workflow")
    (driftedFeatures : Json := .null) : AgentProgram Dict := do
  if ← ofExcept (← ask (.pathExists tools.manifestPath)) then
    let features ← ofExcept (if driftedFeatures.truthy then driftedFeatures.toList else .ok [])
    return [("available", .bool true), ("action", .str "create_training_job"),
      ("namespace", .str tools.namespace), ("job_name", .str tools.jobName),
      ("manifest_path", .str tools.manifestPath), ("reason", reason),
      ("drifted_features", .arr features), ("requires_human_approval", .bool true),
      ("execution", .str "approval_gated")]
  else return tools.noManifest

/-- Planning a Job reads only. -/
theorem buildTrainingJobPlan_uses (tools : KubernetesTools) (reason driftedFeatures : Json) :
    (tools.buildTrainingJobPlan reason driftedFeatures).Uses AgentOp.ReadOnly := by
  unfold buildTrainingJobPlan
  refine .bind (Program.uses_request trivial) fun found => ?_
  refine .bind (Program.uses_ofExcept found) fun found => ?_
  split
  · exact .bind (Program.uses_ofExcept _) fun _ => trivial
  · trivial

end KubernetesTools

/-- A program that only reads the MLflow registry reads only. -/
theorem onMlflow_uses {A : Type} {p : MlflowProgram A} (hp : p.Uses MlflowOp.ReadOnly) :
    (onMlflow p).Uses AgentOp.ReadOnly := by
  refine hp.translate fun op hop => ?_
  exact Program.uses_request (show AgentOp.ReadOnly (.mlflow op) from hop)

/-! ## Registries -/

/-- A Python object that is no JSON value: what `in`, `.get` and `json.dumps(..., default=str)` make
of it, and what is stored of it in the audit trail. What `.get` returns stands for what an audit
event makes of it, if it is no JSON value either. -/
structure PyObject where
  contains : String → Except PyExc Bool
  get : String → Except PyExc Json
  dumped : Except PyExc String
  stored : Json

/-- What a handler returns. -/
inductive ToolResult where
  | json (value : Json)
  | object (o : PyObject)

namespace ToolResult

/-- `"text" in result`. -/
def hasMember (text : String) : ToolResult → Except PyExc Bool
  | json value => value.hasMember text
  | object o => o.contains text

/-- `result.get(key)`. -/
def get (key : String) : ToolResult → Except PyExc Json
  | json (.obj fields) => .ok ((Dict.get? fields key).getD .null)
  | json value => .error (value.noAttribute "get")
  | object o => o.get key

/-- `json.dumps(result, ensure_ascii=False, default=str)`. -/
def dumps (conversions : Conversions) : ToolResult → Except PyExc String
  | json value => conversions.dumps value
  | object o => o.dumped

/-- The result as a payload holds it. -/
def stored : ToolResult → Json
  | json value => value
  | object o => o.stored

end ToolResult

/-- A tool exposed to the LLM. `bind` is the binding of keyword arguments to the parameters of the
handler, which Python does before the handler runs. -/
structure RegisteredTool where
  name : String
  description : String
  parameters : Dict
  bind : Dict → Except PyExc Unit
  handler : Dict → AgentProgram ToolResult
  requiresHumanApproval : Bool := false

/-- The tools of a registry, in order of registration; none has a blank name. -/
structure ToolRegistry where
  tools : Keyed RegisteredTool.name
  named : ∀ tool ∈ tools.items, strip tool.name.toList ≠ []

namespace ToolRegistry

/-- The registry without tools. -/
def empty : ToolRegistry := ⟨.empty, by simp [Keyed.empty]⟩

/-- `register`. -/
def register (registry : ToolRegistry) (tool : RegisteredTool) : Except PyExc ToolRegistry :=
  if hname : strip tool.name.toList = [] then .error (.valueError "Tool name must not be empty")
  else if (registry.tools.find? tool.name).isSome then
    .error (.valueError s!"Tool already registered: {tool.name}")
  else .ok
    { tools := registry.tools.insert tool
      named := by
        intro other hother
        obtain hold | rfl := Keyed.mem_of_mem_insert hother
        · exact registry.named other hold
        · exact hname }

/-- `ToolRegistry(tools)`. -/
def ofList (tools : List RegisteredTool) : Except PyExc ToolRegistry := tools.foldlM register empty

/-- `get`. -/
def get (registry : ToolRegistry) (name : String) : Except PyExc RegisteredTool :=
  match registry.tools.find? name with
  | some tool => .ok tool
  | none => .error (.keyError s!"Unknown tool: {name}")

/-- `definitions`. -/
def definitions (registry : ToolRegistry) : List Dict :=
  registry.tools.items.map fun tool =>
    [("type", .str "function"),
      ("function", .obj [("name", .str tool.name), ("description", .str tool.description),
        ("parameters", .obj tool.parameters)])]

/-- The answer to a call that a human has to approve. -/
def approvalRequired (name : String) : Dict :=
  [("executed", .bool false), ("requires_human_approval", .bool true), ("tool", .str name),
    ("reason", .str "This tool cannot be executed by the LLM without approval.")]

/-- Tools with new names register one after the other. -/
theorem foldlM_register {tools : List RegisteredTool} {start : ToolRegistry}
    (hnamed : ∀ tool ∈ tools, strip tool.name.toList ≠ [])
    (hnew : ((start.tools.items ++ tools).map (·.name)).Nodup) : ∃ registry,
      tools.foldlM register start = .ok registry ∧
        registry.tools.items = start.tools.items ++ tools := by
  induction tools generalizing start with
  | nil => exact ⟨start, rfl, (List.append_nil _).symm⟩
  | cons first rest ih =>
    rw [List.forall_mem_cons] at hnamed
    have hfirst : first.name ∉ start.tools.items.map (·.name) := by
      rw [List.map_append] at hnew
      exact fun hmem => List.disjoint_of_nodup_append hnew hmem List.mem_cons_self
    have hitems := Keyed.items_insert hfirst
    have hregister : ∃ next, register start first = .ok next ∧
        next.tools = start.tools.insert first := by
      rw [register, dif_neg hnamed.1, if_neg (by simp [Keyed.find?_eq_none hfirst])]
      exact ⟨_, rfl, rfl⟩
    obtain ⟨next, hnext, htools⟩ := hregister
    have hlater : ((next.tools.items ++ rest).map (·.name)).Nodup := by
      rw [htools, hitems, List.append_assoc, List.singleton_append]
      exact hnew
    obtain ⟨registry, hrest, hall⟩ := ih hnamed.2 hlater
    refine ⟨registry, ?_, ?_⟩
    · rw [List.foldlM_cons]
      exact bind_eq_ok.mpr ⟨next, hnext, hrest⟩
    · rw [hall, htools, hitems, List.append_assoc, List.singleton_append]

/-- So a registry can be made of tools with distinct names that are not blank. -/
theorem ofList_ok {tools : List RegisteredTool}
    (hnamed : ∀ tool ∈ tools, strip tool.name.toList ≠ []) (hnodup : (tools.map (·.name)).Nodup) :
    ∃ registry, ofList tools = .ok registry ∧ registry.tools.items = tools :=
  foldlM_register hnamed hnodup

/-- Every tool of a registry has been registered. -/
theorem mem_of_foldlM {tools : List RegisteredTool} {start registry : ToolRegistry}
    (h : tools.foldlM register start = .ok registry) {tool : RegisteredTool}
    (htool : tool ∈ registry.tools.items) : tool ∈ start.tools.items ∨ tool ∈ tools := by
  induction tools generalizing start with
  | nil =>
    obtain rfl := Except.ok.inj h
    exact .inl htool
  | cons first rest ih =>
    rw [List.foldlM_cons] at h
    obtain ⟨next, hnext, hrest⟩ := bind_eq_ok.mp h
    obtain hmem | hmem := ih hrest
    · unfold register at hnext
      split at hnext
      · cases hnext
      split at hnext
      · cases hnext
      · rw [← Except.ok.inj hnext] at hmem
        refine (Keyed.mem_of_mem_insert hmem).imp_right fun heq => ?_
        rw [heq]
        exact List.mem_cons_self
    · exact .inr (List.mem_cons_of_mem _ hmem)

/-- So every tool of a registry is one of the tools it was made of. -/
theorem mem_of_ofList {tools : List RegisteredTool} {registry : ToolRegistry}
    (h : ofList tools = .ok registry) {tool : RegisteredTool}
    (htool : tool ∈ registry.tools.items) : tool ∈ tools :=
  (mem_of_foldlM h htool).resolve_left List.not_mem_nil

/-- What is found under a name is a tool of the registry. -/
theorem mem_of_get {registry : ToolRegistry} {name : String} {tool : RegisteredTool}
    (h : registry.get name = .ok tool) : tool ∈ registry.tools.items := by
  unfold get at h
  split at h
  · rename_i found hfind
    rw [← Except.ok.inj h]
    exact Keyed.mem_of_find? hfind
  · cases h

end ToolRegistry

/-! ## Sessions -/

/-- The operations of a session with the LLM. The error of an audit event is any value; `finish`
counts the run and its duration, and its failure if it names a reason. -/
inductive SessionOp where
  | newTraceId
  | record (event : AuditRecord) (error : Json)
  | importOpenai
  | openaiClient (baseUrl apiKey : String)
  | chat (request : ChatRequest)
  | invoke (tool : RegisteredTool) (arguments : Dict)
  | finish (status : String) (failureReason : Option String)

/-- The answers. -/
abbrev SessionOp.Reply : SessionOp → Type
  | newTraceId => String
  | record _ _ => Except PyExc AuditEvent
  | importOpenai => Except PyExc Bool
  | openaiClient _ _ => Except PyExc Unit
  | chat _ => Except PyExc (List ChatMessage)
  | invoke _ _ => Except PyExc ToolResult
  | finish _ _ => Unit

/-- Programs of a session. -/
abbrev Session (A : Type) := Program SessionOp SessionOp.Reply PyExc A

/-- `audit.record(..., error=error)`: an event has no error, or a text. -/
def recordError (event : AuditRecord) : Json → AgentProgram (Except PyExc AuditEvent)
  | .null => ask (.control (.record event))
  | .str error => ask (.control (.record { event with error }))
  | _ => return .error (.validationError "1 validation error for AuditEvent")

/-- What the service does for an operation of a session. -/
def SessionOp.implement : (op : SessionOp) → AgentProgram op.Reply
  | newTraceId => ask (.control .uuid4)
  | record event error => recordError event error
  | importOpenai => ask .importOpenai
  | openaiClient baseUrl apiKey => ask (.openaiClient baseUrl apiKey)
  | chat request => ask (.chat request)
  | invoke tool arguments => (tool.handler arguments).attempt
  | finish _ _ => return ()

namespace ToolRegistry

/-- The end of `execute`: `tool.handler(**arguments)`. -/
def callHandler (tool : RegisteredTool) (arguments : Dict) : Session ToolResult := do
  Program.ofExcept (tool.bind arguments)
  Program.ofExcept (← Program.request (.invoke tool arguments))

/-- `execute`. -/
def execute (registry : ToolRegistry) (name : String) (arguments : Json) : Session ToolResult := do
  let tool ← Program.ofExcept (registry.get name)
  match arguments with
  | .obj arguments =>
    if tool.requiresHumanApproval then return .json (.obj (approvalRequired name))
    else callHandler tool arguments
  | _ => Program.raise (.typeError "Tool arguments must be a JSON object")

section

variable {registry : ToolRegistry} {name : String} {tool : RegisteredTool} {arguments : Dict}

/-- A gated tool is answered without its handler. -/
theorem execute_gated (hget : registry.get name = .ok tool) (hgated : tool.requiresHumanApproval) :
    registry.execute name (.obj arguments) = .ret (.json (.obj (approvalRequired name))) := by
  rw [execute, hget]
  exact if_pos hgated

/-- Any other tool is called. -/
theorem execute_ungated (hget : registry.get name = .ok tool)
    (hgated : ¬tool.requiresHumanApproval) :
    registry.execute name (.obj arguments) = callHandler tool arguments := by
  rw [execute, hget]
  exact if_neg hgated

/-- Arguments that cannot be bound raise before the handler runs. -/
theorem callHandler_unbound {exc : PyExc} (hbind : tool.bind arguments = .error exc) :
    callHandler tool arguments = .raise exc := by
  rw [callHandler, hbind]
  rfl

/-- Otherwise it runs, once. -/
theorem callHandler_bound {u : Unit} (hbind : tool.bind arguments = .ok u) :
    callHandler tool arguments = .perform (.invoke tool arguments) Program.ofExcept := by
  rw [callHandler, hbind]
  rfl

end

/-- Calls of the handlers of a registry. -/
def Calls (registry : ToolRegistry) : SessionOp → Prop
  | .invoke tool _ => tool ∈ registry.tools.items
  | _ => False

/-- A call of a tool calls a handler of the registry, or nothing. -/
theorem execute_uses (registry : ToolRegistry) (name : String) (arguments : Json) :
    (registry.execute name arguments).Uses registry.Calls := by
  unfold execute
  refine (Program.obeys_bind _ _).mpr (Program.obeys_ofExcept _ (fun tool htool => ?_) ?_)
  · cases arguments with
    | obj arguments =>
      dsimp only
      split
      · trivial
      · unfold callHandler
        have hcalls : registry.Calls (.invoke tool arguments) := mem_of_get htool
        exact Program.Uses.bind (Program.uses_ofExcept _) fun _ =>
          Program.Uses.bind (Program.uses_request hcalls) fun _ => Program.uses_ofExcept _
    | _ => trivial
  · exact fun _ _ => trivial

end ToolRegistry

/-! ## The default registry -/

/-- The binding of keyword arguments to the parameters of a method. -/
def bindKeywords (method : String) (parameters : List String) : Dict → Except PyExc Unit
  | [] => .ok ()
  | (name, _) :: rest =>
    if name ∈ parameters then bindKeywords method parameters rest
    else if name = "self" then
      .error (.typeError s!"{method}() got multiple values for argument 'self'")
    else .error (.typeError s!"{method}() got an unexpected keyword argument '{name}'")

/-- The schema of a tool without parameters. -/
def noParameters : Dict :=
  [("type", .str "object"), ("properties", .obj []), ("additionalProperties", .bool false)]

/-- The schema of the planning tool. -/
def planParameters : Dict :=
  [("type", .str "object"),
    ("properties", .obj [("reason", .obj [("type", .str "string")]),
      ("drifted_features",
        .obj [("type", .str "array"), ("items", .obj [("type", .str "string")])])]),
    ("additionalProperties", .bool false)]

/-- The tools that `build_default_registry` registers. -/
def defaultTools (conversions : Conversions) (monitoring : MonitoringTools) (mlflow : MlflowTools)
    (kubernetes : KubernetesTools) : List RegisteredTool :=
  [{ name := "monitoring_get_retrain_signal"
     description := "Read the current Evidently retraining signal. Read-only."
     parameters := noParameters
     bind := bindKeywords "MonitoringTools.get_retrain_signal" []
     handler := fun _ => return .json (.obj (← monitoring.getRetrainSignal conversions)) },
   { name := "mlflow_get_champion_model"
     description := "Read the current champion model metadata from MLflow. Read-only."
     parameters := noParameters
     bind := bindKeywords "MLflowTools.get_champion_model" []
     handler := fun _ =>
       return .json (.obj ((← onMlflow mlflow.getChampionModel).toDict mlflow)) },
   { name := "mlflow_compare_latest_models"
     description :=
       "Compare the latest CatBoost, LightGBM and XGBoost runs in MLflow. Read-only."
     parameters := noParameters
     bind := bindKeywords "MLflowTools.compare_latest_models" []
     handler := fun _ => do
       let rows ← onMlflow mlflow.compareLatestModels
       return .json (.arr (rows.map fun row => .obj row.toDict)) },
   { name := "kubernetes_get_training_job_plan"
     description := "Generate a Kubernetes training-job plan for human review. " ++
       "This tool does not execute Kubernetes actions."
     parameters := planParameters
     bind := bindKeywords "KubernetesTools.build_training_job_plan" ["reason", "drifted_features"]
     handler := fun arguments => do
       let plan ← kubernetes.buildTrainingJobPlan
         ((arguments.get? "reason").getD
           (.str "Retraining requested by the monitoring workflow"))
         ((arguments.get? "drifted_features").getD .null)
       return .json (.obj plan) }]

/-- `build_default_registry`. -/
def buildDefaultRegistry (conversions : Conversions) (monitoring : MonitoringTools := {})
    (mlflow : MlflowTools := {}) (kubernetes : KubernetesTools := {}) :
    Except PyExc ToolRegistry :=
  ToolRegistry.ofList (defaultTools conversions monitoring mlflow kubernetes)

section

variable {conversions : Conversions} {monitoring : MonitoringTools} {mlflow : MlflowTools}
  {kubernetes : KubernetesTools}

/-- The default registry can be built, and holds these tools. -/
theorem buildDefaultRegistry_ok : ∃ registry,
    buildDefaultRegistry conversions monitoring mlflow kubernetes = .ok registry ∧
      registry.tools.items = defaultTools conversions monitoring mlflow kubernetes := by
  have hnames : (defaultTools conversions monitoring mlflow kubernetes).map (·.name) =
      ["monitoring_get_retrain_signal", "mlflow_get_champion_model",
        "mlflow_compare_latest_models", "kubernetes_get_training_job_plan"] := rfl
  refine ToolRegistry.ofList_ok ?_ ?_
  · have hnamed : ∀ name ∈ (defaultTools conversions monitoring mlflow kubernetes).map (·.name),
        strip name.toList ≠ [] := by
      rw [hnames]
      decide +kernel
    exact fun tool htool => hnamed tool.name (List.mem_map_of_mem htool)
  · rw [hnames]
    decide

/-- Whatever arguments the LLM gives them, the default tools read only. -/
theorem defaultTools_uses {tool : RegisteredTool}
    (htool : tool ∈ defaultTools conversions monitoring mlflow kubernetes) (arguments : Dict) :
    (tool.handler arguments).Uses AgentOp.ReadOnly := by
  simp only [defaultTools, List.mem_cons, List.not_mem_nil, or_false] at htool
  obtain rfl | rfl | rfl | rfl := htool <;> refine .bind ?_ fun _ => trivial
  · exact monitoring.getRetrainSignal_uses conversions
  · exact onMlflow_uses mlflow.getChampionModel_uses
  · exact onMlflow_uses mlflow.compareLatestModels_uses
  · exact kubernetes.buildTrainingJobPlan_uses _ _

/-- So do the handlers of the default registry. -/
theorem handler_default_uses {registry : ToolRegistry}
    (h : buildDefaultRegistry conversions monitoring mlflow kubernetes = .ok registry)
    {tool : RegisteredTool} (htool : tool ∈ registry.tools.items) (arguments : Dict) :
    (tool.handler arguments).Uses AgentOp.ReadOnly :=
  defaultTools_uses (ToolRegistry.mem_of_ofList h htool) arguments

end

end CreditScoringMlops.Agent
