import CreditScoringMlops.Agent.ToolLoop

/-!
# The declared parameters of a tool

A tool declares its parameters as a schema, and a call of it is checked by Python alone: keyword
arguments are bound to the parameters of the handler, by name and not by type. So arguments that do
not conform are refused only if a name is unknown to the handler, and a gated tool does not look at
its arguments at all.
-/

namespace CreditScoringMlops.Agent

open Python Interaction Promotion Data

/-! ## Conforming to a schema -/

/-- A value of a declared type without parts; only strings are declared so. -/
def conformsScalar (declared : Dict) : Json → Bool
  | .str _ => true
  | _ => !declared.isStrAt "type" "string"

/-- The items of an array. -/
def conformsItems (declared : Dict) (items : List Json) : Bool :=
  match declared.get? "items" with
  | some (.obj item) => items.all (conformsScalar item)
  | _ => true

/-- A value of a declared property: a string for a string property, an array of such items for an
array property. -/
def conformsProperty (declared : Dict) (value : Json) : Bool :=
  if declared.isStrAt "type" "array" then
    match value with
    | .arr items => conformsItems declared items
    | _ => false
  else conformsScalar declared value

/-- The declared properties. -/
def declaredProperties (parameters : Dict) : Dict :=
  match parameters.get? "properties" with
  | some (.obj properties) => properties
  | _ => []

/-- Other properties are declared to be refused. -/
def refusesOthers (parameters : Dict) : Bool :=
  match parameters.get? "additionalProperties" with
  | some (.bool allowed) => !allowed
  | _ => false

/-- Arguments conform if every one is declared, and has its declared type. -/
def conforms (parameters arguments : Dict) : Bool :=
  arguments.all fun argument =>
    match (declaredProperties parameters).get? argument.1 with
    | some (.obj declared) => conformsProperty declared argument.2
    | some _ => true
    | none => !refusesOthers parameters

namespace ToolRegistry

/-- `execute` checks the arguments of a tool: it calls the handler only if they conform, and raises
without calling it otherwise. -/
def Checks (registry : ToolRegistry) (tool : RegisteredTool) (arguments : Dict) : Prop :=
  ∀ (log : SessionLog) (result : Except PyExc ToolResult),
    (registry.execute tool.name (.obj arguments)).Converses log result →
    (log.invocations ≠ [] → conforms tool.parameters arguments) ∧
      (conforms tool.parameters arguments = false →
        (∃ exc, result = .error exc) ∧ log.invocations = [])

variable {registry : ToolRegistry} {tool : RegisteredTool}

/-- A tool of a registry is found under its name. -/
theorem get_of_mem (htool : tool ∈ registry.tools.items) : registry.get tool.name = .ok tool := by
  rw [get, Keyed.find?_key_of_mem htool]

/-- The arguments of a registered tool are checked exactly if they conform, or the tool is not gated
and they cannot be bound to the parameters of its handler. -/
theorem checks_iff (htool : tool ∈ registry.tools.items) (arguments : Dict) :
    registry.Checks tool arguments ↔ conforms tool.parameters arguments ∨
      tool.requiresHumanApproval = false ∧ ∃ exc, tool.bind arguments = .error exc := by
  have hget := get_of_mem htool
  constructor
  · intro hchecks
    by_cases hconforms : conforms tool.parameters arguments
    · exact .inl hconforms
    refine .inr ?_
    rw [Bool.not_eq_true] at hconforms
    by_cases hgated : tool.requiresHumanApproval
    · have hconverses : (registry.execute tool.name (.obj arguments)).Converses []
          (.ok (.json (.obj (approvalRequired tool.name)))) := by
        rw [execute_gated hget hgated]
        exact .ret _
      obtain ⟨⟨_, hraises⟩, -⟩ := (hchecks _ _ hconverses).2 hconforms
      cases hraises
    · refine ⟨Bool.eq_false_iff.mpr hgated, ?_⟩
      cases hbind : tool.bind arguments with
      | error exc => exact ⟨exc, rfl⟩
      | ok _ =>
        -- a handler that returns is a conversation without an exception
        have hconverses : (registry.execute tool.name (.obj arguments)).Converses
            [⟨.invoke tool arguments, .ok (.json .null)⟩] (.ok (.json .null)) := by
          rw [execute_ungated hget hgated, callHandler_bound hbind]
          exact .perform _ _ (.ret _)
        obtain ⟨⟨_, hraises⟩, -⟩ := (hchecks _ _ hconverses).2 hconforms
        cases hraises
  · rintro (hconforms | ⟨hgated, exc, hbind⟩) log result hconverses
    · refine ⟨fun _ => hconforms, fun hnot => ?_⟩
      rw [hconforms] at hnot
      cases hnot
    · rw [execute_ungated hget (Bool.eq_false_iff.mp hgated), callHandler_unbound hbind] at hconverses
      obtain ⟨rfl, rfl⟩ := Program.converses_raise.mp hconverses
      exact ⟨fun hcalled => (hcalled rfl).elim, fun _ => ⟨⟨exc, rfl⟩, rfl⟩⟩

end ToolRegistry

/-! ## The default registry -/

/-- Keyword arguments cannot be bound exactly if one has no parameter. -/
theorem bindKeywords_error_iff {method : String} {parameters : List String} {arguments : Dict} :
    (∃ exc, bindKeywords method parameters arguments = .error exc) ↔
      ∃ argument ∈ arguments, argument.1 ∉ parameters := by
  induction arguments with
  | nil => simp [bindKeywords]
  | cons argument arguments ih =>
    obtain ⟨name, value⟩ := argument
    by_cases hname : name ∈ parameters
    · rw [bindKeywords, if_pos hname, ih]
      simp [hname]
    · refine iff_of_true ?_ ⟨(name, value), List.mem_cons_self, hname⟩
      rw [bindKeywords, if_neg hname]
      split <;> exact ⟨_, rfl⟩

section

variable {conversions : Conversions} {monitoring : MonitoringTools} {mlflow : MlflowTools}
  {kubernetes : KubernetesTools} {registry : ToolRegistry}

/-- The handlers of the default tools have the declared parameters. -/
theorem defaultTools_bind {tool : RegisteredTool}
    (htool : tool ∈ defaultTools conversions monitoring mlflow kubernetes) :
    tool.requiresHumanApproval = false ∧ ∃ method, ∀ arguments, tool.bind arguments =
      bindKeywords method ((declaredProperties tool.parameters).map (·.1)) arguments := by
  simp only [defaultTools, List.mem_cons, List.not_mem_nil, or_false] at htool
  obtain rfl | rfl | rfl | rfl := htool <;> exact ⟨rfl, _, fun _ => rfl⟩

/-- So the default registry checks arguments exactly if they conform or one is not declared. -/
theorem checks_default_iff
    (h : buildDefaultRegistry conversions monitoring mlflow kubernetes = .ok registry)
    {tool : RegisteredTool} (htool : tool ∈ registry.tools.items) (arguments : Dict) :
    registry.Checks tool arguments ↔ conforms tool.parameters arguments ∨
      ∃ argument ∈ arguments, argument.1 ∉ (declaredProperties tool.parameters).map (·.1) := by
  obtain ⟨hgated, method, hbind⟩ := defaultTools_bind (ToolRegistry.mem_of_ofList h htool)
  rw [ToolRegistry.checks_iff htool, hbind, bindKeywords_error_iff]
  exact or_congr_right (and_iff_right hgated)

/-- `execute` checks the arguments of a tool exactly if they conform, or the tool is not gated and
they cannot be bound to the parameters of its handler; for the tools of the default registry the
latter is to pass a property that is not declared. -/
theorem arguments_checked_iff {tool : RegisteredTool} (htool : tool ∈ registry.tools.items)
    (arguments : Dict) :
    (registry.Checks tool arguments ↔ conforms tool.parameters arguments ∨
      tool.requiresHumanApproval = false ∧ ∃ exc, tool.bind arguments = .error exc) ∧
    (buildDefaultRegistry conversions monitoring mlflow kubernetes = .ok registry →
      (registry.Checks tool arguments ↔ conforms tool.parameters arguments ∨
        ∃ argument ∈ arguments, argument.1 ∉ (declaredProperties tool.parameters).map (·.1))) :=
  ⟨ToolRegistry.checks_iff htool arguments, fun h => checks_default_iff h htool arguments⟩

end

/-- The default registry has a tool with the parameters of a plan. -/
theorem exists_planTool : ∃ registry, buildDefaultRegistry ToolCallingAgent.echoConversions =
    .ok registry ∧ ∃ tool ∈ registry.tools.items, tool.parameters = planParameters ∧
      tool.requiresHumanApproval = false ∧
      tool.bind = bindKeywords "KubernetesTools.build_training_job_plan"
        ["reason", "drifted_features"] := by
  obtain ⟨registry, hbuild, hitems⟩ := buildDefaultRegistry_ok
  refine ⟨registry, hbuild, ?_⟩
  rw [hitems]
  exact ⟨_, List.mem_cons_of_mem _ (List.mem_cons_of_mem _ (List.mem_cons_of_mem _
    List.mem_cons_self)), rfl, rfl, rfl⟩

/-- A plan with a reason is checked. -/
theorem arguments_checked_reason : ∃ registry, buildDefaultRegistry ToolCallingAgent.echoConversions =
    .ok registry ∧ ∃ tool ∈ registry.tools.items, tool.parameters = planParameters ∧
      registry.Checks tool [("reason", .str "drift")] := by
  obtain ⟨registry, hbuild, tool, htool, hparameters, -⟩ := exists_planTool
  refine ⟨registry, hbuild, tool, htool, hparameters, ?_⟩
  refine ((arguments_checked_iff htool _).2 hbuild).mpr (.inl ?_)
  rw [hparameters]
  rfl

/-- A plan with a text for an array is not: the handler is called, and splits it into characters. -/
theorem arguments_not_checked : ∃ registry, buildDefaultRegistry ToolCallingAgent.echoConversions =
    .ok registry ∧ ∃ tool ∈ registry.tools.items, tool.parameters = planParameters ∧
      ¬registry.Checks tool [("drifted_features", .str "abc")] ∧
      (Json.str "abc").toList = .ok [.str "a", .str "b", .str "c"] := by
  obtain ⟨registry, hbuild, tool, htool, hparameters, -, hbind⟩ := exists_planTool
  refine ⟨registry, hbuild, tool, htool, hparameters, fun hchecks => ?_, rfl⟩
  obtain hconforms | ⟨-, exc, hexc⟩ := (ToolRegistry.checks_iff htool _).mp hchecks
  · rw [hparameters] at hconforms
    cases hconforms
  · rw [hbind] at hexc
    cases hexc

end CreditScoringMlops.Agent
