import CreditScoringMlops.Agent.AgentApi
import CreditScoringMlops.Interaction.Snapshot

/-!
# The readers of the drift signal

The drift pipeline leaves its signal in a file. The monitoring agent reads it through its tools and
decides on an investigation; the scoring API reads it for a metric. Both look whether there is a
file, and read it as JSON, but they catch different exceptions.
-/

namespace CreditScoringMlops.Agent

open Python Interaction ControlPlane Promotion

/-! ## The readers -/

/-- An event that reaches the agents. -/
structure EngineeringEvent where
  eventType : String
  source : String
  payload : Dict := []
  eventId : String
  createdAt : Time

/-- An `AgentDecision` whose reason is a value of the signal; no type is checked. -/
structure MonitoringDecision where
  action : String
  status : DecisionStatus := .proposed
  reason : Json
  parameters : Dict
  requiresHumanApproval : Bool

/-- `MonitoringAgent`. -/
structure MonitoringAgent where
  tools : MonitoringTools := {}

namespace MonitoringAgent

/-- What is decided on a signal. -/
def decide (event : EngineeringEvent) (signal : Dict) : MonitoringDecision :=
  let features := (Dict.get? signal "drifted_features").getD .null
  if !Dict.truthyAt signal "available" then
    { action := "manual_review"
      reason := .str "Monitoring signal is unavailable, so automated analysis is unsafe."
      parameters := [("event_id", .str event.eventId)], requiresHumanApproval := true }
  else if Dict.truthyAt signal "retrain_required" then
    { action := "propose_retraining", reason := (Dict.get? signal "reason").getD .null
      parameters := [("event_id", .str event.eventId), ("drifted_features", features)]
      requiresHumanApproval := true }
  else
    { action := "no_action", reason := (Dict.get? signal "reason").getD .null
      parameters := [("event_id", .str event.eventId), ("drifted_features", features)]
      requiresHumanApproval := false }

/-- `investigate`. Every key it looks up is there. -/
def investigate (agent : MonitoringAgent) (conversions : Conversions) (event : EngineeringEvent) :
    AgentProgram MonitoringDecision := do
  return decide event (← agent.tools.getRetrainSignal conversions)

end MonitoringAgent

/-- `RETRAIN_SIGNAL_PATH`. -/
def retrainSignalPath : String := "reports/retrain_signal.json"

/-- What `update_retrain_required_metric` makes of the text of the file. -/
def retrainRequired (conversions : Conversions) (text : String) : Except PyExc Bool := do
  match ← conversions.loads text with
  | .obj signal => return ((Dict.get? signal "retrain_required").getD (.bool false)).truthy
  | value => throw (value.noAttribute "get")

/-- The block that `update_retrain_required_metric` guards. -/
def readRetrainRequired (conversions : Conversions) : AgentProgram Bool := do
  match ← ask (.readText retrainSignalPath) with
  | .error (.osError message) => raise (.other message)
  | .error (.raised exc) => raise exc
  | .ok text => ofExcept (retrainRequired conversions text)

/-- `update_retrain_required_metric`, which returns the value that the metric is set to. -/
def updateRetrainRequiredMetric (conversions : Conversions) : AgentProgram ℕ := do
  if ← ofExcept (← ask (.pathExists retrainSignalPath)) then
    match ← (readRetrainRequired conversions).attempt with
    | .ok retrainRequired => return if retrainRequired then 1 else 0
    | .error _ => return 0
  else return 0

/-! ## The file -/

/-- What stands at the path of the signal: something that may not be looked at, nothing, a file that
cannot be opened, or bytes, with what the codec says of them if they are not UTF-8. -/
inductive SignalFile where
  | inaccessible (message : String)
  | missing
  | unreadable (message : String)
  | bytes (content : ByteArray) (codecMessage : String)

/-- Text mode reads every end of a line as a line feed. -/
def universalNewlines : List Char → List Char
  | '\r' :: '\n' :: text => '\n' :: universalNewlines text
  | '\r' :: text => '\n' :: universalNewlines text
  | c :: text => c :: universalNewlines text
  | [] => []

/-- The text of a file that is opened in text mode with the encoding UTF-8. -/
def readUtf8 (content : ByteArray) : Option String :=
  (String.fromUTF8? content).map fun text => String.ofList (universalNewlines text.toList)

namespace SignalFile

/-- The surroundings of a reader. -/
def env : SignalFile → AgentEnv
  | inaccessible message => { found := .error (.permissionError message) }
  | missing => { found := .ok false }
  | unreadable message => { found := .ok true, text := .error (.osError message) }
  | bytes content codecMessage =>
    { found := .ok true
      text := match readUtf8 content with
        | some text => .ok text
        | none => .error (.raised (.unicodeDecodeError codecMessage)) }

/-- The JSON object that the file holds. -/
def object? (conversions : Conversions) : SignalFile → Option Dict
  | bytes content _ =>
    match (readUtf8 content).map conversions.loads with
    | some (.ok (.obj signal)) => some signal
    | _ => none
  | _ => none

/-- A file of bytes holds an object if it is the text of one. -/
theorem object?_bytes {conversions : Conversions} {content : ByteArray} {codecMessage : String}
    {signal : Dict} : (bytes content codecMessage).object? conversions = some signal ↔
      ∃ text, readUtf8 content = some text ∧ conversions.loads text = .ok (.obj signal) := by
  simp only [object?]
  cases readUtf8 content with
  | none => simp
  | some text =>
    simp only [Option.map_some, Option.some.injEq, exists_eq_left']
    split
    · rename_i signal' hloads
      simp [Option.some.inj hloads]
    · rename_i hother
      simp only [reduceCtorEq, false_iff]
      exact fun hloads => hother signal (congrArg some hloads)

/-- What is to be done by the object that the file holds. -/
def safeAction (conversions : Conversions) (file : SignalFile) : String :=
  match file.object? conversions with
  | none => "manual_review"
  | some signal =>
    if Dict.truthyAt signal "retrain_required" then "propose_retraining" else "no_action"

/-- The contents that the tools are prepared for: none, or a text that is an object or no JSON. -/
def Tolerated (conversions : Conversions) : SignalFile → Prop
  | inaccessible _ => False
  | bytes content _ => ∃ text, readUtf8 content = some text ∧
      ((∃ signal, conversions.loads text = .ok (.obj signal)) ∨
        ∃ message, conversions.loads text = .error (.jsonDecodeError message))
  | _ => True

/-- What the tools report of the file. -/
def report (conversions : Conversions) : SignalFile → Except PyExc Dict
  | inaccessible message => .error (.permissionError message)
  | missing => .ok (MonitoringTools.unavailable "Retrain signal file does not exist")
  | unreadable message =>
    .ok (MonitoringTools.unavailable s!"Failed to read retrain signal: {message}")
  | bytes content codecMessage =>
    match readUtf8 content with
    | some text => MonitoringTools.ofText conversions text
    | none => .error (.unicodeDecodeError codecMessage)

end SignalFile

/-! ## What the readers make of it -/

section Readers

variable {A : Type} (process : AgentProcess) (server : MlflowServer) (w : AgentWorld)
  (conversions : Conversions) (file : SignalFile)

/-- The outcome of a reader of the file. -/
def SignalFile.outcome (p : AgentProgram A) : Except PyExc A :=
  (system process server).alone 0 file.env w p

/-- A file of bytes is there, and its text is read. -/
theorem env_bytes {content : ByteArray} {text : String} (h : readUtf8 content = some text)
    (codecMessage : String) :
    (SignalFile.bytes content codecMessage).env = { found := .ok true, text := .ok text } := by
  simp only [SignalFile.env, h]

/-- Bytes that are not UTF-8 cannot be read. -/
theorem env_bytes_of_none {content : ByteArray} (h : readUtf8 content = none)
    (codecMessage : String) :
    (SignalFile.bytes content codecMessage).env =
      { found := .ok true, text := .error (.raised (.unicodeDecodeError codecMessage)) } := by
  simp only [SignalFile.env, h]

/-- The tools report what the file says. -/
theorem outcome_getRetrainSignal (tools : MonitoringTools) :
    file.outcome process server w (tools.getRetrainSignal conversions) =
      file.report conversions := by
  cases file with
  | bytes content codecMessage =>
    unfold SignalFile.outcome
    cases htext : readUtf8 content with
    | none =>
      simp only [env_bytes_of_none htext, SignalFile.report, htext]
      rfl
    | some text =>
      simp only [env_bytes htext, SignalFile.report, htext]
      exact Machine.alone_ofExcept (MonitoringTools.ofText conversions text)
  | _ => rfl

/-- The agent decides on the report. -/
theorem outcome_investigate (agent : MonitoringAgent) (event : EngineeringEvent) :
    file.outcome process server w (agent.investigate conversions event) =
      (file.report conversions).map (MonitoringAgent.decide event) := by
  rw [← outcome_getRetrainSignal process server w conversions file agent.tools]
  exact Machine.alone_map (MonitoringAgent.decide event) (agent.tools.getRetrainSignal conversions)

/-- What the object in a file requires. -/
theorem truthy_getD (signal : Dict) :
    ((Dict.get? signal "retrain_required").getD (.bool false)).truthy =
      Dict.truthyAt signal "retrain_required" := by
  unfold Dict.truthyAt
  cases Dict.get? signal "retrain_required" <;> rfl

/-- A text is turned into a metric, whatever `json.loads` makes of it. -/
theorem outcome_metric_of_text {content : ByteArray} {text : String}
    (htext : readUtf8 content = some text) (codecMessage : String) :
    (SignalFile.bytes content codecMessage).outcome process server w
        (updateRetrainRequiredMetric conversions) =
      .ok (if retrainRequired conversions text = .ok true then 1 else 0) := by
  unfold SignalFile.outcome
  rw [env_bytes htext]
  change (system process server).alone 0 _ w (Program.bind (Program.attempt
    (.ofExcept (retrainRequired conversions text))) _) = _
  cases retrainRequired conversions text with
  | error exc => rfl
  | ok required => cases required <;> rfl

/-- The text requires a retraining if it is an object that does. -/
theorem retrainRequired_eq_true_iff {text : String} :
    retrainRequired conversions text = .ok true ↔
      ∃ signal, conversions.loads text = .ok (.obj signal) ∧
        Dict.truthyAt signal "retrain_required" := by
  unfold retrainRequired
  cases conversions.loads text with
  | error exc => simp [bind, Except.bind]
  | ok value =>
    cases value with
    | obj signal => simp [bind, Except.bind, pure, Except.pure, truthy_getD]
    | _ => simp [bind, Except.bind, throw, throwThe, MonadExceptOf.throw]

/-- The metric says whether the file holds an object that requires a retraining. -/
theorem outcome_updateRetrainRequiredMetric :
    file.outcome process server w (updateRetrainRequiredMetric conversions) = .ok 1 ↔
      ∃ signal, file.object? conversions = some signal ∧
        Dict.truthyAt signal "retrain_required" := by
  cases file with
  | bytes content codecMessage =>
    simp only [SignalFile.object?_bytes]
    cases htext : readUtf8 content with
    | none =>
      unfold SignalFile.outcome
      rw [env_bytes_of_none htext]
      simp only [reduceCtorEq, false_and, exists_false, iff_false]
      exact fun h => nomatch h
    | some text =>
      rw [outcome_metric_of_text process server w conversions htext]
      simp only [Option.some.injEq, exists_eq_left', ← retrainRequired_eq_true_iff]
      split <;> simp [*]
  | _ => exact ⟨fun h => (nomatch h), fun ⟨_, h, _⟩ => (nomatch h)⟩

/-- The tools make an unavailable report of a text that is no JSON, and report on an object. -/
theorem ofText_eq_ok_iff {text : String} {report : Dict} :
    MonitoringTools.ofText conversions text = .ok report ↔
      (∃ message, conversions.loads text = .error (.jsonDecodeError message) ∧
        report = MonitoringTools.unavailable s!"Failed to read retrain signal: {message}") ∨
      ∃ signal, conversions.loads text = .ok (.obj signal) ∧
        report = MonitoringTools.available signal := by
  unfold MonitoringTools.ofText
  split
  · rename_i message hloads
    simp [hloads, eq_comm]
  · rename_i exc hexc hloads
    simp only [hloads, reduceCtorEq, false_and, exists_false, or_false, false_iff, not_exists,
      not_and, Except.error.injEq]
    exact fun message hmessage => absurd hmessage (hexc message)
  · rename_i signal hloads
    simp [hloads, eq_comm]
  · rename_i value hvalue hloads
    simp only [hloads, reduceCtorEq, false_and, exists_false, false_or, false_iff, not_exists,
      not_and, Except.ok.injEq]
    exact fun signal hsignal => absurd hsignal (hvalue signal)

/-- The decision on a signal that is not available. -/
theorem decide_unavailable (event : EngineeringEvent) (reason : String) :
    (MonitoringAgent.decide event (MonitoringTools.unavailable reason)).action =
      "manual_review" := rfl

/-- The decision on one that is. -/
theorem decide_available (event : EngineeringEvent) (signal : Dict) :
    (MonitoringAgent.decide event (MonitoringTools.available signal)).action =
      if Dict.truthyAt signal "retrain_required" then "propose_retraining" else "no_action" := by
  have hrequired : Dict.truthyAt (MonitoringTools.available signal) "retrain_required" =
      Dict.truthyAt signal "retrain_required" := truthy_getD signal
  have havailable : Dict.truthyAt (MonitoringTools.available signal) "available" = true := rfl
  simp only [MonitoringAgent.decide, hrequired, havailable, Bool.not_true, Bool.false_eq_true,
    if_false]
  split <;> rfl

/-- What the tools report: nothing that requires a retraining, or the object in the file. -/
theorem report_eq_ok {report : Dict} (h : file.report conversions = .ok report) :
    file.Tolerated conversions ∧
      ((∃ reason, report = MonitoringTools.unavailable reason ∧
          file.object? conversions = none) ∨
        ∃ signal, report = MonitoringTools.available signal ∧
          file.object? conversions = some signal) := by
  cases file with
  | inaccessible message => cases h
  | missing => exact ⟨trivial, .inl ⟨_, (Except.ok.inj h).symm, rfl⟩⟩
  | unreadable message => exact ⟨trivial, .inl ⟨_, (Except.ok.inj h).symm, rfl⟩⟩
  | bytes content codecMessage =>
    cases htext : readUtf8 content with
    | none => simp only [SignalFile.report, htext, reduceCtorEq] at h
    | some text =>
      simp only [SignalFile.report, htext] at h
      rcases (ofText_eq_ok_iff conversions).mp h with ⟨message, hloads, rfl⟩ | ⟨signal, hloads, rfl⟩
      · refine ⟨⟨text, htext, .inr ⟨message, hloads⟩⟩, .inl ⟨_, rfl, ?_⟩⟩
        simp only [SignalFile.object?, htext, Option.map_some, hloads]
      · exact ⟨⟨text, htext, .inl ⟨signal, hloads⟩⟩,
          .inr ⟨signal, rfl, SignalFile.object?_bytes.mpr ⟨text, htext, hloads⟩⟩⟩

/-- They report on every content that they are prepared for. -/
theorem exists_report (h : file.Tolerated conversions) :
    ∃ report, file.report conversions = .ok report := by
  cases file with
  | inaccessible message => cases h
  | missing => exact ⟨_, rfl⟩
  | unreadable message => exact ⟨_, rfl⟩
  | bytes content codecMessage =>
    obtain ⟨text, htext, hloads⟩ := h
    simp only [SignalFile.report, htext]
    rcases hloads with ⟨signal, hloads⟩ | ⟨message, hloads⟩
    · exact ⟨_, (ofText_eq_ok_iff conversions).mpr (.inr ⟨signal, hloads, rfl⟩)⟩
    · exact ⟨_, (ofText_eq_ok_iff conversions).mpr (.inl ⟨message, hloads, rfl⟩)⟩

/-- A file that holds an object is reported on. -/
theorem report_of_object {signal : Dict} (h : file.object? conversions = some signal) :
    file.report conversions = .ok (MonitoringTools.available signal) := by
  cases file with
  | bytes content codecMessage =>
    obtain ⟨text, htext, hloads⟩ := SignalFile.object?_bytes.mp h
    simp only [SignalFile.report, htext]
    exact (ofText_eq_ok_iff conversions).mpr (.inr ⟨signal, hloads, rfl⟩)
  | _ => cases h

/-- A report requires a retraining exactly if the file holds an object that does. -/
theorem report_requires_iff :
    (∃ report, file.report conversions = .ok report ∧ Dict.isTrueAt report "retrain_required") ↔
      ∃ signal, file.object? conversions = some signal ∧
        Dict.truthyAt signal "retrain_required" := by
  have hrequired (signal : Dict) :
      Dict.isTrueAt (MonitoringTools.available signal) "retrain_required" =
        Dict.truthyAt signal "retrain_required" := truthy_getD signal
  constructor
  · rintro ⟨report, hreport, htrue⟩
    obtain ⟨-, ⟨reason, rfl, -⟩ | ⟨signal, rfl, hsignal⟩⟩ := report_eq_ok conversions file hreport
    · cases htrue
    · exact ⟨signal, hsignal, hrequired signal ▸ htrue⟩
  · rintro ⟨signal, hsignal, htrue⟩
    exact ⟨_, report_of_object conversions file hsignal, (hrequired signal).symm ▸ htrue⟩

/-! ## The two readers are fail-safe and agree -/

/-- The agent decides by the object in the file, and the tools report a required retraining exactly
when the metric is set to 1. -/
structure FailSafe (agent : MonitoringAgent) (event : EngineeringEvent) : Prop where
  decides : ∃ decision, file.outcome process server w (agent.investigate conversions event) =
    .ok decision ∧ decision.action = file.safeAction conversions
  agrees : (∃ report, file.outcome process server w (agent.tools.getRetrainSignal conversions) =
      .ok report ∧ Dict.isTrueAt report "retrain_required") ↔
    file.outcome process server w (updateRetrainRequiredMetric conversions) = .ok 1

/-- They are exactly on the contents that the tools are prepared for. -/
theorem readers_failSafe_iff (agent : MonitoringAgent) (event : EngineeringEvent) :
    FailSafe process server w conversions file agent event ↔ file.Tolerated conversions := by
  constructor
  · rintro ⟨⟨decision, hdecision, -⟩, -⟩
    rw [outcome_investigate] at hdecision
    cases hreport : file.report conversions with
    | error exc =>
      rw [hreport] at hdecision
      cases hdecision
    | ok report => exact (report_eq_ok conversions file hreport).1
  · intro h
    obtain ⟨report, hreport⟩ := exists_report conversions file h
    refine ⟨⟨MonitoringAgent.decide event report, ?_, ?_⟩, ?_⟩
    · rw [outcome_investigate, hreport]
      rfl
    · obtain ⟨-, ⟨reason, rfl, hnone⟩ | ⟨signal, rfl, hsignal⟩⟩ :=
        report_eq_ok conversions file hreport
      · rw [decide_unavailable, SignalFile.safeAction, hnone]
      · rw [decide_available, SignalFile.safeAction, hsignal]
    · rw [outcome_getRetrainSignal, outcome_updateRetrainRequiredMetric]
      exact report_requires_iff conversions file

end Readers

/-- What `json.loads` makes of `[]`. -/
def emptyListReader : Conversions where
  loads text := if text = "[]" then .ok (.arr []) else .error (.jsonDecodeError "Expecting value")
  dumps _ := .ok ""
  str _ := ""
  parseFloat _ := none
  excName _ := ""

/-- The file holds the JSON value `[]`, which has no attribute `get`. -/
theorem readers_not_failSafe :
    ¬∀ (process : AgentProcess) (server : MlflowServer) (w : AgentWorld)
      (conversions : Conversions) (file : SignalFile) (agent : MonitoringAgent)
      (event : EngineeringEvent), FailSafe process server w conversions file agent event := by
  intro h
  have hdecides := (h { conversions := emptyListReader } trackingServer
    { registry := ⟨fun _ => none, .empty, .empty, fun _ _ => none⟩ } emptyListReader
    (.bytes "[]".toUTF8 "") {} ⟨"drift", "evidently", [], "e1", 0⟩).decides
  obtain ⟨decision, hdecision, -⟩ := hdecides
  have htext : readUtf8 "[]".toUTF8 = some "[]" := by decide +kernel
  rw [outcome_investigate, SignalFile.report] at hdecision
  simp only [htext] at hdecision
  cases hdecision

end CreditScoringMlops.Agent
