import CreditScoringMlops.Agent.ToolLoop

/-!
# The used tools of a run

Whether a call counts as used is decided where no exception is raised, and whether it counts as
completed where its result has no error. A gated tool returns without running, and a handler can
return an object with an error; exactly these two kinds of calls are reported as used without having
run and completed.
-/

namespace CreditScoringMlops.Agent

open Python Interaction ControlPlane

/-! ## Two selections of a list -/

section

variable {A B : Type} {f g : A → Option B} {l : List A}

/-- A selection that keeps less is a sublist. -/
theorem filterMap_sublist (h : ∀ a ∈ l, g a = none ∨ g a = f a) :
    (l.filterMap g).Sublist (l.filterMap f) := by
  induction l with
  | nil => exact .refl _
  | cons a l ih =>
    rw [List.forall_mem_cons] at h
    cases hf : f a with
    | none =>
      have hg : g a = none := h.1.elim id fun hg => hg.trans hf
      rw [List.filterMap_cons_none hf, List.filterMap_cons_none hg]
      exact ih h.2
    | some b =>
      rw [List.filterMap_cons_some hf]
      obtain hg | hg := h.1
      · rw [List.filterMap_cons_none hg]
        exact (ih h.2).cons b
      · rw [List.filterMap_cons_some (hg.trans hf)]
        exact (ih h.2).cons_cons b

/-- It is the same list only if it keeps the same. -/
theorem filterMap_eq_filterMap_iff (h : ∀ a ∈ l, g a = none ∨ g a = f a) :
    l.filterMap f = l.filterMap g ↔ ∀ a ∈ l, f a = g a := by
  refine ⟨fun heq => ?_, List.filterMap_congr⟩
  induction l with
  | nil => exact fun a ha => nomatch ha
  | cons a l ih =>
    rw [List.forall_mem_cons] at h ⊢
    have hrest := (filterMap_sublist h.2).length_le
    cases hf : f a with
    | none =>
      have hg : g a = none := h.1.elim id fun hg => hg.trans hf
      rw [List.filterMap_cons_none hf, List.filterMap_cons_none hg] at heq
      exact ⟨hg.symm, ih h.2 heq⟩
    | some b =>
      rw [List.filterMap_cons_some hf] at heq
      obtain hg | hg := h.1
      · rw [List.filterMap_cons_none hg] at heq
        have hlength := congrArg List.length heq
        rw [List.length_cons] at hlength
        omega
      · rw [List.filterMap_cons_some (hg.trans hf)] at heq
        exact ⟨(hg.trans hf).symm, ih h.2 (List.cons.inj heq).2⟩

end

namespace SessionLog

/-- The tools whose handler ran since their call, and whose result was recorded as completed. -/
def ranAndCompleted : Bool → SessionLog → List String
  | _, [] => []
  | _, ⟨.invoke _ _, _⟩ :: log => ranAndCompleted true log
  | ran, ⟨.record event _, _⟩ :: log =>
    if event.eventType = .toolResult then
      (if ran ∧ event.status = "completed" then event.toolName.toList else []) ++
        ranAndCompleted false log
    else ranAndCompleted ran log
  | ran, _ :: log => ranAndCompleted ran log

/-- The calls that the LLM asks for in an exchange. -/
def callsOf : Exchange SessionOp SessionOp.Reply → List ToolCall
  | ⟨.chat _, .ok (message :: _)⟩ => message.toolCalls
  | _ => []

/-- The calls that the LLM asks for. -/
def calls (log : SessionLog) : List ToolCall := log.flatMap callsOf

/-- What a handler returns in an exchange. -/
def result? : Exchange SessionOp SessionOp.Reply → Option ToolResult
  | ⟨.invoke _ _, .ok result⟩ => some result
  | _ => none

/-- What handlers return. -/
def results (log : SessionLog) : List ToolResult := log.filterMap result?

end SessionLog

namespace ToolCallingAgent

/-- The used tools that a run returns and writes to its last event are those that ran and
completed. -/
def Truthful (log : SessionLog) (run : AgentRun) : Prop :=
  run.toolsUsed = log.ranAndCompleted false ∧
    ((log.eventsOf run.traceId).getLast?.bind fun event => event.payload.get? "tools_used") =
      some (toolNames (log.ranAndCompleted false))

/-- The call names a tool that a human has to approve, with an object as its arguments. -/
def Gated (conversions : Conversions) (agent : ToolCallingAgent) (call : ToolCall) : Prop :=
  ∃ tool arguments, agent.registry.get call.name = .ok tool ∧ tool.requiresHumanApproval ∧
    conversions.loads (argumentsText call) = .ok (.obj arguments)

variable {conversions : Conversions} {agent : ToolCallingAgent}

/-- The exceptions of a tool are reported as errors. -/
theorem hasMember_errorResult (exc : PyExc) :
    (ToolResult.json (.obj (errorResult conversions exc))).hasMember "error" = .ok true := by
  cases exc <;> rfl

/-- A call is answered as used without its handler exactly if it is gated. -/
theorem dispatch_used_iff {call : ToolCall} :
    (∃ result, agent.dispatch conversions call = .answers result true) ↔
      Gated conversions agent call := by
  constructor
  · rintro ⟨result, h⟩
    unfold dispatch at h
    split at h
    · cases h
    · cases h
    · rename_i value hloads
      split at h
      · rename_i tool hget
        unfold dispatchParsed at h
        split at h
        · split at h
          · rename_i hgated
            exact ⟨tool, _, hget, hgated, hloads⟩
          · split at h <;> cases h
        · cases h
      · cases h
  · rintro ⟨tool, arguments, hget, hgated, hloads⟩
    refine ⟨ToolRegistry.approvalRequired call.name, ?_⟩
    rw [dispatch, hloads]
    dsimp only
    rw [hget]
    exact if_pos hgated

namespace AnsweredCall

variable (answered : AnsweredCall conversions agent)

/-- The name of the tool, if its handler ran and its result is recorded as completed. -/
def truthfulName : Option String :=
  if answered.ran.isSome ∧ answered.failed = false then some answered.call.name else none

/-- Without a handler a tool is used exactly if the call is gated. -/
theorem used_iff_of_none (hran : answered.ran = none) :
    answered.used = true ↔ Gated conversions agent answered.call := by
  have hsettles := answered.settles
  rw [hran] at hsettles
  obtain ⟨result, hdispatch, -⟩ := hsettles.of_none
  rw [← dispatch_used_iff, hdispatch]
  exact ⟨fun hused => ⟨result, congrArg _ hused⟩, fun ⟨_, hsame⟩ => (Dispatch.answers.inj hsame).2⟩

/-- A handler that raised is not used, and its result is an error. -/
theorem used_of_error {ran : Invocation} (hran : answered.ran = some ran) {exc : PyExc}
    (hreply : ran.reply = .error exc) : answered.used = false ∧ answered.failed = true := by
  have hsettles := answered.settles
  rw [hran] at hsettles
  have hout := hsettles.of_some.2
  rw [hreply] at hout
  refine ⟨congrArg Prod.snd hout, ?_⟩
  have hfailed := answered.hasError
  have hresult : answered.result = .json (.obj (errorResult conversions exc)) :=
    congrArg Prod.fst hout
  rw [hresult] at hfailed
  exact (Except.ok.inj ((hasMember_errorResult exc).symm.trans hfailed)).symm

/-- A handler that returned is used, and its result is that of the call. -/
theorem used_of_ok {ran : Invocation} (hran : answered.ran = some ran) {result : ToolResult}
    (hreply : ran.reply = .ok result) : answered.used = true ∧ answered.result = result := by
  have hsettles := answered.settles
  rw [hran] at hsettles
  have hout := hsettles.of_some.2
  rw [hreply] at hout
  exact ⟨congrArg Prod.snd hout, congrArg Prod.fst hout⟩

/-- A call that is answered by a handler is not gated. -/
theorem not_gated {ran : Invocation} (hran : answered.ran = some ran) :
    ¬Gated conversions agent answered.call := by
  intro hgated
  obtain ⟨result, hdispatch⟩ := dispatch_used_iff.mpr hgated
  have hsettles := answered.settles
  rw [hran] at hsettles
  cases hdispatch.symm.trans hsettles.of_some.1

/-- What ran and completed has been used. -/
theorem truthfulName_le :
    answered.truthfulName = none ∨ answered.truthfulName = answered.usedName := by
  unfold truthfulName usedName
  split
  · rename_i htruthful
    obtain ⟨ran, hran⟩ := Option.isSome_iff_exists.mp htruthful.1
    cases hreply : ran.reply with
    | ok result => exact .inr (if_pos (answered.used_of_ok hran hreply).1).symm
    | error exc =>
      have hfailed := (answered.used_of_error hran hreply).2
      rw [htruthful.2] at hfailed
      cases hfailed
  · exact .inl rfl

/-- It is all that has been used exactly if the call is not gated and what the handler returned has
no error. -/
theorem usedName_eq_truthfulName_iff : answered.usedName = answered.truthfulName ↔
    ¬Gated conversions agent answered.call ∧
      ∀ result ∈ answered.ran.bind fun ran => ran.reply.toOption,
        result.hasMember "error" = .ok false := by
  cases hran : answered.ran with
  | none =>
    rw [← answered.used_iff_of_none hran]
    simp [usedName, truthfulName, hran]
  | some ran =>
    have hgated := answered.not_gated hran
    cases hreply : ran.reply with
    | error exc =>
      obtain ⟨hused, hfailed⟩ := answered.used_of_error hran hreply
      simp [usedName, truthfulName, hused, hfailed, hgated, hreply, Except.toOption]
    | ok result =>
      obtain ⟨hused, rfl⟩ := answered.used_of_ok hran hreply
      simp [usedName, truthfulName, hran, hused, hgated, hreply, answered.hasError, Except.toOption]

end AnsweredCall

/-- The part of a call adds its tool if it ran and completed. -/
theorem ranAndCompleted_log (traceId : String) (answered : AnsweredCall conversions agent)
    (rest : SessionLog) :
    SessionLog.ranAndCompleted false (answered.log traceId ++ rest) =
      answered.truthfulName.toList ++ rest.ranAndCompleted false := by
  rw [AnsweredCall.log, AnsweredCall.truthfulName]
  cases answered.ran <;> cases answered.failed <;>
    simp [SessionLog.ranAndCompleted, toolCalled, toolResult, Invocation.exchange]

/-- So do all calls of some rounds. -/
theorem ranAndCompleted_flatMap (traceId : String) (answered : List (AnsweredCall conversions agent))
    (rest : SessionLog) :
    SessionLog.ranAndCompleted false (answered.flatMap (·.log traceId) ++ rest) =
      answered.filterMap (·.truthfulName) ++ rest.ranAndCompleted false := by
  induction answered with
  | nil => rfl
  | cons first answered ih =>
    rw [List.flatMap_cons, List.append_assoc, ranAndCompleted_log, ih]
    cases hname : first.truthfulName with
    | none => rw [List.filterMap_cons_none hname, Option.toList_none, List.nil_append]
    | some name => rw [List.filterMap_cons_some hname, Option.toList_some, List.singleton_append,
        List.cons_append]

/-- And all rounds. -/
theorem ranAndCompleted_roundsLog (traceId : String) (messages : List Dict)
    (rounds : List (Round conversions agent)) (rest : SessionLog) :
    SessionLog.ranAndCompleted false (roundsLog agent traceId messages rounds ++ rest) =
      (rounds.flatMap (·.answered)).filterMap (·.truthfulName) ++ rest.ranAndCompleted false := by
  induction rounds generalizing messages with
  | nil => rfl
  | cons round rounds ih =>
    rw [roundsLog, List.append_assoc, Round.log, List.cons_append]
    change SessionLog.ranAndCompleted false (round.answered.flatMap (·.log traceId) ++ _) = _
    rw [ranAndCompleted_flatMap, ih, List.flatMap_cons, List.filterMap_append, List.append_assoc]

/-- The calls of some rounds. -/
theorem calls_roundsLog (traceId : String) (messages : List Dict)
    (rounds : List (Round conversions agent)) :
    (roundsLog agent traceId messages rounds).flatMap SessionLog.callsOf =
      (rounds.flatMap (·.answered)).map (·.call) := by
  induction rounds generalizing messages with
  | nil => rfl
  | cons round rounds ih =>
    have hcalls : (round.answered.flatMap (·.log traceId)).flatMap SessionLog.callsOf = [] := by
      rw [List.flatMap_assoc]
      refine List.flatMap_eq_nil_iff.mpr fun answered _ => ?_
      obtain ⟨_, _ | _⟩ := answered <;> rfl
    rw [roundsLog, Round.log, List.flatMap_append, List.flatMap_cons, hcalls, ih, List.append_nil,
      List.flatMap_cons, List.map_append, round.calls]
    rfl

namespace Transcript

variable (transcript : Transcript conversions agent) (task : String)

/-- The last event names the used tools that the run returns. -/
theorem truthful_iff : Truthful (transcript.log task) transcript.run ↔
    transcript.usedTools = SessionLog.ranAndCompleted false (transcript.log task) := by
  have hrun : transcript.run.toolsUsed = transcript.usedTools ∧
      transcript.run.traceId = transcript.traceId := by
    rw [run]
    cases transcript.ending <;> exact ⟨rfl, rfl⟩
  have hlast : transcript.lastEvent.payload.get? "tools_used" =
      some (toolNames transcript.usedTools) := by
    rw [lastEvent]
    cases transcript.ending <;> rfl
  rw [Truthful, hrun.1, hrun.2, transcript.eventsOf_log, List.getLast?_concat, Option.bind_some,
    hlast]
  exact and_iff_left_of_imp fun hsame => by rw [hsame]

/-- The tools of a run that ran and completed. -/
theorem ranAndCompleted_log : SessionLog.ranAndCompleted false (transcript.log task) =
    transcript.answered.filterMap (·.truthfulName) := by
  have hending : SessionLog.ranAndCompleted false (transcript.ending.log agent transcript.traceId
      (transcript.rounds.length + 1) (transcript.messages task) transcript.usedTools) = [] := by
    cases transcript.ending <;> rfl
  rw [log, List.append_assoc]
  change SessionLog.ranAndCompleted false (roundsLog agent transcript.traceId (firstMessages task)
    transcript.rounds ++ _) = _
  rw [ranAndCompleted_roundsLog, hending, List.append_nil]
  rfl

/-- What its handlers returned. -/
theorem results_log : (transcript.log task).results =
    transcript.answered.filterMap fun answered =>
      answered.ran.bind fun ran => ran.reply.toOption := by
  have hcall (answered : AnsweredCall conversions agent) :
      (answered.log transcript.traceId).filterMap SessionLog.result? =
        (answered.ran.bind fun ran => ran.reply.toOption).toList := by
    obtain ⟨_, _ | ⟨_, _, _ | _⟩⟩ := answered <;> rfl
  have hrounds : (roundsLog agent transcript.traceId (firstMessages task)
      transcript.rounds).filterMap SessionLog.result? = transcript.answered.filterMap fun answered =>
        answered.ran.bind fun ran => ran.reply.toOption := by
    rw [filterMap_roundsLog _ _ _ fun _ _ => rfl, List.filterMap_eq_flatMap_toList]
    exact congrArg (List.flatMap · _) (funext hcall)
  rw [SessionLog.results, filterMap_log, hrounds]
  cases transcript.ending <;> exact List.append_nil _

/-- The calls of the LLM are those that were answered. -/
theorem calls_log : (transcript.log task).calls = transcript.answered.map (·.call) := by
  have hending : (transcript.ending.log agent transcript.traceId (transcript.rounds.length + 1)
      (transcript.messages task) transcript.usedTools).flatMap SessionLog.callsOf = [] := by
    cases transcript.ending with
    | completed message others hnone event => exact (List.append_nil _).trans hnone
    | exceeded event => rfl
  rw [SessionLog.calls, log, List.flatMap_append, List.flatMap_append, hending, calls_roundsLog,
    List.append_nil]
  rfl

end Transcript

/-- Every run that returns reports its used tools truthfully exactly if the LLM called no gated tool
and no handler returned an error. -/
theorem toolsUsed_truthful_iff (agent : ToolCallingAgent) (task : String) {log : SessionLog}
    {run : AgentRun} (h : (agent.run conversions task).Converses log (.ok run)) :
    Truthful log run ↔ (∀ call ∈ log.calls, ¬Gated conversions agent call) ∧
      ∀ result ∈ log.results, result.hasMember "error" = .ok false := by
  obtain ⟨transcript, rfl, rfl⟩ := exists_transcript h
  rw [transcript.truthful_iff, transcript.ranAndCompleted_log, transcript.usedTools_eq,
    filterMap_eq_filterMap_iff fun answered _ => answered.truthfulName_le, transcript.calls_log,
    transcript.results_log, List.forall_mem_map]
  constructor
  · refine fun hall => ⟨fun answered ha => (answered.usedName_eq_truthfulName_iff.mp
      (hall answered ha)).1, fun result hresult => ?_⟩
    obtain ⟨answered, ha, hreturned⟩ := List.mem_filterMap.mp hresult
    exact (answered.usedName_eq_truthfulName_iff.mp (hall answered ha)).2 result hreturned
  · rintro ⟨hcalls, hresults⟩ answered ha
    refine answered.usedName_eq_truthfulName_iff.mpr ⟨hcalls answered ha, fun result hreturned => ?_⟩
    exact hresults result (List.mem_filterMap.mpr ⟨answered, ha, hreturned⟩)

/-- The tool of the small run, with approval by a human. -/
def gatedTool : RegisteredTool := { echoTool with requiresHumanApproval := true }

/-- An agent with this tool. -/
def gatedAgent : ToolCallingAgent :=
  { echoAgent with
    registry :=
      { tools := ⟨[gatedTool], List.nodup_singleton _⟩
        named := List.forall_mem_singleton.mpr (by decide) } }

/-- In the small run the report is truthful. -/
theorem toolsUsed_truthful_echo : ∃ run, echoConversation.2 = .ok run ∧
    Truthful echoConversation.1 run := by
  refine ⟨_, rfl, (toolsUsed_truthful_iff echoAgent "say it"
    (Program.converses_converse echoReply _)).mpr ⟨?_, ?_⟩⟩
  · rintro call - ⟨tool, arguments, hget, hgated, -⟩
    obtain rfl := List.mem_singleton.mp (ToolRegistry.mem_of_get hget)
    cases hgated
  · intro result hresult
    have hresults : echoConversation.1.results = [.json (.obj [])] := rfl
    rw [hresults] at hresult
    obtain rfl := List.mem_singleton.mp hresult
    rfl

/-- Surroundings whose handler returns an error, as `get_champion_model` does without MLflow. -/
def errorReply : (op : SessionOp) → op.Reply
  | .invoke _ _ => .ok (.json (.obj [("available", .bool false), ("error", .str "refused")]))
  | op => echoReply op

/-- A gated tool is reported as used, though it did not run, and so is a tool whose result is
recorded as failed. -/
theorem toolsUsed_not_truthful :
    (∃ run, ((gatedAgent.run echoConversions "say it").converse echoReply).2 = .ok run ∧
      ¬Truthful ((gatedAgent.run echoConversions "say it").converse echoReply).1 run) ∧
    ∃ run, ((echoAgent.run echoConversions "say it").converse errorReply).2 = .ok run ∧
      ¬Truthful ((echoAgent.run echoConversions "say it").converse errorReply).1 run := by
  refine ⟨⟨_, rfl, fun htruthful => ?_⟩, _, rfl, fun htruthful => ?_⟩
  · cases htruthful.1
  · cases htruthful.1

end ToolCallingAgent

end CreditScoringMlops.Agent
