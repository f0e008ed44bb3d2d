import CreditScoringMlops.Agent.AgentApi
import CreditScoringMlops.Interaction.Conversation

/-!
# Transcripts of a session

A run of the tool-calling agent that returns leaves a log of a fixed shape: the opening, one part for
each round that asked for tools, and the end. A part of a call is the event of the call, the handler
if one runs, and the event of the result. The rounds and the calls carry what is known of them, so a
property of all runs is a property of transcripts.
-/

namespace CreditScoringMlops.Agent

open Python Interaction ControlPlane Promotion

/-- A conversation of a session. -/
abbrev SessionLog := List (Exchange SessionOp SessionOp.Reply)

namespace SessionLog

/-- The handler that an exchange calls, with the arguments. -/
def invocation? : Exchange SessionOp SessionOp.Reply → Option (RegisteredTool × Dict)
  | ⟨.invoke tool arguments, _⟩ => some (tool, arguments)
  | _ => none

/-- The audit event of a trace that an exchange records. -/
def event? (traceId : String) : Exchange SessionOp SessionOp.Reply → Option AuditRecord
  | ⟨.record event _, _⟩ => if event.traceId = traceId then some event else none
  | _ => none

/-- An event of the trace. -/
theorem event?_record (traceId : String) (event : AuditRecord) (error : Json)
    (reply : Except PyExc AuditEvent) (h : event.traceId = traceId) :
    event? traceId ⟨.record event error, reply⟩ = some event := if_pos h

/-- The status under which an exchange counts the run. -/
def finish? : Exchange SessionOp SessionOp.Reply → Option String
  | ⟨.finish status _, _⟩ => some status
  | _ => none

/-- The handlers that were called, with their arguments. -/
def invocations (log : SessionLog) : List (RegisteredTool × Dict) := log.filterMap invocation?

/-- The audit events of a trace. -/
def eventsOf (log : SessionLog) (traceId : String) : List AuditRecord :=
  log.filterMap (event? traceId)

/-- The increments of `agent_runs_total`, by status. -/
def finishes (log : SessionLog) : List String := log.filterMap finish?

end SessionLog

namespace ToolCallingAgent

variable (conversions : Conversions) (agent : ToolCallingAgent)

/-! ## Calls -/

/-- What becomes of a call before a handler runs. -/
inductive Dispatch where
  | raises (exc : PyExc)
  | answers (result : Dict) (used : Bool)
  | runs (tool : RegisteredTool) (arguments : Dict)

/-- A call whose arguments were parsed. -/
def dispatchParsed (call : ToolCall) (tool : RegisteredTool) : Json → Dispatch
  | .obj arguments =>
    if tool.requiresHumanApproval then .answers (ToolRegistry.approvalRequired call.name) true
    else
      match tool.bind arguments with
      | .ok _ => .runs tool arguments
      | .error exc => .answers (errorResult conversions exc) false
  | _ =>
    .answers (errorResult conversions (.typeError "Tool arguments must be a JSON object")) false

/-- Any call. -/
def dispatch (call : ToolCall) : Dispatch :=
  match conversions.loads (argumentsText call) with
  | .error (.jsonDecodeError detail) => .answers (invalidArguments detail) false
  | .error exc => .raises exc
  | .ok arguments =>
    match agent.registry.get call.name with
    | .ok tool => dispatchParsed conversions call tool arguments
    | .error exc => .answers (errorResult conversions exc) false

/-- The result of a handler, and whether its tool is counted as used. -/
def handlerResult : Except PyExc ToolResult → ToolResult × Bool
  | .ok result => (result, true)
  | .error exc => (.json (.obj (errorResult conversions exc)), false)

/-- The program of a dispatched call. -/
def Dispatch.program : Dispatch → Session (ToolResult × Bool)
  | raises exc => .raise exc
  | answers result used => .ret (.json (.obj result), used)
  | runs tool arguments =>
    .perform (.invoke tool arguments) fun reply => .ret (handlerResult conversions reply)

/-- The `try` block of a call performs at most the handler that the call is dispatched to. -/
theorem callTool_eq (call : ToolCall) :
    agent.callTool conversions call = (agent.dispatch conversions call).program conversions := by
  unfold callTool dispatch
  cases conversions.loads (argumentsText call) with
  | error exc => cases exc <;> rfl
  | ok arguments =>
    dsimp only
    cases hget : agent.registry.get call.name with
    | error exc =>
      rw [ToolRegistry.execute, hget]
      rfl
    | ok tool =>
      cases arguments with
      | obj arguments =>
        dsimp only [dispatchParsed]
        by_cases hgated : tool.requiresHumanApproval
        · rw [if_pos hgated, ToolRegistry.execute_gated hget hgated]
          rfl
        · rw [if_neg hgated, ToolRegistry.execute_ungated hget hgated]
          cases hbind : tool.bind arguments with
          | error exc =>
            rw [ToolRegistry.callHandler_unbound hbind]
            rfl
          | ok _ =>
            rw [ToolRegistry.callHandler_bound hbind]
            refine congrArg (Program.perform _) (funext fun reply => ?_)
            cases reply <;> rfl
      | _ =>
        rw [ToolRegistry.execute, hget]
        rfl

/-- A handler that ran, and how it ended. -/
structure Invocation where
  tool : RegisteredTool
  arguments : Dict
  reply : Except PyExc ToolResult

/-- Its exchange. -/
def Invocation.exchange (ran : Invocation) : Exchange SessionOp SessionOp.Reply :=
  ⟨.invoke ran.tool ran.arguments, ran.reply⟩

/-- The handler that runs for a dispatched call, and the result of the call. -/
inductive Dispatch.Settles : Dispatch → Option Invocation → ToolResult × Bool → Prop
  | answers (result : Dict) (used : Bool) :
    (answers result used).Settles none (.json (.obj result), used)
  | runs (tool : RegisteredTool) (arguments : Dict) (reply : Except PyExc ToolResult) :
    (runs tool arguments).Settles (some ⟨tool, arguments, reply⟩) (handlerResult conversions reply)

variable {conversions} in
/-- A handler that has run is the one of the dispatch, and its result that of the call. -/
theorem Dispatch.Settles.of_some {dispatched : Dispatch} {ran : Invocation}
    {out : ToolResult × Bool} (h : dispatched.Settles conversions (some ran) out) :
    dispatched = .runs ran.tool ran.arguments ∧ out = handlerResult conversions ran.reply := by
  cases h
  exact ⟨rfl, rfl⟩

variable {conversions} in
/-- Without a handler the dispatch answers. -/
theorem Dispatch.Settles.of_none {dispatched : Dispatch} {out : ToolResult × Bool}
    (h : dispatched.Settles conversions none out) :
    ∃ result, dispatched = .answers result out.2 ∧ out.1 = .json (.obj result) := by
  cases h
  exact ⟨_, rfl, rfl⟩

/-- A call that has been answered. -/
structure AnsweredCall where
  call : ToolCall
  ran : Option Invocation
  result : ToolResult
  used : Bool
  settles : (agent.dispatch conversions call).Settles conversions ran (result, used)
  failed : Bool
  hasError : result.hasMember "error" = .ok failed
  error : Json
  hasDetail : (if failed then result.get "detail" else .ok .null) = .ok error
  content : String
  printed : result.dumps conversions = .ok content
  called : AuditEvent
  reported : AuditEvent

variable {conversions agent}

namespace AnsweredCall

/-- Its message. -/
def message (answered : AnsweredCall conversions agent) : Dict :=
  toolMessage answered.call answered.content

/-- The name of its tool, if that is counted as used. -/
def usedName (answered : AnsweredCall conversions agent) : Option String :=
  if answered.used then some answered.call.name else none

/-- Its part of the log. -/
def log (traceId : String) (answered : AnsweredCall conversions agent) : SessionLog :=
  ⟨.record (toolCalled traceId answered.call) .null, .ok answered.called⟩ ::
    (answered.ran.toList.map Invocation.exchange ++
      [⟨.record (toolResult traceId answered.call answered.result answered.failed) answered.error,
        .ok answered.reported⟩])

/-- The handler that ran, with its arguments. -/
def handler (answered : AnsweredCall conversions agent) : Option (RegisteredTool × Dict) :=
  answered.ran.map fun ran => (ran.tool, ran.arguments)

variable (traceId : String) (answered : AnsweredCall conversions agent)

@[simp] theorem invocations_log : (answered.log traceId).invocations = answered.handler.toList := by
  obtain ⟨_, _ | _⟩ := answered <;> rfl

@[simp] theorem finishes_log : (answered.log traceId).finishes = [] := by
  obtain ⟨_, _ | _⟩ := answered <;> rfl

@[simp] theorem eventsOf_log : (answered.log traceId).eventsOf traceId =
    [toolCalled traceId answered.call,
      toolResult traceId answered.call answered.result answered.failed] := by
  have hcalled : (toolCalled traceId answered.call).traceId = traceId := rfl
  have hresult : (toolResult traceId answered.call answered.result answered.failed).traceId =
    traceId := rfl
  have hran : (answered.ran.toList.map Invocation.exchange).filterMap
      (SessionLog.event? traceId) = [] := by
    cases answered.ran <;> rfl
  simp [SessionLog.eventsOf, SessionLog.event?, log, hran, hcalled, hresult]

end AnsweredCall

section

variable {log : SessionLog}

/-- What follows an audit event gets what recording it returned. -/
theorem converses_record_bind {B : Type} {event : AuditRecord} {error : Json}
    {f : AuditEvent → Session B} {result : Except PyExc B} :
    (Session.record event error >>= f).Converses log result ↔
      ∃ reply rest, log = ⟨.record event error, reply⟩ :: rest ∧
        (Program.ofExcept reply >>= f).Converses rest result := by
  rw [Session.record, Program.bind_assoc, Program.converses_request_bind]

/-- A run that ends is counted, and its last event recorded. -/
theorem converses_end {status : String} {failureReason : Option String} {event : AuditRecord}
    {error : Json} {run : AgentRun} {result : Except PyExc AgentRun} :
    Program.Converses (do
        Session.finish status failureReason
        let _ ← Session.record event error
        return run : Session AgentRun) log result ↔
      ∃ reply, log = [⟨.finish status failureReason, ()⟩, ⟨.record event error, reply⟩] ∧
        result = reply.map fun _ => run := by
  rw [Session.finish, Program.converses_request_bind]
  constructor
  · rintro ⟨_, _, rfl, hrecord⟩
    obtain ⟨reply, _, rfl, hreturn⟩ := converses_record_bind.mp hrecord
    obtain ⟨exc, rfl, rfl, rfl⟩ | ⟨stored, rfl, hreturn⟩ :=
      Program.converses_ofExcept_bind.mp hreturn
    · exact ⟨_, rfl, rfl⟩
    · obtain ⟨rfl, rfl⟩ := Program.converses_ret.mp hreturn
      exact ⟨_, rfl, rfl⟩
  · rintro ⟨reply, rfl, rfl⟩
    refine ⟨(), _, rfl, converses_record_bind.mpr ⟨reply, _, rfl, ?_⟩⟩
    cases reply with
    | ok stored => exact .ret run
    | error exc => exact .raise exc

/-- If it returns, the event was recorded. -/
theorem exists_of_end {status : String} {failureReason : Option String} {event : AuditRecord}
    {error : Json} {run run' : AgentRun}
    (h : Program.Converses (do
        Session.finish status failureReason
        let _ ← Session.record event error
        return run : Session AgentRun) log (.ok run')) :
    ∃ stored, log = [⟨.finish status failureReason, ()⟩, ⟨.record event error, .ok stored⟩] ∧
      run' = run := by
  obtain ⟨reply, rfl, hreturn⟩ := converses_end.mp h
  cases reply with
  | ok stored => exact ⟨stored, rfl, Except.ok.inj hreturn⟩
  | error exc => cases hreturn

/-- A call that returns has run the handler it was dispatched to. -/
theorem converses_callTool_ok {call : ToolCall} {out : ToolResult × Bool} :
    (agent.callTool conversions call).Converses log (.ok out) ↔
      ∃ ran, (agent.dispatch conversions call).Settles conversions ran out ∧
        log = ran.toList.map Invocation.exchange := by
  rw [callTool_eq]
  cases agent.dispatch conversions call with
  | raises exc =>
    refine ⟨fun h => ?_, ?_⟩
    · cases (Program.converses_raise.mp h).2
    · rintro ⟨_, hsettles, -⟩
      cases hsettles
  | answers result used =>
    refine ⟨fun h => ?_, ?_⟩
    · obtain ⟨rfl, hout⟩ := Program.converses_ret.mp h
      cases hout
      exact ⟨none, .answers result used, rfl⟩
    · rintro ⟨_, hsettles, rfl⟩
      cases hsettles
      exact .ret _
  | runs tool arguments =>
    refine ⟨fun h => ?_, ?_⟩
    · obtain ⟨reply, rest, rfl, hrest⟩ := Program.converses_perform.mp h
      obtain ⟨rfl, hout⟩ := Program.converses_ret.mp hrest
      cases hout
      exact ⟨some ⟨tool, arguments, reply⟩, .runs tool arguments reply, rfl⟩
    · rintro ⟨_, hsettles, rfl⟩
      cases hsettles
      exact .perform _ _ (.ret _)

/-- A reported result has been inspected, recorded and printed. -/
theorem exists_of_reportResult {traceId : String} {call : ToolCall} {result : ToolResult}
    {message : Dict}
    (h : (reportResult conversions traceId call result).Converses log (.ok message)) :
    ∃ failed error content event, result.hasMember "error" = .ok failed ∧
      (if failed then result.get "detail" else .ok .null) = .ok error ∧
      result.dumps conversions = .ok content ∧ message = toolMessage call content ∧
      log = [⟨.record (toolResult traceId call result failed) error, .ok event⟩] := by
  obtain ⟨failed, hfailed, hdetail⟩ := Program.converses_ofExcept_bind_ok.mp h
  obtain ⟨error, herror, hrecord⟩ := Program.converses_ofExcept_bind_ok.mp hdetail
  obtain ⟨_, _, rfl, hevent⟩ := converses_record_bind.mp hrecord
  obtain ⟨event, rfl, hprint⟩ := Program.converses_ofExcept_bind_ok.mp hevent
  obtain ⟨content, hcontent, hreturn⟩ := Program.converses_ofExcept_bind_ok.mp hprint
  obtain ⟨rfl, hmessage⟩ := Program.converses_ret.mp hreturn
  exact ⟨failed, error, content, event, hfailed, herror, hcontent, Except.ok.inj hmessage, rfl⟩

/-- Calls that return have all been answered, one after the other. -/
theorem exists_of_callTools {traceId : String} {calls : List ToolCall}
    {messages messages' : List Dict} {usedTools usedTools' : List String}
    (h : (agent.callTools conversions traceId calls messages usedTools).Converses log
      (.ok (messages', usedTools'))) :
    ∃ answered : List (AnsweredCall conversions agent), answered.map (·.call) = calls ∧
      log = answered.flatMap (·.log traceId) ∧
      messages' = messages ++ answered.map (·.message) ∧
      usedTools' = usedTools ++ answered.filterMap (·.usedName) := by
  induction calls generalizing messages usedTools log with
  | nil =>
    obtain ⟨rfl, hout⟩ := Program.converses_ret.mp h
    cases hout
    exact ⟨[], by simp⟩
  | cons call calls ih =>
    rw [callTools] at h
    obtain ⟨_, _, rfl, hcalled⟩ := converses_record_bind.mp h
    obtain ⟨called, rfl, hattempt⟩ := Program.converses_ofExcept_bind_ok.mp hcalled
    obtain ⟨⟨result, used⟩, _, _, rfl, hcall, hreport⟩ := Program.converses_bind_ok.mp hattempt
    obtain ⟨ran, hsettles, rfl⟩ := converses_callTool_ok.mp hcall
    obtain ⟨message, _, _, rfl, hmessage, hrest⟩ := Program.converses_bind_ok.mp hreport
    obtain ⟨failed, error, content, reported, hfailed, herror, hcontent, rfl, rfl⟩ :=
      exists_of_reportResult hmessage
    obtain ⟨answered, rfl, rfl, rfl, rfl⟩ := ih hrest
    let first : AnsweredCall conversions agent :=
      ⟨call, ran, result, used, hsettles, failed, hfailed, error, herror, content, hcontent,
        called, reported⟩
    refine ⟨first :: answered, rfl, ?_, ?_, ?_⟩
    · simp [first, AnsweredCall.log]
    · simp [first, AnsweredCall.message]
    · cases used <;> simp [first, AnsweredCall.usedName]

end

/-! ## Rounds -/

variable (conversions agent)

/-- A round that asked for tools. -/
structure Round where
  message : ChatMessage
  others : List ChatMessage
  asks : message.toolCalls ≠ []
  answered : List (AnsweredCall conversions agent)
  calls : answered.map (·.call) = message.toolCalls

/-- How the rounds end. -/
inductive Ending where
  | completed (message : ChatMessage) (others : List ChatMessage) (answers : message.toolCalls = [])
    (event : AuditEvent)
  | exceeded (event : AuditEvent)

variable {conversions}

namespace Round

/-- The messages of a round. -/
def messages (round : Round conversions agent) : List Dict :=
  assistantMessage round.message :: round.answered.map (·.message)

/-- Its used tools. -/
def usedTools (round : Round conversions agent) : List String :=
  round.answered.filterMap (·.usedName)

/-- Its part of the log. -/
def log (traceId : String) (messages : List Dict) (round : Round conversions agent) : SessionLog :=
  ⟨.chat (agent.request messages), .ok (round.message :: round.others)⟩ ::
    round.answered.flatMap (·.log traceId)

end Round

/-- The log of some rounds. -/
def roundsLog (traceId : String) : List Dict → List (Round conversions agent) → SessionLog
  | _, [] => []
  | messages, round :: rounds =>
    round.log agent traceId messages ++ roundsLog traceId (messages ++ round.messages agent) rounds

section

variable {agent} (traceId : String) (messages : List Dict) (round : Round conversions agent)
  (rounds : List (Round conversions agent))

/-- What is observed of the calls of some rounds, but not of their requests. -/
theorem filterMap_roundsLog {B : Type} {observe : Exchange SessionOp SessionOp.Reply → Option B}
    (hchat : ∀ request reply, observe ⟨.chat request, reply⟩ = none) :
    (roundsLog agent traceId messages rounds).filterMap observe =
      (rounds.flatMap (·.answered)).flatMap fun answered =>
        (answered.log traceId).filterMap observe := by
  induction rounds generalizing messages with
  | nil => rfl
  | cons round rounds ih =>
    rw [roundsLog, Round.log, List.filterMap_append, ih, List.filterMap_cons, hchat,
      List.filterMap_flatMap, List.flatMap_cons, List.flatMap_append]

/-- The handlers that run in some rounds. -/
theorem invocations_roundsLog : (roundsLog agent traceId messages rounds).invocations =
    (rounds.flatMap (·.answered)).filterMap (·.handler) := by
  rw [SessionLog.invocations, filterMap_roundsLog _ _ _ fun _ _ => rfl,
    List.filterMap_eq_flatMap_toList]
  exact congrArg (List.flatMap · _) (funext fun answered => answered.invocations_log traceId)

/-- No run ends in its rounds. -/
theorem finishes_roundsLog : (roundsLog agent traceId messages rounds).finishes = [] := by
  rw [SessionLog.finishes, filterMap_roundsLog _ _ _ fun _ _ => rfl]
  exact List.flatMap_eq_nil_iff.mpr fun answered _ => answered.finishes_log traceId

/-- The audit events of some rounds: two for each call. -/
theorem eventsOf_roundsLog : (roundsLog agent traceId messages rounds).eventsOf traceId =
    (rounds.flatMap (·.answered)).flatMap fun answered =>
      [toolCalled traceId answered.call,
        toolResult traceId answered.call answered.result answered.failed] := by
  rw [SessionLog.eventsOf, filterMap_roundsLog _ _ _ fun _ _ => rfl]
  exact congrArg (List.flatMap · _) (funext fun answered => answered.eventsOf_log traceId)

end

namespace Ending

/-- The end after `n` of at most `left` rounds that asked for tools. -/
def After (left n : ℕ) : Ending → Prop
  | completed .. => n < left
  | exceeded _ => n = left

/-- Its part of the log. -/
def log (traceId : String) (round : ℕ) (messages : List Dict) (usedTools : List String) :
    Ending → SessionLog
  | completed message others _ event =>
    [⟨.chat (agent.request messages), .ok (message :: others)⟩, ⟨.finish "completed" none, ()⟩,
      ⟨.record (runCompleted traceId round usedTools message.text) .null, .ok event⟩]
  | exceeded event =>
    [⟨.finish "max_rounds_exceeded" "max_rounds_exceeded", ()⟩,
      ⟨.record (agent.runExceeded traceId usedTools) (.str maxRoundsExceeded), .ok event⟩]

/-- Its last event. -/
def lastEvent (traceId : String) (round : ℕ) (usedTools : List String) : Ending → AuditRecord
  | completed message _ _ _ => runCompleted traceId round usedTools message.text
  | exceeded _ => agent.runExceeded traceId usedTools

/-- It is the only one. -/
theorem eventsOf_log (traceId : String) (round : ℕ) (messages : List Dict)
    (usedTools : List String) (ending : Ending) :
    (ending.log agent traceId round messages usedTools).eventsOf traceId =
      [ending.lastEvent agent traceId round usedTools] := by
  cases ending with
  | completed message others hnone event =>
    have hlast := SessionLog.event?_record traceId (runCompleted traceId round usedTools message.text)
      .null (.ok event) rfl
    rw [SessionLog.eventsOf, log, List.filterMap_cons_none rfl, List.filterMap_cons_none rfl,
      List.filterMap_cons_some hlast]
    rfl
  | exceeded event =>
    have hlast := SessionLog.event?_record traceId (agent.runExceeded traceId usedTools)
      (.str maxRoundsExceeded) (.ok event) rfl
    rw [SessionLog.eventsOf, log, List.filterMap_cons_none rfl, List.filterMap_cons_some hlast]
    rfl

/-- What the run returns. -/
def run (traceId : String) (usedTools : List String) : Ending → AgentRun
  | completed message _ _ _ =>
    { status := "completed", answer := message.text, toolsUsed := usedTools, traceId }
  | exceeded _ =>
    { status := "max_rounds_exceeded", answer := maxRoundsExceeded, toolsUsed := usedTools
      traceId }

end Ending

section

variable {agent} {log : SessionLog}

/-- A reply that is used is the first choice. -/
theorem exists_of_create {request : ChatRequest} {message : ChatMessage}
    (h : (Session.create request).Converses log (.ok message)) :
    ∃ others, log = [⟨.chat request, .ok (message :: others)⟩] := by
  obtain ⟨reply, _, rfl, hreply⟩ := Program.converses_request_bind.mp h
  obtain ⟨choices, rfl, hfirst⟩ := Program.converses_ofExcept_bind_ok.mp hreply
  cases choices with
  | nil => cases (Program.converses_raise.mp hfirst).2
  | cons first others =>
    obtain ⟨rfl, hsame⟩ := Program.converses_ret.mp hfirst
    cases hsame
    exact ⟨others, rfl⟩

/-- Rounds that return have all been answered, one after the other, and then ended. -/
theorem exists_of_rounds {traceId : String} {left : ℕ} (hleft : left ≤ agent.maxRounds)
    {messages : List Dict} {usedTools : List String} {run : AgentRun}
    (h : (agent.rounds conversions traceId left messages usedTools).Converses log (.ok run)) :
    ∃ (rounds : List (Round conversions agent)) (ending : Ending),
      ending.After left rounds.length ∧
      log = roundsLog agent traceId messages rounds ++
        ending.log agent traceId (agent.maxRounds - left + rounds.length + 1)
          (messages ++ rounds.flatMap (·.messages agent))
          (usedTools ++ rounds.flatMap (·.usedTools agent)) ∧
      run = ending.run traceId (usedTools ++ rounds.flatMap (·.usedTools agent)) := by
  induction left generalizing messages usedTools log with
  | zero =>
    obtain ⟨event, rfl, rfl⟩ := exists_of_end h
    exact ⟨[], .exceeded event, rfl, by simp [roundsLog, Ending.log], by simp [Ending.run]⟩
  | succ left ih =>
    rw [rounds] at h
    obtain ⟨message, _, _, rfl, hcreate, hreply⟩ := Program.converses_bind_ok.mp h
    obtain ⟨others, rfl⟩ := exists_of_create hcreate
    by_cases hanswers : message.toolCalls = []
    · rw [if_pos (List.isEmpty_iff.mpr hanswers)] at hreply
      obtain ⟨event, rfl, rfl⟩ := exists_of_end hreply
      have hround : agent.maxRounds - left = agent.maxRounds - (left + 1) + 1 := by omega
      refine ⟨[], .completed message others hanswers event, Nat.succ_pos left, ?_, ?_⟩
      · simp [roundsLog, Ending.log, hround]
      · simp [Ending.run]
    · rw [if_neg (mt List.isEmpty_iff.mp hanswers)] at hreply
      obtain ⟨⟨messages', usedTools'⟩, _, _, rfl, hanswered, hrest⟩ :=
        Program.converses_bind_ok.mp hreply
      obtain ⟨answered, hcalls, rfl, rfl, rfl⟩ := exists_of_callTools hanswered
      obtain ⟨later, ending, hafter, rfl, rfl⟩ := ih (by omega) hrest
      let first : Round conversions agent := ⟨message, others, hanswers, answered, hcalls⟩
      have hround : agent.maxRounds - left + later.length + 1 =
          agent.maxRounds - (left + 1) + (first :: later).length + 1 := by
        rw [List.length_cons]
        omega
      refine ⟨first :: later, ending, ?_, ?_, ?_⟩
      · cases ending with
        | completed => exact Nat.succ_lt_succ hafter
        | exceeded => exact congrArg Nat.succ hafter
      · rw [← hround]
        simp [roundsLog, first, Round.log, Round.messages, Round.usedTools]
      · simp [first, Round.usedTools]

end

/-! ## Runs -/

variable (conversions) in
/-- The transcript of a run that returns. -/
structure Transcript where
  traceId : String
  requested : AuditEvent
  rounds : List (Round conversions agent)
  ending : Ending
  bounded : ending.After agent.maxRounds rounds.length

namespace Transcript

variable {agent} (transcript : Transcript conversions agent)

/-- The used tools. -/
def usedTools : List String := transcript.rounds.flatMap (·.usedTools agent)

/-- The messages of the last round. -/
def messages (task : String) : List Dict :=
  firstMessages task ++ transcript.rounds.flatMap (·.messages agent)

/-- The whole log. -/
def log (task : String) : SessionLog :=
  [⟨.newTraceId, transcript.traceId⟩,
    ⟨.record (runRequested transcript.traceId task) .null, .ok transcript.requested⟩,
    ⟨.importOpenai, .ok true⟩,
    ⟨.openaiClient agent.provider.baseUrl agent.provider.apiKey, .ok ()⟩] ++
  roundsLog agent transcript.traceId (firstMessages task) transcript.rounds ++
  transcript.ending.log agent transcript.traceId (transcript.rounds.length + 1)
    (transcript.messages task) transcript.usedTools

/-- What the run returns. -/
def run : AgentRun := transcript.ending.run transcript.traceId transcript.usedTools

end Transcript

variable {agent}

/-- With the library, importing it is one exchange. -/
theorem converses_importOpenai_ok {traceId : String} {log : SessionLog} {u : Unit}
    (h : (importOpenai traceId).Converses log (.ok u)) : log = [⟨.importOpenai, .ok true⟩] := by
  obtain ⟨reply, _, rfl, hreply⟩ := Program.converses_request_bind.mp h
  obtain ⟨found, rfl, hrest⟩ := Program.converses_ofExcept_bind_ok.mp hreply
  cases found with
  | true =>
    obtain ⟨rfl, -⟩ := Program.converses_ret.mp hrest
    rfl
  | false =>
    obtain ⟨_, _, rfl, hrecord⟩ := Program.converses_request_bind.mp hrest
    obtain ⟨_, _, _, rfl, -, hraise⟩ := Program.converses_bind_ok.mp hrecord
    cases (Program.converses_raise.mp hraise).2

namespace Transcript

variable (transcript : Transcript conversions agent) (task : String)

/-- The calls of a run, answered one after the other. -/
def answered : List (AnsweredCall conversions agent) := transcript.rounds.flatMap (·.answered)

/-- Its used tools are those of its calls. -/
theorem usedTools_eq : transcript.usedTools = transcript.answered.filterMap (·.usedName) := by
  rw [answered, List.filterMap_flatMap]
  rfl

/-- The log between the opening and the end. -/
theorem filterMap_log {B : Type} (observe : Exchange SessionOp SessionOp.Reply → Option B) :
    (transcript.log task).filterMap observe =
      [⟨.newTraceId, transcript.traceId⟩,
        ⟨.record (runRequested transcript.traceId task) .null, .ok transcript.requested⟩,
        ⟨.importOpenai, .ok true⟩,
        ⟨.openaiClient agent.provider.baseUrl agent.provider.apiKey, .ok ()⟩].filterMap observe ++
      (roundsLog agent transcript.traceId (firstMessages task) transcript.rounds).filterMap observe ++
      (transcript.ending.log agent transcript.traceId (transcript.rounds.length + 1)
        (transcript.messages task) transcript.usedTools).filterMap observe := by
  rw [log, List.filterMap_append, List.filterMap_append]

/-- The handlers that run. -/
theorem invocations_log : (transcript.log task).invocations =
    transcript.answered.filterMap (·.handler) := by
  have hrounds := invocations_roundsLog transcript.traceId (firstMessages task) transcript.rounds
  rw [SessionLog.invocations] at hrounds ⊢
  rw [filterMap_log, hrounds]
  cases transcript.ending <;> exact List.append_nil _

/-- The last event. -/
def lastEvent : AuditRecord :=
  transcript.ending.lastEvent agent transcript.traceId (transcript.rounds.length + 1)
    transcript.usedTools

/-- The audit events: the first, two for each call, and the last. -/
theorem eventsOf_log : (transcript.log task).eventsOf transcript.traceId =
    runRequested transcript.traceId task :: (transcript.answered.flatMap fun answered =>
      [toolCalled transcript.traceId answered.call,
        toolResult transcript.traceId answered.call answered.result answered.failed]) ++
    [transcript.lastEvent] := by
  have hrounds := eventsOf_roundsLog transcript.traceId (firstMessages task) transcript.rounds
  have hlast := transcript.ending.eventsOf_log agent transcript.traceId
    (transcript.rounds.length + 1) (transcript.messages task) transcript.usedTools
  have hfirst := SessionLog.event?_record transcript.traceId
    (runRequested transcript.traceId task) .null (.ok transcript.requested) rfl
  rw [SessionLog.eventsOf] at hrounds hlast ⊢
  rw [filterMap_log, hrounds, hlast, List.filterMap_cons_none rfl, List.filterMap_cons_some hfirst]
  rfl

/-- The run is counted once, at its end. -/
theorem finishes_log : (transcript.log task).finishes = [transcript.run.status] := by
  have hrounds := finishes_roundsLog transcript.traceId (firstMessages task) transcript.rounds
  rw [SessionLog.finishes] at hrounds ⊢
  rw [filterMap_log, hrounds, run]
  cases transcript.ending <;> rfl

end Transcript

/-- Every run that returns has a transcript. -/
theorem exists_transcript {task : String} {log : SessionLog} {run : AgentRun}
    (h : (agent.run conversions task).Converses log (.ok run)) :
    ∃ transcript : Transcript conversions agent,
      log = transcript.log task ∧ run = transcript.run := by
  obtain ⟨traceId, _, rfl, hrecord⟩ := Program.converses_request_bind.mp h
  obtain ⟨_, _, rfl, hrequested⟩ := converses_record_bind.mp hrecord
  obtain ⟨requested, rfl, himport⟩ := Program.converses_ofExcept_bind_ok.mp hrequested
  obtain ⟨_, _, _, rfl, hopenai, hclient⟩ := Program.converses_bind_ok.mp himport
  obtain rfl := converses_importOpenai_ok hopenai
  obtain ⟨client, _, rfl, hreply⟩ := Program.converses_request_bind.mp hclient
  obtain ⟨_, rfl, hrounds⟩ := Program.converses_ofExcept_bind_ok.mp hreply
  obtain ⟨rounds, ending, hafter, rfl, rfl⟩ := exists_of_rounds le_rfl hrounds
  refine ⟨⟨traceId, requested, rounds, ending, hafter⟩, ?_, rfl⟩
  simp [Transcript.log, Transcript.messages, Transcript.usedTools]

/-! ## Runs of the service -/

/-- What the service does for an operation of a session does not raise. -/
theorem not_converses_implement_error (op : SessionOp)
    (log : List (Exchange AgentOp AgentOp.Reply)) (exc : PyExc) :
    ¬op.implement.Converses log (.error exc) := by
  have hask : ∀ op, ¬(ask op).Converses log (.error exc) := fun op h => by
    obtain ⟨_, -, hresult⟩ := Program.converses_request.mp h
    cases hresult
  intro h
  cases op with
  | record event error =>
    cases error with
    | null => exact hask _ h
    | str error => exact hask _ h
    | _ => cases (Program.converses_ret.mp h).2
  | invoke tool arguments =>
    obtain ⟨_, hresult, -⟩ := Program.converses_attempt.mp h
    cases hresult
  | finish status failureReason => cases (Program.converses_ret.mp h).2
  | _ => exact hask _ h

/-- In every run of the service, a run of the agent that has returned has a transcript: what it has
performed after its agent was built implements the log of the transcript. -/
theorem exists_transcript_of_run (process : AgentProcess) (server : MlflowServer) (w : AgentWorld)
    (events : List AgentEvent) {i : ℕ} {request : AgentRunRequest} {run : AgentRun}
    (hcaller : ((system process server).run w events).callers[i]? =
      some ⟨.runAgent request, some (.ret (.run run))⟩) :
    ∃ (agent : ToolCallingAgent) (transcript : Transcript process.conversions agent)
      (built performed : List (Exchange AgentOp AgentOp.Reply)),
      (own ((system process server).run w events).trace i).map Entry.exchange =
        built ++ performed ∧
      Program.Implements SessionOp.implement (transcript.log request.task) performed ∧
      run = transcript.run := by
  have hserve := (system process server).converses_run w events hcaller
  obtain ⟨_, _, _, hlog, hrun, hret⟩ := Program.converses_bind_ok.mp hserve
  obtain ⟨rfl, hret⟩ := Program.converses_ret.mp hret
  cases hret
  obtain ⟨attempted, _, _, rfl, hattempt, hresult⟩ := Program.converses_bind_ok.mp hrun
  obtain ⟨rfl, hresult⟩ := Program.converses_ofExcept.mp hresult
  obtain ⟨_, hsame, hsession⟩ := Program.converses_attempt.mp hattempt
  cases hsame
  cases attempted with
  | error exc => cases hresult
  | ok returned =>
    cases hresult
    obtain ⟨agent, built, performed, rfl, -, htranslate⟩ := Program.converses_bind_ok.mp hsession
    obtain ⟨log, hconverses, himplements⟩ :=
      htranslate.exists_of_translate not_converses_implement_error
    obtain ⟨transcript, rfl, rfl⟩ := exists_transcript hconverses
    exact ⟨agent, transcript, built, performed, by simpa using hlog, himplements, rfl⟩

end ToolCallingAgent

end CreditScoringMlops.Agent
