import CreditScoringMlops.Agent.ToolLoop

/-!
# Closing the trace of a run

Assuming that audit events can be written, a run closes its trace and is counted once if it returns,
or if the library is missing. Nothing catches the other exceptions: those of the provider, of
`json.loads` beyond `JSONDecodeError`, of the inspection of what a handler returned, and of an audit
event whose error is neither `None` nor a text. They leave the trace open.
-/

namespace CreditScoringMlops.Agent

open Python Interaction ControlPlane

namespace ToolCallingAgent

/-- The events of a closed trace: a request, pairs of a call and its result, and one last event. -/
def Closed (events : List AuditRecord) : Prop :=
  ∃ (first last : AuditRecord) (pairs : List (AuditRecord × AuditRecord)),
    events = first :: (pairs.flatMap fun pair => [pair.1, pair.2]) ++ [last] ∧
    first.eventType = .agentRequested ∧
    (∀ pair ∈ pairs, pair.1.eventType = .toolCalled ∧ pair.2.eventType = .toolResult ∧
      pair.1.toolName = pair.2.toolName) ∧
    (last.eventType = .executionCompleted ∨ last.eventType = .executionFailed)

/-- The run of a log closes its trace, and is counted once. -/
def Closes (log : SessionLog) : Prop :=
  ∃ traceId : String, log.head? = some ⟨.newTraceId, traceId⟩ ∧ Closed (log.eventsOf traceId) ∧
    log.finishes.length = 1

/-- An error that an audit event can have: none, or a text. -/
def IsErrorText : Json → Prop
  | .null => True
  | .str _ => True
  | _ => False

/-- Audit events can be written. There is none with another error: the model refuses it before
anything is written. -/
def Recorded : (op : SessionOp) → op.Reply → Prop
  | .record _ error, reply => (∃ event, reply = .ok event) ↔ IsErrorText error
  | _, _ => True

/-- The service records no event with another error. -/
theorem isErrorText_of_recorded {event : AuditRecord} {error : Json} {stored : AuditEvent}
    {log : List (Exchange AgentOp AgentOp.Reply)}
    (h : (SessionOp.record event error).implement.Converses log (.ok (.ok stored))) :
    IsErrorText error := by
  cases error with
  | null => trivial
  | str text => trivial
  | _ => cases (Program.converses_ret.mp h).2

/-- The replies that `run` can handle: the library is found or missing, the client is made, the LLM
replies with a choice whose calls can be read, and what a handler returns can be inspected, with a
detail that an audit event can have if it is an error. -/
def Manageable (conversions : Conversions) : (op : SessionOp) → op.Reply → Prop
  | .importOpenai, reply => ∃ found, reply = .ok found
  | .openaiClient _ _, reply => reply = .ok ()
  | .chat _, reply => ∃ message others, reply = .ok (message :: others) ∧
      ∀ call ∈ message.toolCalls, Readable conversions call
  | .invoke _ _, reply => ∀ result, reply = .ok result → Inspectable conversions IsErrorText result
  | .newTraceId, _ => True
  | .record _ _, _ => True
  | .finish _ _, _ => True

/-- The last events of a run. -/
def Terminal : SessionOp → Prop
  | .record event _ =>
    event.eventType = .executionCompleted ∨ event.eventType = .executionFailed
  | _ => False

variable {conversions : Conversions} {agent : ToolCallingAgent}

/-- A closed trace has a last event. -/
theorem Closes.exists_terminal {log : SessionLog} (h : Closes log) : ∃ e ∈ log, Terminal e.op := by
  obtain ⟨traceId, -, ⟨first, last, pairs, hevents, -, -, hlast⟩, -⟩ := h
  have hmem : last ∈ log.eventsOf traceId := by
    rw [hevents]
    exact List.mem_append_right _ (List.mem_singleton_self last)
  obtain ⟨⟨op, reply⟩, he, hevent⟩ := List.mem_filterMap.mp hmem
  refine ⟨_, he, ?_⟩
  cases op with
  | record event error =>
    change (if event.traceId = traceId then some event else none) = some last at hevent
    split at hevent
    · obtain rfl := Option.some.inj hevent
      exact hlast
    · cases hevent
  | _ => cases hevent

/-! ## Runs that return -/

/-- A call that cannot be read raises. -/
theorem dispatch_of_loads_error {call : ToolCall} {exc : PyExc}
    (hloads : conversions.loads (argumentsText call) = .error exc)
    (hexc : ∀ detail, exc ≠ .jsonDecodeError detail) :
    agent.dispatch conversions call = .raises exc := by
  rw [dispatch, hloads]
  cases exc <;> first | rfl | exact (hexc _ rfl).elim

namespace AnsweredCall

variable (answered : AnsweredCall conversions agent)

/-- A call that has been answered can be read. -/
theorem readable : Readable conversions answered.call := by
  intro exc hloads
  by_contra hexc
  have hsettles := answered.settles
  rw [dispatch_of_loads_error hloads fun detail hdetail => hexc ⟨detail, hdetail⟩] at hsettles
  cases hsettles

/-- What its handler returned can be inspected. -/
theorem inspectable (herror : IsErrorText answered.error) {ran : Invocation}
    (hran : answered.ran = some ran) {result : ToolResult} (hresult : ran.reply = .ok result) :
    Inspectable conversions IsErrorText result := by
  have hsame : answered.result = result := by
    have hsettles := answered.settles
    rw [hran] at hsettles
    have hout := congrArg Prod.fst hsettles.of_some.2
    rwa [hresult] at hout
  rw [← hsame]
  refine ⟨⟨answered.failed, answered.hasError, fun hfailed => ?_⟩, _, answered.printed⟩
  have hdetail := answered.hasDetail
  rw [if_pos hfailed] at hdetail
  exact ⟨_, hdetail, herror⟩

/-- The replies to its operations can be handled. -/
theorem manageable_log (traceId : String)
    (hrecorded : ∀ e ∈ answered.log traceId, Recorded e.op e.reply) :
    ∀ e ∈ answered.log traceId, Manageable conversions e.op e.reply := by
  intro e he
  have herror : IsErrorText answered.error :=
    (hrecorded _ (List.mem_cons_of_mem _ List.mem_concat_self)).mp ⟨_, rfl⟩
  rcases List.mem_cons.mp he with rfl | he
  · trivial
  rcases List.mem_append.mp he with he | he
  · obtain ⟨ran, hran, rfl⟩ := List.mem_map.mp he
    exact fun result => answered.inspectable herror (Option.mem_toList.mp hran)
  · obtain rfl := List.mem_singleton.mp he
    trivial

end AnsweredCall

/-- So can those to the operations of rounds. -/
theorem manageable_roundsLog (traceId : String) (messages : List Dict)
    (rounds : List (Round conversions agent))
    (hrecorded : ∀ e ∈ roundsLog agent traceId messages rounds, Recorded e.op e.reply) :
    ∀ e ∈ roundsLog agent traceId messages rounds, Manageable conversions e.op e.reply := by
  induction rounds generalizing messages with
  | nil => exact fun e he => nomatch he
  | cons round rounds ih =>
    intro e he
    have hall := List.forall_mem_append.mp hrecorded
    rcases List.mem_append.mp he with he | he
    · rcases List.mem_cons.mp he with rfl | he
      · refine ⟨round.message, round.others, rfl, fun call hcall => ?_⟩
        rw [← round.calls] at hcall
        obtain ⟨answered, -, rfl⟩ := List.mem_map.mp hcall
        exact answered.readable
      · obtain ⟨answered, hanswered, he⟩ := List.mem_flatMap.mp he
        exact answered.manageable_log traceId (fun e he => hall.1 e (List.mem_cons_of_mem _
          (List.mem_flatMap.mpr ⟨answered, hanswered, he⟩))) e he
    · exact ih _ hall.2 e he

namespace Transcript

variable (transcript : Transcript conversions agent) (task : String)

/-- A run that returns had replies that it can handle. -/
theorem manageable_log (hrecorded : ∀ e ∈ transcript.log task, Recorded e.op e.reply) :
    ∀ e ∈ transcript.log task, Manageable conversions e.op e.reply := by
  intro e he
  rcases List.mem_append.mp he with he | he
  · rcases List.mem_append.mp he with he | he
    · simp only [List.mem_cons, List.not_mem_nil, or_false] at he
      obtain rfl | rfl | rfl | rfl := he
      · trivial
      · trivial
      · exact ⟨true, rfl⟩
      · exact rfl
    · exact manageable_roundsLog _ _ _ (fun e he => hrecorded e
        (List.mem_append_left _ (List.mem_append_right _ he))) e he
  · cases hending : transcript.ending with
    | completed message others hnone event =>
      rw [hending] at he
      simp only [Ending.log, List.mem_cons, List.not_mem_nil, or_false] at he
      obtain rfl | rfl | rfl := he
      · exact ⟨message, others, rfl, by simp [hnone]⟩
      · trivial
      · trivial
    | exceeded event =>
      rw [hending] at he
      simp only [Ending.log, List.mem_cons, List.not_mem_nil, or_false] at he
      obtain rfl | rfl := he <;> trivial

/-- It closes its trace. -/
theorem closes_log : Closes (transcript.log task) := by
  let pairs := transcript.answered.map fun answered =>
    (toolCalled transcript.traceId answered.call,
      toolResult transcript.traceId answered.call answered.result answered.failed)
  refine ⟨transcript.traceId, rfl, ⟨runRequested transcript.traceId task, transcript.lastEvent, pairs,
    ?_, rfl, ?_, ?_⟩, ?_⟩
  · rw [transcript.eventsOf_log, List.flatMap_map]
  · intro pair hpair
    obtain ⟨answered, -, rfl⟩ := List.mem_map.mp hpair
    exact ⟨rfl, rfl, rfl⟩
  · rw [lastEvent]
    cases transcript.ending with
    | completed => exact .inl rfl
    | exceeded => exact .inr rfl
  · rw [transcript.finishes_log, List.length_singleton]

end Transcript

/-! ## Runs that raise -/

/-- No call performs a last event. -/
theorem not_terminal_of_callOp {op : SessionOp} (h : CallOp agent.registry op) : ¬Terminal op := by
  cases op with
  | record event error =>
    rintro (hterminal | hterminal) <;> obtain hcall | hcall := h <;>
      exact absurd (hterminal.symm.trans hcall) (by decide)
  | _ => exact id

/-- What follows an audit event gets the event that was recorded. -/
theorem exists_of_record_bind {B : Type} {event : AuditRecord} {error : Json}
    {f : AuditEvent → Session B} {log : SessionLog} {result : Except PyExc B}
    (h : (Session.record event error >>= f).Converses log result) (herror : IsErrorText error)
    (hrecorded : ∀ e ∈ log, Recorded e.op e.reply) :
    ∃ stored rest, log = ⟨.record event error, .ok stored⟩ :: rest ∧
      (f stored).Converses rest result := by
  obtain ⟨_, rest, rfl, hnext⟩ := converses_record_bind.mp h
  obtain ⟨stored, rfl⟩ := (hrecorded _ List.mem_cons_self).mpr herror
  exact ⟨stored, rest, rfl, hnext⟩

/-- The end of a run does not raise. -/
theorem not_converses_end_error {status : String} {failureReason : Option String}
    {event : AuditRecord} {error : Json} {run : AgentRun} {log : SessionLog} {exc : PyExc}
    (herror : IsErrorText error) (hrecorded : ∀ e ∈ log, Recorded e.op e.reply) :
    ¬Program.Converses (do
        Session.finish status failureReason
        let _ ← Session.record event error
        return run : Session AgentRun) log (.error exc) := by
  intro h
  obtain ⟨_, rfl, hraise⟩ := converses_end.mp h
  obtain ⟨stored, rfl⟩ := (hrecorded _ (List.mem_cons_of_mem _ List.mem_cons_self)).mpr herror
  cases hraise

/-- Rounds that raise have not performed a last event. -/
theorem not_terminal_of_rounds_error {traceId : String} {left : ℕ} {messages : List Dict}
    {usedTools : List String} {log : SessionLog} {exc : PyExc}
    (h : (agent.rounds conversions traceId left messages usedTools).Converses log (.error exc))
    (hrecorded : ∀ e ∈ log, Recorded e.op e.reply) : ∀ e ∈ log, ¬Terminal e.op := by
  induction left generalizing messages usedTools log with
  | zero => exact (not_converses_end_error (by trivial) hrecorded h).elim
  | succ left ih =>
    have hcreate (request : ChatRequest) :
        (Session.create request).Uses fun op => ¬Terminal op := by
      refine .bind (Program.uses_request id) fun reply => ?_
      refine .bind (Program.uses_ofExcept reply) fun choices => ?_
      split <;> trivial
    rw [rounds] at h
    obtain ⟨_, -, hraise⟩ | ⟨message, pre, post, rfl, hask, hreply⟩ := Program.converses_bind.mp h
    · exact hraise.forall_of_uses (hcreate _)
    rw [List.forall_mem_append] at hrecorded ⊢
    refine ⟨hask.forall_of_uses (hcreate _), ?_⟩
    split at hreply
    · exact (not_converses_end_error (by trivial) hrecorded.2 hreply).elim
    have hcalls : (agent.callTools conversions traceId message.toolCalls
        (messages ++ [assistantMessage message]) usedTools).Uses fun op => ¬Terminal op :=
      (callTools_uses _ _ _ _).weaken fun _ => not_terminal_of_callOp
    obtain ⟨_, -, hraise⟩ | ⟨_, _, _, rfl, hreturn, hrest⟩ := Program.converses_bind.mp hreply
    · exact hraise.forall_of_uses hcalls
    · have hlater := hrecorded.2
      rw [List.forall_mem_append] at hlater ⊢
      exact ⟨hreturn.forall_of_uses hcalls, ih hrest hlater.2⟩

/-- How a run begins. -/
def openingLog (traceId task : String) (requested : AuditEvent) : SessionLog :=
  [⟨.newTraceId, traceId⟩, ⟨.record (runRequested traceId task) .null, .ok requested⟩]

/-- The beginning is no end. -/
theorem not_terminal_openingLog (traceId task : String) (requested : AuditEvent) :
    ∀ e ∈ openingLog traceId task requested, ¬Terminal e.op := by
  simp [openingLog, Terminal, runRequested]

/-- The run of a log was told that the library is missing. -/
def MissingOpenai (log : SessionLog) : Prop :=
  ∃ traceId task requested failed, log = openingLog traceId task requested ++
    [⟨.importOpenai, .ok false⟩, ⟨.finish "failed" (some "missing_openai_dependency"), ()⟩,
      ⟨.record (runFailed traceId) (.str missingOpenai), .ok failed⟩]

/-- Such a run closes its trace. -/
theorem MissingOpenai.closes {log : SessionLog} (h : MissingOpenai log) : Closes log := by
  obtain ⟨traceId, task, requested, failed, rfl⟩ := h
  have hfirst := SessionLog.event?_record traceId (runRequested traceId task) .null
    (.ok requested) rfl
  have hlast := SessionLog.event?_record traceId (runFailed traceId) (.str missingOpenai)
    (.ok failed) rfl
  refine ⟨traceId, rfl, ⟨runRequested traceId task, runFailed traceId, [], ?_, rfl, by simp,
    .inr rfl⟩, rfl⟩
  rw [SessionLog.eventsOf, openingLog, List.cons_append, List.cons_append, List.nil_append,
    List.filterMap_cons_none rfl, List.filterMap_cons_some hfirst, List.filterMap_cons_none rfl,
    List.filterMap_cons_none rfl, List.filterMap_cons_some hlast]
  rfl

/-- Its replies can be handled. -/
theorem MissingOpenai.manageable {log : SessionLog} (h : MissingOpenai log) :
    ∀ e ∈ log, Manageable conversions e.op e.reply := by
  obtain ⟨traceId, task, requested, failed, rfl⟩ := h
  intro e he
  simp only [openingLog, List.cons_append, List.nil_append, List.mem_cons, List.not_mem_nil,
    or_false] at he
  obtain rfl | rfl | rfl | rfl | rfl := he
  · trivial
  · trivial
  · exact ⟨false, rfl⟩
  · trivial
  · trivial

/-- What importing the library comes to. -/
theorem importOpenai_cases {traceId : String} {log : SessionLog} {result : Except PyExc Unit}
    (h : (importOpenai traceId).Converses log result)
    (hrecorded : ∀ e ∈ log, Recorded e.op e.reply) :
    (∃ exc, result = .error exc ∧ log = [⟨.importOpenai, .error exc⟩]) ∨
      (∃ failed exc, result = .error exc ∧ log = [⟨.importOpenai, .ok false⟩,
        ⟨.finish "failed" (some "missing_openai_dependency"), ()⟩,
        ⟨.record (runFailed traceId) (.str missingOpenai), .ok failed⟩]) ∨
      result = .ok () ∧ log = [⟨.importOpenai, .ok true⟩] := by
  obtain ⟨reply, _, rfl, hreply⟩ := Program.converses_request_bind.mp h
  obtain ⟨exc, rfl, rfl, rfl⟩ | ⟨found, rfl, hrest⟩ := Program.converses_ofExcept_bind.mp hreply
  · exact .inl ⟨exc, rfl, rfl⟩
  cases found with
  | true =>
    obtain ⟨rfl, rfl⟩ := Program.converses_ret.mp hrest
    exact .inr (.inr ⟨rfl, rfl⟩)
  | false =>
    obtain ⟨_, _, rfl, hrecord⟩ := Program.converses_request_bind.mp hrest
    obtain ⟨failed, _, rfl, hraise⟩ := exists_of_record_bind hrecord trivial fun e he =>
      hrecorded e (by simp [he])
    obtain ⟨rfl, rfl⟩ := Program.converses_raise.mp hraise
    exact .inr (.inl ⟨failed, _, rfl, rfl⟩)

/-- What a run comes to: it cannot import the library, it misses it, it cannot make the client, or
it goes through its rounds. -/
theorem run_cases {task : String} {log : SessionLog} {result : Except PyExc AgentRun}
    (h : (agent.run conversions task).Converses log result)
    (hrecorded : ∀ e ∈ log, Recorded e.op e.reply) :
    ∃ traceId requested, (∃ exc, result = .error exc ∧
        log = openingLog traceId task requested ++ [⟨.importOpenai, .error exc⟩]) ∨
      MissingOpenai log ∨
      (∃ exc, result = .error exc ∧ log = openingLog traceId task requested ++
        [⟨.importOpenai, .ok true⟩,
          ⟨.openaiClient agent.provider.baseUrl agent.provider.apiKey, .error exc⟩]) ∨
      ∃ rest, log = openingLog traceId task requested ++ [⟨.importOpenai, .ok true⟩,
          ⟨.openaiClient agent.provider.baseUrl agent.provider.apiKey, .ok ()⟩] ++ rest ∧
        (agent.rounds conversions traceId agent.maxRounds (firstMessages task) []).Converses rest
          result := by
  obtain ⟨traceId, _, rfl, hrecord⟩ := Program.converses_request_bind.mp h
  obtain ⟨requested, _, rfl, himport⟩ := exists_of_record_bind hrecord trivial fun e he =>
    hrecorded e (List.mem_cons_of_mem _ he)
  refine ⟨traceId, requested, ?_⟩
  obtain ⟨exc, rfl, hraise⟩ | ⟨_, _, _, rfl, hfound, hclient⟩ := Program.converses_bind.mp himport
  · obtain ⟨_, hexc, rfl⟩ | ⟨failed, _, -, rfl⟩ | ⟨hexc, -⟩ :=
      importOpenai_cases hraise fun e he => hrecorded e (by simp [he])
    · cases hexc
      exact .inl ⟨exc, rfl, rfl⟩
    · exact .inr (.inl ⟨traceId, task, requested, failed, rfl⟩)
    · cases hexc
  obtain ⟨_, hexc, -⟩ | ⟨_, _, hexc, -⟩ | ⟨-, rfl⟩ :=
    importOpenai_cases hfound fun e he => hrecorded e (by simp [he])
  · cases hexc
  · cases hexc
  obtain ⟨client, rest, rfl, hreply⟩ := Program.converses_request_bind.mp hclient
  obtain ⟨exc, rfl, rfl, rfl⟩ | ⟨_, rfl, hrounds⟩ := Program.converses_ofExcept_bind.mp hreply
  · exact .inr (.inr (.inl ⟨exc, rfl, rfl⟩))
  · exact .inr (.inr (.inr ⟨rest, rfl, hrounds⟩))

/-- A run that raises misses the library, or has not performed a last event. -/
theorem missingOpenai_or_not_terminal {task : String} {log : SessionLog} {exc : PyExc}
    (h : (agent.run conversions task).Converses log (.error exc))
    (hrecorded : ∀ e ∈ log, Recorded e.op e.reply) :
    MissingOpenai log ∨ ∀ e ∈ log, ¬Terminal e.op := by
  obtain ⟨traceId, requested, ⟨_, -, rfl⟩ | hmissing | ⟨_, -, rfl⟩ | ⟨rest, rfl, hrounds⟩⟩ :=
    run_cases h hrecorded
  · refine .inr (List.forall_mem_append.mpr ⟨not_terminal_openingLog _ _ _, ?_⟩)
    simp [Terminal]
  · exact .inl hmissing
  · refine .inr (List.forall_mem_append.mpr ⟨not_terminal_openingLog _ _ _, ?_⟩)
    simp [Terminal]
  · rw [List.forall_mem_append] at hrecorded
    refine .inr (List.forall_mem_append.mpr ⟨List.forall_mem_append.mpr
      ⟨not_terminal_openingLog _ _ _, ?_⟩, not_terminal_of_rounds_error hrounds hrecorded.2⟩)
    simp [Terminal]

/-- With replies that it can handle, a run returns or misses the library. -/
theorem missingOpenai_or_exists_run {task : String} {log : SessionLog}
    {result : Except PyExc AgentRun} (h : (agent.run conversions task).Converses log result)
    (hrecorded : ∀ e ∈ log, Recorded e.op e.reply)
    (hmanageable : ∀ e ∈ log, Manageable conversions e.op e.reply)
    (hprinted : ∀ fields, ∃ text, conversions.dumps (.obj fields) = .ok text) :
    MissingOpenai log ∨ ∃ run, result = .ok run := by
  obtain ⟨traceId, requested, ⟨exc, -, rfl⟩ | hmissing | ⟨exc, -, rfl⟩ | ⟨rest, rfl, hrounds⟩⟩ :=
    run_cases h hrecorded
  · obtain ⟨_, hfound⟩ := hmanageable _ (List.mem_append_right _ List.mem_cons_self)
    cases hfound
  · exact .inl hmissing
  · cases hmanageable _ (List.mem_append_right _ (List.mem_cons_of_mem _ List.mem_cons_self))
  · refine .inr ?_
    rw [List.forall_mem_append] at hrecorded hmanageable
    have hgoesOn : ∀ e ∈ rest, GoesOn conversions IsErrorText e.op e.reply := by
      intro e he
      have hop := hrounds.forall_of_uses (rounds_uses _ _ _ _) e he
      have hrecorded := hrecorded.2 e he
      have hmanageable := hmanageable.2 e he
      obtain ⟨op, reply⟩ := e
      cases op <;> first | exact hop.elim | exact hrecorded.mpr | exact hmanageable
    obtain ⟨run, _, hrun, -⟩ | ⟨_, _, _, hfalse⟩ :=
      hrounds.end_of_obeys (returns_rounds trivial (fun _ => trivial) hprinted _ _ _ _) hgoesOn
    · exact ⟨run, hrun⟩
    · exact hfalse.elim

/-- Every run of the agent closes its trace exactly if it can handle the replies of its
surroundings. -/
theorem run_closes_iff (agent : ToolCallingAgent) (task : String) {log : SessionLog}
    {result : Except PyExc AgentRun} (h : (agent.run conversions task).Converses log result)
    (hrecorded : ∀ e ∈ log, Recorded e.op e.reply)
    (hprinted : ∀ fields, ∃ text, conversions.dumps (.obj fields) = .ok text) :
    Closes log ↔ ∀ e ∈ log, Manageable conversions e.op e.reply := by
  constructor
  · intro hcloses
    cases result with
    | ok run =>
      obtain ⟨transcript, rfl, -⟩ := exists_transcript h
      exact transcript.manageable_log task hrecorded
    | error exc =>
      obtain hmissing | hopen := missingOpenai_or_not_terminal h hrecorded
      · exact hmissing.manageable
      · obtain ⟨e, he, hterminal⟩ := hcloses.exists_terminal
        exact (hopen e he hterminal).elim
  · intro hmanageable
    obtain hmissing | ⟨run, rfl⟩ := missingOpenai_or_exists_run h hrecorded hmanageable hprinted
    · exact hmissing.closes
    · obtain ⟨transcript, rfl, -⟩ := exists_transcript h
      exact transcript.closes_log task

/-- Surroundings whose provider is down. -/
def refusedReply : (op : SessionOp) → op.Reply
  | .chat _ => .error (.other "Connection error.")
  | op => echoReply op

/-- Surroundings whose handler returns `None`. -/
def noneReply : (op : SessionOp) → op.Reply
  | .invoke _ _ => .ok (.json .null)
  | op => echoReply op

/-- Surroundings whose handler returns an error with a number as its detail. -/
def numberReply : (op : SessionOp) → op.Reply
  | .invoke _ _ => .ok (.json (.obj [("error", .str "x"), ("detail", .int 5)]))
  | .record event .null => echoReply (.record event .null)
  | .record event (.str error) => echoReply (.record event (.str error))
  | .record _ _ => .error (.validationError "1 validation error for AuditEvent")
  | op => echoReply op

/-- The error of the audit event that an exchange records. -/
def recordedError? : Exchange SessionOp SessionOp.Reply → Option Json
  | ⟨.record _ error, _⟩ => some error
  | _ => none

/-- In the small run the trace is closed. -/
theorem run_closes_echo : Closes echoConversation.1 := by
  refine (run_closes_iff echoAgent "say it" (Program.converses_converse echoReply _) ?_
    fun _ => ⟨_, rfl⟩).mpr ?_
  · intro e he
    have hreply := Program.reply_of_mem_converse he
    obtain ⟨op, reply⟩ := e
    cases op with
    | record event error =>
      have herrors : echoConversation.1.filterMap recordedError? = List.replicate 4 .null := rfl
      have herror : error ∈ List.replicate 4 Json.null :=
        herrors ▸ List.mem_filterMap.mpr ⟨_, he, rfl⟩
      obtain rfl := List.eq_of_mem_replicate herror
      exact iff_of_true ⟨_, hreply⟩ trivial
    | _ => trivial
  · intro e he
    have hreply := Program.reply_of_mem_converse he
    obtain ⟨op, reply⟩ := e
    cases op with
    | importOpenai => exact ⟨true, hreply⟩
    | openaiClient baseUrl apiKey => exact hreply
    | chat request => exact ⟨_, [], hreply, fun _ _ _ hloads => nomatch hloads⟩
    | invoke tool arguments =>
      rintro result hresult
      have hcalls : echoConversation.1.invocations = [(echoTool, [])] := rfl
      have hcall : (tool, arguments) ∈ [(echoTool, ([] : Dict))] :=
        hcalls ▸ List.mem_filterMap.mpr ⟨_, he, rfl⟩
      obtain rfl := (Prod.mk.inj (List.mem_singleton.mp hcall)).2
      obtain rfl := Except.ok.inj (hresult.symm.trans hreply)
      exact inspectable_obj (fun _ => ⟨_, rfl⟩) trivial
    | _ => trivial

/-- A provider that is down, or a handler that returns `None` or an error whose detail is a number,
leaves the trace open. -/
theorem run_leaves_trace_open :
    ¬Closes ((echoAgent.run echoConversions "say it").converse refusedReply).1 ∧
      ¬Closes ((echoAgent.run echoConversions "say it").converse noneReply).1 ∧
      ¬Closes ((echoAgent.run echoConversions "say it").converse numberReply).1 := by
  refine ⟨fun hcloses => ?_, fun hcloses => ?_, fun hcloses => ?_⟩
  · obtain ⟨_, _, _, hlength⟩ := hcloses
    cases hlength
  · obtain ⟨_, _, _, hlength⟩ := hcloses
    cases hlength
  · obtain ⟨_, _, _, hlength⟩ := hcloses
    cases hlength

end ToolCallingAgent

end CreditScoringMlops.Agent
