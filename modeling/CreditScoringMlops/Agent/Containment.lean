import CreditScoringMlops.Agent.AgentApi
import CreditScoringMlops.ControlPlane.Contracts
import CreditScoringMlops.Promotion.Mlflow

/-!
# The LLM is contained

Whatever the LLM answers, the operations of a request to the agents leave Jobs and the champion
alone. A run of the tool-calling agent leaves the approval table alone as well. A decision opens at
most one approval, and the monitor `containment` follows how it comes to that: the LLM has answered,
the decision has been announced in the audit trail, and the approval is the one proposed.
-/

namespace CreditScoringMlops.Agent

open Python Interaction ControlPlane Promotion OrchestratorAgent

/-! ## What a request has done -/

/-- The raw answer of the LLM. -/
def AgentOp.rawResponse : (op : AgentOp) → op.Reply → Option String
  | .chat _, .ok (message :: _) => some message.text
  | _, _ => none

/-- The audit event of a decision. -/
def AgentOp.decisionEvent : (op : AgentOp) → op.Reply → Option AuditEvent
  | .control (.record _), .ok event =>
    if event.eventType = .decisionCreated then some event else none
  | _, _ => none

/-- The answers of the LLM, in order. -/
def rawResponses (h : List AgentEntry) : List String :=
  h.filterMap fun e => e.op.rawResponse e.reply

/-- The audit events of decisions, in order. -/
def decisionEvents (h : List AgentEntry) : List AuditEvent :=
  h.filterMap fun e => e.op.decisionEvent e.reply

/-- A call of `apply_training_job` or what it does to the cluster, and the write of an alias. -/
def AgentOp.Forbidden : AgentOp → Prop
  | .control (.applyCalled _ _) => True
  | .control (.applyReturned _ _) => True
  | .control (.kubectlApply _ _) => True
  | .mlflow (.setRegisteredModelAlias _ _ _) => True
  | _ => False

/-- An operation that applies nothing, and leaves the registry with its aliases alone. -/
structure Framed (e : AgentEntry) : Prop where
  op : ¬e.op.Forbidden
  registry : e.after.registry = e.before.registry

/-- An operation that leaves the approval table alone. -/
def TableKept (e : AgentEntry) : Prop := e.after.approvals = e.before.approvals

/-- An operation that adds one row to the approval table: a pending training Job. -/
def OpensApproval (traceId : String) (e : AgentEntry) : Prop :=
  ∃ row, e.after.approvals.rows = e.before.approvals.rows ++ [row] ∧ row.status = .pending ∧
    row.action = "create_training_job" ∧ row.traceId = traceId

/-- The approval table is left alone, or one approval has been opened for the one answer of the LLM,
which proposes it, under the trace of the one decision. -/
def AtMostProposed (conversions : Conversions) (h : List AgentEntry) : Prop :=
  (∀ e ∈ h, TableKept e) ∨ ∃ pre e post raw event, h = pre ++ e :: post ∧
    (∀ d ∈ pre ++ post, TableKept d) ∧ rawResponses h = [raw] ∧
    RepliesWith conversions raw "propose_retraining" ∧ decisionEvents h = [event] ∧
    OpensApproval event.traceId e

/-- What a request for a decision does at most. -/
structure DecisionContained (conversions : Conversions) (h : List AgentEntry) : Prop where
  framed : ∀ e ∈ h, Framed e
  approvals : AtMostProposed conversions h

/-- What a run of the agent does at most. -/
structure RunContained (h : List AgentEntry) : Prop where
  framed : ∀ e ∈ h, Framed e
  approvals : ∀ e ∈ h, TableKept e

/-! ## The discipline of a decision -/

/-- How far a request for a decision has come. -/
inductive Stage where
  | start
  | answered (raw : String)
  | announced (raw traceId : String)
  | proposed

/-- The stage after an audit event. -/
def Stage.after (s : Stage) (record : AuditRecord) : Stage :=
  match s with
  | .answered raw =>
    if record.eventType = .decisionCreated then .announced raw record.traceId else .answered raw
  | s => s

/-- The approval that is opened for a proposal. -/
structure Proposal (approval : ApprovalRequest) (traceId : String) : Prop where
  status : approval.status = .pending
  action : approval.action = "create_training_job"
  traceId : approval.traceId = traceId

/-- The LLM is asked once, one decision is announced, and one approval is opened at most. -/
def containment (conversions : Conversions) : Monitor AgentOp AgentOp.Reply Stage where
  start := .start
  may
    | s, .chat _ => s = .start
    | _, .importOpenai => True
    | _, .openaiClient _ _ => True
    | _, .control .uuid4 => True
    | _, .control .utcNow => True
    | _, .control (.str _) => True
    | s, .control (.record event) => event.eventType = .decisionCreated → ∃ raw, s = .answered raw
    | s, .control (.store (.create approval)) => ∃ raw traceId, s = .announced raw traceId ∧
        RepliesWith conversions raw "propose_retraining" ∧ Proposal approval traceId
    | _, _ => False
  possible
    | .control (.record record), .ok event => event.toAuditRecord = record
    | _, _ => True
  next s op reply :=
    match op, reply with
    | .chat _, .ok (message :: _) => .answered message.text
    | .control (.record record), .ok _ => s.after record
    | .control (.store (.create _)), _ => .proposed
    | _, _ => s

/-- What the stage tells of the operations so far. -/
def Story (conversions : Conversions) : Stage → List AgentEntry → Prop
  | .start, h => (∀ e ∈ h, TableKept e) ∧ rawResponses h = [] ∧ decisionEvents h = []
  | .answered raw, h =>
    (∀ e ∈ h, TableKept e) ∧ rawResponses h = [raw] ∧ decisionEvents h = []
  | .announced raw traceId, h => (∀ e ∈ h, TableKept e) ∧ rawResponses h = [raw] ∧
    ∃ event, decisionEvents h = [event] ∧ event.traceId = traceId
  | .proposed, h => AtMostProposed conversions h

variable {conversions : Conversions} {process : AgentProcess} {server : MlflowServer} {i : ℕ}
  {env : AgentEnv} {w : AgentWorld} {op : AgentOp} {s : Stage} {h : List AgentEntry}
  {e : AgentEntry}

/-- An operation that is not forbidden moves no alias. -/
theorem framed_entry (hserver : server.Documented) (hop : ¬op.Forbidden) :
    Framed ((system process server).entry i env op w) := by
  refine ⟨hop, ?_⟩
  cases op with
  | mlflow op =>
    refine exec_readOnly hserver ?_ env.mlflow w.registry
    cases op with
    | setRegisteredModelAlias name modelAlias version => exact hop trivial
    | _ => trivial
  | _ => rfl

/-- Only the store writes the approval table. -/
theorem tableKept_entry (hop : ∀ o, op ≠ .control (.store o)) :
    TableKept ((system process server).entry i env op w) := by
  cases op with
  | control op => exact exec_approvals fun o ho => hop o (congrArg AgentOp.control ho)
  | _ => rfl

/-- A stored audit event is the one that was to be recorded. -/
theorem exec_record_ok {record : AuditRecord} {event : AuditEvent} {env : Env} {w : World}
    (h : (ControlPlane.exec i (.record record) env w).1 = .ok event) :
    event.toAuditRecord = record := by
  simp only [ControlPlane.exec, orFault, execRecord] at h
  split at h
  · cases h
  · split at h
    · cases h
    · rw [← Except.ok.inj h]

/-- One operation more is one answer more, if it is one. -/
theorem rawResponses_concat (h : List AgentEntry) (e : AgentEntry) :
    rawResponses (h ++ [e]) = rawResponses h ++ (e.op.rawResponse e.reply).toList := by
  rw [rawResponses, List.filterMap_append]
  cases hraw : e.op.rawResponse e.reply <;> simp [hraw, rawResponses]

/-- One operation more is one decision more, if it is one. -/
theorem decisionEvents_concat (h : List AgentEntry) (e : AgentEntry) :
    decisionEvents (h ++ [e]) = decisionEvents h ++ (e.op.decisionEvent e.reply).toList := by
  rw [decisionEvents, List.filterMap_append]
  cases hevent : e.op.decisionEvent e.reply <;> simp [hevent, decisionEvents]

/-- One operation more keeps the table, if it does. -/
theorem forall_tableKept_concat (hh : ∀ d ∈ h, TableKept d) (he : TableKept e) :
    ∀ d ∈ h ++ [e], TableKept d := by
  intro d hd
  obtain hd | hd := List.mem_append.mp hd
  · exact hh d hd
  · rw [List.mem_singleton.mp hd]
    exact he

/-- An operation that is no answer and no decision, and keeps the table. -/
structure Quiet (e : AgentEntry) : Prop where
  table : TableKept e
  raw : e.op.rawResponse e.reply = none
  event : e.op.decisionEvent e.reply = none

/-- A quiet operation keeps what the stage tells. -/
theorem Story.concat_quiet (hs : Story conversions s h) (he : Quiet e) :
    Story conversions s (h ++ [e]) := by
  have hraw : rawResponses (h ++ [e]) = rawResponses h := by
    rw [rawResponses_concat, he.raw, Option.toList_none, List.append_nil]
  have hevent : decisionEvents (h ++ [e]) = decisionEvents h := by
    rw [decisionEvents_concat, he.event, Option.toList_none, List.append_nil]
  cases s with
  | start => exact ⟨forall_tableKept_concat hs.1 he.table, hraw.trans hs.2.1, hevent.trans hs.2.2⟩
  | answered raw =>
    exact ⟨forall_tableKept_concat hs.1 he.table, hraw.trans hs.2.1, hevent.trans hs.2.2⟩
  | announced raw traceId =>
    obtain ⟨hkept, hraws, event, hevents, htrace⟩ := hs
    exact ⟨forall_tableKept_concat hkept he.table, hraw.trans hraws, event, hevent.trans hevents,
      htrace⟩
  | proposed =>
    obtain hkept | ⟨pre, d, post, raw, event, rfl, hkept, hraws, hreplies, hevents, hopens⟩ := hs
    · exact .inl (forall_tableKept_concat hkept he.table)
    · refine .inr ⟨pre, d, post ++ [e], raw, event, ?_, ?_, hraw.trans hraws, hreplies,
        hevent.trans hevents, hopens⟩
      · rw [List.append_assoc, List.cons_append]
      · rw [← List.append_assoc]
        exact forall_tableKept_concat hkept he.table

/-- The answer of the LLM is the first of the request. -/
theorem story_chat {request : ChatRequest} (hs : Story conversions .start h) :
    Story conversions ((containment conversions).next .start (.chat request) env.choices)
      (h ++ [(system process server).entry i env (.chat request) w]) := by
  have hkept : TableKept ((system process server).entry i env (.chat request) w) := rfl
  cases hchoices : env.choices with
  | error exc =>
    refine hs.concat_quiet ⟨hkept, ?_, rfl⟩
    simp only [Machine.entry, system, exec, hchoices]
    rfl
  | ok choices =>
    cases choices with
    | nil =>
      refine hs.concat_quiet ⟨hkept, ?_, rfl⟩
      simp only [Machine.entry, system, exec, hchoices]
      rfl
    | cons message rest =>
      refine ⟨forall_tableKept_concat hs.1 hkept, ?_, ?_⟩
      · rw [rawResponses_concat, hs.2.1]
        simp only [Machine.entry, system, exec, hchoices]
        rfl
      · rw [decisionEvents_concat, hs.2.2]
        rfl

/-- A stored event announces the decision, or tells nothing new. -/
theorem story_record {record : AuditRecord}
    (hmay : record.eventType = .decisionCreated → ∃ raw, s = .answered raw)
    (hs : Story conversions s h) :
    Story conversions ((containment conversions).next s (.control (.record record))
        (ControlPlane.exec i (.record record) env.control w.control).1)
      (h ++ [(system process server).entry i env (.control (.record record)) w]) := by
  have hkept : TableKept ((system process server).entry i env (.control (.record record)) w) :=
    tableKept_entry (by simp)
  cases hreply : (ControlPlane.exec i (.record record) env.control w.control).1 with
  | error exc =>
    refine hs.concat_quiet ⟨hkept, rfl, ?_⟩
    simp only [Machine.entry, system, exec, hreply]
    rfl
  | ok event =>
    have hevent := exec_record_ok hreply
    by_cases hdecision : record.eventType = .decisionCreated
    · obtain ⟨raw, rfl⟩ := hmay hdecision
      simp only [containment, Stage.after, if_pos hdecision]
      refine ⟨forall_tableKept_concat hs.1 hkept, ?_, event, ?_, by rw [hevent]⟩
      · rw [rawResponses_concat, hs.2.1]
        rfl
      · rw [decisionEvents_concat, hs.2.2]
        simp only [Machine.entry, system, exec, hreply, AgentOp.decisionEvent]
        rw [if_pos (by rw [hevent]; exact hdecision)]
        rfl
    · have hstage : s.after record = s := by
        cases s <;> simp only [Stage.after, if_neg hdecision]
      simp only [containment, hstage]
      refine hs.concat_quiet ⟨hkept, rfl, ?_⟩
      simp only [Machine.entry, system, exec, hreply, AgentOp.decisionEvent]
      rw [if_neg (by rw [hevent]; exact hdecision)]

/-- Opening the approval adds its row, or fails and adds none. -/
theorem story_create {approval : ApprovalRequest} {raw traceId : String}
    (hreplies : RepliesWith conversions raw "propose_retraining")
    (hproposal : Proposal approval traceId)
    (hs : Story conversions (.announced raw traceId) h) :
    Story conversions .proposed
      (h ++ [(system process server).entry i env (.control (.store (.create approval))) w]) := by
  obtain ⟨hkept, hraws, event, hevents, htrace⟩ := hs
  cases hreply : (ControlPlane.exec i (.store (.create approval)) env.control w.control).1 with
  | error exc =>
    have hsame := (exec_store_error hreply).1
    refine .inl (forall_tableKept_concat hkept ?_)
    exact congrArg World.approvals hsame
  | ok reply =>
    obtain ⟨-, hinsert⟩ := ApprovalStore.create_ok (exec_store_ok hreply)
    refine .inr ⟨h, _, [], raw, event, rfl, by simpa using hkept, ?_, hreplies, ?_, ?_⟩
    · rw [rawResponses_concat, hraws]
      rfl
    · rw [decisionEvents_concat, hevents]
      rfl
    · refine ⟨ApprovalStore.newRow approval, ?_, hproposal.status, hproposal.action, ?_⟩
      · exact ApprovalTable.rows_insert? hinsert
      · exact hproposal.traceId.trans htrace.symm

variable (process server i env w) in
/-- What a permitted operation makes of the story so far. -/
theorem story_step (hmay : (containment conversions).may s op) (hs : Story conversions s h) :
    (containment conversions).possible op (exec server i op env w).1 ∧
      Story conversions ((containment conversions).next s op (exec server i op env w).1)
        (h ++ [(system process server).entry i env op w]) := by
  cases op with
  | control op =>
    cases op with
    | uuid4 => exact ⟨trivial, hs.concat_quiet ⟨rfl, rfl, rfl⟩⟩
    | utcNow => exact ⟨trivial, hs.concat_quiet ⟨rfl, rfl, rfl⟩⟩
    | str value => exact ⟨trivial, hs.concat_quiet ⟨rfl, rfl, rfl⟩⟩
    | record record =>
      refine ⟨?_, story_record hmay hs⟩
      change (containment conversions).possible (.control (.record record))
        (ControlPlane.exec i (.record record) env.control w.control).1
      cases hreply : (ControlPlane.exec i (.record record) env.control w.control).1 with
      | error exc => trivial
      | ok event => exact exec_record_ok hreply
    | store op =>
      cases op with
      | create approval =>
        obtain ⟨raw, traceId, rfl, hreplies, hproposal⟩ := hmay
        exact ⟨trivial, story_create hreplies hproposal hs⟩
      | _ => exact hmay.elim
    | _ => exact hmay.elim
  | importOpenai => exact ⟨trivial, hs.concat_quiet ⟨rfl, rfl, rfl⟩⟩
  | openaiClient baseUrl apiKey => exact ⟨trivial, hs.concat_quiet ⟨rfl, rfl, rfl⟩⟩
  | chat request =>
    obtain rfl : s = .start := hmay
    exact ⟨trivial, story_chat hs⟩
  | _ => exact hmay.elim

/-- A permitted operation is not forbidden. -/
theorem not_forbidden_of_may (hmay : (containment conversions).may s op) : ¬op.Forbidden := by
  intro hop
  cases op with
  | control op => cases op <;> first | exact hop | exact hmay
  | mlflow op => exact hmay
  | _ => exact hop

/-! ## The programs keep the discipline -/

section Reason

variable {S : Type} {m : Monitor AgentOp AgentOp.Reply S} {s : S}

/-- The provider asks the LLM once and returns its raw answer. -/
theorem obeys_generate {Q : S → String → Prop}
    (himport : ∀ reply, m.may s .importOpenai ∧ m.next s .importOpenai reply = s)
    (hclient : ∀ url key reply,
      m.may s (.openaiClient url key) ∧ m.next s (.openaiClient url key) reply = s)
    (hchat : ∀ request, m.may s (.chat request) ∧
      ∀ message rest, Q (m.next s (.chat request) (.ok (message :: rest))) message.text)
    (provider : OpenAICompatibleProvider) (systemPrompt userPrompt : String)
    (temperature : PyFloat) :
    (provider.generate systemPrompt userPrompt temperature).Obeys m Q (fun _ _ => True) s := by
  unfold OpenAICompatibleProvider.generate OpenAICompatibleProvider.importOpenai
  rw [Program.obeys_bind, Program.obeys_bind, Program.obeys_request]
  refine ⟨(himport (.ok true)).1, fun reply _ => ?_⟩
  rw [(himport reply).2, Program.obeys_bind]
  refine Program.obeys_ofExcept _ (fun found _ => ?_) fun _ _ => trivial
  split
  · change (Program.Obeys m _ _ s (_ >>= _))
    rw [Program.obeys_bind, Program.obeys_request]
    refine ⟨(hclient _ _ (.ok ())).1, fun client _ => ?_⟩
    rw [(hclient _ _ client).2, Program.obeys_bind]
    refine Program.obeys_ofExcept _ (fun _ _ => ?_) fun _ _ => trivial
    unfold OpenAICompatibleProvider.create
    rw [Program.obeys_bind, Program.obeys_bind, Program.obeys_request]
    refine ⟨(hchat _).1, fun choices _ => ?_⟩
    rw [Program.obeys_bind]
    refine Program.obeys_ofExcept _ (fun messages hmessages => ?_) fun _ _ => trivial
    subst hmessages
    cases messages with
    | nil => trivial
    | cons message rest => exact (hchat _).2 message rest
  · trivial

/-- The orchestrator returns what it makes of the answer. -/
theorem obeys_reason {Q : S → AgentDecision → Prop}
    (himport : ∀ reply, m.may s .importOpenai ∧ m.next s .importOpenai reply = s)
    (hclient : ∀ url key reply,
      m.may s (.openaiClient url key) ∧ m.next s (.openaiClient url key) reply = s)
    (hchat : ∀ request, m.may s (.chat request) ∧ ∀ message rest decision,
      decisionOf conversions message.text = .ok decision →
        Q (m.next s (.chat request) (.ok (message :: rest))) decision)
    (agent : OrchestratorAgent) (task : String) (context : Option Dict) :
    (agent.reason conversions task context).Obeys m Q (fun _ _ => True) s := by
  unfold OrchestratorAgent.reason
  rw [Program.obeys_bind]
  refine Program.obeys_ofExcept _ (fun prompt _ => ?_) fun _ _ => trivial
  rw [Program.obeys_bind]
  refine obeys_generate himport hclient (fun request => ⟨(hchat request).1, ?_⟩) _ _ _ _
  exact fun message rest => Program.obeys_ofExcept _
    (fun decision hdecision => (hchat request).2 message rest decision hdecision) fun _ _ => trivial

end Reason

/-- The operations that only name something. -/
def AgentOp.Naming : AgentOp → Prop
  | .control op => AgentService.isNaming op
  | _ => False

/-- Finding out the trace id does not get on with the decision. -/
theorem obeys_traceIdOf (context : Dict) :
    ((AgentService.traceIdOf context).translate process.implement).Obeys (containment conversions)
      (fun s _ => s = .start) (fun _ _ => True) .start := by
  have huses : ((AgentService.traceIdOf context).translate process.implement).Uses
      AgentOp.Naming := by
    refine (AgentService.traceIdOf_uses context).translate fun op hop => ?_
    cases op with
    | str value => exact Program.uses_request rfl
    | uuid4 => exact Program.uses_request rfl
    | _ => cases hop
  refine (huses.obeys (I := fun s => s = .start) (fun s op hs hop => ?_)
    (fun s op reply hs hop _ => ?_) rfl).mono (fun _ _ h => h) fun _ _ _ => trivial
  · cases op with
    | control op => cases op <;> trivial
    | _ => exact hop.elim
  · subst hs
    cases op with
    | control op => cases op <;> first | rfl | cases hop
    | _ => exact hop.elim

/-- Recording the event of an opened approval does not get on with the decision. -/
theorem obeys_record {event : AuditRecord} {Q : Stage → AuditEvent → Prop}
    (hmay : event.eventType = .decisionCreated → ∃ raw, s = .answered raw)
    (hQ : ∀ stored, Q (s.after event) stored) :
    ((ControlPlane.record event).translate process.implement).Obeys (containment conversions) Q
      (fun _ _ => True) s := by
  unfold ControlPlane.record
  rw [Program.obeys_translate_bind, Program.obeys_translate_request]
  refine (Program.obeys_request (AgentOp.control _)).mpr ⟨hmay, fun reply _ => ?_⟩
  rw [Program.translate_ofExcept]
  refine Program.obeys_ofExcept _ (fun stored hstored => ?_) fun _ _ => trivial
  subst hstored
  exact hQ stored

/-- The proposal of an answer opens its approval. -/
theorem obeys_proposeRetraining (request : AgentDecisionRequest) (decision : AgentDecision)
    {raw traceId : String} (hreplies : RepliesWith conversions raw "propose_retraining") :
    ((AgentService.proposeRetraining request decision traceId).translate process.implement).Obeys
      (containment conversions) (fun _ _ => True) (fun _ _ => True) (.announced raw traceId) := by
  unfold AgentService.proposeRetraining
  rw [Program.obeys_translate_bind, Program.obeys_translate_request]
  refine (Program.obeys_request (AgentOp.control _)).mpr ⟨trivial, fun approvalId _ => ?_⟩
  rw [Program.obeys_translate_bind, Program.obeys_translate_request]
  refine (Program.obeys_request (AgentOp.control _)).mpr ⟨trivial, fun requestedAt _ => ?_⟩
  rw [Program.obeys_translate_bind, ControlPlane.store, Program.obeys_translate_bind,
    Program.obeys_translate_request]
  refine (Program.obeys_request (AgentOp.control _)).mpr
    ⟨⟨raw, traceId, rfl, hreplies, rfl, rfl, rfl⟩, fun reply _ => ?_⟩
  rw [Program.translate_ofExcept]
  refine Program.obeys_ofExcept _ (fun approval _ => ?_) fun _ _ => trivial
  rw [Program.obeys_translate_bind]
  refine obeys_record (fun hdecision => ?_) fun _ => trivial
  cases hdecision

/-- A request for a decision keeps the discipline. -/
theorem obeys_createAgentDecision (request : AgentDecisionRequest) :
    ((AgentService.createAgentDecision request).translate process.implement).Obeys
      (containment process.conversions) (fun _ _ => True) (fun _ _ => True) .start := by
  unfold AgentService.createAgentDecision
  rw [Program.obeys_translate_bind]
  refine (obeys_traceIdOf _).mono (fun s traceId hs => ?_) fun _ _ h => h
  subst hs
  split
  · trivial
  rw [Program.obeys_translate_bind, Program.obeys_translate_request, AgentProcess.implement,
    Program.obeys_attempt]
  refine (obeys_reason (Q := fun s decision => ∃ raw, s = .answered raw ∧
    decisionOf process.conversions raw = .ok decision) (fun _ => ⟨trivial, rfl⟩)
    (fun _ _ _ => ⟨trivial, rfl⟩) (fun _ => ⟨rfl, fun message _ decision hdecision =>
      ⟨message.text, rfl, hdecision⟩⟩) _ _ _).mono (fun s decision hs => ?_) fun _ _ _ => ?_
  · obtain ⟨raw, rfl, hdecision⟩ := hs
    rw [Program.obeys_translate_bind, Program.translate_ofExcept]
    refine Program.obeys_ofExcept _ (fun decision' heq => ?_) fun _ _ => trivial
    obtain rfl : decision = decision' := Except.ok.inj heq
    rw [Program.obeys_translate_bind]
    refine obeys_record (fun _ => ⟨raw, rfl⟩) fun _ => ?_
    by_cases hpropose : decision.action = "propose_retraining"
    · simp only [if_pos hpropose, Program.obeys_translate_bind, Program.obeys_translate_map]
      have hreplies := decisionOf_action hdecision (by rw [hpropose]; decide)
      rw [hpropose] at hreplies
      exact (obeys_proposeRetraining request decision hreplies).mono (fun _ _ _ => trivial)
        fun _ _ h => h
    · simp only [if_neg hpropose]
      trivial
  · rw [Program.obeys_translate_bind, Program.translate_ofExcept]
    trivial

/-! ## Containment in every run -/

/-- At every stage, the table is left alone or the proposed approval has been opened. -/
theorem Story.atMostProposed (hs : Story conversions s h) : AtMostProposed conversions h := by
  cases s with
  | start => exact .inl hs.1
  | answered raw => exact .inl hs.1
  | announced raw traceId => exact .inl hs.1
  | proposed => exact hs

/-- One operation more is framed, if it is not forbidden. -/
theorem forall_framed_concat (hserver : server.Documented) (hh : ∀ d ∈ h, Framed d)
    (hop : ¬op.Forbidden) :
    ∀ d ∈ h ++ [(system process server).entry i env op w], Framed d := by
  intro d hd
  obtain hd | hd := List.mem_append.mp hd
  · exact hh d hd
  · rw [List.mem_singleton.mp hd]
    exact framed_entry hserver hop

/-- What a request keeps at all times, whatever others do. -/
def keeping (always : List AgentEntry → Prop) :
    Contract AgentOp AgentOp.Reply AgentEnv AgentWorld where
  rely _ _ := True
  given _ := True
  always := always

/-- What a request of the service ensures of its own operations holds in every run. -/
theorem keeping_run {always : List AgentEntry → Prop} {r : AgentRequest}
    (hprogram : ∀ w, (system process server).Ensures i (keeping always) (fun _ _ _ => True)
      (fun _ _ _ => True) [] w (serve process r)) (w : AgentWorld) (events : List AgentEvent)
    {rest : Option (AgentProgram AgentResponse)}
    (hcaller : ((system process server).run w events).callers[i]? = some ⟨r, rest⟩) :
    always (own ((system process server).run w events).trace i) :=
  (Machine.keeps_run (fun _ => trivial) (fun _ _ _ _ _ => trivial) (fun _ _ _ _ => trivial)
    (fun _ _ => trivial) hprogram w events fun _ _ => trivial).always rest hcaller

/-- A request for a decision is contained at all times. -/
theorem ensures_createAgentDecision (hserver : server.Documented) (request : AgentDecisionRequest)
    (w : AgentWorld) :
    (system process server).Ensures i (keeping (DecisionContained process.conversions))
      (fun _ _ _ => True) (fun _ _ _ => True) [] w
      (serve process (.control (.createAgentDecision request))) := by
  have hobeys : (serve process (.control (.createAgentDecision request))).Obeys
      (containment process.conversions) (fun _ _ => True) (fun _ _ => True) .start := by
    rw [serve, Program.obeys_map, ControlPlane.serve, Program.obeys_translate_map]
    exact obeys_createAgentDecision request
  refine (Machine.ensures_of_obeys hobeys
    (I := fun s h _ => Story process.conversions s h ∧ ∀ e ∈ h, Framed e) ?_ ?_ ?_).mono
    (fun _ _ _ _ _ => trivial) fun _ _ _ _ _ => trivial
  · exact fun s h w hs => ⟨hs.2, hs.1.atMostProposed⟩
  · intro s h w w' op env hmay hs _ _
    obtain ⟨hpossible, hstory⟩ := story_step process server i env w' hmay hs.1
    exact ⟨hpossible, hstory, forall_framed_concat hserver hs.2 (not_forbidden_of_may hmay)⟩
  · exact ⟨⟨by simp, rfl, rfl⟩, by simp⟩

/-- What the tool-calling agent performs is not forbidden and does not write the table. -/
theorem harmless_framed (hop : ToolCallingAgent.Harmless op) :
    ¬op.Forbidden ∧ ∀ o, op ≠ .control (.store o) := by
  refine ⟨fun hforbidden => ?_, fun o ho => ?_⟩
  · cases op with
    | control op => cases op <;> first | exact hforbidden | exact hop
    | mlflow op => cases op <;> first | exact hforbidden | exact hop
    | _ => exact hforbidden
  · subst ho
    exact hop

/-- The agent of the service can only call tools of the default registry. -/
theorem obeys_buildAgent : process.buildAgent.Obeys (.only ToolCallingAgent.Harmless)
    (fun _ agent => ∀ tool ∈ agent.registry.tools.items, ∀ arguments,
      (tool.handler arguments).Uses ToolCallingAgent.Harmless)
    (fun _ _ => True) () := by
  unfold AgentProcess.buildAgent
  rw [Program.obeys_bind, Program.obeys_request]
  refine ⟨trivial, fun client _ => ?_⟩
  rw [Program.obeys_bind]
  refine Program.obeys_ofExcept _ (fun _ _ => ?_) fun _ _ => trivial
  rw [Program.obeys_bind]
  refine Program.obeys_ofExcept _ (fun registry hregistry => ?_) fun _ _ => trivial
  refine Program.obeys_ofExcept _ (fun agent hagent tool htool arguments => ?_)
    fun _ _ => trivial
  have hsame : agent.registry = registry := by
    unfold ToolCallingAgent.init at hagent
    split at hagent
    · cases hagent
    · rw [← Except.ok.inj hagent]
  rw [hsame] at htool
  exact (handler_default_uses hregistry htool arguments).weaken fun _ =>
    ToolCallingAgent.harmless_of_readOnly

/-- So a run of the agent is harmless. -/
theorem runAgent_uses (request : AgentRunRequest) :
    (process.runAgent request).Uses ToolCallingAgent.Harmless := by
  unfold AgentProcess.runAgent
  refine .bind (.attempt ?_) fun result => Program.uses_ofExcept _
  exact (Program.obeys_bind _ _).mpr (obeys_buildAgent.mono
    (fun _ agent htool => ToolCallingAgent.translate_run_uses htool request.task) fun _ _ h => h)

/-- A run of the agent is contained at all times. -/
theorem ensures_runAgent (hserver : server.Documented) (request : AgentRunRequest)
    (w : AgentWorld) :
    (system process server).Ensures i (keeping RunContained) (fun _ _ _ => True)
      (fun _ _ _ => True) [] w (serve process (.runAgent request)) := by
  have huses : (serve process (.runAgent request)).Uses ToolCallingAgent.Harmless :=
    (Program.obeys_map _ _).mpr (runAgent_uses request)
  refine (Machine.ensures_of_obeys huses (I := fun _ h _ => RunContained h) ?_ ?_ ?_).mono
    (fun _ _ _ _ _ => trivial) fun _ _ _ _ _ => trivial
  · exact fun _ h w hh => hh
  · intro _ h w w' op env hop hh _ _
    obtain ⟨hforbidden, hstore⟩ := harmless_framed hop
    exact ⟨trivial, forall_framed_concat hserver hh.framed hforbidden,
      forall_tableKept_concat hh.approvals (tableKept_entry hstore)⟩
  · exact ⟨by simp, by simp⟩

/-- The LLM is contained. In every run of the service, whatever the LLM answers and however the
request ends: a request for a decision opens at most the approval that the answer proposes, a run of
the agent leaves the approval table alone, and neither applies a Job or moves an alias. -/
theorem llm_contained (process : AgentProcess) {server : MlflowServer}
    (hserver : server.Documented) (w : AgentWorld) (events : List AgentEvent) (i : ℕ) :
    let config := (system process server).run w events
    (∀ request rest,
      config.callers[i]? = some ⟨.control (.createAgentDecision request), rest⟩ →
        DecisionContained process.conversions (own config.trace i)) ∧
    ∀ request rest, config.callers[i]? = some ⟨.runAgent request, rest⟩ →
      RunContained (own config.trace i) :=
  ⟨fun request _ hcaller =>
      keeping_run (ensures_createAgentDecision hserver request) w events hcaller,
    fun request _ hcaller => keeping_run (ensures_runAgent hserver request) w events hcaller⟩

/-- The answer that proposes retraining. -/
def proposalText : String := "\x7b\"action\": \"propose_retraining\"\x7d"

/-- The texts of a small run, as the standard library reads and prints them. -/
def sampleConversions : Conversions where
  loads text :=
    if text = proposalText then .ok (.obj [("action", .str "propose_retraining")])
    else if text = "\x7b\x7d" then .ok (.obj [])
    else .error (.jsonDecodeError "Expecting value: line 1 column 1 (char 0)")
  dumps
    | .obj (("task", _) :: _) => .ok ("\x7b\"task\": \"check the drift\", " ++
        "\"context\": \x7b\x7d, \"available_tools\": []\x7d")
    | _ => .ok ("\x7b\"available\": false, \"action\": \"manual_review\", " ++
        "\"reason\": \"Training manifest not found: k8s/jobs/model-training-job.yaml\", " ++
        "\"requires_human_approval\": true\x7d")
  str _ := "None"
  parseFloat _ := none
  excName _ := "Exception"

/-- A request for a decision. -/
def driftDecision : AgentDecisionRequest where
  task := "check the drift"
  taskLength := by decide

/-- A request for a run. -/
def driftRun : AgentRunRequest where
  task := "check the drift"
  taskLength := by decide

/-- The LLM asks for a plan. -/
def planCall : ToolCall := ⟨"c1", "kubernetes_get_training_job_plan", none⟩

/-- The LLM proposes retraining to one request, and asks for a plan in the other. -/
def proposalRun : List AgentEvent :=
  [.arrive (.control (.createAgentDecision driftDecision)), .arrive (.runAgent driftRun),
    .step 0 { control := { uuid := "t1" } }, .step 0 {}, .step 0 {},
    .step 0 { choices := .ok [{ content := some proposalText }] },
    .step 0 { control := { uuid := "e1" } }, .step 0 { control := { uuid := "a1" } }, .step 0 {},
    .step 0 {}, .step 0 { control := { uuid := "e2" } },
    .step 1 {}, .step 1 { control := { uuid := "t2" } }, .step 1 { control := { uuid := "e3" } },
    .step 1 {}, .step 1 {}, .step 1 { choices := .ok [{ toolCalls := [planCall] }] },
    .step 1 { control := { uuid := "e4" } }, .step 1 {}, .step 1 { control := { uuid := "e5" } },
    .step 1 { choices := .ok [{ content := some "done" }] }, .step 1 { control := { uuid := "e6" } }]

/-- A world without approvals and without models. -/
def emptyWorld : AgentWorld where
  registry :=
    { experiments := fun _ => none, runs := .empty, modelVersions := .empty
      aliases := fun _ _ => none }

/-- The end of this run. -/
def proposalConfig := (system { conversions := sampleConversions } trackingServer).run emptyWorld
  proposalRun

/-- Both requests of this run are contained, and the proposed approval has been opened. -/
theorem llm_contained_proposal :
    DecisionContained sampleConversions (own proposalConfig.trace 0) ∧
      RunContained (own proposalConfig.trace 1) ∧
      proposalConfig.world.approvals.rows.map (fun row => (row.approvalId, row.traceId)) =
        [("a1", "t1")] := by
  have hdecision : (proposalRun.filterMap Event.request?)[0]? =
      some (.control (.createAgentDecision driftDecision)) := rfl
  have hrun : (proposalRun.filterMap Event.request?)[1]? = some (.runAgent driftRun) := rfl
  obtain ⟨_, hdecision⟩ := Machine.exists_caller
    (system { conversions := sampleConversions } trackingServer) emptyWorld hdecision
  obtain ⟨_, hrun⟩ := Machine.exists_caller
    (system { conversions := sampleConversions } trackingServer) emptyWorld hrun
  have hcontained := llm_contained { conversions := sampleConversions } trackingServer_documented
    emptyWorld proposalRun
  exact ⟨(hcontained 0).1 _ _ hdecision, (hcontained 1).2 _ _ hrun, by decide +kernel⟩

end CreditScoringMlops.Agent
