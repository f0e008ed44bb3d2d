import CreditScoringMlops.ControlPlane.AuditTrail

/-!
# The audit trail tells the truth

A request records an event about an approval only after a call of the store, with nothing but the
way to Kubernetes and other events between the two. That call has left the approval in the state
that the event tells, under its trace id. So the trail tells no state that the database did not
have, whatever else fails and whoever else runs.
-/

namespace CreditScoringMlops.ControlPlane

open Python Interaction Program ApprovalStore
open ClaimProtocol (claimWon)

/-! ## What an event tells -/

/-- The status with a text. -/
def ApprovalStatus.ofValue? (text : String) : Option ApprovalStatus :=
  [pending, approved, rejected, executing, unknown, completed, failed].find? (·.value = text)

/-- Every status is read back from its text. -/
@[simp] theorem ofValue?_value (status : ApprovalStatus) :
    ApprovalStatus.ofValue? status.value = some status := by
  cases status <;> rfl

/-- The events about an approval. The others are about what the agent does. -/
def AuditRecord.isAboutApproval (event : AuditRecord) : Bool :=
  match event.eventType with
  | .agentRequested | .toolCalled | .toolResult | .decisionCreated => false
  | _ => true

/-- The state that an event tells: the one its kind stands for, or the one in its status column. -/
def AuditRecord.told (event : AuditRecord) : Option ApprovalStatus :=
  match event.eventType with
  | .approvalRequested => some .pending
  | .executionStarted | .executionRetry => some .executing
  | .executionUnknown => some .unknown
  | .executionCompleted => some .completed
  | .executionFailed => some .failed
  | _ => event.status.bind ApprovalStatus.ofValue?

/-- An event is right about a row: about its trace id, its state and who has decided it. -/
structure AuditRecord.IsRight (event : AuditRecord) (row : ApprovalRequestRow) : Prop where
  traceId : row.traceId = event.traceId
  told : event.told = some row.status
  decidedBy : event.eventType = .approvalDecided → row.decidedBy = some event.actor

/-- The call of the store that an event reports, for the events that only the caller that has made
the transition records. -/
def AuditEventType.reports : AuditEventType → StoreOp → Bool
  | approvalRequested, .create _ => true
  | approvalDecided, .decide _ => true
  | executionStarted, .claimExecution _ => true
  | _, _ => false

/-- These events. -/
def AuditEventType.isFirsthand : AuditEventType → Bool
  | approvalRequested | approvalDecided | executionStarted => true
  | _ => false

/-! ## Truthful histories -/

/-- The approval that a call of the store is about, if the call has returned. -/
def returnedFor : (op : Op) → op.Reply → Option String
  | .store op, .ok _ => op.target
  | _, _ => none

/-- The last call of the store in a history has returned and left such a row. -/
def LastLeft (h : List LogEntry) (P : ApprovalRequestRow → Prop) : Prop :=
  ∃ pre e post x row, h = pre ++ e :: post ∧ returnedFor e.op e.reply = some x ∧
    e.after.approvals.lookup x = some row ∧ P row ∧ ∀ f ∈ post, ∀ op, f.op ≠ .store op

/-- The last operation of a history is the call that an event of this kind reports, and has made
the transition of this approval. -/
def JustMade (h : List LogEntry) (kind : AuditEventType) (x : String) : Prop :=
  ∃ pre e op row, h = pre ++ [e] ∧ e.op = .store op ∧ kind.reports op ∧
    returnedFor e.op e.reply = some x ∧ e.after.approvals.lookup x = some row ∧
    statusOf e.before.approvals x ≠ some row.status

/-- An event may be recorded after a history: it is right about the row that the last call of the
store has left, and what it reports firsthand has just been made. -/
structure Told (h : List LogEntry) (event : AuditRecord) : Prop where
  left : LastLeft h event.IsRight
  made : event.eventType.isFirsthand → ∃ x, JustMade h event.eventType x

/-- Every event about an approval is recorded so. -/
def Truthful (h : List LogEntry) : Prop :=
  ∀ pre e post event, h = pre ++ e :: post → e.op = .record event → event.isAboutApproval →
    Told pre event

section Histories

variable {h : List LogEntry} {e : LogEntry} {P : ApprovalRequestRow → Prop}

/-- Nothing has been told in the beginning. -/
theorem truthful_nil : Truthful [] := by
  intro pre e post event hsplit
  simp at hsplit

/-- An operation keeps a history truthful, unless it records an event that is not right. -/
theorem Truthful.concat (hh : Truthful h)
    (hevent : ∀ event, e.op = .record event → event.isAboutApproval → Told h event) :
    Truthful (h ++ [e]) := by
  intro pre e' post event hsplit hop habout
  rcases List.eq_nil_or_concat post with rfl | ⟨init, last, rfl⟩
  · obtain ⟨rfl, hlast⟩ := List.append_inj' hsplit rfl
    obtain rfl : e = e' := by simpa using hlast
    exact hevent event hop habout
  · rw [List.concat_eq_append, ← List.cons_append, ← List.append_assoc] at hsplit
    obtain ⟨hpast, -⟩ := List.append_inj' hsplit rfl
    exact hh pre e' init event hpast hop habout

/-- The last call of the store stays the last one until the next. -/
theorem LastLeft.concat (hh : LastLeft h P) (hop : ∀ op, e.op ≠ .store op) :
    LastLeft (h ++ [e]) P := by
  obtain ⟨pre, f, post, x, row, rfl, hreturned, hrow, hP, hpost⟩ := hh
  refine ⟨pre, f, post ++ [e], x, row, by simp, hreturned, hrow, hP, fun g hg => ?_⟩
  rcases List.mem_append.mp hg with hg | hg
  · exact hpost g hg
  · exact List.mem_singleton.mp hg ▸ hop

/-- The call that has just returned is the last one. -/
theorem lastLeft_store {i : ℕ} {env : Env} {op : StoreOp} {w : World} {a : op.Result} {x : String}
    {row : ApprovalRequestRow} (hreply : (exec i (.store op) env w).1 = .ok a)
    (htarget : op.target = some x)
    (hrow : (exec i (.store op) env w).2.approvals.lookup x = some row) (hP : P row) :
    LastLeft (h ++ [system.entry i env (.store op) w]) P := by
  refine ⟨h, _, [], x, row, rfl, ?_, hrow, hP, by simp⟩
  change returnedFor (.store op) (exec i (.store op) env w).1 = some x
  rw [hreply]
  exact htarget

/-- A call that has just returned and changed the status is one that an event may report. -/
theorem justMade_store {i : ℕ} {env : Env} {op : StoreOp} {w : World} {a : op.Result} {x : String}
    {kind : AuditEventType} {row : ApprovalRequestRow} (hreports : kind.reports op)
    (hreply : (exec i (.store op) env w).1 = .ok a) (htarget : op.target = some x)
    (hrow : (exec i (.store op) env w).2.approvals.lookup x = some row)
    (hstatus : statusOf w.approvals x ≠ some row.status) :
    JustMade (h ++ [system.entry i env (.store op) w]) kind x := by
  refine ⟨h, _, op, row, rfl, rfl, hreports, ?_, hrow, hstatus⟩
  change returnedFor (.store op) (exec i (.store op) env w).1 = some x
  rw [hreply]
  exact htarget

/-- What else is known of the row. -/
theorem LastLeft.mono {P' : ApprovalRequestRow → Prop} (hh : LastLeft h P)
    (hP : ∀ row, P row → P' row) : LastLeft h P' := by
  obtain ⟨pre, f, post, x, row, hsplit, hreturned, hrow, hrowP, hpost⟩ := hh
  exact ⟨pre, f, post, x, row, hsplit, hreturned, hrow, hP row hrowP, hpost⟩

end Histories

/-! ## How the handlers keep to the truth -/

/-- Others may change the table, and any operation may fail. -/
def truthful : Contract Op Op.Reply Env World where
  rely := TableEvolves
  given _ := True
  always := Truthful

/-- The operations that neither call the store nor record an event. -/
def isSilent : Op → Bool
  | .store _ => false
  | .record _ => false
  | _ => true

section Rules

variable {A : Type} {i : ℕ} {h : List LogEntry} {w : World}
  {E : List LogEntry → World → PyExc → Prop}

/-- A history goes on silently. -/
structure GoesOn (h : List LogEntry) (w : World) (h' : List LogEntry) (w' : World) : Prop where
  truthful : Truthful h'
  lastLeft : ∀ P, LastLeft h P → LastLeft h' P
  evolves : TableEvolves w w'

/-- A program that performs silent operations only. -/
theorem truthful_of_uses {p : Handler A} (hp : p.Uses fun op => isSilent op) (hh : Truthful h) :
    system.Ensures i truthful (fun h' w' _ => GoesOn h w h' w') (fun h' w' _ => GoesOn h w h' w')
      h w p := by
  refine (Machine.ensures_of_obeys hp (I := fun _ h' w' => GoesOn h w h' w')
    (fun _ _ _ hgoes => hgoes.truthful) ?_ ⟨hh, fun _ hP => hP, fun _ row hrow =>
      ⟨row, hrow, .refl row⟩⟩).mono (fun _ _ _ _ ⟨_, _, hI⟩ => hI) fun _ _ _ _ ⟨_, _, hI⟩ => hI
  intro _ h' w' w'' op env hop hgoes hrely _
  have hsilent : isSilent op := hop
  refine ⟨trivial, hgoes.truthful.concat ?_, fun P hP => (hgoes.lastLeft P hP).concat ?_,
    evolves_exec (hgoes.evolves.trans hrely) op env⟩
  · rintro event heq
    obtain rfl : op = .record event := heq
    cases hsilent
  · rintro o heq
    obtain rfl : op = .store o := heq
    cases hsilent

/-- One silent operation. -/
theorem truthful_ask {op : Op} (hop : isSilent op) {Q : List LogEntry → World → op.Reply → Prop}
    (hh : Truthful h) (hQ : ∀ h' w' a, GoesOn h w h' w' → Q h' w' a) :
    system.Ensures i truthful Q (fun _ _ _ => True) h w (ask op) :=
  (truthful_of_uses (uses_request hop) hh).mono (fun _ _ _ _ hgoes => hQ _ _ _ hgoes)
    fun _ _ _ _ _ => trivial

/-- A call of the store tells nothing. -/
theorem truthful_store {op : StoreOp} {Q : List LogEntry → World → op.Result → Prop}
    (hh : Truthful h)
    (hok : ∀ w' env a, TableEvolves w w' → (exec i (.store op) env w').1 = .ok a →
      Truthful (h ++ [system.entry i env (.store op) w']) →
      Q (h ++ [system.entry i env (.store op) w']) (exec i (.store op) env w').2 a) :
    system.Ensures i truthful Q (fun _ _ _ => True) h w (store op) := by
  have hnext (w' : World) (env : Env) : Truthful (h ++ [system.entry i env (.store op) w']) :=
    hh.concat fun event heq => by cases heq
  exact ensures_store op hh fun w' env hrely _ => ⟨hnext w' env,
    fun a ha => hok w' env a hrely ha (hnext w' env), fun _ _ => trivial⟩

/-- An event is recorded that is right, if it is about an approval. -/
theorem truthful_record {event : AuditRecord} {Q : List LogEntry → World → AuditEvent → Prop}
    (hh : Truthful h) (hevent : event.isAboutApproval → Told h event)
    (hQ : ∀ h' w' a, GoesOn h w h' w' → Q h' w' a) :
    system.Ensures i truthful Q (fun _ _ _ => True) h w (record event) := by
  have hnext (w' : World) (env : Env) : Truthful (h ++ [system.entry i env (.record event) w']) :=
    hh.concat fun event' heq habout => by cases heq; exact hevent habout
  refine ensures_record event hh fun w' env hrely _ => ⟨hnext w' env, fun a _ => ?_,
    fun _ _ => trivial⟩
  exact hQ _ _ _ ⟨hnext w' env, fun P hP => hP.concat nofun, evolves_exec hrely _ env⟩

end Rules

/-- A row with this trace id in this state. -/
def InState (traceId : String) (status : ApprovalStatus) (row : ApprovalRequestRow) : Prop :=
  row.traceId = traceId ∧ row.status = status

/-- An event is right about a row in the state that it tells, unless it has to name who decided. -/
theorem isRight_of_inState {event : AuditRecord} {traceId : String} {status : ApprovalStatus}
    {row : ApprovalRequestRow} (hrow : InState traceId status row)
    (htrace : event.traceId = traceId) (htold : event.told = some status)
    (hdecided : event.eventType ≠ .approvalDecided) : event.IsRight row :=
  ⟨hrow.1.trans htrace.symm, htold.trans (congrArg some hrow.2.symm), fun h => absurd h hdecided⟩

/-- So an event may be recorded that reports nothing firsthand. -/
theorem told_of_inState {h : List LogEntry} {event : AuditRecord} {traceId : String}
    {status : ApprovalStatus} (hleft : LastLeft h (InState traceId status))
    (htrace : event.traceId = traceId) (htold : event.told = some status)
    (hkind : ¬event.eventType.isFirsthand) : Told h event := by
  have hdecided : event.eventType ≠ .approvalDecided := fun heq => hkind (heq ▸ rfl)
  exact ⟨hleft.mono fun row hrow => isRight_of_inState hrow htrace htold hdecided,
    fun hfirsthand => absurd hfirsthand hkind⟩

section Calls

variable {i : ℕ} {h : List LogEntry} {w : World} {env : Env} {x traceId : String}

/-- A call leaves the row as it shows the approval. -/
theorem lastLeft_shown {op : StoreOp} {reply : op.Result} {a : ApprovalRequest}
    (hreply : (exec i (.store op) env w).1 = .ok reply) (htarget : op.target = some x)
    (hshown : op.shown reply = some a) :
    LastLeft (h ++ [system.entry i env (.store op) w]) (InState a.traceId a.status) := by
  obtain ⟨row, hrow, htrace, hstatus⟩ := shown_of_perform (exec_store_ok hreply) htarget hshown
  exact lastLeft_store hreply htarget hrow ⟨htrace.symm, hstatus.symm⟩

/-- An approval that is shown has the trace id of its row. -/
theorem traceId_of_shown {op : StoreOp} {reply : op.Result} {a : ApprovalRequest}
    (hreply : (exec i (.store op) env w).1 = .ok reply) (htarget : op.target = some x)
    (hshown : op.shown reply = some a) (htrace : HasTrace x traceId w) : a.traceId = traceId := by
  obtain ⟨row, hrow, htraceId, -⟩ := shown_of_perform (exec_store_ok hreply) htarget hshown
  obtain ⟨row', hrow', rfl⟩ := htrace.mono (exec_tableEvolves i (.store op) env w)
  rw [htraceId, Option.some.inj (hrow.symm.trans hrow')]

/-- So a call leaves a row whose trace id is known as it shows the approval. -/
theorem lastLeft_known {op : StoreOp} {reply : op.Result} {a : ApprovalRequest}
    (hreply : (exec i (.store op) env w).1 = .ok reply) (htarget : op.target = some x)
    (hshown : op.shown reply = some a) (htrace : HasTrace x traceId w) :
    LastLeft (h ++ [system.entry i env (.store op) w]) (InState traceId a.status) :=
  traceId_of_shown hreply htarget hshown htrace ▸ lastLeft_shown hreply htarget hshown

/-- A mark that returns leaves the row in the state of the mark. -/
theorem lastLeft_mark {op : StoreOp} {reply : op.Result} {target : ApprovalStatus}
    (hreply : (exec i (.store op) env w).1 = .ok reply) (hmarks : op.marks = some (x, target))
    (htrace : HasTrace x traceId w) :
    LastLeft (h ++ [system.entry i env (.store op) w]) (InState traceId target) := by
  have htarget : op.target = some x := by cases op <;> cases hmarks <;> rfl
  have hok := exec_store_ok hreply
  obtain ⟨row, hrow, rfl⟩ := htrace
  obtain ⟨-, a, result, hperform⟩ | ⟨hrepeats, a, hperform⟩ | ⟨-, -, hperform⟩ :=
    mark_of_lookup env.now hmarks hrow
  · have hwritten : (w.approvals.write { row with
        status := target, executionResult := some result }).lookup x = some _ :=
      ApprovalTable.lookup_write_of_lookup hrow rfl
    rw [(Prod.mk.inj (Except.ok.inj (hperform.symm.trans hok))).2] at hwritten
    exact lastLeft_store hreply htarget hwritten ⟨rfl, rfl⟩
  · have hkept := hrow
    rw [(Prod.mk.inj (Except.ok.inj (hperform.symm.trans hok))).2] at hkept
    refine lastLeft_store hreply htarget hkept ⟨rfl, ?_⟩
    -- a mark is repeated only on a row that is in its state
    cases target <;> cases hstatus : row.status <;> simp_all [markRepeats]
  · cases hperform.symm.trans hok

/-- A claim that is won shows an executing approval. -/
theorem status_of_claim {op : StoreOp} {reply : op.Result} {route : Route} {a : ApprovalRequest}
    (hreply : (exec i (.store op) env w).1 = .ok reply)
    (hwon : claimWon (.store op) (.ok reply) = some (route, x)) (hshown : op.shown reply = some a) :
    a.status = .executing := by
  obtain ⟨hop, old, -, -, hafter⟩ := claimWon_exec (hreply ▸ hwon)
  have htarget : op.target = some x := by
    cases hop
    cases route <;> rfl
  obtain ⟨row, hrow, -, hstatus⟩ := shown_of_perform (exec_store_ok hreply) htarget hshown
  rw [hstatus, Option.some.inj (hrow.symm.trans hafter)]

/-- A decision leaves the row with the name of who has decided. -/
theorem lastLeft_decide {d : ApprovalDecision} {a : ApprovalRequest}
    (hreply : (exec i (.store (.decide d)) env w).1 = .ok a) :
    LastLeft (h ++ [system.entry i env (.store (.decide d)) w]) fun row =>
      InState a.traceId a.status row ∧ row.decidedBy = some d.decidedBy := by
  obtain ⟨row, hrow, htrace, hstatus⟩ := shown_of_perform (exec_store_ok hreply) rfl rfl
  refine lastLeft_store hreply rfl hrow ⟨⟨htrace.symm, hstatus.symm⟩, ?_⟩
  obtain ⟨old, hold, -, htable⟩ := decide_ok (exec_store_ok hreply)
  rw [htable] at hrow
  have hwritten := hrow.symm.trans (ApprovalTable.lookup_write_of_lookup hold rfl)
  exact congrArg (·.decidedBy) (Option.some.inj hwritten)

/-- An approval that has just been created was not there before. -/
theorem justMade_create {request a : ApprovalRequest}
    (hreply : (exec i (.store (.create request)) env w).1 = .ok a) :
    JustMade (h ++ [system.entry i env (.store (.create request)) w]) .approvalRequested
      request.approvalId := by
  obtain ⟨row, hrow, -⟩ := shown_of_perform (exec_store_ok hreply) rfl rfl
  refine justMade_store rfl hreply rfl hrow ?_
  have hnew := (ApprovalTable.lookup_insert? (create_ok (exec_store_ok hreply)).2 "").1
  change (w.approvals.lookup (newRow request).approvalId).map (·.status) ≠ some row.status
  rw [hnew]
  exact nofun

/-- One that has just been decided was pending. -/
theorem justMade_decide {d : ApprovalDecision} {a : ApprovalRequest}
    (hreply : (exec i (.store (.decide d)) env w).1 = .ok a) :
    JustMade (h ++ [system.entry i env (.store (.decide d)) w]) .approvalDecided d.approvalId := by
  obtain ⟨old, hold, hpending, htable⟩ := decide_ok (exec_store_ok hreply)
  refine justMade_store rfl hreply rfl
    (by rw [htable]; exact ApprovalTable.lookup_write_of_lookup hold rfl) ?_
  rw [statusOf, hold, Option.map_some, hpending]
  cases d.approved <;> simp

/-- One whose execution has just been claimed was approved. -/
theorem justMade_claimExecution {a : ApprovalRequest}
    (hreply : (exec i (.store (.claimExecution x)) env w).1 = .ok (a, true)) :
    JustMade (h ++ [system.entry i env (.store (.claimExecution x)) w]) .executionStarted x := by
  obtain ⟨old, hold, happroved, htable⟩ := claimExecution_won (exec_store_ok hreply)
  refine justMade_store rfl hreply rfl
    (by rw [htable]; exact ApprovalTable.lookup_write_of_lookup hold rfl) ?_
  simp [statusOf, hold, happroved]

end Calls

section Handlers

variable {A : Type} {i : ℕ} {h : List LogEntry} {w : World}

/-- From here on the program records nothing but the truth. -/
abbrev KeepsTruthful (i : ℕ) (h : List LogEntry) (w : World) (p : Handler A) : Prop :=
  system.Ensures i truthful (fun _ _ _ => True) (fun _ _ _ => True) h w p

/-- Opening an approval and recording it. -/
theorem truthful_open {approval : ApprovalRequest} {b : A} (hstatus : approval.status = .pending)
    (hh : Truthful h) : KeepsTruthful i h w (do
      let _ ← store (.create approval)
      let _ ← record (AgentService.approvalRequested approval)
      return b) := by
  rw [KeepsTruthful, Machine.ensures_bind]
  refine truthful_store hh fun w' env a _ hreply hh => ?_
  have ha : a = approval := create_reply (exec_store_ok hreply)
  rw [Machine.ensures_bind]
  refine truthful_record hh (fun _ => ⟨?_, fun _ => ⟨_, justMade_create hreply⟩⟩)
    fun h' w' _ hgoes => ⟨hgoes.truthful, trivial⟩
  refine (lastLeft_shown hreply rfl rfl).mono fun row hrow => ?_
  rw [ha, hstatus] at hrow
  exact isRight_of_inState hrow rfl rfl nofun

/-- `create_approval`. -/
theorem truthful_createApproval (request : ApprovalCreateRequest) :
    KeepsTruthful i [] w (AgentService.createApproval request) := by
  unfold AgentService.createApproval
  split
  · exact ⟨truthful_nil, trivial⟩
  · rw [KeepsTruthful, Machine.ensures_bind]
    refine truthful_ask rfl truthful_nil fun h₁ w₁ approvalId hgoes₁ => ?_
    rw [Machine.ensures_bind]
    refine truthful_ask rfl hgoes₁.truthful fun h₂ w₂ requestedAt hgoes₂ => ?_
    exact truthful_open rfl hgoes₂.truthful

/-- `create_agent_decision`. -/
theorem truthful_createAgentDecision (request : AgentDecisionRequest) :
    KeepsTruthful i [] w (AgentService.createAgentDecision request) := by
  unfold AgentService.createAgentDecision
  rw [KeepsTruthful, Machine.ensures_bind]
  have hnaming := (AgentService.traceIdOf_uses request.context).weaken fun op hop =>
    show isSilent op by cases op <;> first | rfl | cases hop
  refine (truthful_of_uses hnaming truthful_nil).mono (fun h₁ w₁ traceId _ hgoes₁ => ?_)
    fun _ _ _ _ _ => trivial
  split
  · exact ⟨hgoes₁.truthful, trivial⟩
  rw [Machine.ensures_bind]
  refine truthful_ask rfl hgoes₁.truthful fun h₂ w₂ reply hgoes₂ => ?_
  rw [Machine.ensures_bind]
  refine Machine.ensures_ofExcept hgoes₂.truthful (fun decision _ => ?_) fun _ _ => trivial
  rw [Machine.ensures_bind]
  refine truthful_record hgoes₂.truthful nofun fun h₃ w₃ _ hgoes₃ => ?_
  simp only
  split
  · rw [Machine.ensures_bind, Machine.ensures_map]
    unfold AgentService.proposeRetraining
    rw [Machine.ensures_bind]
    refine truthful_ask rfl hgoes₃.truthful fun h₄ w₄ approvalId hgoes₄ => ?_
    rw [Machine.ensures_bind]
    refine truthful_ask rfl hgoes₄.truthful fun h₅ w₅ requestedAt hgoes₅ => ?_
    exact (truthful_open rfl hgoes₅.truthful).mono (fun _ _ _ hh _ => ⟨hh, trivial⟩)
      fun _ _ _ _ _ => trivial
  · exact ⟨hgoes₃.truthful, trivial⟩

/-- `decide_approval`. -/
theorem truthful_decideApproval (x : String) (decision : ApprovalDecision) :
    KeepsTruthful i [] w (AgentService.decideApproval x decision) := by
  unfold AgentService.decideApproval
  split
  · exact ⟨truthful_nil, trivial⟩
  · rw [KeepsTruthful, Machine.ensures_bind, ensures_rethrow]
    refine truthful_store truthful_nil fun w' env a _ hreply hh => ?_
    rw [Machine.ensures_bind]
    refine truthful_record hh (fun _ => ⟨?_, fun _ => ⟨_, justMade_decide hreply⟩⟩)
      fun h' w' _ hgoes => ⟨hgoes.truthful, trivial⟩
    refine (lastLeft_decide hreply).mono fun row hrow => ?_
    exact ⟨hrow.1.1, (ofValue?_value _).trans (congrArg some hrow.1.2.symm), fun _ => hrow.2⟩

/-- The mark of an execution and the event after it. -/
theorem truthful_mark {op : StoreOp} {x traceId : String} {target : ApprovalStatus}
    {event : AuditRecord} {f : op.Result → Handler A} (hmarks : op.marks = some (x, target))
    (hh : Truthful h) (htrace : HasTrace x traceId w) (hevent : event.traceId = traceId)
    (htold : event.told = some target) (hkind : ¬event.eventType.isFirsthand)
    (hf : ∀ h w a, Truthful h → KeepsTruthful i h w (f a)) : KeepsTruthful i h w (do
      let a ← store op
      let _ ← record event
      f a) := by
  rw [KeepsTruthful, Machine.ensures_bind]
  refine truthful_store hh fun w' env a hw' hreply hh => ?_
  rw [Machine.ensures_bind]
  exact truthful_record hh (fun _ => told_of_inState (lastLeft_mark hreply hmarks
    (htrace.mono hw')) hevent htold hkind) fun h' w' _ hgoes => hf h' w' a hgoes.truthful

/-- The way to Kubernetes is silent. -/
theorem isSilent_of_isApplying {op : Op} (h : isApplying op) : isSilent op := by
  cases op <;> first | rfl | cases h

/-- The owner of an execution records how it ended. -/
theorem truthful_executeOwned (service : AgentService) (x : String) (approval : ApprovalRequest)
    (hh : Truthful h) (htrace : HasTrace x approval.traceId w) :
    KeepsTruthful i h w (service.executeOwned x approval) := by
  have hend {h w} (b : ApprovalRequest) (hh : Truthful h) :
      KeepsTruthful i h w (pure b : Handler _) := ⟨hh, trivial⟩
  unfold AgentService.executeOwned
  rw [KeepsTruthful, Machine.ensures_bind, Machine.ensures_attempt]
  refine (truthful_of_uses ((applyTrainingJob_uses _ true (some x)).weaken
    fun _ => isSilent_of_isApplying) hh).mono ?_ ?_
  · intro h' w' result _ hgoes
    have htrace := htrace.mono hgoes.evolves
    simp only
    split
    · exact truthful_mark rfl hgoes.truthful htrace rfl rfl nofun fun _ _ b hh => hend b hh
    · exact truthful_mark rfl hgoes.truthful htrace rfl rfl nofun fun _ _ b hh => hend b hh
  · intro h' w' exc _ hgoes
    have htrace := htrace.mono hgoes.evolves
    cases exc with
    | kubernetesExecutionUnknown message =>
      exact truthful_mark rfl hgoes.truthful htrace rfl rfl nofun fun _ _ b hh => hend b hh
    | _ =>
      exact truthful_mark rfl hgoes.truthful htrace rfl rfl nofun fun _ _ _ hh => ⟨hh, trivial⟩

/-- `execute_approval`. -/
theorem truthful_executeApproval (service : AgentService) (x : String) :
    KeepsTruthful i [] w (service.executeApproval x) := by
  unfold AgentService.executeApproval
  rw [KeepsTruthful, Machine.ensures_bind]
  refine truthful_store truthful_nil fun w₁ env₁ found _ _ hread => ?_
  split
  · exact ⟨hread, trivial⟩
  split
  · exact ⟨hread, trivial⟩
  rw [Machine.ensures_bind, ensures_rethrow]
  refine truthful_store hread fun w₂ env₂ claim _ hclaim hclaimed => ?_
  obtain ⟨approval, owns⟩ := claim
  cases owns with
  | false => exact ⟨hclaimed, trivial⟩
  | true =>
    simp only [Bool.not_true, Bool.false_eq_true, if_false]
    rw [Machine.ensures_bind]
    refine truthful_record hclaimed (fun _ => ⟨?_, fun _ => ⟨_, justMade_claimExecution hclaim⟩⟩)
      fun h' w' _ hgoes => ?_
    · refine (lastLeft_shown hclaim rfl rfl).mono fun row hrow => ?_
      rw [status_of_claim hclaim rfl rfl] at hrow
      exact isRight_of_inState hrow rfl rfl nofun
    · exact truthful_executeOwned service x approval hgoes.truthful
        ((hasTrace_of_shown hclaim rfl rfl).mono hgoes.evolves)

/-- The branches of `reconcile` end with the approval that the last call has left. -/
theorem truthful_recover (service : ReconciliationService) (x : String) (approval : ApprovalRequest)
    (result : Dict) (hh : Truthful h) (htrace : HasTrace x approval.traceId w) :
    system.Ensures i truthful (fun h _ recovered => Truthful h ∧
        LastLeft h (InState approval.traceId recovered.status))
      (fun _ _ _ => True) h w (service.recover x approval result) := by
  unfold ReconciliationService.recover
  split
  · exact truthful_store hh fun w' env reply hw' hreply hh =>
      ⟨hh, lastLeft_known hreply rfl rfl (htrace.mono hw')⟩
  split
  · exact truthful_store hh fun w' env reply hw' hreply hh =>
      ⟨hh, lastLeft_known hreply rfl rfl (htrace.mono hw')⟩
  split
  · rw [Machine.ensures_bind]
    refine truthful_store hh fun w' env reply hw' hreply hh => ?_
    have hleft := lastLeft_known (h := h) hreply rfl rfl (htrace.mono hw')
    obtain ⟨recovered, stale⟩ := reply
    cases stale with
    | false => exact ⟨hh, hh, hleft⟩
    | true =>
      have hunknown : recovered.status = .unknown := by
        obtain ⟨row, hrow, -⟩ := htrace.mono hw'
        obtain ⟨heq, -⟩ | ⟨startedAt, -, -, -, -, heq, -⟩ :=
          recoverStaleExecution_ok hrow (exec_store_ok hreply)
        · cases (Prod.mk.inj heq).2
        · rw [(Prod.mk.inj heq).1]
          rfl
      simp only [if_true]
      rw [Machine.ensures_bind]
      exact truthful_record hh (fun _ => told_of_inState hleft rfl (congrArg some hunknown.symm)
        nofun) fun h' w' _ hgoes => ⟨hgoes.truthful, hgoes.truthful, hgoes.lastLeft _ hleft⟩
  · rw [Machine.ensures_bind]
    refine truthful_store hh fun w' env reply hw' hreply hh => ⟨hh, hh, ?_⟩
    -- an approval that has been read once is there to stay
    obtain ⟨row, hrow, -⟩ := htrace.mono hw'
    have hperform := exec_store_ok hreply
    have hfound : reply = some row.toSchema := by
      have hget : ApprovalStore.get w'.approvals x = some row.toSchema := by
        rw [ApprovalStore.get, hrow, Option.map_some]
      exact (Prod.mk.inj (Except.ok.inj hperform)).1.symm.trans hget
    rw [hfound] at hreply ⊢
    exact lastLeft_known hreply rfl rfl (htrace.mono hw')

/-- `reconcile`. -/
theorem truthful_reconcile (service : ReconciliationService) (x : String) (hh : Truthful h) :
    KeepsTruthful i h w (service.reconcile x) := by
  unfold ReconciliationService.reconcile
  rw [KeepsTruthful, Machine.ensures_bind]
  refine truthful_store hh fun w₁ env₁ found _ hfound hread => ?_
  cases found with
  | none => exact ⟨hread, trivial⟩
  | some approval =>
    simp only
    split
    · exact ⟨hread, trivial⟩
    have htrace : HasTrace x approval.traceId (exec i (.store (.get x)) env₁ w₁).2 :=
      hasTrace_of_shown hfound rfl rfl
    rw [Machine.ensures_bind]
    refine truthful_record hread (fun _ => told_of_inState (lastLeft_shown hfound rfl rfl) rfl
      (ofValue?_value _) nofun) fun h₂ w₂ _ hgoes₂ => ?_
    unfold ReconciliationService.reconcileUncertain
    rw [Machine.ensures_bind]
    refine (truthful_of_uses ((getTrainingJobStatus_uses _ _).weaken fun op hop => by
      rw [hop]; rfl) hgoes₂.truthful).mono (fun h₃ w₃ result _ hgoes₃ => ?_)
      fun _ _ _ _ _ => trivial
    rw [Machine.ensures_bind]
    refine (truthful_recover service x approval result hgoes₃.truthful
      ((htrace.mono hgoes₂.evolves).mono hgoes₃.evolves)).mono ?_ fun _ _ _ _ _ => trivial
    rintro h₄ w₄ recovered - ⟨hh₄, hleft⟩
    rw [Machine.ensures_bind]
    exact truthful_record hh₄ (fun _ => told_of_inState hleft rfl (ofValue?_value _) nofun)
      fun h₅ w₅ _ hgoes₅ => ⟨hgoes₅.truthful, trivial⟩

/-- `run_once`: each item is reconciled as on request. -/
theorem truthful_runOnce (worker : ReconciliationWorker) :
    KeepsTruthful i [] w worker.runOnce := by
  have hitems (approvals : List ApprovalRequest) : ∀ processed {h w}, Truthful h →
      system.Ensures i truthful (fun h _ _ => Truthful h) (fun h _ _ => Truthful h) h w
        (ReconciliationWorker.reconcileAll worker.service approvals processed) := by
    induction approvals with
    | nil => exact fun _ _ _ hh => ⟨hh, hh⟩
    | cons approval rest ih =>
      intro processed h w hh
      unfold ReconciliationWorker.reconcileAll
      rw [Machine.ensures_bind, Machine.ensures_attempt]
      exact (truthful_reconcile worker.service _ hh).mono (fun _ _ _ hh _ => ih _ hh)
        fun _ _ _ hh _ => ih _ hh
  have hrelease (ended : Except PyExc ℕ) {h : List LogEntry} {w : World} (hh : Truthful h) :
      KeepsTruthful i h w (do
        ofExcept (← ask .release)
        ofExcept ended) := by
    refine (truthful_of_uses (.bind (uses_request rfl) fun (released : Except PyExc Unit) =>
      .bind (uses_ofExcept released) fun _ => uses_ofExcept ended) hh).mono
      (fun _ _ _ _ _ => trivial) fun _ _ _ _ _ => trivial
  unfold ReconciliationWorker.runOnce
  rw [KeepsTruthful, Machine.ensures_bind]
  refine truthful_ask rfl truthful_nil fun h₁ w₁ reply hgoes₁ => ?_
  rw [Machine.ensures_bind]
  refine Machine.ensures_ofExcept hgoes₁.truthful (fun acquired _ => ?_) fun _ _ => trivial
  split
  · exact ⟨hgoes₁.truthful, trivial⟩
  rw [Machine.ensures_bind, Machine.ensures_attempt, Machine.ensures_bind]
  refine (truthful_store hgoes₁.truthful fun w₂ env₂ approvals _ _ hh => ?_).mono
    (fun _ _ _ _ hnext => hnext) fun h w exc hh _ => hrelease (.error exc) hh
  exact (hitems approvals 0 hh).mono (fun _ _ count _ hh => hrelease (.ok count) hh)
    fun _ _ exc _ hh => hrelease (.error exc) hh

/-- The end of a retry that found a finished Job. -/
theorem truthful_retryFinished {approval : ApprovalRequest} {result : Dict}
    {mark : Handler ApprovalRequest}
    (hmark : system.Ensures i truthful (fun h _ recovered => Truthful h ∧
        LastLeft h (InState approval.traceId recovered.status))
      (fun _ _ _ => True) h w mark) :
    KeepsTruthful i h w (ReconciliationService.retryFinished approval result mark) := by
  unfold ReconciliationService.retryFinished
  rw [KeepsTruthful, Machine.ensures_bind]
  refine hmark.mono ?_ fun _ _ _ _ _ => trivial
  rintro h' w' recovered - ⟨hh, hleft⟩
  rw [Machine.ensures_bind]
  exact truthful_record hh (fun _ => told_of_inState hleft rfl (ofValue?_value _) nofun)
    fun _ _ _ hgoes => ⟨hgoes.truthful, trivial⟩

/-- A mark after which nothing is recorded. -/
theorem truthful_lastMark (op : StoreOp) (hh : Truthful h) :
    system.Ensures i truthful (fun _ _ _ => True) (fun _ _ _ => True) h w (store op) :=
  truthful_store hh fun _ _ _ _ _ _ => trivial

/-- The new apply of a retry, and the mark after it. -/
theorem truthful_retryApply (service : ReconciliationService) (x : String)
    (approval : ApprovalRequest) (result : Dict) (hh : Truthful h)
    (hleft : LastLeft h (InState approval.traceId .executing)) :
    KeepsTruthful i h w (service.retryApply x approval result) := by
  unfold ReconciliationService.retryApply
  rw [KeepsTruthful, Machine.ensures_bind]
  refine truthful_record hh (fun _ => told_of_inState hleft rfl rfl nofun)
    fun h₁ w₁ _ hgoes₁ => ?_
  rw [Machine.ensures_bind, Machine.ensures_attempt]
  refine (truthful_of_uses ((applyTrainingJob_uses _ true (some x)).weaken
    fun _ => isSilent_of_isApplying) hgoes₁.truthful).mono ?_ ?_
  · intro h₂ w₂ execution _ hgoes₂
    simp only
    split
    · exact truthful_lastMark _ hgoes₂.truthful
    · exact truthful_lastMark _ hgoes₂.truthful
  · exact fun h₂ w₂ exc _ hgoes₂ => truthful_lastMark _ hgoes₂.truthful

/-- The branches of a retry on what the status check told. -/
theorem truthful_retryBranch (service : ReconciliationService) (x : String)
    (approval claimed : ApprovalRequest) (result : Dict) (hh : Truthful h)
    (htrace : HasTrace x approval.traceId w)
    (hleft : LastLeft h (InState approval.traceId .executing)) :
    KeepsTruthful i h w (service.retryBranch x approval claimed result) := by
  unfold ReconciliationService.retryBranch
  split
  · exact truthful_retryFinished (truthful_store hh fun w' env reply hw' hreply hh =>
      ⟨hh, lastLeft_known hreply rfl rfl (htrace.mono hw')⟩)
  split
  · exact truthful_retryFinished (truthful_store hh fun w' env reply hw' hreply hh =>
      ⟨hh, lastLeft_known hreply rfl rfl (htrace.mono hw')⟩)
  split
  · rw [KeepsTruthful, Machine.ensures_bind]
    refine truthful_record hh (fun _ => told_of_inState hleft rfl rfl nofun)
      fun h₁ w₁ _ hgoes₁ => ?_
    rw [Machine.ensures_bind]
    exact truthful_store hgoes₁.truthful fun _ _ _ _ _ hh => ⟨hh, trivial⟩
  split
  · exact truthful_lastMark _ hh
  · exact truthful_retryApply service x approval result hh hleft

/-- The owner of a retry, after its claim. -/
theorem truthful_retryOwned (service : ReconciliationService) (x : String)
    (approval claimed : ApprovalRequest) (hh : Truthful h) (htrace : HasTrace x approval.traceId w)
    (hclaimed : claimed.traceId = approval.traceId ∧ claimed.status = .executing)
    (hleft : LastLeft h (InState approval.traceId .executing)) :
    KeepsTruthful i h w (service.retryOwned x approval claimed) := by
  obtain ⟨htraceId, hstatus⟩ := hclaimed
  unfold ReconciliationService.retryOwned
  rw [KeepsTruthful, Machine.ensures_bind, hstatus]
  refine truthful_record hh (fun _ => told_of_inState hleft htraceId rfl nofun)
    fun h₁ w₁ _ hgoes₁ => ?_
  rw [Machine.ensures_bind, Machine.ensures_attempt]
  refine (truthful_of_uses ((getTrainingJobStatus_uses _ _).weaken fun op hop => by
    rw [hop]; rfl) hgoes₁.truthful).mono ?_ fun h₂ w₂ exc _ hgoes₂ =>
      truthful_lastMark _ hgoes₂.truthful
  exact fun h₂ w₂ result _ hgoes₂ => truthful_retryBranch service x approval claimed result
    hgoes₂.truthful ((htrace.mono hgoes₁.evolves).mono hgoes₂.evolves)
    (hgoes₂.lastLeft _ (hgoes₁.lastLeft _ hleft))

/-- `retry_if_absent`. -/
theorem truthful_retryIfAbsent (service : ReconciliationService) (x : String) :
    KeepsTruthful i [] w (service.retryIfAbsent x) := by
  unfold ReconciliationService.retryIfAbsent
  rw [KeepsTruthful, Machine.ensures_bind]
  refine truthful_store truthful_nil fun w₁ env₁ found _ hfound hread => ?_
  cases found with
  | none => exact ⟨hread, trivial⟩
  | some approval =>
    simp only
    split
    · exact ⟨hread, trivial⟩
    have htrace : HasTrace x approval.traceId (exec i (.store (.get x)) env₁ w₁).2 :=
      hasTrace_of_shown hfound rfl rfl
    rw [Machine.ensures_bind]
    refine truthful_store hread fun w₂ env₂ claim hw₂ hclaim hh₂ => ?_
    obtain ⟨claimed, owns⟩ := claim
    cases owns with
    | false => exact ⟨hh₂, trivial⟩
    | true =>
      simp only [Bool.not_true, Bool.false_eq_true, if_false]
      have hstatus := status_of_claim hclaim rfl rfl
      refine truthful_retryOwned service x approval claimed hh₂
        (htrace.mono (evolves_exec hw₂ _ env₂))
        ⟨traceId_of_shown hclaim rfl rfl (htrace.mono hw₂), hstatus⟩ ?_
      rw [← hstatus]
      exact lastLeft_known hclaim rfl rfl (htrace.mono hw₂)

/-- The approval service records nothing: `create_training_approval`. -/
theorem truthful_createTrainingApproval (reason : String) (executionPlan : Dict) :
    KeepsTruthful i [] w (ApprovalService.createTrainingApproval reason executionPlan) := by
  unfold ApprovalService.createTrainingApproval
  rw [KeepsTruthful, Machine.ensures_bind]
  refine truthful_ask rfl truthful_nil fun h₁ w₁ approvalId hgoes₁ => ?_
  rw [Machine.ensures_bind]
  refine truthful_ask rfl hgoes₁.truthful fun h₂ w₂ traceId hgoes₂ => ?_
  rw [Machine.ensures_bind]
  refine truthful_ask rfl hgoes₂.truthful fun h₃ w₃ requestedAt hgoes₃ => ?_
  exact truthful_lastMark _ hgoes₃.truthful

/-- `execute` of the approval service. -/
theorem truthful_execute (service : ApprovalService) (x : String) :
    KeepsTruthful i [] w (service.execute x) := by
  unfold ApprovalService.execute
  rw [KeepsTruthful, Machine.ensures_bind]
  refine truthful_store truthful_nil fun w₁ env₁ claim _ _ hclaimed => ?_
  obtain ⟨request, owns⟩ := claim
  cases owns with
  | false => exact ⟨hclaimed, trivial⟩
  | true =>
    simp only [Bool.not_true, Bool.false_eq_true, if_false]
    unfold ApprovalService.executeOwned
    rw [Machine.ensures_bind, Machine.ensures_attempt]
    refine (truthful_of_uses ((applyTrainingJob_uses _ true (some x)).weaken
      fun _ => isSilent_of_isApplying) hclaimed).mono ?_ ?_
    · intro h₂ w₂ result _ hgoes₂
      simp only
      split
      · exact truthful_lastMark _ hgoes₂.truthful
      · exact truthful_lastMark _ hgoes₂.truthful
    · intro h₂ w₂ exc _ hgoes₂
      cases exc with
      | kubernetesExecutionUnknown message => exact truthful_lastMark _ hgoes₂.truthful
      | _ => exact truthful_lastMark _ hgoes₂.truthful

end Handlers

/-! ## Runs -/

/-- Every request records nothing but the truth. -/
theorem truthful_serve (r : Request) (i : ℕ) (w : World) : KeepsTruthful i [] w (serve r) := by
  have hmap {A B : Type} {f : A → B} {p : Handler A} (hp : KeepsTruthful i [] w p) :
      KeepsTruthful i [] w (f <$> p) := (Machine.ensures_map f p).mpr hp
  have hrethrow {p : Handler ApprovalRequest} {handler : PyExc → PyExc}
      (hp : KeepsTruthful i [] w p) : KeepsTruthful i [] w (rethrow p handler) :=
    (ensures_rethrow p handler).mpr hp
  have hstore (op : StoreOp) : KeepsTruthful i [] w (store op) := truthful_lastMark op truthful_nil
  cases r with
  | createAgentDecision request => exact hmap (truthful_createAgentDecision request)
  | createApproval request => exact hmap (truthful_createApproval request)
  | decideApproval x decision => exact hmap (truthful_decideApproval x decision)
  | executeApproval service x => exact hmap (truthful_executeApproval service x)
  | reconcileApproval service x => exact hmap (hrethrow (truthful_reconcile _ x truthful_nil))
  | retryApproval service x => exact hmap (hrethrow (truthful_retryIfAbsent _ x))
  | createTrainingApproval reason plan => exact hmap (truthful_createTrainingApproval reason plan)
  | decide decision => exact hmap (hstore (.decide decision))
  | execute service x => exact hmap (truthful_execute service x)
  | runOnce worker => exact hmap (truthful_runOnce worker)
  | cluster change => exact hmap (truthful_ask rfl truthful_nil fun _ _ _ _ => trivial)

/-- In every run, whatever fails and whoever crashes, every caller keeps to the truth. -/
theorem truthful_own (jobs : Jobs) (events : List SystemEvent) (i : ℕ) :
    Truthful (own (runFrom jobs events).trace i) := by
  have hkeeps (r : Request) : system.Keeps i truthful (fun _ _ _ => True) (fun _ _ _ => True) r
      (runFrom jobs events) :=
    Machine.keeps_run (fun _ _ row hrow => ⟨row, hrow, .refl row⟩)
      (fun _ _ _ => TableEvolves.trans) exec_tableEvolves
      (fun _ _ _ row hrow => ⟨row, hrow, .refl row⟩) (truthful_serve r i) _ events
      fun _ _ => trivial
  cases hcaller : (runFrom jobs events).callers[i]? with
  | none =>
    rw [(hkeeps (.cluster (.deleted ""))).absent hcaller]
    exact truthful_nil
  | some caller => exact (hkeeps caller.request).always caller.rest hcaller

/-! ## Events that are recorded once -/

/-- The entry records an event of this kind, right after its caller has made the transition of this
approval. -/
def Reports (past : List LogEntry) (e : LogEntry) (kind : AuditEventType) (x : String) : Prop :=
  (∃ event, e.op = .record event ∧ event.eventType = kind) ∧ JustMade (own past e.caller) kind x

/-- What is reported firsthand has just been made, and is not reported again. -/
def ReportedOnce (trace : List LogEntry) : Prop :=
  ∀ pre e post event, trace = pre ++ e :: post → e.op = .record event →
    event.eventType.isFirsthand → ∃ x, Reports pre e event.eventType x ∧
      ∀ mid e' rest, post = mid ++ e' :: rest → ¬Reports (pre ++ e :: mid) e' event.eventType x

/-- A call of the store has made the transition of this approval that an event of this kind
reports. -/
def Makes (e : LogEntry) (kind : AuditEventType) (x : String) : Prop :=
  ∃ op row, e.op = .store op ∧ kind.reports op ∧ e.after.approvals.lookup x = some row ∧
    statusOf e.before.approvals x ≠ some row.status

section Once

variable {jobs : Jobs} {trace pre post : List LogEntry} {w : World} {f g : LogEntry}
  {kind : AuditEventType} {x : String}

/-- Where such a transition starts and ends: at no row, at a pending one, or at an approved one. -/
theorem source_of_makes {i : ℕ} {env : Env} {op : StoreOp} {w : World}
    (h : Makes (system.entry i env (.store op) w) kind x) :
    ∃ row, (exec i (.store op) env w).2.approvals.lookup x = some row ∧
      match w.approvals.lookup x with
      | none => kind = .approvalRequested
      | some old => kind = .approvalDecided ∧ old.status = .pending ∧ row.status ≠ .pending ∨
          kind = .executionStarted ∧ ¬old.status.isStarted ∧ row.status.isStarted := by
  obtain ⟨_, row, ⟨⟩, hreports, hrow, hstatus⟩ := h
  refine ⟨row, hrow, ?_⟩
  have hstep := exec_rowStep i op env w x
  rw [show (exec i (.store op) env w).2.approvals.lookup x = some row from hrow] at hstep
  generalize hold : w.approvals.lookup x = old at hstep
  have hbefore : (w.approvals.lookup x).map (·.status) ≠ some row.status := hstatus
  rw [hold] at hbefore
  cases hstep with
  | stay => exact absurd rfl hbefore
  | insert request hop =>
    subst hop
    cases kind <;> first | rfl | cases hreports
  | change hid htarget hchange =>
    cases hchange with
    | decide d h =>
      obtain rfl : kind = .approvalDecided := by cases kind <;> first | rfl | cases hreports
      exact .inl ⟨rfl, h, by cases d.approved <;> exact nofun⟩
    | execute id hop h =>
      rcases hop with rfl | rfl
      · cases kind <;> cases hreports
      · obtain rfl : kind = .executionStarted := by cases kind <;> first | rfl | cases hreports
        exact .inr ⟨rfl, by rw [h]; exact nofun, rfl⟩
    | retry id hop => rcases hop with rfl | rfl <;> cases kind <;> cases hreports
    | _ => cases kind <;> cases hreports

/-- It is made once: the row never comes back to where it started. -/
theorem makes_once (h : Legal jobs trace w) (htrace : trace = pre ++ g :: post) (hf : f ∈ pre)
    (hmade : Makes f kind x) : ¬Makes g kind x := by
  intro hagain
  obtain ⟨j, env', op', w', rfl, hpre, -⟩ := h.at_entry htrace
  obtain ⟨front, back, hfront⟩ := List.append_of_mem hf
  obtain ⟨i, env, op, w'', rfl, -, -⟩ := hpre.at_entry hfront
  obtain ⟨o, -, rfl, -⟩ := id hmade
  obtain ⟨o', -, rfl, -⟩ := id hagain
  obtain ⟨row, hrow, hsource⟩ := source_of_makes hmade
  obtain ⟨row', hrow', hevolves⟩ := hpre.tableEvolves hf x row hrow
  obtain ⟨_, -, hsource'⟩ := source_of_makes hagain
  rw [show w'.approvals.lookup x = some row' from hrow'] at hsource'
  rcases hsource' with ⟨rfl, hpending, -⟩ | ⟨rfl, hstarted, -⟩
  · split at hsource
    · cases hsource
    · obtain ⟨-, -, hdecided⟩ | ⟨hkind, -⟩ := hsource
      · exact (hevolves.decided hdecided).1 hpending
      · cases hkind
  · split at hsource
    · cases hsource
    · obtain ⟨hkind, -⟩ | ⟨-, -, hstarts⟩ := hsource
      · cases hkind
      · exact hstarted (hevolves.started hstarts)

/-- Two reports of one transition would be reports of two. -/
theorem makes_of_justMade {h : List LogEntry} (hmade : JustMade h kind x) :
    ∃ front e, h = front ++ [e] ∧ Makes e kind x := by
  obtain ⟨front, e, op, row, rfl, hop, hreports, -, hrow, hstatus⟩ := hmade
  exact ⟨front, e, rfl, op, row, hop, hreports, hrow, hstatus⟩

end Once

/-- No second report of a transition follows the first. -/
theorem not_reported_again (jobs : Jobs) (events : List SystemEvent) {pre mid post : List LogEntry}
    {e e' : LogEntry} {kind : AuditEventType} {x : String}
    (htrace : (runFrom jobs events).trace = pre ++ e :: (mid ++ e' :: post))
    (hreports : Reports pre e kind x) : ¬Reports (pre ++ e :: mid) e' kind x := by
  intro hagain
  obtain ⟨front, f, hfront, hmade⟩ := makes_of_justMade hreports.2
  obtain ⟨front', f', hfront', hmade'⟩ := makes_of_justMade hagain.2
  have honce {a b : LogEntry} (hab : [a, b].Sublist (pre ++ e :: mid)) (ha : Makes a kind x)
      (hb : Makes b kind x) : False := by
    obtain ⟨start, rest, hsplit, hmem⟩ := exists_split_of_sublist hab
    have hrun : (runFrom jobs events).trace = start ++ b :: (rest ++ e' :: post) := by
      rw [htrace, ← List.cons_append, ← List.append_assoc, hsplit, List.append_assoc,
        List.cons_append]
    exact makes_once (legal_runFrom jobs events) hrun hmem ha hb
  have hf : f ∈ own pre e.caller := hfront ▸ List.mem_concat_self
  have hf' : f' ∈ own (pre ++ e :: mid) e'.caller := hfront' ▸ List.mem_concat_self
  obtain ⟨hf, hcaller⟩ := List.mem_filter.mp hf
  obtain ⟨hf', hcaller'⟩ := List.mem_filter.mp hf'
  by_cases hsame : e.caller = e'.caller
  · -- the caller's last operation comes after its first report
    have hown : own (pre ++ e :: mid) e'.caller = own pre e'.caller ++ e :: own mid e'.caller := by
      simp [own, hsame]
    rw [hown] at hfront'
    rcases List.eq_nil_or_concat (own mid e'.caller) with hnil | ⟨init, last, hlast⟩
    · rw [hnil] at hfront'
      obtain rfl := List.singleton_inj.mp (List.append_inj' hfront' rfl).2
      obtain ⟨⟨event, hevent, -⟩, -⟩ := hreports
      obtain ⟨op, -, hop, -⟩ := hmade'
      cases hevent.symm.trans hop
    · rw [hlast, List.concat_eq_append, ← List.cons_append, ← List.append_assoc] at hfront'
      obtain rfl := List.singleton_inj.mp (List.append_inj' hfront' rfl).2
      have hlater : last ∈ own mid e'.caller := by simp [hlast]
      exact honce ((List.singleton_sublist.mpr hf).append (List.singleton_sublist.mpr
        (List.mem_cons_of_mem e (List.mem_filter.mp hlater).1))) hmade hmade'
  · have hne : f ≠ f' := fun heq => hsame
      ((of_decide_eq_true hcaller).symm.trans (heq ▸ of_decide_eq_true hcaller'))
    rcases eq_or_sublist_of_mem (List.mem_append_left _ hf) hf' with heq | hab | hba
    · exact hne heq
    · exact honce hab hmade hmade'
    · exact honce hba hmade' hmade

/-- In every run, whatever fails and whoever crashes, every event about an approval that is recorded
is right about the row that its caller's last call of the store has left; and the request of an
approval, its decision and the start of its execution are reported by the call that has just made
the transition, and once. -/
theorem trail_truthful (jobs : Jobs) (events : List SystemEvent) :
    (∀ i, Truthful (own (runFrom jobs events).trace i)) ∧
      ReportedOnce (runFrom jobs events).trace := by
  refine ⟨truthful_own jobs events, fun pre e post event htrace hop hfirsthand => ?_⟩
  have hown : own (runFrom jobs events).trace e.caller =
      own pre e.caller ++ e :: own post e.caller := by simp [htrace, own]
  have habout : event.isAboutApproval := by
    unfold AuditRecord.isAboutApproval
    cases hkind : event.eventType <;> first | rfl | (rw [hkind] at hfirsthand; cases hfirsthand)
  obtain ⟨x, hmade⟩ := (truthful_own jobs events e.caller _ e _ event hown hop habout).made
    hfirsthand
  have hreports : Reports pre e event.eventType x := ⟨⟨event, hop, rfl⟩, hmade⟩
  refine ⟨x, hreports, ?_⟩
  rintro mid e' rest rfl
  exact not_reported_again jobs events htrace hreports

end CreditScoringMlops.ControlPlane
