import CreditScoringMlops.ControlPlane.Contracts
import CreditScoringMlops.ControlPlane.RequestPrograms
import CreditScoringMlops.Interaction.Obligation

/-!
# The audit trail of the transitions

A committed transition obliges the call that made it to record an event that names the new state
under the trace id of the approval. Every branch of the handlers meets the obligation with its
next operation, except the marks of a retry that did not find the Job: nothing is recorded after
them.
-/

namespace CreditScoringMlops.ControlPlane

open Python Interaction Program ApprovalStore

/-! ## Transitions and the events that name them -/

/-- The operation has moved an approval to a status that it did not have; this is its row now. -/
def Commits (e : LogEntry) (row : ApprovalRequestRow) : Prop :=
  ∃ x, e.after.approvals.lookup x = some row ∧ statusOf e.before.approvals x ≠ some row.status

/-- An audit event names a state of an approval. -/
def AuditRecord.names (event : AuditRecord) (status : ApprovalStatus) : Bool :=
  match status with
  | .pending => event.eventType == .approvalRequested
  | .approved | .rejected =>
    event.eventType == .approvalDecided && event.status == some status.value
  | .executing =>
    event.eventType == .executionStarted || event.eventType == .executionReconciliationStarted
  | .unknown | .completed | .failed =>
    [.executionUnknown, .executionCompleted, .executionFailed,
      .executionReconciliationCompleted].contains event.eventType &&
        event.status == some status.value

/-- The operation records an event that names the state of a row under its trace id. -/
def Records (e : LogEntry) (row : ApprovalRequestRow) : Prop :=
  ∃ event, e.op = .record event ∧ event.traceId = row.traceId ∧ event.names row.status

/-- Every transition in a history has been recorded since. -/
abbrev AllRecorded (h : List LogEntry) : Prop := Discharged Commits Records h

/-- An audit write succeeds; every other operation may fail. -/
def auditWritten : (op : Op) → op.Reply → Bool
  | .record _, reply => reply.toBool
  | _, _ => true

/-- The approval has this trace id. -/
def HasTrace (x traceId : String) (w : World) : Prop :=
  ∃ row, w.approvals.lookup x = some row ∧ row.traceId = traceId

/-- Trace ids do not change. -/
theorem HasTrace.mono {x traceId : String} {w w' : World} (h : HasTrace x traceId w)
    (hw : TableEvolves w w') : HasTrace x traceId w' := by
  obtain ⟨row, hrow, rfl⟩ := h
  obtain ⟨row', hrow', hevolves⟩ := hw x row hrow
  exact ⟨row', hrow', congrArg (fun columns => columns.2.1) hevolves.request⟩

section Commits

variable {i : ℕ} {env : Env} {w : World} {row : ApprovalRequestRow}

/-- An operation that leaves the table alone commits nothing. -/
theorem not_commits_of_eq {op : Op} (h : (exec i op env w).2.approvals = w.approvals) :
    ¬Commits (system.entry i env op w) row := by
  rintro ⟨x, hrow, hstatus⟩
  refine hstatus ?_
  change statusOf w.approvals x = some row.status
  rw [← h, statusOf, show (exec i op env w).2.approvals.lookup x = some row from hrow]
  rfl

/-- A transition inserts a pending row or changes the row of the approval the call is about. -/
theorem commits_store {op : StoreOp} (h : Commits (system.entry i env (.store op) w) row) :
    ∃ x, (exec i (.store op) env w).2.approvals.lookup x = some row ∧
      ((∃ request, op = .create request ∧ request.approvalId = x ∧ row = newRow request ∧
        row.status = .pending) ∨
      ∃ old, w.approvals.lookup x = some old ∧ op.target = some x ∧
        RowChange env.now op old row) := by
  obtain ⟨x, hrow, hstatus⟩ := h
  refine ⟨x, hrow, ?_⟩
  have hstep := exec_rowStep i op env w x
  rw [show (exec i (.store op) env w).2.approvals.lookup x = some row from hrow] at hstep
  generalize hold : w.approvals.lookup x = old at hstep
  have hbefore : statusOf w.approvals x ≠ some row.status := hstatus
  cases hstep with
  | stay _ => exact absurd (by rw [statusOf, hold]; rfl) hbefore
  | insert request hop hid hpending => exact .inl ⟨request, hop, hid, rfl, hpending⟩
  | change hid htarget hchange => exact .inr ⟨_, rfl, htarget, hchange⟩

/-- The row is about the approval of the call. -/
theorem target_of_commits {op : StoreOp} (h : Commits (system.entry i env (.store op) w) row) :
    ∃ x, op.target = some x ∧ (exec i (.store op) env w).2.approvals.lookup x = some row := by
  obtain ⟨x, hrow, ⟨request, rfl, rfl, -⟩ | ⟨old, -, htarget, -⟩⟩ := commits_store h
  · exact ⟨_, rfl, hrow⟩
  · exact ⟨x, htarget, hrow⟩

/-- A transition of an approval whose trace id is known. -/
theorem traceId_of_commits {op : StoreOp} {x traceId : String}
    (h : Commits (system.entry i env (.store op) w) row) (htarget : op.target = some x)
    (htrace : HasTrace x traceId w) : row.traceId = traceId := by
  obtain ⟨y, hy, hrow⟩ := target_of_commits h
  obtain rfl := Option.some.inj (htarget.symm.trans hy)
  obtain ⟨row', hrow', rfl⟩ := htrace.mono (exec_tableEvolves i (.store op) env w)
  rw [Option.some.inj (hrow.symm.trans hrow')]

/-- A mark commits the status it records. -/
theorem status_of_commits_mark {op : StoreOp} {x : String} {target : ApprovalStatus}
    (h : Commits (system.entry i env (.store op) w) row) (hmarks : op.marks = some (x, target)) :
    row.status = target := by
  obtain ⟨-, -, ⟨request, rfl, -⟩ | ⟨old, -, -, hchange⟩⟩ := commits_store h
  · cases hmarks
  · cases hchange with
    | execute id hop => rcases hop with rfl | rfl <;> cases hmarks
    | retry id hop => rcases hop with rfl | rfl <;> cases hmarks
    | _ => cases hmarks <;> rfl

/-- A claim commits an executing row. -/
theorem status_of_commits_claim {op : StoreOp} {x : String}
    (h : Commits (system.entry i env (.store op) w) row)
    (hclaim : op = .claimExecution x ∨ op = .claimRetryExecution x) : row.status = .executing := by
  obtain ⟨-, -, ⟨request, rfl, -⟩ | ⟨old, -, -, hchange⟩⟩ := commits_store h
  · rcases hclaim with hclaim | hclaim <;> cases hclaim
  · cases hchange <;> first | rfl | (rcases hclaim with hclaim | hclaim <;> cases hclaim)

/-- A call that shows an approval tells its trace id. -/
theorem hasTrace_of_shown {op : StoreOp} {reply : op.Result} {a : ApprovalRequest} {x : String}
    (hreply : (exec i (.store op) env w).1 = .ok reply) (htarget : op.target = some x)
    (hshown : op.shown reply = some a) : HasTrace x a.traceId (exec i (.store op) env w).2 := by
  obtain ⟨row, hrow, htrace, -⟩ := shown_of_perform (exec_store_ok hreply) htarget hshown
  exact ⟨row, hrow, htrace.symm⟩

/-- Taking an execution back commits an unknown row. -/
theorem status_of_commits_recover {x : String} {s : ℤ}
    (h : Commits (system.entry i env (.store (.recoverStaleExecution x s)) w) row) :
    row.status = .unknown := by
  obtain ⟨-, -, ⟨request, hop, -⟩ | ⟨old, -, -, hchange⟩⟩ := commits_store h
  · cases hop
  · cases hchange with
    | recover => rfl
    | execute id hop => rcases hop with hop | hop <;> cases hop
    | retry id hop => rcases hop with hop | hop <;> cases hop

/-- The approval that a call shows is the row that it commits. -/
theorem shown_of_commits {op : StoreOp} {reply : op.Result} {a : ApprovalRequest}
    (h : Commits (system.entry i env (.store op) w) row)
    (hreply : (exec i (.store op) env w).1 = .ok reply) (hshown : op.shown reply = some a) :
    a.traceId = row.traceId ∧ a.status = row.status := by
  obtain ⟨x, htarget, hrow⟩ := target_of_commits h
  obtain ⟨row', hrow', htrace, hstatus⟩ := shown_of_perform (exec_store_ok hreply) htarget hshown
  obtain rfl := Option.some.inj (hrow'.symm.trans hrow)
  exact ⟨htrace, hstatus⟩

/-- The operations that commit no transition: all but the writing calls of the store. -/
def commitsNothing : Op → Bool
  | .store (.get _) => true
  | .store (.listReconcilable _) => true
  | .store _ => false
  | _ => true

/-- An apply commits nothing. -/
theorem commitsNothing_of_isApplying {op : Op} (h : isApplying op) : commitsNothing op := by
  cases op <;> first | rfl | cases h

/-- Naming something commits nothing. -/
theorem commitsNothing_of_isNaming {op : Op} (h : AgentService.isNaming op) :
    commitsNothing op := by
  cases op <;> first | rfl | cases h

/-- They commit no transition. -/
theorem not_commits {op : Op} (hop : commitsNothing op) : ¬Commits (system.entry i env op w) row := by
  intro h
  by_cases hstore : ∃ o, op = .store o
  · obtain ⟨o, rfl⟩ := hstore
    obtain ⟨x, -, ⟨request, rfl, -⟩ | ⟨old, -, -, hchange⟩⟩ := commits_store h
    · cases hop
    · cases hchange with
      | execute id hop' => rcases hop' with rfl | rfl <;> cases hop
      | retry id hop' => rcases hop' with rfl | rfl <;> cases hop
      | _ => cases hop
  · exact not_commits_of_eq (exec_approvals fun o ho => hstore ⟨o, ho⟩) h

end Commits

/-! ## How the handlers meet their obligations -/

/-- Others may change the table, and audit writes succeed. -/
def audited : Contract Op Op.Reply Env World where
  rely := TableEvolves
  given e := auditWritten e.op e.reply

section Rules

variable {A : Type} {i : ℕ} {h : List LogEntry} {w : World}
  {E : List LogEntry → World → PyExc → Prop}

/-- What a step of ours and the steps of others before it do to the table. -/
theorem evolves_exec {w' : World} (hw : TableEvolves w w') (op : Op) (env : Env) :
    TableEvolves w (exec i op env w').2 :=
  hw.trans (exec_tableEvolves i op env w')

/-- A program that commits nothing keeps what its operations keep of the history. -/
theorem audited_of_uses {p : Handler A} {allowed : Op → Prop} (hp : p.Uses allowed)
    {I : List LogEntry → Prop}
    (hkeep : ∀ h op env w, allowed op → I h → I (h ++ [system.entry i env op w])) (hh : I h) :
    system.Ensures i audited (fun h w' _ => I h ∧ TableEvolves w w')
      (fun h w' _ => I h ∧ TableEvolves w w') h w p :=
  (Machine.ensures_of_obeys hp (I := fun _ h w' => I h ∧ TableEvolves w w')
    (fun _ _ _ _ => trivial)
    (fun _ h _ _ op env hop hI hrely _ => ⟨trivial, hkeep h op env _ hop hI.1,
      evolves_exec (hI.2.trans hrely) op env⟩)
    ⟨hh, fun _ row hrow => ⟨row, hrow, .refl row⟩⟩).mono
    (fun _ _ _ _ ⟨_, _, hI⟩ => hI) fun _ _ _ _ ⟨_, _, hI⟩ => hI

/-- One operation that commits nothing. -/
theorem audited_ask {op : Op} {Q : List LogEntry → World → op.Reply → Prop}
    (hQ : ∀ w' env, TableEvolves w (exec i op env w').2 →
      Q (h ++ [system.entry i env op w']) (exec i op env w').2 (exec i op env w').1) :
    system.Ensures i audited Q E h w (ask op) :=
  ensures_ask op trivial fun _ env hrely _ => ⟨trivial, hQ _ env (evolves_exec hrely op env)⟩

/-- A store call owes what it commits; one that raises has committed nothing. -/
theorem audited_store {op : StoreOp} {Q : List LogEntry → World → op.Result → Prop}
    (hh : AllRecorded h)
    (hok : ∀ w' env a, TableEvolves w w' → (exec i (.store op) env w').1 = .ok a →
      Owes Commits Records (Commits (system.entry i env (.store op) w'))
        (h ++ [system.entry i env (.store op) w']) →
      Q (h ++ [system.entry i env (.store op) w']) (exec i (.store op) env w').2 a)
    (herror : ∀ h w exc, AllRecorded h → E h w exc) :
    system.Ensures i audited Q E h w (store op) := by
  refine ensures_store op trivial fun w' env hrely _ => ⟨trivial, fun a ha => ?_, fun exc hexc => ?_⟩
  · exact hok w' env a hrely ha ((discharged_iff.mp hh).concat (fun _ => False.elim) fun _ h => h)
  · have hsame : (exec i (.store op) env w').2.approvals = w'.approvals := by
      rw [(exec_store_error hexc).1]
    exact herror _ _ exc (hh.concat fun _ => not_commits_of_eq hsame)

/-- An audit record meets what is owed. -/
theorem audited_record {event : AuditRecord} {owed : ApprovalRequestRow → Prop}
    {Q : List LogEntry → World → AuditEvent → Prop} (hh : Owes Commits Records owed h)
    (howed : ∀ row, owed row → event.traceId = row.traceId ∧ event.names row.status)
    (hQ : ∀ w' env a, TableEvolves w (exec i (.record event) env w').2 →
      AllRecorded (h ++ [system.entry i env (.record event) w']) →
      Q (h ++ [system.entry i env (.record event) w']) (exec i (.record event) env w').2 a) :
    system.Ensures i audited Q E h w (record event) := by
  refine ensures_record event trivial fun w' env hrely hgiven => ⟨trivial, fun a _ => ?_, ?_⟩
  · refine hQ w' env a (evolves_exec hrely _ env) (discharged_iff.mpr (hh.concat ?_ ?_))
    · exact fun row hrow => .inl ⟨event, rfl, howed row hrow⟩
    · exact fun row hcommits => not_commits rfl hcommits
  · intro exc hexc
    have hwritten : (exec i (.record event) env w').1.toBool := hgiven
    simp [hexc, Except.toBool] at hwritten

end Rules

section Handlers

variable {A : Type} {i : ℕ} {h : List LogEntry} {w : World}

/-- Opening an approval and recording it. -/
theorem audited_open {approval : ApprovalRequest} {b : A} (hh : AllRecorded h) :
    system.Ensures i audited (fun h _ _ => AllRecorded h) (fun h _ _ => AllRecorded h) h w (do
      let _ ← store (.create approval)
      let _ ← record (AgentService.approvalRequested approval)
      return b) := by
  rw [Machine.ensures_bind]
  refine audited_store hh (fun w' env a _ ha howes => ?_) fun _ _ _ h => h
  rw [Machine.ensures_bind]
  refine audited_record howes (fun row hcommits => ?_) fun _ _ _ _ hh => ⟨trivial, hh⟩
  obtain ⟨-, -, ⟨request, hop, -, rfl, hstatus⟩ | ⟨old, -, -, hchange⟩⟩ := commits_store hcommits
  · cases hop
    exact ⟨rfl, by rw [hstatus]; rfl⟩
  · cases hchange with
    | execute id hop => rcases hop with hop | hop <;> cases hop
    | retry id hop => rcases hop with hop | hop <;> cases hop

/-- `create_approval`. -/
theorem audited_createApproval (request : ApprovalCreateRequest) :
    system.Ensures i audited (fun h _ _ => AllRecorded h) (fun h _ _ => AllRecorded h) [] w
      (AgentService.createApproval request) := by
  have hnil : AllRecorded [] := discharged_iff.mpr owes_nil
  unfold AgentService.createApproval
  split
  · exact ⟨trivial, hnil⟩
  · rw [Machine.ensures_bind]
    refine audited_ask fun _ _ _ => ?_
    rw [Machine.ensures_bind]
    refine audited_ask fun _ _ _ => audited_open ?_
    exact (hnil.concat fun _ => not_commits rfl).concat fun _ => not_commits rfl

/-- A program that commits nothing leaves everything recorded. -/
theorem audited_of_commitsNothing {p : Handler A} (hp : p.Uses fun op => commitsNothing op)
    (hh : AllRecorded h) :
    system.Ensures i audited (fun h w' _ => AllRecorded h ∧ TableEvolves w w')
      (fun h w' _ => AllRecorded h ∧ TableEvolves w w') h w p :=
  audited_of_uses hp (fun _ _ _ _ hop hh => hh.concat fun _ => not_commits hop) hh

/-- `create_agent_decision`. -/
theorem audited_createAgentDecision (request : AgentDecisionRequest) :
    system.Ensures i audited (fun h _ _ => AllRecorded h) (fun h _ _ => AllRecorded h) [] w
      (AgentService.createAgentDecision request) := by
  unfold AgentService.createAgentDecision
  rw [Machine.ensures_bind]
  have htrace := (AgentService.traceIdOf_uses request.context).weaken fun _ =>
    commitsNothing_of_isNaming
  refine (audited_of_commitsNothing htrace (discharged_iff.mpr owes_nil)).mono
    (fun h w traceId _ hh => ?_) fun _ _ _ _ hh => hh.1
  split
  · exact ⟨trivial, hh.1⟩
  rw [Machine.ensures_bind]
  refine audited_ask fun w₁ env _ => ?_
  have hreasoned : AllRecorded
      (h ++ [system.entry i env (.reason request.task request.context) w₁]) :=
    hh.1.concat fun _ => not_commits rfl
  rw [Machine.ensures_bind]
  refine Machine.ensures_ofExcept trivial (fun decision _ => ?_) fun exc _ => hreasoned
  rw [Machine.ensures_bind]
  refine audited_record (discharged_iff.mp hreasoned) (fun _ => False.elim) fun _ _ _ _ hh => ?_
  simp only
  split
  · rw [Machine.ensures_bind, Machine.ensures_map]
    unfold AgentService.proposeRetraining
    rw [Machine.ensures_bind]
    refine audited_ask fun _ _ _ => ?_
    rw [Machine.ensures_bind]
    refine audited_ask fun _ _ _ => ?_
    refine (audited_open ?_).mono (fun _ _ _ _ hh => ⟨trivial, hh⟩) fun _ _ _ _ hh => hh
    exact (hh.concat fun _ => not_commits rfl).concat fun _ => not_commits rfl
  · exact ⟨trivial, hh⟩

/-- `decide_approval`. -/
theorem audited_decideApproval (x : String) (decision : ApprovalDecision) :
    system.Ensures i audited (fun h _ _ => AllRecorded h) (fun h _ _ => AllRecorded h) [] w
      (AgentService.decideApproval x decision) := by
  have hnil : AllRecorded [] := discharged_iff.mpr owes_nil
  unfold AgentService.decideApproval
  split
  · exact ⟨trivial, hnil⟩
  · rw [Machine.ensures_bind, ensures_rethrow]
    refine audited_store hnil (fun w' env a _ ha howes => ?_) fun _ _ _ hh => hh
    rw [Machine.ensures_bind]
    refine audited_record howes (fun row hcommits => ?_) fun _ _ _ _ hh => ⟨trivial, hh⟩
    obtain ⟨htrace, hstatus⟩ := shown_of_commits hcommits ha rfl
    refine ⟨htrace, ?_⟩
    obtain ⟨-, -, ⟨request, hop, -⟩ | ⟨old, -, -, hchange⟩⟩ := commits_store hcommits
    · cases hop
    · cases hchange with
      | decide decision h =>
        rw [hstatus]
        cases decision.approved <;> rfl
      | execute id hop => rcases hop with hop | hop <;> cases hop
      | retry id hop => rcases hop with hop | hop <;> cases hop

/-- The mark of an execution and the event after it. -/
theorem audited_mark {op : StoreOp} {x traceId : String} {target : ApprovalStatus}
    {event : AuditRecord} {f : op.Result → Handler A} (hmarks : op.marks = some (x, target))
    (hh : AllRecorded h) (htrace : HasTrace x traceId w) (hevent : event.traceId = traceId)
    (hnames : event.names target)
    (hf : ∀ h w a, AllRecorded h → system.Ensures i audited (fun h _ _ => AllRecorded h)
      (fun h _ _ => AllRecorded h) h w (f a)) :
    system.Ensures i audited (fun h _ _ => AllRecorded h) (fun h _ _ => AllRecorded h) h w (do
      let a ← store op
      let _ ← record event
      f a) := by
  have htarget : op.target = some x := by cases op <;> cases hmarks <;> rfl
  rw [Machine.ensures_bind]
  refine audited_store hh (fun w' env a hw' ha howes => ?_) fun _ _ _ hh => hh
  rw [Machine.ensures_bind]
  refine audited_record howes (fun row hcommits => ?_) fun _ _ _ _ hh => hf _ _ _ hh
  rw [traceId_of_commits hcommits htarget (htrace.mono hw'), status_of_commits_mark hcommits hmarks]
  exact ⟨hevent, hnames⟩

/-- The owner of an execution records how it ended. -/
theorem audited_executeOwned (service : AgentService) (x : String) (approval : ApprovalRequest)
    (hh : AllRecorded h) (htrace : HasTrace x approval.traceId w) :
    system.Ensures i audited (fun h _ _ => AllRecorded h) (fun h _ _ => AllRecorded h) h w
      (service.executeOwned x approval) := by
  have hend : ∀ {h w} (b : ApprovalRequest), AllRecorded h → system.Ensures i audited
      (fun h _ _ => AllRecorded h) (fun h _ _ => AllRecorded h) h w (pure b : Handler _) :=
    fun _ hh => ⟨trivial, hh⟩
  unfold AgentService.executeOwned
  rw [Machine.ensures_bind, Machine.ensures_attempt]
  refine (audited_of_commitsNothing ((applyTrainingJob_uses _ true (some x)).weaken
    fun _ => commitsNothing_of_isApplying) hh).mono ?_ ?_
  · rintro h w' result - ⟨hh, hw'⟩
    have htrace := htrace.mono hw'
    simp only
    split
    · exact audited_mark rfl hh htrace rfl rfl fun _ _ b hh => hend b hh
    · exact audited_mark rfl hh htrace rfl rfl fun _ _ b hh => hend b hh
  · rintro h w' exc - ⟨hh, hw'⟩
    have htrace := htrace.mono hw'
    cases exc with
    | kubernetesExecutionUnknown message =>
      exact audited_mark rfl hh htrace rfl rfl fun _ _ b hh => hend b hh
    | _ => exact audited_mark rfl hh htrace rfl rfl fun _ _ _ hh => ⟨trivial, hh⟩

/-- `execute_approval`. -/
theorem audited_executeApproval (service : AgentService) (x : String) :
    system.Ensures i audited (fun h _ _ => AllRecorded h) (fun h _ _ => AllRecorded h) [] w
      (service.executeApproval x) := by
  have hnil : AllRecorded [] := discharged_iff.mpr owes_nil
  unfold AgentService.executeApproval
  rw [Machine.ensures_bind]
  refine audited_store hnil (fun w' env found _ _ _ => ?_) fun _ _ _ hh => hh
  have hread : AllRecorded ([] ++ [system.entry i env (.store (.get x)) w']) :=
    hnil.concat fun _ => not_commits rfl
  split
  · exact ⟨trivial, hread⟩
  split
  · exact ⟨trivial, hread⟩
  rw [Machine.ensures_bind, ensures_rethrow]
  refine audited_store hread (fun w' env claim _ hclaim howes => ?_) fun _ _ _ hh => hh
  obtain ⟨approval, owns⟩ := claim
  cases owns with
  | false => exact ⟨trivial, hread.concat fun _ => not_commits_of_eq (claimExecution_lost
      (exec_store_ok hclaim))⟩
  | true =>
    simp only [Bool.not_true, Bool.false_eq_true, if_false]
    rw [Machine.ensures_bind]
    refine audited_record howes (fun row hcommits => ?_) fun w'' env'' _ hw hh => ?_
    · refine ⟨(shown_of_commits hcommits hclaim rfl).1, ?_⟩
      rw [status_of_commits_claim hcommits (.inl rfl)]
      rfl
    · exact audited_executeOwned service x approval hh
        ((hasTrace_of_shown hclaim rfl rfl).mono hw)

/-- A row whose event `reconcile` owes when it has found out how the execution ended. -/
def OwedBy (traceId : String) (recovered : ApprovalRequest) (row : ApprovalRequestRow) : Prop :=
  row.traceId = traceId ∧ row.status = recovered.status ∧
    (row.status = .unknown ∨ row.status = .completed ∨ row.status = .failed)

/-- The calls of the store that end an execution or take it back. -/
def endsExecution : StoreOp → Bool
  | .markUnknown _ _ => true
  | .markCompleted _ _ => true
  | .markFailed _ _ => true
  | .recoverStaleExecution _ _ => true
  | _ => false

/-- What such a call commits. -/
theorem owedBy_of_commits {op : StoreOp} {reply : op.Result} {a : ApprovalRequest}
    {x traceId : String} {env : Env} {row : ApprovalRequestRow}
    (h : Commits (system.entry i env (.store op) w) row) (hends : endsExecution op)
    (hreply : (exec i (.store op) env w).1 = .ok reply) (hshown : op.shown reply = some a)
    (htarget : op.target = some x) (htrace : HasTrace x traceId w) : OwedBy traceId a row := by
  refine ⟨traceId_of_commits h htarget htrace, (shown_of_commits h hreply hshown).2.symm, ?_⟩
  obtain ⟨-, -, ⟨request, rfl, -⟩ | ⟨old, -, -, hchange⟩⟩ := commits_store h
  · cases hends
  · cases hchange with
    | execute id hop => rcases hop with rfl | rfl <;> cases hends
    | retry id hop => rcases hop with rfl | rfl <;> cases hends
    | decide decision => cases hends
    | _ => simp

/-- The branches of `reconcile` owe at most the event that follows them. -/
theorem audited_recover (service : ReconciliationService) (x : String) (approval : ApprovalRequest)
    (result : Dict) (hh : AllRecorded h) (htrace : HasTrace x approval.traceId w) :
    system.Ensures i audited
      (fun h _ recovered => Owes Commits Records (OwedBy approval.traceId recovered) h)
      (fun h _ _ => AllRecorded h) h w (service.recover x approval result) := by
  unfold ReconciliationService.recover
  split
  · exact audited_store hh (fun w' env reply hw' hreply howes => howes.weaken fun row hcommits =>
      owedBy_of_commits hcommits rfl hreply rfl rfl (htrace.mono hw')) fun _ _ _ hh => hh
  split
  · exact audited_store hh (fun w' env reply hw' hreply howes => howes.weaken fun row hcommits =>
      owedBy_of_commits hcommits rfl hreply rfl rfl (htrace.mono hw')) fun _ _ _ hh => hh
  split
  · rw [Machine.ensures_bind]
    refine audited_store hh (fun w' env reply hw' hreply howes => ?_) fun _ _ _ hh => hh
    obtain ⟨recovered, stale⟩ := reply
    have howes' := howes.weaken fun row hcommits =>
      owedBy_of_commits hcommits rfl hreply rfl rfl (htrace.mono hw')
    cases stale with
    | false => exact ⟨trivial, howes'⟩
    | true =>
      simp only [if_true]
      rw [Machine.ensures_bind]
      refine audited_record howes (fun row hcommits => ?_) fun _ _ _ _ hh => ⟨trivial, ?_⟩
      · rw [traceId_of_commits hcommits rfl (htrace.mono hw'), status_of_commits_recover hcommits]
        exact ⟨rfl, rfl⟩
      · exact (discharged_iff.mp hh).weaken fun _ => False.elim
  · rw [Machine.ensures_bind]
    refine audited_store hh (fun w' env reply hw' hreply howes => ⟨trivial, ?_⟩) fun _ _ _ hh => hh
    exact howes.weaken fun row hcommits => (not_commits rfl hcommits).elim

/-- The event at the end of a reconciliation names every outcome. -/
theorem names_reconciliationCompleted {event : AuditRecord} {status : ApprovalStatus}
    (htype : event.eventType = .executionReconciliationCompleted)
    (hstatus : event.status = some status.value)
    (houtcome : status = .unknown ∨ status = .completed ∨ status = .failed) :
    event.names status := by
  rcases houtcome with rfl | rfl | rfl <;> simp [AuditRecord.names, htype, hstatus]

/-- `reconcile`. -/
theorem audited_reconcile (service : ReconciliationService) (x : String) (hh : AllRecorded h) :
    system.Ensures i audited (fun h _ _ => AllRecorded h) (fun h _ _ => AllRecorded h) h w
      (service.reconcile x) := by
  unfold ReconciliationService.reconcile
  rw [Machine.ensures_bind]
  refine audited_store hh (fun w' env found hw' hfound _ => ?_) fun _ _ _ hh => hh
  have hread : AllRecorded (h ++ [system.entry i env (.store (.get x)) w']) :=
    hh.concat fun _ => not_commits rfl
  cases found with
  | none => exact ⟨trivial, hread⟩
  | some approval =>
    simp only
    split
    · exact ⟨trivial, hread⟩
    have htrace : HasTrace x approval.traceId (exec i (.store (.get x)) env w').2 :=
      hasTrace_of_shown hfound rfl rfl
    rw [Machine.ensures_bind]
    refine audited_record (discharged_iff.mp hread) (fun _ => False.elim) fun w₁ env₁ _ hw₁ hh₁ => ?_
    unfold ReconciliationService.reconcileUncertain
    rw [Machine.ensures_bind]
    refine (audited_of_commitsNothing ((getTrainingJobStatus_uses _ _).weaken
      fun op hop => by rw [hop]; rfl) hh₁).mono ?_ fun _ _ _ _ hh => hh.1
    rintro h₂ w₂ result - ⟨hh₂, hw₂⟩
    rw [Machine.ensures_bind]
    refine (audited_recover service x approval result hh₂
      ((htrace.mono hw₁).mono hw₂)).mono ?_ fun _ _ _ _ hh => hh
    intro h₃ w₃ recovered _ howes
    rw [Machine.ensures_bind]
    refine audited_record howes ?_ fun _ _ _ _ hh => ⟨trivial, hh⟩
    rintro row ⟨htraceId, hstatus, houtcome⟩
    exact ⟨htraceId.symm, names_reconciliationCompleted rfl (by rw [hstatus]) houtcome⟩

/-- `run_once`: each item is reconciled as on request. -/
theorem audited_runOnce (worker : ReconciliationWorker) :
    system.Ensures i audited (fun h _ _ => AllRecorded h) (fun h _ _ => AllRecorded h) [] w
      worker.runOnce := by
  have hitems : ∀ approvals processed {h w}, AllRecorded h → system.Ensures i audited
      (fun h _ _ => AllRecorded h) (fun h _ _ => AllRecorded h) h w
      (ReconciliationWorker.reconcileAll worker.service approvals processed) := by
    intro approvals
    induction approvals with
    | nil => exact fun _ _ _ hh => ⟨trivial, hh⟩
    | cons approval rest ih =>
      intro processed h w hh
      unfold ReconciliationWorker.reconcileAll
      rw [Machine.ensures_bind, Machine.ensures_attempt]
      exact (audited_reconcile worker.service _ hh).mono (fun _ _ _ _ hh => ih _ hh)
        fun _ _ _ _ hh => ih _ hh
  have hnil : AllRecorded [] := discharged_iff.mpr owes_nil
  have hrelease : ∀ (ended : Except PyExc ℕ) {h w}, AllRecorded h → system.Ensures i audited
      (fun h _ _ => AllRecorded h) (fun h _ _ => AllRecorded h) h w (do
        ofExcept (← ask .release)
        ofExcept ended) := by
    intro ended h w hh
    refine (audited_of_commitsNothing (.bind (uses_request rfl) fun (released : Except PyExc Unit) =>
      .bind (uses_ofExcept released) fun _ => uses_ofExcept ended) hh).mono
      (fun _ _ _ _ hh => hh.1) fun _ _ _ _ hh => hh.1
  unfold ReconciliationWorker.runOnce
  rw [Machine.ensures_bind]
  refine audited_ask fun w' env _ => ?_
  have hacquired : AllRecorded ([] ++ [system.entry i env .tryAcquire w']) :=
    hnil.concat fun _ => not_commits rfl
  rw [Machine.ensures_bind]
  refine Machine.ensures_ofExcept trivial (fun acquired _ => ?_) fun exc _ => hacquired
  split
  · exact ⟨trivial, hacquired⟩
  rw [Machine.ensures_bind, Machine.ensures_attempt, Machine.ensures_bind]
  refine audited_store hacquired (fun w₁ env₁ approvals _ _ _ => ?_)
    fun _ _ exc hh => hrelease (.error exc) hh
  refine (hitems approvals 0 (hacquired.concat fun _ => not_commits rfl)).mono
    (fun _ _ count _ hh => hrelease (.ok count) hh) fun _ _ exc _ hh => hrelease (.error exc) hh

end Handlers

/-! ## Retries -/

/-- A status check that found the Job. -/
def findsJob : (op : Op) → op.Reply → Bool
  | .kubectlGet _, ended =>
    match KubernetesExecutor.classify ended with
    | .ok result => result.truthyAt "exists"
    | .error _ => false
  | _, _ => false

/-- Whatever a history commits other than a claim, the Job has been found in it. -/
def FoundFirst (h : List LogEntry) : Prop :=
  ∀ e ∈ h, ∀ row, Commits e row → row.status ≠ .executing →
    ∃ look ∈ h, findsJob look.op look.reply

/-- A retry that has not found the Job so far, and has committed its claim at most. -/
structure Searching (h : List LogEntry) : Prop where
  claims : ∀ e ∈ h, ∀ row, Commits e row → row.status = .executing
  absent : ∀ e ∈ h, ¬findsJob e.op e.reply

section Retry

variable {i : ℕ} {h : List LogEntry} {w : World}

/-- As long as it searches, there is nothing to find the Job for. -/
theorem Searching.foundFirst (hh : Searching h) : FoundFirst h :=
  fun e he row hcommits hstatus => absurd (hh.claims e he row hcommits) hstatus

/-- It goes on with an operation that commits at most a claim and does not find the Job. -/
theorem Searching.concat {e : LogEntry} (hh : Searching h)
    (hclaims : ∀ row, Commits e row → row.status = .executing)
    (habsent : ¬findsJob e.op e.reply) : Searching (h ++ [e]) := by
  refine ⟨fun f hf row hcommits => ?_, fun f hf => ?_⟩ <;>
    rcases List.mem_append.mp hf with hf | hf
  · exact hh.claims f hf row hcommits
  · obtain rfl := List.mem_singleton.mp hf
    exact hclaims row hcommits
  · exact hh.absent f hf
  · obtain rfl := List.mem_singleton.mp hf
    exact habsent

/-- So it does with an operation that commits nothing. -/
theorem Searching.quiet (hh : Searching h) {op : Op} (hop : commitsNothing op) {env : Env}
    {w : World} (habsent : ¬findsJob op (exec i op env w).1) :
    Searching (h ++ [system.entry i env op w]) :=
  hh.concat (fun _ hcommits => (not_commits hop hcommits).elim) habsent

/-- An audit record is one. -/
theorem Searching.record (hh : Searching h) {event : AuditRecord} {env : Env} {w : World} :
    Searching (h ++ [system.entry i env (.record event) w]) :=
  hh.quiet rfl Bool.false_ne_true

/-- A mark at the end of the search is not recorded: all is well only if it commits nothing. -/
theorem audited_lastMark {op : StoreOp} {x : String} {target : ApprovalStatus}
    (hmarks : op.marks = some (x, target)) (hrecorded : AllRecorded h) (hh : Searching h) :
    system.Ensures i audited (fun h _ _ => AllRecorded h ↔ FoundFirst h) (fun _ _ _ => True) h w
      (store op) := by
  have htarget : target ≠ .executing := by cases op <;> cases hmarks <;> decide
  refine ensures_store op trivial fun w' env _ _ => ⟨trivial, fun a _ => ?_, fun _ _ => trivial⟩
  by_cases hcommits : ∃ row, Commits (system.entry i env (.store op) w') row
  · obtain ⟨row, hcommits⟩ := hcommits
    refine iff_of_false (not_discharged_concat hcommits) fun hfound => ?_
    obtain ⟨look, hlook, hfinds⟩ := hfound _ (by simp) row hcommits
      (by rwa [status_of_commits_mark hcommits hmarks])
    rcases List.mem_append.mp hlook with hlook | hlook
    · exact hh.absent look hlook hfinds
    · obtain rfl := List.mem_singleton.mp hlook
      cases hfinds
  · have hnone : ∀ row, ¬Commits (system.entry i env (.store op) w') row :=
      fun row hrow => hcommits ⟨row, hrow⟩
    have hend := hh.concat (fun row hrow => (hnone row hrow).elim) Bool.false_ne_true
    exact iff_of_true (hrecorded.concat hnone) hend.foundFirst

/-- Where the Job has been found, the transitions are recorded. -/
theorem audited_found {p : Handler ApprovalRequest} (hfound : ∃ look ∈ h, findsJob look.op look.reply)
    (hp : system.Ensures i audited (fun h _ _ => AllRecorded h) (fun h _ _ => AllRecorded h) h w p) :
    system.Ensures i audited (fun h _ _ => AllRecorded h ↔ FoundFirst h) (fun _ _ _ => True) h w
      p := by
  obtain ⟨look, hlook, hfinds⟩ := hfound
  refine hp.extends.mono (fun h' _ _ _ ⟨hgrows, hh⟩ => ?_) fun _ _ _ _ _ => trivial
  exact iff_of_true hh fun _ _ _ _ _ => ⟨look, hgrows.subset hlook, hfinds⟩

/-- The end of a retry that found a finished Job. -/
theorem audited_retryFinished {approval : ApprovalRequest} {result : Dict}
    {mark : Handler ApprovalRequest}
    (hmark : system.Ensures i audited
      (fun h _ recovered => Owes Commits Records (OwedBy approval.traceId recovered) h)
      (fun h _ _ => AllRecorded h) h w mark) :
    system.Ensures i audited (fun h _ _ => AllRecorded h) (fun h _ _ => AllRecorded h) h w
      (ReconciliationService.retryFinished approval result mark) := by
  unfold ReconciliationService.retryFinished
  rw [Machine.ensures_bind]
  refine hmark.mono (fun h w recovered _ howes => ?_) fun _ _ _ _ hh => hh
  rw [Machine.ensures_bind]
  refine audited_record howes ?_ fun _ _ _ _ hh => ⟨trivial, hh⟩
  rintro row ⟨htraceId, hstatus, houtcome⟩
  exact ⟨htraceId.symm, names_reconciliationCompleted rfl (by rw [hstatus]) houtcome⟩

/-- The new apply of a retry, and the mark after it. -/
theorem audited_retryApply (service : ReconciliationService) (x : String)
    (approval : ApprovalRequest) (result : Dict) (hrecorded : AllRecorded h) (hh : Searching h) :
    system.Ensures i audited (fun h _ _ => AllRecorded h ↔ FoundFirst h) (fun _ _ _ => True) h w
      (service.retryApply x approval result) := by
  unfold ReconciliationService.retryApply
  rw [Machine.ensures_bind]
  refine audited_record (discharged_iff.mp hrecorded) (fun _ => False.elim)
    fun w' env _ _ hrecorded => ?_
  rw [Machine.ensures_bind, Machine.ensures_attempt]
  refine (audited_of_uses (applyTrainingJob_uses _ true (some x))
    (I := fun h => AllRecorded h ∧ Searching h) (fun h op env w hop hh => ?_)
    ⟨hrecorded, hh.record⟩).mono
    ?_ ?_
  · have hcommits := commitsNothing_of_isApplying hop
    refine ⟨hh.1.concat fun _ => not_commits hcommits, hh.2.quiet hcommits ?_⟩
    cases op <;> first | exact Bool.false_ne_true | cases hop
  · rintro h w execution - ⟨⟨hrecorded, hh⟩, -⟩
    simp only
    split <;> exact audited_lastMark rfl hrecorded hh
  · rintro h w exc - ⟨⟨hrecorded, hh⟩, -⟩
    exact audited_lastMark rfl hrecorded hh

/-- The branches of a retry on what the status check told. -/
theorem audited_retryBranch (service : ReconciliationService) (x : String)
    (approval claimed : ApprovalRequest) (result : Dict) (hh : AllRecorded h)
    (htrace : HasTrace x approval.traceId w)
    (hfound : result.truthyAt "exists" → ∃ look ∈ h, findsJob look.op look.reply)
    (habsent : ¬result.truthyAt "exists" → Searching h) :
    system.Ensures i audited (fun h _ _ => AllRecorded h ↔ FoundFirst h) (fun _ _ _ => True) h w
      (service.retryBranch x approval claimed result) := by
  unfold ReconciliationService.retryBranch
  split
  · rename_i hcompleted
    refine audited_found (hfound (Bool.and_eq_true_iff.mp hcompleted).1) (audited_retryFinished ?_)
    exact audited_store hh (fun w' env reply hw' hreply howes => howes.weaken fun row hcommits =>
      owedBy_of_commits hcommits rfl hreply rfl rfl (htrace.mono hw')) fun _ _ _ hh => hh
  split
  · rename_i hfailed
    refine audited_found (hfound (Bool.and_eq_true_iff.mp hfailed).1) (audited_retryFinished ?_)
    exact audited_store hh (fun w' env reply hw' hreply howes => howes.weaken fun row hcommits =>
      owedBy_of_commits hcommits rfl hreply rfl rfl (htrace.mono hw')) fun _ _ _ hh => hh
  split
  · rename_i hexists
    refine audited_found (hfound hexists) ?_
    rw [Machine.ensures_bind]
    refine audited_record (discharged_iff.mp hh) (fun _ => False.elim) fun _ _ _ _ hh => ?_
    rw [Machine.ensures_bind]
    refine audited_store hh (fun _ _ _ _ _ _ => ⟨trivial, ?_⟩) fun _ _ _ hh => hh
    exact hh.concat fun _ => not_commits rfl
  rename_i hexists
  split
  · exact audited_lastMark rfl hh (habsent hexists)
  · exact audited_retryApply service x approval result hh (habsent hexists)

/-- The owner of a retry, after its claim. -/
theorem audited_retryOwned (service : ReconciliationService) (x : String)
    (approval claimed : ApprovalRequest) (htrace : HasTrace x approval.traceId w)
    {owed : ApprovalRequestRow → Prop} (hh : Owes Commits Records owed h)
    (howed : ∀ row, owed row → claimed.traceId = row.traceId ∧ row.status = .executing)
    (hsearching : Searching h) :
    system.Ensures i audited (fun h _ _ => AllRecorded h ↔ FoundFirst h) (fun _ _ _ => True) h w
      (service.retryOwned x approval claimed) := by
  unfold ReconciliationService.retryOwned
  rw [Machine.ensures_bind]
  refine audited_record hh (fun row hrow => ?_) fun w₁ env₁ _ hw₁ hh₁ => ?_
  · obtain ⟨htraceId, hstatus⟩ := howed row hrow
    exact ⟨htraceId, by rw [hstatus]; rfl⟩
  have htrace := htrace.mono hw₁
  rw [Machine.ensures_bind, Machine.ensures_attempt]
  refine ensures_getTrainingJobStatus _ _ trivial
    (fun _ exc => audited_lastMark rfl hh₁ hsearching.record) ?_
  refine fun _ w₂ env₂ hrely _ => ⟨trivial, fun result hresult => ?_, fun exc hexc => ?_⟩
  · have hfinds : findsJob (.kubectlGet (ReconciliationService.trainingJobName x))
        env₂.kubectlGet = result.truthyAt "exists" := by simp only [findsJob, hresult]
    refine audited_retryBranch service x approval claimed result
      (hh₁.concat fun _ => not_commits rfl) (htrace.mono hrely) (fun hexists => ?_) fun habsent => ?_
    · exact ⟨_, List.mem_append_right _ List.mem_cons_self, hfinds.trans hexists⟩
    · exact hsearching.record.quiet rfl fun hlook => habsent (hfinds.symm.trans hlook)
  · have hfinds : findsJob (.kubectlGet (ReconciliationService.trainingJobName x))
        env₂.kubectlGet = false := by simp only [findsJob, hexc]
    exact audited_lastMark rfl (hh₁.concat fun _ => not_commits rfl)
      (hsearching.record.quiet rfl (Bool.eq_false_iff.mp hfinds))

/-- `retry_if_absent` records every transition exactly if it has found the Job before its mark. -/
theorem audited_retryIfAbsent (service : ReconciliationService) (x : String) :
    system.Ensures i audited (fun h _ _ => AllRecorded h ↔ FoundFirst h) (fun _ _ _ => True) [] w
      (service.retryIfAbsent x) := by
  have hnil : AllRecorded [] := discharged_iff.mpr owes_nil
  have hstart : Searching [] := ⟨by simp, by simp⟩
  unfold ReconciliationService.retryIfAbsent
  rw [Machine.ensures_bind]
  refine audited_store hnil (fun w₁ env₁ found _ hfound _ => ?_) fun _ _ _ _ => trivial
  have hread : AllRecorded ([] ++ [system.entry i env₁ (.store (.get x)) w₁]) :=
    hnil.concat fun _ => not_commits rfl
  have hread' : Searching ([] ++ [system.entry i env₁ (.store (.get x)) w₁]) :=
    hstart.quiet rfl Bool.false_ne_true
  cases found with
  | none => exact ⟨trivial, trivial⟩
  | some approval =>
    simp only
    split
    · exact ⟨trivial, iff_of_true hread hread'.foundFirst⟩
    have htrace : HasTrace x approval.traceId (exec i (.store (.get x)) env₁ w₁).2 :=
      hasTrace_of_shown hfound rfl rfl
    rw [Machine.ensures_bind]
    refine audited_store hread (fun w₂ env₂ claim hw₂ hclaim howes => ?_) fun _ _ _ _ => trivial
    have hclaimed := hread'.concat (e := system.entry i env₂ (.store (.claimRetryExecution x)) w₂)
      (fun row hcommits => status_of_commits_claim hcommits (.inr rfl)) Bool.false_ne_true
    obtain ⟨claimed, owns⟩ := claim
    cases owns with
    | false =>
      have hlost := claimRetryExecution_lost (exec_store_ok hclaim)
      exact ⟨trivial, iff_of_true (hread.concat fun _ => not_commits_of_eq hlost)
        hclaimed.foundFirst⟩
    | true =>
      simp only [Bool.not_true, Bool.false_eq_true, if_false]
      refine audited_retryOwned service x approval claimed
        (htrace.mono (evolves_exec hw₂ _ env₂)) howes (fun row hcommits => ?_) hclaimed
      exact ⟨(shown_of_commits hcommits hclaim rfl).1, status_of_commits_claim hcommits (.inr rfl)⟩

end Retry

/-! ## Runs -/

/-- The calls with an audit trail: the handlers of the API, and the worker. -/
def Request.isAudited : Request → Bool
  | .createAgentDecision _ => true
  | .createApproval _ => true
  | .decideApproval _ _ => true
  | .executeApproval _ _ => true
  | .reconcileApproval _ _ => true
  | .retryApproval _ _ => true
  | .runOnce _ => true
  | _ => false

/-- Every one of them but the retry records what it commits. -/
theorem audited_serve {r : Request} (hr : r.isAudited)
    (hretry : ∀ service x, r ≠ .retryApproval service x) (i : ℕ) (w : World) :
    system.Ensures i audited (fun h _ _ => AllRecorded h) (fun h _ _ => AllRecorded h) [] w
      (serve r) := by
  cases r with
  | createAgentDecision request =>
    exact (Machine.ensures_map _ _).mpr (audited_createAgentDecision request)
  | createApproval request => exact (Machine.ensures_map _ _).mpr (audited_createApproval request)
  | decideApproval x decision =>
    exact (Machine.ensures_map _ _).mpr (audited_decideApproval x decision)
  | executeApproval service x =>
    exact (Machine.ensures_map _ _).mpr (audited_executeApproval service x)
  | reconcileApproval service x =>
    refine (Machine.ensures_map _ _).mpr ((ensures_rethrow _ _).mpr ?_)
    exact audited_reconcile _ x (discharged_iff.mpr owes_nil)
  | retryApproval service x => exact absurd rfl (hretry service x)
  | runOnce worker => exact (Machine.ensures_map _ _).mpr (audited_runOnce worker)
  | _ => cases hr

/-- The retry does exactly if it finds the Job. -/
theorem audited_serve_retry (service : AgentService) (x : String) (i : ℕ) (w : World) :
    system.Ensures i audited (fun h _ _ => AllRecorded h ↔ FoundFirst h) (fun _ _ _ => True) [] w
      (serve (.retryApproval service x)) :=
  (Machine.ensures_map _ _).mpr ((ensures_rethrow _ _).mpr (audited_retryIfAbsent _ x))

/-- The request and the response of a call that has returned normally. -/
def returned (config : Config Op Op.Reply PyExc Env World Request Response) (i : ℕ) :
    Option (Request × Response) :=
  match config.callers[i]? with
  | some ⟨r, some (.ret a)⟩ => some (r, a)
  | _ => none

/-- Nothing is left of its program but the response. -/
theorem caller_of_returned {config : Config Op Op.Reply PyExc Env World Request Response} {i : ℕ}
    {r : Request} {a : Response} (h : returned config i = some (r, a)) :
    config.callers[i]? = some ⟨r, some (.ret a)⟩ := by
  unfold returned at h
  split at h
  · cases h
    assumption
  · cases h

/-- What a call that has returned in a run ensured. -/
theorem of_returned {jobs : Jobs} {events : List SystemEvent} {i : ℕ} {r : Request} {a : Response}
    {Q : List LogEntry → World → Response → Prop} {E : List LogEntry → World → PyExc → Prop}
    (hwritten : ∀ e ∈ (runFrom jobs events).trace, auditWritten e.op e.reply)
    (hreturned : returned (runFrom jobs events) i = some (r, a))
    (hserve : ∀ w, system.Ensures i audited Q E [] w (serve r)) :
    ∃ w, Q (own (runFrom jobs events).trace i) w a := by
  have hkeeps : system.Keeps i audited Q E r (runFrom jobs events) :=
    Machine.keeps_run (fun _ _ row hrow => ⟨row, hrow, .refl row⟩) (fun _ _ _ => TableEvolves.trans)
      exec_tableEvolves (fun _ _ _ row hrow => ⟨row, hrow, .refl row⟩) hserve _ events hwritten
  obtain ⟨w, -, -, hQ⟩ := hkeeps.live _ (caller_of_returned hreturned)
  exact ⟨w, hQ⟩

/-- In a run whose audit writes succeed, the calls that return normally have recorded every
transition that they committed, exactly if the retries among them have found the Job before they
committed their mark. -/
theorem audit_complete_iff (jobs : Jobs) (events : List SystemEvent)
    (hwritten : ∀ e ∈ (runFrom jobs events).trace, auditWritten e.op e.reply) :
    let config := runFrom jobs events
    (∀ i r a, returned config i = some (r, a) → r.isAudited →
        AllRecorded (own config.trace i)) ↔
      ∀ i service x a, returned config i = some (.retryApproval service x, a) →
        FoundFirst (own config.trace i) := by
  intro config
  have hretry {i : ℕ} {service : AgentService} {x : String} {a : Response}
      (hreturned : returned config i = some (.retryApproval service x, a)) :
      AllRecorded (own config.trace i) ↔ FoundFirst (own config.trace i) := by
    obtain ⟨-, hiff⟩ := of_returned hwritten hreturned (audited_serve_retry service x i)
    exact hiff
  refine ⟨fun hall i service x a hreturned => ?_, fun hfound i r a hreturned hr => ?_⟩
  · exact (hretry hreturned).mp (hall i _ a hreturned rfl)
  · by_cases h : ∃ service x, r = .retryApproval service x
    · obtain ⟨service, x, rfl⟩ := h
      exact (hretry hreturned).mpr (hfound i service x a hreturned)
    · obtain ⟨-, hrecorded⟩ := of_returned hwritten hreturned
        (audited_serve hr (fun service x heq => h ⟨service, x, heq⟩) i)
      exact hrecorded

/-- The execution of `a1` times out, and a retry asks for the Job and gets this answer. -/
def retriedRun (answer : KubectlGet) (rest : List Env) : List SystemEvent :=
  let manifest : Except SystemFailure String := .ok "name: credit-model-training"
  approvedRun ++ [.arrive (.execute {} "a1"), .step 2 {}, .step 2 {}, .step 2 { manifest },
    .step 2 { manifest }, .step 2 {}, .step 2 {}, .step 2 {},
    .arrive (.retryApproval {} "a1"), .step 3 {}, .step 3 {}, .step 3 { uuid := "e1" },
    .step 3 { kubectlGet := answer }] ++ rest.map (.step 3)

/-- The retry does not find the Job, applies it again and returns, and the completion is nowhere
recorded. -/
theorem retry_unrecorded :
    let manifest : Except SystemFailure String := .ok "name: credit-model-training"
    let config := runFrom (fun _ => none) (retriedRun (.exited 1 (.error ""))
      [{ uuid := "e2" }, {}, { manifest }, { manifest }, { kubectlApply := .ok "created" }, {}, {}])
    (∀ e ∈ config.trace, auditWritten e.op e.reply) ∧
      (returned config 3).isSome ∧
        statusOf config.world.approvals "a1" = some .completed ∧
          ¬AllRecorded (own config.trace 3) := by
  intro manifest config
  have hlast : (own config.trace 3).getLast?.map (fun e =>
      (statusOf e.before.approvals "a1", statusOf e.after.approvals "a1")) =
        some (some .executing, some .completed) := by decide +kernel
  obtain ⟨e, he, hstatus⟩ := Option.map_eq_some_iff.mp hlast
  obtain ⟨h, hsplit⟩ := List.getLast?_eq_some_iff.mp he
  obtain ⟨hbefore, hafter⟩ := Prod.mk.inj hstatus
  obtain ⟨row, hrow, hcompleted⟩ := Option.map_eq_some_iff.mp hafter
  refine ⟨by decide +kernel, by decide +kernel, by decide +kernel, ?_⟩
  rw [hsplit]
  refine not_discharged_concat ⟨"a1", hrow, ?_⟩
  rw [hbefore, hcompleted]
  decide

/-- The retry finds the completed Job, and every call of the run has recorded its transitions. -/
theorem audit_complete_iff_found :
    let finished : Json := .obj [("status", .obj [("completionTime", .str "t")])]
    let config := runFrom (fun _ => none)
      (retriedRun (.exited 0 (.ok finished)) [{}, { uuid := "e2" }])
    (returned config 3).isSome ∧ statusOf config.world.approvals "a1" = some .completed ∧
      ∀ i r a, returned config i = some (r, a) → r.isAudited → AllRecorded (own config.trace i) := by
  intro finished config
  refine ⟨by decide +kernel, by decide +kernel,
    (audit_complete_iff (fun _ => none) _ (by decide +kernel)).mpr ?_⟩
  intro i service x a hreturned
  have hretries : config.callers.map (fun caller => caller.request matches .retryApproval _ _) =
      [false, false, false, true] := by decide +kernel
  obtain rfl : i = 3 := by
    have hretry : (config.callers.map _)[i]? = [false, false, false, true][i]? :=
      congrArg (·[i]?) hretries
    rw [List.getElem?_map, caller_of_returned hreturned, Option.map_some] at hretry
    match i, hretry with
    | 3, _ => rfl
  have hlook : ∃ look ∈ own config.trace 3, findsJob look.op look.reply := by decide +kernel
  exact fun _ _ _ _ _ => hlook

end CreditScoringMlops.ControlPlane
