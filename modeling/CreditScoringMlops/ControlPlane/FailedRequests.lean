import CreditScoringMlops.ControlPlane.Contracts
import CreditScoringMlops.ControlPlane.NoBlindReexecution

/-!
# Requests that fail before the apply

A handler changes the table at most once before it reaches Kubernetes, and the audit event of the
change is written by the next operation, in another transaction. Where audit writes may raise and
the store answers, a request that fails at any other point leaves the table as it was; if this
write fails, the change stays.
-/

namespace CreditScoringMlops.ControlPlane

open Python Interaction Program ClaimProtocol ApprovalStore

/-- The handlers of the API that record what they do, without the two that only recover. -/
def Request.isRecorded : Request → Bool
  | .createAgentDecision _ => true
  | .createApproval _ => true
  | .decideApproval _ _ => true
  | .executeApproval _ _ => true
  | _ => false

/-- The audit event that an operation failed to write. -/
def lostWrite : (op : Op) → op.Reply → Option AuditEventType
  | .record event, .error _ => some event.eventType
  | _, _ => none

/-- The events that follow a change of the table. -/
def AuditEventType.followsChange : AuditEventType → Bool
  | approvalRequested => true
  | approvalDecided => true
  | executionStarted => true
  | _ => false

/-- The change that stays when the event that belongs to it is lost: a new approval, a decision, or
a claimed execution. -/
inductive Stranded (before after : ApprovalTable) : AuditEventType → Prop where
  | requested {request : ApprovalRequest} (hstatus : request.status = .pending)
      (h : before.insert? (newRow request) = some after) :
      Stranded before after .approvalRequested
  | decided {row : ApprovalRequestRow} (decision : ApprovalDecision)
      (hrow : before.lookup decision.approvalId = some row) (hstatus : row.status = .pending)
      (h : after = before.write { row with
        status := if decision.approved then .approved else .rejected
        decidedAt := some decision.decidedAt
        decidedBy := some decision.decidedBy
        decisionComment := decision.comment }) : Stranded before after .approvalDecided
  | started {row : ApprovalRequestRow} (x : String) (now : Time)
      (hrow : before.lookup x = some row) (hstatus : row.status = .approved)
      (h : after = before.write { row with
        status := .executing, executionStartedAt := some now }) :
      Stranded before after .executionStarted

/-- Such a change follows such an event. -/
theorem Stranded.followsChange {before after : ApprovalTable} {type : AuditEventType}
    (h : Stranded before after type) : type.followsChange := by
  cases h <;> rfl

/-- It is a change. -/
theorem Stranded.ne {before after : ApprovalTable} {type : AuditEventType}
    (h : Stranded before after type) : after ≠ before := by
  intro heq
  cases h with
  | @requested request hstatus h =>
    obtain ⟨hfree, hlookup⟩ := ApprovalTable.lookup_insert? h (newRow request).approvalId
    rw [heq, hfree, if_pos rfl] at hlookup
    cases hlookup
  | decided decision hrow hstatus h =>
    have hsame := ApprovalTable.status_of_write_eq hrow (h.symm.trans heq) rfl
    cases happroved : decision.approved <;> simp [hstatus, happroved] at hsame
  | started x now hrow hstatus h =>
    have hsame := ApprovalTable.status_of_write_eq hrow (h.symm.trans heq) rfl
    simp [hstatus] at hsame

/-- The last operation of a history failed to write an event that follows a change. -/
def LostWrite (h : List LogEntry) (type : AuditEventType) : Prop :=
  ∃ pre e, h = pre ++ [e] ∧ lostWrite e.op e.reply = some type ∧ type.followsChange

/-- Nothing has been changed, and no such event is lost. -/
def Unchanged (before : ApprovalTable) (h : List LogEntry) (w : World) : Prop :=
  w.approvals = before ∧ ∀ type, ¬LostWrite h type

/-- How a request may fail that found the table `before`: after its apply, without a change, or
with the change whose event it failed to write. -/
def FailsFrom (before : ApprovalTable) (h : List LogEntry) (w : World) : Prop :=
  (∃ e ∈ h, isApplyCall e.op) ∨ Unchanged before h w ∨
    ∃ type, LostWrite h type ∧ Stranded before w.approvals type

/-- An audit write. -/
def isAuditWrite : Op → Bool
  | .record _ => true
  | _ => false

/-- If the database fails here, it does so in an audit write. The calls of the store are left out:
one that has committed reads its row once more, and may raise with its change in the table. -/
def FailsInAuditWrite (e : LogEntry) : Prop := e.env.fault.isSome → isAuditWrite e.op

instance : DecidablePred FailsInAuditWrite :=
  fun e => inferInstanceAs (Decidable (e.env.fault.isSome → isAuditWrite e.op))

/-- Nobody else is there, and the database fails in audit writes only. -/
def alone : Contract Op Op.Reply Env World where
  rely := Eq
  given := FailsInAuditWrite

/-- Where the database does not fail, a store call raises before it has changed anything. -/
theorem exec_store_raised {i : ℕ} {op : StoreOp} {env : Env} {w : World} {exc : PyExc}
    (hfault : env.fault = none) (h : (exec i (.store op) env w).1 = .error exc) :
    (exec i (.store op) env w).2 = w := by
  have hexec : exec i (.store op) env w = execStore env op w := by
    simp only [exec, orFault, hfault]
  rw [hexec] at h ⊢
  unfold execStore at h ⊢
  split at h
  · cases h
  · rfl

section Handlers

variable {A : Type} {i : ℕ} {before : ApprovalTable} {h : List LogEntry} {w : World}

/-- A request that has done nothing has changed nothing. -/
theorem unchanged_nil (hw : w.approvals = before) : Unchanged before [] w :=
  ⟨hw, by rintro type ⟨pre, e, heq, -⟩; simp at heq⟩

/-- After an operation that is no lost event, nothing has been changed if the table is the same. -/
theorem unchanged_concat {e : LogEntry} (hw : w.approvals = before)
    (he : ∀ type, lostWrite e.op e.reply = some type → type.followsChange = false) :
    Unchanged before (h ++ [e]) w := by
  refine ⟨hw, ?_⟩
  rintro type ⟨pre, e', heq, hlost, hfollows⟩
  obtain rfl := List.singleton_injective (List.append_inj_right' heq rfl)
  rw [he type hlost] at hfollows
  cases hfollows

/-- Failing to write the event of a change strands the change. -/
theorem failsFrom_lost {e : LogEntry} {type : AuditEventType}
    (he : lostWrite e.op e.reply = some type) (hstranded : Stranded before w.approvals type) :
    FailsFrom before (h ++ [e]) w :=
  .inr (.inr ⟨type, ⟨h, e, rfl, he, hstranded.followsChange⟩, hstranded⟩)

/-- After the call of an apply, nothing more is asked. -/
theorem failsFrom_of_applied (p : Handler A) (hcall : ∃ e ∈ h, isApplyCall e.op) :
    system.Ensures i alone (fun _ _ _ => True) (fun h w _ => FailsFrom before h w) h w p :=
  (Machine.ensures_of_obeys p.uses_all (I := fun _ h _ => ∃ e ∈ h, isApplyCall e.op)
    (fun _ _ _ _ => trivial)
    (fun _ _ _ _ _ _ _ ⟨e, he, hcall⟩ _ _ => ⟨trivial, e, List.mem_append_left _ he, hcall⟩)
    hcall).mono (fun _ _ _ _ _ => trivial) fun _ _ _ _ ⟨_, _, hcall⟩ => .inl hcall

/-- An operation that writes no table may be followed by the rest of the handler. -/
theorem failsFrom_ask (op : Op) {Q : List LogEntry → World → op.Reply → Prop}
    (hstep : ∀ env, Q (h ++ [system.entry i env op w]) (exec i op env w).2 (exec i op env w).1) :
    system.Ensures i alone Q (fun h w _ => FailsFrom before h w) h w (ask op) :=
  ensures_ask op trivial fun w' env hrely _ => by
    obtain rfl : w = w' := hrely
    exact ⟨trivial, hstep env⟩

/-- A store call raises without a change. -/
theorem failsFrom_store (op : StoreOp) {Q : List LogEntry → World → op.Result → Prop}
    (hw : w.approvals = before)
    (hok : ∀ env a, perform env.now before op = .ok (a, (exec i (.store op) env w).2.approvals) →
      Q (h ++ [system.entry i env (.store op) w]) (exec i (.store op) env w).2 a) :
    system.Ensures i alone Q (fun h w _ => FailsFrom before h w) h w (store op) := by
  refine ensures_store op trivial fun w' env hrely hgiven => ?_
  obtain rfl : w = w' := hrely
  have hfault : env.fault = none := by
    cases hfault : env.fault with
    | none => rfl
    | some message => cases hgiven (congrArg Option.isSome hfault)
  refine ⟨trivial, fun a ha => hok env a (hw ▸ exec_store_ok ha), fun exc hexc => ?_⟩
  refine .inr (.inl (unchanged_concat ?_ fun type hlost => ?_))
  · rw [exec_store_raised hfault hexc, hw]
  · cases hlost

/-- The record of a change strands the change where it fails. -/
theorem failsFrom_record (event : AuditRecord) {Q : List LogEntry → World → AuditEvent → Prop}
    (hw : w.approvals = before ∧ event.eventType.followsChange = false ∨
      Stranded before w.approvals event.eventType)
    (hok : ∀ h w' a, w'.approvals = w.approvals → Q h w' a) :
    system.Ensures i alone Q (fun h w _ => FailsFrom before h w) h w (record event) := by
  refine ensures_record event trivial fun w' env hrely _ => ?_
  obtain rfl : w = w' := hrely
  have hsame : (exec i (.record event) env w).2.approvals = w.approvals := exec_approvals (by simp)
  refine ⟨trivial, fun a _ => hok _ _ a hsame, fun exc hexc => ?_⟩
  have hlost : lostWrite (.record event) (exec i (.record event) env w).1 =
      some event.eventType := by rw [hexc]; rfl
  rcases hw with ⟨hw, hfollows⟩ | hstranded
  · refine .inr (.inl (unchanged_concat (hsame.trans hw) fun type htype => ?_))
    obtain rfl := Option.some.inj (hlost.symm.trans htype)
    exact hfollows
  · exact failsFrom_lost hlost (hsame ▸ hstranded)

/-- Opening an approval and recording it. -/
theorem failsFrom_open {approval : ApprovalRequest} {b : A} (hw : w.approvals = before) :
    system.Ensures i alone (fun _ _ _ => True) (fun h w _ => FailsFrom before h w) h w (do
      let _ ← store (.create approval)
      let _ ← record (AgentService.approvalRequested approval)
      return b) := by
  rw [Machine.ensures_bind]
  refine failsFrom_store _ hw fun env a ha => ?_
  obtain ⟨hstatus, hinsert⟩ := create_ok ha
  rw [Machine.ensures_bind]
  exact failsFrom_record _ (.inr (.requested hstatus hinsert)) fun _ _ _ _ => ⟨trivial, trivial⟩

/-- `create_approval`. -/
theorem failsFrom_createApproval (request : ApprovalCreateRequest) (hw : w.approvals = before) :
    system.Ensures i alone (fun _ _ _ => True) (fun h w _ => FailsFrom before h w) [] w
      (AgentService.createApproval request) := by
  unfold AgentService.createApproval
  split
  · exact ⟨trivial, .inr (.inl (unchanged_nil hw))⟩
  · rw [Machine.ensures_bind]
    refine failsFrom_ask _ fun env => ?_
    rw [Machine.ensures_bind]
    exact failsFrom_ask _ fun env => failsFrom_open hw

/-- The trace id of a request. -/
theorem failsFrom_traceIdOf (context : Dict) (hw : w.approvals = before) :
    system.Ensures i alone (fun h w _ => Unchanged before h w)
      (fun h w _ => FailsFrom before h w) [] w (AgentService.traceIdOf context) := by
  refine (Machine.ensures_of_obeys (AgentService.traceIdOf_uses context)
    (I := fun _ h w => Unchanged before h w) (fun _ _ _ _ => trivial) ?_ (unchanged_nil hw)).mono
    (fun _ _ _ _ ⟨_, _, hI⟩ => hI) fun _ _ _ _ ⟨_, _, hI⟩ => .inr (.inl hI)
  intro _ h w w' op env hop hI hrely _
  obtain rfl : w = w' := hrely
  cases op with
  | str value => exact ⟨trivial, unchanged_concat hI.1 fun _ hlost => by cases hlost⟩
  | uuid4 => exact ⟨trivial, unchanged_concat hI.1 fun _ hlost => by cases hlost⟩
  | _ => cases hop

/-- `create_agent_decision`. -/
theorem failsFrom_createAgentDecision (request : AgentDecisionRequest)
    (hw : w.approvals = before) :
    system.Ensures i alone (fun _ _ _ => True) (fun h w _ => FailsFrom before h w) [] w
      (AgentService.createAgentDecision request) := by
  unfold AgentService.createAgentDecision
  rw [Machine.ensures_bind]
  refine (failsFrom_traceIdOf _ hw).mono (fun h w traceId _ hunchanged => ?_) fun _ _ _ _ h => h
  split
  · exact ⟨trivial, .inr (.inl hunchanged)⟩
  obtain ⟨hw, -⟩ := hunchanged
  rw [Machine.ensures_bind]
  refine failsFrom_ask _ fun env => ?_
  rw [Machine.ensures_bind]
  refine Machine.ensures_ofExcept trivial (fun decision _ => ?_) fun exc _ =>
    .inr (.inl (unchanged_concat hw fun _ hlost => by cases hlost))
  rw [Machine.ensures_bind]
  refine failsFrom_record _ (.inl ⟨hw, rfl⟩) fun h w' _ hw' => ?_
  simp only
  split
  · rw [Machine.ensures_bind, Machine.ensures_map]
    unfold AgentService.proposeRetraining
    rw [Machine.ensures_bind]
    refine failsFrom_ask _ fun env => ?_
    rw [Machine.ensures_bind]
    refine failsFrom_ask _ fun env => ?_
    exact (failsFrom_open (hw'.trans hw)).mono (fun _ _ _ _ _ => ⟨trivial, trivial⟩)
      fun _ _ _ _ h => h
  · exact ⟨trivial, trivial⟩

/-- `decide_approval`. -/
theorem failsFrom_decideApproval (x : String) (decision : ApprovalDecision)
    (hw : w.approvals = before) :
    system.Ensures i alone (fun _ _ _ => True) (fun h w _ => FailsFrom before h w) [] w
      (AgentService.decideApproval x decision) := by
  unfold AgentService.decideApproval
  split
  · exact ⟨trivial, .inr (.inl (unchanged_nil hw))⟩
  · rw [Machine.ensures_bind, ensures_rethrow]
    refine failsFrom_store _ hw fun env a ha => ?_
    obtain ⟨row, hrow, hstatus, htable⟩ := decide_ok ha
    rw [Machine.ensures_bind]
    exact failsFrom_record _ (.inr (.decided decision hrow hstatus htable))
      fun _ _ _ _ => ⟨trivial, trivial⟩

/-- `execute_approval`. -/
theorem failsFrom_executeApproval (service : AgentService) (x : String)
    (hw : w.approvals = before) :
    system.Ensures i alone (fun _ _ _ => True) (fun h w _ => FailsFrom before h w) [] w
      (service.executeApproval x) := by
  unfold AgentService.executeApproval
  rw [Machine.ensures_bind]
  refine failsFrom_store _ hw fun env found hget => ?_
  obtain ⟨rfl, hw⟩ := Prod.mk.inj (Except.ok.inj hget)
  have hunchanged : Unchanged before ([] ++ [system.entry i env (.store (.get x)) w])
      (exec i (.store (.get x)) env w).2 := unchanged_concat hw.symm fun _ hlost => by cases hlost
  split
  · exact ⟨trivial, .inr (.inl hunchanged)⟩
  split
  · exact ⟨trivial, .inr (.inl hunchanged)⟩
  rw [Machine.ensures_bind, ensures_rethrow]
  refine failsFrom_store _ hw.symm fun env claim hclaim => ?_
  obtain ⟨approval, _ | _⟩ := claim
  · exact ⟨trivial, trivial⟩
  obtain ⟨row, hrow, hstatus, htable⟩ := claimExecution_won hclaim
  change system.Ensures _ _ _ _ _ _ (record _ >>= fun _ => service.executeOwned x approval)
  rw [Machine.ensures_bind]
  refine failsFrom_record _ (.inr (.started x _ hrow hstatus htable)) fun h w' _ _ => ?_
  -- the next operation is the call of the apply
  exact ⟨trivial, fun w' env _ _ => failsFrom_of_applied _
    ⟨system.entry i env (.applyCalled true (some x)) w', by simp, rfl⟩⟩

/-- Every recorded request. -/
theorem failsFrom_serve {r : Request} (hr : r.isRecorded) (hw : w.approvals = before) :
    system.Ensures i alone (fun _ _ _ => True) (fun h w _ => FailsFrom before h w) [] w
      (serve r) := by
  cases r with
  | createAgentDecision request =>
    exact (Machine.ensures_map _ _).mpr (failsFrom_createAgentDecision request hw)
  | createApproval request =>
    exact (Machine.ensures_map _ _).mpr (failsFrom_createApproval request hw)
  | decideApproval x decision =>
    exact (Machine.ensures_map _ _).mpr (failsFrom_decideApproval x decision hw)
  | executeApproval service x =>
    exact (Machine.ensures_map _ _).mpr (failsFrom_executeApproval service x hw)
  | _ => cases hr

end Handlers

/-- Where the database fails in audit writes only, a recorded request that ends in an error before
it calls an apply has changed nothing, unless the write that failed is that of the event that
follows its change of the table; then exactly this change stays. -/
theorem failed_request (w : World) (i : ℕ) (env : ℕ → Env) (r : Request) (hr : r.isRecorded) :
    let ended := system.finish i { env := env } 0 w (serve r)
    (∀ e ∈ ended.entries, FailsInAuditWrite e) →
    ∀ exc, ended.outcome = .error exc → (∀ e ∈ ended.entries, ¬isApplyCall e.op) →
      (ended.world.approvals = w.approvals ∧ ∀ type, ¬LostWrite ended.entries type) ∨
        ∃ type, LostWrite ended.entries type ∧
          Stranded w.approvals ended.world.approvals type ∧
            ended.world.approvals ≠ w.approvals := by
  intro ended hgiven exc hexc hcalls
  have hmeets := (failsFrom_serve (i := i) hr (Eq.refl w.approvals)).finish
    (s := { env := env }) (k := 0) (fun _ _ => rfl) hgiven
  simp only [Ended.Meets, List.nil_append] at hmeets
  rw [show (system.finish i { env := env } 0 w (serve r)).outcome = .error exc from hexc] at hmeets
  rcases hmeets with ⟨e, he, hcall⟩ | hunchanged | ⟨type, hlost, hstranded⟩
  · exact absurd hcall (hcalls e he)
  · exact .inl hunchanged
  · exact .inr ⟨type, hlost, hstranded, hstranded.ne⟩

/-- The audit write after the claim fails, and the approval stays executing. -/
theorem failed_request_claimed :
    let w := (runFrom (fun _ => none) approvedRun).world
    let lost (k : ℕ) : Env := if k = 2 then { fault := some "audit database is down" } else {}
    let ended := system.finish 2 { env := lost } 0 w (serve (.executeApproval {} "a1"))
    ended.outcome = .error (.other "audit database is down") ∧
      (∀ e ∈ ended.entries, FailsInAuditWrite e) ∧ (∀ e ∈ ended.entries, ¬isApplyCall e.op) ∧
        statusOf w.approvals "a1" = some .approved ∧
          statusOf ended.world.approvals "a1" = some .executing ∧
            ended.world.approvals ≠ w.approvals := by
  intro w lost ended
  have happroved : statusOf w.approvals "a1" = some .approved := rfl
  have hexecuting : statusOf ended.world.approvals "a1" = some .executing := rfl
  refine ⟨rfl, by decide, by decide, happroved, hexecuting, fun heq => ?_⟩
  rw [heq, happroved] at hexecuting
  cases hexecuting

/-- A decision whose event is lost stays. -/
theorem failed_request_decided :
    let w := (runFrom (fun _ => none) (approvedRun.take 5)).world
    let lost (k : ℕ) : Env := if k = 1 then { fault := some "audit database is down" } else {}
    let decision : ApprovalDecision := { approvalId := "a1", approved := true, decidedAt := 1 }
    let ended := system.finish 1 { env := lost } 0 w (serve (.decideApproval "a1" decision))
    (ended.world.approvals = w.approvals ∧ ∀ type, ¬LostWrite ended.entries type) ∨
      ∃ type, LostWrite ended.entries type ∧ Stranded w.approvals ended.world.approvals type ∧
        ended.world.approvals ≠ w.approvals := by
  intro w lost decision
  exact failed_request w 1 lost (.decideApproval "a1" decision) rfl (by decide)
    (.other "audit database is down") rfl (by decide)

end CreditScoringMlops.ControlPlane
