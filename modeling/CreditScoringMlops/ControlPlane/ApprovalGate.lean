import CreditScoringMlops.ControlPlane.ClaimHistory

/-!
# The approval gate

The executor is always called with `approved=True`. What stands behind the flag is the status
graph: only a decision leads out of the pending state, a rejected row is never claimed, and an
apply call belongs to a caller that has won a claim.
-/

namespace CreditScoringMlops.ControlPlane

open Python Interaction ClaimProtocol ApprovalStore

variable {jobs : Jobs} {trace : List LogEntry} {w : World} {x : String}

/-- The decision that an operation has committed. -/
def decided : (op : Op) → op.Reply → Option ApprovalDecision
  | .store (.decide d), .ok _ => some d
  | _, _ => none

/-- A committed decision found a pending row and left a decided one. -/
theorem decided_exec {i : ℕ} {env : Env} {op : Op} {d : ApprovalDecision}
    (h : decided op (exec i op env w).1 = some d) :
    (∃ row, w.approvals.lookup d.approvalId = some row ∧ row.status = .pending) ∧
      ∃ row, (exec i op env w).2.approvals.lookup d.approvalId = some row ∧
        row.status = if d.approved then .approved else .rejected := by
  cases op with
  | store op =>
    cases op with
    | decide d' =>
      cases hreply : (exec i (.store (.decide d')) env w).1 with
      | error exc => rw [hreply] at h; cases h
      | ok a =>
        rw [hreply] at h
        cases h
        obtain ⟨row, hrow, hpending, htable⟩ := decide_ok (exec_store_ok hreply)
        refine ⟨⟨row, hrow, hpending⟩, ?_⟩
        rw [htable]
        exact ⟨_, ApprovalTable.lookup_write_of_lookup hrow rfl, rfl⟩
    | _ => cases h
  | _ => cases h

/-- A started row was approved by an entry of the trace. -/
theorem Legal.approved (h : Legal jobs trace w) {row : ApprovalRequestRow}
    (hrow : w.approvals.lookup x = some row) (hstarted : row.status.isStarted) :
    ∃ e ∈ trace, ∃ d, decided e.op e.reply = some d ∧ d.approvalId = x ∧ d.approved := by
  have hdecided : row.status ≠ .pending := fun hpending => by
    rw [hpending] at hstarted; cases hstarted
  rw [h.approvals_eq] at hrow
  obtain ⟨earlier, later, now, d, hcalls, hid, hpending, hd⟩ :=
    runCalls_decision _ x row hrow hdecided
  obtain ⟨pre, post, i, env, w', rfl, htable, hnow, hfault⟩ := h.exists_entry hcalls
  refine ⟨system.entry i env (.store (.decide d)) w', by simp, d, ?_, hid, ?_⟩
  · obtain ⟨old, hold, hstatus⟩ := Option.map_eq_some_iff.mp hpending
    rw [← hid, ← htable] at hold
    simp only [Machine.entry, system, exec, orFault, hfault, execStore, perform,
      decide_of_lookup hold, hstatus, if_true, decided]
  · have hverdict := hd.verdict
    cases happroved : d.approved with
    | true => rfl
    | false =>
      rw [hverdict.mpr happroved] at hstarted
      cases hstarted

/-- Only training jobs are opened. -/
theorem action_of_may_create {s : Phase} {request : ApprovalRequest}
    (h : May s (.store (.create request))) : request.action = "create_training_job" := by
  generalize hop : Op.store (.create request) = op at h
  cases h with
  | read hs hop' => subst hop; cases hop'
  | create hs hstatus haction => cases hop; exact haction
  | claim route x => cases route <;> cases hop
  | close h => cases hop; cases h
  | _ => cases hop

/-- Every row asks for a training job. -/
theorem Legal.action_eq (h : Legal jobs trace w) {row : ApprovalRequestRow}
    (hrow : w.approvals.lookup x = some row) : row.action = "create_training_job" := by
  induction h generalizing row with
  | nil => cases hrow
  | @snoc trace w i env op h hmay ih =>
    by_cases hop : ∃ o, op = .store o
    · obtain ⟨o, rfl⟩ := hop
      have hstep := exec_rowStep i o env w x
      rw [show (exec i (.store o) env w).2.approvals.lookup x = some row from hrow] at hstep
      generalize hbefore : w.approvals.lookup x = before at hstep
      cases hstep with
      | stay row => exact ih hbefore
      | insert request hcreate hid hstatus =>
        subst hcreate
        exact action_of_may_create hmay
      | change hid htarget hchange =>
        have haction := congrArg (fun columns => columns.2.2.1) hchange.frame
        exact haction.trans (ih hbefore)
    · rw [show (system.exec i op env w).2.approvals = w.approvals from
        exec_approvals fun o ho => hop ⟨o, ho⟩] at hrow
      exact ih hrow
  | abort i h ih => exact ih hrow

/-- An apply call of an approved execution belongs to the owner of that execution. -/
theorem owner_of_may_apply {s : Phase} (h : May s (.applyCalled true (some x))) :
    ∃ route, s.owner = some (route, x) := by
  cases h with
  | read hs hop => cases hop
  | applyFirst => exact ⟨.execute, rfl⟩
  | applyAgain h => exact ⟨.retry, rfl⟩

/-- In every run, an apply call for an approval comes after a committed approval of it; its row
asks for a training job, and no rejection of it is ever committed. -/
theorem apply_approved (jobs : Jobs) (events : List SystemEvent) (x : String)
    (pre post : List LogEntry) (e : LogEntry)
    (htrace : (runFrom jobs events).trace = pre ++ e :: post)
    (happly : e.op = .applyCalled true (some x)) :
    (∃ f ∈ pre, ∃ d, decided f.op f.reply = some d ∧ d.approvalId = x ∧ d.approved) ∧
      (∃ row, e.before.approvals.lookup x = some row ∧ row.action = "create_training_job") ∧
        ∀ f ∈ (runFrom jobs events).trace, ∀ d, decided f.op f.reply = some d →
          d.approvalId = x → d.approved := by
  have hlegal := legal_runFrom jobs events
  rw [htrace] at hlegal ⊢
  obtain ⟨i, env, op, w', rfl, hpre, hmay⟩ := hlegal.at_entry rfl
  obtain rfl : op = .applyCalled true (some x) := happly
  obtain ⟨route, howner⟩ := owner_of_may_apply hmay
  have hwon := (owner_iff_won hpre i (route, x)).mp howner
  obtain ⟨row, hrow, hstarted⟩ := hwon.started hpre
  refine ⟨hpre.approved hrow hstarted, ⟨row, hrow, hpre.action_eq hrow⟩, fun f hf d hd hid => ?_⟩
  obtain ⟨before, after, hsplit⟩ := List.append_of_mem hf
  obtain ⟨j, env', op', w'', rfl, -, -⟩ := hlegal.at_entry hsplit
  obtain ⟨-, rejected, hrejected, hstatus⟩ := decided_exec hd
  cases happroved : d.approved with
  | true => rfl
  | false =>
    -- a rejected row stays rejected, but the row of an owner is started
    rw [hid] at hrejected
    rw [happroved] at hstatus
    obtain ⟨last, hlast, hevolves⟩ := hlegal.tableEvolves hf x rejected hrejected
    obtain ⟨last', hlast', hstarted'⟩ := (hwon.mono (by simp)).started hlegal
    rw [hlast] at hlast'
    obtain rfl := Option.some.inj hlast'
    rw [hevolves.terminal (by rw [hstatus]; rfl), hstatus] at hstarted'
    cases hstarted'

/-- The gate on a run in which the approval service executes what was approved. -/
theorem apply_approved_executed :
    let events := approvedRun ++ [.arrive (.execute {} "a1"), .step 2 { now := 2 }, .step 2 {}]
    ∃ pre e post, (runFrom (fun _ => none) events).trace = pre ++ e :: post ∧
      e.op = .applyCalled true (some "a1") ∧
        ∃ f ∈ pre, ∃ d, decided f.op f.reply = some d ∧ d.approvalId = "a1" ∧ d.approved := by
  intro events
  obtain ⟨e, post, hdrop, happly⟩ : ∃ e post,
      (runFrom (fun _ => none) events).trace.drop 6 = e :: post ∧
        e.op = .applyCalled true (some "a1") := ⟨_, _, rfl, rfl⟩
  have htrace := (List.take_append_drop 6 (runFrom (fun _ => none) events).trace).symm
  rw [hdrop] at htrace
  exact ⟨_, e, post, htrace, happly, (apply_approved _ events "a1" _ _ _ htrace happly).1⟩

end CreditScoringMlops.ControlPlane
