import CreditScoringMlops.ControlPlane.LeaseExclusivity
import CreditScoringMlops.ControlPlane.MarkHistory

/-!
# Stale owners are not fenced off

The marks of the store look at the status of the row, never at who holds the claim. A paused
owner that wakes up after its claim has been revoked and won by another caller therefore still
closes the execution. What protects the row is the status graph alone: a terminal row stays.
-/

namespace CreditScoringMlops.ControlPlane

open Python Interaction ClaimProtocol ApprovalStore

variable {jobs : Jobs} {trace : List LogEntry} {w : World} {x : String}

/-- A mark changes a row exactly when the database is well and the status guard admits it. -/
theorem mark_changes_iff {i : ℕ} {env : Env} {op : StoreOp} {target : ApprovalStatus}
    {row : ApprovalRequestRow} (hmarks : op.marks = some (x, target))
    (hrow : w.approvals.lookup x = some row) :
    (exec i (.store op) env w).2.approvals.lookup x ≠ some row ↔
      env.fault = none ∧ markWrites target row.status := by
  obtain ⟨message, hfault, hexec⟩ | ⟨hfault, hwrites, a, result, -, hafter⟩ |
    ⟨hfault, hrepeats, a, hexec⟩ | ⟨hfault, hwrites, -, hexec⟩ :=
      mark_exec i env hmarks hrow
  · rw [hexec]
    simp [hrow, hfault]
  · refine ⟨fun _ => ⟨hfault, hwrites⟩, fun _ hsame => ?_⟩
    rw [hafter] at hsame
    have hstatus : row.status = target := (congrArg (·.status) (Option.some.inj hsame)).symm
    rw [hstatus] at hwrites
    cases target <;> cases hwrites
  · rw [hexec]
    refine ⟨fun h => absurd hrow h, fun ⟨_, hwrites⟩ => ?_⟩
    generalize row.status = status at hrepeats hwrites
    cases target <;> cases status <;> cases hrepeats <;> cases hwrites
  · rw [hexec]
    exact ⟨fun h => absurd hrow h, fun h => absurd h.2 hwrites⟩

/-- A mark made after a retry claim has been won, be it by the winner or by a stale owner whose
claim was revoked before, changes the row exactly when the status guard admits it. A terminal
row stays as it is. And the terminal row that the run ends with was written by one mark that
found the execution open, of a caller that had won a claim or had read that the Job ended so. -/
theorem mark_after_retry_claim (jobs : Jobs) (events : List SystemEvent) (x : String)
    {c m : LogEntry} {target : ApprovalStatus}
    (hsub : [c, m].Sublist (runFrom jobs events).trace)
    (hclaim : claimWon c.op c.reply = some (.retry, x)) (hmark : markOf m.op = some (x, target)) :
    ∃ row, m.before.approvals.lookup x = some row ∧
      (m.after.approvals.lookup x ≠ some row ↔ m.env.fault = none ∧ markWrites target row.status) ∧
      (row.status.isTerminal → (runFrom jobs events).world.approvals.lookup x = some row) ∧
      ∀ last, (runFrom jobs events).world.approvals.lookup x = some last →
        last.status = .completed ∨ last.status = .failed →
          ∃ pre e post, (runFrom jobs events).trace = pre ++ e :: post ∧
            marked e.op e.reply = some (x, last.status) ∧ e.after.approvals.lookup x = some last ∧
            (∃ before, e.before.approvals.lookup x = some before ∧
              markWrites last.status before.status) ∧
            ((∃ route, Won pre e.caller (route, x)) ∨ Reconciles pre e.caller x last.status) := by
  have hlegal := legal_runFrom jobs events
  obtain ⟨pre, post, htrace, hc⟩ := exists_split_of_sublist hsub
  obtain ⟨i, env, op, w', rfl, hpre, -⟩ := hlegal.at_entry htrace
  obtain ⟨row, hrow, -⟩ := Won.started hpre ⟨c, hc, rfl, hclaim⟩
  have hm : system.entry i env op w' ∈ (runFrom jobs events).trace := by rw [htrace]; simp
  refine ⟨row, hrow, ?_, hlegal.terminal_stays hm hrow, fun last hlast hstatus => ?_⟩
  · cases op with
    | store op => exact mark_changes_iff hmark hrow
    | _ => cases hmark
  · obtain ⟨pre, e, post, htrace, hmarked, hafter, hbefore⟩ := terminal_origin hlegal hlast hstatus
    exact ⟨pre, e, post, htrace, hmarked, hafter, hbefore,
      mark_origin hlegal htrace (markOf_of_marked hmarked)⟩

/-- A run in which the owner of the first claim is paused, its lease is revoked after 900 seconds,
the retry claim is won by another caller, and the first one wakes up. -/
def pausedOwnerRun : List SystemEvent :=
  let manifest : Except SystemFailure String := .ok "name: credit-model-training"
  let absent : KubectlGet := .exited 1 (.error "")
  approvedRun ++ [.arrive (.execute {} "a1"), .step 2 {}, .step 2 {},
    .arrive (.reconcileApproval {} "a1"), .step 3 {}, .step 3 { uuid := "e1" },
    .step 3 { kubectlGet := absent }, .step 3 { now := 900000000 },
    .arrive (.retryApproval {} "a1"), .step 4 {}, .step 4 { now := 900000000 },
    .step 4 { uuid := "e2" }, .step 4 { kubectlGet := absent }, .step 4 { uuid := "e3" },
    .step 4 {},
    .step 2 { manifest }, .step 2 { manifest }, .step 2 { kubectlApply := .ok "created" },
    .step 2 {}, .step 2 {}]

/-- The mark of the revoked owner closes the execution that the new owner has just claimed. -/
theorem revoked_owner_closes :
    let log := (runFrom (fun _ => none) pausedOwnerRun).trace
    ∃ a r b m, log[5]? = some a ∧ log[10]? = some r ∧ log[12]? = some b ∧
      log[21]? = some m ∧ wonApproval a.op a.reply = some "a1" ∧
      recovered r.op r.reply = some "a1" ∧ claimWon b.op b.reply = some (.retry, "a1") ∧
      b.caller ≠ a.caller ∧ m.caller = a.caller ∧ markOf m.op = some ("a1", .completed) ∧
      statusOf m.before.approvals "a1" = some .executing ∧
      statusOf m.after.approvals "a1" = some .completed :=
  ⟨_, _, _, _, rfl, rfl, rfl, rfl, rfl, rfl, rfl, by decide, rfl, rfl, rfl, rfl⟩

/-- The guard admits that mark, which changes the row. -/
theorem mark_after_retry_claim_paused :
    ∃ m row, m ∈ (runFrom (fun _ => none) pausedOwnerRun).trace ∧
      m.before.approvals.lookup "a1" = some row ∧ row.status = .executing ∧
        m.after.approvals.lookup "a1" ≠ some row := by
  obtain ⟨c, rest, m, post, row, hdrop, hdrop', hclaim, hmark, hfault, hrow, hstatus⟩ :
      ∃ c rest m post row, (runFrom (fun _ => none) pausedOwnerRun).trace.drop 12 = c :: rest ∧
        rest.drop 8 = m :: post ∧ claimWon c.op c.reply = some (.retry, "a1") ∧
          markOf m.op = some ("a1", .completed) ∧ m.env.fault = none ∧
            m.before.approvals.lookup "a1" = some row ∧ row.status = .executing :=
    ⟨_, _, _, _, _, rfl, rfl, rfl, rfl, rfl, rfl, rfl⟩
  have hm : m ∈ rest := List.mem_of_mem_drop (hdrop' ▸ List.mem_cons_self)
  have hsub : [c, m].Sublist (runFrom (fun _ => none) pausedOwnerRun).trace :=
    ((List.singleton_sublist.mpr hm).cons_cons c).trans (hdrop ▸ List.drop_sublist 12 _)
  obtain ⟨row', hrow', hchanges, -⟩ := mark_after_retry_claim _ _ "a1" hsub hclaim hmark
  obtain rfl := Option.some.inj (hrow.symm.trans hrow')
  exact ⟨m, row, hsub.subset (by simp), hrow, hstatus,
    hchanges.mpr ⟨hfault, by rw [hstatus]; rfl⟩⟩

end CreditScoringMlops.ControlPlane
