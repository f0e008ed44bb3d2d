import CreditScoringMlops.ControlPlane.ClaimHistory

/-!
# Where marks come from

A mark of an execution comes from a caller that has won a claim on it, or from a reconciliation
that has read that the Job is finished. The terminal status of a row is the work of one such
mark, the first that found the execution open.
-/

namespace CreditScoringMlops.ControlPlane

open Python Interaction ClaimProtocol ApprovalStore

variable {jobs : Jobs} {trace : List LogEntry} {w : World} {x : String}

/-- Reading is no mark. -/
theorem markOf_of_isReading {op : Op} (h : isReading op) : markOf op = none := by
  cases op with
  | store op => cases op <;> first | rfl | cases h
  | _ => rfl

/-- A mark that has succeeded was made. -/
theorem markOf_of_marked {op : Op} {reply : op.Reply} {mark : String × ApprovalStatus}
    (h : marked op reply = some mark) : markOf op = some mark := by
  cases op with
  | store op =>
    cases reply with
    | error exc => cases h
    | ok a => exact h
  | _ => cases h

/-- A change of a row to a terminal status of an execution is a mark. -/
theorem marks_of_change {now : Time} {op : StoreOp} {row row' : ApprovalRequestRow}
    (h : RowChange now op row row') (htarget : op.target = some x)
    (hstatus : row'.status = .completed ∨ row'.status = .failed) :
    op.marks = some (x, row'.status) ∧ markWrites row'.status row.status := by
  cases h with
  | complete id result hopen =>
    cases htarget
    exact ⟨rfl, by obtain hopen | hopen := hopen <;> rw [hopen] <;> rfl⟩
  | fail id result hopen =>
    cases htarget
    exact ⟨rfl, by obtain hopen | hopen := hopen <;> rw [hopen] <;> rfl⟩
  | decide decision h => cases happroved : decision.approved <;> simp [happroved] at hstatus
  | _ => simp at hstatus

/-- Reading an approval tells the status of its row. -/
theorem statusRead_exec {i : ℕ} {env : Env} {op : Op} {status : ApprovalStatus}
    (h : statusRead op (exec i op env w).1 = some (x, status)) :
    ∃ row, w.approvals.lookup x = some row ∧ row.status = status := by
  cases op with
  | store op =>
    cases op with
    | get id =>
      cases hreply : (exec i (.store (.get id)) env w).1 with
      | error exc => rw [hreply] at h; cases h
      | ok found =>
        rw [hreply] at h
        obtain ⟨approval, hfound, happroval⟩ := Option.map_eq_some_iff.mp h
        cases happroval
        obtain ⟨hget, -⟩ := Prod.mk.inj (Except.ok.inj (exec_store_ok hreply))
        rw [hfound] at hget
        obtain ⟨row, hrow, rfl⟩ := Option.map_eq_some_iff.mp hget
        exact ⟨row, hrow, rfl⟩
    | _ => cases h
  | _ => cases h

/-- An execution that was uncertain to a reader has started. -/
theorem Reads.started (h : Legal jobs trace w) {e : LogEntry} (he : e ∈ trace) {i : ℕ}
    {status : ApprovalStatus} (hreads : Reads e i x status) (hstatus : status.isUncertain) :
    ∃ row, w.approvals.lookup x = some row ∧ row.status.isStarted := by
  obtain ⟨pre, post, htrace⟩ := List.append_of_mem he
  obtain ⟨j, env, op, w', rfl, -, -⟩ := h.at_entry htrace
  obtain ⟨row, hrow, rfl⟩ := statusRead_exec hreads.2
  obtain ⟨row', hrow', hevolves⟩ := exec_tableEvolves j op env w' x row hrow
  obtain ⟨row'', hrow'', hevolves'⟩ := h.tableEvolves he x row' hrow'
  refine ⟨row'', hrow'', (hevolves.trans hevolves').started ?_⟩
  cases hrowstatus : row.status <;> simp [hrowstatus, ApprovalStatus.isUncertain] at hstatus <;> rfl

/-- A reconciliation has read that the execution is uncertain and that its Job has ended so. -/
def Reconciles (trace : List LogEntry) (i : ℕ) (x : String) (target : ApprovalStatus) : Prop :=
  (∃ read ∈ trace, ∃ status, Reads read i x status ∧ status.isUncertain) ∧
    ∃ look ∈ trace, ∃ result,
      Looks look i (ReconciliationService.trainingJobName x) (.ok result) ∧
        (target = .completed ∧ reports result "completed" ∨
          target = .failed ∧ reports result "failed")

/-- Who may mark an execution: a caller that has won a claim on it, or one that has read that it
is uncertain and that its Job has ended so. -/
theorem mark_origin (h : Legal jobs trace w) {pre post : List LogEntry} {e : LogEntry}
    {target : ApprovalStatus} (htrace : trace = pre ++ e :: post)
    (hmark : markOf e.op = some (x, target)) :
    (∃ route, Won pre e.caller (route, x)) ∨ Reconciles pre e.caller x target := by
  obtain ⟨i, env, op, w', rfl, hpre, hmay⟩ := h.at_entry htrace
  have howned : ∀ route, (phaseOf pre i).owner = some (route, x) → ∃ route, Won pre i (route, x) :=
    fun route howner => ⟨route, (owner_iff_won hpre i _).mp howner⟩
  generalize hphase : phaseOf pre i = s at hmay howned
  change markOf op = _ at hmark
  cases hmay with
  | read hs hop => rw [markOf_of_isReading hop] at hmark; cases hmark
  | claim route y => cases route <;> cases hmark
  | complete y hfound hstatus hjudged hreports =>
    cases hmark
    obtain ⟨look, hlook, hlooks⟩ := judged_history hpre (by rw [hphase]; rfl) hjudged
    obtain ⟨read, hread, hreads⟩ := found_history hpre (by rw [hphase]; rfl) hfound
    exact .inr ⟨⟨read, hread, _, hreads, hstatus⟩, look, hlook, _, hlooks, .inl ⟨rfl, hreports⟩⟩
  | fail y hfound hstatus hjudged hreports =>
    cases hmark
    obtain ⟨look, hlook, hlooks⟩ := judged_history hpre (by rw [hphase]; rfl) hjudged
    obtain ⟨read, hread, hreads⟩ := found_history hpre (by rw [hphase]; rfl) hfound
    exact .inr ⟨⟨read, hread, _, hreads, hstatus⟩, look, hlook, _, hlooks, .inr ⟨rfl, hreports⟩⟩
  | giveUp result => cases hmark; exact .inl (howned .retry rfl)
  | retryComplete h => cases hmark; exact .inl (howned .retry rfl)
  | retryFail h => cases hmark; exact .inl (howned .retry rfl)
  | retryUnclear result => cases hmark; exact .inl (howned .retry rfl)
  | @close route y ended op h =>
    obtain ⟨rfl, -⟩ := Prod.mk.inj (Option.some.inj (h.symm.trans hmark))
    exact .inl (howned route rfl)
  | _ => cases hmark

/-- A terminal row is the row that the run ends with. -/
theorem Legal.terminal_stays (h : Legal jobs trace w) {e : LogEntry} (he : e ∈ trace)
    {row : ApprovalRequestRow} (hrow : e.before.approvals.lookup x = some row)
    (hterminal : row.status.isTerminal) : w.approvals.lookup x = some row := by
  obtain ⟨pre, post, htrace⟩ := List.append_of_mem he
  obtain ⟨i, env, op, w', rfl, -, -⟩ := h.at_entry htrace
  obtain ⟨row', hrow', hevolves⟩ := exec_tableEvolves i op env w' x row hrow
  obtain ⟨row'', hrow'', hevolves'⟩ := h.tableEvolves he x row' hrow'
  rw [hrow'', (hevolves.trans hevolves').terminal hterminal]

/-- A terminal status of an execution was written by one entry, which found the row open and left
it as it is now. -/
theorem terminal_origin (h : Legal jobs trace w) {row : ApprovalRequestRow}
    (hrow : w.approvals.lookup x = some row)
    (hstatus : row.status = .completed ∨ row.status = .failed) :
    ∃ pre e post, trace = pre ++ e :: post ∧ marked e.op e.reply = some (x, row.status) ∧
      e.after.approvals.lookup x = some row ∧ ∃ before, e.before.approvals.lookup x = some before ∧
        markWrites row.status before.status := by
  induction h generalizing row with
  | nil => cases hrow
  | @snoc trace w i env op h hmay ih =>
    -- a row that was there before was written by an earlier entry
    have hbefore : w.approvals.lookup x = some row →
        ∃ pre e post, trace ++ [system.entry i env op w] = pre ++ e :: post ∧
          marked e.op e.reply = some (x, row.status) ∧ e.after.approvals.lookup x = some row ∧
            ∃ before, e.before.approvals.lookup x = some before ∧
              markWrites row.status before.status := by
      intro hrow
      obtain ⟨pre, e, post, rfl, hmarked⟩ := ih hrow hstatus
      exact ⟨pre, e, post ++ [system.entry i env op w], by simp, hmarked⟩
    by_cases hop : ∃ o, op = .store o
    · obtain ⟨o, rfl⟩ := hop
      have hstep := exec_rowStep i o env w x
      have hafter : (exec i (.store o) env w).2.approvals.lookup x = some row := hrow
      rw [hafter] at hstep
      generalize hw : w.approvals.lookup x = before at hstep
      cases hstep with
      | stay row => exact hbefore hw
      | insert request hcreate hid hpending => simp [newRow, hpending] at hstatus
      | @change old _ hid htarget hchange =>
        obtain ⟨hmarks, hwrites⟩ := marks_of_change hchange htarget hstatus
        have hne : (exec i (.store o) env w).2.approvals.lookup x ≠ w.approvals.lookup x := by
          intro heq
          rw [hafter, hw] at heq
          obtain rfl := Option.some.inj heq
          rcases hstatus with h | h <;> rw [h] at hwrites <;> cases hwrites
        obtain ⟨a, hreply⟩ := exec_ok_of_change hne
        refine ⟨trace, _, [], rfl, ?_, hafter, old, hw, hwrites⟩
        change marked (.store o) (exec i (.store o) env w).1 = _
        rw [hreply]
        exact hmarks
    · rw [show (system.exec i op env w).2.approvals = w.approvals from
        exec_approvals fun o ho => hop ⟨o, ho⟩] at hrow
      exact hbefore hrow
  | abort i h ih => exact ih hrow hstatus

end CreditScoringMlops.ControlPlane
