import CreditScoringMlops.ControlPlane.LeaseExclusivity
import CreditScoringMlops.ControlPlane.MarkHistory

/-!
# Closing calls

The call that closes an attempt meets whatever reconciliation has made of the row meanwhile. As
long as no lease is revoked, it is refused exactly on a row that has become terminal in another
status than its own, and a refused closing call is the only way for a request that has not lost
its claim to end in an illegal transition.
-/

namespace CreditScoringMlops.ControlPlane

open Python Interaction ClaimProtocol ApprovalStore

variable {jobs : Jobs} {trace : List LogEntry} {w : World} {x : String}

/-! ## What a mark meets -/

/-- A lease that a program goes by is at least a second. -/
theorem one_le_of_may_recover {s : Phase} {leaseSeconds : ℤ}
    (hmay : May s (.store (.recoverStaleExecution x leaseSeconds))) : 1 ≤ leaseSeconds := by
  generalize hop : Op.store (.recoverStaleExecution x leaseSeconds) = op at hmay
  cases hmay with
  | read hs hop' => subst hop; cases hop'
  | claim route x => cases route <;> cases hop
  | recover y hfound hjudged h hlease => cases hop; exact hlease
  | close h => cases hop; cases h
  | _ => cases hop

/-- Every recovery goes by a lease of at least a second. -/
theorem Legal.one_le_recoveryLease (h : Legal jobs trace w) :
    ∀ e ∈ trace, ∀ l, recoveryLease e.op = some l → 1 ≤ l := by
  intro e he l hl
  obtain ⟨pre, post, htrace⟩ := List.append_of_mem he
  obtain ⟨i, env, op, w', rfl, -, hmay⟩ := h.at_entry htrace
  change recoveryLease op = some l at hl
  cases op with
  | store op =>
    cases op with
    | recoverStaleExecution y leaseSeconds => cases hl; exact one_le_of_may_recover hmay
    | _ => cases hl
  | _ => cases hl

/-- If no lease is revoked, the execution that an owner is about to mark unknown is not unknown. -/
theorem ne_unknown_of_working (h : Legal jobs trace w)
    (hrevoked : ∀ e ∈ trace, recovered e.op e.reply ≠ some x) {pre post : List LogEntry}
    {w' : World} {row : ApprovalRequestRow} (htrace : trace = pre ++ post)
    (hpre : Legal jobs pre w') {i : ℕ} (hworking : Working x pre post i)
    (hrow : w'.approvals.lookup x = some row) : row.status ≠ .unknown := by
  have hlog : LeaseDiscipline (seconds (1 : ℤ).toNat) (trace.map (leaseEntry x)) := by
    refine .of_not_revoked (List.pairwise_map.mpr (yield_is_last h)) fun r hr hrevoke => ?_
    obtain ⟨e, he, rfl⟩ := List.mem_map.mp hr
    exact hrevoked e he (leaseEffect_eq_revoke hrevoke)
  have hexclusive := hpre.exclusive h.one_le_recoveryLease hlog htrace
  intro hstatus
  exact hexclusive.ne_free hworking.active (by simp [leaseOf, hrow, hstatus])

/-- A mark is made on an execution that has started, and an unknown mark, if no lease is revoked,
on one that is not unknown. -/
theorem status_of_mark (h : Legal jobs trace w)
    (hrevoked : ∀ e ∈ trace, recovered e.op e.reply ≠ some x) {pre post : List LogEntry}
    {i : ℕ} {env : Env} {op : StoreOp} {w' : World} {target : ApprovalStatus}
    (htrace : trace = pre ++ system.entry i env (.store op) w' :: post) (hpre : Legal jobs pre w')
    (hmay : May (phaseOf pre i) (.store op)) (hmarks : op.marks = some (x, target)) :
    ∃ row, w'.approvals.lookup x = some row ∧ row.status.isStarted ∧
      (target = .unknown → row.status ≠ .unknown) := by
  have hstarted : ∃ row, w'.approvals.lookup x = some row ∧ row.status.isStarted := by
    obtain ⟨route, hwon⟩ | ⟨⟨read, hread, status, hreads, hstatus⟩, -⟩ :=
      mark_origin h htrace hmarks
    · exact hwon.started hpre
    · exact hreads.started hpre hread hstatus
  obtain ⟨row, hrow, hrowstarted⟩ := hstarted
  refine ⟨row, hrow, hrowstarted, ?_⟩
  rintro rfl
  cases op with
  | markUnknown y result =>
    cases hmarks
    obtain ⟨route, howner⟩ := owner_of_may_markUnknown hmay
    exact ne_unknown_of_working h hrevoked htrace hpre
      ⟨⟨route, (owner_iff_won hpre i _).mp howner⟩, _, List.mem_cons_self, rfl,
        by simp [Machine.entry, actsOn, StoreOp.target]⟩ hrow
  | _ => cases hmarks

/-- Which status a mark can record. -/
theorem target_of_marks {op : StoreOp} {target : ApprovalStatus}
    (h : op.marks = some (x, target)) :
    target = .unknown ∨ target = .completed ∨ target = .failed := by
  cases op <;> cases h <;> simp

/-- Where a mark of a started execution is admitted. -/
theorem markAdmitted_iff {target current : ApprovalStatus}
    (htarget : target = .unknown ∨ target = .completed ∨ target = .failed)
    (hstarted : current.isStarted) (hunknown : target = .unknown → current ≠ .unknown) :
    markWrites target current ∨ markRepeats target current ↔
      (current.isTerminal → current = target) := by
  obtain rfl | rfl | rfl := htarget <;> cases current <;> revert hstarted hunknown <;> decide

/-- A closing call has done its work: it has moved an open row to its status, or has left a
terminal one alone. -/
def Closes (m : LogEntry) (x : String) (target : ApprovalStatus) (row : ApprovalRequestRow) :
    Prop :=
  marked m.op m.reply = some (x, target) ∧
    ((¬row.status.isTerminal ∧ ∃ result, m.after.approvals.lookup x =
        some { row with status := target, executionResult := some result }) ∨
      row.status.isTerminal ∧ m.after.approvals.lookup x = some row)

/-- A mark that is admitted closes; one that is not is refused. -/
theorem closes_iff {i : ℕ} {env : Env} {op : StoreOp} {w' : World} {target : ApprovalStatus}
    {row : ApprovalRequestRow} (hmarks : op.marks = some (x, target))
    (hrow : w'.approvals.lookup x = some row) (hfault : env.fault = none) :
    Closes (system.entry i env (.store op) w') x target row ↔
      markWrites target row.status ∨ markRepeats target row.status := by
  change (marked (.store op) (exec i (.store op) env w').1 = _ ∧ (_ ∨ _ ∧
    (exec i (.store op) env w').2.approvals.lookup x = some row)) ↔ _
  obtain ⟨message, hfailed, -⟩ | ⟨-, hwrites, a, result, hreply, hafter⟩ |
    ⟨-, hrepeats, a, hexec⟩ | ⟨-, hwrites, hrepeats, hexec⟩ :=
      mark_exec i env hmarks hrow
  · rw [hfault] at hfailed
    cases hfailed
  · have hopen : ¬row.status.isTerminal := by
      generalize row.status = status at hwrites
      cases target <;> cases status <;> cases hwrites <;> decide
    exact iff_of_true ⟨by rw [hreply]; exact hmarks, .inl ⟨hopen, result, hafter⟩⟩ (.inl hwrites)
  · have hterminal : row.status.isTerminal := by
      generalize row.status = status at hrepeats
      cases target <;> cases status <;> cases hrepeats <;> rfl
    rw [hexec]
    exact iff_of_true ⟨hmarks, .inr ⟨hterminal, hrow⟩⟩ (.inr hrepeats)
  · rw [hexec]
    exact iff_of_false (fun h => by cases h.1) (not_or.mpr ⟨hwrites, hrepeats⟩)

/-! ## Requests that end in an illegal transition -/

/-- The execution that a request is about. -/
def Request.executionId? : Request → Option String
  | .executeApproval _ approvalId => some approvalId
  | .reconcileApproval _ approvalId => some approvalId
  | .retryApproval _ approvalId => some approvalId
  | .execute _ approvalId => some approvalId
  | _ => none

/-- A program that remembers a refusal has been refused. -/
theorem refused_history (h : Legal jobs trace w) {i : ℕ} {owner : Option (Route × String)}
    {mark : String × ApprovalStatus} (hphase : phaseOf trace i = .refused owner (some mark)) :
    ∃ m ∈ trace, m.caller = i ∧ markOf m.op = some mark ∧ refusal m.op m.reply := by
  refine Legal.history (C := fun s => s = .refused owner (some mark)) i (by simp) ?_ h hphase
  intro s env op w _ hnext
  exact (next_eq_refused hnext).imp_right fun ⟨hrefusal, hmark⟩ => ⟨rfl, hmark, hrefusal⟩

/-- A program that has lost has lost its claim. -/
theorem lost_history (h : Legal jobs trace w) {i : ℕ} (hphase : phaseOf trace i = .lost) :
    ∃ c ∈ trace, c.caller = i ∧ claimLost c.op c.reply := by
  refine Legal.history (C := fun s => s = .lost) i (by simp) ?_ h hphase
  intro s env op w hmay hnext
  exact .inr ⟨rfl, claimLost_of_next hmay hnext⟩

/-- A request on an execution that ends in an illegal transition has had a mark of it refused, or
has lost its claim. -/
theorem refused_of_raise (events : List SystemEvent) {i : ℕ} {r : Request} {exc : PyExc}
    (hraise : (runFrom jobs events).callers[i]? = some ⟨r, some (.raise exc)⟩)
    (hr : r.executionId? = some x) (htransition : isTransitionError exc) :
    (∃ m ∈ (runFrom jobs events).trace, m.caller = i ∧
      (∃ target, markOf m.op = some (x, target)) ∧ refusal m.op m.reply) ∨
    ∃ c ∈ (runFrom jobs events).trace, c.caller = i ∧ claimLost c.op c.reply := by
  have hlegal := legal_runFrom jobs events
  have hlive : MayRaise r (phaseOf (runFrom jobs events).trace i) exc :=
    (runFrom_disciplined jobs events).live i r _ hraise
  have hunhandled : Unhandled x (phaseOf (runFrom jobs events).trace i) exc ∨
      phaseOf (runFrom jobs events).trace i = .lost := by
    cases r with
    | executeApproval service y => cases hr; exact .inl hlive
    | reconcileApproval service y => cases hr; exact .inl hlive
    | retryApproval service y => cases hr; exact .inl hlive
    | execute service y => cases hr; exact hlive
    | _ => cases hr
  obtain hunhandled | hlost := hunhandled
  · obtain ⟨owner, target, hphase⟩ := hunhandled htransition
    obtain ⟨m, hm, hcaller, hmark, hrefusal⟩ := refused_history hlegal hphase
    exact .inl ⟨m, hm, hcaller, ⟨target, hmark⟩, hrefusal⟩
  · exact .inr (lost_history hlegal hlost)

/-- A call that was refused has not succeeded. -/
theorem marked_of_refusal {op : Op} {reply : op.Reply} (h : refusal op reply) :
    marked op reply = none := by
  cases op with
  | store op => cases reply <;> first | rfl | cases h
  | _ => rfl

/-- In every run in which no lease on an execution is revoked: a closing call that reaches the
database does its work exactly if the row, should it be terminal, is terminal in the status of
the call. If this is so for all of them, then no request on the execution that has not lost its
claim ends in an illegal transition. -/
theorem closing_call_iff (jobs : Jobs) (events : List SystemEvent) (x : String)
    (hrevoked : ∀ e ∈ (runFrom jobs events).trace, recovered e.op e.reply ≠ some x) :
    let trace := (runFrom jobs events).trace
    (∀ m ∈ trace, ∀ target, markOf m.op = some (x, target) → m.env.fault = none →
      ∃ row, m.before.approvals.lookup x = some row ∧
        (Closes m x target row ↔ (row.status.isTerminal → row.status = target))) ∧
    ((∀ m ∈ trace, ∀ target, markOf m.op = some (x, target) → m.env.fault = none →
        ∀ row, m.before.approvals.lookup x = some row → row.status.isTerminal →
          row.status = target) →
      ∀ i r exc, (runFrom jobs events).callers[i]? = some ⟨r, some (.raise exc)⟩ →
        r.executionId? = some x → isTransitionError exc →
          ∃ c ∈ trace, c.caller = i ∧ claimLost c.op c.reply) := by
  intro trace
  have hlegal := legal_runFrom jobs events
  have hcloses : ∀ m ∈ trace, ∀ target, markOf m.op = some (x, target) → m.env.fault = none →
      ∃ row, m.before.approvals.lookup x = some row ∧
        (Closes m x target row ↔ (row.status.isTerminal → row.status = target)) := by
    intro m hm target hmark hfault
    obtain ⟨pre, post, htrace⟩ := List.append_of_mem hm
    obtain ⟨i, env, op, w', rfl, hpre, hmay⟩ := hlegal.at_entry htrace
    cases op with
    | store op =>
      obtain ⟨row, hrow, hstarted, hunknown⟩ :=
        status_of_mark hlegal hrevoked htrace hpre hmay hmark
      exact ⟨row, hrow, (closes_iff hmark hrow hfault).trans
        (markAdmitted_iff (target_of_marks hmark) hstarted hunknown)⟩
    | _ => cases hmark
  refine ⟨hcloses, fun hadmitted i r exc hraise hr htransition => ?_⟩
  obtain ⟨m, hm, -, ⟨target, hmark⟩, hrefusal⟩ | hlost :=
    refused_of_raise events hraise hr htransition
  · -- a database that fails refuses nothing, and what it does not fail is admitted
    exfalso
    obtain ⟨pre, post, htrace⟩ := List.append_of_mem hm
    obtain ⟨j, env, op, w', rfl, -, -⟩ := hlegal.at_entry htrace
    cases hfault : env.fault with
    | some message =>
      cases op with
      | store op =>
        change refusal (.store op) (exec j (.store op) env w').1 = true at hrefusal
        rw [exec, orFault, hfault] at hrefusal
        cases hrefusal
      | _ => cases hmark
    | none =>
      obtain ⟨row, hrow, hiff⟩ := hcloses _ hm target hmark hfault
      have hclosed := (hiff.mpr (hadmitted _ hm target hmark hfault row hrow)).1
      rw [marked_of_refusal hrefusal] at hclosed
      cases hclosed
  · exact hlost

/-- A run in which the Job finishes and is reconciled while its apply is still waiting for
kubectl, which then times out. -/
def overtakenRun : List SystemEvent :=
  let manifest : Except SystemFailure String := .ok "name: credit-model-training"
  let finished : Json := .obj [("status", .obj [("completionTime", .str "2024-01-01T00:00:00Z")])]
  approvedRun ++ [.arrive (.executeApproval {} "a1"), .step 2 {}, .step 2 {},
    .step 2 { uuid := "e1" }, .step 2 {}, .step 2 { manifest }, .step 2 { manifest },
    .arrive (.cluster (.created "credit-training-a1")), .step 3 {},
    .arrive (.cluster (.finished "credit-training-a1" .completed)), .step 4 {},
    .arrive (.reconcileApproval {} "a1"), .step 5 {}, .step 5 { uuid := "e2" },
    .step 5 { kubectlGet := .exited 0 (.ok finished) }, .step 5 {}, .step 5 { uuid := "e3" },
    .step 2 { kubectlApply := .timeout }, .step 2 {}, .step 2 {}]

/-- The unknown mark of the owner is refused, and its request ends in the illegal transition,
although it has won its claim and no lease is revoked. -/
theorem closing_call_refused :
    let c := runFrom (fun _ => none) overtakenRun
    (∃ m row, c.trace[20]? = some m ∧ m.caller = 2 ∧ markOf m.op = some ("a1", .unknown) ∧
      m.env.fault = none ∧ m.before.approvals.lookup "a1" = some row ∧ row.status = .completed ∧
        refusal m.op m.reply ∧ ¬Closes m "a1" .unknown row) ∧
    (∀ e ∈ c.trace, recovered e.op e.reply ≠ some "a1") ∧
    (∃ service exc, c.callers[2]? = some ⟨.executeApproval service "a1", some (.raise exc)⟩ ∧
      isTransitionError exc) ∧
    ∀ e ∈ c.trace, e.caller = 2 → ¬claimLost e.op e.reply :=
  ⟨⟨_, _, rfl, rfl, rfl, rfl, rfl, rfl, rfl, fun h => by cases h.1⟩, by decide,
    ⟨_, _, rfl, rfl⟩, by decide⟩

/-- The mark of the reconciliation closes the execution, whose row it finds open. -/
theorem closing_call_iff_overtaken :
    ∃ m row, m ∈ (runFrom (fun _ => none) overtakenRun).trace ∧
      m.before.approvals.lookup "a1" = some row ∧ row.status = .executing ∧
        Closes m "a1" .completed row := by
  obtain ⟨m, post, row, hdrop, hmark, hfault, hrow, hstatus⟩ : ∃ m post row,
      (runFrom (fun _ => none) overtakenRun).trace.drop 16 = m :: post ∧
        markOf m.op = some ("a1", .completed) ∧ m.env.fault = none ∧
          m.before.approvals.lookup "a1" = some row ∧ row.status = .executing :=
    ⟨_, _, _, rfl, rfl, rfl, rfl, rfl⟩
  have hm : m ∈ (runFrom (fun _ => none) overtakenRun).trace :=
    List.mem_of_mem_drop (hdrop ▸ List.mem_cons_self)
  obtain ⟨row', hrow', hiff⟩ :=
    (closing_call_iff (fun _ => none) overtakenRun "a1" (by decide)).1 m hm .completed hmark hfault
  obtain rfl := Option.some.inj (hrow.symm.trans hrow')
  refine ⟨m, row, hm, hrow, hstatus, hiff.mpr fun hterminal => ?_⟩
  rw [hstatus] at hterminal
  cases hterminal

end CreditScoringMlops.ControlPlane
