import CreditScoringMlops.ControlPlane.JobHistory

/-!
# The recorded outcome

A terminal status is recorded on one of two kinds of evidence: by the owner on what its apply
returned, which is the acceptance of the manifest, or by a status check on the state of the Job.
The first evidence counts, since a terminal row is never written again. Where every apply of an
approval has timed out, only the second is left, and what is recorded is the end of the Job.
-/

namespace CreditScoringMlops.ControlPlane

open Python Interaction ClaimProtocol ApprovalStore ReconciliationService

variable {jobs : Jobs} {trace : List LogEntry} {w : World} {x : String}

/-! ## The evidence -/

/-- The apply of a caller has returned a result, which is that of the kubectl it has run, if it
has run one. -/
def ApplyEnds (trace : List LogEntry) (i : ℕ) (x : String) (result : Except PyExc Dict) : Prop :=
  ∃ ret ∈ trace, ret.caller = i ∧ ret.op = .applyReturned (some x) result ∧
    ∃ ended, Returns ended result ∧ ∀ k, ended = some k → ∃ a ∈ trace, a.caller = i ∧
      ∃ name, KubernetesExecutor.jobName x = .ok name ∧ kubectlApplied a.op a.reply = some (name, k)

/-- A caller has had a status check report the Job in the state that a status records. -/
def ReportsEnd (trace : List LogEntry) (i : ℕ) (x : String) (target : ApprovalStatus) : Prop :=
  ∃ look ∈ trace, ∃ result, Looks look i (trainingJobName x) (.ok result) ∧
    reports result target.value

/-- An owner whose kubectl has ended has run it. -/
theorem applying_history (h : Legal jobs trace w) {i : ℕ} {route : Route} {ended : KubectlApply}
    (hphase : phaseOf trace i = .applying route x (some ended)) :
    ∃ a ∈ trace, a.caller = i ∧ ∃ name, KubernetesExecutor.jobName x = .ok name ∧
      kubectlApplied a.op a.reply = some (name, ended) := by
  refine Legal.history (C := fun s => s = .applying route x (some ended)) i (by simp) ?_ h hphase
  intro s env op w hmay hnext
  exact (next_eq_applying hmay hnext).imp_right fun happlied => ⟨rfl, happlied⟩

/-- An owner whose apply has returned has had it return. -/
theorem applied_history (h : Legal jobs trace w) {i : ℕ} {route : Route}
    {result : Except PyExc Dict} (hphase : phaseOf trace i = .applied route x result) :
    ApplyEnds trace i x result := by
  have hmono : ∀ {trace : List LogEntry} (e : LogEntry), ApplyEnds trace i x result →
      ApplyEnds (trace ++ [e]) i x result := by
    rintro trace e ⟨ret, hret, hcaller, hop, ended, hreturns, hkubectl⟩
    refine ⟨ret, List.mem_append_left _ hret, hcaller, hop, ended, hreturns, fun k hk => ?_⟩
    obtain ⟨a, ha, happlied⟩ := hkubectl k hk
    exact ⟨a, List.mem_append_left _ ha, happlied⟩
  refine h.phase_induction (P := fun trace s => s = .applied route x result →
    ApplyEnds trace i x result) i (by simp) (fun e _ ih h => hmono e (ih h)) ?_ hphase
  intro trace w s env op hlegal hphase hmay ih hnext
  obtain hs | ⟨ended, hs, rfl, hreturns⟩ := next_eq_applied hmay hnext
  · exact hmono _ (ih hs)
  · refine ⟨system.entry i env _ w, by simp, rfl, rfl, ended, hreturns, fun k hk => ?_⟩
    obtain ⟨a, ha, happlied⟩ := applying_history hlegal (by rw [hphase, hs, hk])
    exact ⟨a, List.mem_append_left _ ha, happlied⟩

/-- A terminal mark is made on what an apply of its caller returned, or on a status check. -/
theorem evidence_of_mark (h : Legal jobs trace w) {pre post : List LogEntry} {e : LogEntry}
    {target : ApprovalStatus} (htrace : trace = pre ++ e :: post)
    (hmark : markOf e.op = some (x, target)) (htarget : target = .completed ∨ target = .failed) :
    (∃ route result, ApplyEnds pre e.caller x result ∧ target = closingStatus route result) ∨
      ReportsEnd pre e.caller x target := by
  obtain ⟨i, env, op, w', rfl, hpre, hmay⟩ := h.at_entry htrace
  generalize hphase : phaseOf pre i = s at hmay
  change markOf op = _ at hmark
  have hjudged : ∀ {f : Free} {result : Dict}, s = .free f →
      f.judged = some (trainingJobName x, .ok result) → reports result target.value →
        ReportsEnd pre i x target := by
    rintro f result rfl hjudged hreports
    obtain ⟨look, hlook, hlooks⟩ := judged_history hpre (by rw [hphase]; rfl) hjudged
    exact ⟨look, hlook, result, hlooks, hreports⟩
  have hseen : ∀ {result : Dict}, s = .seen x (.ok result) → reports result target.value →
      ReportsEnd pre i x target := by
    rintro result rfl hreports
    obtain ⟨claim, look, hsub, -, -, hlooks⟩ := seen_history hpre hphase
    exact ⟨look, hsub.subset (by simp), result, hlooks, hreports⟩
  cases hmay with
  | read hs hop => rw [markOf_of_isReading hop] at hmark; cases hmark
  | claim route y => cases route <;> cases hmark
  | complete y hfound hstatus hjudged' hreports =>
    cases hmark
    exact .inr (hjudged rfl hjudged' hreports)
  | fail y hfound hstatus hjudged' hreports =>
    cases hmark
    exact .inr (hjudged rfl hjudged' hreports)
  | giveUp result => cases hmark; simp at htarget
  | retryComplete hreports => cases hmark; exact .inr (hseen rfl hreports)
  | retryFail hreports => cases hmark; exact .inr (hseen rfl hreports)
  | retryUnclear result => cases hmark; simp at htarget
  | @close route y result op hmarks =>
    obtain ⟨rfl, rfl⟩ := Prod.mk.inj (Option.some.inj (hmarks.symm.trans hmark))
    exact .inl ⟨route, result, applied_history hpre hphase, rfl⟩
  | _ => cases hmark

/-! ## Where every apply has timed out -/

/-- Every apply of the approval that has returned has timed out, the Job is not deleted, and
status checks of it are truthful. -/
structure TimedOut (trace : List LogEntry) (x : String) : Prop where
  unknown : ∀ e ∈ trace, ∀ result, e.op = .applyReturned (some x) result →
    ∃ message, result = .error (.kubernetesExecutionUnknown message)
  kept : ∀ e ∈ trace, e.op ≠ .cluster (.deleted (trainingJobName x))
  told : ∀ look ∈ trace, ∀ ended, lookedUp look.op look.reply = some (trainingJobName x, ended) →
    Tells (look.before.jobs (trainingJobName x)) ended

/-- A terminal row agrees with the end of the Job. -/
theorem TimedOut.status_eq (h : Legal jobs trace w) (htimedOut : TimedOut trace x) {job : Job}
    {outcome : JobOutcome} (hjob : w.jobs (trainingJobName x) = some job)
    (hended : job.EndedAs outcome) {row : ApprovalRequestRow}
    (hrow : w.approvals.lookup x = some row)
    (hstatus : row.status = .completed ∨ row.status = .failed) : row.status = outcome.status := by
  obtain ⟨pre, e, post, htrace, hmarked, -⟩ := terminal_origin h hrow hstatus
  obtain ⟨route, result, ⟨ret, hret, -, hop, -⟩, hclosing⟩ |
    ⟨look, hlook, result, ⟨-, ended, hlooked, hresult⟩, hreports⟩ :=
      evidence_of_mark h htrace (markOf_of_marked hmarked) hstatus
  · -- an apply that has timed out is closed as unknown
    obtain ⟨message, rfl⟩ := htimedOut.unknown ret (by rw [htrace]; simp [hret]) result hop
    rw [hclosing] at hstatus
    cases route <;> simp [closingStatus] at hstatus
  · have hmem : look ∈ trace := by rw [htrace]; simp [hlook]
    obtain ⟨job', hbefore, hstate⟩ :=
      ((htimedOut.told look hmem ended hlooked).reports_iff hresult).mp hreports
    have hevolves := h.jobEvolves htimedOut.kept hmem
    rw [hjob] at hevolves
    exact hevolves.state_eq hended hbefore hstatus hstate

/-- What a program without a claim marks is the approval whose Job it has judged. -/
theorem marked_of_free {s : Phase} {op : Op} {f : Free} {result : Dict} (hmay : May s op)
    (hf : s.free? = some f) (hjudged : f.judged = some (trainingJobName x, .ok result))
    {reply : op.Reply} (hmarked : marked op reply ≠ none) :
    marked op reply = some (x, .completed) ∨ marked op reply = some (x, .failed) := by
  have hname : ∀ {y : String} {result' : Dict}, f.judged = some (trainingJobName y, .ok result') →
      y = x := by
    intro y result' hjudged'
    have hname := congrArg Prod.fst (Option.some.inj (hjudged'.symm.trans hjudged))
    exact trainingJobName_injective hname
  obtain ⟨mark, hmark⟩ := Option.ne_none_iff_exists'.mp hmarked
  have hmarkOf := markOf_of_marked hmark
  cases hmay with
  | read hs hop => rw [markOf_of_isReading hop] at hmarkOf; cases hmarkOf
  | claim route y => cases route <;> cases hmarkOf
  | complete y hfound hstatus hjudged' hreports =>
    cases hf
    cases hmarkOf
    rw [← hname hjudged']
    exact .inl hmark
  | fail y hfound hstatus hjudged' hreports =>
    cases hf
    cases hmarkOf
    rw [← hname hjudged']
    exact .inr hmark
  | giveUp result => cases hf
  | retryComplete hreports => cases hf
  | retryFail hreports => cases hf
  | retryUnclear result => cases hf
  | close hmarks => cases hf
  | _ => cases hmarkOf

/-- A program that has settled the outcome of a Job has marked its execution. -/
theorem settled_history (h : Legal jobs trace w) {i : ℕ} {f : Free} {result : Dict}
    (hf : (phaseOf trace i).free? = some f) (hsettled : f.settled)
    (hjudged : f.judged = some (trainingJobName x, .ok result)) :
    ∃ m ∈ trace, marked m.op m.reply = some (x, .completed) ∨
      marked m.op m.reply = some (x, .failed) := by
  refine Legal.history (C := fun s => ∃ f, s.free? = some f ∧ f.settled ∧
    f.judged = some (trainingJobName x, .ok result)) i ?_ ?_ h ⟨f, hf, hsettled, hjudged⟩
  · rintro ⟨f, hf, hsettled, -⟩
    cases hf
    cases hsettled
  · rintro s env op w hmay ⟨f', hf', hsettled, hjudged⟩
    obtain ⟨-, f, hf, rfl | rfl⟩ := free_of_next hmay hf'
    · cases hsettled
    · obtain ⟨hsame, hsettled | hmarked⟩ := settled_after hsettled
      · exact .inl ⟨f, hf, hsettled, hsame ▸ hjudged⟩
      · exact .inr (marked_of_free hmay hf (hsame ▸ hjudged) hmarked)

/-- A mark that has succeeded leaves its status for good, if that is terminal. -/
theorem Legal.marked_stays (h : Legal jobs trace w) {m : LogEntry} (hm : m ∈ trace)
    {target : ApprovalStatus} (hmarked : marked m.op m.reply = some (x, target))
    (htarget : target = .completed ∨ target = .failed) :
    ∃ row, w.approvals.lookup x = some row ∧ row.status = target := by
  obtain ⟨pre, post, htrace⟩ := List.append_of_mem hm
  obtain ⟨i, env, op, w', rfl, -, -⟩ := h.at_entry htrace
  change marked op (exec i op env w').1 = _ at hmarked
  have hafter :
      ∃ row, (exec i op env w').2.approvals.lookup x = some row ∧ row.status = target := by
    obtain ⟨row, hrow, ⟨-, result, hafter⟩ | ⟨hrepeats, hsame⟩⟩ := marked_exec hmarked
    · exact ⟨_, hafter, rfl⟩
    · refine ⟨row, by rw [hsame]; exact hrow, ?_⟩
      generalize row.status = status at hrepeats
      obtain rfl | rfl := htarget <;> cases status <;> first | rfl | cases hrepeats
  obtain ⟨row, hrow, hstatus⟩ := hafter
  obtain ⟨row', hrow', hevolves⟩ := h.tableEvolves hm x row hrow
  refine ⟨row', hrow', ?_⟩
  rw [hevolves.terminal (by obtain rfl | rfl := htarget <;> rw [hstatus] <;> rfl), hstatus]

/-- A caller begins after an apply call for the approval, and after the Job has ended with an
outcome. -/
def ComesAfter (trace : List LogEntry) (i : ℕ) (x : String) (outcome : JobOutcome) : Prop :=
  ∃ pre post, trace = pre ++ post ∧ (∀ e ∈ pre, e.caller ≠ i) ∧ (∃ a ∈ pre, Applies a x) ∧
    ∀ e ∈ post, ∃ job, e.before.jobs (trainingJobName x) = some job ∧ job.EndedAs outcome

/-- What such a caller does, it does after the apply call and the end of the Job. -/
theorem ComesAfter.split {i : ℕ} {outcome : JobOutcome} (h : ComesAfter trace i x outcome)
    {e : LogEntry} (he : e ∈ trace) (hcaller : e.caller = i) :
    ∃ pre post, trace = pre ++ e :: post ∧ (∃ a ∈ pre, Applies a x) ∧
      ∃ job, e.before.jobs (trainingJobName x) = some job ∧ job.EndedAs outcome := by
  obtain ⟨pre, post, rfl, hbegins, ⟨a, ha, happlies⟩, hended⟩ := h
  have hpost : e ∈ post :=
    (List.mem_append.mp he).resolve_left fun hpre => hbegins e hpre hcaller
  obtain ⟨before, after, rfl⟩ := List.append_of_mem hpost
  exact ⟨pre ++ before, after, by simp, ⟨a, by simp [ha], happlies⟩, hended e hpost⟩

/-- A status that is certain and is read after an apply call is terminal, and stays so. -/
theorem terminal_of_read (h : Legal jobs trace w) {pre post : List LogEntry} {read a : LogEntry}
    (htrace : trace = pre ++ read :: post) (ha : a ∈ pre) (happlies : Applies a x) {i : ℕ}
    {status : ApprovalStatus} (hreads : Reads read i x status) (hcertain : ¬status.isUncertain) :
    ∃ row, w.approvals.lookup x = some row ∧ (row.status = .completed ∨ row.status = .failed) := by
  have hread : read ∈ trace := by simp [htrace]
  obtain ⟨j, env, op, w', rfl, hpre, -⟩ := h.at_entry htrace
  -- the apply call was made by the winner of a claim, which has started the row
  obtain ⟨pre', post', hsplit⟩ := List.append_of_mem ha
  obtain ⟨route, hwon⟩ := won_of_applies hpre hsplit happlies
  obtain ⟨row, hrow, hstarted⟩ := (hwon.mono (by simp [hsplit])).started hpre
  obtain ⟨row', hrow', hstatus⟩ := statusRead_exec hreads.2
  obtain rfl := Option.some.inj (hrow.symm.trans hrow')
  rw [← hstatus] at hcertain
  have hterminal : row.status.isTerminal ∧ (row.status = .completed ∨ row.status = .failed) := by
    generalize row.status = status at hstarted hcertain
    cases status <;> revert hstarted hcertain <;> decide
  exact ⟨row, h.terminal_stays hread hrow hterminal.1, hterminal.2⟩

/-- A program that has settled the outcome of a Job leaves the row terminal. -/
theorem terminal_of_settled (h : Legal jobs trace w) {i : ℕ} {f : Free} {result : Dict}
    (hf : (phaseOf trace i).free? = some f) (hsettled : f.settled)
    (hjudged : f.judged = some (trainingJobName x, .ok result)) :
    ∃ row, w.approvals.lookup x = some row ∧ (row.status = .completed ∨ row.status = .failed) := by
  obtain ⟨m, hm, hmarked | hmarked⟩ := settled_history h hf hsettled hjudged
  · obtain ⟨row, hrow, hstatus⟩ := h.marked_stays hm hmarked (.inl rfl)
    exact ⟨row, hrow, .inl hstatus⟩
  · obtain ⟨row, hrow, hstatus⟩ := h.marked_stays hm hmarked (.inr rfl)
    exact ⟨row, hrow, .inr hstatus⟩

/-- A Job that has ended when an entry meets it is there to the end. -/
theorem TimedOut.job_stays (h : Legal jobs trace w) (htimedOut : TimedOut trace x) {e : LogEntry}
    (he : e ∈ trace) {job : Job} {outcome : JobOutcome}
    (hbefore : e.before.jobs (trainingJobName x) = some job) (hended : job.EndedAs outcome) :
    ∃ job, w.jobs (trainingJobName x) = some job ∧ job.EndedAs outcome := by
  obtain ⟨_, hlast, -, hfrozen⟩ := h.jobEvolves htimedOut.kept he job hbefore
  obtain rfl := hfrozen (by simp [hended.1])
  exact ⟨_, hlast, hended⟩

/-- A reconciliation that comes after the end of the Job and returns leaves the row terminal. -/
theorem TimedOut.recorded (events : List SystemEvent)
    (htimedOut : TimedOut (runFrom jobs events).trace x) {i : ℕ} {service : AgentService}
    {approval : ApprovalRequest} {outcome : JobOutcome}
    (hreturned : (runFrom jobs events).callers[i]? =
      some ⟨.reconcileApproval service x, some (.ret (.approval approval))⟩)
    (hafter : ComesAfter (runFrom jobs events).trace i x outcome) :
    (∃ row, (runFrom jobs events).world.approvals.lookup x = some row ∧
      (row.status = .completed ∨ row.status = .failed)) ∧
    ∃ job, (runFrom jobs events).world.jobs (trainingJobName x) = some job ∧
      job.EndedAs outcome := by
  have hlegal := legal_runFrom jobs events
  have hlive : Reconciled x (phaseOf (runFrom jobs events).trace i) approval :=
    (runFrom_disciplined jobs events).live i _ _ hreturned
  generalize (runFrom jobs events).trace = trace, (runFrom jobs events).world = w
    at hlegal hlive htimedOut hafter ⊢
  obtain ⟨f, hphase, hfound, hcertain⟩ | ⟨result, f, hphase, hjudged, hsettled⟩ := hlive
  · -- the row was certain when it was read
    obtain ⟨read, hread, hreads⟩ :=
      found_history hlegal (show (phaseOf trace i).free? = some f by rw [hphase]; rfl) hfound
    obtain ⟨pre, post, htrace, ⟨a, ha, happlies⟩, job, hbefore, hended⟩ :=
      hafter.split hread hreads.1
    exact ⟨terminal_of_read hlegal htrace ha happlies hreads hcertain,
      htimedOut.job_stays hlegal hread hbefore hended⟩
  · -- the Job was told as it had ended, so its outcome has been settled
    have hfree : (phaseOf trace i).free? = some f := by rw [hphase]; rfl
    obtain ⟨look, hlook, hcaller, ended, hlooked, hresult⟩ := judged_history hlegal hfree hjudged
    obtain ⟨-, -, -, -, job, hbefore, hended⟩ := hafter.split hlook hcaller
    refine ⟨?_, htimedOut.job_stays hlegal hlook hbefore hended⟩
    have hreports := ((htimedOut.told look hlook ended hlooked).reports_iff hresult).mpr
      ⟨job, hbefore, hended.state⟩
    have houtcome : f.settled :=
      hsettled (by cases outcome <;> simp_all [JobOutcome.status, ApprovalStatus.value])
    exact terminal_of_settled hlegal hfree houtcome hjudged

/-- In every run, a terminal row of an execution was written by one mark that found it open, made
on what an apply of its caller had returned, or on a status check that reported the Job so. Where
every apply has timed out, a terminal row agrees with the end of the Job, and once one reconcile
request that came after that end has returned, the row is terminal. -/
theorem recorded_outcome (jobs : Jobs) (events : List SystemEvent) (x : String) :
    let c := runFrom jobs events
    (∀ last, c.world.approvals.lookup x = some last →
      last.status = .completed ∨ last.status = .failed →
        ∃ pre e post, c.trace = pre ++ e :: post ∧ marked e.op e.reply = some (x, last.status) ∧
          e.after.approvals.lookup x = some last ∧
          (∃ before, e.before.approvals.lookup x = some before ∧
            markWrites last.status before.status) ∧
          ((∃ route result, ApplyEnds pre e.caller x result ∧
              last.status = closingStatus route result) ∨
            ReportsEnd pre e.caller x last.status)) ∧
    (TimedOut c.trace x → ∀ outcome,
      (∀ job last, c.world.jobs (trainingJobName x) = some job → job.EndedAs outcome →
        c.world.approvals.lookup x = some last →
          last.status = .completed ∨ last.status = .failed → last.status = outcome.status) ∧
      ∀ i service approval, c.callers[i]? =
          some ⟨.reconcileApproval service x, some (.ret (.approval approval))⟩ →
        ComesAfter c.trace i x outcome →
          ∃ row, c.world.approvals.lookup x = some row ∧ row.status = outcome.status) := by
  intro c
  have hlegal := legal_runFrom jobs events
  refine ⟨fun last hlast hstatus => ?_, fun htimedOut outcome => ⟨fun job last hjob hended hlast =>
    htimedOut.status_eq hlegal hjob hended hlast, fun i service approval hreturned hafter => ?_⟩⟩
  · obtain ⟨pre, e, post, htrace, hmarked, hafter, hbefore⟩ := terminal_origin hlegal hlast hstatus
    exact ⟨pre, e, post, htrace, hmarked, hafter, hbefore,
      evidence_of_mark hlegal htrace (markOf_of_marked hmarked) hstatus⟩
  · obtain ⟨⟨row, hrow, hstatus⟩, job, hjob, hended⟩ := htimedOut.recorded events hreturned hafter
    exact ⟨row, hrow, htimedOut.status_eq hlegal hjob hended hrow hstatus⟩

/-- A run in which kubectl accepts the manifest in time, the request returns, the Job fails later,
and a reconcile request returns. -/
def acceptedRun : List SystemEvent :=
  let manifest : Except SystemFailure String := .ok "name: credit-model-training"
  approvedRun ++ [.arrive (.executeApproval {} "a1"), .step 2 {}, .step 2 {},
    .step 2 { uuid := "e1" }, .step 2 {}, .step 2 { manifest }, .step 2 { manifest },
    .step 2 { kubectlApply := .ok "created", jobCreated := true }, .step 2 {}, .step 2 {},
    .step 2 { uuid := "e2" }, .arrive (.cluster (.podFailed "credit-training-a1")), .step 3 {},
    .arrive (.cluster (.finished "credit-training-a1" .failed)), .step 4 {},
    .arrive (.reconcileApproval {} "a1"), .step 5 {}]

/-- The Job has failed, a reconcile request has run after that, and the row says completed. -/
theorem accepted_recorded_completed :
    let c := runFrom (fun _ => none) acceptedRun
    (∃ service approval, c.callers[2]? =
        some ⟨.executeApproval service "a1", some (.ret (.approval approval))⟩) ∧
      (∃ job, c.world.jobs (trainingJobName "a1") = some job ∧ job.EndedAs .failed) ∧
      (∃ service approval, c.callers[5]? =
        some ⟨.reconcileApproval service "a1", some (.ret (.approval approval))⟩) ∧
      (∃ read, c.trace[17]? = some read ∧ read.caller = 5 ∧
        ∃ job, read.before.jobs (trainingJobName "a1") = some job ∧ job.EndedAs .failed) ∧
      statusOf c.world.approvals "a1" = some .completed :=
  ⟨⟨_, _, rfl⟩, ⟨_, rfl, rfl, by decide⟩, ⟨_, _, rfl⟩, ⟨_, rfl, rfl, _, rfl, rfl, by decide⟩, rfl⟩

/-- A run in which kubectl times out although the Job is created, the Job completes, and a
reconcile request returns. -/
def timedOutRun : List SystemEvent :=
  let manifest : Except SystemFailure String := .ok "name: credit-model-training"
  let finished : Json := .obj [("status", .obj [("completionTime", .str "2024-01-01T00:00:00Z")])]
  approvedRun ++ [.arrive (.execute {} "a1"), .step 2 {}, .step 2 {}, .step 2 { manifest },
    .step 2 { manifest }, .step 2 { jobCreated := true }, .step 2 {}, .step 2 {},
    .arrive (.cluster (.finished "credit-training-a1" .completed)), .step 3 {},
    .arrive (.reconcileApproval {} "a1"), .step 4 {}, .step 4 { uuid := "e1" },
    .step 4 { kubectlGet := .exited 0 (.ok finished) }, .step 4 {}, .step 4 { uuid := "e2" }]

/-- Its apply has timed out and its status check is truthful. -/
theorem timedOut_timedOutRun : TimedOut (runFrom (fun _ => none) timedOutRun).trace "a1" where
  unknown := by
    repeat' first
      | refine List.forall_mem_cons.mpr ⟨?_, ?_⟩
      | exact List.forall_mem_nil _
    all_goals
      intro result hop
      cases hop <;> exact ⟨_, rfl⟩
  kept := by
    repeat' first
      | refine List.forall_mem_cons.mpr ⟨?_, ?_⟩
      | exact List.forall_mem_nil _
    all_goals
      intro hop
      cases hop
  told := by
    repeat' first
      | refine List.forall_mem_cons.mpr ⟨?_, ?_⟩
      | exact List.forall_mem_nil _
    all_goals
      intro ended hlooked
      cases hlooked <;> exact .found rfl

/-- What is recorded in that run is the end of the Job. -/
theorem recorded_outcome_timed_out :
    ∃ row, (runFrom (fun _ => none) timedOutRun).world.approvals.lookup "a1" = some row ∧
      row.status = .completed := by
  refine ((recorded_outcome (fun _ => none) timedOutRun "a1").2 timedOut_timedOutRun .completed).2
    4 {} _ rfl ⟨_, _, (List.take_append_drop 13 _).symm, by decide,
      ⟨_, List.mem_of_getElem? (i := 6) rfl, true, rfl⟩, ?_⟩
  repeat' first
    | refine List.forall_mem_cons.mpr ⟨⟨_, rfl, rfl, by decide⟩, ?_⟩
    | exact List.forall_mem_nil _

end CreditScoringMlops.ControlPlane
