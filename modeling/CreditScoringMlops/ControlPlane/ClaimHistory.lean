import CreditScoringMlops.ControlPlane.ApprovalHistory
import CreditScoringMlops.ControlPlane.ClaimSteps
import Mathlib.Data.List.Sublists

/-!
# Histories of the control plane

What the trace of a legal run tells. The approval table is the table of the store calls of the
trace, so every row evolves as `ApprovalHistory` says; and the phase of a caller tells what it
has done: an owner has won its claim, and the owner of a retry that knows the state of the Job
has asked for it after the claim.
-/

namespace CreditScoringMlops.ControlPlane

open Python Interaction ClaimProtocol ApprovalStore

/-- Legal traces of the system from the empty tables. -/
abbrev Legal (jobs : Jobs) (trace : List LogEntry) (w : World) : Prop :=
  system.Legal claimProtocol { jobs := jobs } trace w

/-- The phase of a caller after a trace. -/
abbrev phaseOf (trace : List LogEntry) (i : ℕ) : Phase := claimProtocol.stateOf trace i

/-- The trace of every run is legal. -/
theorem legal_runFrom (jobs : Jobs) (events : List SystemEvent) :
    Legal jobs (runFrom jobs events).trace (runFrom jobs events).world :=
  (runFrom_disciplined jobs events).legal

/-- Every entry was permitted to its caller and did what its operation does. -/
theorem Legal.at_entry {jobs : Jobs} {trace pre post : List LogEntry} {e : LogEntry} {w : World}
    (h : Legal jobs trace w) (htrace : trace = pre ++ e :: post) :
    ∃ i env op w', e = system.entry i env op w' ∧ Legal jobs pre w' ∧ May (phaseOf pre i) op := by
  obtain ⟨hlegal, hmay, hentry⟩ := h.split htrace
  exact ⟨_, _, _, _, hentry, hlegal, hmay⟩

/-! ## The table -/

section Table

variable {jobs : Jobs} {trace : List LogEntry} {w : World} {i : ℕ} {env : Env}

/-- A store call that succeeds has taken effect. -/
theorem exec_store_ok {op : StoreOp} {a : op.Result} (h : (exec i (.store op) env w).1 = .ok a) :
    perform env.now w.approvals op = .ok (a, (exec i (.store op) env w).2.approvals) := by
  simp only [exec, orFault, execStore] at h ⊢
  split at h
  · cases h
  · split at h
    · cases h
      simp [*]
    · cases h

/-- A store call that raises leaves the world as it was. -/
theorem exec_store_error {op : StoreOp} {exc : PyExc}
    (h : (exec i (.store op) env w).1 = .error exc) :
    (exec i (.store op) env w).2 = w ∧
      (perform env.now w.approvals op = .error exc ∨ ∃ message, exc = .other message) := by
  simp only [exec, orFault, execStore] at h ⊢
  split at h
  · cases h
    exact ⟨by simp [*], .inr ⟨_, rfl⟩⟩
  · split at h
    · cases h
    · cases h
      exact ⟨by simp [*], .inl ‹_›⟩

/-- Only store calls write the table. -/
theorem exec_approvals {op : Op} (h : ∀ o, op ≠ .store o) :
    (exec i op env w).2.approvals = w.approvals := by
  cases op with
  | store o => exact absurd rfl (h o)
  | record event =>
    simp only [exec, orFault, execRecord]
    split
    · rfl
    · split <;> rfl
  | tryAcquire =>
    simp only [exec, orFault]
    split
    · rfl
    · split <;> rfl
  | release =>
    simp only [exec, orFault]
    split <;> rfl
  | kubectlApply jobName manifest =>
    simp only [exec]
    split <;> rfl
  | _ => rfl

/-- One operation is one step for every approval id. -/
theorem exec_rowStep (i : ℕ) (op : StoreOp) (env : Env) (w : World) (id : String) :
    RowStep env.now op id (w.approvals.lookup id)
      ((exec i (.store op) env w).2.approvals.lookup id) := by
  cases h : (exec i (.store op) env w).1 with
  | ok a => exact perform_rowStep (exec_store_ok h) id
  | error exc =>
    rw [(exec_store_error h).1]
    exact .stay _

/-- A call that changes a row has succeeded. -/
theorem exec_ok_of_change {op : StoreOp} {id : String}
    (h : (exec i (.store op) env w).2.approvals.lookup id ≠ w.approvals.lookup id) :
    ∃ a, (exec i (.store op) env w).1 = .ok a := by
  cases hreply : (exec i (.store op) env w).1 with
  | ok a => exact ⟨a, rfl⟩
  | error exc => exact absurd (by rw [(exec_store_error hreply).1]) h

/-- No row is lost, and every row evolves. -/
def TableEvolves (w w' : World) : Prop :=
  ∀ id row, w.approvals.lookup id = some row →
    ∃ row', w'.approvals.lookup id = some row' ∧ Evolves row row'

/-- One operation evolves the table. -/
theorem exec_tableEvolves (i : ℕ) (op : Op) (env : Env) (w : World) :
    TableEvolves w (exec i op env w).2 := by
  intro id row hrow
  by_cases h : ∃ o, op = .store o
  · obtain ⟨o, rfl⟩ := h
    have hstep := exec_rowStep i o env w id
    rw [hrow] at hstep
    exact hstep.evolves
  · rw [exec_approvals fun o ho => h ⟨o, ho⟩]
    exact ⟨row, hrow, .refl row⟩

/-- Evolution of tables composes. -/
theorem TableEvolves.trans {w₁ w₂ w₃ : World} (h : TableEvolves w₁ w₂) (h' : TableEvolves w₂ w₃) :
    TableEvolves w₁ w₃ := by
  intro id row hrow
  obtain ⟨row₂, hrow₂, h₂⟩ := h id row hrow
  obtain ⟨row₃, hrow₃, h₃⟩ := h' id row₂ hrow₂
  exact ⟨row₃, hrow₃, h₂.trans h₃⟩

/-- From the world after an entry, the table has evolved to the last one. -/
theorem Legal.tableEvolves (h : Legal jobs trace w) {e : LogEntry} (he : e ∈ trace) :
    TableEvolves e.after w :=
  h.relates_after (fun _ _ row hrow => ⟨row, hrow, .refl row⟩) (fun _ _ _ => .trans)
    (fun _ _ _ row hrow => ⟨row, hrow, .refl row⟩)
    (fun i op env w _ => exec_tableEvolves i op env w)
    he

/-- The calls of the store in a trace, without those that the database failed. -/
def storeCalls (trace : List LogEntry) : List StoreCall :=
  trace.filterMap fun e =>
    match e.env.fault, e.op with
    | none, .store op => some ⟨e.env.now, op⟩
    | _, _ => none

/-- The table of a run is the table of the history of its store calls. -/
theorem Legal.approvals_eq (h : Legal jobs trace w) :
    w.approvals = runCalls (storeCalls trace) := by
  induction h with
  | nil => rfl
  | @snoc trace w i env op h hmay ih =>
    rw [storeCalls, List.filterMap_append, ← storeCalls]
    by_cases hop : ∃ o, op = .store o
    · obtain ⟨o, rfl⟩ := hop
      cases hfault : env.fault with
      | none =>
        simp only [List.filterMap_cons, List.filterMap_nil, Machine.entry, hfault]
        rw [runCalls_concat, ← ih]
        simp only [system, exec, orFault, hfault, execStore, tableAfter]
        cases perform env.now w.approvals o <;> rfl
      | some message =>
        simp only [List.filterMap_cons, List.filterMap_nil, Machine.entry, hfault, List.append_nil]
        rw [← ih]
        simp only [system, exec, orFault, hfault]
    · have hother : ∀ o, op ≠ .store o := fun o ho => hop ⟨o, ho⟩
      rw [show (system.exec i op env w).2.approvals = w.approvals from exec_approvals hother, ih]
      cases op <;> simp_all [Machine.entry]
  | abort i h ih => exact ih

/-- Every row of every reachable table satisfies the row invariant. -/
theorem Legal.rowInvariant (h : Legal jobs trace w) {x : String} {row : ApprovalRequestRow}
    (hrow : w.approvals.lookup x = some row) : RowInvariant row := by
  rw [h.approvals_eq] at hrow
  exact runCalls_rowInvariant _ x row hrow

/-- Each store call of the history was made by an entry of the trace, at the table of the calls
before it. -/
theorem Legal.exists_entry (h : Legal jobs trace w) {earlier later : List StoreCall}
    {call : StoreCall} (hcalls : storeCalls trace = earlier ++ call :: later) :
    ∃ (pre post : List LogEntry) (i : ℕ) (env : Env) (w' : World),
      trace = pre ++ system.entry i env (.store call.op) w' :: post ∧
        w'.approvals = runCalls earlier ∧ env.now = call.now ∧ env.fault = none := by
  obtain ⟨pre, rest, rfl, hpre, hrest⟩ := List.filterMap_eq_append_iff.mp hcalls
  obtain ⟨skipped, e, post, rfl, hskipped, he, -⟩ := List.filterMap_eq_cons_iff.mp hrest
  have htrace : pre ++ (skipped ++ e :: post) = (pre ++ skipped) ++ e :: post := by simp
  obtain ⟨i, env, op, w', rfl, hlegal, -⟩ := h.at_entry htrace
  have hbefore : w'.approvals = runCalls earlier := by
    rw [hlegal.approvals_eq, storeCalls, List.filterMap_append, ← hpre,
      List.filterMap_eq_nil_iff.mpr hskipped, List.append_nil]
  simp only [Machine.entry] at he
  split at he
  · rename_i hfault
    obtain rfl := Option.some.inj he
    exact ⟨_, post, i, env, w', htrace, hbefore, rfl, hfault⟩
  · cases he

end Table

/-! ## What the phases tell -/

section History

variable {jobs : Jobs} {trace : List LogEntry} {w : World}

/-- Induction over what one caller does. -/
theorem Legal.phase_induction {P : List LogEntry → Phase → Prop} (i : ℕ)
    (hstart : P [] (.free {}))
    (hother : ∀ {trace s} (e : LogEntry), e.caller ≠ i → P trace s → P (trace ++ [e]) s)
    (hown : ∀ {trace w s} (env : Env) (op : Op), Legal jobs trace w → phaseOf trace i = s →
      May s op → P trace s → P (trace ++ [system.entry i env op w]) (next s op (exec i op env w).1))
    (h : Legal jobs trace w) : P trace (phaseOf trace i) :=
  h.stateOf_induction i hstart (fun _ _ e => hother e) fun _ _ env op hlegal hmay =>
    hown env op hlegal rfl hmay

/-- What a phase tells has been brought about by one entry of the caller, if it is not so at the
start. -/
theorem Legal.history {C : Phase → Prop} {R : LogEntry → Prop} (i : ℕ) (hstart : ¬C (.free {}))
    (hown : ∀ {s} (env : Env) (op : Op) (w : World), May s op →
      C (next s op (exec i op env w).1) → C s ∨ R (system.entry i env op w))
    (h : Legal jobs trace w) (hC : C (phaseOf trace i)) : ∃ e ∈ trace, R e :=
  Machine.Legal.history i hstart hown h hC

/-- A caller has won a claim. -/
def Won (trace : List LogEntry) (i : ℕ) (claim : Route × String) : Prop :=
  ∃ e ∈ trace, e.caller = i ∧ claimWon e.op e.reply = some claim

/-- One entry more adds the claim that it wins. -/
theorem won_concat {e : LogEntry} {i : ℕ} {claim : Route × String} :
    Won (trace ++ [e]) i claim ↔
      Won trace i claim ∨ e.caller = i ∧ claimWon e.op e.reply = some claim := by
  simp only [Won, List.mem_append, List.mem_singleton, or_and_right, exists_or, exists_eq_left]

/-- What a caller owns is what it has won. -/
theorem owner_iff_won (h : Legal jobs trace w) (i : ℕ) (claim : Route × String) :
    (phaseOf trace i).owner = some claim ↔ Won trace i claim := by
  refine h.phase_induction (P := fun trace s => s.owner = some claim ↔ Won trace i claim) i
    ?_ ?_ ?_
  · simp [Phase.owner, Won]
  · intro trace s e he ih
    rw [won_concat, ih]
    exact (or_iff_left fun hwon => he hwon.1).symm
  · intro trace w s env op hlegal _ hmay ih
    rw [won_concat]
    change _ ↔ _ ∨ i = i ∧ claimWon op (exec i op env w).1 = _
    by_cases hclaim : claimOf op = none
    · rw [owner_next hmay hclaim, ih, claimWon_of_not_claim hclaim]
      simp
    · obtain ⟨f, rfl, -⟩ := fresh_of_claim hmay hclaim
      rw [owner_next_of_claim hclaim, ← ih]
      simp [Phase.owner]

/-- The caller of an entry has looked up the Job of an approval and was told its status. -/
def Looks (e : LogEntry) (i : ℕ) (jobName : String) (status : Except PyExc Dict) : Prop :=
  e.caller = i ∧ ∃ ended, lookedUp e.op e.reply = some (jobName, ended) ∧
    KubernetesExecutor.classify ended = status

/-- Looking up is remembered. -/
theorem looks_entry {i : ℕ} {env : Env} {op : Op} {name : String} {ended : KubectlGet}
    (h : lookedUp op (exec i op env w).1 = some (name, ended)) :
    Looks (system.entry i env op w) i name (KubernetesExecutor.classify ended) :=
  ⟨rfl, ended, h, rfl⟩

/-- A program that has judged a Job has looked it up. -/
theorem judged_history (h : Legal jobs trace w) {i : ℕ} {f : Free} {name : String}
    {status : Except PyExc Dict} (hf : (phaseOf trace i).free? = some f)
    (hjudged : f.judged = some (name, status)) : ∃ look ∈ trace, Looks look i name status := by
  refine Legal.history (C := fun s => ∃ f, s.free? = some f ∧ f.judged = some (name, status)) i
    ?_ ?_ h ⟨f, hf, hjudged⟩
  · rintro ⟨f, hf, hjudged⟩
    cases hf
    cases hjudged
  · rintro s env op w hmay ⟨f', hf', hjudged⟩
    obtain ⟨-, f, hf, rfl | rfl⟩ := free_of_next hmay hf'
    · cases hjudged
    · obtain hjudged | ⟨ended, hlook, rfl⟩ := judged_after hjudged
      · exact .inl ⟨f, hf, hjudged⟩
      · exact .inr (looks_entry hlook)

/-- The caller of an entry has read an approval in a status. -/
def Reads (e : LogEntry) (i : ℕ) (x : String) (status : ApprovalStatus) : Prop :=
  e.caller = i ∧ statusRead e.op e.reply = some (x, status)

/-- A program that remembers an approval has read it. -/
theorem found_history (h : Legal jobs trace w) {i : ℕ} {f : Free} {x : String}
    {status : ApprovalStatus} (hf : (phaseOf trace i).free? = some f)
    (hfound : f.found = some (x, status)) : ∃ e ∈ trace, Reads e i x status := by
  refine Legal.history (C := fun s => ∃ f, s.free? = some f ∧ f.found = some (x, status)) i
    ?_ ?_ h ⟨f, hf, hfound⟩
  · rintro ⟨f, hf, hfound⟩
    cases hf
    cases hfound
  · rintro s env op w hmay ⟨f', hf', hfound⟩
    obtain ⟨-, f, hf, rfl | rfl⟩ := free_of_next hmay hf'
    · cases hfound
    · obtain hfound | hread := found_after hfound
      · exact .inl ⟨f, hf, hfound⟩
      · exact .inr ⟨rfl, hread⟩

/-- The owner of a retry that knows the status of the Job has asked for it after its claim. -/
theorem seen_history (h : Legal jobs trace w) {i : ℕ} {x : String} {status : Except PyExc Dict}
    (hseen : phaseOf trace i = .seen x status) :
    ∃ claim look, [claim, look].Sublist trace ∧ claim.caller = i ∧
      claimWon claim.op claim.reply = some (.retry, x) ∧
        Looks look i (ReconciliationService.trainingJobName x) status := by
  refine h.phase_induction (P := fun trace s => s = .seen x status → ∃ claim look,
    [claim, look].Sublist trace ∧ claim.caller = i ∧
      claimWon claim.op claim.reply = some (.retry, x) ∧
        Looks look i (ReconciliationService.trainingJobName x) status) i ?_ ?_ ?_ hseen
  · intro h
    cases h
  · intro trace s e _ ih h
    obtain ⟨claim, look, hsub, hrest⟩ := ih h
    exact ⟨claim, look, hsub.trans (List.sublist_append_left _ _), hrest⟩
  · intro trace w s env op hlegal hphase hmay ih h
    obtain hs | ⟨hs, ended, hlook, rfl⟩ := next_eq_seen hmay h
    · obtain ⟨claim, look, hsub, hrest⟩ := ih hs
      exact ⟨claim, look, hsub.trans (List.sublist_append_left _ _), hrest⟩
    · obtain ⟨claim, hmem, hcaller, hwon⟩ :=
        (owner_iff_won hlegal i (.retry, x)).mp (by rw [hphase, hs]; rfl)
      refine ⟨claim, _, ?_, hcaller, hwon, looks_entry hlook⟩
      exact (List.singleton_sublist.mpr hmem).append (List.Sublist.refl _)

/-- The status a claim starts from. -/
def Route.source : Route → ApprovalStatus
  | execute => .approved
  | retry => .unknown

/-- A claim is won on a row in its source status, which is executing from then on. -/
theorem claimWon_exec {i : ℕ} {env : Env} {op : Op} {route : Route} {x : String}
    (h : claimWon op (exec i op env w).1 = some (route, x)) :
    op = .store (route.claim x) ∧ ∃ row, w.approvals.lookup x = some row ∧
      row.status = route.source ∧ (exec i op env w).2.approvals.lookup x =
        some { row with status := .executing, executionStartedAt := some env.now } := by
  cases op with
  | store op =>
    cases op with
    | claimExecution id =>
      cases hreply : (exec i (.store (.claimExecution id)) env w).1 with
      | error exc => rw [hreply] at h; cases h
      | ok a =>
        obtain ⟨approval, _ | _⟩ := a <;> rw [hreply] at h <;> cases h
        obtain ⟨row, hrow, hstatus, htable⟩ := claimExecution_won (exec_store_ok hreply)
        exact ⟨rfl, row, hrow, hstatus, htable ▸ ApprovalTable.lookup_write_of_lookup hrow rfl⟩
    | claimRetryExecution id =>
      cases hreply : (exec i (.store (.claimRetryExecution id)) env w).1 with
      | error exc => rw [hreply] at h; cases h
      | ok a =>
        obtain ⟨approval, _ | _⟩ := a <;> rw [hreply] at h <;> cases h
        obtain ⟨row, hrow, hstatus, htable⟩ := claimRetryExecution_won (exec_store_ok hreply)
        exact ⟨rfl, row, hrow, hstatus, htable ▸ ApprovalTable.lookup_write_of_lookup hrow rfl⟩
    | _ => cases h
  | _ => cases h

/-- A mark fails with the database, or writes, is ignored or is refused, as the status of the row
tells. -/
theorem mark_exec (i : ℕ) (env : Env) {op : StoreOp} {x : String} {target : ApprovalStatus}
    {row : ApprovalRequestRow} (hmarks : op.marks = some (x, target))
    (hrow : w.approvals.lookup x = some row) :
    (∃ message, env.fault = some message ∧
      exec i (.store op) env w = (.error (.other message), w)) ∨
    (env.fault = none ∧ markWrites target row.status ∧ ∃ a result,
      (exec i (.store op) env w).1 = .ok a ∧ (exec i (.store op) env w).2.approvals.lookup x =
        some { row with status := target, executionResult := some result }) ∨
    (env.fault = none ∧ markRepeats target row.status ∧ ∃ a,
      exec i (.store op) env w = (.ok a, w)) ∨
    (env.fault = none ∧ ¬markWrites target row.status ∧ ¬markRepeats target row.status ∧
      exec i (.store op) env w = (.error (badTransition row.status target), w)) := by
  cases hfault : env.fault with
  | some message => exact .inl ⟨message, rfl, by simp [exec, orFault, hfault]⟩
  | none =>
    refine .inr ?_
    rw [show exec i (.store op) env w = execStore env op w by simp only [exec, orFault, hfault],
      execStore]
    obtain ⟨hwrites, a, result, hperform⟩ | ⟨hrepeats, a, hperform⟩ |
      ⟨hwrites, hrepeats, hperform⟩ :=
      mark_of_lookup env.now hmarks hrow <;> rw [hperform]
    · exact .inl ⟨rfl, hwrites, a, result, rfl, ApprovalTable.lookup_write_of_lookup hrow rfl⟩
    · exact .inr (.inl ⟨rfl, hrepeats, a, rfl⟩)
    · exact .inr (.inr ⟨rfl, hwrites, hrepeats, rfl⟩)

/-- A mark that succeeds has found a row and written it, or found it already so. -/
theorem marked_exec {i : ℕ} {env : Env} {op : Op} {x : String} {target : ApprovalStatus}
    (h : marked op (exec i op env w).1 = some (x, target)) :
    ∃ row, w.approvals.lookup x = some row ∧
      ((markWrites target row.status ∧ ∃ result, (exec i op env w).2.approvals.lookup x =
        some { row with status := target, executionResult := some result }) ∨
      (markRepeats target row.status ∧ (exec i op env w).2 = w)) := by
  cases op with
  | store op =>
    cases hreply : (exec i (.store op) env w).1 with
    | error exc => rw [hreply] at h; cases h
    | ok a =>
      rw [hreply] at h
      cases hrow : w.approvals.lookup x with
      | none =>
        have hok := exec_store_ok hreply
        rw [mark_of_lookup_none h hrow] at hok
        cases hok
      | some row =>
        refine ⟨row, rfl, ?_⟩
        obtain ⟨message, -, hexec⟩ | ⟨-, hwrites, a', result, -, hafter⟩ |
          ⟨-, hrepeats, a', hexec⟩ | ⟨-, -, -, hexec⟩ := mark_exec i env h hrow
        · rw [hexec] at hreply; cases hreply
        · exact .inl ⟨hwrites, result, hafter⟩
        · exact .inr ⟨hrepeats, by rw [hexec]⟩
        · rw [hexec] at hreply; cases hreply
  | _ => cases h

/-- A recovery that succeeds has found an executing row whose lease has run out. -/
theorem recovered_exec {i : ℕ} {env : Env} {op : Op} {x : String}
    (h : recovered op (exec i op env w).1 = some x) :
    ∃ leaseSeconds row startedAt, recoveryLease op = some leaseSeconds ∧
      w.approvals.lookup x = some row ∧ row.status = .executing ∧
        row.executionStartedAt = some startedAt ∧
          startedAt + seconds leaseSeconds.toNat ≤ env.now ∧ ∃ result,
            (exec i op env w).2.approvals.lookup x =
              some { row with status := .unknown, executionResult := some result } := by
  cases op with
  | store op =>
    cases op with
    | recoverStaleExecution id leaseSeconds =>
      cases hreply : (exec i (.store (.recoverStaleExecution id leaseSeconds)) env w).1 with
      | error exc => rw [hreply] at h; cases h
      | ok a =>
        obtain ⟨approval, _ | _⟩ := a <;> rw [hreply] at h <;> cases h
        have hok := exec_store_ok hreply
        cases hrow : w.approvals.lookup x with
        | none =>
          simp only [perform, recoverStaleExecution, getLocked_of_lookup_none hrow] at hok
          split at hok <;> cases hok
        | some row =>
          obtain ⟨hfresh, -⟩ | ⟨startedAt, -, hstatus, hstarted, hstale, -, htable⟩ :=
            recoverStaleExecution_ok hrow hok
          · cases hfresh
          · refine ⟨leaseSeconds, row, startedAt, rfl, rfl, hstatus, hstarted, hstale,
              recoveredResult startedAt, ?_⟩
            rw [htable]
            exact ApprovalTable.lookup_write_of_lookup hrow rfl
    | _ => cases h
  | _ => cases h

/-- A claim that has been won makes the row a started one. -/
theorem Won.started (h : Legal jobs trace w) {i : ℕ} {route : Route} {x : String}
    (hwon : Won trace i (route, x)) :
    ∃ row, w.approvals.lookup x = some row ∧ row.status.isStarted := by
  obtain ⟨e, he, -, hclaim⟩ := hwon
  obtain ⟨pre, post, htrace⟩ := List.append_of_mem he
  obtain ⟨i, env, op, w', rfl, -, -⟩ := h.at_entry htrace
  obtain ⟨-, row, -, -, hafter⟩ := claimWon_exec hclaim
  obtain ⟨row', hrow', hevolves⟩ := h.tableEvolves he x _ hafter
  exact ⟨row', hrow', hevolves.started rfl⟩

/-- What has been won stays won. -/
theorem Won.mono {trace' : List LogEntry} (hsub : trace ⊆ trace') {i : ℕ} {claim : Route × String}
    (h : Won trace i claim) : Won trace' i claim :=
  h.imp fun _ ⟨he, hwon⟩ => ⟨hsub he, hwon⟩

end History

end CreditScoringMlops.ControlPlane
