import CreditScoringMlops.ControlPlane.NoBlindReexecution
import CreditScoringMlops.ControlPlane.MarkHistory

/-!
# Absence of the Job

A status check reads every non-zero exit code of kubectl as the absence of the Job. Retries and
recoveries act on that reading, so they act on an absent Job exactly as long as kubectl fails
for no other reason.
-/

namespace CreditScoringMlops.ControlPlane

open Python Interaction ClaimProtocol

variable {jobs : Jobs} {trace : List LogEntry} {w : World} {x : String}

/-- The states that the status object of a Job can tell. -/
theorem jobState_mem {data : Json} {state : String}
    (h : KubernetesExecutor.jobState data = .ok state) :
    state ∈ ["completed", "failed", "running"] := by
  unfold KubernetesExecutor.jobState at h
  obtain ⟨fields, -, h⟩ := bind_eq_ok.mp h
  obtain ⟨status, -, h⟩ := bind_eq_ok.mp h
  split at h
  · cases h; decide
  · obtain ⟨failed, -, h⟩ := bind_eq_ok.mp h
    cases failed <;> cases h <;> decide

/-- A status check reports absence exactly when kubectl has exited with a non-zero code. -/
theorem classify_absent_iff {ended : KubectlGet} :
    (∃ result, KubernetesExecutor.classify ended = .ok result ∧ reportsAbsent result) ↔
      ∃ returncode stdout, ended = .exited returncode stdout ∧ returncode ≠ 0 := by
  constructor
  · rintro ⟨result, hresult, habsent⟩
    cases ended with
    | timeout => cases hresult
    | raised failure => cases failure <;> cases hresult; cases habsent
    | exited returncode stdout =>
      refine ⟨returncode, stdout, rfl, ?_⟩
      rintro rfl
      rw [KubernetesExecutor.classify_exited_zero] at hresult
      obtain ⟨data, -, hdata⟩ := bind_eq_ok.mp hresult
      cases hstate : KubernetesExecutor.jobState data with
      | error exc => rw [hstate] at hdata; cases hdata
      | ok state =>
        rw [hstate] at hdata
        cases hdata
        have hmem := jobState_mem hstate
        simp only [List.mem_cons, List.not_mem_nil, or_false] at hmem
        rcases hmem with rfl | rfl | rfl <;> cases habsent
  · rintro ⟨returncode, stdout, rfl, hcode⟩
    exact ⟨_, KubernetesExecutor.classify_exited_of_ne_zero hcode stdout, rfl⟩

/-- A recovery that has succeeded was made. -/
theorem op_of_recovered {op : Op} {reply : op.Reply} (h : recovered op reply = some x) :
    ∃ leaseSeconds, op = .store (.recoverStaleExecution x leaseSeconds) := by
  cases op with
  | store op =>
    cases op with
    | recoverStaleExecution id leaseSeconds =>
      rcases reply with exc | ⟨approval, _ | _⟩ <;> cases h
      exact ⟨leaseSeconds, rfl⟩
    | _ => cases h
  | _ => cases h

/-- A program that may recover has judged the Job absent. -/
theorem of_may_recover {s : Phase} {leaseSeconds : ℤ}
    (hmay : May s (.store (.recoverStaleExecution x leaseSeconds))) :
    ∃ f result, s = .free f ∧ reportsAbsent result ∧
      f.judged = some (ReconciliationService.trainingJobName x, .ok result) := by
  generalize hop : Op.store (.recoverStaleExecution x leaseSeconds) = op at hmay
  cases hmay with
  | read hs hop' => subst hop; cases hop'
  | claim route x => cases route <;> cases hop
  | recover y hfound hjudged h hlease => cases hop; exact ⟨_, _, rfl, h, hjudged⟩
  | close h => cases hop; cases h
  | _ => cases hop

/-- A look at a Job that reports it absent. -/
def ReportsAbsent (look : LogEntry) (i : ℕ) (jobName : String) : Prop :=
  ∃ result, Looks look i jobName (.ok result) ∧ reportsAbsent result

/-- A recovery acts on a look of its caller that has reported the Job absent. -/
theorem recover_origin (h : Legal jobs trace w) {pre post : List LogEntry} {r : LogEntry}
    (htrace : trace = pre ++ r :: post) (hrecovered : recovered r.op r.reply = some x) :
    ∃ look ∈ pre, ReportsAbsent look r.caller (ReconciliationService.trainingJobName x) := by
  obtain ⟨i, env, op, w', rfl, hpre, hmay⟩ := h.at_entry htrace
  obtain ⟨leaseSeconds, rfl⟩ := op_of_recovered hrecovered
  obtain ⟨f, result, hphase, habsent, hjudged⟩ := of_may_recover hmay
  obtain ⟨look, hlook, hlooks⟩ := judged_history hpre (by rw [hphase]; rfl) hjudged
  exact ⟨look, hlook, result, hlooks, habsent⟩

/-- In every run, absence is proven whenever it is reported, applied on or recovered on, exactly
if kubectl exits with a non-zero code only where there is no Job. -/
theorem absence_proven_iff (jobs : Jobs) (events : List SystemEvent) :
    let trace := (runFrom jobs events).trace
    ((∀ look ∈ trace, ∀ jobName, ReportsAbsent look look.caller jobName →
        look.before.jobs jobName = none) ∧
      (∀ pre e post x, trace = pre ++ e :: post → Applies e x →
        Won pre e.caller (.execute, x) ∨ ∃ look ∈ pre,
          ReportsAbsent look e.caller (ReconciliationService.trainingJobName x) ∧
            look.before.jobs (ReconciliationService.trainingJobName x) = none) ∧
      ∀ pre r post x, trace = pre ++ r :: post → recovered r.op r.reply = some x →
        ∃ look ∈ pre, ReportsAbsent look r.caller (ReconciliationService.trainingJobName x) ∧
          look.before.jobs (ReconciliationService.trainingJobName x) = none) ↔
    ∀ look ∈ trace, ∀ jobName returncode stdout,
      lookedUp look.op look.reply = some (jobName, .exited returncode stdout) →
        returncode ≠ 0 → look.before.jobs jobName = none := by
  intro trace
  have hlegal := legal_runFrom jobs events
  constructor
  · rintro ⟨hreports, -⟩ look hlook jobName returncode stdout hlooked hcode
    obtain ⟨result, hresult, habsent⟩ := classify_absent_iff.mpr ⟨returncode, stdout, rfl, hcode⟩
    exact hreports look hlook jobName ⟨result, ⟨rfl, _, hlooked, hresult⟩, habsent⟩
  · intro hkubectl
    have hproven : ∀ look ∈ trace, ∀ i jobName, ReportsAbsent look i jobName →
        look.before.jobs jobName = none := by
      rintro look hlook i jobName ⟨result, ⟨-, ended, hlooked, hresult⟩, habsent⟩
      obtain ⟨returncode, stdout, rfl, hcode⟩ := classify_absent_iff.mp ⟨result, hresult, habsent⟩
      exact hkubectl look hlook jobName returncode stdout hlooked hcode
    refine ⟨fun look hlook jobName => hproven look hlook _ jobName,
      fun pre e post x htrace happly => ?_, fun pre r post x htrace hrecovered => ?_⟩
    · obtain hwon | ⟨claim, look, result, hsub, -, -, hlooks, habsent⟩ :=
        apply_origin hlegal htrace happly
      · exact .inl hwon
      · have hlook : look ∈ pre := hsub.subset (by simp)
        have hreports : ReportsAbsent look e.caller _ := ⟨result, hlooks, habsent⟩
        exact .inr ⟨look, hlook, hreports,
          hproven look (by rw [htrace]; simp [hlook]) _ _ hreports⟩
    · obtain ⟨look, hlook, hreports⟩ := recover_origin hlegal htrace hrecovered
      exact ⟨look, hlook, hreports, hproven look (by rw [htrace]; simp [hlook]) _ _ hreports⟩

/-- A run in which the Job is created although its apply times out, and kubectl cannot reach the
API server when the approval is retried. -/
def unreachableRun : List SystemEvent :=
  let manifest : Except SystemFailure String := .ok "name: credit-model-training"
  approvedRun ++ [.arrive (.execute {} "a1"), .step 2 {}, .step 2 {}, .step 2 { manifest },
    .step 2 { manifest }, .step 2 { jobCreated := true }, .step 2 {}, .step 2 {},
    .arrive (.retryApproval {} "a1"), .step 3 {}, .step 3 {}, .step 3 { uuid := "e1" },
    .step 3 { kubectlGet := .exited 1 (.error "connection refused") }, .step 3 { uuid := "e2" },
    .step 3 {}]

/-- The Job exists, is reported absent and is applied again. -/
theorem unreachable_reported_absent :
    let log := (runFrom (fun _ => none) unreachableRun).trace
    ∃ claim look e, log[13]? = some claim ∧ log[15]? = some look ∧ log[17]? = some e ∧
      claim.caller = 3 ∧ claimWon claim.op claim.reply = some (.retry, "a1") ∧
      ReportsAbsent look 3 (ReconciliationService.trainingJobName "a1") ∧
      look.before.jobs (ReconciliationService.trainingJobName "a1") = some {} ∧
      e.caller = 3 ∧ Applies e "a1" :=
  ⟨_, _, _, rfl, rfl, rfl, rfl, rfl, ⟨_, ⟨rfl, _, rfl, rfl⟩, rfl⟩, rfl, rfl, ⟨_, rfl⟩⟩

end CreditScoringMlops.ControlPlane
