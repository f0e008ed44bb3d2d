import CreditScoringMlops.ControlPlane.RetryOnAbsence

/-!
# The history of a Job

A Job that is not deleted only gains failed pods until it has finished, and stays as it ended from
then on. So whatever truthful status checks have reported of a Job, before it has finished or
after, agrees with its end, if no pod has failed before a completion.
-/

namespace CreditScoringMlops.ControlPlane

open Python Interaction ClaimProtocol

variable {jobs : Jobs} {trace : List LogEntry} {w : World} {name : String}

/-- A Job that exists stays and keeps its failed pods, and a finished one stays as it is. -/
def JobEvolves (before after : Option Job) : Prop :=
  ∀ job, before = some job → ∃ job', after = some job' ∧ job.failedPods ≤ job'.failedPods ∧
    (job.outcome ≠ none → job' = job)

namespace JobEvolves

variable {a b c : Option Job}

theorem refl (a : Option Job) : JobEvolves a a := fun job h => ⟨job, h, le_rfl, fun _ => rfl⟩

theorem trans (h : JobEvolves a b) (h' : JobEvolves b c) : JobEvolves a c := by
  intro job hjob
  obtain ⟨job', hjob', hpods, hfrozen⟩ := h job hjob
  obtain ⟨job'', hjob'', hpods', hfrozen'⟩ := h' job' hjob'
  refine ⟨job'', hjob'', hpods.trans hpods', fun houtcome => ?_⟩
  obtain rfl := hfrozen houtcome
  exact hfrozen' houtcome

end JobEvolves

namespace Jobs

variable (jobs : Jobs)

/-- Creating a Job that is there already does nothing. -/
theorem create_evolves (jobName : String) : JobEvolves (jobs name) (jobs.create jobName name) := by
  intro job hjob
  unfold create
  split
  · exact ⟨job, by simp [hjob], le_rfl, fun _ => rfl⟩
  · exact ⟨job, hjob, le_rfl, fun _ => rfl⟩

/-- A change of an unfinished Job that keeps its failed pods. -/
theorem modify_evolves (jobName : String) {f : Job → Job}
    (hpods : ∀ job, job.failedPods ≤ (f job).failedPods)
    (hfrozen : ∀ job, job.outcome ≠ none → f job = job) :
    JobEvolves (jobs name) (jobs.modify jobName f name) := by
  intro job hjob
  unfold modify
  split
  · exact ⟨f job, by simp [hjob], hpods job, hfrozen job⟩
  · exact ⟨job, hjob, le_rfl, fun _ => rfl⟩

/-- A step of the cluster other than a deletion. -/
theorem change_evolves {change : ClusterChange} (h : change ≠ .deleted name) :
    JobEvolves (jobs name) (jobs.change change name) := by
  cases change with
  | created jobName => exact jobs.create_evolves jobName
  | podFailed jobName =>
    refine jobs.modify_evolves jobName (fun job => ?_) fun job houtcome => if_neg houtcome
    split <;> simp
  | finished jobName outcome =>
    refine jobs.modify_evolves jobName (fun job => ?_) fun job houtcome => if_neg houtcome
    split <;> simp
  | deleted jobName =>
    change JobEvolves (jobs name) (if name = jobName then none else jobs name)
    rw [if_neg fun heq => h (by rw [heq])]
    exact .refl _

end Jobs

/-- Only the cluster deletes Jobs. -/
theorem exec_jobEvolves (i : ℕ) (env : Env) {op : Op} (h : op ≠ .cluster (.deleted name)) :
    JobEvolves (w.jobs name) ((exec i op env w).2.jobs name) := by
  cases op with
  | store op =>
    simp only [exec, orFault, execStore]
    split
    · exact .refl _
    · split <;> exact .refl _
  | record event =>
    simp only [exec, orFault, execRecord]
    split
    · exact .refl _
    · split <;> exact .refl _
  | tryAcquire =>
    simp only [exec, orFault]
    split
    · exact .refl _
    · split <;> exact .refl _
  | release =>
    simp only [exec, orFault]
    split <;> exact .refl _
  | kubectlApply jobName manifest =>
    simp only [exec]
    split
    · exact w.jobs.create_evolves jobName
    · exact .refl _
  | cluster change => exact w.jobs.change_evolves fun hchange => h (by rw [hchange])
  | _ => exact .refl _

/-- From the world before an entry, a Job that is not deleted evolves to the last world. -/
theorem Legal.jobEvolves (h : Legal jobs trace w)
    (hkept : ∀ e ∈ trace, e.op ≠ .cluster (.deleted name)) {e : LogEntry} (he : e ∈ trace) :
    JobEvolves (e.before.jobs name) (w.jobs name) := by
  obtain ⟨pre, post, htrace⟩ := List.append_of_mem he
  obtain ⟨i, env, op, w', rfl, -, -⟩ := h.at_entry htrace
  refine JobEvolves.trans (exec_jobEvolves i env (hkept _ he)) ?_
  exact h.relates_after (R := fun w w' => JobEvolves (w.jobs name) (w'.jobs name))
    (fun w => .refl _) (fun _ _ _ => .trans) (fun _ _ => .refl _)
    (fun i _ env _ hmem => exec_jobEvolves i env (hkept _ hmem)) he

/-! ## Status checks -/

/-- What the status object of a Job tells. -/
def Job.state (job : Job) : String :=
  if job.outcome = some .completed then "completed"
  else if 0 < job.failedPods then "failed"
  else "running"

/-- kubectl tells the state of a Job, or its absence, as it is, or times out. -/
inductive Tells : Option Job → KubectlGet → Prop where
  | timeout (job : Option Job) : Tells job .timeout
  | absent {returncode : ℤ} (h : returncode ≠ 0) (stdout : Except String Json) :
      Tells none (.exited returncode stdout)
  | found {job : Job} {data : Json} (h : KubernetesExecutor.jobState data = .ok job.state) :
      Tells (some job) (.exited 0 (.ok data))

/-- The report of a truthful status check of a Job that exists. -/
theorem Tells.reports_iff {job : Option Job} {ended : KubectlGet} (h : Tells job ended)
    {result : Dict} (hresult : KubernetesExecutor.classify ended = .ok result) {state : String} :
    reports result state ↔ ∃ job', job = some job' ∧ job'.state = state := by
  cases h with
  | timeout job => cases hresult
  | absent hcode stdout =>
    rw [KubernetesExecutor.classify_exited_of_ne_zero hcode] at hresult
    cases hresult
    simp [reports, Dict.truthyAt, Dict.get?, Json.truthy]
  | @found job data hdata =>
    rw [KubernetesExecutor.classify_exited_zero] at hresult
    simp only [Except.mapError, Except.bind, hdata, Except.map, Except.ok.injEq] at hresult
    subst hresult
    simp [reports, Dict.truthyAt, Dict.isStrAt, Dict.get?, Json.truthy, Json.isStr]

/-- A Job has ended with an outcome: as completed without a failed pod, or as failed by one. -/
def Job.EndedAs (job : Job) (outcome : JobOutcome) : Prop :=
  job.outcome = some outcome ∧ (outcome = .completed ↔ job.failedPods = 0)

/-- The status that records an outcome. -/
def JobOutcome.status : JobOutcome → ApprovalStatus
  | completed => .completed
  | failed => .failed

/-- A Job that has ended tells so. -/
theorem Job.EndedAs.state {job : Job} {outcome : JobOutcome} (h : job.EndedAs outcome) :
    job.state = outcome.status.value := by
  obtain ⟨houtcome, hpods⟩ := h
  cases outcome with
  | completed => simp [Job.state, houtcome, JobOutcome.status, ApprovalStatus.value]
  | failed =>
    have hfailed : 0 < job.failedPods := Nat.pos_of_ne_zero fun h => by simpa using hpods.mpr h
    simp [Job.state, houtcome, hfailed, JobOutcome.status, ApprovalStatus.value]

/-- What a Job tells on its way agrees with its end. -/
theorem JobEvolves.state_eq {before : Option Job} {job final : Job} {outcome : JobOutcome}
    (h : JobEvolves before (some final)) (hended : final.EndedAs outcome)
    (hbefore : before = some job) {status : ApprovalStatus}
    (hstatus : status = .completed ∨ status = .failed) (hstate : job.state = status.value) :
    status = outcome.status := by
  obtain ⟨_, hfinal, hpods, hfrozen⟩ := h job hbefore
  obtain rfl := Option.some.inj hfinal
  unfold Job.state at hstate
  split at hstate
  · rename_i hcompleted
    obtain rfl := hfrozen (by simp [hcompleted])
    obtain rfl : JobOutcome.completed = outcome := by simpa [hcompleted] using hended.1
    obtain rfl | rfl := hstatus
    · rfl
    · exact absurd hstate (by decide)
  · split at hstate
    · rename_i hfailed
      have hne : outcome ≠ .completed := fun heq => by have := hended.2.mp heq; omega
      obtain rfl | rfl := hstatus
      · exact absurd hstate (by decide)
      · cases outcome with
        | completed => exact absurd rfl hne
        | failed => rfl
    · obtain rfl | rfl := hstatus <;> exact absurd hstate (by decide)

end CreditScoringMlops.ControlPlane
