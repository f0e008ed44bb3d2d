import CreditScoringMlops.ControlPlane.Contracts

/-!
# The verdicts on a Job over its life

A status check classifies one snapshot of a Job, and calls a Job failed from its first failed pod
on. The manifest lets the Job start another pod, which may succeed. The verdicts are stable exactly
for the Jobs that do not succeed after a failed pod.
-/

namespace CreditScoringMlops.ControlPlane

open Python Interaction Program ReconciliationService ApprovalStore

/-- What the status of a Job says of its end. -/
structure JobStatus where
  failed : ℕ := 0
  completionTime : Option String := none

/-- A Job with a backoff limit over time. Its failed counter never decreases, it may succeed while
the counter is within the limit, and the time of its completion is set once. -/
structure JobLife (backoffLimit : ℕ) (status : ℕ → JobStatus) : Prop where
  failed_le : ∀ t, (status t).failed ≤ (status (t + 1)).failed
  succeeds : ∀ t, (status t).completionTime = none → (status (t + 1)).completionTime ≠ none →
    (status t).failed ≤ backoffLimit
  stays : ∀ t, (status t).completionTime ≠ none →
    (status (t + 1)).completionTime = (status t).completionTime
  nonempty : ∀ t, (status t).completionTime ≠ some ""

/-- A Job object shows a status, among other fields. An empty status and a counter of zero may be
left out. -/
inductive Shows : Json → JobStatus → Prop where
  | intro {fields statusFields : Dict} {status : JobStatus}
      (hstatus : (fields.get? "status").getD (.obj []) = .obj statusFields)
      (hfailed : (statusFields.get? "failed").getD (.int 0) = .int status.failed)
      (htime : statusFields.get? "completionTime" = status.completionTime.map Json.str) :
      Shows (.obj fields) status

/-- The verdict of `get_training_job_status` on a snapshot. -/
def JobStatus.verdict (status : JobStatus) : String :=
  if status.completionTime ≠ none then "completed"
  else if 0 < status.failed then "failed"
  else "running"

/-- The status object of a snapshot is classified so. -/
theorem jobState_of_shows {data : Json} {status : JobStatus} (h : Shows data status)
    (hnonempty : status.completionTime ≠ some "") :
    KubernetesExecutor.jobState data = .ok status.verdict := by
  obtain ⟨hstatus, hfailed, htime⟩ := h
  rename_i fields statusFields
  change (KubernetesExecutor.asDict ((fields.get? "status").getD (.obj [])) >>= _) = _
  rw [hstatus]
  change (if statusFields.truthyAt "completionTime" = true then _ else
    KubernetesExecutor.exceedsZero ((statusFields.get? "failed").getD (.int 0)) >>= _) = _
  rw [hfailed]
  cases hcompletion : status.completionTime with
  | some time =>
    have htrue : statusFields.truthyAt "completionTime" := by
      rw [hcompletion] at htime hnonempty
      simpa [Dict.truthyAt, htime, Json.truthy] using hnonempty
    rw [if_pos htrue, JobStatus.verdict, if_pos (by simp [hcompletion])]
    rfl
  | none =>
    have hfalse : ¬statusFields.truthyAt "completionTime" := by
      rw [hcompletion] at htime
      simp [Dict.truthyAt, htime]
    rw [if_neg hfalse, JobStatus.verdict, if_neg (by simp [hcompletion])]
    by_cases hpods : 0 < status.failed
    · have hpositive : KubernetesExecutor.exceedsZero (.int status.failed) = .ok true := by
        simp [KubernetesExecutor.exceedsZero, hpods]
      rw [hpositive, if_pos hpods]
      rfl
    · have hzero : KubernetesExecutor.exceedsZero (.int status.failed) = .ok false := by
        simp [KubernetesExecutor.exceedsZero, hpods]
      rw [hzero, if_neg hpods]
      rfl

/-- Once it is completed or failed, the verdict on a Job stays. -/
def VerdictsStable (data : ℕ → Json) : Prop :=
  ∀ t u, t ≤ u → ∀ verdict, verdict = "completed" ∨ verdict = "failed" →
    KubernetesExecutor.jobState (data t) = .ok verdict →
      KubernetesExecutor.jobState (data u) = .ok verdict

/-- Where its status checks see snapshots of a Job, a reconciliation marks an approval as failed
only if the Job is at no time completed. -/
def FailureIsFinal (data : ℕ → Json) : Prop :=
  ∀ (service : ReconciliationService) (i : ℕ) (x : String) (s : Surroundings Env World) (w : World),
    (∀ k, ∃ t, (s.env k).kubectlGet = .exited 0 (.ok (data t))) →
      ∀ e ∈ (system.finish i s 0 w (service.reconcile x)).entries,
        ClaimProtocol.markOf e.op = some (x, .failed) →
          ∀ t, KubernetesExecutor.jobState (data t) ≠ .ok "completed"

/-- What a reconciliation may do that sees these snapshots of the Job. -/
def readsSnapshots (data : ℕ → Json) (x : String) : Monitor Op Op.Reply Unit where
  start := ()
  may _ op := ClaimProtocol.markOf op = some (x, .failed) →
    ∃ t, KubernetesExecutor.jobState (data t) = .ok "failed"
  possible
    | .kubectlGet _, reply => ∃ t, reply = .exited 0 (.ok (data t))
    | _, _ => True
  next _ _ _ := ()

/-- A reconciliation marks an approval as failed on a snapshot that is classified as failed. -/
theorem obeys_readsSnapshots (data : ℕ → Json) (service : ReconciliationService) (x : String) :
    (service.reconcile x).Obeys (readsSnapshots data x) (fun _ _ => True) (fun _ _ => True) () := by
  suffices hpermits : PermitsReconcile (readsSnapshots data x) x fun result =>
      result.isStrAt "status" "failed" → ∃ t, KubernetesExecutor.jobState (data t) = .ok "failed"
    from hpermits.reconcile service
  refine ⟨fun op hop hmark => ?_, fun hmark => (by cases hmark), ?_, ?_, ?_⟩
  · cases op with
    | store op => cases op <;> first | (cases hmark; done) | cases hop
    | _ => cases hmark
  · rintro ended result ⟨t, rfl⟩ hresult hfailed
    rw [KubernetesExecutor.classify_exited_zero] at hresult
    cases hstate : KubernetesExecutor.jobState (data t) with
    | error exc =>
      simp [Except.mapError, Except.bind, hstate, Except.map] at hresult
    | ok state =>
      simp only [Except.mapError, Except.bind, hstate, Except.map, Except.ok.injEq] at hresult
      subst hresult
      refine ⟨t, ?_⟩
      have : state = "failed" := by simpa [Dict.isStrAt, Dict.get?, Json.isStr] using hfailed
      rw [hstate, this]
  · exact fun result _ _ hmark => (by cases hmark)
  · exact fun result htold hfailed _ => htold hfailed

section Life

variable {backoffLimit : ℕ} {status : ℕ → JobStatus} {data : ℕ → Json}

/-- A Job that has completed stays so. -/
theorem JobLife.completionTime_mono (h : JobLife backoffLimit status) {t u : ℕ} (htu : t ≤ u)
    (hcompleted : (status t).completionTime ≠ none) : (status u).completionTime ≠ none := by
  induction u, htu using Nat.le_induction with
  | base => exact hcompleted
  | succ u _ ih => rw [h.stays u ih]; exact ih

/-- The failed counter does not decrease. -/
theorem JobLife.failed_mono (h : JobLife backoffLimit status) :
    Monotone fun t => (status t).failed :=
  monotone_nat_of_le_succ h.failed_le

/-- The Job does not succeed after a failed pod. -/
def SucceedsAtOnce (status : ℕ → JobStatus) : Prop :=
  ∀ t, (status t).completionTime = none → (status (t + 1)).completionTime ≠ none →
    (status t).failed = 0

/-- Such a Job does not complete once it has failed pods. -/
theorem JobLife.completionTime_eq_none (h : JobLife backoffLimit status)
    (honce : SucceedsAtOnce status) {t u : ℕ} (htu : t ≤ u)
    (htime : (status t).completionTime = none) (hfailed : 0 < (status t).failed) :
    (status u).completionTime = none := by
  induction u, htu using Nat.le_induction with
  | base => exact htime
  | succ u htu ih =>
    by_contra hnext
    have hzero := honce u ih hnext
    have hmono := h.failed_mono htu
    dsimp only at hmono
    omega

/-- The verdicts on a Job are stable, and no reconciliation fails an approval whose Job completes,
exactly if the Job does not succeed after a failed pod. -/
theorem verdicts_stable_iff (backoffLimit : ℕ) (status : ℕ → JobStatus) (data : ℕ → Json)
    (hlife : JobLife backoffLimit status) (hshows : ∀ t, Shows (data t) (status t)) :
    VerdictsStable data ∧ FailureIsFinal data ↔ SucceedsAtOnce status := by
  have hstate (t : ℕ) : KubernetesExecutor.jobState (data t) = .ok (status t).verdict :=
    jobState_of_shows (hshows t) (hlife.nonempty t)
  have hcompleted (t : ℕ) :
      (status t).verdict = "completed" ↔ (status t).completionTime ≠ none := by
    unfold JobStatus.verdict
    split
    · simp [*]
    · split <;> simp [*]
  have hfailed (t : ℕ) : (status t).verdict = "failed" ↔
      (status t).completionTime = none ∧ 0 < (status t).failed := by
    unfold JobStatus.verdict
    split
    · simp [*]
    · split <;> simp_all
  constructor
  · rintro ⟨hstable, -⟩ t htime hnext
    by_contra hpods
    have hverdict := (hfailed t).mpr ⟨htime, Nat.pos_of_ne_zero hpods⟩
    have hlater := hstable t (t + 1) (Nat.le_succ t) "failed" (.inr rfl) (by rw [hstate, hverdict])
    rw [hstate, (hcompleted (t + 1)).mpr hnext] at hlater
    simp at hlater
  · intro honce
    have hstays : ∀ {t u}, t ≤ u →
        (status t).verdict = "failed" → (status u).verdict = "failed" := by
      intro t u htu hverdict
      obtain ⟨htime, hpods⟩ := (hfailed t).mp hverdict
      exact (hfailed u).mpr ⟨hlife.completionTime_eq_none honce htu htime hpods,
        hpods.trans_le (hlife.failed_mono htu)⟩
    refine ⟨fun t u htu verdict hverdict ht => ?_, ?_⟩
    · rw [hstate] at ht ⊢
      obtain rfl := Except.ok.inj ht
      obtain hverdict | hverdict := hverdict
      · rw [hverdict, (hcompleted u).mpr
          (hlife.completionTime_mono htu ((hcompleted t).mp hverdict))]
      · rw [hverdict, hstays htu hverdict]
    · intro service i x s w hread e he hmark u hu
      have hpossible : ∀ k op w, (readsSnapshots data x).possible op
          (system.exec i op (s.env k) w).1 := by
        intro k op w
        cases op with
        | kubectlGet name => exact hread k
        | _ => trivial
      obtain ⟨t, ht⟩ :=
        system.may_of_mem_finish i (obeys_readsSnapshots data service x) hpossible he hmark
      rw [hstate] at ht hu
      have ht := Except.ok.inj ht
      have hu := Except.ok.inj hu
      rcases le_total t u with htu | hut
      · rw [hstays htu ht] at hu
        simp at hu
      · have hlate := hlife.completionTime_mono hut ((hcompleted u).mp hu)
        exact hlate ((hfailed t).mp ht).1

/-- A Job whose first pod fails and whose second succeeds. -/
def retriedJob (t : ℕ) : JobStatus where
  failed := if t = 0 then 0 else 1
  completionTime := if t ≤ 1 then none else some "2024-01-01T00:00:00Z"

/-- The snapshots of a Job, as kubectl prints them. -/
def snapshots (status : ℕ → JobStatus) (t : ℕ) : Json :=
  .obj [("status", .obj (("failed", .int (status t).failed) ::
    ((status t).completionTime.map fun time => ("completionTime", Json.str time)).toList))]

/-- They show its statuses. -/
theorem shows_snapshots (status : ℕ → JobStatus) (t : ℕ) :
    Shows (snapshots status t) (status t) := by
  refine @Shows.intro _ (("failed", .int (status t).failed) ::
    ((status t).completionTime.map fun time => ("completionTime", Json.str time)).toList) _
    rfl rfl ?_
  cases (status t).completionTime with
  | none => rfl
  | some time => rfl

/-- The manifest permits such a Job. -/
theorem jobLife_retriedJob : JobLife 1 retriedJob where
  failed_le t := by
    unfold retriedJob
    dsimp only
    split <;> simp
  succeeds t _ _ := by
    unfold retriedJob
    dsimp only
    split <;> simp
  stays t h := by
    unfold retriedJob at h ⊢
    dsimp only at h ⊢
    split at h
    · simp at h
    · rw [if_neg (by omega), if_neg ‹_›]
  nonempty t := by
    unfold retriedJob
    dsimp only
    split <;> simp

/-- A Job whose first pod succeeds. -/
def plainJob (t : ℕ) : JobStatus where
  completionTime := if t = 0 then none else some "2024-01-01T00:00:00Z"

/-- The verdicts on it are stable. -/
theorem verdicts_stable_iff_plainJob :
    VerdictsStable (snapshots plainJob) ∧ FailureIsFinal (snapshots plainJob) := by
  have hlife : JobLife 1 plainJob := by
    refine ⟨fun t => le_rfl, fun t _ _ => Nat.zero_le 1, fun t h => ?_, fun t => ?_⟩
    · unfold plainJob at h ⊢
      dsimp only at h ⊢
      split at h
      · simp at h
      · rw [if_neg (by omega), if_neg ‹_›]
    · unfold plainJob
      dsimp only
      split <;> simp
  exact (verdicts_stable_iff 1 plainJob (snapshots plainJob) hlife (shows_snapshots plainJob)).mpr
    fun _ _ _ => rfl

/-- The Job is failed after its first pod, and completed in the end. -/
theorem retriedJob_unstable :
    ¬∀ (backoffLimit : ℕ) (status : ℕ → JobStatus) (data : ℕ → Json), 1 ≤ backoffLimit →
      JobLife backoffLimit status → (∀ t, Shows (data t) (status t)) →
        VerdictsStable data ∧ FailureIsFinal data := by
  intro h
  have hstable := (h 1 retriedJob (snapshots retriedJob) le_rfl jobLife_retriedJob
    (shows_snapshots retriedJob)).1
  have hlater := hstable 1 2 (by decide) "failed" (.inr rfl) (by decide +kernel)
  exact absurd hlater (by decide +kernel)

/-- A reconciliation that sees the Job after its first pod fails the approval for good. -/
theorem retriedJob_not_failureIsFinal : ¬FailureIsFinal (snapshots retriedJob) := by
  intro h
  let row : ApprovalRequestRow := { newRow
    { approvalId := "a1", traceId := "t1", action := "create_training_job", reason := "drift"
      requestedAt := 0 } with status := .unknown }
  refine h .standard 0 "a1"
    { env := fun _ => { kubectlGet := .exited 0 (.ok (snapshots retriedJob 1)) } }
    { approvals := ⟨[row], by simp⟩ } (fun _ => ⟨1, rfl⟩) _
    (List.mem_of_getElem? (i := 3) rfl) rfl 2 (by decide +kernel)

end Life

end CreditScoringMlops.ControlPlane
