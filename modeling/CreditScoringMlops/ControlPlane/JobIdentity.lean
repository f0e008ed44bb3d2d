import CreditScoringMlops.ControlPlane.RecordedResult

/-!
# The identity of a Job

An apply puts an identifier into lower case and strips it before it names the Job after it. The
recoveries name the Job after the identifier as it is. The two names are one exactly for the
identifiers that are written in that form already, and only among these is the name unique.
-/

namespace CreditScoringMlops.ControlPlane

open Python Interaction Program ReconciliationService

/-- What `_job_name` makes of an identifier before it checks it. -/
def normalForm (id : String) : String := String.ofList (strip (lower id.toList))

/-- A Job has one valid name: apply creates it, and both recoveries ask for it. -/
structure OneJobName (service : ReconciliationService) (id name : String) : Prop where
  created : (service.executor.applyTrainingJob true (some id)).Uses fun op =>
    ∀ jobName manifest, op = .kubectlApply jobName manifest → jobName = name
  queried : trainingJobName id = name
  reconcile : (service.reconcile id).Uses fun op => ∀ jobName, op = .kubectlGet jobName →
    jobName = name
  retry : (service.retryIfAbsent id).Uses fun op => ∀ jobName, op = .kubectlGet jobName →
    jobName = name
  valid : KubernetesExecutor.validateJobName name = .ok ()

/-- The name of the Job of an accepted identifier. -/
theorem jobName_eq_ok_iff {id name : String} :
    KubernetesExecutor.jobName id = .ok name ↔
      KubernetesExecutor.matchesJobId (normalForm id).toList ∧
        name = trainingJobName (normalForm id) := by
  have hname : String.ofList (KubernetesExecutor.jobNamePrefix ++ strip (lower id.toList)) =
      trainingJobName (normalForm id) := by
    rw [String.ofList_append]
    rfl
  simp only [KubernetesExecutor.jobName, hname]
  rw [normalForm, String.toList_ofList]
  by_cases h : KubernetesExecutor.matchesJobId (strip (lower id.toList))
  · rw [if_pos h]
    exact ⟨fun hok => ⟨h, (Except.ok.inj hok).symm⟩, fun hname => by rw [hname.2]⟩
  · rw [if_neg h]
    exact ⟨fun hok => (by cases hok), fun hname => absurd hname.1 h⟩

/-- A Job identifier makes a valid Job name. -/
theorem validateJobName_trainingJobName {id : String}
    (h : KubernetesExecutor.matchesJobId id.toList) :
    KubernetesExecutor.validateJobName (trainingJobName id) = .ok () := by
  refine if_pos ?_
  have htext : (trainingJobName id).toList = KubernetesExecutor.jobNamePrefix ++ id.toList :=
    String.toList_append
  simp [KubernetesExecutor.matchesJobName, htext, h]

/-- The Job of an accepted identifier has one name exactly if the identifier is in normal form. -/
theorem oneJobName_iff (service : ReconciliationService) {id name : String}
    (h : KubernetesExecutor.jobName id = .ok name) :
    OneJobName service id name ↔ normalForm id = id := by
  obtain ⟨hmatches, hname⟩ := jobName_eq_ok_iff.mp h
  refine ⟨fun hone => (trainingJobName_injective (hone.queried.trans hname)).symm, fun hid => ?_⟩
  have hqueried : trainingJobName id = name := by rw [hname, hid]
  refine ⟨?_, hqueried, ?_, ?_, ?_⟩
  · refine (obeys_applyTrainingJob_applies service.executor true (some id)).uses.weaken ?_
    rintro op hop jobName manifest rfl
    exact Except.ok.inj ((show KubernetesExecutor.jobName id = .ok jobName from hop).symm.trans h)
  · refine (reconcile_uses service id).weaken ?_
    rintro op hop jobName rfl
    exact (show jobName = trainingJobName id from hop).trans hqueried
  · refine (retryIfAbsent_uses service id).weaken ?_
    rintro op hop jobName rfl
    exact (show jobName = trainingJobName id from hop).trans hqueried
  · rw [hname]
    exact validateJobName_trainingJobName hmatches

/-- A Job identifier is in normal form. -/
theorem normalForm_eq_self {id : String} (h : KubernetesExecutor.matchesJobId id.toList) :
    normalForm id = id := by
  have hall : ∀ c ∈ id.toList, isLowerAlnumDash c := by
    unfold KubernetesExecutor.matchesJobId at h
    simp only [Bool.and_eq_true, List.all_eq_true] at h
    exact h.1.1.2
  rw [normalForm, strip_lower_eq_self hall, String.ofList_toList]

/-- The Job of an approval whose identifier is a UUID has one name. -/
theorem oneJobName_of_isUuid (service : ReconciliationService) {id : String}
    (h : isUuid id.toList) : OneJobName service id (trainingJobName id) := by
  have hmatches := KubernetesExecutor.matchesJobId_of_isUuid h
  have hid := normalForm_eq_self hmatches
  have hname : KubernetesExecutor.jobName id = .ok (trainingJobName id) :=
    jobName_eq_ok_iff.mpr ⟨by rwa [hid], by rw [hid]⟩
  exact (oneJobName_iff service hname).mpr hid

/-- The Jobs of two accepted identifiers have one name each, and different ones if the identifiers
differ, exactly if both identifiers are in normal form. -/
theorem job_identity_iff (service : ReconciliationService) (a b nameA nameB : String)
    (ha : KubernetesExecutor.jobName a = .ok nameA)
    (hb : KubernetesExecutor.jobName b = .ok nameB) :
    (OneJobName service a nameA ∧ OneJobName service b nameB ∧ (a ≠ b → nameA ≠ nameB)) ↔
      normalForm a = a ∧ normalForm b = b := by
  rw [oneJobName_iff service ha, oneJobName_iff service hb, ← and_assoc]
  refine and_iff_left_of_imp fun ⟨hna, hnb⟩ hne heq => hne ?_
  obtain ⟨-, hnameA⟩ := jobName_eq_ok_iff.mp ha
  obtain ⟨-, hnameB⟩ := jobName_eq_ok_iff.mp hb
  rw [← hna, ← hnb]
  exact trainingJobName_injective (hnameA.symm.trans (heq.trans hnameB))

/-- Two identifiers in normal form. -/
theorem job_identity_iff_two :
    OneJobName .standard "a1" "credit-training-a1" ∧
      OneJobName .standard "a2" "credit-training-a2" ∧
        ("a1" ≠ "a2" → "credit-training-a1" ≠ "credit-training-a2") :=
  (job_identity_iff .standard "a1" "a2" _ _ (by decide +kernel) (by decide +kernel)).mpr
    (by decide +kernel)

/-- The capital of `A1` is lost in the name of its Job, which is that of `a1`; the recoveries do
not ask for it. -/
theorem job_identity_fails :
    ¬∀ (service : ReconciliationService) (a b nameA nameB : String),
      KubernetesExecutor.jobName a = .ok nameA → KubernetesExecutor.jobName b = .ok nameB →
        OneJobName service a nameA ∧ OneJobName service b nameB ∧ (a ≠ b → nameA ≠ nameB) := by
  intro h
  have hone := (h .standard "A1" "a1" "credit-training-a1" "credit-training-a1"
    (by decide +kernel) (by decide +kernel)).1
  exact absurd hone.queried (by decide +kernel)

end CreditScoringMlops.ControlPlane
