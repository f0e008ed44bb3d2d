import CreditScoringMlops.ControlPlane.Effects

/-!
# The Kubernetes executor

`apply_training_job` and `get_training_job_status` with the two patterns for Job names and the
rewriting of the manifest. A regular expression of the source is the function that decides it.
-/

namespace CreditScoringMlops.ControlPlane

open Python Interaction

/-- The configuration of an executor. -/
structure KubernetesExecutor where
  manifestPath : String := "k8s/jobs/model-training-job.yaml"
  «namespace» : String := "ai-engineering"

namespace KubernetesExecutor

/-- `JOB_ID_RE`: 1 to 40 characters of `[a-z0-9-]`, the first and the last not a dash. -/
def matchesJobId (s : List Char) : Bool :=
  s.length ≤ 40 && s.all isLowerAlnumDash && s.head?.any isLowerAlnum && s.getLast?.any isLowerAlnum

/-- A UUID is a Job identifier. -/
theorem matchesJobId_of_isUuid {s : List Char} (h : isUuid s) : matchesJobId s := by
  have hlength : s.length = 36 := by simpa using (Bool.and_eq_true_iff.mp h).1
  have hhex {k : ℕ} (hk : k < s.length) (hdash : k ∉ [8, 13, 18, 23]) : isLowerAlnum s[k] := by
    have hchar := isUuid_getElem h hk
    rw [if_neg hdash] at hchar
    exact isLowerAlnum_of_isLowerHex hchar
  have hall : s.all isLowerAlnumDash := by
    refine List.all_eq_true.mpr fun c hc => ?_
    obtain ⟨k, hk, rfl⟩ := List.mem_iff_getElem.mp hc
    by_cases hdash : k ∈ [8, 13, 18, 23]
    · have hchar := isUuid_getElem h hk
      rw [if_pos hdash] at hchar
      simp [isLowerAlnumDash, hchar]
    · simp [isLowerAlnumDash, hhex hk hdash]
  have hfirst := hhex (k := 0) (by omega) (by decide)
  have hlast := hhex (k := 35) (by omega) (by decide)
  have hhead : s.head? = some s[0] := by simp [List.head?_eq_getElem?]
  have hend : s.getLast? = some s[35] := by simp [List.getLast?_eq_getElem?, hlength]
  simp [matchesJobId, hlength, hall, hhead, hend, hfirst, hlast]

/-- The text in front of every Job name. -/
def jobNamePrefix : List Char := "credit-training-".toList

/-- `_job_name`. -/
def jobName (executionId : String) : Except PyExc String :=
  let safeId := strip (lower executionId.toList)
  if matchesJobId safeId then .ok (String.ofList (jobNamePrefix ++ safeId))
  else .error (.valueError
    "execution_id must be a DNS-1123-safe identifier of 1-40 lowercase characters")

/-- `JOB_NAME_RE`. -/
def matchesJobName (s : List Char) : Bool :=
  jobNamePrefix.isPrefixOf s && matchesJobId (s.drop jobNamePrefix.length)

/-- `_validate_job_name`. -/
def validateJobName (jobName : String) : Except PyExc Unit :=
  if matchesJobName jobName.toList then .ok ()
  else .error (.valueError "job_name must refer to an ai-engineering credit-training Job")

/-- `text` without a given prefix. -/
def dropPrefix? (lead text : List Char) : Option (List Char) :=
  if lead.isPrefixOf text then some (text.drop lead.length) else none

/-- The pattern `\s*name:\s*credit-model-training\s*$` at one position: what stands before the
literal, and what follows it. White space never begins `name:` or the literal, so each `\s*`
takes all of it; the last one ends at a line end if it contains one or nothing follows it. -/
def matchName (text : List Char) : Option (List Char × List Char) := do
  let indent := text.takeWhile isSpace
  let afterKey ← dropPrefix? "name:".toList (text.dropWhile isSpace)
  let gap := afterKey.takeWhile isSpace
  let rest ← dropPrefix? "credit-model-training".toList (afterKey.dropWhile isSpace)
  let trailing := rest.takeWhile isSpace
  if '\n' ∈ trailing ∨ rest.dropWhile isSpace = [] then
    return (indent ++ "name:".toList ++ gap, rest)
  else
    none

/-- Replace the literal of the first match, looking at line starts only. -/
def substitute (jobName : List Char) (lineStart : Bool) : List Char → Option (List Char)
  | [] => none
  | c :: text =>
    match if lineStart then matchName (c :: text) else none with
    | some (before, after) => some (before ++ jobName ++ after)
    | none => (substitute jobName (c == '\n') text).map (c :: ·)

/-- `_render_manifest`, from the text that `read_text` returns, with its newlines translated. -/
def renderManifest (executionId : String) : Handler String := do
  let manifest ← ofExcept ((← ask .readManifest).mapError SystemFailure.exc)
  let name ← ofExcept (jobName executionId)
  match substitute name.toList true manifest.toList with
  | some rendered => return String.ofList rendered
  | none =>
    raise (.valueError "Training manifest must contain metadata.name=credit-model-training")

/-- The result of an apply that was not made. -/
def notExecuted (reason : String) : Dict :=
  [("executed", .bool false), ("action", .str "create_training_job"), ("reason", .str reason)]

/-- The result of an accepted apply. -/
def executedResult (executor : KubernetesExecutor) (name executionId stdout : String) : Dict :=
  [("executed", .bool true), ("action", .str "create_training_job"),
    ("namespace", .str "ai-engineering"), ("job_name", .str name),
    ("manifest_path", .str executor.manifestPath), ("execution_id", .str executionId),
    ("stdout", .str (String.ofList (strip stdout.toList)))]

/-- The handlers of `apply_training_job` for the exceptions of its `try` block other than the two
of subprocess: a missing kubectl and a manifest that is gone by now raise the same one. -/
def onApplyError : PyExc → Handler Dict
  | .fileNotFoundError _ =>
    return notExecuted "kubectl is not installed or not available on PATH"
  | exc => raise exc

/-- The `try` statement of `apply_training_job`. -/
def runKubectlApply (executor : KubernetesExecutor) (name executionId : String) :
    Handler Dict := do
  let ended ← Program.attempt (do
    let manifest ← renderManifest executionId
    ask (.kubectlApply name manifest))
  match ended with
  | .ok .timeout =>
    raise (.kubernetesExecutionUnknown "kubectl timed out; execution outcome is unknown")
  | .ok .failed => return notExecuted "kubectl command failed"
  | .ok (.raised failure) => onApplyError failure.exc
  | .ok (.ok stdout) => return executor.executedResult name executionId stdout
  | .error exc => onApplyError exc

/-- The body of `apply_training_job`. -/
def applyBody (executor : KubernetesExecutor) (approved : Bool) (executionId : Option String) :
    Handler Dict := do
  if !approved then
    return notExecuted "Human approval is required"
  else if executor.namespace ≠ "ai-engineering" then
    raise (.permissionError "Training execution is restricted to ai-engineering namespace")
  else if executionId.getD "" = "" then
    raise (.valueError "execution_id is required for approved training execution")
  else if !(← ask .manifestExists) then
    raise (.fileNotFoundError ("Training manifest not found: " ++ executor.manifestPath))
  else
    let name ← ofExcept (jobName (executionId.getD ""))
    executor.runKubectlApply name (executionId.getD "")

/-- `apply_training_job`, with the marks around it. -/
def applyTrainingJob (executor : KubernetesExecutor) (approved : Bool)
    (executionId : Option String) : Handler Dict := do
  ask (.applyCalled approved executionId)
  let result ← (executor.applyBody approved executionId).attempt
  ask (.applyReturned executionId result)
  ofExcept result

/-- The comparison `value > 0` of a JSON value with a number. -/
def exceedsZero : Json → Except PyExc Bool
  | .int n => .ok (decide (0 < n))
  | .float x => .ok x.positive
  | .bool b => .ok b
  | _ => .error (.typeError "'>' not supported between these instances")

/-- `value.get`, which only a dictionary has. -/
def asDict : Json → Except PyExc Dict
  | .obj fields => .ok fields
  | _ => .error (.attributeError "object has no attribute 'get'")

/-- The state of a Job as its status object tells it. -/
def jobState (data : Json) : Except PyExc String := do
  let fields ← asDict data
  let status ← asDict ((fields.get? "status").getD (.obj []))
  if status.truthyAt "completionTime" then
    return "completed"
  if ← exceedsZero ((status.get? "failed").getD (.int 0)) then
    return "failed"
  return "running"

/-- What `get_training_job_status` makes of the end of kubectl. -/
def classify : KubectlGet → Except PyExc Dict
  | .timeout => .error (.kubernetesExecutionUnknown "kubectl status check timed out")
  | .raised (.fileNotFound _) => .ok [("exists", .bool false), ("status", .str "unknown"),
      ("error", .str "kubectl is not available")]
  | .raised failure => .error failure.exc
  | .exited returncode stdout =>
    if returncode ≠ 0 then .ok [("exists", .bool false), ("status", .str "absent")]
    else match stdout with
      | .error message => .error (.jsonDecodeError message)
      | .ok data => do
        let state ← jobState data
        return [("exists", .bool true), ("status", .str state), ("job", data)]

/-- A non-zero exit code is read as absence. -/
theorem classify_exited_of_ne_zero {returncode : ℤ} (h : returncode ≠ 0)
    (stdout : Except String Json) :
    classify (.exited returncode stdout) =
      .ok [("exists", .bool false), ("status", .str "absent")] := if_pos h

/-- On exit code 0 the output decides. -/
theorem classify_exited_zero (stdout : Except String Json) :
    classify (.exited 0 stdout) = (stdout.mapError .jsonDecodeError).bind fun data =>
      (jobState data).map fun state =>
        [("exists", .bool true), ("status", .str state), ("job", data)] := by
  cases stdout with
  | error message => rfl
  | ok data =>
    simp only [classify, ne_eq, not_true_eq_false, if_false, Except.mapError, Except.bind]
    cases jobState data <;> rfl

/-- `get_training_job_status`. -/
def getTrainingJobStatus (executor : KubernetesExecutor) (jobName : String) : Handler Dict := do
  if executor.namespace ≠ "ai-engineering" then
    raise (.permissionError
      "Training reconciliation is restricted to ai-engineering namespace")
  else
    ofExcept (validateJobName jobName)
    ofExcept (classify (← ask (.kubectlGet jobName)))

end KubernetesExecutor

end CreditScoringMlops.ControlPlane
