import CreditScoringMlops.ControlPlane.Contracts
import CreditScoringMlops.ControlPlane.RetryOnAbsence
import Mathlib.Data.Fintype.EquivFin
import Mathlib.Data.Set.Finite.List

/-!
# The column that holds the start of an execution

Revision 20260910_0003 adds the column `execution_started_at` and leaves it null in the rows that
are already there. Stale recovery takes an execution back only if this column is set, so an
execution that is under way during the upgrade can never be taken back.
-/

namespace CreditScoringMlops.Migrations

open Python Interaction ControlPlane ControlPlane.ApprovalStore

/-- A row of the approval table at revision 20260909_0002. -/
structure ApprovalRow0002 where
  approvalId : String
  traceId : String
  action : String
  reason : String
  requestedAt : Time
  status : ApprovalStatus
  executionPlan : Dict
  decidedAt : Option Time
  decidedBy : Option String
  decisionComment : Option String
  executionResult : Option Dict

/-- The approval table at revision 20260909_0002, with its unique index. -/
structure ApprovalTable0002 where
  rows : List ApprovalRow0002
  unique : (rows.map (·.approvalId)).Nodup

/-- `add_column` on one row: the new column is null. -/
def addExecutionStartedAt (row : ApprovalRow0002) : ApprovalRequestRow where
  approvalId := row.approvalId
  traceId := row.traceId
  action := row.action
  reason := row.reason
  requestedAt := row.requestedAt
  status := row.status
  executionPlan := row.executionPlan
  decidedAt := row.decidedAt
  decidedBy := row.decidedBy
  decisionComment := row.decisionComment
  executionStartedAt := none
  executionResult := row.executionResult

/-- `upgrade` of revision 20260910_0003. -/
def upgrade (t : ApprovalTable0002) : ApprovalTable where
  rows := t.rows.map addExecutionStartedAt
  unique := by
    rw [List.map_map]
    exact t.unique

/-- The upgrade keeps the statuses, and no execution has a start. -/
theorem lookup_upgrade {t : ApprovalTable0002} {x : String} {row : ApprovalRequestRow}
    (h : (upgrade t).lookup x = some row) :
    row.executionStartedAt = none ∧
      ∃ old ∈ t.rows, old.approvalId = x ∧ old.status = row.status := by
  obtain ⟨hmem, rfl⟩ := ApprovalTable.lookup_eq_some_iff.mp h
  obtain ⟨old, hold, rfl⟩ := List.mem_map.mp hmem
  exact ⟨rfl, old, hold, rfl, rfl⟩

/-- A row of the old table is found under its id after the upgrade. -/
theorem lookup_upgrade_of_mem {t : ApprovalTable0002} {row : ApprovalRow0002} (h : row ∈ t.rows) :
    (upgrade t).lookup row.approvalId = some (addExecutionStartedAt row) :=
  ApprovalTable.lookup_eq_some_iff.mpr ⟨List.mem_map_of_mem h, rfl⟩

/-- From the upgrade on and the lease of an execution later, the database is there, the audit
gets fresh identifiers, and kubectl finds no Job. -/
structure AbsentLater (service : ReconciliationService) (upgradedAt : Time) (w : World)
    (env : ℕ → Env) : Prop where
  later : ∀ k, upgradedAt + seconds service.executionLeaseSeconds.toNat ≤ (env k).now
  available : ∀ k, (env k).fault = none
  fresh : Function.Injective (fun k => (env k).uuid) ∧
    ∀ k, ∀ event ∈ w.audit, event.eventId ≠ (env k).uuid
  absent : ∀ k, ∃ returncode stdout, (env k).kubectlGet = .exited returncode stdout ∧ returncode ≠ 0

/-- Every execution that is under way in a world can be taken back later, if its Job is absent. -/
def ExecutionsRecoverable (service : ReconciliationService) (upgradedAt : Time) (w : World) : Prop :=
  ∀ x, statusOf w.approvals x = some .executing → ∀ i env, AbsentLater service upgradedAt w env →
    statusOf (system.finish i { env := env } 0 w (service.reconcile x)).world.approvals x =
      some .unknown

/-! ## An execution without a start -/

/-- Nobody else is there, and every status check finds no Job. -/
def absentJobs : Contract Op Op.Reply Env World where
  rely := Eq
  given e := ∃ returncode stdout, e.env.kubectlGet = .exited returncode stdout ∧ returncode ≠ 0

section NotStarted

variable {i : ℕ} {h : List LogEntry} {w : World} {x : String} {row : ApprovalRequestRow}
  {service : ReconciliationService}

/-- A store call that leaves the row of an approval alone wherever it returns. -/
theorem absentJobs_store {op : StoreOp} {Q : List LogEntry → World → op.Result → Prop}
    (hrow : w.approvals.lookup x = some row)
    (hok : ∀ h w' now a, perform now w.approvals op = .ok (a, w'.approvals) → Q h w' a) :
    system.Ensures i absentJobs Q (fun _ w _ => w.approvals.lookup x = some row) h w
      (store op) := by
  refine ensures_store op trivial fun w' env hrely _ =>
    ⟨trivial, fun a ha => ?_, fun exc hexc => ?_⟩
  · obtain rfl : w = w' := hrely
    exact hok _ _ _ a (exec_store_ok ha)
  · obtain rfl : w = w' := hrely
    rw [(exec_store_error hexc).1]
    exact hrow

/-- An audit record leaves the row alone. -/
theorem absentJobs_record {event : AuditRecord} {Q : List LogEntry → World → AuditEvent → Prop}
    (hrow : w.approvals.lookup x = some row)
    (hok : ∀ h w' a, w'.approvals.lookup x = some row → Q h w' a) :
    system.Ensures i absentJobs Q (fun _ w _ => w.approvals.lookup x = some row) h w
      (record event) := by
  have hsame (w' : World) (env : Env) (hrely : w = w') :
      (exec i (.record event) env w').2.approvals.lookup x = some row := by
    rw [exec_approvals (by simp), ← hrely]
    exact hrow
  exact ensures_record event trivial fun w' env hrely _ =>
    ⟨trivial, fun a _ => hok _ _ a (hsame w' env hrely), fun _ _ => hsame w' env hrely⟩

variable (service) in
/-- `reconcile` leaves an executing row without a start as it is. -/
theorem reconcile_keeps_notStarted (hrow : w.approvals.lookup x = some row)
    (hstatus : row.status = .executing) (hstarted : row.executionStartedAt = none) :
    system.Ensures i absentJobs (fun _ w _ => w.approvals.lookup x = some row)
      (fun _ w _ => w.approvals.lookup x = some row) h w (service.reconcile x) := by
  unfold ReconciliationService.reconcile
  rw [Machine.ensures_bind]
  refine absentJobs_store hrow fun _ w₁ now found hget => ?_
  obtain ⟨rfl, hw₁⟩ := Prod.mk.inj (Except.ok.inj hget)
  have hrow₁ : w₁.approvals.lookup x = some row := hw₁ ▸ hrow
  have hopen : ¬(row.toSchema.status ≠ .unknown ∧ row.toSchema.status ≠ .executing) := by
    simp [ApprovalRequestRow.toSchema, hstatus]
  simp only [ApprovalStore.get, hrow, Option.map_some, if_neg hopen]
  rw [Machine.ensures_bind]
  refine absentJobs_record hrow₁ fun _ w₂ _ hrow₂ => ?_
  unfold ReconciliationService.reconcileUncertain
  rw [Machine.ensures_bind]
  refine ensures_getTrainingJobStatus _ _ trivial (fun _ _ => hrow₂) fun _ w₃ env hrely hgiven => ?_
  obtain rfl : w₂ = w₃ := hrely
  obtain ⟨returncode, stdout, hanswer, hcode⟩ := hgiven
  have hanswer : env.kubectlGet = .exited returncode stdout := hanswer
  rw [hanswer, KubernetesExecutor.classify_exited_of_ne_zero hcode]
  refine ⟨trivial, fun result hresult => ?_, fun exc hexc => by cases hexc⟩
  obtain rfl := Except.ok.inj hresult
  rw [Machine.ensures_bind]
  unfold ReconciliationService.recover
  have hexecuting : (decide (row.toSchema.status = .executing) && Dict.isStrAt
      [("exists", Json.bool false), ("status", Json.str "absent")] "status" "absent") = true := by
    simp only [ApprovalRequestRow.toSchema, hstatus]
    decide
  rw [if_neg (by decide), if_neg (by decide), if_pos hexecuting, Machine.ensures_bind]
  refine absentJobs_store hrow₂ fun _ w₄ now reply hreply => ?_
  have hnothing : ApprovalStore.recoverStaleExecution now _ _ _ = _ :=
    recoverStaleExecution_of_not_started hrow₂ service.positive (.inr hstarted)
  obtain ⟨rfl, hw₄⟩ := Prod.mk.inj (Except.ok.inj (hnothing.symm.trans hreply))
  have hrow₄ : w₄.approvals.lookup x = some row := hw₄ ▸ hrow₂
  refine ⟨trivial, (Machine.ensures_bind _ _).mpr ?_⟩
  exact absentJobs_record hrow₄ fun _ _ _ hrow => ⟨trivial, hrow⟩

end NotStarted

/-- There are identifiers that have not been used. -/
theorem exists_fresh (used : List String) :
    ∃ fresh : ℕ → String, Function.Injective fresh ∧ ∀ k, fresh k ∉ used := by
  have hinfinite : Infinite String := Infinite.of_injective
    (fun n : ℕ => String.ofList (List.replicate n 'e')) fun m n hmn => by
      simpa using congrArg (fun s => s.toList.length) hmn
  obtain ⟨fresh⟩ : Nonempty (ℕ ↪ {s : String | s ∉ used}) :=
    ⟨((List.finite_toSet used).infinite_compl).natEmbedding _⟩
  exact ⟨fun k => fresh k, fun m n hmn => fresh.injective (Subtype.ext hmn), fun k => (fresh k).2⟩

/-- Kubernetes finds no Job for any approval from the upgrade on. -/
theorem exists_absentLater (service : ReconciliationService) (upgradedAt : Time) (w : World) :
    ∃ env, AbsentLater service upgradedAt w env := by
  obtain ⟨fresh, hinjective, hfresh⟩ := exists_fresh (w.audit.map (·.eventId))
  refine ⟨fun k => { now := upgradedAt + seconds service.executionLeaseSeconds.toNat
                     uuid := fresh k, kubectlGet := .exited 1 (.error "") }, fun _ => le_rfl,
    fun _ => rfl, ⟨hinjective, fun k event hevent (heq : event.eventId = fresh k) => ?_⟩,
    fun _ => ⟨1, _, rfl, by decide⟩⟩
  exact hfresh k (heq ▸ List.mem_map_of_mem hevent)

/-- After the upgrade, every execution can be taken back exactly if none was under way. -/
theorem upgrade_recoverable_iff (service : ReconciliationService) (upgradedAt : Time) (w : World)
    (t : ApprovalTable0002) :
    ExecutionsRecoverable service upgradedAt { w with approvals := upgrade t } ↔
      ∀ row ∈ t.rows, row.status ≠ .executing := by
  refine ⟨fun hall row hrow hstatus => ?_, fun hnone x hx => ?_⟩
  · obtain ⟨env, henv⟩ := exists_absentLater service upgradedAt { w with approvals := upgrade t }
    have hlookup := lookup_upgrade_of_mem hrow
    have hexecuting : statusOf (upgrade t) row.approvalId = some .executing := by
      rw [statusOf, hlookup, Option.map_some, ← hstatus]
      rfl
    have hunknown := hall row.approvalId hexecuting 0 env henv
    have hkeeps := (reconcile_keeps_notStarted service (i := 0) (h := [])
      (w := { w with approvals := upgrade t }) hlookup hstatus rfl).finish (s := { env := env })
      (k := 0) (fun _ _ => rfl) fun e he => by
        obtain ⟨n, hn⟩ := Machine.env_of_mem_finish _ _ he
        change ∃ returncode stdout, e.env.kubectlGet = .exited returncode stdout ∧ returncode ≠ 0
        rw [hn]
        exact henv.absent n
    have hstays : (system.finish 0 { env := env } 0 { w with approvals := upgrade t }
        (service.reconcile row.approvalId)).world.approvals.lookup row.approvalId =
          some (addExecutionStartedAt row) := by
      unfold Ended.Meets at hkeeps
      split at hkeeps <;> exact hkeeps
    rw [statusOf, hstays, Option.map_some] at hunknown
    cases hstatus.symm.trans (Option.some.inj hunknown)
  · obtain ⟨row, hrow, hstatus⟩ := Option.map_eq_some_iff.mp hx
    obtain ⟨-, old, hold, -, hsame⟩ := lookup_upgrade hrow
    exact absurd (hsame.trans hstatus) (hnone old hold)

/-- One execution is under way. -/
def underWay : ApprovalTable0002 where
  rows := [{ approvalId := "a1", traceId := "a1", action := "create_training_job", reason := "drift"
             requestedAt := 1, status := .executing, executionPlan := [], decidedAt := some 2
             decidedBy := some "ops", decisionComment := none, executionResult := none }]
  unique := by decide

/-- A day after the upgrade it is still executing, although its Job is absent. -/
theorem underWay_not_recoverable :
    let w : World := { approvals := upgrade underWay }
    let env (k : ℕ) : Env := { now := seconds 86400, uuid := String.ofList (List.replicate k 'e')
                               kubectlGet := .exited 1 (.error "") }
    AbsentLater .standard 0 w env ∧ statusOf w.approvals "a1" = some .executing ∧
      statusOf (system.finish 0 { env := env } 0 w
        (ReconciliationService.standard.reconcile "a1")).world.approvals "a1" = some .executing ∧
          ¬ExecutionsRecoverable .standard 0 w := by
  intro w env
  have habsent : AbsentLater .standard 0 w env :=
    ⟨fun _ => show 0 + seconds 900 ≤ seconds 86400 by decide, fun _ => rfl, ⟨fun m n hmn => by
      simpa [env] using congrArg (fun s => s.toList.length) hmn, fun _ _ hevent => by cases hevent⟩,
      fun _ => ⟨1, _, rfl, by decide⟩⟩
  have hstays : statusOf (system.finish 0 { env := env } 0 w
      (ReconciliationService.standard.reconcile "a1")).world.approvals "a1" = some .executing := by
    decide +kernel
  refine ⟨habsent, rfl, hstays, fun hall => ?_⟩
  cases hstays.symm.trans (hall "a1" rfl 0 env habsent)

end CreditScoringMlops.Migrations
