import CreditScoringMlops.ControlPlane.ApprovalStore

/-!
# What one store call can do

`RowChange` lists every change of a row that exists, with its guard; `RowStep` adds insertion
and no change at all. Every successful call is a `RowStep` for every approval id
(`perform_rowStep`), and the calls whose reply matters are characterised exactly. Nothing after
this file unfolds a transaction.
-/

namespace CreditScoringMlops.ControlPlane

open Python

namespace ApprovalStore

/-- Everything a call can do to a row that exists. -/
inductive RowChange (now : Time) : StoreOp → ApprovalRequestRow → ApprovalRequestRow → Prop where
  | decide {row : ApprovalRequestRow} (decision : ApprovalDecision) (h : row.status = .pending) :
      RowChange now (.decide decision) row { row with
        status := if decision.approved then .approved else .rejected
        decidedAt := some decision.decidedAt
        decidedBy := some decision.decidedBy
        decisionComment := decision.comment }
  | execute {row : ApprovalRequestRow} {op : StoreOp} (id : String)
      (hop : op = .markExecuting id ∨ op = .claimExecution id) (h : row.status = .approved) :
      RowChange now op row { row with status := .executing, executionStartedAt := some now }
  | unknown {row : ApprovalRequestRow} (id : String) (result : Dict) (h : row.status = .executing) :
      RowChange now (.markUnknown id result) row
        { row with status := .unknown, executionResult := some result }
  | complete {row : ApprovalRequestRow} (id : String) (result : Dict)
      (h : row.status = .executing ∨ row.status = .unknown) :
      RowChange now (.markCompleted id result) row
        { row with status := .completed, executionResult := some result }
  | fail {row : ApprovalRequestRow} (id : String) (result : Dict)
      (h : row.status = .executing ∨ row.status = .unknown) :
      RowChange now (.markFailed id result) row
        { row with status := .failed, executionResult := some result }
  | retry {row : ApprovalRequestRow} {op : StoreOp} (id : String)
      (hop : op = .markRetryExecuting id ∨ op = .claimRetryExecution id)
      (h : row.status = .unknown) :
      RowChange now op row { row with status := .executing, executionStartedAt := some now }
  | recover {row : ApprovalRequestRow} (id : String) (s : ℤ) {startedAt : Time}
      (h : row.status = .executing) (hstarted : row.executionStartedAt = some startedAt)
      (hpos : 1 ≤ s) (hstale : startedAt + seconds s.toNat ≤ now) :
      RowChange now (.recoverStaleExecution id s) row
        { row with status := .unknown, executionResult := some (recoveredResult startedAt) }

/-- What a call can do to the row of one approval id: leave it, insert it, or change it. -/
inductive RowStep (now : Time) (op : StoreOp) (id : String) :
    Option ApprovalRequestRow → Option ApprovalRequestRow → Prop where
  | stay (row : Option ApprovalRequestRow) : RowStep now op id row row
  | insert (request : ApprovalRequest) (hop : op = .create request)
      (hid : request.approvalId = id) (hstatus : request.status = .pending) :
      RowStep now op id none (some (newRow request))
  | change {row row' : ApprovalRequestRow} (hid : row.approvalId = id)
      (htarget : op.target = some id) (h : RowChange now op row row') :
      RowStep now op id (some row) (some row')

/-- A change keeps the columns written at creation. -/
theorem RowChange.frame {now : Time} {op : StoreOp} {row row' : ApprovalRequestRow}
    (h : RowChange now op row row') : row'.requestColumns = row.requestColumns := by
  cases h <;> rfl

/-- Writing back a changed row is a step for every approval id. -/
theorem rowStep_write {now : Time} {t : ApprovalTable} {op : StoreOp}
    {row row' : ApprovalRequestRow} {target : String} (hrow : t.lookup target = some row)
    (htarget : op.target = some target) (h : RowChange now op row row') (id : String) :
    RowStep now op id (t.lookup id) ((t.write row').lookup id) := by
  have hid := ApprovalTable.lookup_id hrow
  have hid' : row'.approvalId = target := (congrArg Prod.fst h.frame).trans hid
  rw [ApprovalTable.lookup_write, hid']
  by_cases heq : target = id
  · subst heq
    rw [hrow, Option.map_some, if_pos rfl]
    exact .change hid htarget h
  · have hstay : RowStep now op id (t.lookup id) (t.lookup id) := .stay _
    simpa [heq] using hstay

/-! ## The calls on a row that exists -/

section Calls

variable {t : ApprovalTable} {row : ApprovalRequestRow} {id : String}

/-- Locking finds the row. -/
theorem getLocked_of_lookup (h : t.lookup id = some row) : getLocked t id = .ok row := by
  simp [getLocked, h]

/-- Locking raises when there is no row. -/
theorem getLocked_of_lookup_none (h : t.lookup id = none) :
    getLocked t id = .error (.keyError ("Approval not found: " ++ id)) := by
  simp [getLocked, h]

/-- A call that neither creates nor only reads succeeds on a row that exists. -/
theorem lookup_of_perform {now : Time} {op : StoreOp} {reply : op.Result}
    {t' : ApprovalTable} (htarget : op.target = some id) (hcreate : ∀ request, op ≠ .create request)
    (hget : op ≠ .get id) (hok : perform now t op = .ok (reply, t')) :
    ∃ row, t.lookup id = some row := by
  cases hrow : t.lookup id with
  | some row => exact ⟨row, rfl⟩
  | none =>
    have hlock := getLocked_of_lookup_none hrow
    cases op with
    | create request => exact absurd rfl (hcreate request)
    | get id' =>
      cases htarget
      exact absurd rfl hget
    | listReconcilable limit => cases htarget
    | recoverStaleExecution id' s =>
      cases htarget
      simp only [perform, recoverStaleExecution, hlock] at hok
      split at hok <;> cases hok
    | _ =>
      cases htarget
      simp only [perform, decide, markExecuting, claimExecution, markUnknown, markCompleted,
        markFailed, markRetryExecuting, claimRetryExecution, hlock] at hok
      cases hok

/-- The error of a transition that the table does not have. -/
def badTransition (current target : ApprovalStatus) : PyExc :=
  .invalidApprovalTransition
    ("Invalid approval transition: " ++ current.value ++ " -> " ++ target.value)

/-- A decision is accepted on a pending row only. -/
theorem decide_of_lookup {d : ApprovalDecision} (h : t.lookup d.approvalId = some row) :
    decide t d =
      if row.status = .pending then
        let row' := { row with
          status := if d.approved then ApprovalStatus.approved else .rejected
          decidedAt := some d.decidedAt
          decidedBy := some d.decidedBy
          decisionComment := d.comment }
        .ok (row'.toSchema, t.write row')
      else .error (badTransition row.status (if d.approved then .approved else .rejected)) := by
  unfold decide
  rw [getLocked_of_lookup h]
  obtain ⟨_, approved, _, _, _⟩ := d
  obtain ⟨_, _, _, _, _, status, _, _, _, _, _, _⟩ := row
  cases status <;> cases approved <;> rfl

/-- A decision that succeeds found a pending row. -/
theorem decide_ok {d : ApprovalDecision} {a : ApprovalRequest} {t' : ApprovalTable}
    (h : decide t d = .ok (a, t')) :
    ∃ row, t.lookup d.approvalId = some row ∧ row.status = .pending ∧ t' = t.write { row with
      status := if d.approved then .approved else .rejected
      decidedAt := some d.decidedAt
      decidedBy := some d.decidedBy
      decisionComment := d.comment } := by
  cases hrow : t.lookup d.approvalId with
  | none =>
    rw [decide, getLocked_of_lookup_none hrow] at h
    cases h
  | some row =>
    rw [decide_of_lookup hrow] at h
    split at h <;> cases h
    exact ⟨row, rfl, ‹_›, rfl⟩

/-- An execution starts on an approved row only. -/
theorem markExecuting_of_lookup {now : Time} (h : t.lookup id = some row) :
    markExecuting now t id =
      if row.status = .approved then
        let row' := { row with status := .executing, executionStartedAt := some now }
        .ok (row'.toSchema, t.write row')
      else .error (badTransition row.status .executing) := by
  unfold markExecuting
  rw [getLocked_of_lookup h]
  obtain ⟨_, _, _, _, _, status, _, _, _, _, _, _⟩ := row
  cases status <;> rfl

/-- The first claim is won on an approved row and lost on an executing one. -/
theorem claimExecution_of_lookup {now : Time} (h : t.lookup id = some row) :
    claimExecution now t id =
      if row.status = .executing then .ok ((row.toSchema, false), t)
      else if row.status = .approved then
        let row' := { row with status := .executing, executionStartedAt := some now }
        .ok ((row'.toSchema, true), t.write row')
      else .error (badTransition row.status .executing) := by
  unfold claimExecution
  rw [getLocked_of_lookup h]
  obtain ⟨_, _, _, _, _, status, _, _, _, _, _, _⟩ := row
  cases status <;> rfl

/-- An unknown outcome is recorded on an executing row only. -/
theorem markUnknown_of_lookup {result : Dict} (h : t.lookup id = some row) :
    markUnknown t id result =
      if row.status = .executing then
        let row' := { row with status := .unknown, executionResult := some result }
        .ok (row'.toSchema, t.write row')
      else .error (badTransition row.status .unknown) := by
  unfold markUnknown
  rw [getLocked_of_lookup h]
  obtain ⟨_, _, _, _, _, status, _, _, _, _, _, _⟩ := row
  cases status <;> rfl

/-- Completion is recorded on an executing or unknown row, and ignored on a completed one. -/
theorem markCompleted_of_lookup {result : Dict} (h : t.lookup id = some row) :
    markCompleted t id result =
      if row.status = .completed then .ok (row.toSchema, t)
      else if row.status = .executing ∨ row.status = .unknown then
        let row' := { row with status := .completed, executionResult := some result }
        .ok (row'.toSchema, t.write row')
      else .error (badTransition row.status .completed) := by
  unfold markCompleted
  rw [getLocked_of_lookup h]
  obtain ⟨_, _, _, _, _, status, _, _, _, _, _, _⟩ := row
  cases status <;> rfl

/-- Failure is recorded on an executing or unknown row, and ignored on a failed one. -/
theorem markFailed_of_lookup {result : Dict} (h : t.lookup id = some row) :
    markFailed t id result =
      if row.status = .failed then .ok (row.toSchema, t)
      else if row.status = .executing ∨ row.status = .unknown then
        let row' := { row with status := .failed, executionResult := some result }
        .ok (row'.toSchema, t.write row')
      else .error (badTransition row.status .failed) := by
  unfold markFailed
  rw [getLocked_of_lookup h]
  obtain ⟨_, _, _, _, _, status, _, _, _, _, _, _⟩ := row
  cases status <;> rfl

/-- An open execution is completed. -/
theorem markCompleted_of_open {result : Dict} (h : t.lookup id = some row)
    (hopen : row.status = .executing ∨ row.status = .unknown) :
    markCompleted t id result =
      let row' := { row with status := .completed, executionResult := some result }
      .ok (row'.toSchema, t.write row') := by
  rw [markCompleted_of_lookup h, if_neg (by rcases hopen with h | h <;> simp [h]), if_pos hopen]

/-- An open execution fails. -/
theorem markFailed_of_open {result : Dict} (h : t.lookup id = some row)
    (hopen : row.status = .executing ∨ row.status = .unknown) :
    markFailed t id result =
      let row' := { row with status := .failed, executionResult := some result }
      .ok (row'.toSchema, t.write row') := by
  rw [markFailed_of_lookup h, if_neg (by rcases hopen with h | h <;> simp [h]), if_pos hopen]

/-- A retry starts on an unknown row only. -/
theorem markRetryExecuting_of_lookup {now : Time} (h : t.lookup id = some row) :
    markRetryExecuting now t id =
      if row.status = .unknown then
        let row' := { row with status := .executing, executionStartedAt := some now }
        .ok (row'.toSchema, t.write row')
      else .error (.invalidApprovalTransition
        ("Retry execution requires unknown state, got " ++ row.status.value)) := by
  unfold markRetryExecuting
  rw [getLocked_of_lookup h]
  obtain ⟨_, _, _, _, _, status, _, _, _, _, _, _⟩ := row
  cases status <;> rfl

/-- The retry claim is won on an unknown row and lost on any other. -/
theorem claimRetryExecution_of_lookup {now : Time} (h : t.lookup id = some row) :
    claimRetryExecution now t id =
      if row.status = .unknown then
        let row' := { row with status := .executing, executionStartedAt := some now }
        .ok ((row'.toSchema, true), t.write row')
      else .ok ((row.toSchema, false), t) := by
  unfold claimRetryExecution
  rw [getLocked_of_lookup h]
  obtain ⟨_, _, _, _, _, status, _, _, _, _, _, _⟩ := row
  cases status <;> rfl

/-- The first claim is won on an approved row only. -/
theorem claimExecution_won {now : Time} {t' : ApprovalTable} {a : ApprovalRequest}
    (h : claimExecution now t id = .ok ((a, true), t')) :
    ∃ row, t.lookup id = some row ∧ row.status = .approved ∧
      t' = t.write { row with status := .executing, executionStartedAt := some now } := by
  cases hrow : t.lookup id with
  | none =>
    rw [claimExecution, getLocked_of_lookup_none hrow] at h
    cases h
  | some row =>
    rw [claimExecution_of_lookup hrow] at h
    split at h
    · cases h
    · split at h <;> cases h
      exact ⟨row, rfl, ‹_›, rfl⟩

/-- The retry claim is won on an unknown row only. -/
theorem claimRetryExecution_won {now : Time} {t' : ApprovalTable} {a : ApprovalRequest}
    (h : claimRetryExecution now t id = .ok ((a, true), t')) :
    ∃ row, t.lookup id = some row ∧ row.status = .unknown ∧
      t' = t.write { row with status := .executing, executionStartedAt := some now } := by
  cases hrow : t.lookup id with
  | none =>
    rw [claimRetryExecution, getLocked_of_lookup_none hrow] at h
    cases h
  | some row =>
    rw [claimRetryExecution_of_lookup hrow] at h
    split at h <;> cases h
    exact ⟨row, rfl, ‹_›, rfl⟩

/-- A claim that is lost changes nothing. -/
theorem claimExecution_lost {now : Time} {t' : ApprovalTable} {a : ApprovalRequest}
    (h : claimExecution now t id = .ok ((a, false), t')) : t' = t := by
  have hperform : perform now t (.claimExecution id) = .ok ((a, false), t') := h
  obtain ⟨row, hrow⟩ := lookup_of_perform rfl (by simp) (by simp) hperform
  rw [claimExecution_of_lookup hrow] at h
  split at h
  · cases h
    rfl
  · split at h <;> cases h

/-- Nor does a retry claim that is lost. -/
theorem claimRetryExecution_lost {now : Time} {t' : ApprovalTable} {a : ApprovalRequest}
    (h : claimRetryExecution now t id = .ok ((a, false), t')) : t' = t := by
  have hperform : perform now t (.claimRetryExecution id) = .ok ((a, false), t') := h
  obtain ⟨row, hrow⟩ := lookup_of_perform rfl (by simp) (by simp) hperform
  rw [claimRetryExecution_of_lookup hrow] at h
  split at h <;> cases h
  rfl

/-- A lease that has run out is taken back. -/
theorem recoverStaleExecution_of_stale {now startedAt : Time} {s : ℤ} (h : t.lookup id = some row)
    (hs : 1 ≤ s) (hstatus : row.status = .executing)
    (hstarted : row.executionStartedAt = some startedAt)
    (hstale : startedAt + seconds s.toNat ≤ now) :
    recoverStaleExecution now t id s =
      let row' := { row with
        status := .unknown, executionResult := some (recoveredResult startedAt) }
      .ok ((row'.toSchema, true), t.write row') := by
  have hearly : ¬now < seconds s.toNat := not_lt.mpr ((Nat.le_add_left _ _).trans hstale)
  have hfresh : ¬startedAt > now - seconds s.toNat := not_lt.mpr (Nat.le_sub_of_add_le hstale)
  unfold recoverStaleExecution
  rw [if_neg (not_lt.mpr hs), getLocked_of_lookup h]
  simp only [bind, Except.bind, hstatus, hstarted, if_neg hearly, if_neg hfresh]
  rfl

/-- Nothing is taken back from a row that is not executing or has no start. -/
theorem recoverStaleExecution_of_not_started {now : Time} {s : ℤ} (h : t.lookup id = some row)
    (hs : 1 ≤ s) (hrow : row.status ≠ .executing ∨ row.executionStartedAt = none) :
    recoverStaleExecution now t id s = .ok ((row.toSchema, false), t) := by
  unfold recoverStaleExecution
  rw [if_neg (not_lt.mpr hs), getLocked_of_lookup h]
  simp only [bind, Except.bind]
  split
  · rename_i startedAt hstatus hstarted
    rcases hrow with hrow | hrow
    · exact absurd hstatus hrow
    · simp [hstarted] at hrow
  · rfl

/-- A lease is taken back only from an executing row whose lease has run out. -/
theorem recoverStaleExecution_ok {now : Time} {s : ℤ} {reply : ApprovalRequest × Bool}
    {t' : ApprovalTable} (h : t.lookup id = some row)
    (hok : recoverStaleExecution now t id s = .ok (reply, t')) :
    (reply = (row.toSchema, false) ∧ t' = t) ∨
      ∃ startedAt, 1 ≤ s ∧ row.status = .executing ∧ row.executionStartedAt = some startedAt ∧
        startedAt + seconds s.toNat ≤ now ∧
        let row' := { row with
          status := .unknown, executionResult := some (recoveredResult startedAt) }
        reply = (row'.toSchema, true) ∧ t' = t.write row' := by
  unfold recoverStaleExecution at hok
  split at hok
  · cases hok
  · rename_i hs
    rw [getLocked_of_lookup h] at hok
    simp only [bind, Except.bind] at hok
    split at hok
    · rename_i startedAt hstatus hstarted
      by_cases hearly : now < seconds s.toNat
      · rw [if_pos hearly] at hok
        cases hok
      · rw [if_neg hearly] at hok
        by_cases hfresh : startedAt > now - seconds s.toNat
        · rw [if_pos hfresh] at hok
          cases hok
          exact .inl ⟨rfl, rfl⟩
        · rw [if_neg hfresh] at hok
          cases hok
          exact .inr ⟨startedAt, not_lt.mp hs, hstatus, hstarted,
            Nat.add_le_of_le_sub (not_lt.mp hearly) (not_lt.mp hfresh), rfl, rfl⟩
    · cases hok
      exact .inl ⟨rfl, rfl⟩

/-- A call on a row that does not exist changes nothing, except that a new row may be created. -/
theorem perform_of_lookup_none {now : Time} {op : StoreOp} {reply : op.Result}
    {t' : ApprovalTable} (htarget : op.target = some id) (h : t.lookup id = none)
    (hcreate : ∀ request, op ≠ .create request) (hok : perform now t op = .ok (reply, t')) :
    t' = t := by
  by_cases hget : op = .get id
  · subst hget
    cases hok
    rfl
  · obtain ⟨row, hrow⟩ := lookup_of_perform htarget hcreate hget hok
    rw [h] at hrow
    cases hrow

/-- A call on a row that exists leaves the table alone or writes back one changed row. -/
theorem perform_of_lookup {now : Time} {op : StoreOp} {reply : op.Result} {t' : ApprovalTable}
    (htarget : op.target = some id) (h : t.lookup id = some row)
    (hcreate : ∀ request, op ≠ .create request) (hok : perform now t op = .ok (reply, t')) :
    t' = t ∨ ∃ row', RowChange now op row row' ∧ t' = t.write row' := by
  cases op with
  | create request => exact absurd rfl (hcreate request)
  | get id => cases hok; exact .inl rfl
  | listReconcilable limit => cases htarget
  | decide d =>
    cases htarget
    rw [perform, decide_of_lookup h] at hok
    split at hok <;> cases hok
    exact .inr ⟨_, .decide d ‹_›, rfl⟩
  | markExecuting id =>
    cases htarget
    rw [perform, markExecuting_of_lookup h] at hok
    split at hok <;> cases hok
    exact .inr ⟨_, .execute _ (.inl rfl) ‹_›, rfl⟩
  | claimExecution id =>
    cases htarget
    rw [perform, claimExecution_of_lookup h] at hok
    split at hok
    · cases hok; exact .inl rfl
    · split at hok <;> cases hok
      exact .inr ⟨_, .execute _ (.inr rfl) ‹_›, rfl⟩
  | markUnknown id result =>
    cases htarget
    rw [perform, markUnknown_of_lookup h] at hok
    split at hok <;> cases hok
    exact .inr ⟨_, .unknown _ result ‹_›, rfl⟩
  | markCompleted id result =>
    cases htarget
    rw [perform, markCompleted_of_lookup h] at hok
    split at hok
    · cases hok; exact .inl rfl
    · split at hok <;> cases hok
      exact .inr ⟨_, .complete _ result ‹_›, rfl⟩
  | markFailed id result =>
    cases htarget
    rw [perform, markFailed_of_lookup h] at hok
    split at hok
    · cases hok; exact .inl rfl
    · split at hok <;> cases hok
      exact .inr ⟨_, .fail _ result ‹_›, rfl⟩
  | markRetryExecuting id =>
    cases htarget
    rw [perform, markRetryExecuting_of_lookup h] at hok
    split at hok <;> cases hok
    exact .inr ⟨_, .retry _ (.inl rfl) ‹_›, rfl⟩
  | claimRetryExecution id =>
    cases htarget
    rw [perform, claimRetryExecution_of_lookup h] at hok
    split at hok <;> cases hok
    · exact .inr ⟨_, .retry _ (.inr rfl) ‹_›, rfl⟩
    · exact .inl rfl
  | recoverStaleExecution id s =>
    cases htarget
    obtain ⟨-, rfl⟩ | ⟨startedAt, hs, hstatus, hstarted, hstale, -, rfl⟩ :=
      recoverStaleExecution_ok h hok
    · exact .inl rfl
    · exact .inr ⟨_, .recover _ s hstatus hstarted hs hstale, rfl⟩

/-- The guard of a mark: the statuses in which it writes. -/
def markWrites (target current : ApprovalStatus) : Bool :=
  match target, current with
  | .unknown, .executing => true
  | .completed, .executing => true
  | .completed, .unknown => true
  | .failed, .executing => true
  | .failed, .unknown => true
  | _, _ => false

/-- The status in which a mark is ignored: its own, if that is terminal. -/
def markRepeats (target current : ApprovalStatus) : Bool :=
  match target, current with
  | .completed, .completed => true
  | .failed, .failed => true
  | _, _ => false

/-- A mark writes, is ignored or is refused, as the status of the row tells. -/
theorem mark_of_lookup (now : Time) {op : StoreOp} {target : ApprovalStatus}
    (hmarks : op.marks = some (id, target)) (h : t.lookup id = some row) :
    (markWrites target row.status ∧ ∃ a result, perform now t op =
      .ok (a, t.write { row with status := target, executionResult := some result })) ∨
    (markRepeats target row.status ∧ ∃ a, perform now t op = .ok (a, t)) ∨
    (¬markWrites target row.status ∧ ¬markRepeats target row.status ∧
      perform now t op = .error (badTransition row.status target)) := by
  cases op with
  | markUnknown id result =>
    cases hmarks
    rw [perform, markUnknown_of_lookup h]
    cases row.status
    case executing => exact .inl ⟨rfl, _, result, rfl⟩
    all_goals exact .inr (.inr ⟨by simp [markWrites], by simp [markRepeats], rfl⟩)
  | markCompleted id result =>
    cases hmarks
    rw [perform, markCompleted_of_lookup h]
    cases row.status
    case executing => exact .inl ⟨rfl, _, result, rfl⟩
    case unknown => exact .inl ⟨rfl, _, result, rfl⟩
    case completed => exact .inr (.inl ⟨rfl, _, rfl⟩)
    all_goals exact .inr (.inr ⟨by simp [markWrites], by simp [markRepeats], rfl⟩)
  | markFailed id result =>
    cases hmarks
    rw [perform, markFailed_of_lookup h]
    cases row.status
    case executing => exact .inl ⟨rfl, _, result, rfl⟩
    case unknown => exact .inl ⟨rfl, _, result, rfl⟩
    case failed => exact .inr (.inl ⟨rfl, _, rfl⟩)
    all_goals exact .inr (.inr ⟨by simp [markWrites], by simp [markRepeats], rfl⟩)
  | _ => cases hmarks

/-- There is nothing to mark without a row. -/
theorem mark_of_lookup_none {now : Time} {op : StoreOp} {target : ApprovalStatus}
    (hmarks : op.marks = some (id, target)) (h : t.lookup id = none) :
    perform now t op = .error (.keyError ("Approval not found: " ++ id)) := by
  have hlock := getLocked_of_lookup_none h
  cases op with
  | markUnknown id result => cases hmarks; simp only [perform, markUnknown, hlock]; rfl
  | markCompleted id result => cases hmarks; simp only [perform, markCompleted, hlock]; rfl
  | markFailed id result => cases hmarks; simp only [perform, markFailed, hlock]; rfl
  | _ => cases hmarks

end Calls

/-- Creation inserts one pending row under a free id. -/
theorem create_ok {t t' : ApprovalTable} {request r : ApprovalRequest}
    (h : create t request = .ok (r, t')) :
    request.status = .pending ∧ t.insert? (newRow request) = some t' := by
  unfold create at h
  split at h
  · contradiction
  · rename_i hstatus
    split at h
    · cases h
      exact ⟨not_not.mp hstatus, ‹_›⟩
    · contradiction

/-- A created approval is the one that was asked for. -/
theorem create_reply {t t' : ApprovalTable} {request r : ApprovalRequest}
    (h : create t request = .ok (r, t')) : r = request := by
  unfold create at h
  split at h
  · cases h
  · split at h <;> cases h
    rfl

/-- A call that shows an approval shows the row as the call leaves it. -/
theorem shown_of_perform {now : Time} {t t' : ApprovalTable} {op : StoreOp} {reply : op.Result}
    {id : String} {a : ApprovalRequest} (hok : perform now t op = .ok (reply, t'))
    (htarget : op.target = some id) (hshown : op.shown reply = some a) :
    ∃ row, t'.lookup id = some row ∧ a.traceId = row.traceId ∧ a.status = row.status := by
  have hstay {row : ApprovalRequestRow} (hrow : t.lookup id = some row) :
      ∃ row', t.lookup id = some row' ∧ row.toSchema.traceId = row'.traceId ∧
        row.toSchema.status = row'.status := ⟨row, hrow, rfl, rfl⟩
  have hwrite {row row' : ApprovalRequestRow} (hrow : t.lookup id = some row)
      (hid : row'.approvalId = row.approvalId) :
      ∃ row'', (t.write row').lookup id = some row'' ∧ row'.toSchema.traceId = row''.traceId ∧
        row'.toSchema.status = row''.status :=
    ⟨row', ApprovalTable.lookup_write_of_lookup hrow hid, rfl, rfl⟩
  cases op with
  | create request =>
    cases htarget
    cases hshown
    rw [create_reply hok]
    have hlookup := (ApprovalTable.lookup_insert? (create_ok hok).2 request.approvalId).2
    exact ⟨newRow request, hlookup.trans (if_pos rfl), rfl, rfl⟩
  | get id' =>
    cases htarget
    obtain ⟨rfl, rfl⟩ := Prod.mk.inj (Except.ok.inj hok)
    obtain ⟨row, hrow, rfl⟩ := Option.map_eq_some_iff.mp hshown
    exact hstay hrow
  | listReconcilable limit => cases htarget
  | decide d =>
    cases htarget
    cases hshown
    obtain ⟨row, hrow⟩ := lookup_of_perform rfl (by simp) (by simp) hok
    rw [perform, decide_of_lookup hrow] at hok
    split at hok <;> cases hok
    exact hwrite hrow rfl
  | markExecuting id' =>
    cases htarget
    cases hshown
    obtain ⟨row, hrow⟩ := lookup_of_perform rfl (by simp) (by simp) hok
    rw [perform, markExecuting_of_lookup hrow] at hok
    split at hok <;> cases hok
    exact hwrite hrow rfl
  | claimExecution id' =>
    cases htarget
    cases hshown
    obtain ⟨row, hrow⟩ := lookup_of_perform rfl (by simp) (by simp) hok
    rw [perform, claimExecution_of_lookup hrow] at hok
    split at hok
    · cases hok
      exact hstay hrow
    · split at hok <;> cases hok
      exact hwrite hrow rfl
  | markUnknown id' result =>
    cases htarget
    cases hshown
    obtain ⟨row, hrow⟩ := lookup_of_perform rfl (by simp) (by simp) hok
    rw [perform, markUnknown_of_lookup hrow] at hok
    split at hok <;> cases hok
    exact hwrite hrow rfl
  | markCompleted id' result =>
    cases htarget
    cases hshown
    obtain ⟨row, hrow⟩ := lookup_of_perform rfl (by simp) (by simp) hok
    rw [perform, markCompleted_of_lookup hrow] at hok
    split at hok
    · cases hok
      exact hstay hrow
    · split at hok <;> cases hok
      exact hwrite hrow rfl
  | markFailed id' result =>
    cases htarget
    cases hshown
    obtain ⟨row, hrow⟩ := lookup_of_perform rfl (by simp) (by simp) hok
    rw [perform, markFailed_of_lookup hrow] at hok
    split at hok
    · cases hok
      exact hstay hrow
    · split at hok <;> cases hok
      exact hwrite hrow rfl
  | markRetryExecuting id' =>
    cases htarget
    cases hshown
    obtain ⟨row, hrow⟩ := lookup_of_perform rfl (by simp) (by simp) hok
    rw [perform, markRetryExecuting_of_lookup hrow] at hok
    split at hok <;> cases hok
    exact hwrite hrow rfl
  | claimRetryExecution id' =>
    cases htarget
    cases hshown
    obtain ⟨row, hrow⟩ := lookup_of_perform rfl (by simp) (by simp) hok
    rw [perform, claimRetryExecution_of_lookup hrow] at hok
    split at hok <;> cases hok
    · exact hwrite hrow rfl
    · exact hstay hrow
  | recoverStaleExecution id' s =>
    cases htarget
    cases hshown
    obtain ⟨row, hrow⟩ := lookup_of_perform rfl (by simp) (by simp) hok
    obtain ⟨rfl, rfl⟩ | ⟨startedAt, -, -, -, -, rfl, rfl⟩ := recoverStaleExecution_ok hrow hok
    · exact hstay hrow
    · exact hwrite hrow rfl

/-- Every successful call is a step for every approval id. -/
theorem perform_rowStep {now : Time} {t t' : ApprovalTable} {op : StoreOp} {reply : op.Result}
    (h : perform now t op = .ok (reply, t')) (id : String) :
    RowStep now op id (t.lookup id) (t'.lookup id) := by
  by_cases hcreate : ∃ request, op = .create request
  · obtain ⟨request, rfl⟩ := hcreate
    obtain ⟨hstatus, hinsert⟩ := create_ok h
    obtain ⟨hfree, hlookup⟩ := ApprovalTable.lookup_insert? hinsert id
    rw [hlookup]
    split
    · rename_i heq
      rw [← heq, hfree]
      exact .insert request rfl rfl hstatus
    · exact .stay _
  · have hcreate : ∀ request, op ≠ .create request := fun r heq => hcreate ⟨r, heq⟩
    cases htarget : op.target with
    | none =>
      -- only listing has no target
      cases op <;> cases htarget
      simp only [perform] at h
      cases hlist : listReconcilable t _ <;> rw [hlist] at h <;> cases h
      exact .stay _
    | some target =>
      cases hrow : t.lookup target with
      | none =>
        rw [perform_of_lookup_none htarget hrow hcreate h]
        exact .stay _
      | some row =>
        obtain rfl | ⟨row', hchange, rfl⟩ := perform_of_lookup htarget hrow hcreate h
        · exact .stay _
        · exact rowStep_write hrow htarget hchange id

/-- The same for the table after a call, whether it succeeds or is rolled back. -/
theorem tableAfter_rowStep (now : Time) (t : ApprovalTable) (op : StoreOp) (id : String) :
    RowStep now op id (t.lookup id) ((tableAfter now t op).lookup id) := by
  unfold tableAfter
  split
  · exact perform_rowStep ‹_› id
  · exact .stay _

end ApprovalStore

end CreditScoringMlops.ControlPlane
