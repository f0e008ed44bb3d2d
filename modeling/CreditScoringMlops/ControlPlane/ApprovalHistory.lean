import CreditScoringMlops.ControlPlane.ApprovalStoreSteps
import Mathlib.Data.List.Induction

/-!
# Histories of the approval table

A history is a list of store calls, run one after the other from the empty table; a call that
raises leaves the table as it was. `RowInvariant` ties the nullable columns of a row to its
status, `Edge` is the graph of statuses, and `Evolves` compares a row with the same row later.
Each holds of one `RowStep` and from there of every history.
-/

namespace CreditScoringMlops.ControlPlane

open Python

/-- An edge of the status graph. Only the two retry operations lead from unknown back to
executing. -/
inductive Edge (op : StoreOp) : ApprovalStatus → ApprovalStatus → Prop where
  | approve : Edge op .pending .approved
  | reject : Edge op .pending .rejected
  | execute : Edge op .approved .executing
  | suspend : Edge op .executing .unknown
  | complete : Edge op .executing .completed
  | fail : Edge op .executing .failed
  | resolveCompleted : Edge op .unknown .completed
  | resolveFailed : Edge op .unknown .failed
  | retry (id : String) (hop : op = .markRetryExecuting id ∨ op = .claimRetryExecution id) :
      Edge op .unknown .executing

/-- What one call does to the status kept for an approval id. -/
inductive StatusStep (op : StoreOp) : Option ApprovalStatus → Option ApprovalStatus → Prop where
  | stay (status : Option ApprovalStatus) : StatusStep op status status
  | created : StatusStep op none (some .pending)
  | edge {a b : ApprovalStatus} (h : Edge op a b) : StatusStep op (some a) (some b)

/-- No edge leaves these statuses. -/
def ApprovalStatus.isTerminal : ApprovalStatus → Bool
  | rejected => true
  | completed => true
  | failed => true
  | _ => false

/-- The statuses an execution can have. -/
def ApprovalStatus.isStarted : ApprovalStatus → Bool
  | executing => true
  | unknown => true
  | completed => true
  | failed => true
  | _ => false

namespace ApprovalStore

/-- Which nullable columns hold a value in which status. -/
structure RowInvariant (row : ApprovalRequestRow) : Prop where
  decidedAt : row.decidedAt = none ↔ row.status = .pending
  decidedBy : row.decidedBy = none ↔ row.status = .pending
  decisionComment : row.status = .pending → row.decisionComment = none
  executionStartedAt : row.executionStartedAt.isSome ↔ row.status.isStarted
  noResult : ¬row.status.isStarted → row.executionResult = none
  result : row.status = .unknown ∨ row.status = .completed ∨ row.status = .failed →
    row.executionResult.isSome

/-- A new row has no value in any of them. -/
theorem rowInvariant_newRow {request : ApprovalRequest} (h : request.status = .pending) :
    RowInvariant (newRow request) := by
  constructor <;> simp [newRow, h, ApprovalStatus.isStarted]

/-- A change keeps the invariant. -/
theorem RowChange.invariant {now : Time} {op : StoreOp} {row row' : ApprovalRequestRow}
    (h : RowChange now op row row') (hrow : RowInvariant row) : RowInvariant row' := by
  obtain ⟨hat, hby, -, hstarted, hnone, -⟩ := hrow
  cases h with
  | decide decision h =>
    rw [h] at hstarted hnone
    cases happroved : decision.approved <;>
      constructor <;> simp_all [ApprovalStatus.isStarted]
  | execute id hop h =>
    rw [h] at hat hby hnone
    constructor <;> simp_all [ApprovalStatus.isStarted]
  | unknown id result h =>
    rw [h] at hat hby hstarted
    constructor <;> simp_all [ApprovalStatus.isStarted]
  | complete id result h =>
    obtain h | h := h <;> rw [h] at hat hby hstarted <;>
      constructor <;> simp_all [ApprovalStatus.isStarted]
  | fail id result h =>
    obtain h | h := h <;> rw [h] at hat hby hstarted <;>
      constructor <;> simp_all [ApprovalStatus.isStarted]
  | retry id hop h =>
    rw [h] at hat hby
    constructor <;> simp_all [ApprovalStatus.isStarted]
  | recover id s h hstart hpos hstale =>
    rw [h] at hat hby hstarted
    constructor <;> simp_all [ApprovalStatus.isStarted]

/-- A change follows an edge of the graph. -/
theorem RowChange.edge {now : Time} {op : StoreOp} {row row' : ApprovalRequestRow}
    (h : RowChange now op row row') : Edge op row.status row'.status := by
  cases h with
  | decide decision h =>
    rw [h]
    cases decision.approved
    · exact .reject
    · exact .approve
  | execute id hop h => exact h ▸ .execute
  | unknown id result h => exact h ▸ .suspend
  | complete id result h => exact h.elim (· ▸ .complete) (· ▸ .resolveCompleted)
  | fail id result h => exact h.elim (· ▸ .fail) (· ▸ .resolveFailed)
  | retry id hop h => exact h ▸ .retry id hop
  | recover id s h hstart hpos hstale => exact h ▸ .suspend

/-- A row and the same row later: the request and the decision stay, a started execution stays
started, and a terminal row stays altogether. -/
structure Evolves (row row' : ApprovalRequestRow) : Prop where
  request : row'.requestColumns = row.requestColumns
  decided : row.status ≠ .pending → row'.status ≠ .pending ∧ row'.decidedAt = row.decidedAt ∧
    row'.decidedBy = row.decidedBy ∧ row'.decisionComment = row.decisionComment
  started : row.status.isStarted → row'.status.isStarted
  terminal : row.status.isTerminal → row' = row

/-- A row evolves to itself. -/
theorem Evolves.refl (row : ApprovalRequestRow) : Evolves row row :=
  ⟨rfl, fun h => ⟨h, rfl, rfl, rfl⟩, fun h => h, fun _ => rfl⟩

/-- Evolution composes. -/
theorem Evolves.trans {row₁ row₂ row₃ : ApprovalRequestRow} (h : Evolves row₁ row₂)
    (h' : Evolves row₂ row₃) : Evolves row₁ row₃ where
  request := h'.request.trans h.request
  decided hpending := by
    obtain ⟨hpending', hat, hby, hcomment⟩ := h.decided hpending
    obtain ⟨hpending'', hat', hby', hcomment'⟩ := h'.decided hpending'
    exact ⟨hpending'', hat'.trans hat, hby'.trans hby, hcomment'.trans hcomment⟩
  started hstarted := h'.started (h.started hstarted)
  terminal hterminal := by
    have heq := h.terminal hterminal
    rw [h'.terminal (heq ▸ hterminal), heq]

/-- A change makes a row evolve: only a decision writes the decision, and nothing changes a
terminal row. -/
theorem RowChange.evolves {now : Time} {op : StoreOp} {row row' : ApprovalRequestRow}
    (h : RowChange now op row row') : Evolves row row' := by
  have hedge := h.edge
  refine ⟨h.frame, fun hpending => ?_, fun hstarted => ?_, fun hterminal => ?_⟩
  · cases h with
    | decide decision h => exact absurd h hpending
    | _ => exact ⟨by simp, rfl, rfl, rfl⟩
  · generalize row.status = a, row'.status = b at hedge hstarted ⊢
    cases hedge <;> first | rfl | cases hstarted
  · generalize row.status = a, row'.status = b at hedge hterminal
    cases hedge <;> cases hterminal

/-- One step on a row that exists leaves a row to which it evolves. -/
theorem RowStep.evolves {now : Time} {op : StoreOp} {id : String} {row : ApprovalRequestRow}
    {next : Option ApprovalRequestRow} (h : RowStep now op id (some row) next) :
    ∃ row', next = some row' ∧ Evolves row row' := by
  cases h with
  | stay row => exact ⟨_, rfl, .refl _⟩
  | change hid htarget hchange => exact ⟨_, rfl, hchange.evolves⟩

/-! ## Histories -/

/-- A call together with the clock reading of its transaction. -/
structure StoreCall where
  now : Time
  op : StoreOp

/-- The table after a history. -/
def runCalls (calls : List StoreCall) : ApprovalTable :=
  calls.foldl (fun t call => tableAfter call.now t call.op) .empty

/-- The status kept for an approval id. -/
def statusOf (t : ApprovalTable) (id : String) : Option ApprovalStatus :=
  (t.lookup id).map (·.status)

/-- One call more is one transaction more. -/
theorem runCalls_concat (calls : List StoreCall) (call : StoreCall) :
    runCalls (calls ++ [call]) = tableAfter call.now (runCalls calls) call.op := by
  simp only [runCalls, List.foldl_append, List.foldl_cons, List.foldl_nil]

/-- One call more is one step for every approval id. -/
theorem runCalls_rowStep (calls : List StoreCall) (call : StoreCall) (id : String) :
    RowStep call.now call.op id ((runCalls calls).lookup id)
      ((runCalls (calls ++ [call])).lookup id) := by
  rw [runCalls_concat]
  exact tableAfter_rowStep _ _ _ id

/-- Every row of every history satisfies the invariant. -/
theorem runCalls_rowInvariant (calls : List StoreCall) (id : String) (row : ApprovalRequestRow)
    (h : (runCalls calls).lookup id = some row) : RowInvariant row := by
  induction calls using List.reverseRecOn generalizing row with
  | nil => cases h
  | append_singleton calls call ih =>
    have hstep := runCalls_rowStep calls call id
    rw [h] at hstep
    generalize hbefore : (runCalls calls).lookup id = before at hstep
    cases hstep with
    | stay row => exact ih row hbefore
    | insert request hop hid hstatus => exact rowInvariant_newRow hstatus
    | change hid htarget hchange => exact hchange.invariant (ih _ hbefore)

/-- A row is never lost, and it evolves. -/
theorem runCalls_evolves (calls more : List StoreCall) (id : String) (row : ApprovalRequestRow)
    (h : (runCalls calls).lookup id = some row) :
    ∃ row', (runCalls (calls ++ more)).lookup id = some row' ∧ Evolves row row' := by
  induction more using List.reverseRecOn with
  | nil => exact ⟨row, by rwa [List.append_nil], .refl row⟩
  | append_singleton more call ih =>
    obtain ⟨row₁, hrow₁, hevolves⟩ := ih
    have hstep := runCalls_rowStep (calls ++ more) call id
    rw [hrow₁, List.append_assoc] at hstep
    obtain ⟨row₂, hrow₂, hevolves'⟩ := hstep.evolves
    exact ⟨row₂, hrow₂, hevolves.trans hevolves'⟩

/-- The columns of a decision hold what decision `d` said. -/
structure DecidedBy (row : ApprovalRequestRow) (d : ApprovalDecision) : Prop where
  decidedAt : row.decidedAt = some d.decidedAt
  decidedBy : row.decidedBy = some d.decidedBy
  decisionComment : row.decisionComment = d.comment
  verdict : row.status = .rejected ↔ d.approved = false

/-- The decision columns of a decided row come from one earlier call, made while the row was
pending. -/
theorem runCalls_decision (calls : List StoreCall) (id : String) (row : ApprovalRequestRow)
    (h : (runCalls calls).lookup id = some row) (hdecided : row.status ≠ .pending) :
    ∃ (earlier later : List StoreCall) (now : Time) (d : ApprovalDecision),
      calls = earlier ++ ⟨now, .decide d⟩ :: later ∧ d.approvalId = id ∧
        statusOf (runCalls earlier) id = some .pending ∧ DecidedBy row d := by
  induction calls using List.reverseRecOn generalizing row with
  | nil => cases h
  | append_singleton calls call ih =>
    have hstep := runCalls_rowStep calls call id
    rw [h] at hstep
    generalize hbefore : (runCalls calls).lookup id = before at hstep
    cases hstep with
    | stay row =>
      obtain ⟨earlier, later, now, d, rfl, hrest⟩ := ih row hbefore hdecided
      exact ⟨earlier, later ++ [call], now, d, by simp, hrest⟩
    | insert request hop hid hstatus => exact absurd hstatus hdecided
    | @change old _ hid htarget hchange =>
      by_cases hold : old.status = .pending
      · -- the only change of a pending row is its decision
        obtain ⟨now, op⟩ := call
        cases hchange with
        | decide d hpending =>
          refine ⟨calls, [], now, d, rfl, by simpa [StoreOp.target] using htarget,
            by simp [statusOf, hbefore, hpending], rfl, rfl, rfl, ?_⟩
          cases d.approved <;> simp
        | execute _ _ hstatus => simp [hold] at hstatus
        | unknown _ _ hstatus => simp [hold] at hstatus
        | complete _ _ hstatus => simp [hold] at hstatus
        | fail _ _ hstatus => simp [hold] at hstatus
        | retry _ _ hstatus => simp [hold] at hstatus
        | recover _ _ hstatus => simp [hold] at hstatus
      · obtain ⟨earlier, later, now, d, rfl, hid', hpending, hd⟩ := ih old hbefore hold
        obtain ⟨-, hat, hby, hcomment⟩ := hchange.evolves.decided hold
        refine ⟨earlier, later ++ [call], now, d, by simp, hid', hpending, hat.trans hd.decidedAt,
          hby.trans hd.decidedBy, hcomment.trans hd.decisionComment, ?_⟩
        rw [← hd.verdict]
        generalize old.status = a, row.status = b, hchange.edge = hedge at hold
        cases hedge <;> simp at hold ⊢

/-- The invariant of the approval table, for every history and every continuation of it: each
further call follows the status graph, the nullable columns fit the status, the decision columns
come from one decision made while the row was pending, and a later row keeps the decision and,
once it is terminal, everything. -/
theorem runCalls_invariant (calls more : List StoreCall) :
    (∀ (call : StoreCall) (id : String), StatusStep call.op (statusOf (runCalls calls) id)
      (statusOf (runCalls (calls ++ [call])) id)) ∧
    ∀ row ∈ (runCalls calls).rows, RowInvariant row ∧
      (row.status ≠ .pending →
        ∃ (earlier later : List StoreCall) (now : Time) (d : ApprovalDecision),
          calls = earlier ++ ⟨now, .decide d⟩ :: later ∧ d.approvalId = row.approvalId ∧
            statusOf (runCalls earlier) row.approvalId = some .pending ∧ DecidedBy row d) ∧
      ∃ row' ∈ (runCalls (calls ++ more)).rows,
        row'.approvalId = row.approvalId ∧ Evolves row row' := by
  refine ⟨fun call id => ?_, fun row hrow => ?_⟩
  · have hstep := runCalls_rowStep calls call id
    unfold statusOf
    generalize (runCalls calls).lookup id = before, (runCalls (calls ++ [call])).lookup id = after
      at hstep
    cases hstep with
    | stay row => exact .stay _
    | insert request hop hid hstatus =>
      simp only [Option.map_none, Option.map_some, newRow, hstatus]
      exact .created
    | change hid htarget hchange => exact .edge hchange.edge
  · have hlookup : (runCalls calls).lookup row.approvalId = some row :=
      ApprovalTable.lookup_eq_some_iff.mpr ⟨hrow, rfl⟩
    obtain ⟨row', hrow', hevolves⟩ := runCalls_evolves calls more _ row hlookup
    obtain ⟨hmem, hid⟩ := ApprovalTable.lookup_eq_some_iff.mp hrow'
    exact ⟨runCalls_rowInvariant calls _ row hlookup, runCalls_decision calls _ row hlookup,
      row', hmem, hid, hevolves⟩

end ApprovalStore

end CreditScoringMlops.ControlPlane
