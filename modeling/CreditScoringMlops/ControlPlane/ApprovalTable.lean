import CreditScoringMlops.ControlPlane.Schemas
import Mathlib.Data.List.Nodup

/-!
# The approval table

The table `ai_engineering_approvals` with its unique index on `approval_id`: a table with two
rows of one id cannot be built. A transaction inserts a row or writes one back; everything the
store does is expressed by `lookup`, `insert?` and `write`.
-/

namespace CreditScoringMlops.ControlPlane

open Python

/-- One row of the table. The status column only ever holds values of `ApprovalStatus`. -/
structure ApprovalRequestRow where
  approvalId : String
  traceId : String
  action : String
  reason : String
  requestedAt : Time
  status : ApprovalStatus
  executionPlan : Dict
  decidedAt : Option Time
  decidedBy : Option String
  decisionComment : Option String
  executionStartedAt : Option Time
  executionResult : Option Dict

/-- The columns that are written at creation and never again. -/
def ApprovalRequestRow.requestColumns (row : ApprovalRequestRow) :
    String × String × String × String × Time × Dict :=
  (row.approvalId, row.traceId, row.action, row.reason, row.requestedAt, row.executionPlan)

/-- The schema object of a row; an empty plan is `{}` either way. -/
def ApprovalRequestRow.toSchema (row : ApprovalRequestRow) : ApprovalRequest where
  approvalId := row.approvalId
  traceId := row.traceId
  action := row.action
  reason := row.reason
  requestedAt := row.requestedAt
  status := row.status
  executionPlan := row.executionPlan
  decidedAt := row.decidedAt
  decidedBy := row.decidedBy
  decisionComment := row.decisionComment
  executionStartedAt := row.executionStartedAt
  executionResult := row.executionResult

/-- The rows in order of insertion, at most one for each approval id. -/
structure ApprovalTable where
  rows : List ApprovalRequestRow
  unique : (rows.map (·.approvalId)).Nodup

namespace ApprovalTable

/-- The empty table. -/
def empty : ApprovalTable := ⟨[], List.nodup_nil⟩

/-- The row of an approval id. -/
def lookup (t : ApprovalTable) (id : String) : Option ApprovalRequestRow :=
  t.rows.find? fun row => row.approvalId == id

/-- Insert a new row; the unique index refuses an id that is already there. -/
def insert? (t : ApprovalTable) (row : ApprovalRequestRow) : Option ApprovalTable :=
  if h : row.approvalId ∈ t.rows.map (·.approvalId) then none
  else some
    { rows := t.rows ++ [row]
      unique := by
        rw [List.map_append]
        refine List.nodup_append.mpr ⟨t.unique, by simp, fun id hid id' hid' heq => h ?_⟩
        rwa [heq, List.mem_singleton.mp hid'] at hid }

/-- Write a row back over the row of the same id. -/
def write (t : ApprovalTable) (row : ApprovalRequestRow) : ApprovalTable where
  rows := t.rows.map fun r => if r.approvalId = row.approvalId then row else r
  unique := by
    have hids : (t.rows.map fun r => if r.approvalId = row.approvalId then row else r).map
        (·.approvalId) = t.rows.map (·.approvalId) := by
      rw [List.map_map]
      refine List.map_congr_left fun r _ => ?_
      simp only [Function.comp_apply]
      split <;> simp_all
    rw [hids]
    exact t.unique

/-- A row found under an id carries that id. -/
theorem lookup_id {t : ApprovalTable} {id : String} {row : ApprovalRequestRow}
    (h : t.lookup id = some row) : row.approvalId = id := by
  simpa using List.find?_some h

/-- An id has no row exactly when it does not occur in the id column. -/
theorem lookup_eq_none_iff {t : ApprovalTable} {id : String} :
    t.lookup id = none ↔ id ∉ t.rows.map (·.approvalId) := by
  simp [lookup]

/-- The row of an id is the one row that carries it. -/
theorem lookup_eq_some_iff {t : ApprovalTable} {id : String} {row : ApprovalRequestRow} :
    t.lookup id = some row ↔ row ∈ t.rows ∧ row.approvalId = id := by
  refine ⟨fun h => ⟨List.mem_of_find?_eq_some h, lookup_id h⟩, fun ⟨hmem, hid⟩ => ?_⟩
  cases hrow : t.lookup id with
  | none => exact absurd (hid ▸ List.mem_map_of_mem hmem) (lookup_eq_none_iff.mp hrow)
  | some row' =>
    have hinj := List.inj_on_of_nodup_map t.unique
    rw [hinj (List.mem_of_find?_eq_some hrow) hmem ((lookup_id hrow).trans hid.symm)]

/-- Insertion adds the row at the end. -/
theorem rows_insert? {t t' : ApprovalTable} {row : ApprovalRequestRow}
    (h : t.insert? row = some t') : t'.rows = t.rows ++ [row] := by
  unfold insert? at h
  split at h
  · cases h
  · rw [← Option.some.inj h]

/-- Insertion succeeds only on a free id and leaves the other ids alone. -/
theorem lookup_insert? {t t' : ApprovalTable} {row : ApprovalRequestRow}
    (h : t.insert? row = some t') (id : String) :
    t.lookup row.approvalId = none ∧
      t'.lookup id = if row.approvalId = id then some row else t.lookup id := by
  unfold insert? at h
  split at h
  · contradiction
  · rename_i hnew
    obtain rfl := Option.some.inj h
    have hnone := lookup_eq_none_iff.mpr hnew
    refine ⟨hnone, ?_⟩
    simp only [lookup, List.find?_append, List.find?_singleton, beq_iff_eq]
    split
    · rename_i heq
      subst heq
      simp only [lookup] at hnone
      simp [hnone]
    · simp

/-- Writing a row back changes the row of its own id and no other. -/
theorem lookup_write (t : ApprovalTable) (row : ApprovalRequestRow) (id : String) :
    (t.write row).lookup id =
      (t.lookup id).map fun old => if row.approvalId = id then row else old := by
  have hkeys : ((fun r : ApprovalRequestRow => r.approvalId == id) ∘
      fun r => if r.approvalId = row.approvalId then row else r) = fun r => r.approvalId == id := by
    funext r
    simp only [Function.comp_apply]
    split <;> simp_all
  simp only [lookup, write, List.find?_map, hkeys]
  refine Option.map_congr fun old hold => ?_
  have hid : old.approvalId = id := by simpa using List.find?_some hold
  simp only [hid, eq_comm]

/-- A row written back under its id is found there. -/
theorem lookup_write_of_lookup {t : ApprovalTable} {id : String} {row old : ApprovalRequestRow}
    (h : t.lookup id = some old) (hid : row.approvalId = old.approvalId) :
    (t.write row).lookup id = some row := by
  rw [lookup_write, h, Option.map_some, if_pos (hid.trans (lookup_id h))]

/-- A row whose writing back changes nothing has the status of the row that was there. -/
theorem status_of_write_eq {t : ApprovalTable} {id : String} {row old : ApprovalRequestRow}
    (h : t.lookup id = some old) (hwrite : t.write row = t)
    (hid : row.approvalId = old.approvalId) : row.status = old.status := by
  have hrow := lookup_write_of_lookup h hid
  rw [hwrite, h] at hrow
  exact congrArg ApprovalRequestRow.status (Option.some.inj hrow).symm

end ApprovalTable

end CreditScoringMlops.ControlPlane
