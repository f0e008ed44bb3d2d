import CreditScoringMlops.ControlPlane.ClaimHistory
import CreditScoringMlops.ControlPlane.OverviewSnapshot

/-!
# The lookup of a trace

A trace is looked up by its own id, or by the id of an approval if no event carries that id.
Clients choose trace ids, so the id of an approval may be in use as the id of another trace, which
then hides the trace of the approval. As long as the two kinds of ids are kept apart, both lookups
agree.
-/

namespace CreditScoringMlops.ControlPlane

open Python Interaction ApprovalStore CommandCenter

/-! ## The answer -/

section Answer

variable {A : Type} (i : ℕ) (w : World)

/-- The query for a trace is answered with its events. -/
theorem answer_auditList (traceId : String) (next : List AuditEvent → QueryProgram A) :
    answer i w (auditList (some traceId) none >>= next) =
      answer i w (next (AuditStore.ofTrace w.audit traceId)) := by
  have hlist : CommandCenter.exec i (.auditList (some traceId) none none) {} w =
      (.ok (AuditStore.ofTrace w.audit traceId), w) := by
    simp [CommandCenter.exec, orFault]
  change CommandCenter.system.alone i {} w (Program.perform _ _) = _
  rw [Machine.alone_perform hlist]
  rfl

/-- The query for an approval is answered with its row. -/
theorem answer_get (x : String) (next : Option ApprovalRequest → QueryProgram A) :
    answer i w (onControl (store (.get x)) >>= next) =
      answer i w (next (ApprovalStore.get w.approvals x)) := rfl

/-- The trace id of an approval. -/
def traceIdAt (w : World) (x : String) : Option String := (w.approvals.lookup x).map (·.traceId)

/-- The events that `get_trace` finds. -/
def tracedEvents (w : World) (id : String) : List AuditEvent :=
  match AuditStore.ofTrace w.audit id, traceIdAt w id with
  | [], some traceId => AuditStore.ofTrace w.audit traceId
  | events, _ => events

/-- They are its answer. -/
theorem answer_getTrace (id : String) :
    answer i w (getTrace id) = .ok (tracedEvents w id) := by
  unfold getTrace tracedEvents traceIdAt
  rw [answer_auditList]
  cases hevents : AuditStore.ofTrace w.audit id with
  | cons event events => rfl
  | nil =>
    rw [if_neg (by decide), answer_get, ApprovalStore.get]
    cases hrow : w.approvals.lookup id with
    | none => rfl
    | some row =>
      change answer i w (if row.traceId ≠ id then _ else _) = _
      by_cases htrace : row.traceId = id
      · rw [if_neg (not_not.mpr htrace)]
        change Except.ok [] = Except.ok (AuditStore.ofTrace w.audit row.traceId)
        rw [htrace, hevents]
      · rw [if_pos htrace, ← Program.bind_ret (auditList _ _), answer_auditList]
        rfl

end Answer

/-! ## The two kinds of ids -/

/-- As the id of a trace, an id is apart from the approvals if none with another trace has it. -/
def Apart (w : World) (id : String) : Prop := ∀ traceId ∈ traceIdAt w id, traceId = id

instance (w : World) (id : String) : Decidable (Apart w id) :=
  inferInstanceAs (Decidable (∀ traceId ∈ traceIdAt w id, traceId = id))

/-- The ids of the traces are apart from the approvals. -/
structure TracesApart (w : World) : Prop where
  event : ∀ event ∈ w.audit, Apart w event.traceId
  approval : ∀ x, ∀ traceId ∈ traceIdAt w x, Apart w traceId

/-- Then an approval and its trace are one to the lookup. -/
theorem TracesApart.tracedEvents_eq {w : World} (h : TracesApart w) {x traceId : String}
    (htrace : traceIdAt w x = some traceId) : tracedEvents w x = tracedEvents w traceId := by
  by_cases hsame : traceId = x
  · rw [hsame]
  have hnone : AuditStore.ofTrace w.audit x = [] := by
    refine AuditStore.ofTrace_eq_nil_iff.mpr fun event hevent heq => hsame ?_
    have hapart := h.event event hevent
    rw [heq] at hapart
    exact hapart traceId htrace
  have hx : tracedEvents w x = AuditStore.ofTrace w.audit traceId := by
    simp [tracedEvents, hnone, htrace]
  rw [hx, tracedEvents]
  split
  · rename_i other hnil hother
    rw [h.approval x traceId htrace other hother]
  · rfl

/-! ## The operations -/

/-- What an operation leaves apart. A new approval has a trace of its own, or one that is apart from
the approvals, and then no trace has its id; and a new event belongs to a trace that is apart. -/
def Separated (w : World) : Op → Prop
  | .store (.create request) =>
      request.traceId = request.approvalId ∨ Apart w request.traceId ∧
        (∀ event ∈ w.audit, event.traceId ≠ request.approvalId) ∧
          ∀ row ∈ w.approvals.rows, row.traceId ≠ request.approvalId
  | .record event => Apart w event.traceId
  | _ => True

instance (w : World) (op : Op) : Decidable (Separated w op) := by
  unfold Separated
  split <;> infer_instance

section Operations

variable {i : ℕ} {op : Op} {env : Env} {w : World}

/-- An operation changes no trace id; a creation adds one. -/
theorem traceIdAt_exec (i : ℕ) (op : Op) (env : Env) (w : World) (x : String) :
    traceIdAt (exec i op env w).2 x = traceIdAt w x ∨
      ∃ request, op = .store (.create request) ∧ request.approvalId = x ∧
        traceIdAt w x = none ∧ traceIdAt (exec i op env w).2 x = some request.traceId := by
  unfold traceIdAt
  by_cases hstore : ∃ o, op = .store o
  · obtain ⟨o, rfl⟩ := hstore
    have hstep := exec_rowStep i o env w x
    generalize w.approvals.lookup x = before, (exec i (.store o) env w).2.approvals.lookup x = after
      at hstep
    cases hstep with
    | stay row => exact .inl rfl
    | insert request hop hid hstatus =>
      exact .inr ⟨request, congrArg Op.store hop, hid, rfl, rfl⟩
    | change hid htarget hchange =>
      exact .inl (congrArg some (congrArg (·.2.1) hchange.frame))
  · rw [exec_approvals fun o ho => hstore ⟨o, ho⟩]
    exact .inl rfl

/-- Every event of the audit table was there before, or is the one just recorded. -/
theorem mem_audit_exec {event : AuditEvent} (h : event ∈ (exec i op env w).2.audit) :
    event ∈ w.audit ∨ ∃ record, op = .record record ∧ event.traceId = record.traceId := by
  cases op with
  | record record =>
    simp only [exec, orFault, execRecord] at h
    split at h
    · exact .inl h
    · split at h
      · exact .inl h
      · rcases List.mem_append.mp h with h | h
        · exact .inl h
        · obtain rfl := List.mem_singleton.mp h
          exact .inr ⟨record, rfl, rfl⟩
  | store o =>
    simp only [exec, orFault, execStore] at h
    split at h
    · exact .inl h
    · split at h <;> exact .inl h
  | tryAcquire =>
    simp only [exec, orFault] at h
    split at h
    · exact .inl h
    · split at h <;> exact .inl h
  | release =>
    simp only [exec, orFault] at h
    split at h <;> exact .inl h
  | kubectlApply jobName manifest =>
    simp only [exec] at h
    split at h <;> exact .inl h
  | _ => exact .inl h

/-- An id stays apart from the approvals, unless it becomes that of a new approval with another
trace. -/
theorem Apart.exec {id : String} (h : Apart w id)
    (hcreate : ∀ request, op = .store (.create request) → request.approvalId = id →
      request.traceId = id) : Apart (exec i op env w).2 id := by
  intro traceId htrace
  rcases traceIdAt_exec i op env w id with hsame | ⟨request, hop, hid, -, hnew⟩
  · exact h traceId (hsame ▸ htrace)
  · rw [Option.mem_def, hnew] at htrace
    exact (Option.some.inj htrace).symm.trans (hcreate request hop hid)

/-- The traces stay apart under an operation that separates them. -/
theorem TracesApart.exec (h : TracesApart w) (hsep : Separated w op) :
    TracesApart (exec i op env w).2 where
  event := by
    intro event hevent
    rcases mem_audit_exec hevent with hold | ⟨record, rfl, htrace⟩
    · refine (h.event event hold).exec fun request hop hid => ?_
      subst hop
      rcases hsep with hown | ⟨-, hfree, -⟩
      · exact hown.trans hid
      · exact absurd hid.symm (hfree event hold)
    · rw [htrace]
      exact Apart.exec hsep fun request hop _ => nomatch hop
  approval := by
    intro x traceId htrace
    rcases traceIdAt_exec i op env w x with hsame | ⟨request, rfl, hid, hnone, hnew⟩
    · -- an old approval, whose trace is not that of a new one
      rw [hsame] at htrace
      refine (h.approval x traceId htrace).exec fun request hop hid => ?_
      subst hop
      rcases hsep with hown | ⟨-, -, hfree⟩
      · exact hown.trans hid
      · obtain ⟨row, hrow, hrowTrace⟩ := Option.map_eq_some_iff.mp htrace
        have hmem := (ApprovalTable.lookup_eq_some_iff.mp hrow).1
        exact absurd (hrowTrace.trans hid.symm) (hfree row hmem)
    · -- the new approval
      obtain rfl : request.traceId = traceId := Option.some.inj (hnew.symm.trans htrace)
      have hapart : Apart w request.traceId := by
        rcases hsep with hown | ⟨hapart, -⟩
        · intro other hother
          rw [hown, hid, hnone] at hother
          cases hother
        · exact hapart
      refine hapart.exec fun request' hop _ => ?_
      cases hop
      rfl

end Operations

/-! ## Runs -/

/-- The traces are apart in every run whose operations have separated them. -/
theorem tracesApart_of_legal {jobs : Jobs} {trace : List LogEntry} {w : World}
    (h : Legal jobs trace w) (hsep : ∀ e ∈ trace, Separated e.before e.op) : TracesApart w := by
  induction h with
  | nil => exact ⟨by simp, by simp [traceIdAt, ApprovalTable.lookup, ApprovalTable.empty]⟩
  | snoc i env op h hmay ih =>
    have hearlier := ih fun e he => hsep e (List.mem_append_left _ he)
    exact hearlier.exec (hsep _ (List.mem_append_right _ (List.mem_singleton_self _)))
  | abort i h ih => exact ⟨(ih hsep).event, (ih hsep).approval⟩

/-- If every operation of a run has separated the traces from the approvals, every approval is
looked up by its own id as it is by the id of its trace. -/
theorem trace_lookup_agrees (jobs : Jobs) (events : List SystemEvent) (i : ℕ)
    (hsep : ∀ e ∈ (runFrom jobs events).trace, Separated e.before e.op) :
    ∀ row ∈ (runFrom jobs events).world.approvals.rows,
      answer i (runFrom jobs events).world (getTrace row.approvalId) =
        answer i (runFrom jobs events).world (getTrace row.traceId) := by
  intro row hrow
  have hapart := tracesApart_of_legal (legal_runFrom jobs events) hsep
  have hlookup := ApprovalTable.lookup_eq_some_iff.mpr ⟨hrow, rfl⟩
  rw [answer_getTrace, answer_getTrace]
  exact congrArg _ (hapart.tracedEvents_eq (by rw [traceIdAt, hlookup]; rfl))

/-- A request for an approval with a trace id. -/
def tracedRequest (traceId : String) (h : 1 ≤ traceId.length ∧ traceId.length ≤ 36) :
    ApprovalCreateRequest :=
  { trainingRequest with traceId := some traceId, traceIdLength := by simpa using h }

/-- The run in which the approval `a` with trace id `t`, and then the approval `b` with the given
trace id are opened. -/
def openedTwice (request : ApprovalCreateRequest) : List SystemEvent :=
  [.arrive (.createApproval (tracedRequest "t" (by decide))), .step 0 { uuid := "a" },
    .step 0 {}, .step 0 {}, .step 0 { uuid := "e1" },
    .arrive (.createApproval request), .step 1 { uuid := "b" },
    .step 1 {}, .step 1 {}, .step 1 { uuid := "e2" }]

/-- Both have the trace id `t`. -/
theorem trace_lookup_agrees_openedTwice :
    let w := (runFrom (fun _ => none) (openedTwice (tracedRequest "t" (by decide)))).world
    w.approvals.rows.map (fun row => answer 0 w (getTrace row.approvalId)) =
      w.approvals.rows.map fun row => answer 0 w (getTrace row.traceId) :=
  List.map_congr_left (trace_lookup_agrees (fun _ => none)
    (openedTwice (tracedRequest "t" (by decide))) 0 (by decide +kernel))

/-- The trace id of `b` is the approval id `a`, and hides the trace `t` of the approval `a`. -/
theorem trace_lookup_fails :
    ¬∀ (jobs : Jobs) (events : List SystemEvent) (i : ℕ),
      ∀ row ∈ (runFrom jobs events).world.approvals.rows,
        answer i (runFrom jobs events).world (getTrace row.approvalId) =
          answer i (runFrom jobs events).world (getTrace row.traceId) := by
  intro h
  have hids : ∀ row ∈ (runFrom (fun _ => none)
      (openedTwice (tracedRequest "a" (by decide)))).world.approvals.rows,
      (tracedEvents (runFrom (fun _ => none)
          (openedTwice (tracedRequest "a" (by decide)))).world row.approvalId).map (·.eventId) =
        (tracedEvents (runFrom (fun _ => none)
          (openedTwice (tracedRequest "a" (by decide)))).world row.traceId).map (·.eventId) := by
    intro row hrow
    have hsame := h _ _ 0 row hrow
    rw [answer_getTrace, answer_getTrace] at hsame
    rw [Except.ok.inj hsame]
  exact absurd hids (by decide +kernel)

end CreditScoringMlops.ControlPlane
