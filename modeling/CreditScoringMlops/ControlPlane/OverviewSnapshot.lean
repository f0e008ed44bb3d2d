import CreditScoringMlops.ControlPlane.ClaimHistory
import CreditScoringMlops.ControlPlane.CommandCenter

/-!
# The overview as a snapshot

The overview is put together from six queries, each with a session of its own, so commits of other
requests may fall between them. It is what the tables give in one committed state if none of them
writes the table of approvals between the first and the last query of it, and none the audit trail
between the two queries of that. Other operations may run at any time, and so may a write of the one
table while only the other is still read.
-/

namespace CreditScoringMlops.ControlPlane.CommandCenter

open Python Interaction Machine

/-! ## Queries -/

/-- The operations that only read the tables. -/
def isQuery : QueryOp → Bool
  | .control (.store (.listReconcilable _)) => true
  | .control _ => false
  | _ => true

/-- The queries of the table of approvals. -/
def readsApprovals : QueryOp → Bool
  | .statusCounts => true
  | .listPending => true
  | .listRecent _ => true
  | .control (.store (.listReconcilable _)) => true
  | _ => false

/-- The queries of the audit trail. -/
def readsAudit : QueryOp → Bool
  | .eventCounts => true
  | .auditList _ _ _ => true
  | _ => false

/-- A query is of one of the tables. -/
theorem reads_of_isQuery {op : QueryOp} (h : isQuery op) : readsApprovals op ∨ readsAudit op := by
  cases op with
  | control op =>
    cases op with
    | store op =>
      cases op with
      | listReconcilable limit => exact .inl rfl
      | _ => cases h
    | _ => cases h
  | statusCounts => exact .inl rfl
  | listPending => exact .inl rfl
  | listRecent limit => exact .inl rfl
  | eventCounts => exact .inr rfl
  | auditList traceId eventType limit => exact .inr rfl

/-- Listing the reconcilable approvals changes no table. -/
theorem execStore_listReconcilable (env : Env) (limit : ℕ) (w : World) :
    execStore env (.listReconcilable limit) w =
      (ApprovalStore.listReconcilable w.approvals limit, w) := by
  have hperform : ApprovalStore.perform env.now w.approvals (.listReconcilable limit) =
      (ApprovalStore.listReconcilable w.approvals limit).map (·, w.approvals) := rfl
  rw [execStore, hperform]
  cases ApprovalStore.listReconcilable w.approvals limit <;> rfl

/-- What only reads fails, or is answered from the tables. -/
theorem orFault_reads {A : Type} (env : Env) (w : World) (result : Except PyExc A) :
    (orFault env w (result, w)).2 = w ∧
      (env.fault = none → (orFault env w (result, w)).1 = result) := by
  unfold orFault
  split
  · rename_i message hfault
    exact ⟨rfl, fun hnone => absurd (hfault.symm.trans hnone) (by simp)⟩
  · exact ⟨rfl, fun _ => rfl⟩

/-- A failing database is an error. -/
theorem orFault_error {A : Type} {env : Env} {message : String} (h : env.fault = some message)
    (w : World) (effect : Except PyExc A × World) :
    (orFault env w effect).1 = .error (.other message) := by
  simp only [orFault, h]

/-- A query leaves the world as it is, and unless the database fails, the tables tell the answer. -/
theorem exec_of_isQuery {op : QueryOp} (h : isQuery op) :
    ∃ f : ApprovalTable → List AuditEvent → op.Reply, ∀ i env w, (exec i op env w).2 = w ∧
      (env.fault = none → (exec i op env w).1 = f w.approvals w.audit) := by
  cases op with
  | control op =>
    cases op with
    | store op =>
      cases op with
      | listReconcilable limit =>
        refine ⟨fun t _ => ApprovalStore.listReconcilable t limit, fun i env w => ?_⟩
        have hexec : exec i (.control (.store (.listReconcilable limit))) env w =
            orFault env w (ApprovalStore.listReconcilable w.approvals limit, w) :=
          congrArg (orFault env w) (execStore_listReconcilable env limit w)
        rw [hexec]
        exact orFault_reads env w _
      | _ => cases h
    | _ => cases h
  | statusCounts =>
    exact ⟨fun t _ => .ok (ApprovalStore.statusCounts t), fun _ env w => orFault_reads env w _⟩
  | listPending =>
    exact ⟨fun t _ => .ok (ApprovalStore.listPending t), fun _ env w => orFault_reads env w _⟩
  | listRecent limit =>
    exact ⟨fun t _ => ApprovalStore.listRecent t limit, fun _ env w => orFault_reads env w _⟩
  | eventCounts =>
    exact ⟨fun _ audit => .ok (AuditStore.eventCounts audit),
      fun _ env w => orFault_reads env w _⟩
  | auditList traceId eventType limit =>
    exact ⟨fun _ audit => AuditStore.list audit traceId eventType limit,
      fun _ env w => orFault_reads env w _⟩

/-- A query of the approvals is answered alike where they are the same. -/
theorem answer_of_approvals {op : QueryOp} (h : readsApprovals op) (i : ℕ) {w w' : World}
    (hsame : w'.approvals = w.approvals) : (exec i op {} w').1 = (exec i op {} w).1 := by
  cases op with
  | control op =>
    cases op with
    | store op =>
      cases op with
      | listReconcilable limit =>
        have hanswer (v : World) : (exec i (.control (.store (.listReconcilable limit))) {} v).1 =
            ApprovalStore.listReconcilable v.approvals limit :=
          congrArg Prod.fst (execStore_listReconcilable {} limit v)
        rw [hanswer, hanswer, hsame]
      | _ => cases h
    | _ => cases h
  | statusCounts => exact congrArg Except.ok (congrArg ApprovalStore.statusCounts hsame)
  | listPending => exact congrArg Except.ok (congrArg ApprovalStore.listPending hsame)
  | listRecent limit => exact congrArg (ApprovalStore.listRecent · limit) hsame
  | eventCounts => cases h
  | auditList traceId eventType limit => cases h

/-- A query of the audit trail is answered alike where that is the same. -/
theorem answer_of_audit {op : QueryOp} (h : readsAudit op) (i : ℕ) {w w' : World}
    (hsame : w'.audit = w.audit) : (exec i op {} w').1 = (exec i op {} w).1 := by
  cases op with
  | eventCounts => exact congrArg Except.ok (congrArg AuditStore.eventCounts hsame)
  | auditList traceId eventType limit =>
    exact congrArg (AuditStore.list · traceId eventType limit) hsame
  | _ => cases h

/-- A query of a program that is served alone is answered by the tables, or its failure is
raised. -/
theorem answer_query {A B : Type} {o : QueryOp} {f : o.Reply → Except PyExc B}
    {k : B → QueryProgram A} (ho : isQuery o) (i : ℕ) (w : World) :
    answer i w (ask o >>= fun reply => ofExcept (f reply) >>= k) =
      f (exec i o {} w).1 >>= fun b => answer i w (k b) := by
  obtain ⟨g, hg⟩ := exec_of_isQuery ho
  have hexec : exec i o {} w = ((exec i o {} w).1, w) := Prod.ext rfl (hg i {} w).1
  refine (alone_perform hexec).trans ?_
  change answer i w (ofExcept (f (exec i o {} w).1) >>= k) = _
  cases f (exec i o {} w).1 <;> rfl

/-! ## The queries of the overview -/

/-- These operations have been performed, and the database has not failed. -/
def Performed (ops : List QueryOp) (h : List QueryEntry) : Prop :=
  h.map (·.op) = ops ∧ ∀ e ∈ h, e.env.fault = none

variable {A B : Type} {i : ℕ} {h : List QueryEntry} {w : World}

/-- A query whose failure is raised. -/
theorem ensures_query {o : QueryOp} {f : o.Reply → Except PyExc B} {k : B → QueryProgram A}
    {ops : List QueryOp} {Q : List QueryEntry → Prop}
    (hfault : ∀ env w message, env.fault = some message → ∃ exc, f (exec i o env w).1 = .error exc)
    (hh : Performed ops h)
    (hk : ∀ h w b, Performed (ops ++ [o]) h → system.Ensures i unconstrained (fun h _ _ => Q h)
      (fun _ _ _ => True) h w (k b)) :
    system.Ensures i unconstrained (fun h _ _ => Q h) (fun _ _ _ => True) h w
      (ask o >>= fun reply => ofExcept (f reply) >>= k) := by
  refine ⟨trivial, fun w' env _ _ => ?_⟩
  change system.Ensures i unconstrained _ _ _ _ (ofExcept (f (exec i o env w').1) >>= k)
  cases hreply : f (exec i o env w').1 with
  | error exc => exact ⟨trivial, trivial⟩
  | ok b =>
    refine hk _ _ b ⟨?_, fun e he => ?_⟩
    · rw [List.map_append, hh.1]
      rfl
    rcases List.mem_append.mp he with he | he
    · exact hh.2 e he
    · obtain rfl := List.mem_singleton.mp he
      change env.fault = none
      cases hnone : env.fault with
      | none => rfl
      | some message =>
        obtain ⟨exc, herror⟩ := hfault env w' message hnone
        exact absurd (herror.symm.trans hreply) (by simp)

/-- A store call of the control plane is one operation, whose failure is raised. -/
theorem onControl_store (op : StoreOp) :
    onControl (store op) = (ask (.control (.store op)) >>= fun reply => ofExcept reply) := by
  have hnext : (fun reply => (Program.ofExcept reply : Handler op.Result).translate
      fun o => ask (.control o)) = fun reply => ofExcept reply :=
    funext fun reply => Program.translate_ofExcept reply
  exact congrArg (Program.perform (QueryOp.control (.store op))) hnext

/-- The queries of an overview. -/
def overviewQueries (query : OverviewQuery) : List QueryOp :=
  [.statusCounts, .eventCounts, .listPending,
    .control (.store (.listReconcilable query.approvalLimit)), .listRecent query.approvalLimit,
    .auditList none none (some query.auditLimit)]

/-- They read. -/
theorem isQuery_overviewQueries (query : OverviewQuery) :
    ∀ op ∈ overviewQueries query, isQuery op := by
  simp [overviewQueries, isQuery]

/-- An overview that is returned has performed its queries, and the database has not failed. -/
theorem ensures_commandCenterOverview (query : OverviewQuery) :
    system.Ensures i unconstrained (fun h _ _ => Performed (overviewQueries query) h)
      (fun _ _ _ => True) [] w (commandCenterOverview query) := by
  have hnil : Performed [] [] := ⟨rfl, fun e he => (List.not_mem_nil he).elim⟩
  unfold commandCenterOverview
  refine ensures_query (o := .statusCounts) (f := id) ?_ hnil fun h w counts hh => ?_
  · exact fun _ w message hfault => ⟨.other message, orFault_error hfault w _⟩
  refine ensures_query (o := .eventCounts) (f := id) ?_ hh fun h w events hh => ?_
  · exact fun _ w message hfault => ⟨.other message, orFault_error hfault w _⟩
  refine ensures_query (o := .listPending) (f := id) ?_ hh fun h w pending hh => ?_
  · exact fun _ w message hfault => ⟨.other message, orFault_error hfault w _⟩
  rw [onControl_store]
  refine ensures_query (o := .control (.store (.listReconcilable query.approvalLimit)))
    (f := id) ?_ hh fun h w reconcilable hh => ?_
  · exact fun _ w message hfault => ⟨.other message, orFault_error hfault w _⟩
  refine ensures_query (o := .listRecent query.approvalLimit) (f := id) ?_ hh
    fun h w recent hh => ?_
  · exact fun _ w message hfault => ⟨.other message, orFault_error hfault w _⟩
  refine ensures_query (o := .auditList none none (some query.auditLimit)) (f := id) ?_ hh
    fun h w audit hh => ?_
  · exact fun _ w message hfault => ⟨.other message, orFault_error hfault w _⟩
  exact ⟨trivial, hh⟩

/-! ## The overview of one state -/

/-- The overview is computed from one state of the tables. -/
structure IsSnapshot (w : World) (query : OverviewQuery) (overview : CommandCenterOverview) :
    Prop where
  approvalCounts : overview.approvalCounts = ApprovalStore.statusCounts w.approvals
  auditEventCounts : overview.auditEventCounts = AuditStore.eventCounts w.audit
  pendingApprovals : overview.pendingApprovals =
    (ApprovalStore.listPending w.approvals).take query.approvalLimit
  reconcilableApprovals : .ok overview.reconcilableApprovals =
    ApprovalStore.listReconcilable w.approvals query.approvalLimit
  recentApprovals : .ok overview.recentApprovals =
    ApprovalStore.listRecent w.approvals query.approvalLimit
  recentAuditEvents : .ok overview.recentAuditEvents =
    AuditStore.list w.audit none none (some query.auditLimit)

/-- A program that is served alone computes it from the state that it finds. -/
theorem isSnapshot_of_answer {query : OverviewQuery} {overview : CommandCenterOverview}
    (h : answer i w (commandCenterOverview query) = .ok overview) :
    IsSnapshot w query overview := by
  unfold commandCenterOverview at h
  replace h : answer i w _ = .ok overview :=
    (answer_query (o := .statusCounts) (f := id) rfl i w).symm.trans h
  replace h : answer i w _ = .ok overview :=
    (answer_query (o := .eventCounts) (f := id) rfl i w).symm.trans h
  replace h : answer i w _ = .ok overview :=
    (answer_query (o := .listPending) (f := id) rfl i w).symm.trans h
  rw [onControl_store] at h
  obtain ⟨reconcilable, hreconcilable, h⟩ := bind_eq_ok.mp
    ((answer_query (o := .control (.store (.listReconcilable query.approvalLimit)))
      (f := id) rfl i w).symm.trans h)
  obtain ⟨recent, hrecent, h⟩ := bind_eq_ok.mp
    ((answer_query (o := .listRecent query.approvalLimit) (f := id) rfl i w).symm.trans h)
  obtain ⟨audit, haudit, h⟩ := bind_eq_ok.mp
    ((answer_query (o := .auditList none none (some query.auditLimit)) (f := id) rfl i
      w).symm.trans h)
  cases h
  have hlist := congrArg Prod.fst (execStore_listReconcilable {} query.approvalLimit w)
  exact ⟨rfl, rfl, rfl, hreconcilable.symm.trans hlist, hrecent.symm, haudit.symm⟩

/-- If not all of the list is used, the pending approvals are counted as they are listed. -/
theorem IsSnapshot.pending_count {query : OverviewQuery} {overview : CommandCenterOverview}
    (h : IsSnapshot w query overview)
    (hlength : overview.pendingApprovals.length < query.approvalLimit) :
    overview.approvalCounts.lookup ApprovalStatus.pending.value =
      some overview.pendingApprovals.length := by
  rw [h.pendingApprovals, List.length_take] at hlength
  rw [h.approvalCounts, ApprovalStore.statusCounts_pending, h.pendingApprovals, List.length_take,
    Nat.min_eq_right (by omega)]

/-! ## One committed state -/

section Legal

variable {S : Type} {m : Monitor QueryOp QueryOp.Reply S} {w₀ : World} {trace : List QueryEntry}

/-- The queries of a legal trace change nothing. -/
theorem after_of_isQuery (hlegal : system.Legal m w₀ trace w) {e : QueryEntry} (he : e ∈ trace)
    (hop : isQuery e.op) : e.after = e.before := by
  obtain ⟨pre, post, rfl⟩ := List.append_of_mem he
  obtain ⟨j, env, op, w', rfl⟩ : ∃ j env op w', e = system.entry j env op w' :=
    ⟨_, _, _, _, (hlegal.split rfl).2.2⟩
  obtain ⟨f, hf⟩ := exec_of_isQuery hop
  exact (hf j env w').1

/-- If the database has not failed, they are answered by the tables before them. -/
theorem answersAlike_of_isQuery (hlegal : system.Legal m w₀ trace w) {e : QueryEntry}
    (he : e ∈ trace) (hop : isQuery e.op) (hfault : e.env.fault = none) (i : ℕ) :
    system.AnswersAlike i {} e.before e := by
  obtain ⟨pre, post, rfl⟩ := List.append_of_mem he
  obtain ⟨j, env, op, w', rfl⟩ : ∃ j env op w', e = system.entry j env op w' :=
    ⟨_, _, _, _, (hlegal.split rfl).2.2⟩
  obtain ⟨f, hf⟩ := exec_of_isQuery hop
  refine Prod.ext ?_ (hf i {} w').1
  exact ((hf i {} w').2 rfl).trans ((hf j env w').2 hfault).symm

/-- A caller performs an operation of a kind before and after. -/
def Encloses (i : ℕ) (kind : QueryOp → Bool) (pre post : List QueryEntry) : Prop :=
  (∃ e ∈ pre, e.caller = i ∧ kind e.op) ∧ ∃ e ∈ post, e.caller = i ∧ kind e.op

instance (i : ℕ) (kind : QueryOp → Bool) (pre post : List QueryEntry) :
    Decidable (Encloses i kind pre post) :=
  inferInstanceAs (Decidable (_ ∧ _))

/-- No table is written between two queries of it by the caller. -/
structure Unwritten (i : ℕ) (trace : List QueryEntry) : Prop where
  approvals : ∀ pre f post, trace = pre ++ f :: post → Encloses i readsApprovals pre post →
    f.after.approvals = f.before.approvals
  audit : ∀ pre f post, trace = pre ++ f :: post → Encloses i readsAudit pre post →
    f.after.audit = f.before.audit

/-- Then a caller whose first query is of the approvals, and the second of the audit trail, is
undisturbed: the moment is the one before the second query. -/
theorem Unwritten.undisturbed (hlegal : system.Legal m w₀ trace w) {i : ℕ}
    (hunwritten : Unwritten i trace) (hqueries : ∀ e ∈ own trace i, isQuery e.op)
    {first second third : QueryEntry} {rest : List QueryEntry}
    (hown : own trace i = first :: second :: third :: rest) (hfirst : readsApprovals first.op)
    (hsecond : readsAudit second.op) (hthird : readsApprovals third.op) :
    system.Undisturbed i {} trace := by
  obtain ⟨front, later, rfl, hfront, hcaller₁, hlater⟩ := List.filter_eq_cons_iff.mp hown
  obtain ⟨middle, back, rfl, hmiddle, hcaller₂, hback⟩ := List.filter_eq_cons_iff.mp hlater
  replace hcaller₁ : first.caller = i := by simpa using hcaller₁
  replace hcaller₂ : second.caller = i := by simpa using hcaller₂
  have hown₃ : third ∈ own back i := by
    rw [own, hback]
    exact List.mem_cons_self
  obtain ⟨hmem₃, hcaller₃⟩ := List.mem_filter.mp hown₃
  replace hcaller₃ : third.caller = i := by simpa using hcaller₃
  refine ⟨front ++ first :: middle, second :: back, by simp, ?_, ?_⟩
  · intro pre e post hsplit hcaller f hf
    -- the only query before the moment is the first
    have hmem : e ∈ own (front ++ first :: middle) i :=
      List.mem_filter.mpr ⟨hsplit ▸ List.mem_append_right _ List.mem_cons_self, by simpa⟩
    obtain rfl : e = first := by
      rw [own, List.filter_append, List.filter_eq_nil_iff.mpr hfront, List.filter_cons_of_pos
        (by simpa), List.filter_eq_nil_iff.mpr hmiddle] at hmem
      simpa using hmem
    obtain ⟨before, after, rfl⟩ := List.append_of_mem hf
    refine answer_of_approvals hfirst i (hunwritten.approvals (pre ++ e :: before) f
      (after ++ second :: back) ?_ ⟨⟨e, by simp, hcaller, hfirst⟩, third, ?_, hcaller₃, hthird⟩)
    · have hall := congrArg (· ++ second :: back) hsplit
      simpa using hall
    · exact List.mem_append_right _ (List.mem_cons_of_mem _ hmem₃)
  · intro pre e post hsplit hcaller f hf
    obtain ⟨before, after, rfl⟩ := List.append_of_mem hf
    have htrace : front ++ first :: (middle ++ second :: back) =
        (front ++ first :: (middle ++ before)) ++ f :: (after ++ e :: post) := by
      rw [hsplit]
      simp
    have he : e ∈ own (front ++ first :: (middle ++ second :: back)) i :=
      List.mem_filter.mpr ⟨by rw [htrace]; simp, by simpa⟩
    rcases reads_of_isQuery (hqueries e he) with hreads | hreads
    · exact answer_of_approvals hreads i (hunwritten.approvals _ f _ htrace
        ⟨⟨first, by simp, hcaller₁, hfirst⟩, e, by simp, hcaller, hreads⟩)
    cases before with
    | nil =>
      -- this is the second query itself
      obtain rfl : second = f := (List.cons.inj hsplit).1
      rw [LeavesAnswer, after_of_isQuery hlegal (by simp)
        (hqueries _ (List.mem_filter.mpr ⟨by simp, by simpa⟩))]
    | cons head before =>
      obtain rfl : second = head := (List.cons.inj hsplit).1
      exact answer_of_audit hreads i (hunwritten.audit _ f _ htrace
        ⟨⟨second, by simp, hcaller₂, hsecond⟩, e, by simp, hcaller, hreads⟩)

/-- The operations that may write the table of approvals. -/
def mayWriteApprovals : QueryOp → Bool
  | .control (.store op) =>
    match op with
    | .get _ => false
    | .listReconcilable _ => false
    | _ => true
  | _ => false

/-- The operation that writes the audit trail. -/
def mayWriteAudit : QueryOp → Bool
  | .control (.record _) => true
  | _ => false

/-- Only audit writes append to the trail. -/
theorem exec_audit {i : ℕ} {op : Op} {env : Env} (h : ∀ event, op ≠ .record event) :
    (ControlPlane.exec i op env w).2.audit = w.audit := by
  cases op with
  | record event => exact absurd rfl (h event)
  | store op =>
    simp only [ControlPlane.exec, orFault, execStore]
    split
    · rfl
    · split <;> rfl
  | tryAcquire =>
    simp only [ControlPlane.exec, orFault]
    split
    · rfl
    · split <;> rfl
  | release =>
    simp only [ControlPlane.exec, orFault]
    split <;> rfl
  | kubectlApply jobName manifest =>
    simp only [ControlPlane.exec]
    split <;> rfl
  | _ => rfl

/-- The others leave the tables alone. -/
theorem exec_tables (i : ℕ) (op : QueryOp) (env : Env) (w : World) :
    (mayWriteApprovals op = false → (exec i op env w).2.approvals = w.approvals) ∧
      (mayWriteAudit op = false → (exec i op env w).2.audit = w.audit) := by
  by_cases hquery : isQuery op
  · obtain ⟨f, hf⟩ := exec_of_isQuery hquery
    exact ⟨fun _ => congrArg World.approvals (hf i env w).1,
      fun _ => congrArg World.audit (hf i env w).1⟩
  cases op with
  | control op =>
    refine ⟨fun hop => ?_, fun hop => ?_⟩
    · cases op with
      | store op =>
        cases op with
        | get approvalId =>
          have hget := (orFault_reads env w (.ok ((w.approvals.lookup approvalId).map
            (·.toSchema)))).1
          exact congrArg World.approvals hget
        | listReconcilable limit => exact (hquery rfl).elim
        | _ => cases hop
      | _ =>
        change (ControlPlane.exec i _ env w).2.approvals = w.approvals
        exact exec_approvals (by simp)
    · refine exec_audit fun event => ?_
      rintro rfl
      cases hop
  | _ => exact (hquery rfl).elim

/-- No table is written between two queries of it if no operation runs there that may write it. -/
theorem unwritten_of_kinds (hlegal : system.Legal m w₀ trace w) {i : ℕ}
    (h : ∀ n : Fin trace.length,
      (Encloses i readsApprovals (trace.take n) (trace.drop (n + 1)) →
        mayWriteApprovals (trace.get n).op = false) ∧
      (Encloses i readsAudit (trace.take n) (trace.drop (n + 1)) →
        mayWriteAudit (trace.get n).op = false)) : Unwritten i trace := by
  have hsplit {pre post : List QueryEntry} {f : QueryEntry} (htrace : trace = pre ++ f :: post) :
      (Encloses i readsApprovals pre post → mayWriteApprovals f.op = false) ∧
      (Encloses i readsAudit pre post → mayWriteAudit f.op = false) := by
    subst htrace
    simpa using h ⟨pre.length, by simp⟩
  refine ⟨fun pre f post htrace henclosed => ?_, fun pre f post htrace henclosed => ?_⟩ <;>
    rw [(hlegal.split htrace).2.2]
  · exact (exec_tables _ _ _ _).1 ((hsplit htrace).1 henclosed)
  · exact (exec_tables _ _ _ _).2 ((hsplit htrace).2 henclosed)

/-- The trace of every run is legal. -/
theorem legal_run (jobs : Jobs) (events : List QueryEvent) :
    system.Legal (.only fun _ => True) { jobs := jobs } (runFrom jobs events).trace
      (runFrom jobs events).world :=
  (system.disciplined_run (fun _ _ _ _ => trivial) (fun _ => Program.uses_all _) { jobs := jobs }
    events).legal

end Legal

/-- If no table is written between the first and the last query of it, the overview is the one of a
committed state of the run. -/
theorem overview_one_snapshot (jobs : Jobs) (events : List QueryEvent) (i : ℕ)
    (query : OverviewQuery) (overview : CommandCenterOverview)
    (hcaller : (runFrom jobs events).callers[i]? =
      some ⟨.overview query, some (.ret (.overview overview))⟩)
    (hunwritten : Unwritten i (runFrom jobs events).trace) :
    ∃ earlier, earlier <+: events ∧
      IsSnapshot (runFrom jobs earlier).world query overview := by
  have hkeeps := keeps_run (M := system) (i := i) (c := unconstrained) (r := .overview query)
    (Q := fun h _ _ => Performed (overviewQueries query) h) (E := fun _ _ _ => True)
    (fun _ => trivial) (fun _ _ _ _ _ => trivial) (fun _ _ _ _ => trivial) (fun _ _ => trivial)
    (fun w => (ensures_map _ _).mpr (ensures_commandCenterOverview query)) { jobs := jobs } events
    fun _ _ => trivial
  obtain ⟨-, -, -, hops, hanswered⟩ := hkeeps.live _ hcaller
  have hqueries : ∀ e ∈ own (runFrom jobs events).trace i, isQuery e.op := fun e he =>
    isQuery_overviewQueries query _ (hops ▸ List.mem_map_of_mem he)
  have hlegal := legal_run jobs events
  have hundisturbed : system.Undisturbed i {} (runFrom jobs events).trace := by
    obtain ⟨first, rest, hown, hfirst, hrest⟩ := List.map_eq_cons_iff.mp hops
    obtain ⟨second, rest, rfl, hsecond, hrest⟩ := List.map_eq_cons_iff.mp hrest
    obtain ⟨third, rest, rfl, hthird, -⟩ := List.map_eq_cons_iff.mp hrest
    exact hunwritten.undisturbed hlegal hqueries hown (by rw [hfirst]; rfl) (by rw [hsecond]; rfl)
      (by rw [hthird]; rfl)
  obtain ⟨pre, hpre, halike⟩ := hlegal.answersAlike hundisturbed
    (fun e he j w => by
      obtain ⟨f, hf⟩ := exec_of_isQuery (hqueries e he)
      exact ((hf i {} (abort j w)).2 rfl).trans ((hf i {} w).2 rfl).symm)
    fun e he => by
      obtain ⟨f, hf⟩ := exec_of_isQuery (hqueries e he)
      have hmem := List.mem_of_mem_filter he
      exact ⟨fun w => (hf i {} w).1,
        answersAlike_of_isQuery hlegal hmem (hqueries e he) (hanswered e he) i,
        after_of_isQuery hlegal hmem (hqueries e he)⟩
  obtain ⟨earlier, hearlier, hworld⟩ := exists_run_of_prefix hpre
  refine ⟨earlier, hearlier, isSnapshot_of_answer (i := i) ?_⟩
  have hout : system.alone i {} _ (QueryResponse.overview <$> commandCenterOverview query) = _ :=
    outcome_of_answersAlike hcaller halike
  rw [alone_map] at hout
  rw [answer, runFrom, hworld]
  cases hanswer : system.alone i {} (worldAfter { jobs := jobs } pre) (commandCenterOverview query)
  · rw [hanswer] at hout
    cases hout
  · rw [hanswer] at hout
    cases hout
    rfl

/-- The request for an approval. -/
def trainingRequest : ApprovalCreateRequest where
  action := "create_training_job"
  reason := "drift"
  actionLength := by decide
  reasonLength := by decide
  traceIdLength := by simp

/-- A run with others beside the overview. The audit event of a new approval is written before the
first query of the audit trail, a step of the cluster falls between two queries, and the approval is
decided after the last query of the approvals. -/
def openedThenRead : List QueryEvent :=
  [.arrive (.control (.createApproval trainingRequest)), .step 0 { uuid := "a" }, .step 0 {},
    .step 0 {}, .arrive (.overview {}), .step 1 {}, .step 0 { uuid := "e" }, .step 1 {},
    .arrive (.control (.cluster (.created "credit-training-a"))), .step 1 {}, .step 2 {},
    .step 1 {}, .step 1 {},
    .arrive (.control (.decide { approvalId := "a", approved := true, decidedAt := 1 })),
    .step 3 {}, .step 1 {}]

/-- It is the overview of one state all the same. -/
theorem overview_one_snapshot_openedThenRead :
    ∃ overview, (runFrom (fun _ => none) openedThenRead).callers[1]? =
        some ⟨.overview {}, some (.ret (.overview overview))⟩ ∧
      overview.pendingApprovals.length = 1 ∧ overview.recentAuditEvents.length = 1 ∧
      ∃ earlier, earlier <+: openedThenRead ∧
        IsSnapshot (runFrom (fun _ => none) earlier).world {} overview :=
  ⟨_, rfl, by decide +kernel, by decide +kernel,
    overview_one_snapshot (fun _ => none) openedThenRead 1 {} _ rfl
    (unwritten_of_kinds (legal_run (fun _ => none) openedThenRead) (by decide +kernel))⟩

/-- The run in which an approval is opened between the first and the second query. -/
def openedWhileReading : List QueryEvent :=
  [.arrive (.overview {}), .step 0 {}, .arrive (.control (.createApproval trainingRequest)),
    .step 1 { uuid := "a" }, .step 1 {}, .step 1 {}, .step 1 { uuid := "e" },
    .step 0 {}, .step 0 {}, .step 0 {}, .step 0 {}, .step 0 {}]

/-- It counts no pending approval, and lists one. -/
theorem overview_not_one_snapshot :
    ¬∀ (jobs : Jobs) (events : List QueryEvent) (i : ℕ) (query : OverviewQuery)
      (overview : CommandCenterOverview),
      (runFrom jobs events).callers[i]? =
          some ⟨.overview query, some (.ret (.overview overview))⟩ →
        ∃ earlier, earlier <+: events ∧
          IsSnapshot (runFrom jobs earlier).world query overview := by
  intro h
  obtain ⟨earlier, -, hsnapshot⟩ := h (fun _ => none) openedWhileReading 0 {} _ rfl
  exact absurd (hsnapshot.pending_count (by decide +kernel)) (by decide +kernel)

end CreditScoringMlops.ControlPlane.CommandCenter
