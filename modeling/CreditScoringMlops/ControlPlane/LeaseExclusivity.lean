import CreditScoringMlops.ControlPlane.NoBlindReexecution
import CreditScoringMlops.Interaction.Lease

/-!
# Lease exclusivity

The row of an approval is a lease on its execution: a won claim grants it, an unknown mark of its
owner yields it, the recovery of a stale execution revokes it, and a terminal mark settles it. So
the trace of a run is a log of that lease, and the general theory of leases says that no two
winners are active together, if every winner is done before its lease can run out.
-/

namespace CreditScoringMlops.ControlPlane

open Python Interaction ClaimProtocol ApprovalStore

variable {jobs : Jobs} {trace : List LogEntry} {w : World} {x : String}

/-- An operation on the execution of an approval: a store call, a status check of its Job, or a
part of an apply. -/
def actsOn (x : String) : Op → Bool
  | .store op => op.target == some x
  | .kubectlGet jobName => jobName == ReconciliationService.trainingJobName x
  | .applyCalled _ executionId => executionId == some x
  | .kubectlApply jobName _ => (KubernetesExecutor.jobName x).toOption == some jobName
  | .applyReturned executionId _ => executionId == some x
  | _ => false

/-- The approval for which an operation has won a claim. -/
def wonApproval (op : Op) (reply : op.Reply) : Option String :=
  (claimWon op reply).map Prod.snd

/-- What an operation does to the lease on an execution. -/
def leaseEffect (x : String) (op : Op) (reply : op.Reply) : LeaseEffect :=
  if wonApproval op reply = some x then .grant
  else if recovered op reply = some x then .revoke
  else if marked op reply = some (x, .unknown) then .yield
  else if marked op reply = some (x, .completed) ∨ marked op reply = some (x, .failed) then .settle
  else .none

/-- An entry of the trace as an entry of the log of one lease. -/
def leaseEntry (x : String) (e : LogEntry) : LeaseEntry ℕ Time where
  caller := e.caller
  time := e.env.now
  acts := actsOn x e.op
  effect := leaseEffect x e.op e.reply

/-- The lease that a row stands for. -/
def leaseOf : Option ApprovalRequestRow → LeaseState Time
  | none => .free
  | some row =>
    match row.status, row.executionStartedAt with
    | .executing, some startedAt => .held startedAt
    | .completed, _ => .settled
    | .failed, _ => .settled
    | _, _ => .free

section Effects

variable {op : Op} {reply : op.Reply}

/-- A claim is won on one of the routes. -/
theorem wonApproval_eq_some :
    wonApproval op reply = some x ↔ ∃ route, claimWon op reply = some (route, x) := by
  simp [wonApproval, Option.map_eq_some_iff]

/-- The lease is granted by a won claim. -/
theorem leaseEffect_eq_grant :
    leaseEffect x op reply = .grant ↔ ∃ route, claimWon op reply = some (route, x) := by
  rw [← wonApproval_eq_some]
  unfold leaseEffect
  split_ifs <;> simp_all

/-- It is revoked by a recovery. -/
theorem leaseEffect_eq_revoke (h : leaseEffect x op reply = .revoke) :
    recovered op reply = some x := by
  unfold leaseEffect at h
  split_ifs at h
  assumption

/-- A recovery is no claim. -/
theorem leaseEffect_of_recovered (h : recovered op reply = some x) :
    leaseEffect x op reply = .revoke := by
  have hclaim : wonApproval op reply ≠ some x := by
    cases op with
    | store op => cases op <;> first | cases h | simp [wonApproval, claimWon]
    | _ => cases h
  rw [leaseEffect, if_neg hclaim, if_pos h]

/-- It is yielded by an unknown mark. -/
theorem leaseEffect_eq_yield (h : leaseEffect x op reply = .yield) :
    marked op reply = some (x, .unknown) := by
  unfold leaseEffect at h
  split_ifs at h
  assumption

/-- It is settled by a terminal mark. -/
theorem leaseEffect_eq_settle (h : leaseEffect x op reply = .settle) :
    marked op reply = some (x, .completed) ∨ marked op reply = some (x, .failed) := by
  unfold leaseEffect at h
  split_ifs at h
  assumption

/-- An unknown mark is a call of `mark_unknown`. -/
theorem op_of_marked_unknown (h : marked op reply = some (x, .unknown)) :
    ∃ result, op = .store (.markUnknown x result) := by
  cases op with
  | store op => cases op <;> cases reply <;> cases h; exact ⟨_, rfl⟩
  | _ => cases h

end Effects

section Refinement

variable {s : Phase} {i : ℕ} {env : Env} {op : Op} {L : ℤ}

/-- A program marks and recovers only by the calls of the protocol. -/
theorem not_markExecuting_of_may (hmay : May s op) (id : String) :
    op ≠ .store (.markExecuting id) ∧ op ≠ .store (.markRetryExecuting id) := by
  cases hmay with
  | read hs hop => constructor <;> (rintro rfl; cases hop)
  | claim route x => cases route <;> simp [Route.claim]
  | close h => constructor <;> (rintro ⟨⟩; cases h)
  | _ => simp

/-- The owner makes an unknown mark on the way, if it is the owner of a retry, or to close. -/
theorem of_may_markUnknown {result : Dict} (hmay : May s (.store (.markUnknown x result))) :
    s = .owns .retry x ∨ (∃ status, s = .seen x status) ∨
      ∃ route ended, s = .applied route x ended := by
  generalize hop : Op.store (.markUnknown x result) = op at hmay
  cases hmay with
  | read hs hop' => subst hop; cases hop'
  | claim route x => cases route <;> cases hop
  | giveUp result => cases hop; exact .inl rfl
  | retryUnclear result => cases hop; exact .inr (.inl ⟨_, rfl⟩)
  | @close route x ended op h =>
    cases hop
    obtain ⟨rfl, -⟩ := Prod.mk.inj (Option.some.inj h)
    exact .inr (.inr ⟨route, ended, rfl⟩)
  | _ => cases hop

/-- An unknown mark is made by the owner. -/
theorem owner_of_may_markUnknown {result : Dict} (hmay : May s (.store (.markUnknown x result))) :
    ∃ route, s.owner = some (route, x) := by
  obtain rfl | ⟨status, rfl⟩ | ⟨route, ended, rfl⟩ := of_may_markUnknown hmay
  · exact ⟨.retry, rfl⟩
  · exact ⟨.retry, rfl⟩
  · exact ⟨route, rfl⟩

/-- An unknown mark that succeeds closes the execution. -/
theorem next_of_marked_unknown (hmay : May s op) {reply : op.Reply}
    (h : marked op reply = some (x, .unknown)) : ∃ route, next s op reply = .closed route x := by
  obtain ⟨result, rfl⟩ := op_of_marked_unknown h
  cases reply with
  | error exc => cases h
  | ok a =>
    obtain rfl | ⟨status, rfl⟩ | ⟨route, ended, rfl⟩ := of_may_markUnknown hmay
    · exact ⟨.retry, rfl⟩
    · exact ⟨.retry, rfl⟩
    · exact ⟨route, rfl⟩

/-- An operation without an effect on the lease leaves the lease that the row stands for. -/
theorem leaseOf_exec_of_none (hmay : May s op) (h : leaseEffect x op (exec i op env w).1 = .none) :
    leaseOf ((exec i op env w).2.approvals.lookup x) = leaseOf (w.approvals.lookup x) := by
  by_cases hop : ∃ o, op = .store o
  · obtain ⟨o, rfl⟩ := hop
    have hstep := exec_rowStep i o env w x
    generalize hbefore : w.approvals.lookup x = before at hstep
    generalize hafter : (exec i (.store o) env w).2.approvals.lookup x = after at hstep
    cases hstep with
    | stay row => rfl
    | insert request hcreate hid hstatus => simp [leaseOf, newRow, hstatus]
    | @change row row' hid htarget hchange =>
      have hne : row'.status ≠ row.status := fun heq => by
        have hedge := hchange.edge
        rw [heq] at hedge
        generalize row.status = a at hedge
        cases hedge
      have hrow : (exec i (.store o) env w).2.approvals.lookup x ≠ w.approvals.lookup x := by
        intro heq
        rw [hbefore, hafter] at heq
        exact hne (congrArg ApprovalRequestRow.status (Option.some.inj heq))
      obtain ⟨a, hreply⟩ := exec_ok_of_change hrow
      have hok := exec_store_ok hreply
      rw [hreply] at h
      obtain ⟨hexecuting, hretrying⟩ := not_markExecuting_of_may hmay x
      cases hchange with
      | decide decision hpending =>
        cases decision.approved <;> simp [leaseOf, hpending]
      | execute id hop hstatus =>
        obtain rfl | rfl := hop <;> cases htarget
        · exact absurd rfl hexecuting
        · rw [perform, claimExecution_of_lookup hbefore, hstatus] at hok
          generalize (exec i _ env w).2.approvals = table at hok
          cases hok
          simp [leaseEffect, wonApproval, claimWon] at h
      | unknown id result hstatus =>
        cases htarget
        simp [leaseEffect, wonApproval, claimWon, recovered, marked, StoreOp.marks] at h
      | complete id result hstatus =>
        cases htarget
        simp [leaseEffect, wonApproval, claimWon, recovered, marked, StoreOp.marks] at h
      | fail id result hstatus =>
        cases htarget
        simp [leaseEffect, wonApproval, claimWon, recovered, marked, StoreOp.marks] at h
      | retry id hop hstatus =>
        obtain rfl | rfl := hop <;> cases htarget
        · exact absurd rfl hretrying
        · rw [perform, claimRetryExecution_of_lookup hbefore, hstatus] at hok
          generalize (exec i _ env w).2.approvals = table at hok
          cases hok
          simp [leaseEffect, wonApproval, claimWon] at h
      | recover id leaseSeconds hstatus hstarted hpos hstale =>
        cases htarget
        obtain ⟨-, htable⟩ | ⟨_, -, -, -, -, rfl, -⟩ := recoverStaleExecution_ok hbefore hok
        · rw [htable, hbefore] at hafter
          exact absurd (congrArg ApprovalRequestRow.status (Option.some.inj hafter)).symm hne
        · simp [leaseEffect, wonApproval, claimWon, recovered] at h
  · rw [exec_approvals fun o ho => hop ⟨o, ho⟩]

/-- A shorter lease is over earlier. -/
theorem seconds_le {a b : ℤ} (h : a ≤ b) : seconds a.toNat ≤ seconds b.toNat := by
  unfold seconds
  omega

/-- Every operation is a step of the lease. -/
theorem leaseStep_exec (hmay : May s op) (hlease : ∀ l, recoveryLease op = some l → L ≤ l)
    (hrows : ∀ row, w.approvals.lookup x = some row → RowInvariant row) :
    LeaseStep (seconds L.toNat) (leaseOf (w.approvals.lookup x))
      (leaseEntry x (system.entry i env op w))
      (leaseOf ((exec i op env w).2.approvals.lookup x)) := by
  -- the clock reading of an executing row is there
  have hheld : ∀ {row}, w.approvals.lookup x = some row → row.status = .executing →
      ∃ since, leaseOf (w.approvals.lookup x) = .held since := by
    intro row hrow hstatus
    have hsome := (hrows row hrow).executionStartedAt.mpr (by rw [hstatus]; rfl)
    obtain ⟨since, hsince⟩ := Option.isSome_iff_exists.mp hsome
    exact ⟨since, by simp [leaseOf, hrow, hstatus, hsince]⟩
  cases heffect : leaseEffect x op (exec i op env w).1 with
  | none =>
    rw [leaseOf_exec_of_none hmay heffect]
    exact .none heffect
  | grant =>
    obtain ⟨route, hclaim⟩ := leaseEffect_eq_grant.mp heffect
    obtain ⟨-, row, hrow, hstatus, hafter⟩ := claimWon_exec hclaim
    have hfree : leaseOf (w.approvals.lookup x) = .free := by
      cases route <;> simp [leaseOf, hrow, hstatus, Route.source]
    rw [hfree, hafter]
    exact .grant heffect
  | revoke =>
    obtain ⟨l, row, startedAt, hl, hrow, hstatus, hstarted, hstale, result, hafter⟩ :=
      recovered_exec (leaseEffect_eq_revoke heffect)
    rw [hafter, hrow]
    simp only [leaseOf, hstatus, hstarted]
    exact .revoke heffect ((Nat.add_le_add_left (seconds_le (hlease l hl)) startedAt).trans hstale)
  | yield =>
    obtain ⟨row, hrow, ⟨hwrites, result, hafter⟩ | ⟨hrepeats, -⟩⟩ :=
      marked_exec (leaseEffect_eq_yield heffect)
    · obtain ⟨since, hsince⟩ := hheld hrow (by
        cases hstatus : row.status <;> first | rfl | simp [hstatus, markWrites] at hwrites)
      rw [hsince, hafter]
      exact .yield heffect
    · cases hrepeats
  | settle =>
    have hsettled : leaseOf ((exec i op env w).2.approvals.lookup x) = .settled := by
      obtain hmarked | hmarked := leaseEffect_eq_settle heffect <;>
        obtain ⟨row, hrow, ⟨hwrites, result, hafter⟩ | ⟨hrepeats, hsame⟩⟩ := marked_exec hmarked
      · simp [leaseOf, hafter]
      · cases hstatus : row.status <;> simp [hstatus, markRepeats] at hrepeats
        simp [leaseOf, hsame, hrow, hstatus]
      · simp [leaseOf, hafter]
      · cases hstatus : row.status <;> simp [hstatus, markRepeats] at hrepeats
        simp [leaseOf, hsame, hrow, hstatus]
    rw [hsettled]
    exact .settle heffect

end Refinement

/-- What a caller has won it has been granted. -/
theorem granted_iff_won {i : ℕ} :
    Granted (trace.map (leaseEntry x)) i ↔ ∃ route, Won trace i (route, x) := by
  constructor
  · rintro ⟨_, hmem, heffect, hcaller⟩
    obtain ⟨e, he, rfl⟩ := List.mem_map.mp hmem
    obtain ⟨route, hclaim⟩ := leaseEffect_eq_grant.mp heffect
    exact ⟨route, e, he, hcaller, hclaim⟩
  · rintro ⟨route, e, he, hcaller, hclaim⟩
    exact ⟨leaseEntry x e, List.mem_map_of_mem he,
      leaseEffect_eq_grant.mpr ⟨route, hclaim⟩, hcaller⟩

/-- The trace of a run is a log of the lease that the row stands for. -/
theorem Legal.leaseRun {L : ℤ} (h : Legal jobs trace w)
    (hlease : ∀ e ∈ trace, ∀ l, recoveryLease e.op = some l → L ≤ l) :
    LeaseRun (seconds L.toNat) (trace.map (leaseEntry x)) (leaseOf (w.approvals.lookup x)) := by
  induction h with
  | nil => exact .nil
  | @snoc trace w i env op h hmay ih =>
    rw [List.map_append, List.map_singleton]
    refine .snoc _ (ih fun e he => hlease e (List.mem_append_left _ he)) ?_ fun hyield => ?_
    · exact leaseStep_exec hmay (hlease (system.entry i env op w) (by simp))
        fun row hrow => Legal.rowInvariant h hrow
    · obtain ⟨result, rfl⟩ := op_of_marked_unknown (leaseEffect_eq_yield hyield)
      obtain ⟨route, howner⟩ := owner_of_may_markUnknown hmay
      exact ⟨by simp [leaseEntry, Machine.entry, actsOn, StoreOp.target],
        granted_iff_won.mpr ⟨route, (owner_iff_won h i _).mp howner⟩⟩
  | abort i h ih => exact ih hlease

/-- At every moment of a disciplined run, at most one caller is active, and the row tells it. -/
theorem Legal.exclusive {L : ℤ} {pre post : List LogEntry} (h : Legal jobs pre w)
    (hlease : ∀ e ∈ trace, ∀ l, recoveryLease e.op = some l → L ≤ l)
    (hlog : LeaseDiscipline (seconds L.toNat) (trace.map (leaseEntry x)))
    (htrace : trace = pre ++ post) :
    Exclusive (pre.map (leaseEntry x)) (post.map (leaseEntry x))
      (leaseOf (w.approvals.lookup x)) := by
  subst htrace
  rw [List.map_append] at hlog
  exact (h.leaseRun fun e he => hlease e (List.mem_append_left _ he)).exclusive hlog

/-- After its unknown mark, a program has closed. -/
theorem closed_of_marked_unknown (h : Legal jobs trace w) {i : ℕ}
    (hmarked : ∃ y ∈ trace, y.caller = i ∧ marked y.op y.reply = some (x, .unknown)) :
    ∃ route, phaseOf trace i = .closed route x := by
  refine h.phase_induction (P := fun trace s =>
    (∃ y ∈ trace, y.caller = i ∧ marked y.op y.reply = some (x, .unknown)) →
      ∃ route, s = .closed route x) i ?_ ?_ ?_ hmarked
  · rintro ⟨y, hy, -⟩
    cases hy
  · rintro trace s e he ih ⟨y, hy, hcaller, hmarked⟩
    rcases List.mem_append.mp hy with hy | hy
    · exact ih ⟨y, hy, hcaller, hmarked⟩
    · obtain rfl := List.mem_singleton.mp hy
      exact absurd hcaller he
  · rintro trace w s env op hlegal - hmay ih ⟨y, hy, hcaller, hmarked⟩
    rcases List.mem_append.mp hy with hy | hy
    · obtain ⟨route, rfl⟩ := ih ⟨y, hy, hcaller, hmarked⟩
      cases hmay with
      | audit event => exact ⟨route, rfl⟩
      | read hs hop => cases hs
      | create hs hstatus haction => cases hs
    · obtain rfl := List.mem_singleton.mp hy
      exact next_of_marked_unknown hmay hmarked

/-- An unknown mark is the last action of its caller. -/
theorem yield_is_last (h : Legal jobs trace w) :
    trace.Pairwise fun y a => leaseEffect x y.op y.reply = .yield → a.caller = y.caller →
      ¬actsOn x a.op := by
  refine List.pairwise_iff_forall_sublist.mpr fun {y a} hsub hyield hcaller hacts => ?_
  obtain ⟨pre, post, htrace, hy⟩ := exists_split_of_sublist hsub
  obtain ⟨i, env, op, w', rfl, hpre, hmay⟩ := h.at_entry htrace
  obtain ⟨route, hclosed⟩ : ∃ route, phaseOf pre i = .closed route x :=
    closed_of_marked_unknown hpre ⟨y, hy, hcaller.symm, leaseEffect_eq_yield hyield⟩
  rw [hclosed] at hmay
  cases hmay with
  | audit event => cases hacts
  | read hs hop => cases hs
  | create hs hstatus haction => cases hs

/-- A caller is between winning a claim of an approval and its last action on the execution. -/
def Working (x : String) (pre post : List LogEntry) (i : ℕ) : Prop :=
  (∃ route, Won pre i (route, x)) ∧ ∃ a ∈ post, a.caller = i ∧ actsOn x a.op

/-- To work is to be active in the log of the lease. -/
theorem Working.active {pre post : List LogEntry} {i : ℕ} (h : Working x pre post i) :
    Active (pre.map (leaseEntry x)) (post.map (leaseEntry x)) i := by
  obtain ⟨hwon, a, ha, hcaller, hacts⟩ := h
  exact ⟨granted_iff_won.mpr hwon, leaseEntry x a, List.mem_map_of_mem ha, hcaller, hacts⟩

/-- Lease exclusivity: if the clock does not go back, no recovery goes by a lease shorter than
`L`, and every winner of a claim is done with the execution before `L` seconds have passed, then
at every moment at most one caller works on the execution; no caller acts on it, as in an apply
call that has not returned, once another caller begins to apply; and whoever has won a claim
before a recovery is done by then. -/
theorem lease_exclusive (jobs : Jobs) (events : List SystemEvent) (x : String) (L : ℤ)
    (hclock : (runFrom jobs events).trace.Pairwise fun e f => e.env.now ≤ f.env.now)
    (hlease : ∀ e ∈ (runFrom jobs events).trace, ∀ l, recoveryLease e.op = some l → L ≤ l)
    (hprompt : (runFrom jobs events).trace.Pairwise fun c a => wonApproval c.op c.reply = some x →
      a.caller = c.caller → actsOn x a.op → a.env.now < c.env.now + seconds L.toNat) :
    (∀ pre post, (runFrom jobs events).trace = pre ++ post →
      ∀ i j, Working x pre post i → Working x pre post j → i = j) ∧
    (∀ pre f post, (runFrom jobs events).trace = pre ++ f :: post → Applies f x →
      ∀ e ∈ pre, Applies e x → ∀ a ∈ post, a.caller = e.caller → ¬actsOn x a.op) ∧
    ∀ pre r post, (runFrom jobs events).trace = pre ++ r :: post →
      recovered r.op r.reply = some x → ∀ i, ¬Working x pre post i := by
  have hlegal := legal_runFrom jobs events
  generalize (runFrom jobs events).trace = trace, (runFrom jobs events).world = w
    at hlegal hclock hlease hprompt ⊢
  have hlog : LeaseDiscipline (seconds L.toNat) (trace.map (leaseEntry x)) :=
    .of_clock (List.pairwise_map.mpr (yield_is_last hlegal)) (List.pairwise_map.mpr hclock)
      (List.pairwise_map.mpr (hprompt.imp fun h hgrant =>
        h (wonApproval_eq_some.mpr (leaseEffect_eq_grant.mp hgrant))))
  have hexclusive : ∀ {pre post w'}, trace = pre ++ post → Legal jobs pre w' →
      Exclusive (pre.map (leaseEntry x)) (post.map (leaseEntry x))
        (leaseOf (w'.approvals.lookup x)) := fun htrace hpre => hpre.exclusive hlease hlog htrace
  refine ⟨fun pre post htrace i j hi hj => ?_, fun pre f post htrace hf e he happly a ha hcaller
    hacts => ?_, fun pre r post htrace hrecovered i hi => ?_⟩
  · rw [htrace] at hlegal
    obtain ⟨w', hpre⟩ := Machine.Legal.take hlegal
    exact (hexclusive htrace hpre i hi.active).1 j hj.active
  · obtain ⟨j, env, op, w', rfl, hpre, -⟩ := hlegal.at_entry htrace
    obtain ⟨before, after, hsplit⟩ := List.append_of_mem he
    obtain ⟨route, hwon⟩ := won_of_applies hpre hsplit happly
    have hfirst : Working x pre (system.entry j env op w' :: post) e.caller :=
      ⟨⟨route, hwon.mono (by simp [hsplit])⟩, a, List.mem_cons_of_mem _ ha, hcaller, hacts⟩
    have hsecond : Working x pre (system.entry j env op w' :: post) j := by
      obtain ⟨approved, rfl⟩ : ∃ approved, op = .applyCalled approved (some x) := hf
      exact ⟨won_of_applies hlegal htrace ⟨approved, rfl⟩, _, List.mem_cons_self, rfl,
        by simp [Machine.entry, actsOn]⟩
    have hsub : [e, system.entry j env op w'].Sublist trace := by
      rw [htrace]
      exact (List.singleton_sublist.mpr he).append (List.singleton_sublist.mpr List.mem_cons_self)
    obtain ⟨approved, happly⟩ := happly
    obtain ⟨approved', hf⟩ := hf
    exact apply_callers_ne hlegal hsub (by rw [happly]; rfl) (by rw [hf]; rfl)
      ((hexclusive htrace hpre _ hfirst.active).1 _ hsecond.active)
  · obtain ⟨j, env, op, w', rfl, hpre, hmay⟩ := hlegal.at_entry htrace
    have hstep : LeaseStep (seconds L.toNat) _ (leaseEntry x (system.entry j env op w')) _ :=
      leaseStep_exec hmay (hlease (system.entry j env op w') (by simp [htrace]))
        fun row hrow => hpre.rowInvariant hrow
    refine not_active_of_revoke (i := i) (hexclusive htrace hpre) ?_
      (leaseEffect_of_recovered hrecovered) hstep ?_
    · rw [← List.map_cons, ← List.map_append, ← htrace]
      exact hlog
    · exact ⟨granted_concat.mpr (.inl hi.active.1), hi.active.2⟩

/-- Exclusivity on a run in which an apply times out after 10 seconds, the approval is retried,
and a lease of 900 seconds is longer than either attempt. -/
theorem lease_exclusive_retried :
    let events := approvedRun ++ [.arrive (.execute {} "a1"), .step 2 { now := 2000000 },
      .step 2 { now := 2000000 },
      .step 2 { now := 2000000, manifest := .ok "name: credit-model-training" },
      .step 2 { now := 2000000, manifest := .ok "name: credit-model-training" },
      .step 2 { now := 12000000 }, .step 2 { now := 12000000 }, .step 2 { now := 12000000 },
      .arrive (.retryApproval {} "a1"), .step 3 { now := 20000000 }, .step 3 { now := 20000000 },
      .step 3 { now := 20000000 },
      .step 3 { now := 20000000, kubectlGet := .exited 1 (.error "") },
      .step 3 { now := 20000000, uuid := "e3" }, .step 3 { now := 21000000 }]
    ∀ pre post, (runFrom (fun _ => none) events).trace = pre ++ post →
      ∀ i j, Working "a1" pre post i → Working "a1" pre post j → i = j := by
  intro events
  exact (lease_exclusive (fun _ => none) events "a1" 900 (by decide) (by decide) (by decide)).1

end CreditScoringMlops.ControlPlane
