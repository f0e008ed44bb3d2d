import CreditScoringMlops.ControlPlane.RequestPrograms

/-!
# The steps of the claim protocol

What one operation does to the phase of its program, read backwards: from the phase after it to
the phase before it and to what the operation was. The histories are inductions over these.
-/

namespace CreditScoringMlops.ControlPlane

open Python Interaction ClaimProtocol

variable {s : Phase} {op : Op}

/-- The mark that a successful call has made. -/
def marked : (op : Op) → op.Reply → Option (String × ApprovalStatus)
  | .store op, .ok _ => op.marks
  | _, _ => none

/-- The approval whose stale execution an operation has recovered. -/
def recovered : (op : Op) → op.Reply → Option String
  | .store (.recoverStaleExecution approvalId _), .ok (_, true) => some approvalId
  | _, _ => none

/-- The lease that a recovery goes by. -/
def recoveryLease : Op → Option ℤ
  | .store (.recoverStaleExecution _ leaseSeconds) => some leaseSeconds
  | _ => none

/-- The Job that an operation has looked up, and what kubectl said. -/
def lookedUp : (op : Op) → op.Reply → Option (String × KubectlGet)
  | .kubectlGet jobName, ended => some (jobName, ended)
  | _, _ => none

/-- The approval that an operation has read, with its status. -/
def statusRead : (op : Op) → op.Reply → Option (String × ApprovalStatus)
  | .store (.get approvalId), .ok found => found.map fun approval => (approvalId, approval.status)
  | _, _ => none

/-- The Job that an operation has applied, and how kubectl ended. -/
def kubectlApplied : (op : Op) → op.Reply → Option (String × KubectlApply)
  | .kubectlApply jobName _, ended => some (jobName, ended)
  | _, _ => none

/-! ## Claims -/

/-- A claim is the first act of a program. -/
theorem fresh_of_claim (hmay : May s op) (hclaim : claimOf op ≠ none) :
    ∃ f, s = .free f ∧ f.fresh := by
  cases hmay with
  | read hs hop => exact absurd (claimOf_of_isReading hop) hclaim
  | claim route x hf => exact ⟨_, rfl, hf⟩
  | close h => exact absurd (claimOf_of_marks h) hclaim
  | _ => exact absurd rfl hclaim

/-- An owner makes no claim. -/
theorem claimOf_of_owner (hmay : May s op) (howner : s.owner ≠ none) : claimOf op = none := by
  by_contra hclaim
  obtain ⟨f, rfl, -⟩ := fresh_of_claim hmay hclaim
  exact howner rfl

/-- What is no claim is not won. -/
theorem claimWon_of_not_claim (h : claimOf op = none) (reply : op.Reply) :
    claimWon op reply = none := by
  cases op with
  | store op => cases op <;> first | rfl | cases h
  | _ => rfl

/-- A claim that is won makes its program the owner. -/
theorem next_of_claimWon {reply : op.Reply} {route : Route} {x : String}
    (h : claimWon op reply = some (route, x)) : next s op reply = .owns route x := by
  cases hclaim : claimOf op with
  | none =>
    rw [claimWon_of_not_claim hclaim] at h
    cases h
  | some claim => simp only [next, hclaim, h]

/-- A claim that is not won ends its program. -/
theorem next_of_claim_lost {reply : op.Reply} (hclaim : claimOf op ≠ none)
    (h : claimWon op reply = none) : next s op reply = .lost := by
  obtain ⟨claim, hclaim⟩ := Option.ne_none_iff_exists'.mp hclaim
  simp only [next, hclaim, h]

/-- By a claim, a program comes to own what it wins. -/
theorem owner_next_of_claim {reply : op.Reply} (hclaim : claimOf op ≠ none) :
    (next s op reply).owner = claimWon op reply := by
  cases hwon : claimWon op reply with
  | none => rw [next_of_claim_lost hclaim hwon]; rfl
  | some claim => rw [next_of_claimWon hwon]; rfl

/-- Otherwise it keeps what it owns. -/
theorem owner_next (hmay : May s op) (hclaim : claimOf op = none) (reply : op.Reply) :
    (next s op reply).owner = s.owner := by
  cases hf : s.free? with
  | some f => rw [owner_of_free (free_next hf hclaim reply), owner_of_free hf]
  | none =>
    rw [next_of_not_claim hclaim]
    split
    · rfl
    · simp only [after, hf]
      cases hmay with
      | read hs hop => rw [Phase.isFree, hf] at hs; cases hs
      | create hs hstatus haction => rw [Phase.isFree, hf] at hs; cases hs
      | claim route x hfresh => cases hf
      | complete x hfound hstatus hjudged h => cases hf
      | fail x hfound hstatus hjudged h => cases hf
      | recover x hfound hjudged h hlease => cases hf
      | _ => rfl

/-- A program that may go on is free or owns an execution. -/
theorem free_of_owner (hmay : May s op) (h : s.owner = none) : ∃ f, s.free? = some f := by
  cases s with
  | free f => exact ⟨f, rfl⟩
  | lost =>
    cases hmay with
    | read hs hop => cases hs
    | create hs hstatus haction => cases hs
  | refused owner mark =>
    obtain rfl : owner = none := h
    exact ⟨_, rfl⟩
  | _ => cases h

/-- A program that has been refused has just been so, or was before. -/
theorem next_eq_refused {reply : op.Reply} {owner : Option (Route × String)}
    {mark : Option (String × ApprovalStatus)} (h : next s op reply = .refused owner mark) :
    s = .refused owner mark ∨ refusal op reply ∧ markOf op = mark := by
  by_cases hclaim : claimOf op = none
  · rw [next_of_not_claim hclaim] at h
    split at h
    · rename_i hrefusal
      cases h
      exact .inr ⟨hrefusal, rfl⟩
    · unfold after at h
      split at h
      · cases h
      · unfold ownerAfter at h
        split at h <;> first | exact .inl h | cases h
  · cases hwon : claimWon op reply with
    | none => rw [next_of_claim_lost hclaim hwon] at h; cases h
    | some claim => rw [next_of_claimWon hwon] at h; cases h

/-! ## Free programs -/

/-- What a program without a claim knows, it knew before or has just learned; or it has been
refused and forgotten everything. -/
theorem free_of_next (hmay : May s op) {reply : op.Reply} {f' : Free}
    (h : (next s op reply).free? = some f') :
    claimOf op = none ∧
      ∃ f, s.free? = some f ∧ (f' = { fresh := false } ∨ f' = f.after op reply) := by
  have hclaim : claimOf op = none := by
    by_contra hclaim
    cases hwon : claimWon op reply with
    | none => rw [next_of_claim_lost hclaim hwon] at h; cases h
    | some claim => rw [next_of_claimWon hwon] at h; cases h
  obtain ⟨f, hf⟩ := free_of_owner hmay ((owner_next hmay hclaim reply).symm.trans (owner_of_free h))
  refine ⟨hclaim, f, hf, ?_⟩
  rw [free_next hf hclaim] at h
  split at h
  · exact .inl (Option.some.inj h).symm
  · exact .inr (Option.some.inj h).symm

/-- A program that may still claim has only read approvals. -/
theorem fresh_of_next (hmay : May s op) {reply : op.Reply} {f' : Free}
    (h : next s op reply = .free f') (hfresh : f'.fresh) :
    (∃ f, s = .free f ∧ f.fresh) ∧ ∃ x, op = .store (.get x) := by
  obtain ⟨-, f, hf, rfl | rfl⟩ := free_of_next hmay (by rw [h]; rfl)
  · cases hfresh
  have hget : f.fresh ∧ ∃ x, op = .store (.get x) := by
    cases op with
    | store op => cases op <;> cases reply <;> first | exact ⟨hfresh, _, rfl⟩ | cases hfresh
    | _ => cases hfresh
  refine ⟨⟨f, ?_, hget.1⟩, hget.2⟩
  cases s with
  | free f => cases hf; rfl
  | refused owner mark => cases owner <;> cases hf; cases hget.1
  | _ => cases hf

/-- The approval that a program remembers. -/
theorem found_after {f : Free} {reply : op.Reply} {p : String × ApprovalStatus}
    (h : (f.after op reply).found = some p) : f.found = some p ∨ statusRead op reply = some p := by
  cases op with
  | store op => cases op <;> cases reply <;> first | exact .inl h | exact .inr h
  | _ => exact .inl h

/-- The Job that a program has judged. -/
theorem judged_after {f : Free} {reply : op.Reply} {name : String} {status : Except PyExc Dict}
    (h : (f.after op reply).judged = some (name, status)) :
    f.judged = some (name, status) ∨ ∃ ended, lookedUp op reply = some (name, ended) ∧
      KubernetesExecutor.classify ended = status := by
  cases op with
  | kubectlGet name' => cases h; exact .inr ⟨_, rfl, rfl⟩
  | store op => cases op <;> cases reply <;> exact .inl h
  | _ => exact .inl h

/-- A store call that succeeds settles the outcome if it is a mark. -/
theorem settled_after_store (f : Free) {op : StoreOp} (a : op.Result) :
    (f.after (.store op) (.ok a)).settled = (f.settled || op.marks.isSome) ∧
      (f.after (.store op) (.ok a)).judged = f.judged := by
  cases op <;> simp [Free.after, StoreOp.marks]

/-- The outcome that a program has settled. -/
theorem settled_after {f : Free} {reply : op.Reply} (h : (f.after op reply).settled) :
    (f.after op reply).judged = f.judged ∧ (f.settled ∨ marked op reply ≠ none) := by
  cases op with
  | kubectlGet name => cases h
  | store op =>
    cases reply with
    | error exc => cases op <;> exact ⟨rfl, .inl h⟩
    | ok a =>
      obtain ⟨hsettled, hjudged⟩ := settled_after_store f a
      rw [hsettled, Bool.or_eq_true] at h
      exact ⟨hjudged, h.imp_right Option.isSome_iff_ne_none.mp⟩
  | _ => exact ⟨rfl, .inl h⟩

/-! ## Owners -/

/-- A program comes to own an execution by winning its claim, or goes on as its owner. -/
theorem next_eq_owned (hmay : May s op) {reply : op.Reply} {s' : Phase}
    (h : next s op reply = s') (howner : s'.owner ≠ none)
    (hrefused : ∀ owner mark, s' ≠ .refused owner mark) :
    (∃ route x, s' = .owns route x ∧ claimWon op reply = some (route, x)) ∨
      s.free? = none ∧ ownerAfter s op reply = s' := by
  by_cases hclaim : claimOf op = none
  · have howns : s.owner ≠ none := by
      rw [← owner_next hmay hclaim reply, h]
      exact howner
    have hfree : s.free? = none := by
      by_contra hfree
      obtain ⟨f, hf⟩ := Option.ne_none_iff_exists'.mp hfree
      exact howns (owner_of_free hf)
    rw [next_of_not_claim hclaim] at h
    split at h
    · exact absurd h.symm (hrefused _ _)
    · rw [after, hfree] at h
      exact .inr ⟨hfree, h⟩
  · refine .inl ?_
    cases hwon : claimWon op reply with
    | none =>
      rw [← h, next_of_claim_lost hclaim hwon] at howner
      exact absurd rfl howner
    | some claim => exact ⟨claim.1, claim.2, h.symm.trans (next_of_claimWon hwon), rfl⟩

/-- The owner of a retry knows the status of the Job from looking it up. -/
theorem next_eq_seen (hmay : May s op) {reply : op.Reply} {x : String}
    {status : Except PyExc Dict} (h : next s op reply = .seen x status) :
    s = .seen x status ∨ s = .owns .retry x ∧ ∃ ended,
      lookedUp op reply = some (ReconciliationService.trainingJobName x, ended) ∧
        KubernetesExecutor.classify ended = status := by
  obtain ⟨route, x', howns, -⟩ | ⟨hfree, h⟩ :=
    next_eq_owned hmay h (by simp [Phase.owner]) (by simp)
  · cases howns
  cases hmay with
  | read hs hop => rw [Phase.isFree, hfree] at hs; cases hs
  | create hs hstatus haction => rw [Phase.isFree, hfree] at hs; cases hs
  | inspect =>
    cases h
    exact .inr ⟨rfl, _, rfl, rfl⟩
  | note event => exact .inl h
  | reread => exact .inl h
  | claim route x hfresh => cases hfree
  | complete x hfound hstatus hjudged h => cases hfree
  | fail x hfound hstatus hjudged h => cases hfree
  | recover x hfound hjudged h hlease => cases hfree
  | _ => cases h

/-- An owner whose kubectl has ended has just run it, or had before. -/
theorem next_eq_applying (hmay : May s op) {reply : op.Reply} {route : Route} {x : String}
    {ended : KubectlApply} (h : next s op reply = .applying route x (some ended)) :
    s = .applying route x (some ended) ∨
      ∃ name, KubernetesExecutor.jobName x = .ok name ∧
        kubectlApplied op reply = some (name, ended) := by
  obtain ⟨route', x', howns, -⟩ | ⟨hfree, h⟩ :=
    next_eq_owned hmay h (by simp [Phase.owner]) (by simp)
  · cases howns
  cases hmay with
  | read hs hop => rw [Phase.isFree, hfree] at hs; cases hs
  | create hs hstatus haction => rw [Phase.isFree, hfree] at hs; cases hs
  | kubectlApply manifest hname => cases h; exact .inr ⟨_, hname, rfl⟩
  | claim route x hfresh => cases hfree
  | complete x hfound hstatus hjudged h => cases hfree
  | fail x hfound hstatus hjudged h => cases hfree
  | recover x hfound hjudged h hlease => cases hfree
  | _ => cases h

/-- An owner whose apply has returned has just had it return, or had before. -/
theorem next_eq_applied (hmay : May s op) {reply : op.Reply} {route : Route} {x : String}
    {result : Except PyExc Dict} (h : next s op reply = .applied route x result) :
    s = .applied route x result ∨ ∃ ended, s = .applying route x ended ∧
      op = .applyReturned (some x) result ∧ Returns ended result := by
  obtain ⟨route', x', howns, -⟩ | ⟨hfree, h⟩ :=
    next_eq_owned hmay h (by simp [Phase.owner]) (by simp)
  · cases howns
  cases hmay with
  | read hs hop => rw [Phase.isFree, hfree] at hs; cases hs
  | create hs hstatus haction => rw [Phase.isFree, hfree] at hs; cases hs
  | applyReturned hreturns => cases h; exact .inr ⟨_, rfl, rfl, hreturns⟩
  | claim route x hfresh => cases hfree
  | complete x hfound hstatus hjudged h => cases hfree
  | fail x hfound hstatus hjudged h => cases hfree
  | recover x hfound hjudged h hlease => cases hfree
  | _ => cases h

end CreditScoringMlops.ControlPlane
