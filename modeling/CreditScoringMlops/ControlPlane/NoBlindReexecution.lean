import CreditScoringMlops.ControlPlane.ApprovalGate

/-!
# No blind re-execution

However requests, cycles, crashes and lease recoveries interleave: an approval is applied at
most once on the first claim, and again only by the winner of a retry claim that has since read
that the Job is absent. A winner applies at most once, and a loser does nothing.
-/

namespace CreditScoringMlops.ControlPlane

open Python Interaction ClaimProtocol ApprovalStore

variable {jobs : Jobs} {trace : List LogEntry} {w : World} {x : String}

namespace ClaimProtocol

/-- An operation that calls `apply_training_job`. -/
def isApplyCall : Op → Bool
  | .applyCalled _ _ => true
  | _ => false

/-- A claim that was not won. -/
def claimLost (op : Op) (reply : op.Reply) : Bool :=
  (claimOf op).isSome && (claimWon op reply).isNone

/-- An operation that is neither kubectl, nor an apply call, nor an audit record. -/
def isQuiet : Op → Bool
  | .kubectlGet _ => false
  | .kubectlApply _ _ => false
  | .applyCalled _ _ => false
  | .record _ => false
  | _ => true

namespace Phase

/-- A program that may still apply. -/
def awaitsApply : Phase → Bool
  | free f => f.fresh
  | owns _ _ => true
  | seen _ _ => true
  | _ => false

end Phase

variable {s : Phase} {op : Op}

/-- A program that may still claim could claim before, and has been quiet. -/
theorem quiet_of_fresh (hmay : May s op) {reply : op.Reply} {f' : Free}
    (h : next s op reply = .free f') (hfresh : f'.fresh) :
    (∃ f, s = .free f ∧ f.fresh) ∧ isQuiet op := by
  obtain ⟨hbefore, x, rfl⟩ := fresh_of_next hmay h hfresh
  exact ⟨hbefore, rfl⟩

/-- A program that makes an apply call was still waiting for one, and waits no longer. -/
theorem awaitsApply_of_may (hmay : May s op) (hop : isApplyCall op) (reply : op.Reply) :
    s.awaitsApply ∧ ¬(next s op reply).awaitsApply := by
  cases hmay with
  | read hs hop' =>
    cases op with
    | applyCalled approved executionId => cases hop'
    | _ => cases hop
  | applyFirst => exact ⟨rfl, Bool.false_ne_true⟩
  | applyAgain h => exact ⟨rfl, Bool.false_ne_true⟩
  | claim route x => cases route <;> cases hop
  | _ => cases hop

/-- A program that still awaits its apply call awaited it before, and has not made it. -/
theorem awaitsApply_next (hmay : May s op) {reply : op.Reply}
    (h : (next s op reply).awaitsApply) : s.awaitsApply ∧ ¬isApplyCall op := by
  refine ⟨?_, fun hop => (awaitsApply_of_may hmay hop reply).2 h⟩
  generalize hnext : next s op reply = s' at h
  cases s' with
  | free f' =>
    obtain ⟨⟨f, rfl, hfresh⟩, -⟩ := fresh_of_next hmay hnext h
    exact hfresh
  | owns route x =>
    obtain ⟨route', x', -, hwon⟩ | ⟨hfree, hafter⟩ :=
      next_eq_owned hmay hnext (by simp [Phase.owner]) (by simp)
    · obtain ⟨f, rfl, hfresh⟩ := fresh_of_claim hmay fun hclaim => by
        rw [claimWon_of_not_claim hclaim] at hwon
        cases hwon
      exact hfresh
    · cases hmay with
      | read hs hop => rw [Phase.isFree, hfree] at hs; cases hs
      | create hs hstatus haction => rw [Phase.isFree, hfree] at hs; cases hs
      | announce event => rfl
      | claim route x hfresh => cases hfree
      | complete x hfound hstatus hjudged h => cases hfree
      | fail x hfound hstatus hjudged h => cases hfree
      | recover x hfound hjudged h hlease => cases hfree
      | _ => cases hafter
  | seen x status =>
    obtain rfl | ⟨rfl, -⟩ := next_eq_seen hmay hnext <;> rfl
  | _ => cases h

/-- A program that has lost has just lost its claim. -/
theorem claimLost_of_next (hmay : May s op) {reply : op.Reply} (h : next s op reply = .lost) :
    claimLost op reply := by
  refine Bool.and_eq_true_iff.mpr ⟨Option.isSome_iff_ne_none.mpr fun hclaim => ?_, ?_⟩
  · have howner := owner_next hmay hclaim reply
    rw [h] at howner
    obtain ⟨f, hf⟩ := free_of_owner hmay howner.symm
    have hnext := free_next hf hclaim reply
    rw [h] at hnext
    cases hnext
  · cases hwon : claimWon op reply with
    | none => rfl
    | some claim => rw [next_of_claimWon hwon] at h; cases h

/-- A claim is lost as the first act of a program. -/
theorem quiet_of_lost (hmay : May s op) {reply : op.Reply} (h : next s op reply = .lost) :
    (∃ f, s = .free f ∧ f.fresh) ∧ isQuiet op := by
  have hclaim := Option.isSome_iff_ne_none.mp (Bool.and_eq_true_iff.mp (claimLost_of_next hmay h)).1
  refine ⟨fresh_of_claim hmay hclaim, ?_⟩
  cases op with
  | store op => rfl
  | _ => exact absurd rfl hclaim

/-- A lost claim ends the program. -/
theorem next_of_claimLost {reply : op.Reply} (h : claimLost op reply) :
    next s op reply = .lost := by
  obtain ⟨hclaim, hlost⟩ := Bool.and_eq_true_iff.mp h
  exact next_of_claim_lost (Option.isSome_iff_ne_none.mp hclaim)
    (Option.isNone_iff_eq_none.mp hlost)

end ClaimProtocol

/-- A caller that may still apply has not applied yet. -/
theorem not_applied_of_awaitsApply (h : Legal jobs trace w) (i : ℕ)
    (hawaits : (phaseOf trace i).awaitsApply) : ∀ e ∈ trace, e.caller = i → ¬isApplyCall e.op := by
  refine h.phase_induction (P := fun trace s => s.awaitsApply →
    ∀ e ∈ trace, e.caller = i → ¬isApplyCall e.op) i ?_ ?_ ?_ hawaits
  · simp
  · intro trace s e he ih hs f hf hcaller
    rcases List.mem_append.mp hf with hf | hf
    · exact ih hs f hf hcaller
    · obtain rfl := List.mem_singleton.mp hf
      exact absurd hcaller he
  · intro trace w s env op hlegal _ hmay ih hs f hf hcaller
    obtain ⟨hs, hop⟩ := awaitsApply_next hmay hs
    rcases List.mem_append.mp hf with hf | hf
    · exact ih hs f hf hcaller
    · obtain rfl := List.mem_singleton.mp hf
      exact hop

/-- Two apply calls are made by different callers. -/
theorem apply_callers_ne (h : Legal jobs trace w) {e f : LogEntry} (hef : [e, f].Sublist trace)
    (he : isApplyCall e.op) (hf : isApplyCall f.op) : e.caller ≠ f.caller := by
  obtain ⟨pre, post, htrace, hmem⟩ := exists_split_of_sublist hef
  obtain ⟨i, env, op, w', rfl, hpre, hmay⟩ := h.at_entry htrace
  intro hcaller
  exact not_applied_of_awaitsApply hpre i (awaitsApply_of_may hmay hf (exec i op env w').1).1
    e hmem hcaller he

/-- Two claims are won by different callers. -/
theorem claim_callers_ne (h : Legal jobs trace w) {e f : LogEntry} (hef : [e, f].Sublist trace)
    (he : claimWon e.op e.reply ≠ none) (hf : claimWon f.op f.reply ≠ none) :
    e.caller ≠ f.caller := by
  obtain ⟨pre, post, htrace, hmem⟩ := exists_split_of_sublist hef
  obtain ⟨i, env, op, w', rfl, hpre, hmay⟩ := h.at_entry htrace
  intro hcaller
  obtain ⟨claim, hclaim⟩ := Option.ne_none_iff_exists'.mp he
  have howner := (owner_iff_won hpre i claim).mpr ⟨e, hmem, hcaller, hclaim⟩
  exact hf (claimWon_of_not_claim (claimOf_of_owner hmay (by rw [howner]; simp)) _)

/-- The first claim of an approval is won once. -/
theorem execute_won_once (h : Legal jobs trace w) {e f : LogEntry} (hef : [e, f].Sublist trace)
    (he : claimWon e.op e.reply = some (.execute, x)) :
    claimWon f.op f.reply ≠ some (.execute, x) := by
  obtain ⟨pre, post, htrace, hmem⟩ := exists_split_of_sublist hef
  obtain ⟨i, env, op, w', rfl, hpre, -⟩ := h.at_entry htrace
  intro hf
  obtain ⟨-, row, hrow, hstatus, -⟩ := claimWon_exec hf
  obtain ⟨row', hrow', hstarted⟩ := Won.started hpre ⟨e, hmem, rfl, he⟩
  rw [hrow] at hrow'
  obtain rfl := Option.some.inj hrow'
  rw [hstatus] at hstarted
  cases hstarted

/-- The loser of a claim has been quiet all along. -/
theorem quiet_of_claimLost (h : Legal jobs trace w) {e : LogEntry} (he : e ∈ trace)
    (hlost : claimLost e.op e.reply) : ∀ f ∈ trace, f.caller = e.caller → isQuiet f.op := by
  have hphase := h.phase_induction (P := fun trace s =>
    ((∃ f, s = .free f ∧ f.fresh) ∨ s = .lost → ∀ f ∈ trace, f.caller = e.caller → isQuiet f.op) ∧
      ((∃ f ∈ trace, f.caller = e.caller ∧ claimLost f.op f.reply) → s = .lost))
    e.caller ?_ ?_ ?_
  · exact hphase.1 (.inr (hphase.2 ⟨e, he, rfl, hlost⟩))
  · simp
  · intro trace s f hne ⟨hquiet, hends⟩
    refine ⟨fun hs g hg hcaller => ?_, fun ⟨g, hg, hcaller, hlost⟩ => ?_⟩
    · rcases List.mem_append.mp hg with hg | hg
      · exact hquiet hs g hg hcaller
      · obtain rfl := List.mem_singleton.mp hg
        exact absurd hcaller hne
    · rcases List.mem_append.mp hg with hg | hg
      · exact hends ⟨g, hg, hcaller, hlost⟩
      · obtain rfl := List.mem_singleton.mp hg
        exact absurd hcaller hne
  · intro trace w s env op hlegal _ hmay ⟨hquiet, hends⟩
    refine ⟨fun hs g hg hcaller => ?_, fun ⟨g, hg, hcaller, hlost⟩ => ?_⟩
    · have hstep : (∃ f, s = .free f ∧ f.fresh) ∧ isQuiet op :=
        hs.elim (fun ⟨f, hf, hfresh⟩ => quiet_of_fresh hmay hf hfresh) (quiet_of_lost hmay)
      rcases List.mem_append.mp hg with hg | hg
      · exact hquiet (.inl hstep.1) g hg hcaller
      · obtain rfl := List.mem_singleton.mp hg
        exact hstep.2
    · rcases List.mem_append.mp hg with hg | hg
      · rw [hends ⟨g, hg, hcaller, hlost⟩] at hmay
        cases hmay with
        | read hs hop => cases hs
        | create hs hstatus haction => cases hs
      · obtain rfl := List.mem_singleton.mp hg
        exact next_of_claimLost hlost

/-- The call `apply_training_job(approved=..., execution_id=x)`. -/
def Applies (e : LogEntry) (x : String) : Prop := ∃ approved, e.op = .applyCalled approved (some x)

/-- An apply call is made on the first claim, or on a retry claim and a look at the Job since then
that has found it absent. -/
theorem apply_origin (h : Legal jobs trace w) {pre post : List LogEntry} {e : LogEntry}
    (htrace : trace = pre ++ e :: post) (happly : Applies e x) :
    Won pre e.caller (.execute, x) ∨ ∃ claim look result, [claim, look].Sublist pre ∧
      claim.caller = e.caller ∧ claimWon claim.op claim.reply = some (.retry, x) ∧
        Looks look e.caller (ReconciliationService.trainingJobName x) (.ok result) ∧
          reportsAbsent result := by
  obtain ⟨i, env, op, w', rfl, hpre, hmay⟩ := h.at_entry htrace
  obtain ⟨approved, rfl⟩ : ∃ approved, op = .applyCalled approved (some x) := happly
  generalize hphase : phaseOf pre i = s at hmay
  cases hmay with
  | read hs hop => cases hop
  | applyFirst => exact .inl ((owner_iff_won hpre i _).mp (by rw [hphase]; rfl))
  | applyAgain habsent =>
    obtain ⟨claim, look, hsub, hcaller, hwon, hlooks⟩ := seen_history hpre hphase
    exact .inr ⟨claim, look, _, hsub, hcaller, hwon, hlooks, habsent⟩

/-- An apply call belongs to a caller that has won a claim. -/
theorem won_of_applies (h : Legal jobs trace w) {pre post : List LogEntry} {e : LogEntry}
    (htrace : trace = pre ++ e :: post) (happly : Applies e x) :
    ∃ route, Won pre e.caller (route, x) := by
  obtain hwon | ⟨claim, look, result, hsub, hcaller, hwon, -⟩ := apply_origin h htrace happly
  · exact ⟨.execute, hwon⟩
  · exact ⟨.retry, claim, hsub.subset (by simp), hcaller, hwon⟩

/-- No blind re-execution, in every run: at most one apply call of an approval comes from the
first claim; every other one from a retry claim and a later look that has found the Job absent;
no caller applies twice or wins twice; and the loser of a claim runs no kubectl and records no
audit event. -/
theorem no_blind_reexecution (jobs : Jobs) (events : List SystemEvent) (x : String) :
    let trace := (runFrom jobs events).trace
    (∀ e f, [e, f].Sublist trace → Applies e x → Applies f x →
      Won trace e.caller (.execute, x) → ¬Won trace f.caller (.execute, x)) ∧
    (∀ pre e post, trace = pre ++ e :: post → Applies e x →
      Won pre e.caller (.execute, x) ∨ ∃ claim look result, [claim, look].Sublist pre ∧
        claim.caller = e.caller ∧ claimWon claim.op claim.reply = some (.retry, x) ∧
          Looks look e.caller (ReconciliationService.trainingJobName x) (.ok result) ∧
            reportsAbsent result) ∧
    (∀ e f, [e, f].Sublist trace → isApplyCall e.op → isApplyCall f.op → e.caller ≠ f.caller) ∧
    (∀ e f, [e, f].Sublist trace → claimWon e.op e.reply ≠ none → claimWon f.op f.reply ≠ none →
      e.caller ≠ f.caller) ∧
    ∀ e ∈ trace, claimLost e.op e.reply →
      ∀ f ∈ trace, f.caller = e.caller → isQuiet f.op := by
  intro trace
  have hlegal := legal_runFrom jobs events
  refine ⟨fun e f hef he hf hwon hwon' => ?_, fun pre e post htrace => apply_origin hlegal htrace,
    fun e f => apply_callers_ne hlegal, fun e f => claim_callers_ne hlegal,
    fun e he => quiet_of_claimLost hlegal he⟩
  obtain ⟨approved, hop⟩ := he
  obtain ⟨approved', hop'⟩ := hf
  obtain ⟨c, hc, hcaller, hwonc⟩ := hwon
  obtain ⟨c', hc', hcaller', hwonc'⟩ := hwon'
  have hne : c ≠ c' := fun hcc => apply_callers_ne hlegal hef (by rw [hop]; rfl) (by rw [hop']; rfl)
    (hcaller.symm.trans ((congrArg Entry.caller hcc).trans hcaller'))
  obtain heq | hsub | hsub := eq_or_sublist_of_mem hc hc'
  · exact hne heq
  · exact execute_won_once hlegal hsub hwonc hwonc'
  · exact execute_won_once hlegal hsub hwonc' hwonc

end CreditScoringMlops.ControlPlane
