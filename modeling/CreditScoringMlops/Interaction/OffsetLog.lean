import CreditScoringMlops.Interaction.Machine
import Mathlib.Data.List.Count
import Mathlib.Data.List.Perm.Subperm
import Mathlib.Order.Nat

/-!
# Committed offsets

A group reads a log of messages through one member at a time. A member resumes at the committed
offset, takes the messages in order, and ends with each before it takes the next: it commits it,
or abandons it. A commit sets the committed offset behind its message, whatever became of the
messages before it.

`OffsetRun.covered` says when every message below the committed offset is covered, for any notion
of being covered that is never lost: if each member has covered whatever it has taken by the time
of each of its commits. `OffsetRun.commitsCovered_iff` says when that is so of what is committed.
-/

namespace CreditScoringMlops.Interaction

/-- What an entry does. -/
inductive OffsetEffect where
  | none
  | join
  | leave
  | take (offset : ℕ)
  | commit (offset : ℕ)
  | abandon (offset : ℕ)

/-- The committed offset, and the session of the member that holds the log: where it resumed, and
what it takes next. -/
structure OffsetState (C : Type) where
  committed : ℕ
  holder : Option C
  resumed : ℕ
  position : ℕ

/-- How far a member is with the message it has taken. -/
inductive Turn where
  | new
  | ready
  | pending (offset : ℕ)

namespace Turn

/-- What a member may do. -/
inductive Permits : Turn → OffsetEffect → Prop where
  | none (t : Turn) : Permits t .none
  | leave (t : Turn) : Permits t .leave
  | join : Permits .new .join
  | take (offset : ℕ) : Permits .ready (.take offset)
  | commit (offset : ℕ) : Permits (.pending offset) (.commit offset)
  | abandon (offset : ℕ) : Permits (.pending offset) (.abandon offset)

theorem Permits.eq_new {t : Turn} (h : Permits t .join) : t = .new := by
  cases h
  rfl

theorem Permits.eq_ready {t : Turn} {offset : ℕ} (h : Permits t (.take offset)) : t = .ready := by
  cases h
  rfl

theorem Permits.eq_pending {t : Turn} {offset : ℕ}
    (h : Permits t (.commit offset) ∨ Permits t (.abandon offset)) : t = .pending offset := by
  rcases h with h | h <;> cases h <;> rfl

/-- The turn after an effect. -/
def after (t : Turn) : OffsetEffect → Turn
  | .join => ready
  | .take offset => pending offset
  | .commit _ => ready
  | .abandon _ => ready
  | _ => t

end Turn

section Run

variable {E C : Type} [DecidableEq C] (caller : E → C) (effect : E → OffsetEffect)

/-- The turn of a member after a log of entries. -/
def turnOf (log : List E) (c : C) : Turn :=
  log.foldl (fun t e => if caller e = c then t.after (effect e) else t) .new

/-- What one entry does to the state. -/
inductive OffsetStep : OffsetState C → E → OffsetState C → Prop where
  | none {s : OffsetState C} {e : E} (h : effect e = .none) : OffsetStep s e s
  | join {s : OffsetState C} {e : E} (h : effect e = .join) :
      OffsetStep s e ⟨s.committed, some (caller e), s.committed, s.committed⟩
  | leave {s : OffsetState C} {e : E} (h : effect e = .leave) :
      OffsetStep s e { s with holder := if s.holder = some (caller e) then none else s.holder }
  | take {s : OffsetState C} {e : E} (h : effect e = .take s.position)
      (hholder : s.holder = some (caller e)) : OffsetStep s e { s with position := s.position + 1 }
  | commit {s : OffsetState C} {e : E} {offset : ℕ} (h : effect e = .commit offset)
      (hholder : s.holder = some (caller e)) : OffsetStep s e { s with committed := offset + 1 }
  | abandon {s : OffsetState C} {e : E} {offset : ℕ} (h : effect e = .abandon offset) :
      OffsetStep s e s

/-- A run of permitted entries. A member may also vanish without one. -/
inductive OffsetRun : List E → OffsetState C → Prop where
  | nil : OffsetRun [] ⟨0, none, 0, 0⟩
  | snoc {log : List E} {s s' : OffsetState C} (e : E) (h : OffsetRun log s)
      (hstep : OffsetStep caller effect s e s')
      (hturn : (turnOf caller effect log (caller e)).Permits (effect e)) : OffsetRun (log ++ [e]) s'
  | vanish {log : List E} {s : OffsetState C} (c : C) (h : OffsetRun log s) :
      OffsetRun log { s with holder := if s.holder = some c then none else s.holder }

/-- A member has had an effect. -/
def Did (log : List E) (c : C) (f : OffsetEffect) : Prop :=
  ∃ e ∈ log, caller e = c ∧ effect e = f

variable {caller effect} {log pre post : List E} {s s' : OffsetState C} {e : E} {c : C}
  {f : OffsetEffect}

omit [DecidableEq C] in
/-- One entry more adds its own effect. -/
theorem did_concat :
    Did caller effect (log ++ [e]) c f ↔
      Did caller effect log c f ∨ caller e = c ∧ effect e = f := by
  simp only [Did, List.mem_append, List.mem_singleton, or_and_right, exists_or, exists_eq_left]

/-- A commit is made by the holder, and sets the offset behind its message. -/
theorem OffsetStep.of_commit (h : OffsetStep caller effect s e s') {offset : ℕ}
    (heffect : effect e = .commit offset) :
    s.holder = some (caller e) ∧ s' = { s with committed := offset + 1 } := by
  cases h with
  | commit heffect' hholder =>
    rw [heffect] at heffect'
    obtain rfl := OffsetEffect.commit.inj heffect'
    exact ⟨hholder, rfl⟩
  | none heffect' => simp [heffect] at heffect'
  | join heffect' => simp [heffect] at heffect'
  | leave heffect' => simp [heffect] at heffect'
  | take heffect' => simp [heffect] at heffect'
  | abandon heffect' => simp [heffect] at heffect'

/-- An entry moves the turn of its own caller. -/
theorem turnOf_concat :
    turnOf caller effect (log ++ [e]) c =
      if caller e = c then (turnOf caller effect log c).after (effect e)
      else turnOf caller effect log c := by
  simp only [turnOf, List.foldl_append, List.foldl_cons, List.foldl_nil]

/-- A member that is new has not taken anything. -/
theorem did_of_new (hnew : turnOf caller effect log c = .new)
    (h : Did caller effect log c f) : f = .none ∨ f = .leave := by
  induction log using List.reverseRecOn with
  | nil =>
    obtain ⟨e, he, -⟩ := h
    cases he
  | append_singleton log e ih =>
    rw [turnOf_concat] at hnew
    obtain h | ⟨hcaller, heffect⟩ := did_concat.mp h
    · refine ih ?_ h
      split at hnew
      · cases heffect : effect e <;> simp_all [Turn.after]
      · exact hnew
    · rw [if_pos hcaller, heffect] at hnew
      cases f <;> simp_all [Turn.after]

/-- The session of the member that holds the log: it has taken what lies between its start and
its position, and has committed or abandoned it, up to the message it is pending with. -/
structure Session (caller : E → C) (effect : E → OffsetEffect) (log : List E) (s : OffsetState C)
    (c : C) : Prop where
  resumed_le : s.resumed ≤ s.committed
  committed_le : s.committed ≤ s.position
  taken : ∀ o, Did caller effect log c (.take o) ↔ s.resumed ≤ o ∧ o < s.position
  others : ∀ o c', Did caller effect log c' (.commit o) → c' ≠ c → o < s.resumed
  pending : ∀ o, turnOf caller effect log c = .pending o → o + 1 = s.position ∧
    Did caller effect log c (.take o) ∧ ¬Did caller effect log c (.commit o) ∧
      ¬Did caller effect log c (.abandon o)
  ended : ∀ o, Did caller effect log c (.take o) → turnOf caller effect log c ≠ .pending o →
    Did caller effect log c (.commit o) ∨ Did caller effect log c (.abandon o)
  once : ∀ o, Did caller effect log c (.abandon o) →
    Did caller effect log c (.take o) ∧ ¬Did caller effect log c (.commit o)
  commits : ∀ o, Did caller effect log c (.commit o) → Did caller effect log c (.take o)

namespace Session

/-- An entry of another member that commits nothing does not concern the session. -/
theorem other (h : Session caller effect log s c) (hne : caller e ≠ c)
    (hcommit : ∀ o, effect e ≠ .commit o) : Session caller effect (log ++ [e]) s c := by
  have hdid : ∀ f, Did caller effect (log ++ [e]) c f ↔ Did caller effect log c f := fun f =>
    did_concat.trans (or_iff_left fun hown => hne hown.1)
  have hturn : turnOf caller effect (log ++ [e]) c = turnOf caller effect log c := by
    rw [turnOf_concat, if_neg hne]
  obtain ⟨hresumed, hcommitted, htaken, hothers, hpending, hended, honce, hcommits⟩ := h
  refine ⟨hresumed, hcommitted, ?_, fun o c' hdid hc' => ?_, ?_, ?_, ?_, ?_⟩
  · simpa only [hdid] using htaken
  · exact hothers o c' ((did_concat.mp hdid).resolve_right fun hown => hcommit o hown.2) hc'
  · simpa only [hdid, hturn] using hpending
  · simpa only [hdid, hturn] using hended
  · simpa only [hdid] using honce
  · simpa only [hdid] using hcommits

/-- An entry without an effect does not either. -/
theorem none (h : Session caller effect log s c) (heffect : effect e = .none) :
    Session caller effect (log ++ [e]) s c := by
  have hdid : ∀ {f}, f ≠ .none → ∀ c', Did caller effect (log ++ [e]) c' f ↔
      Did caller effect log c' f := fun hf c' =>
    did_concat.trans (or_iff_left fun hown => hf (hown.2.symm.trans heffect))
  have hturn : turnOf caller effect (log ++ [e]) c = turnOf caller effect log c := by
    rw [turnOf_concat, heffect]
    split <;> rfl
  obtain ⟨hresumed, hcommitted, htaken, hothers, hpending, hended, honce, hcommits⟩ := h
  refine ⟨hresumed, hcommitted, ?_, ?_, ?_, ?_, ?_, ?_⟩
  · simpa [hdid] using htaken
  · simpa [hdid] using hothers
  · simpa [hdid, hturn] using hpending
  · simpa [hdid, hturn] using hended
  · simpa [hdid] using honce
  · simpa [hdid] using hcommits

/-- The member takes the message at its position. -/
theorem take (h : Session caller effect log s (caller e)) (heffect : effect e = .take s.position)
    (hready : turnOf caller effect log (caller e) = .ready) :
    Session caller effect (log ++ [e]) { s with position := s.position + 1 } (caller e) := by
  have hdid : ∀ c' f, Did caller effect (log ++ [e]) c' f ↔
      Did caller effect log c' f ∨ caller e = c' ∧ .take s.position = f := fun c' f => by
    rw [did_concat, heffect]
  have hturn : turnOf caller effect (log ++ [e]) (caller e) = .pending s.position := by
    rw [turnOf_concat, if_pos rfl, heffect]
    rfl
  obtain ⟨hresumed, hcommitted, htaken, hothers, -, hended, honce, hcommits⟩ := h
  have hnot : ¬Did caller effect log (caller e) (.take s.position) := fun h =>
    lt_irrefl _ ((htaken _).mp h).2
  refine ⟨hresumed, hcommitted.trans (Nat.le_succ _), fun o => ?_, ?_, fun o ho => ?_,
    fun o ho hne => ?_, fun o ho => ?_, fun o ho => ?_⟩
  · rw [hdid, htaken]
    simp only [true_and, OffsetEffect.take.injEq]
    omega
  · simpa [hdid] using hothers
  · obtain rfl : s.position = o := by simpa [hturn] using ho
    refine ⟨rfl, by simp [hdid], fun hcommit => ?_, fun habandon => ?_⟩
    · exact hnot (hcommits _ (by simpa [hdid] using hcommit))
    · exact hnot (honce _ (by simpa [hdid] using habandon)).1
  · have hold : Did caller effect log (caller e) (.take o) := by
      refine ((hdid _ _).mp ho).resolve_right fun ⟨_, heq⟩ => hne ?_
      rw [hturn, OffsetEffect.take.inj heq]
    simpa [hdid] using hended o hold (by simp [hready])
  · simpa [hdid] using (honce o (by simpa [hdid] using ho)).imp_left .inl
  · exact (hdid _ _).mpr (.inl (hcommits o (by simpa [hdid] using ho)))

/-- The member abandons the message it is pending with. -/
theorem abandon (h : Session caller effect log s (caller e)) {offset : ℕ}
    (heffect : effect e = .abandon offset)
    (hpending : turnOf caller effect log (caller e) = .pending offset) :
    Session caller effect (log ++ [e]) s (caller e) := by
  have hdid : ∀ c' f, Did caller effect (log ++ [e]) c' f ↔
      Did caller effect log c' f ∨ caller e = c' ∧ .abandon offset = f := fun c' f => by
    rw [did_concat, heffect]
  have hturn : turnOf caller effect (log ++ [e]) (caller e) = .ready := by
    rw [turnOf_concat, if_pos rfl, heffect]
    rfl
  obtain ⟨hresumed, hcommitted, htaken, hothers, hpend, hended, honce, hcommits⟩ := h
  obtain ⟨-, htake, hcommit, -⟩ := hpend offset hpending
  refine ⟨hresumed, hcommitted, ?_, ?_, fun o ho => ?_, fun o ho _ => ?_, fun o ho => ?_, ?_⟩
  · simpa [hdid] using htaken
  · simpa [hdid] using hothers
  · rw [hturn] at ho
    cases ho
  · by_cases heq : offset = o
    · exact .inr ((hdid _ _).mpr (.inr ⟨rfl, by rw [heq]⟩))
    · have hold := hended o (by simpa [hdid] using ho) (by simpa [hpending] using heq)
      exact hold.imp (fun h => (hdid _ _).mpr (.inl h)) fun h => (hdid _ _).mpr (.inl h)
  · obtain hold | ⟨-, heq⟩ := (hdid _ _).mp ho
    · simpa [hdid] using honce o hold
    · obtain rfl := OffsetEffect.abandon.inj heq
      simpa [hdid] using And.intro htake hcommit
  · simpa [hdid] using hcommits

/-- The member commits the message it is pending with. -/
theorem commit (h : Session caller effect log s (caller e)) {offset : ℕ}
    (heffect : effect e = .commit offset)
    (hpending : turnOf caller effect log (caller e) = .pending offset) :
    Session caller effect (log ++ [e]) { s with committed := offset + 1 } (caller e) := by
  have hdid : ∀ c' f, Did caller effect (log ++ [e]) c' f ↔
      Did caller effect log c' f ∨ caller e = c' ∧ .commit offset = f := fun c' f => by
    rw [did_concat, heffect]
  have hturn : turnOf caller effect (log ++ [e]) (caller e) = .ready := by
    rw [turnOf_concat, if_pos rfl, heffect]
    rfl
  obtain ⟨hresumed, hcommitted, htaken, hothers, hpend, hended, honce, hcommits⟩ := h
  obtain ⟨hposition, htake, -, habandon⟩ := hpend offset hpending
  refine ⟨hresumed.trans (hcommitted.trans hposition.ge), hposition.le, ?_, fun o c' ho hc' => ?_,
    fun o ho => ?_, fun o ho _ => ?_, fun o ho => ?_, fun o ho => ?_⟩
  · simpa [hdid] using htaken
  · exact hothers o c' (((hdid _ _).mp ho).resolve_right fun hown => hc' hown.1.symm) hc'
  · rw [hturn] at ho
    cases ho
  · by_cases heq : offset = o
    · exact .inl ((hdid _ _).mpr (.inr ⟨rfl, by rw [heq]⟩))
    · have hold := hended o (by simpa [hdid] using ho) (by simpa [hpending] using heq)
      exact hold.imp (fun h => (hdid _ _).mpr (.inl h)) fun h => (hdid _ _).mpr (.inl h)
  · have hold : Did caller effect log (caller e) (.abandon o) := by simpa [hdid] using ho
    have hne : offset ≠ o := fun heq => habandon (heq ▸ hold)
    simpa [hdid, hne] using honce o hold
  · obtain hold | ⟨-, heq⟩ := (hdid _ _).mp ho
    · exact (hdid _ _).mpr (.inl (hcommits o hold))
    · obtain rfl := OffsetEffect.commit.inj heq
      exact (hdid _ _).mpr (.inl htake)

/-- A new member begins its session where the group has committed to. -/
theorem join (hnew : turnOf caller effect log (caller e) = .new) (heffect : effect e = .join)
    (hbelow : ∀ o c', Did caller effect log c' (.commit o) → o < s.committed) :
    Session caller effect (log ++ [e]) ⟨s.committed, some (caller e), s.committed, s.committed⟩
      (caller e) := by
  have hnone : ∀ {f : OffsetEffect}, f ≠ .none → f ≠ .leave → f ≠ .join →
      ¬Did caller effect (log ++ [e]) (caller e) f := by
    intro f hf hf' hf'' hdid
    obtain hdid | ⟨-, heq⟩ := did_concat.mp hdid
    · exact (did_of_new hnew hdid).elim hf hf'
    · exact hf'' (heq.symm.trans heffect)
  have hturn : turnOf caller effect (log ++ [e]) (caller e) = .ready := by
    rw [turnOf_concat, if_pos rfl, heffect]
    rfl
  refine ⟨le_rfl, le_rfl, fun o => ?_, fun o c' ho _ => ?_, fun o ho => ?_, fun o ho => ?_,
    fun o ho => ?_, fun o ho => ?_⟩
  · exact iff_of_false (hnone (by simp) (by simp) (by simp))
      fun h => absurd h.2 (not_lt.mpr h.1)
  · refine hbelow o c' ((did_concat.mp ho).resolve_right fun hown => ?_)
    rw [heffect] at hown
    exact absurd hown.2 (by simp)
  · rw [hturn] at ho
    cases ho
  · exact absurd ho (hnone (by simp) (by simp) (by simp))
  · exact absurd ho (hnone (by simp) (by simp) (by simp))
  · exact absurd ho (hnone (by simp) (by simp) (by simp))

end Session

/-- What is committed lies below the committed offset, and the holder is in its session. -/
structure Tracked (caller : E → C) (effect : E → OffsetEffect) (log : List E) (s : OffsetState C) :
    Prop where
  below : ∀ o c, Did caller effect log c (.commit o) → o < s.committed
  session : ∀ c, s.holder = some c → Session caller effect log s c

/-- An entry that commits nothing leaves what is committed. -/
theorem Tracked.below_concat (h : Tracked caller effect log s)
    (hcommit : ∀ o, effect e ≠ .commit o) (o : ℕ) (c : C)
    (hdid : Did caller effect (log ++ [e]) c (.commit o)) : o < s.committed :=
  h.below o c ((did_concat.mp hdid).resolve_right fun hown => hcommit o hown.2)

/-- Every run is tracked. -/
theorem OffsetRun.tracked (h : OffsetRun caller effect log s) : Tracked caller effect log s := by
  induction h with
  | nil =>
    refine ⟨?_, fun c hc => by cases hc⟩
    rintro o c ⟨e, he, -⟩
    cases he
  | @vanish log s c h ih =>
    refine ⟨ih.below, fun c' hc' => ?_⟩
    have hsession : Session caller effect log s c' := ih.session c' (by
      by_cases heq : s.holder = some c <;> simp_all)
    exact { hsession with }
  | @snoc log s s' e h hstep hturn ih =>
    cases hstep with
    | none heffect =>
      exact ⟨ih.below_concat (by simp [heffect]), fun c hc => (ih.session c hc).none heffect⟩
    | join heffect =>
      rw [heffect] at hturn
      refine ⟨ih.below_concat (by simp [heffect]), fun c hc => ?_⟩
      obtain rfl := Option.some.inj hc
      exact .join hturn.eq_new heffect ih.below
    | leave heffect =>
      refine ⟨ih.below_concat (by simp [heffect]), fun c hc => ?_⟩
      have hne : s.holder = some c ∧ caller e ≠ c := by
        by_cases heq : s.holder = some (caller e)
        · simp [heq] at hc
        · simp only [heq, if_false] at hc
          exact ⟨hc, fun hcaller => heq (hcaller ▸ hc)⟩
      have hsession := (ih.session c hne.1).other hne.2 (by simp [heffect])
      exact { hsession with }
    | take heffect hholder =>
      rw [heffect] at hturn
      refine ⟨ih.below_concat (by simp [heffect]), fun c hc => ?_⟩
      obtain rfl := Option.some.inj (hholder.symm.trans hc)
      exact (ih.session _ hholder).take heffect hturn.eq_ready
    | @commit offset heffect hholder =>
      rw [heffect] at hturn
      have hpending := Turn.Permits.eq_pending (.inl hturn)
      have hsession := ih.session _ hholder
      refine ⟨fun o c hdid => ?_, fun c hc => ?_⟩
      · have hposition := (hsession.pending offset hpending).1
        obtain hold | ⟨-, heq⟩ := did_concat.mp hdid
        · exact (ih.below o c hold).trans_le (hsession.committed_le.trans hposition.ge)
        · rw [heffect] at heq
          obtain rfl := OffsetEffect.commit.inj heq
          exact Nat.lt_succ_self _
      · obtain rfl := Option.some.inj (hholder.symm.trans hc)
        exact hsession.commit heffect hpending
    | @abandon offset heffect =>
      rw [heffect] at hturn
      have hpending := Turn.Permits.eq_pending (.inr hturn)
      refine ⟨ih.below_concat (by simp [heffect]), fun c hc => ?_⟩
      by_cases hne : caller e = c
      · subst hne
        exact (ih.session _ hc).abandon heffect hpending
      · exact (ih.session c hc).other hne (by simp [heffect])

/-- A run up to an entry, the step of the entry, and the run up to behind it. -/
theorem OffsetRun.split (h : OffsetRun caller effect log s) (hlog : log = pre ++ e :: post) :
    ∃ s₁ s₂, OffsetRun caller effect pre s₁ ∧ OffsetStep caller effect s₁ e s₂ ∧
      (turnOf caller effect pre (caller e)).Permits (effect e) ∧
        OffsetRun caller effect (pre ++ [e]) s₂ := by
  induction h generalizing post with
  | nil => simp at hlog
  | vanish c h ih => exact ih hlog
  | @snoc log s s' e' h hstep hturn ih =>
    rcases List.eq_nil_or_concat post with rfl | ⟨init, last, rfl⟩
    · obtain ⟨rfl, hlast⟩ := List.append_inj' hlog rfl
      obtain rfl : e' = e := by simpa using hlast
      exact ⟨s, s', h, hstep, hturn, .snoc e' h hstep hturn⟩
    · rw [List.concat_eq_append, ← List.cons_append, ← List.append_assoc] at hlog
      exact ih (List.append_inj_left' hlog rfl)

/-- A commit is made in a session, by a member that is pending with its message. -/
theorem OffsetRun.at_commit (h : OffsetRun caller effect log s) (hlog : log = pre ++ e :: post)
    {offset : ℕ} (heffect : effect e = .commit offset) :
    ∃ s₁, OffsetRun caller effect pre s₁ ∧ Session caller effect pre s₁ (caller e) ∧
      turnOf caller effect pre (caller e) = .pending offset ∧
        OffsetRun caller effect (pre ++ [e]) { s₁ with committed := offset + 1 } := by
  obtain ⟨s₁, s₂, hpre, hstep, hturn, hnext⟩ := h.split hlog
  rw [heffect] at hturn
  have hpending := Turn.Permits.eq_pending (.inl hturn)
  obtain ⟨hholder, rfl⟩ := hstep.of_commit heffect
  exact ⟨s₁, hpre, hpre.tracked.session _ hholder, hpending, hnext⟩

/-- Every commit of a log comes after its member has covered all that it has taken so far. -/
def CommitsCovered (caller : E → C) (effect : E → OffsetEffect) (D : List E → ℕ → Prop)
    (log : List E) : Prop :=
  ∀ pre e post n, log = pre ++ e :: post → effect e = .commit n →
    ∀ o, Did caller effect pre (caller e) (.take o) → D (pre ++ [e]) o

/-- If every commit does, everything below the committed offset is covered. -/
theorem OffsetRun.covered {D : List E → ℕ → Prop}
    (hmono : ∀ log e o, D log o → D (log ++ [e]) o) (h : OffsetRun caller effect log s)
    (hcover : CommitsCovered caller effect D log) : ∀ o < s.committed, D log o := by
  induction h with
  | nil => exact fun o ho => absurd ho (Nat.not_lt_zero o)
  | vanish c h ih => exact ih hcover
  | @snoc log s s' e h hstep hturn ih =>
    have hcover' : CommitsCovered caller effect D log := fun pre e' post n hlog =>
      hcover pre e' (post ++ [e]) n (by simp [hlog])
    have hbefore : ∀ o < s.committed, D (log ++ [e]) o := fun o ho =>
      hmono log e o (ih hcover' o ho)
    cases hstep with
    | @commit offset heffect hholder =>
      intro o ho
      by_cases hlt : o < s.committed
      · exact hbefore o hlt
      · -- what the commit leaps over has been taken in this session
        rw [heffect] at hturn
        have hsession := h.tracked.session _ hholder
        have hposition := (hsession.pending offset (Turn.Permits.eq_pending (.inl hturn))).1
        refine hcover log e [] offset rfl heffect o ((hsession.taken o).mpr ⟨?_, ?_⟩)
        · exact hsession.resumed_le.trans (not_lt.mp hlt)
        · exact ho.trans_le hposition.le
    | _ => exact hbefore

/-- What a member has taken by the time of a commit lies below the offset it commits. -/
theorem OffsetRun.taken_lt (h : OffsetRun caller effect log s) (hlog : log = pre ++ e :: post)
    {offset : ℕ} (heffect : effect e = .commit offset) {o : ℕ}
    (htake : Did caller effect pre (caller e) (.take o)) : o < offset + 1 := by
  obtain ⟨s₁, -, hsession, hpending, -⟩ := h.at_commit hlog heffect
  exact ((hsession.taken o).mp htake).2.trans_le (hsession.pending offset hpending).1.ge

/-- Each member has committed itself whatever it has taken, by the time of each of its commits,
exactly if it commits nothing after it has abandoned a message. -/
theorem OffsetRun.commitsCovered_iff (h : OffsetRun caller effect log s) :
    CommitsCovered caller effect (fun log o => ∃ c, Did caller effect log c (.commit o)) log ↔
      ∀ f g, [f, g].Sublist log → ∀ o n, effect f = .abandon o → effect g = .commit n →
        caller f ≠ caller g := by
  constructor
  · intro hcover f g hsub o n hf hg hcaller
    obtain ⟨pre, post, hlog, hmem⟩ := exists_split_of_sublist hsub
    obtain ⟨s₁, -, hsession, hpending, -⟩ := h.at_commit hlog hg
    have habandon : Did caller effect pre (caller g) (.abandon o) := ⟨f, hmem, hcaller, hf⟩
    obtain ⟨htake, hcommit⟩ := hsession.once o habandon
    obtain ⟨c, hdid⟩ := hcover pre g post n hlog hg o htake
    obtain hdid | ⟨rfl, heq⟩ := did_concat.mp hdid
    · by_cases hc : c = caller g
      · exact hcommit (hc ▸ hdid)
      · exact absurd (hsession.others o c hdid hc) (not_lt.mpr ((hsession.taken o).mp htake).1)
    · rw [hg] at heq
      obtain rfl := OffsetEffect.commit.inj heq
      exact (hsession.pending n hpending).2.2.2 habandon
  · intro hnever pre e post n hlog heffect o htake
    obtain ⟨s₁, -, hsession, hpending, -⟩ := h.at_commit hlog heffect
    by_cases heq : n = o
    · exact ⟨caller e, did_concat.mpr (.inr ⟨rfl, heq ▸ heffect⟩)⟩
    · obtain hdid | ⟨f, hf, hcaller, habandon⟩ :=
        hsession.ended o htake (by rw [hpending]; simpa using heq)
      · exact ⟨caller e, did_concat.mpr (.inl hdid)⟩
      · refine absurd hcaller (hnever f e ?_ o n habandon heffect)
        rw [hlog]
        exact (List.singleton_sublist.mpr hf).append (List.singleton_sublist.mpr List.mem_cons_self)

/-! ## Taking a message again -/

/-- A message is taken in a session, at its position. -/
theorem OffsetRun.at_take (h : OffsetRun caller effect log s) (hlog : log = pre ++ e :: post)
    {offset : ℕ} (heffect : effect e = .take offset) :
    ∃ s₁, OffsetRun caller effect pre s₁ ∧ s₁.holder = some (caller e) ∧
      Session caller effect pre s₁ (caller e) ∧ s₁.position = offset := by
  obtain ⟨s₁, s₂, hpre, hstep, -, -⟩ := h.split hlog
  cases hstep with
  | take heffect' hholder =>
    refine ⟨s₁, hpre, hholder, hpre.tracked.session _ hholder, ?_⟩
    exact OffsetEffect.take.inj (heffect'.symm.trans heffect)
  | none heffect' => simp [heffect] at heffect'
  | join heffect' => simp [heffect] at heffect'
  | leave heffect' => simp [heffect] at heffect'
  | commit heffect' => simp [heffect] at heffect'
  | abandon heffect' => simp [heffect] at heffect'

/-- A member takes the messages in order, none of them twice. -/
theorem OffsetRun.take_lt (h : OffsetRun caller effect log s) (hlog : log = pre ++ e :: post)
    {offset : ℕ} (heffect : effect e = .take offset) {o : ℕ}
    (hbefore : Did caller effect pre (caller e) (.take o)) : o < offset := by
  obtain ⟨s₁, -, -, hsession, rfl⟩ := h.at_take hlog heffect
  exact ((hsession.taken o).mp hbefore).2

/-- The session of a member began with an entry of its own, at what was committed then. -/
def Began (caller : E → C) (effect : E → OffsetEffect) (log : List E) (c : C) (resumed : ℕ) : Prop :=
  ∃ pre j post s₁, log = pre ++ j :: post ∧ caller j = c ∧ effect j = .join ∧
    OffsetRun caller effect pre s₁ ∧ s₁.committed = resumed

/-- So did that of the holder. -/
theorem OffsetRun.began (h : OffsetRun caller effect log s) (hholder : s.holder = some c) :
    Began caller effect log c s.resumed := by
  have hmore {log : List E} {resumed : ℕ} (e : E) (h : Began caller effect log c resumed) :
      Began caller effect (log ++ [e]) c resumed := by
    obtain ⟨pre, j, post, s₁, rfl, hj⟩ := h
    exact ⟨pre, j, post ++ [e], s₁, by simp, hj⟩
  induction h with
  | nil => cases hholder
  | @vanish log s c' h ih => exact ih (by by_cases heq : s.holder = some c' <;> simp_all)
  | @snoc log s s' e h hstep hturn ih =>
    cases hstep with
    | none _ => exact hmore e (ih hholder)
    | join heffect =>
      exact ⟨log, e, [], s, by simp, Option.some.inj hholder, heffect, h, rfl⟩
    | leave _ => exact hmore e (ih (by by_cases heq : s.holder = some (caller e) <;> simp_all))
    | take _ _ => exact hmore e (ih hholder)
    | commit _ _ => exact hmore e (ih hholder)
    | abandon _ => exact hmore e (ih hholder)

/-- A member that takes a message joined when nobody had committed it. -/
theorem OffsetRun.join_of_take (h : OffsetRun caller effect log s) (hlog : log = pre ++ e :: post)
    {offset : ℕ} (heffect : effect e = .take offset) :
    ∃ before j after, pre = before ++ j :: after ∧ caller j = caller e ∧ effect j = .join ∧
      ∀ c, ¬Did caller effect before c (.commit offset) := by
  obtain ⟨s₁, hpre, hholder, hsession, rfl⟩ := h.at_take hlog heffect
  obtain ⟨before, j, after, s₀, hsplit, hj, hjoin, hbefore, hresumed⟩ := hpre.began hholder
  refine ⟨before, j, after, hsplit, hj, hjoin, fun c hdid => ?_⟩
  have hbelow := hbefore.tracked.below _ c hdid
  have hle := hsession.resumed_le.trans hsession.committed_le
  omega

end Run

/-- Where no member has more entries of one kind than of another, there are no more of them in
all. -/
theorem countP_le_of_members {E C : Type} [DecidableEq C] (caller : E → C) {p q : E → Bool}
    {log : List E} (h : ∀ c, log.countP (fun e => p e && decide (caller e = c)) ≤
      log.countP (fun e => q e && decide (caller e = c))) : log.countP p ≤ log.countP q := by
  have hcount (p : E → Bool) (c : C) : ((log.filter p).map caller).count c =
      log.countP fun e => p e && decide (caller e = c) := by
    rw [List.count, List.countP_map, List.countP_filter]
    exact List.countP_congr fun e _ => by simp [and_comm]
  have hsub : ((log.filter p).map caller).Subperm ((log.filter q).map caller) :=
    List.subperm_ext_iff.mpr fun c _ => by rw [hcount, hcount]; exact h c
  simpa [List.countP_eq_length_filter] using hsub.length_le

end CreditScoringMlops.Interaction
