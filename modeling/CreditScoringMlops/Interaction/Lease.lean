import Mathlib.Data.List.Induction
import Mathlib.Order.Basic

/-!
# Leases

A resource is granted to one caller at a time and is free again when the caller yields it, or
when its lease has run out. The log is fixed in advance, so that one may ask at every moment who
has been granted the resource and still acts later. If to yield is the last act, and nobody acts
after a revocation that comes when its lease is over, there is never more than one.
-/

namespace CreditScoringMlops.Interaction

variable {C T : Type}

/-- What an entry of the log does to the lease. -/
inductive LeaseEffect where
  | none
  | grant
  | yield
  | revoke
  | settle
  deriving DecidableEq

/-- An entry of the log; `acts` tells whether its caller uses the resource. -/
structure LeaseEntry (C T : Type) where
  caller : C
  time : T
  acts : Bool
  effect : LeaseEffect

/-- The state of a lease. Once it is settled, it is never granted again. -/
inductive LeaseState (T : Type) where
  | free
  | held (since : T)
  | settled

/-- What one entry may do. -/
inductive LeaseStep [LE T] [Add T] (length : T) :
    LeaseState T → LeaseEntry C T → LeaseState T → Prop where
  | none {s : LeaseState T} {e : LeaseEntry C T} (h : e.effect = .none) : LeaseStep length s e s
  | grant {e : LeaseEntry C T} (h : e.effect = .grant) : LeaseStep length .free e (.held e.time)
  | yield {e : LeaseEntry C T} {since : T} (h : e.effect = .yield) :
      LeaseStep length (.held since) e .free
  | revoke {e : LeaseEntry C T} {since : T} (h : e.effect = .revoke)
      (hexpired : since + length ≤ e.time) : LeaseStep length (.held since) e .free
  | settle {s : LeaseState T} {e : LeaseEntry C T} (h : e.effect = .settle) :
      LeaseStep length s e .settled

/-- A caller has been granted the resource. -/
def Granted (log : List (LeaseEntry C T)) (i : C) : Prop :=
  ∃ g ∈ log, g.effect = .grant ∧ g.caller = i

/-- A log from a free resource. Only a caller that has been granted the resource yields it. -/
inductive LeaseRun [LE T] [Add T] (length : T) : List (LeaseEntry C T) → LeaseState T → Prop where
  | nil : LeaseRun length [] .free
  | snoc {log : List (LeaseEntry C T)} {s s' : LeaseState T} (e : LeaseEntry C T)
      (h : LeaseRun length log s) (hstep : LeaseStep length s e s')
      (hyield : e.effect = .yield → e.acts ∧ Granted log e.caller) :
      LeaseRun length (log ++ [e]) s'

/-- To yield is the last act, and nobody acts after a revocation that came when its lease was
over. -/
structure LeaseDiscipline [LE T] [Add T] (length : T) (log : List (LeaseEntry C T)) : Prop where
  last : log.Pairwise fun y a => y.effect = .yield → a.caller = y.caller → ¬a.acts
  revoked : ∀ g r a, [g, r, a].Sublist log → g.effect = .grant → r.effect = .revoke →
    g.time + length ≤ r.time → a.caller = g.caller → ¬a.acts

/-- A caller is active between two parts of a log if it has been granted the resource in the
first and acts in the second. -/
def Active (pre post : List (LeaseEntry C T)) (i : C) : Prop :=
  Granted pre i ∧ ∃ a ∈ post, a.caller = i ∧ a.acts

/-- One entry more adds the grant it makes. -/
theorem granted_concat {log : List (LeaseEntry C T)} {e : LeaseEntry C T} {i : C} :
    Granted (log ++ [e]) i ↔ Granted log i ∨ e.effect = .grant ∧ e.caller = i := by
  simp only [Granted, List.mem_append, List.mem_singleton, or_and_right, exists_or, exists_eq_left]

/-- A lease is held since its last grant. -/
theorem LeaseRun.held [LE T] [Add T] {length since : T} {log : List (LeaseEntry C T)}
    (h : LeaseRun length log (.held since)) :
    ∃ pre g post, log = pre ++ g :: post ∧ g.effect = .grant ∧ g.time = since ∧
      ∀ e ∈ post, e.effect ≠ .grant := by
  generalize hs : LeaseState.held since = s at h
  induction h with
  | nil => cases hs
  | @snoc log _ _ e h hstep hyield ih =>
    cases hstep with
    | none heffect =>
      obtain ⟨pre, g, post, rfl, hgrant, htime, hpost⟩ := ih hs
      refine ⟨pre, g, post ++ [e], by simp, hgrant, htime, fun e' he' => ?_⟩
      rcases List.mem_append.mp he' with he' | he'
      · exact hpost e' he'
      · simp [List.mem_singleton.mp he', heffect]
    | grant heffect =>
      cases hs
      exact ⟨log, e, [], rfl, heffect, rfl, by simp⟩
    | yield heffect => cases hs
    | revoke heffect hexpired => cases hs
    | settle heffect => cases hs

/-- A caller that was active after an entry was active before it, if it had its grant. -/
theorem Active.of_cons {pre post : List (LeaseEntry C T)} {e : LeaseEntry C T} {i : C}
    (h : Active (pre ++ [e]) post i) (hgranted : Granted pre i) : Active pre (e :: post) i := by
  obtain ⟨-, a, ha, hacts⟩ := h
  exact ⟨hgranted, a, List.mem_cons_of_mem e ha, hacts⟩

/-- An entry that grants nothing makes nobody active. -/
theorem Active.before {pre post : List (LeaseEntry C T)} {e : LeaseEntry C T} {i : C}
    (h : Active (pre ++ [e]) post i) (hgrant : e.effect ≠ .grant) : Active pre (e :: post) i :=
  h.of_cons ((granted_concat.mp h.1).resolve_right fun hg => hgrant hg.1)

/-- At most one caller is active, and it holds the lease since one of its grants, unless the
lease is settled. -/
def Exclusive (pre post : List (LeaseEntry C T)) (s : LeaseState T) : Prop :=
  ∀ i, Active pre post i → (∀ j, Active pre post j → i = j) ∧
    ∃ g ∈ pre, g.effect = .grant ∧ g.caller = i ∧ (s = .held g.time ∨ s = .settled)

section

variable {pre post : List (LeaseEntry C T)} {e : LeaseEntry C T} {s s' : LeaseState T} {i : C}

/-- While somebody is active, the lease is not free. -/
theorem Exclusive.ne_free (h : Exclusive pre post s) (hactive : Active pre post i) :
    s ≠ .free := by
  obtain ⟨-, g, -, -, -, hs | hs⟩ := h i hactive <;> simp [hs]

variable [Preorder T] [Add T] {length : T}

/-- A log is disciplined if the clock does not go back and nobody acts at or after its deadline. -/
theorem LeaseDiscipline.of_clock {log : List (LeaseEntry C T)}
    (hlast : log.Pairwise fun y a => y.effect = .yield → a.caller = y.caller → ¬a.acts)
    (hclock : log.Pairwise fun e f => e.time ≤ f.time)
    (hdeadline : log.Pairwise fun g a => g.effect = .grant → a.caller = g.caller → a.acts →
      a.time < g.time + length) : LeaseDiscipline length log where
  last := hlast
  revoked g r a hsub hgrant hrevoke hover hcaller hacts := by
    have hlater : r.time ≤ a.time := hclock.forall_sublist ((List.sublist_cons_self g _).trans hsub)
    have hearlier : a.time < g.time + length :=
      hdeadline.forall_sublist (((List.sublist_cons_self r _).cons_cons g).trans hsub)
        hgrant hcaller hacts
    exact lt_irrefl _ ((hover.trans hlater).trans_lt hearlier)

/-- It is disciplined, too, if no lease is ever revoked. -/
theorem LeaseDiscipline.of_not_revoked {log : List (LeaseEntry C T)}
    (hlast : log.Pairwise fun y a => y.effect = .yield → a.caller = y.caller → ¬a.acts)
    (hrevoked : ∀ r ∈ log, r.effect ≠ .revoke) : LeaseDiscipline length log where
  last := hlast
  revoked _ r _ hsub _ hrevoke := absurd hrevoke (hrevoked r (hsub.subset (by simp)))

/-- A lease is not revoked while a caller is active. -/
theorem not_active_of_revoke (h : Exclusive pre (e :: post) s)
    (hlog : LeaseDiscipline length (pre ++ e :: post)) (hrevoke : e.effect = .revoke)
    (hstep : LeaseStep length s e s') : ¬Active (pre ++ [e]) post i := by
  intro hactive
  obtain ⟨-, g, hg, hgrant, hcaller, hs⟩ := h i (hactive.before (by simp [hrevoke]))
  obtain ⟨-, a, ha, hacaller, hacts⟩ := hactive
  have hsub : [g, e, a].Sublist (pre ++ e :: post) :=
    (List.singleton_sublist.mpr hg).append ((List.singleton_sublist.mpr ha).cons_cons e)
  cases hstep with
  | revoke _ hexpired =>
    rcases hs with hs | hs <;> cases hs
    exact hlog.revoked g e a hsub hgrant hrevoke hexpired (hacaller.trans hcaller.symm) hacts
  | none heffect => simp [hrevoke] at heffect
  | grant heffect => simp [hrevoke] at heffect
  | yield heffect => simp [hrevoke] at heffect
  | settle heffect => simp [hrevoke] at heffect

/-- A lease is not yielded while another caller is active, and the caller who yields is not
active any more. -/
theorem not_active_of_yield (h : Exclusive pre (e :: post) s)
    (hlog : LeaseDiscipline length (pre ++ e :: post)) (hyield : e.effect = .yield)
    (hacts : e.acts) (hgranted : Granted pre e.caller) : ¬Active (pre ++ [e]) post i := by
  intro hactive
  have hsame : i = e.caller := (h i (hactive.before (by simp [hyield]))).1 e.caller
    ⟨hgranted, e, List.mem_cons_self, rfl, hacts⟩
  obtain ⟨-, a, ha, hacaller, hacts'⟩ := hactive
  have hsub : [e, a].Sublist (pre ++ e :: post) :=
    ((List.singleton_sublist.mpr ha).cons_cons e).trans (List.sublist_append_right _ _)
  exact hlog.last.forall_sublist hsub hyield (hacaller.trans hsame) hacts'

/-- One entry keeps exclusivity. -/
theorem Exclusive.step (h : Exclusive pre (e :: post) s)
    (hlog : LeaseDiscipline length (pre ++ e :: post)) (hstep : LeaseStep length s e s')
    (hyield : e.effect = .yield → e.acts ∧ Granted pre e.caller) :
    Exclusive (pre ++ [e]) post s' := by
  -- an entry that grants nothing leaves the active callers among those that were active
  have hkeep : e.effect ≠ .grant → (∀ i, Active (pre ++ [e]) post i → s' = s ∨ s' = .settled) →
      Exclusive (pre ++ [e]) post s' := by
    intro hgrant hs i hactive
    obtain ⟨hunique, g, hg, hgrant', hcaller, hheld⟩ := h i (hactive.before hgrant)
    refine ⟨fun j hj => hunique j (hj.before hgrant), g, List.mem_append_left _ hg, hgrant',
      hcaller, ?_⟩
    rcases hs i hactive with rfl | hsettled
    · exact hheld
    · exact .inr hsettled
  cases hstep with
  | none heffect => exact hkeep (by simp [heffect]) fun _ _ => .inl rfl
  | settle heffect => exact hkeep (by simp [heffect]) fun _ _ => .inr rfl
  | yield heffect =>
    obtain ⟨hacts, hgranted⟩ := hyield heffect
    exact hkeep (by simp [heffect]) fun i hactive =>
      absurd hactive (not_active_of_yield h hlog heffect hacts hgranted)
  | revoke heffect hexpired =>
    exact hkeep (by simp [heffect]) fun i hactive =>
      absurd hactive (not_active_of_revoke h hlog heffect (.revoke heffect hexpired))
  | grant heffect =>
    -- the lease was free, so nobody else is active
    have hnew : ∀ {j}, Active (pre ++ [e]) post j → e.caller = j := fun hj =>
      ((granted_concat.mp hj.1).resolve_left fun hgranted =>
        h.ne_free (hj.of_cons hgranted) rfl).2
    intro i hactive
    exact ⟨fun j hj => (hnew hactive).symm.trans (hnew hj), e, by simp, heffect, hnew hactive,
      .inl rfl⟩

/-- At every moment of a disciplined log, at most one caller is active. -/
theorem LeaseRun.exclusive (h : LeaseRun length pre s)
    (hlog : LeaseDiscipline length (pre ++ post)) : Exclusive pre post s := by
  induction h generalizing post with
  | nil =>
    rintro i ⟨⟨g, hg, -⟩, -⟩
    cases hg
  | snoc e h hstep hyield ih =>
    rw [List.append_assoc, List.singleton_append] at hlog
    exact (ih hlog).step hlog hstep hyield

end

end CreditScoringMlops.Interaction
