import CreditScoringMlops.Interaction.Contract

/-!
# What callers guarantee each other

In `Contract` a program relies on what any operation of the others may do. Here it relies on what
the others guarantee: every operation that is performed is right, an invariant of the world holds
before it, and such an operation of one caller changes nothing that another one relies on. Each
program is looked at alone, in a world that satisfies the invariant; then all runs keep it.
-/

namespace CreditScoringMlops.Interaction

variable {Op : Type} {Reply : Op → Type} {Exc Env World Request Out A : Type}

/-- What every operation has to be, what holds of the world at all times, and what each caller
relies on. -/
structure Agreement (Op : Type) (Reply : Op → Type) (Env World : Type) where
  right : Entry Op Reply Env World → Prop
  invariant : World → Prop
  rely : ℕ → World → World → Prop

namespace Agreement

/-- What a caller is given, and what it has to keep. -/
def contract (g : Agreement Op Reply Env World) (i : ℕ) : Contract Op Reply Env World where
  rely := g.rely i
  given e := g.invariant e.before
  always h := ∀ e ∈ h, g.right e

/-- The agreement holds together: right operations keep the invariant and what others rely on. -/
structure Sound (g : Agreement Op Reply Env World)
    (M : Machine Op Reply Exc Env World Request Out) : Prop where
  refl : ∀ i w, g.rely i w w
  trans : ∀ i a b c, g.rely i a b → g.rely i b c → g.rely i a c
  exec : ∀ j env op w, g.invariant w → g.right (M.entry j env op w) →
    g.invariant (M.exec j op env w).2 ∧ ∀ i, i ≠ j → g.rely i w (M.exec j op env w).2
  abort : ∀ j w, g.invariant w → g.invariant (M.abort j w) ∧
    ∀ i, i ≠ j → g.rely i w (M.abort j w)

end Agreement

variable {M : Machine Op Reply Exc Env World Request Out} {g : Agreement Op Reply Env World}
  {Q : Request → ℕ → List (Entry Op Reply Env World) → World → Out → Prop}
  {E : Request → ℕ → List (Entry Op Reply Env World) → World → Exc → Prop}

variable (M g Q E) in
/-- All that has been done is right, the invariant holds, and every live caller ensures its
postconditions. -/
structure Machine.Agreed (c : Config Op Reply Exc Env World Request Out) : Prop where
  arrived : ∀ e ∈ c.trace, e.caller < c.callers.length
  right : ∀ e ∈ c.trace, g.right e
  invariant : g.invariant c.world
  live : ∀ i r p, c.callers[i]? = some ⟨r, some p⟩ → ∃ w, g.rely i w c.world ∧
    M.Ensures i (g.contract i) (Q r i) (E r i) (own c.trace i) w p

namespace Machine

/-- A caller that has not arrived has performed nothing. -/
theorem Agreed.own_eq_nil {c : Config Op Reply Exc Env World Request Out} (h : M.Agreed g Q E c)
    {i : ℕ} (hi : c.callers.length ≤ i) : own c.trace i = [] := by
  refine List.filter_eq_nil_iff.mpr fun e he => ?_
  have := h.arrived e he
  simp only [decide_eq_true_eq]
  omega

/-- What another caller relies on is unmoved by one that is right. -/
theorem Agreed.unmoved (hsound : g.Sound M) {c : Config Op Reply Exc Env World Request Out}
    (h : M.Agreed g Q E c) {i : ℕ} {r : Request} {p : Program Op Reply Exc Out}
    (hi : c.callers[i]? = some ⟨r, some p⟩) {w : World} (hworld : g.rely i c.world w) :
    ∃ w', g.rely i w' w ∧ M.Ensures i (g.contract i) (Q r i) (E r i) (own c.trace i) w' p := by
  obtain ⟨w', hw', hensures⟩ := h.live i r p hi
  exact ⟨w', hsound.trans i _ _ _ hw' hworld, hensures⟩

/-- What a caller does next is right, and after it the caller still ensures its postconditions. -/
theorem Agreed.next {c : Config Op Reply Exc Env World Request Out}
    (h : M.Agreed g Q E c) {j : ℕ} {r : Request} {op : Op}
    {next : Reply op → Program Op Reply Exc Out}
    (hj : c.callers[j]? = some ⟨r, some (.perform op next)⟩) (env : Env) :
    g.right (M.entry j env op c.world) ∧ M.Ensures j (g.contract j) (Q r j) (E r j)
      (own c.trace j ++ [M.entry j env op c.world]) (M.exec j op env c.world).2
        (next (M.exec j op env c.world).1) := by
  obtain ⟨w, hw, hensures⟩ := h.live j r _ hj
  have hnext := hensures.2 c.world env hw h.invariant
  exact ⟨hnext.always _ (by simp), hnext⟩

/-- One event keeps the agreement. -/
theorem Agreed.step (hsound : g.Sound M)
    (hprogram : ∀ r i w, M.Ensures i (g.contract i) (Q r i) (E r i) [] w (M.program r))
    {c : Config Op Reply Exc Env World Request Out} (h : M.Agreed g Q E c)
    (event : Event Env Request) : M.Agreed g Q E (M.step c event) := by
  cases event with
  | arrive r =>
    refine ⟨fun e he => ?_, h.right, h.invariant, fun i r' p hi => ?_⟩
    · simpa [Machine.step] using Nat.lt_succ_of_lt (h.arrived e he)
    · rcases Nat.lt_or_ge i c.callers.length with hlt | hge
      · exact h.live i r' p (by simpa [Machine.step, List.getElem?_append_left hlt] using hi)
      · -- the new caller has performed nothing yet
        simp only [Machine.step, List.getElem?_append_right hge] at hi
        obtain ⟨rfl, hnew⟩ := Caller.mk.inj (List.mem_singleton.mp (List.mem_of_getElem? hi))
        obtain rfl := Option.some.inj hnew
        exact ⟨c.world, hsound.refl i _, h.own_eq_nil hge ▸ hprogram r' i c.world⟩
  | step j env =>
    simp only [Machine.step]
    split
    · rename_i r op next hj
      have hlen : j < c.callers.length := (List.getElem?_eq_some_iff.mp hj).1
      obtain ⟨hright, hnext⟩ := h.next hj env
      obtain ⟨hinvariant, hothers⟩ := hsound.exec j env op c.world h.invariant hright
      refine ⟨fun e he => ?_, fun e he => ?_, hinvariant, fun i r' p hi => ?_⟩
      · rcases List.mem_append.mp he with he | he
        · simpa using h.arrived e he
        · obtain rfl : e = M.entry j env op c.world := by simpa using he
          simpa [Machine.entry] using hlen
      · rcases List.mem_append.mp he with he | he
        · exact h.right e he
        · obtain rfl : e = M.entry j env op c.world := by simpa using he
          exact hright
      · have hown := own_concat c.trace (M.entry j env op c.world) i
        by_cases hij : j = i
        · subst hij
          rw [if_pos (show (M.entry j env op c.world).caller = j from rfl)] at hown
          simp only [List.getElem?_set_self hlen, Option.some.injEq, Caller.mk.injEq] at hi
          obtain ⟨rfl, rfl⟩ := hi
          exact ⟨_, hsound.refl j _, hown ▸ hnext⟩
        · rw [if_neg (show (M.entry j env op c.world).caller ≠ i from hij)] at hown
          rw [List.getElem?_set_ne hij] at hi
          exact hown ▸ h.unmoved hsound hi (hothers i (Ne.symm hij))
    · exact h
  | crash j =>
    simp only [Machine.step]
    split
    · rename_i r p hj
      have hlen : j < c.callers.length := (List.getElem?_eq_some_iff.mp hj).1
      obtain ⟨hinvariant, hothers⟩ := hsound.abort j c.world h.invariant
      refine ⟨fun e he => by simpa using h.arrived e he, h.right, hinvariant, fun i r' p' hi => ?_⟩
      by_cases hij : j = i
      · subst hij
        simp [List.getElem?_set_self hlen] at hi
      · rw [List.getElem?_set_ne hij] at hi
        exact h.unmoved hsound hi (hothers i (Ne.symm hij))
    · exact h

/-- Where every program ensures its postconditions under the agreement, all runs keep it. -/
theorem agreed_run (hsound : g.Sound M)
    (hprogram : ∀ r i w, M.Ensures i (g.contract i) (Q r i) (E r i) [] w (M.program r))
    {w : World} (hw : g.invariant w) (events : List (Event Env Request)) :
    M.Agreed g Q E (M.run w events) :=
  M.run_induction w ⟨by simp [initial], by simp [initial], hw, by simp [initial]⟩
    (fun _ event h => h.step hsound hprogram event) events

/-- One who has not come can rely on an event. -/
theorem Agreed.rely_step (hsound : g.Sound M) {c : Config Op Reply Exc Env World Request Out}
    (h : M.Agreed g Q E c) (event : Event Env Request) {k : ℕ} (hk : c.callers.length ≤ k) :
    g.rely k c.world (M.step c event).world := by
  have hne {j : ℕ} {caller : Caller Op Reply Exc Request Out} (hj : c.callers[j]? = some caller) :
      k ≠ j := by
    have := (List.getElem?_eq_some_iff.mp hj).1
    omega
  cases event with
  | arrive r => exact hsound.refl k _
  | step j env =>
    simp only [Machine.step]
    split
    · rename_i hj
      exact (hsound.exec j env _ c.world h.invariant (h.next hj env).1).2 k (hne hj)
    · exact hsound.refl k _
  | crash j =>
    simp only [Machine.step]
    split
    · rename_i hj
      exact (hsound.abort j c.world h.invariant).2 k (hne hj)
    · exact hsound.refl k _

/-- So what everybody relies on lasts: one who never comes can rely on the rest of a run. -/
theorem rely_run (hsound : g.Sound M)
    (hprogram : ∀ r i w, M.Ensures i (g.contract i) (Q r i) (E r i) [] w (M.program r))
    {w : World} (hw : g.invariant w) (earlier later : List (Event Env Request)) {k : ℕ}
    (hk : (earlier ++ later).length ≤ k) :
    g.rely k (M.run w earlier).world (M.run w (earlier ++ later)).world := by
  induction later using List.reverseRecOn with
  | nil => simpa using hsound.refl k _
  | append_singleton later event ih =>
    rw [← List.append_assoc] at hk ⊢
    rw [List.length_append, List.length_singleton] at hk
    have hcallers : (M.run w (earlier ++ later)).callers.length ≤ (earlier ++ later).length := by
      have hrequests := congrArg List.length (M.requests_run w (earlier ++ later))
      rw [List.length_map] at hrequests
      exact hrequests ▸ List.length_filterMap_le _ _
    have hagreed := agreed_run hsound hprogram hw (earlier ++ later)
    rw [run_concat]
    exact hsound.trans k _ _ _ (ih (by omega)) (hagreed.rely_step hsound event (by omega))

/-- A caller that has returned meets its postcondition. -/
theorem Agreed.returned {c : Config Op Reply Exc Env World Request Out} (h : M.Agreed g Q E c)
    {i : ℕ} {r : Request} {a : Out} (hi : c.callers[i]? = some ⟨r, some (.ret a)⟩) :
    ∃ w, g.rely i w c.world ∧ Q r i (own c.trace i) w a := by
  obtain ⟨w, hw, hensures⟩ := h.live i r _ hi
  exact ⟨w, hw, hensures.2⟩

/-- So does one that has raised. -/
theorem Agreed.raised {c : Config Op Reply Exc Env World Request Out} (h : M.Agreed g Q E c)
    {i : ℕ} {r : Request} {exc : Exc} (hi : c.callers[i]? = some ⟨r, some (.raise exc)⟩) :
    ∃ w, g.rely i w c.world ∧ E r i (own c.trace i) w exc := by
  obtain ⟨w, hw, hensures⟩ := h.live i r _ hi
  exact ⟨w, hw, hensures.2⟩

end Machine

end CreditScoringMlops.Interaction
