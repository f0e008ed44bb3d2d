import Mathlib.Data.List.Induction

/-!
# Runs of a step function

A run is a fold of a step function over the list of what happens. An invariant is kept step by
step, and a relation that is reflexive and transitive relates every earlier state of a run to every
later one exactly if it relates the two ends of every step.
-/

namespace CreditScoringMlops.Data

variable {S A : Type} (step : S → A → S)

/-- What holds at the start and survives every step holds after every run. -/
theorem foldl_invariant {I : S → Prop} (hstep : ∀ s a, I s → I (step s a)) (steps : List A) {s : S}
    (hs : I s) : I (steps.foldl step s) := by
  induction steps generalizing s with
  | nil => exact hs
  | cons a rest ih => exact ih (hstep s a hs)

/-- A relation that every step of a run keeps relates its start to its end. -/
theorem foldl_relates {R : S → S → Prop} (hrefl : ∀ s, R s s)
    (htrans : ∀ a b c, R a b → R b c → R a c) (steps : List A) {s : S}
    (h : ∀ pre a post, steps = pre ++ a :: post →
      R (pre.foldl step s) (step (pre.foldl step s) a)) : R s (steps.foldl step s) := by
  induction steps generalizing s with
  | nil => exact hrefl s
  | cons a rest ih =>
    have hfirst : R s (step s a) := h [] a rest rfl
    have hrest : R (step s a) (rest.foldl step (step s a)) := ih fun pre b post hsplit =>
      h (a :: pre) b post (by rw [hsplit, List.cons_append])
    exact htrans _ _ _ hfirst hrest

/-- Earlier and later states of a run are related exactly if each step relates its two ends. -/
theorem foldl_relates_iff {R : S → S → Prop} (hrefl : ∀ s, R s s)
    (htrans : ∀ a b c, R a b → R b c → R a c) (steps : List A) (s : S) :
    (∀ earlier later rest, steps = earlier ++ later ++ rest →
      R (earlier.foldl step s) ((earlier ++ later).foldl step s)) ↔
    ∀ pre a post, steps = pre ++ a :: post →
      R (pre.foldl step s) (step (pre.foldl step s) a) := by
  constructor
  · intro h pre a post hsplit
    have hone := h pre [a] post (by rw [hsplit, List.append_assoc, List.singleton_append])
    rwa [List.foldl_append] at hone
  · intro h earlier later rest hsplit
    rw [List.foldl_append]
    refine foldl_relates step hrefl htrans later fun pre a post hlater => ?_
    rw [← List.foldl_append]
    exact h (earlier ++ pre) a (post ++ rest) (by simp [hsplit, hlater])

end CreditScoringMlops.Data
