import Mathlib.Data.List.Basic

/-!
# Obligations in a history

An element of a history may raise obligations, and a later element may meet them. `Owes` keeps
the account: every obligation raised so far has been met since, or is among those still owed.
-/

namespace CreditScoringMlops.Interaction

variable {A O : Type} (raises meets : A → O → Prop)

/-- Every obligation raised in a history is met later in it, or is among those still owed. -/
def Owes (owed : O → Prop) (h : List A) : Prop :=
  ∀ pre e post o, h = pre ++ e :: post → raises e o → (∃ f ∈ post, meets f o) ∨ owed o

/-- Nothing is owed any more. -/
def Discharged (h : List A) : Prop :=
  ∀ pre e post o, h = pre ++ e :: post → raises e o → ∃ f ∈ post, meets f o

variable {raises meets} {owed owed' : O → Prop} {h : List A} {e : A}

/-- A discharged history owes nothing. -/
theorem discharged_iff : Discharged raises meets h ↔ Owes raises meets (fun _ => False) h := by
  simp only [Discharged, Owes, or_false]

/-- Nothing has been raised in the beginning. -/
theorem owes_nil : Owes raises meets owed ([] : List A) := by
  intro pre e post o hsplit
  simp at hsplit

/-- More may be owed. -/
theorem Owes.weaken (hh : Owes raises meets owed h) (howed : ∀ o, owed o → owed' o) :
    Owes raises meets owed' h := fun pre e post o hsplit he =>
  (hh pre e post o hsplit he).imp_right (howed o)

/-- The next element meets what was owed, or leaves it owed, and owes what it raises itself. -/
theorem Owes.concat (hh : Owes raises meets owed h)
    (howed : ∀ o, owed o → meets e o ∨ owed' o) (hraises : ∀ o, raises e o → owed' o) :
    Owes raises meets owed' (h ++ [e]) := by
  intro pre e' post o hsplit he'
  rcases List.eq_nil_or_concat post with rfl | ⟨init, last, rfl⟩
  · obtain ⟨-, hlast⟩ := List.append_inj' hsplit rfl
    obtain rfl : e = e' := by simpa using hlast
    exact .inr (hraises o he')
  · rw [List.concat_eq_append, ← List.cons_append, ← List.append_assoc] at hsplit
    obtain ⟨hpast, hlast⟩ := List.append_inj' hsplit rfl
    obtain rfl : e = last := by simpa using hlast
    rcases hh pre e' init o hpast he' with ⟨f, hf, hmeets⟩ | ho
    · exact .inl ⟨f, by simp [hf], hmeets⟩
    · rcases howed o ho with hmeets | ho
      · exact .inl ⟨e, by simp, hmeets⟩
      · exact .inr ho

/-- An element that raises nothing leaves a discharged history discharged. -/
theorem Discharged.concat (hh : Discharged raises meets h) (hraises : ∀ o, ¬raises e o) :
    Discharged raises meets (h ++ [e]) :=
  discharged_iff.mpr ((discharged_iff.mp hh).concat (fun _ => False.elim) hraises)

/-- What the last element raises is not met. -/
theorem not_discharged_concat {o : O} (he : raises e o) : ¬Discharged raises meets (h ++ [e]) := by
  intro hh
  obtain ⟨f, hf, -⟩ := hh h e [] o rfl he
  cases hf

end CreditScoringMlops.Interaction
