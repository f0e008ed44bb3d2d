import Mathlib.Data.List.Basic

/-!
# Patterns over lines

A pattern is a sequence of line boundaries, fixed texts and repetitions of a class. It matches
between two texts, part by part. The first match of a text is the one with the least text before it.
-/

namespace CreditScoringMlops.Data

variable {A : Type}

/-- A part of a pattern. -/
inductive Atom (A : Type) where
  | lineStart
  | lineEnd
  | lit (text : List A)
  | star (p : A → Bool)

/-- A line may start behind a text. -/
def AtLineStart (newline : A) (before : List A) : Prop :=
  ∀ c, before.getLast? = some c → c = newline

/-- A line may end ahead of a text. -/
def AtLineEnd (newline : A) (after : List A) : Prop := ∀ c, after.head? = some c → c = newline

/-- The atom matches a text between two others. -/
def Atom.Accepts (newline : A) : Atom A → List A → List A → List A → Prop
  | lineStart, before, part, _ => part = [] ∧ AtLineStart newline before
  | lineEnd, _, part, after => part = [] ∧ AtLineEnd newline after
  | lit text, _, part, _ => part = text
  | star p, _, part, _ => ∀ c ∈ part, p c

/-- The pattern matches between two texts, with one part for each of its atoms. -/
def Matches (newline : A) : List (Atom A) → List A → List (List A) → List A → Prop
  | [], _, parts, _ => parts = []
  | atom :: pattern, before, parts, after => ∃ part rest, parts = part :: rest ∧
      atom.Accepts newline before part (rest.flatten ++ after) ∧
      Matches newline pattern (before ++ part) rest after

/-- The pattern matches somewhere in the text. -/
def HasMatch (newline : A) (pattern : List (Atom A)) (text : List A) : Prop :=
  ∃ before parts after, text = before ++ parts.flatten ++ after ∧
    Matches newline pattern before parts after

/-- No match of the text begins earlier. -/
structure FirstMatch (newline : A) (pattern : List (Atom A)) (text before : List A)
    (parts : List (List A)) (after : List A) : Prop where
  split : text = before ++ parts.flatten ++ after
  here : Matches newline pattern before parts after
  first : ∀ before' parts' after', text = before' ++ parts'.flatten ++ after' →
    Matches newline pattern before' parts' after' → before.length ≤ before'.length

variable {newline : A} {pattern : List (Atom A)} {text : List A}

/-- Two first matches begin at the same place. -/
theorem FirstMatch.eq_of_firstMatch {before before' after after' : List A}
    {parts parts' : List (List A)} (h : FirstMatch newline pattern text before parts after)
    (h' : FirstMatch newline pattern text before' parts' after') :
    before = before' ∧ parts.flatten ++ after = parts'.flatten ++ after' := by
  have hlength : before.length = before'.length :=
    Nat.le_antisymm (h.first _ _ _ h'.split h'.here) (h'.first _ _ _ h.split h.here)
  refine List.append_inj ?_ hlength
  rw [← List.append_assoc, ← List.append_assoc, ← h.split, ← h'.split]

/-- A repetition that cannot go on takes all it can. -/
theorem takeWhile_eq_of_head {p : A → Bool} {part rest : List A} (hpart : ∀ c ∈ part, p c)
    (hrest : ∀ c, rest.head? = some c → p c = false) :
    (part ++ rest).takeWhile p = part ∧ (part ++ rest).dropWhile p = rest := by
  have hstop : rest.takeWhile p = [] ∧ rest.dropWhile p = rest := by
    cases rest with
    | nil => exact ⟨rfl, rfl⟩
    | cons c rest =>
      have hc : ¬p c := by simp [hrest c rfl]
      exact ⟨List.takeWhile_cons_of_neg hc, List.dropWhile_cons_of_neg hc⟩
  rw [List.takeWhile_append_of_pos hpart, List.dropWhile_append_of_pos hpart, hstop.1, hstop.2,
    List.append_nil]
  exact ⟨rfl, rfl⟩

end CreditScoringMlops.Data
