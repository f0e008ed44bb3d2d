import Mathlib.Data.List.Sort
import Mathlib.Data.Set.Finite.Lemmas

/-!
# Newest items first

A history in which the newest item comes first and no two items have one time. Its first item with
a property is the newest one with it, and a prefix holds what has few newer items. A table that
keeps the first row of each key keeps the newest one.
-/

namespace CreditScoringMlops.Data

variable {A K T : Type} [LinearOrder T] {time : A → T}

/-- Newest first, with distinct times. -/
def NewestFirst (time : A → T) (l : List A) : Prop := l.Pairwise fun a b => time b < time a

/-- The newest of the items with a property. -/
def IsNewest (time : A → T) (P : A → Prop) (a : A) : Prop := P a ∧ ∀ b, P b → time b ≤ time a

/-- Being the newest depends on nothing but the property. -/
theorem IsNewest.congr {P Q : A → Prop} {a : A} (h : IsNewest time P a) (hPQ : ∀ b, P b ↔ Q b) :
    IsNewest time Q a :=
  ⟨(hPQ a).mp h.1, fun b hb => h.2 b ((hPQ b).mpr hb)⟩

variable (time) in
/-- Some item is the newest one with a property, if any item of a list has it. -/
theorem exists_isNewest {l : List A} {P : A → Prop} (hP : ∀ a, P a → a ∈ l) {a : A} (ha : P a) :
    ∃ b, IsNewest time P b := by
  have hfinite : {b | P b}.Finite := l.finite_toSet.subset fun b hb => hP b hb
  obtain ⟨b, hb, hmax⟩ := Set.exists_max_image {b | P b} time hfinite ⟨a, ha⟩
  exact ⟨b, hb, fun c hc => hmax c hc⟩

/-- The first item with a property is the newest one. -/
theorem NewestFirst.find?_eq_some_iff {l : List A} (hl : NewestFirst time l) {p : A → Bool}
    {a : A} : l.find? p = some a ↔ IsNewest time (fun b => b ∈ l ∧ p b) a := by
  induction l with
  | nil => simp [IsNewest]
  | cons c l ih =>
    obtain ⟨hc, hl⟩ := List.pairwise_cons.mp hl
    by_cases hp : p c
    · rw [List.find?_cons_of_pos hp, Option.some.injEq]
      constructor
      · rintro rfl
        refine ⟨⟨List.mem_cons_self, hp⟩, fun b hb => ?_⟩
        rcases List.mem_cons.mp hb.1 with rfl | hmem
        · exact le_refl _
        · exact (hc b hmem).le
      · intro ha
        rcases List.mem_cons.mp ha.1.1 with rfl | hmem
        · rfl
        · exact absurd (hc a hmem) (not_lt.mpr (ha.2 c ⟨List.mem_cons_self, hp⟩))
    · rw [List.find?_cons_of_neg hp, ih hl]
      have hsame : ∀ b, (b ∈ l ∧ p b) ↔ (b ∈ c :: l ∧ p b) := fun b => by
        constructor
        · exact fun hb => ⟨List.mem_cons_of_mem _ hb.1, hb.2⟩
        · intro hb
          refine ⟨(List.mem_cons.mp hb.1).resolve_left fun heq => hp (heq ▸ hb.2), hb.2⟩
      exact ⟨fun h => h.congr hsame, fun h => h.congr fun b => (hsame b).symm⟩

/-- The first `n` items are those with fewer than `n` newer ones. -/
theorem NewestFirst.mem_take_iff {l : List A} (hl : NewestFirst time l) {n : ℕ} {a : A} :
    a ∈ l.take n ↔ a ∈ l ∧ l.countP (fun b => time a < time b) < n := by
  induction l generalizing n with
  | nil => simp
  | cons c l ih =>
    obtain ⟨hc, hl⟩ := List.pairwise_cons.mp hl
    cases n with
    | zero => simp
    | succ n =>
      rw [List.take_succ_cons, List.mem_cons, List.mem_cons, ih hl, List.countP_cons]
      constructor
      · rintro (rfl | ⟨hmem, hcount⟩)
        · refine ⟨.inl rfl, ?_⟩
          have hnone : l.countP (fun b => time a < time b) = 0 :=
            List.countP_eq_zero.mpr fun b hb => by simpa using (hc b hb).le
          simp [hnone]
        · refine ⟨.inr hmem, ?_⟩
          split <;> omega
      · rintro ⟨rfl | hmem, hcount⟩
        · exact .inl rfl
        · refine .inr ⟨hmem, ?_⟩
          rw [if_pos (decide_eq_true (hc a hmem))] at hcount
          omega

/-- Items with distinct times come newest first once they are sorted. -/
theorem newestFirst_of_perm {l all : List A} (hperm : all.Perm l) (hdistinct : (l.map time).Nodup)
    (hsorted : all.Pairwise fun a b => time b ≤ time a) : NewestFirst time all := by
  have hne : all.Pairwise fun a b => time a ≠ time b :=
    List.pairwise_map.mp ((hperm.map time).nodup_iff.mpr hdistinct)
  exact (hsorted.and hne).imp fun hab => lt_of_le_of_ne hab.1 hab.2.symm

/-- A query for the newest `n` items: it is sorted, as long as it can be, and what is left out is no
newer than what is taken. Items with one time may come in any order. -/
structure TakesNewest (time : A → T) (n : ℕ) (all taken : List A) : Prop where
  subperm : taken.Subperm all
  length : taken.length = min n all.length
  sorted : taken.Pairwise fun a b => time b ≤ time a
  newest : ∀ a ∈ all, a ∉ taken → ∀ b ∈ taken, time a ≤ time b

/-- The start of a sorted table is one. -/
theorem takesNewest_take {all sorted : List A} (hperm : sorted.Perm all)
    (hsorted : sorted.Pairwise fun a b => time b ≤ time a) (n : ℕ) :
    TakesNewest time n all (sorted.take n) where
  subperm := (List.take_sublist n sorted).subperm.trans hperm.subperm
  length := by rw [List.length_take, hperm.length_eq]
  sorted := hsorted.sublist (List.take_sublist n sorted)
  newest := by
    intro a ha hnot b hb
    rw [← List.take_append_drop n sorted, List.pairwise_append] at hsorted
    rw [← hperm.mem_iff, ← List.take_append_drop n sorted, List.mem_append] at ha
    exact hsorted.2.2 b hb a (ha.resolve_left hnot)

/-- What is not taken has been outnumbered by newer items. -/
theorem TakesNewest.mem_or {n : ℕ} {all taken : List A} (h : TakesNewest time n all taken) {a : A}
    (ha : a ∈ all) : a ∈ taken ∨ taken.length = n ∧ ∀ b ∈ taken, time a ≤ time b := by
  by_cases hmem : a ∈ taken
  · exact .inl hmem
  refine .inr ⟨?_, h.newest a ha hmem⟩
  by_contra hlt
  have hall : taken.length = all.length := by
    have := h.length
    omega
  exact hmem ((h.subperm.perm_of_length_le hall.ge).mem_iff.mpr ha)

/-! ## The first row of each key -/

variable [DecidableEq K] {key : A → K}

/-- `drop_duplicates(subset=[key], keep="first")`. -/
def dropDuplicates (key : A → K) : List A → List A
  | [] => []
  | a :: l => a :: (dropDuplicates key l).filter fun b => key b ≠ key a

/-- A row stays exactly if it is the first one with its key. -/
theorem mem_dropDuplicates {l : List A} {a : A} :
    a ∈ dropDuplicates key l ↔ l.find? (fun b => key b = key a) = some a := by
  induction l with
  | nil => simp [dropDuplicates]
  | cons c l ih =>
    rw [dropDuplicates, List.mem_cons, List.mem_filter, ih]
    by_cases hkey : key c = key a
    · simp [hkey, eq_comm]
    · have hne : a ≠ c := fun heq => hkey (heq ▸ rfl)
      have hkey' : key a ≠ key c := fun heq => hkey heq.symm
      simp [hkey, hkey', hne]

/-- Rows are dropped by their keys alone. -/
theorem map_dropDuplicates {B : Type} (f : B → A) (l : List B) :
    (dropDuplicates (fun b => key (f b)) l).map f = dropDuplicates key (l.map f) := by
  induction l with
  | nil => rfl
  | cons c l ih =>
    rw [dropDuplicates, List.map_cons, List.map_cons, dropDuplicates, ← ih, List.filter_map]
    rfl

/-- One more row stays if its key is new. -/
theorem dropDuplicates_append_singleton (l : List A) (a : A) :
    dropDuplicates key (l ++ [a]) =
      if (dropDuplicates key l).any fun b => key b = key a then dropDuplicates key l
      else dropDuplicates key l ++ [a] := by
  induction l with
  | nil => rfl
  | cons c l ih =>
    rw [List.cons_append, dropDuplicates, ih, dropDuplicates, List.any_cons, List.any_filter]
    by_cases hkey : key c = key a
    · have hdrop : [a].filter (fun b => key b ≠ key c) = [] := by simp [hkey]
      simp only [hkey, decide_true, Bool.true_or, if_true]
      split
      next => rfl
      next => rw [List.filter_append, ← hkey, hdrop, List.append_nil]
    · have hkeep : [a].filter (fun b => key b ≠ key c) = [a] := by simp [Ne.symm hkey]
      have hother : ∀ b, (decide (key b ≠ key c) && decide (key b = key a)) =
          decide (key b = key a) := fun b => by
        by_cases hb : key b = key a
        · simp [hb, Ne.symm hkey]
        · simp [hb]
      simp only [hkey, hother, decide_false, Bool.false_or]
      split
      next => rfl
      next => rw [List.filter_append, hkeep, List.cons_append]

/-- No key stays twice. -/
theorem nodup_dropDuplicates (l : List A) : ((dropDuplicates key l).map key).Nodup := by
  induction l with
  | nil => exact List.nodup_nil
  | cons c l ih =>
    rw [dropDuplicates, List.map_cons, List.nodup_cons]
    constructor
    · intro hmem
      obtain ⟨b, hb, hkey⟩ := List.mem_map.mp hmem
      exact absurd hkey (by simpa using (List.mem_filter.mp hb).2)
    · exact ih.sublist (List.filter_sublist.map key)

/-! ## The best row -/

variable (time) in
/-- The first row of a table that is sorted by a value, best first, has the greatest value. -/
theorem le_of_head?_insertionSort {r : A → A → Prop} [DecidableRel r] {l : List A}
    (hr : ∀ a ∈ l, ∀ b ∈ l, r a b ↔ time b ≤ time a) {a : A}
    (ha : (l.insertionSort r).head? = some a) : ∀ b ∈ l, time b ≤ time a := by
  intro b hb
  have hmap := List.map_insertionSort r (· ≥ ·) time l hr
  have hsorted := List.pairwise_insertionSort (· ≥ ·) (l.map time)
  rw [← hmap] at hsorted
  have hmem : b ∈ l.insertionSort r := (List.mem_insertionSort r).mpr hb
  cases hl : l.insertionSort r with
  | nil => rw [hl] at hmem; cases hmem
  | cons c rest =>
    rw [hl] at ha hsorted hmem
    obtain rfl := Option.some.inj ha
    rcases List.mem_cons.mp hmem with rfl | hrest
    · exact le_refl _
    · exact (List.pairwise_cons.mp hsorted).1 _ (List.mem_map_of_mem hrest)

end CreditScoringMlops.Data
