import Mathlib.Data.List.Sort
import Mathlib.Order.Monotone.Defs

/-!
# Rankings

A ranking sorts items by falling keys and keeps the order of those that have the same key. An item
splits it in two: ahead of it are the earlier items with at least its key and the later ones with a
greater key. This tells when the leading items of a ranking by a coarse key are also in the order of
a finer one.
-/

namespace CreditScoringMlops.Data

section Ranked

variable {A K : Type} [LinearOrder K] (key : A → K)

/-- Items by falling keys. -/
def ranked (xs : List A) : List A := xs.insertionSort fun a b => key b ≤ key a

/-- A ranking has the items that it ranks. -/
theorem ranked_perm (xs : List A) : (ranked key xs).Perm xs := List.perm_insertionSort _ xs

@[simp] theorem length_ranked (xs : List A) : (ranked key xs).length = xs.length :=
  (ranked_perm key xs).length_eq

@[simp] theorem mem_ranked {xs : List A} {a : A} : a ∈ ranked key xs ↔ a ∈ xs :=
  (ranked_perm key xs).mem_iff

/-- Ranking commutes with a change of the items that keeps their keys. -/
theorem map_ranked {B : Type} {keyB : B → K} {f : A → B} (hf : ∀ a, keyB (f a) = key a)
    (xs : List A) : (ranked key xs).map f = ranked keyB (xs.map f) :=
  List.map_insertionSort _ _ f xs fun a _ b _ => by rw [hf, hf]

/-- An item goes ahead of the first one that is not greater. -/
def insertRanked (a : A) (xs : List A) : List A := xs.orderedInsert (fun a b => key b ≤ key a) a

theorem ranked_cons (a : A) (xs : List A) :
    ranked key (a :: xs) = insertRanked key a (ranked key xs) := rfl

theorem insertRanked_cons (a b : A) (xs : List A) :
    insertRanked key a (b :: xs) =
      if key b ≤ key a then a :: b :: xs else b :: insertRanked key a xs := rfl

variable {key}

/-- It goes behind all greater ones. -/
theorem insertRanked_append_of_lt {before : List A} {a : A} (h : ∀ b ∈ before, key a < key b)
    (after : List A) :
    insertRanked key a (before ++ after) = before ++ insertRanked key a after := by
  induction before with
  | nil => rfl
  | cons b before ih =>
    rw [List.forall_mem_cons] at h
    rw [List.cons_append, insertRanked_cons, if_neg h.1.not_ge, ih h.2, List.cons_append]

/-- It goes ahead of all that are not greater. -/
theorem insertRanked_append_of_le {after : List A} {a : A} (h : ∀ b ∈ after, key b ≤ key a)
    (before : List A) :
    insertRanked key a (before ++ after) = insertRanked key a before ++ after := by
  induction before with
  | nil =>
    cases after with
    | nil => rfl
    | cons b after =>
      rw [List.nil_append, insertRanked_cons, if_pos (h b List.mem_cons_self)]
      rfl
  | cons b before ih =>
    rw [List.cons_append, insertRanked_cons, insertRanked_cons]
    split
    · rfl
    · rw [ih, List.cons_append]

variable (key)

/-- The greater items come first. -/
theorem ranked_eq_append (k : K) (xs : List A) :
    ranked key xs = ranked key (xs.filter (k < key ·)) ++ ranked key (xs.filter (key · ≤ k)) := by
  induction xs with
  | nil => rfl
  | cons a xs ih =>
    rw [ranked_cons, ih]
    by_cases ha : k < key a
    · rw [List.filter_cons_of_pos (by simpa using ha), List.filter_cons_of_neg (by simpa using ha),
        ranked_cons]
      refine insertRanked_append_of_le (fun b hb => ?_) _
      have hle : key b ≤ k := by simpa using (List.mem_filter.mp ((mem_ranked key).mp hb)).2
      exact hle.trans ha.le
    · rw [List.filter_cons_of_neg (by simpa using ha),
        List.filter_cons_of_pos (by simpa using ha), ranked_cons]
      refine insertRanked_append_of_lt (fun b hb => ?_) _
      have hlt : k < key b := by simpa using (List.mem_filter.mp ((mem_ranked key).mp hb)).2
      exact (not_lt.mp ha).trans_lt hlt

/-- What comes ahead of an item between two parts of a list. -/
def itemsAhead (pre : List A) (c : A) (post : List A) : List A :=
  pre.filter (key c ≤ key ·) ++ post.filter (key c < key ·)

/-- What comes behind it. -/
def itemsBehind (pre : List A) (c : A) (post : List A) : List A :=
  pre.filter (key · < key c) ++ post.filter (key · ≤ key c)

variable {key} {pre post : List A} {b c : A}

theorem le_of_mem_itemsAhead (h : b ∈ itemsAhead key pre c post) : key c ≤ key b := by
  rcases List.mem_append.mp h with h | h
  · simpa using (List.mem_filter.mp h).2
  · exact le_of_lt (by simpa using (List.mem_filter.mp h).2)

theorem mem_itemsBehind :
    b ∈ itemsBehind key pre c post ↔ (b ∈ pre ∧ key b < key c) ∨ (b ∈ post ∧ key b ≤ key c) := by
  simp [itemsBehind]

theorem le_of_mem_itemsBehind (h : b ∈ itemsBehind key pre c post) : key b ≤ key c :=
  (mem_itemsBehind.mp h).elim (fun h => h.2.le) And.right

variable (key)

/-- An item splits the ranking. -/
theorem ranked_append_cons (pre : List A) (c : A) (post : List A) :
    ranked key (pre ++ c :: post) =
      ranked key (itemsAhead key pre c post) ++ c :: ranked key (itemsBehind key pre c post) := by
  induction pre with
  | nil =>
    have hahead : ∀ b ∈ ranked key (itemsAhead key [] c post), key c < key b := by
      intro b hb
      simpa using (List.mem_filter.mp ((mem_ranked key).mp hb)).2
    have hbehind : ∀ b ∈ ranked key (itemsBehind key [] c post), key b ≤ key c := fun b hb =>
      le_of_mem_itemsBehind ((mem_ranked key).mp hb)
    rw [List.nil_append, ranked_cons, ranked_eq_append key (key c)]
    exact (insertRanked_append_of_lt hahead _).trans
      (congrArg _ (insertRanked_append_of_le hbehind []))
  | cons a pre ih =>
    rw [List.cons_append, ranked_cons, ih]
    by_cases ha : key c ≤ key a
    · -- ahead of it, and so of all that is behind it
      have hahead : itemsAhead key (a :: pre) c post = a :: itemsAhead key pre c post := by
        simp [itemsAhead, ha]
      have hbehind : itemsBehind key (a :: pre) c post = itemsBehind key pre c post := by
        simp [itemsBehind, ha]
      rw [hahead, hbehind, ranked_cons]
      refine insertRanked_append_of_le (List.forall_mem_cons.mpr ⟨ha, fun b hb => ?_⟩) _
      exact (le_of_mem_itemsBehind ((mem_ranked key).mp hb)).trans ha
    · have hlt : key a < key c := not_le.mp ha
      have hahead : itemsAhead key (a :: pre) c post = itemsAhead key pre c post := by
        simp [itemsAhead, ha]
      have hbehind : itemsBehind key (a :: pre) c post = a :: itemsBehind key pre c post := by
        simp [itemsBehind, hlt]
      rw [hahead, hbehind, ranked_cons]
      rw [insertRanked_append_of_lt fun b hb =>
        hlt.trans_le (le_of_mem_itemsAhead ((mem_ranked key).mp hb))]
      rw [insertRanked_cons, if_neg ha]

end Ranked

section Leading

variable {A K L : Type} [LinearOrder K] [LinearOrder L] {key : A → K} {exact : A → L}

/-- The leading `n` items are in falling order, and no other item exceeds one of them. -/
def Leading (exact : A → L) (n : ℕ) (xs : List A) : Prop :=
  ((xs.take n).Pairwise fun a b => exact b ≤ exact a) ∧
    ∀ a ∈ xs.take n, ∀ b ∈ xs.drop n, exact b ≤ exact a

theorem leading_cons {n : ℕ} {a : A} {xs : List A} :
    Leading exact (n + 1) (a :: xs) ↔ (∀ b ∈ xs, exact b ≤ exact a) ∧ Leading exact n xs := by
  have hrest : (∀ b ∈ xs, exact b ≤ exact a) ↔
      (∀ b ∈ xs.take n, exact b ≤ exact a) ∧ ∀ b ∈ xs.drop n, exact b ≤ exact a := by
    rw [← List.forall_mem_append, List.take_append_drop]
  rw [hrest, Leading, Leading, List.take_succ_cons, List.drop_succ_cons, List.pairwise_cons,
    List.forall_mem_cons]
  tauto

/-- Each leading item is one that nothing behind it exceeds. -/
theorem leading_iff {n : ℕ} {xs : List A} :
    Leading exact n xs ↔ ∀ before a after, xs = before ++ a :: after → before.length < n →
      ∀ b ∈ after, exact b ≤ exact a := by
  induction xs generalizing n with
  | nil => simp [Leading]
  | cons x xs ih =>
    cases n with
    | zero => simp [Leading]
    | succ n =>
      rw [leading_cons, ih]
      constructor
      · rintro ⟨hx, hxs⟩ before a after heq hlength
        obtain ⟨rfl, hcons⟩ | ⟨before', rfl, htail⟩ := List.cons_eq_append_iff.mp heq
        · obtain ⟨rfl, rfl⟩ := List.cons_eq_cons.mp hcons
          exact hx
        · exact hxs before' a after htail (by simpa using hlength)
      · intro h
        refine ⟨h [] x xs rfl (by simp), fun before a after heq hlength => ?_⟩
        exact h (x :: before) a after (by rw [heq]; rfl) (by simpa using hlength)

/-- The leading items of a ranking by a coarse key are in the order of the exact one if every later
item that exceeds an earlier one of the same key has enough items ahead of the earlier one. -/
theorem leading_ranked_iff (hcoarse : ∀ a b, key a < key b → exact a < exact b) {xs : List A}
    (hxs : xs.Nodup) {n : ℕ} :
    Leading exact n (ranked key xs) ↔
      ∀ pre a post, xs = pre ++ a :: post → ∀ b ∈ post, key b = key a → exact a < exact b →
        n ≤ (itemsAhead key pre a post).length := by
  rw [leading_iff]
  constructor
  · rintro hleading pre a post rfl b hb hkey hlt
    by_contra hahead
    have hle : exact b ≤ exact a := by
      refine hleading _ a _ (ranked_append_cons key pre a post) ?_ b ?_
      · rw [length_ranked]
        exact not_le.mp hahead
      · exact (mem_ranked key).mpr (mem_itemsBehind.mpr (.inr ⟨hb, hkey.le⟩))
    exact hle.not_gt hlt
  · intro hahead before a after heq hlength b hb
    have ha : a ∈ xs := (mem_ranked key).mp (heq ▸ by simp)
    obtain ⟨pre, post, rfl⟩ := List.append_of_mem ha
    -- there is one way to split the ranking at the item
    have hsplit := heq.symm.trans (ranked_append_cons key pre a post)
    have hnodup := (ranked_perm key _).nodup_iff.mpr hxs
    rw [heq, List.nodup_middle, List.nodup_cons, List.mem_append, not_or] at hnodup
    obtain ⟨rfl, -, rfl⟩ := (List.append_cons_inj_of_notMem hnodup.1.1 hnodup.1.2).mp hsplit
    rw [length_ranked] at hlength
    obtain ⟨-, hlt⟩ | ⟨hpost, hle⟩ := mem_itemsBehind.mp ((mem_ranked key).mp hb)
    · exact (hcoarse b a hlt).le
    · obtain hlt | hkey := hle.lt_or_eq
      · exact (hcoarse b a hlt).le
      · exact not_lt.mp fun hexact =>
          hlength.not_ge (hahead pre a post rfl b hpost hkey hexact)

end Leading

end CreditScoringMlops.Data
