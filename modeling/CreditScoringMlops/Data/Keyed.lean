import Mathlib.Data.List.Nodup

/-!
# Lists with unique keys

A table that only grows: its items in order of insertion, no two of them with one key. Looking an
item up by its key and membership are the same thing, and inserting loses nothing.
-/

namespace CreditScoringMlops.Data

variable {A K : Type} [DecidableEq K] {key : A → K}

/-- Items with at most one for each key, oldest first. -/
structure Keyed (key : A → K) where
  items : List A
  unique : (items.map key).Nodup

namespace Keyed

/-- The empty table. -/
def empty : Keyed key := ⟨[], List.nodup_nil⟩

/-- The item of a key. -/
def find? (t : Keyed key) (k : K) : Option A := t.items.find? fun a => decide (key a = k)

/-- Append an item, unless its key is taken. -/
def insert (t : Keyed key) (a : A) : Keyed key :=
  if h : key a ∈ t.items.map key then t
  else
    { items := t.items ++ [a]
      unique := by
        rw [List.map_append]
        refine List.nodup_append.mpr ⟨t.unique, by simp, fun k hk k' hk' heq => h ?_⟩
        rwa [heq, List.mem_singleton.mp hk'] at hk }

/-- An item after an insertion was there before, or is the inserted one. -/
theorem mem_of_mem_insert {t : Keyed key} {a b : A} (h : b ∈ (t.insert a).items) :
    b ∈ t.items ∨ b = a := by
  unfold insert at h
  split at h
  · exact .inl h
  · exact (List.mem_append.mp h).imp_right List.mem_singleton.mp

/-- A key that no item has is found nowhere. -/
theorem find?_eq_none {t : Keyed key} {k : K} (h : k ∉ t.items.map key) : t.find? k = none := by
  refine List.find?_eq_none.mpr fun a ha heq => h ?_
  rw [← of_decide_eq_true heq]
  exact List.mem_map_of_mem ha

/-- An item with a new key is inserted at the end. -/
theorem items_insert {t : Keyed key} {a : A} (h : key a ∉ t.items.map key) :
    (t.insert a).items = t.items ++ [a] := by
  rw [insert, dif_neg h]

/-- What is found under a key is an item of the table. -/
theorem mem_of_find? {t : Keyed key} {k : K} {a : A} (h : t.find? k = some a) : a ∈ t.items :=
  List.mem_of_find?_eq_some h

/-- What is found under a key has that key. -/
theorem key_of_find? {t : Keyed key} {k : K} {a : A} (h : t.find? k = some a) : key a = k :=
  of_decide_eq_true (List.find?_some (p := fun a => decide (key a = k)) h)

/-- An item is found under its key. -/
theorem find?_key_of_mem {t : Keyed key} {a : A} (ha : a ∈ t.items) : t.find? (key a) = some a := by
  cases hfind : t.find? (key a) with
  | none =>
    have hno := List.find?_eq_none.mp hfind a ha
    exact absurd (decide_eq_true rfl) hno
  | some b =>
    have hsame := List.inj_on_of_nodup_map t.unique (mem_of_find? hfind) ha (key_of_find? hfind)
    rw [hsame]

/-- What has been found stays where it is. -/
theorem find?_insert_of_find? {t : Keyed key} {k : K} {a b : A} (h : t.find? k = some a) :
    (t.insert b).find? k = some a := by
  unfold insert
  split
  · exact h
  · unfold find?
    rw [List.find?_append]
    change (t.find? k).or _ = some a
    rw [h, Option.some_or]

/-- Everything else stays where it is, too. -/
theorem find?_insert_of_ne {t : Keyed key} {k : K} {b : A} (h : key b ≠ k) :
    (t.insert b).find? k = t.find? k := by
  unfold insert
  split
  · rfl
  · simp [find?, List.find?_append, h]

/-- An item is found once it has been inserted under a new key. -/
theorem find?_insert_self {t : Keyed key} {b : A} (h : t.find? (key b) = none) :
    (t.insert b).find? (key b) = some b := by
  unfold insert
  split
  · rename_i hmem
    obtain ⟨a, ha, hkey⟩ := List.mem_map.mp hmem
    rw [← hkey, find?_key_of_mem ha] at h
    cases h
  · unfold find? at h ⊢
    simp [List.find?_append, h]

/-- Inserting loses nothing. -/
theorem mem_insert_of_mem {t : Keyed key} {a b : A} (h : a ∈ t.items) : a ∈ (t.insert b).items :=
  mem_of_find? (find?_insert_of_find? (find?_key_of_mem h))

/-- Change the item of a key, which keeps its key. -/
def modify (t : Keyed key) (k : K) (f : A → A) (hf : ∀ a, key (f a) = key a) : Keyed key where
  items := t.items.map fun a => if key a = k then f a else a
  unique := by
    have hkeys : (t.items.map fun a => if key a = k then f a else a).map key = t.items.map key := by
      rw [List.map_map]
      refine List.map_congr_left fun a _ => ?_
      by_cases ha : key a = k <;> simp [ha, hf]
    exact hkeys ▸ t.unique

variable {t : Keyed key} {k : K} {f : A → A} (hf : ∀ a, key (f a) = key a)

/-- The other items stay as they are. -/
theorem find?_modify_of_ne {k' : K} (h : k' ≠ k) : (t.modify k f hf).find? k' = t.find? k' := by
  change (t.items.map _).find? _ = t.items.find? _
  induction t.items with
  | nil => rfl
  | cons a items ih =>
    by_cases ha : key a = k
    · simp [ha, hf, h.symm, ih]
    · by_cases ha' : key a = k' <;> simp [ha, ha', h, ih]

/-- The item is changed. -/
theorem find?_modify_self : (t.modify k f hf).find? k = (t.find? k).map f := by
  change (t.items.map _).find? _ = (t.items.find? _).map f
  induction t.items with
  | nil => rfl
  | cons a items ih => by_cases ha : key a = k <;> simp [ha, hf, ih]

end Keyed

end CreditScoringMlops.Data
