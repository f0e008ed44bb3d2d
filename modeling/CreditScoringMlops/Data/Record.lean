import Mathlib.Data.List.Nodup

/-!
# Records with named columns

A record is a row of a table under the names of its columns, in their order. An assignment to a new
name adds a column at the end.
-/

namespace CreditScoringMlops.Data

/-- Lists are equal if their images are, under a map that tells their items apart. -/
theorem eq_of_map_eq {A B : Type} {f : A → B} {l l' : List A}
    (hinj : ∀ a ∈ l, ∀ b ∈ l', f a = f b → a = b) (h : l.map f = l'.map f) : l = l' := by
  induction l generalizing l' with
  | nil => exact (List.map_eq_nil_iff.mp h.symm).symm
  | cons a l ih =>
    cases l' with
    | nil => cases h
    | cons b l' =>
      obtain ⟨hhead, htail⟩ := List.cons.inj h
      rw [hinj a List.mem_cons_self b List.mem_cons_self hhead]
      refine congrArg _ (ih (fun a ha b hb => ?_) htail)
      exact hinj a (List.mem_cons_of_mem _ ha) b (List.mem_cons_of_mem _ hb)

/-- Values under names, in order. -/
abbrev Record (K A : Type) := List (K × A)

namespace Record

variable {K A : Type}

/-- The names of the columns. -/
def names (r : Record K A) : List K := r.map (·.1)

/-- Give every column another name. -/
def rename (f : K → K) (r : Record K A) : Record K A := r.map fun c => (f c.1, c.2)

@[simp] theorem names_rename (f : K → K) (r : Record K A) : (r.rename f).names = r.names.map f := by
  simp [names, rename]

@[simp] theorem names_append (r r' : Record K A) : names (r ++ r') = r.names ++ r'.names :=
  List.map_append

/-- A column has its name. -/
theorem mem_names {r : Record K A} {k : K} {a : A} (h : (k, a) ∈ r) : k ∈ r.names :=
  List.mem_map_of_mem h

/-- A name has a column. -/
theorem exists_of_mem_names {r : Record K A} {k : K} (h : k ∈ r.names) : ∃ a, (k, a) ∈ r := by
  obtain ⟨c, hc, rfl⟩ := List.mem_map.mp h
  exact ⟨c.2, hc⟩

/-- A renamed column was there under a name that becomes its own. -/
theorem mem_rename {f : K → K} {r : Record K A} {k : K} {a : A} :
    (k, a) ∈ r.rename f ↔ ∃ k', (k', a) ∈ r ∧ f k' = k := by
  simp only [rename, List.mem_map, Prod.mk.injEq, Prod.exists]
  constructor
  · rintro ⟨k', a', hmem, hk, rfl⟩
    exact ⟨k', hmem, hk⟩
  · rintro ⟨k', hmem, hk⟩
    exact ⟨k', a, hmem, hk, rfl⟩

/-- With distinct names, a name has one value. -/
theorem eq_of_mem {r : Record K A} (hnodup : r.names.Nodup) {k : K} {a b : A} (ha : (k, a) ∈ r)
    (hb : (k, b) ∈ r) : a = b :=
  (Prod.mk.inj (List.inj_on_of_nodup_map hnodup ha hb rfl)).2

/-- Two records with the same names have a column at each place. -/
theorem of_mem_zip {r r' : Record K A} (h : r.names = r'.names) {c : (K × A) × (K × A)}
    (hc : c ∈ r.zip r') : c.1 ∈ r ∧ c.2 ∈ r' ∧ c.1.1 = c.2.1 := by
  induction r generalizing r' with
  | nil => cases hc
  | cons a r ih =>
    cases r' with
    | nil => cases hc
    | cons a' r' =>
      obtain ⟨hname, hrest⟩ := List.cons.inj h
      rcases List.mem_cons.mp hc with rfl | hc
      · exact ⟨List.mem_cons_self, List.mem_cons_self, hname⟩
      · obtain ⟨hmem, hmem', heq⟩ := ih hrest hc
        exact ⟨List.mem_cons_of_mem _ hmem, List.mem_cons_of_mem _ hmem', heq⟩

/-- Their images are equal if they are at each place. -/
theorem map_eq_map_iff {B : Type} {g : K → A → B} {r r' : Record K A} (h : r.names = r'.names) :
    (r.map fun c => (c.1, g c.1 c.2)) = (r'.map fun c => (c.1, g c.1 c.2)) ↔
      ∀ c ∈ r.zip r', g c.1.1 c.1.2 = g c.1.1 c.2.2 := by
  induction r generalizing r' with
  | nil =>
    cases r' with
    | nil => simp
    | cons a' r' => cases h
  | cons a r ih =>
    cases r' with
    | nil => cases h
    | cons a' r' =>
      obtain ⟨hname, hrest⟩ : a.1 = a'.1 ∧ names r = names r' := List.cons.inj h
      rw [List.zip_cons_cons, List.forall_mem_cons, List.map_cons, List.map_cons, List.cons_eq_cons,
        ih hrest, Prod.mk.injEq, ← hname]
      simp

variable [DecidableEq K]

/-- The value under a name. -/
def get? (r : Record K A) (k : K) : Option A := (r.find? fun c => c.1 = k).map (·.2)

/-- A value that is found stands under the name. -/
theorem mem_of_get? {r : Record K A} {k : K} {a : A} (h : r.get? k = some a) : (k, a) ∈ r := by
  obtain ⟨c, hc, rfl⟩ := Option.map_eq_some_iff.mp h
  have hk : c.1 = k := by simpa using List.find?_some hc
  exact hk ▸ List.mem_of_find?_eq_some hc

/-- With distinct names, every column is found. -/
theorem get?_of_mem {r : Record K A} (hnodup : r.names.Nodup) {k : K} {a : A}
    (h : (k, a) ∈ r) : r.get? k = some a := by
  cases hget : r.get? k with
  | none =>
    have hnone := Option.map_eq_none_iff.mp hget
    have hne := List.find?_eq_none.mp hnone _ h
    simp at hne
  | some b =>
    have hb := mem_of_get? hget
    have hsame := List.inj_on_of_nodup_map hnodup hb h rfl
    rw [(Prod.mk.inj hsame).2]

/-- A column is found before the columns that are added. -/
theorem get?_append {r : Record K A} {k : K} {a : A} (h : r.get? k = some a) (r' : Record K A) :
    get? (r ++ r') k = some a := by
  obtain ⟨c, hc, rfl⟩ := Option.map_eq_some_iff.mp h
  rw [get?, List.find?_append, hc]
  rfl

/-- Set the value under a name, which is added at the end if it is new. -/
def assign (r : Record K A) (k : K) (a : A) : Record K A :=
  if k ∈ r.names then r.map fun c => if c.1 = k then (k, a) else c else r ++ [(k, a)]

/-- A new name is added at the end. -/
theorem assign_of_notMem {r : Record K A} {k : K} (h : k ∉ r.names) (a : A) :
    r.assign k a = r ++ [(k, a)] :=
  if_neg h

/-- Remove a column. -/
def drop (r : Record K A) (k : K) : Record K A := r.filter fun c => c.1 ≠ k

@[simp] theorem drop_append (r r' : Record K A) (k : K) :
    drop (r ++ r') k = r.drop k ++ r'.drop k := List.filter_append ..

@[simp] theorem names_drop (r : Record K A) (k : K) :
    (r.drop k).names = r.names.filter (· ≠ k) := by
  unfold names drop
  rw [List.filter_map]
  rfl

/-- The other columns stay. -/
theorem mem_drop {r : Record K A} {k k' : K} {a : A} :
    (k', a) ∈ r.drop k ↔ (k', a) ∈ r ∧ k' ≠ k := by
  simp [drop]

/-- Nothing is removed under a name that is not there. -/
theorem drop_of_notMem {r : Record K A} {k : K} (h : k ∉ r.names) : r.drop k = r := by
  refine List.filter_eq_self.mpr fun c hc => ?_
  simp only [ne_eq, decide_eq_true_eq]
  rintro rfl
  exact h (List.mem_map_of_mem hc)

end Record

end CreditScoringMlops.Data
