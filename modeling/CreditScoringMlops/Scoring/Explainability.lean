import CreditScoringMlops.Data.HalfEven
import CreditScoringMlops.Data.Ranking
import CreditScoringMlops.Scoring.CreditApplication
import Mathlib.Data.Rat.Floor

/-!
# The top reasons of a scoring

`get_top_reasons` explains a scoring by its features. It rounds their contributions and then sorts
by what it has rounded, so contributions that are rounded alike stay in the order of the columns.
What the explainer returns is a parameter, and its values are exact.
-/

namespace CreditScoringMlops.Scoring

open Python Data

/-! ## Rounding to four decimals -/

/-- `round(x, 4)` of a finite float. -/
def rounded (x : ℚ) : ℚ := halfEven (x * 10000) / 10000

/-- It is the rounding of what is published. -/
theorem roundToFour_finite (x : ℚ) : roundToFour (.finite x) = .finite (rounded x) := rfl

/-- Greater values are not rounded to smaller ones. -/
theorem rounded_mono : Monotone rounded := by
  intro x y h
  have hscaled : halfEven (x * 10000) ≤ halfEven (y * 10000) :=
    halfEven_mono (mul_le_mul_of_nonneg_right h (by norm_num))
  exact div_le_div_of_nonneg_right (by exact_mod_cast hscaled) (by norm_num)

/-- The magnitude of a rounded value is the rounded magnitude. -/
theorem abs_rounded (x : ℚ) : |rounded x| = rounded |x| := by
  rw [rounded, rounded, abs_div, ← Int.cast_abs, abs_halfEven, abs_mul,
    abs_of_pos (show (0 : ℚ) < 10000 by norm_num)]

/-! ## The reasons -/

/-- What `explainer.shap_values` returns: an array for each class, or a single one. The rows of an
array are the values of the features. -/
inductive ShapValues where
  | perClass (arrays : List (List (List ℚ)))
  | single (array : List (List ℚ))

/-- The values of the first row, for the class of defaults. -/
def ShapValues.rowValues : ShapValues → Except PyExc (List ℚ)
  | perClass arrays => do
    let array ← (arrays[1]?).elim (.error (.other "list index out of range")) .ok
    array.head?.elim (.error (.other "index 0 is out of bounds for axis 0 with size 0")) .ok
  | single array =>
    array.head?.elim (.error (.other "index 0 is out of bounds for axis 0 with size 0")) .ok

/-- A feature of the row with its contribution. -/
structure Contribution where
  feature : String
  value : PyFloat
  shapValue : ℚ
  deriving DecidableEq

/-- The directions of a contribution. -/
inductive Impact where
  | increasedRisk
  | decreasedRisk
  deriving DecidableEq

/-- The text of a direction. -/
def Impact.value : Impact → String
  | increasedRisk => "increased_risk"
  | decreasedRisk => "decreased_risk"

/-- An explanation reason. -/
structure ExplanationReason where
  feature : String
  value : PyFloat
  shapValue : ℚ
  impact : Impact
  deriving DecidableEq

/-- A feature table of one row: the names of the columns with their values, which are numbers. -/
abbrev FeatureRow := List (String × PyFloat)

/-- The columns zipped with their values and contributions. -/
def contributions (features : FeatureRow) (rowValues : List ℚ) : List Contribution :=
  (features.zip rowValues).map fun column => ⟨column.1.1, column.1.2, column.2⟩

/-- The reason that a contribution makes. -/
def Contribution.reason (c : Contribution) : ExplanationReason where
  feature := c.feature
  value := c.value
  shapValue := rounded c.shapValue
  impact := if 0 < c.shapValue then .increasedRisk else .decreasedRisk

/-- `items[:n]`, where a negative bound counts from the end. -/
def sliceTo {A : Type} (items : List A) (n : ℤ) : List A :=
  items.take (if 0 ≤ n then n else items.length + n).toNat

/-- `get_top_reasons`. -/
def getTopReasons (shapValues : ShapValues) (features : FeatureRow) (topN : ℤ := 3) :
    Except PyExc (List ExplanationReason) := do
  let rowValues ← shapValues.rowValues
  let reasons := (contributions features rowValues).map Contribution.reason
  return sliceTo (ranked (fun item => |item.shapValue|) reasons) topN

/-! ## The strongest contributions -/

/-- The reasons are the strongest `topN` contributions, strongest first, with their directions. -/
structure Strongest (items : List Contribution) (topN : ℕ) (reasons : List ExplanationReason) :
    Prop where
  length : reasons.length = min topN items.length
  distinct : (reasons.map ExplanationReason.feature).Nodup
  known : ∀ r ∈ reasons, ∃ a ∈ items, a.feature = r.feature
  ordered : reasons.Pairwise fun r s => ∀ a ∈ items, ∀ b ∈ items,
    a.feature = r.feature → b.feature = s.feature → |b.shapValue| ≤ |a.shapValue|
  unsurpassed : ∀ r ∈ reasons, ∀ a ∈ items, a.feature = r.feature →
    ∀ b ∈ items, b.feature ∉ reasons.map ExplanationReason.feature → |b.shapValue| ≤ |a.shapValue|
  labelled : ∀ r ∈ reasons, ∀ a ∈ items, a.feature = r.feature →
    (r.impact = .increasedRisk ↔ 0 < a.shapValue)

/-- Wherever a contribution is rounded like a weaker one before it, the weaker one has `topN` others
ahead of it. -/
def TiesInOrder (items : List Contribution) (topN : ℕ) : Prop :=
  ∀ pre a post, items = pre ++ a :: post →
    ∀ b ∈ post, |rounded b.shapValue| = |rounded a.shapValue| → |a.shapValue| < |b.shapValue| →
      topN ≤ pre.countP (fun c => |rounded a.shapValue| ≤ |rounded c.shapValue|) +
        post.countP fun c => |rounded a.shapValue| < |rounded c.shapValue|

/-- Where no two contributions are rounded alike. -/
theorem tiesInOrder_of_pairwise {items : List Contribution}
    (h : items.Pairwise fun a b => |rounded b.shapValue| ≠ |rounded a.shapValue|) (topN : ℕ) :
    TiesInOrder items topN := by
  rintro pre a post rfl b hb hrounded
  exact ((List.pairwise_cons.mp (List.pairwise_append.mp h).2.1).1 b hb hrounded).elim

/-- A greater rounded magnitude is a greater magnitude. -/
theorem abs_lt_of_abs_rounded_lt (a b : Contribution)
    (h : |rounded a.shapValue| < |rounded b.shapValue|) : |a.shapValue| < |b.shapValue| := by
  rw [abs_rounded, abs_rounded] at h
  exact rounded_mono.reflect_lt h

variable {items : List Contribution} {topN : ℕ}

/-- Which leading contributions of the ranking are in the order of their exact magnitudes. -/
theorem leading_iff_tiesInOrder (hitems : items.Nodup) :
    Leading (fun a => |a.shapValue|) topN (ranked (fun a => |rounded a.shapValue|) items) ↔
      TiesInOrder items topN := by
  rw [leading_ranked_iff abs_lt_of_abs_rounded_lt hitems]
  simp only [itemsAhead, List.length_append, ← List.countP_eq_length_filter]
  rfl

/-- A contribution is known by its feature. -/
theorem feature_injOn (hnames : (items.map Contribution.feature).Nodup) {a b : Contribution}
    (ha : a ∈ items) (hb : b ∈ items) (h : a.feature = b.feature) : a = b :=
  List.inj_on_of_nodup_map hnames ha hb h

/-- The features of reasons are those of the contributions. -/
theorem map_feature_reason (order : List Contribution) :
    (order.map Contribution.reason).map ExplanationReason.feature =
      order.map Contribution.feature := by
  rw [List.map_map]
  rfl

/-- The reasons of leading contributions are the strongest. -/
theorem strongest_iff_leading (hnames : (items.map Contribution.feature).Nodup)
    {order : List Contribution} (horder : order.Perm items) :
    Strongest items topN ((order.take topN).map Contribution.reason) ↔
      Leading (fun a => |a.shapValue|) topN order := by
  have hmem : ∀ a ∈ order, a ∈ items := fun a => horder.mem_iff.mp
  have htake : ∀ a ∈ order.take topN, a ∈ items := fun a ha => hmem a (List.mem_of_mem_take ha)
  have hdrop : ∀ b ∈ order.drop topN, b ∈ items := fun b hb => hmem b (List.mem_of_mem_drop hb)
  have hsplit : (((order.take topN) ++ (order.drop topN)).map Contribution.feature).Nodup := by
    rw [List.take_append_drop]
    exact (horder.map _).nodup_iff.mpr hnames
  rw [List.map_append, List.nodup_append] at hsplit
  constructor
  · intro h
    refine ⟨?_, fun a ha b hb => ?_⟩
    · refine (List.pairwise_map.mp h.ordered).imp_of_mem fun {a b} ha hb hpair => ?_
      exact hpair a (htake a ha) b (htake b hb) rfl rfl
    · refine h.unsurpassed _ (List.mem_map_of_mem ha) a (htake a ha) rfl b (hdrop b hb) ?_
      rw [map_feature_reason]
      intro hb'
      exact hsplit.2.2 _ hb' _ (List.mem_map_of_mem hb) rfl
  · intro h
    have hself : ∀ a ∈ order.take topN, ∀ c ∈ items, c.feature = a.feature → c = a :=
      fun a ha c hc => feature_injOn hnames hc (htake a ha)
    refine ⟨?_, ?_, ?_, ?_, ?_, ?_⟩
    · rw [List.length_map, List.length_take, horder.length_eq]
    · rw [map_feature_reason]
      exact hsplit.1
    · rw [List.forall_mem_map]
      exact fun a ha => ⟨a, htake a ha, rfl⟩
    · refine List.pairwise_map.mpr (h.1.imp_of_mem fun {a b} ha hb hle c hc d hd hca hdb => ?_)
      rw [hself a ha c hc hca, hself b hb d hd hdb]
      exact hle
    · rw [List.forall_mem_map, map_feature_reason]
      intro a ha c hc hca b hb hb'
      rw [hself a ha c hc hca]
      refine h.2 a ha b ?_
      have hb := horder.mem_iff.mpr hb
      rw [← List.take_append_drop topN order, List.mem_append] at hb
      exact hb.resolve_left fun hb => hb' (List.mem_map_of_mem hb)
    · rw [List.forall_mem_map]
      intro a ha c hc hca
      rw [hself a ha c hc hca]
      by_cases hpositive : 0 < a.shapValue <;> simp [Contribution.reason, hpositive]

/-- What `get_top_reasons` returns: the reasons of a ranking by rounded magnitudes. -/
theorem getTopReasons_eq {shapValues : ShapValues} {features : FeatureRow} {rowValues : List ℚ}
    (hvalues : shapValues.rowValues = .ok rowValues) (topN : ℕ) :
    getTopReasons shapValues features topN =
      .ok (((ranked (fun a => |rounded a.shapValue|) (contributions features rowValues)).take
        topN).map Contribution.reason) := by
  have hsort : ranked (fun item => |item.shapValue|)
      ((contributions features rowValues).map Contribution.reason) =
      (ranked (fun a => |rounded a.shapValue|) (contributions features rowValues)).map
        Contribution.reason :=
    (map_ranked _ (fun _ => rfl) _).symm
  have hslice : getTopReasons shapValues features topN = .ok (sliceTo
      (ranked (fun item => |item.shapValue|)
        ((contributions features rowValues).map Contribution.reason)) topN) := by
    rw [getTopReasons, hvalues]
    rfl
  rw [hslice, hsort, sliceTo, if_pos (Int.natCast_nonneg topN), Int.toNat_natCast, List.map_take]

/-- The features of the contributions, if every column has one. -/
theorem map_feature_contributions {features : FeatureRow} {rowValues : List ℚ}
    (h : rowValues.length = features.length) :
    (contributions features rowValues).map Contribution.feature = features.map Prod.fst := by
  calc (contributions features rowValues).map Contribution.feature
    _ = ((features.zip rowValues).map Prod.fst).map Prod.fst := by
      rw [contributions, List.map_map, List.map_map]
      rfl
    _ = features.map Prod.fst := by rw [List.map_fst_zip h.ge]

/-- The reasons are the strongest contributions exactly if no weaker contribution is returned ahead
of a later one that is rounded like it. -/
theorem getTopReasons_strongest_iff {shapValues : ShapValues} {features : FeatureRow}
    {rowValues : List ℚ} (hvalues : shapValues.rowValues = .ok rowValues)
    (hlength : rowValues.length = features.length) (hnames : (features.map Prod.fst).Nodup)
    (topN : ℕ) :
    ∃ reasons, getTopReasons shapValues features topN = .ok reasons ∧
      (Strongest (contributions features rowValues) topN reasons ↔
        TiesInOrder (contributions features rowValues) topN) := by
  rw [← map_feature_contributions hlength] at hnames
  refine ⟨_, getTopReasons_eq hvalues topN, ?_⟩
  rw [strongest_iff_leading hnames (ranked_perm _ _),
    leading_iff_tiesInOrder (List.Nodup.of_map _ hnames)]

/-- Two features. -/
def closeFeatures : FeatureRow := [("age", .finite 41), ("purpose", .finite 3)]

/-- The top two reasons of contributions that are not rounded alike are the strongest ones. -/
theorem getTopReasons_strongest_iff_two :
    ∃ reasons, getTopReasons (.single [[1 / 10, -2 / 10]]) closeFeatures (2 : ℕ) = .ok reasons ∧
      Strongest (contributions closeFeatures [1 / 10, -2 / 10]) 2 reasons := by
  have hvalues : (ShapValues.single [[1 / 10, -2 / 10]]).rowValues = .ok [1 / 10, -2 / 10] := rfl
  obtain ⟨reasons, heq, hiff⟩ := getTopReasons_strongest_iff hvalues
    (rfl : _ = closeFeatures.length) (by decide) 2
  exact ⟨reasons, heq, hiff.mpr (tiesInOrder_of_pairwise (by decide +kernel) 2)⟩

/-- A contribution of 0.00003 is returned as the strongest one, and one of 0.00004 left out: both
are rounded to zero. -/
theorem getTopReasons_not_strongest :
    ¬∀ (shapValues : ShapValues) (features : FeatureRow) (rowValues : List ℚ),
      shapValues.rowValues = .ok rowValues → rowValues.length = features.length →
      (features.map Prod.fst).Nodup → ∀ topN : ℕ, ∃ reasons,
        getTopReasons shapValues features topN = .ok reasons ∧
          Strongest (contributions features rowValues) topN reasons := by
  intro h
  obtain ⟨reasons, heq, hstrongest⟩ :=
    h (.single [[3 / 100000, 4 / 100000]]) closeFeatures _ rfl rfl (by decide) 1
  have hreasons : reasons = [⟨"age", .finite 41, 0, .increasedRisk⟩] := by
    refine (Except.ok.inj (heq.symm.trans ?_))
    decide +kernel
  have hle := hstrongest.unsurpassed ⟨"age", .finite 41, 0, .increasedRisk⟩ (by simp [hreasons])
    ⟨"age", .finite 41, 3 / 100000⟩ (by decide +kernel) rfl
    ⟨"purpose", .finite 3, 4 / 100000⟩ (by decide +kernel) (by simp [hreasons])
  norm_num [abs_of_pos] at hle

end CreditScoringMlops.Scoring
