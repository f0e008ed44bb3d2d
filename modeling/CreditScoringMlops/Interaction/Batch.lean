import Mathlib.Data.List.Nodup
import Mathlib.Data.List.Perm.Basic
import Mathlib.Data.List.Sort
import Mathlib.Logic.Function.Iterate

/-!
# Batches from the front of a queue

A cycle looks at the first `limit` items of a queue. Those that can finish leave it; the others
stay in their places and are looked at again in the next cycle. Once `limit` items that cannot
finish stand at the front, nothing behind them is ever looked at. `settle` is the queue that is
left, and `batchCycle_iterate` says that as many cycles as there are items reach it.
-/

namespace CreditScoringMlops.Interaction

variable {A : Type} (finishes : A → Bool)

/-- One cycle on the first `limit` items. -/
def batchCycle (limit : ℕ) (queue : List A) : List A :=
  (queue.take limit).filter (fun a => !finishes a) ++ queue.drop limit

/-- What is left in the end: items leave up to the place where `limit` others are in front. -/
def settle : ℕ → List A → List A
  | 0, queue => queue
  | _ + 1, [] => []
  | limit + 1, a :: queue =>
    if finishes a then settle (limit + 1) queue else a :: settle limit queue

/-- Fewer than `limit` items that cannot finish stand before each one that can. -/
def Unobstructed (limit : ℕ) (queue : List A) : Prop :=
  ∀ pre a post, queue = pre ++ a :: post → finishes a →
    (pre.filter fun b => !finishes b).length < limit

variable {finishes}

/-- A look at no more than the first `limit` items does not change what is left in the end. -/
theorem settle_take_drop {limit n : ℕ} (h : n ≤ limit) (queue : List A) :
    settle finishes limit ((queue.take n).filter (fun a => !finishes a) ++ queue.drop n) =
      settle finishes limit queue := by
  induction queue generalizing limit n with
  | nil => simp
  | cons a queue ih =>
    cases n with
    | zero => simp
    | succ n =>
      obtain ⟨limit, rfl⟩ : ∃ m, limit = m + 1 := ⟨limit - 1, by omega⟩
      by_cases ha : finishes a
      · simp only [List.take_succ_cons, List.drop_succ_cons, List.filter_cons, ha, settle]
        exact ih (by omega)
      · simp only [List.take_succ_cons, List.drop_succ_cons, List.filter_cons, ha, settle,
          Bool.not_false, if_true, List.cons_append, Bool.false_eq_true, if_false]
        rw [ih (by omega)]

/-- If none of the first `limit` items can finish, nothing leaves. -/
theorem settle_of_forall {limit : ℕ} {queue : List A}
    (h : ∀ a ∈ queue.take limit, finishes a = false) : settle finishes limit queue = queue := by
  induction queue generalizing limit with
  | nil => cases limit <;> rfl
  | cons a queue ih =>
    cases limit with
    | zero => rfl
    | succ limit =>
      rw [List.take_succ_cons, List.forall_mem_cons] at h
      simp only [settle, h.1, Bool.false_eq_true, if_false]
      rw [ih h.2]

/-- Nor does a cycle change the queue then. -/
theorem batchCycle_of_forall {limit : ℕ} {queue : List A}
    (h : ∀ a ∈ queue.take limit, finishes a = false) : batchCycle finishes limit queue = queue := by
  rw [batchCycle, List.filter_eq_self.mpr fun a ha => by simp [h a ha], List.take_append_drop]

/-- Otherwise the queue becomes shorter. -/
theorem batchCycle_length_lt {limit : ℕ} {queue : List A} {a : A} (ha : a ∈ queue.take limit)
    (hfinishes : finishes a) : (batchCycle finishes limit queue).length < queue.length := by
  have hfilter : ((queue.take limit).filter fun a => !finishes a).length <
      (queue.take limit).length :=
    List.length_filter_lt_length_iff_exists.mpr ⟨a, ha, by simp [hfinishes]⟩
  have hsplit := congrArg List.length (List.take_append_drop limit queue)
  rw [List.length_append] at hsplit
  rw [batchCycle, List.length_append]
  omega

/-- As many cycles as there are items reach the end. -/
theorem batchCycle_iterate {limit n : ℕ} {queue : List A} (h : queue.length ≤ n) :
    (batchCycle finishes limit)^[n] queue = settle finishes limit queue := by
  induction n generalizing queue with
  | zero =>
    obtain rfl := List.length_eq_zero_iff.mp (Nat.le_zero.mp h)
    exact (settle_of_forall (by simp)).symm
  | succ n ih =>
    by_cases hstuck : ∀ a ∈ queue.take limit, finishes a = false
    · rw [Function.iterate_fixed (batchCycle_of_forall hstuck), settle_of_forall hstuck]
    · simp only [not_forall, Bool.not_eq_false] at hstuck
      obtain ⟨a, ha, hfinishes⟩ := hstuck
      have hlt := batchCycle_length_lt ha hfinishes
      rw [Function.iterate_succ_apply, ih (by omega)]
      exact settle_take_drop (Nat.le_refl _) queue

/-- If no item stands in the queue twice, a cycle removes what stands in the front and can finish. -/
theorem filter_take_eq_batchCycle [DecidableEq A] {limit : ℕ} {queue : List A}
    (h : queue.Nodup) :
    queue.filter (fun a => !(decide (a ∈ queue.take limit) && finishes a)) =
      batchCycle finishes limit queue := by
  rw [← List.take_append_drop limit queue] at h
  have hdisjoint : ∀ a ∈ queue.drop limit, a ∉ queue.take limit := fun a hdrop htake =>
    (List.nodup_append.mp h).2.2 a htake a hdrop rfl
  conv => lhs; rw [← List.take_append_drop limit queue]
  rw [List.filter_append, batchCycle]
  congr 1
  · exact List.filter_congr fun a ha => by simp [ha]
  · exact List.filter_eq_self.mpr fun a ha => by simp [hdisjoint a ha]

/-- Everything that can finish has left in the end exactly if nothing was obstructed. -/
theorem forall_settle_iff (limit : ℕ) (queue : List A) :
    (∀ a ∈ settle finishes limit queue, finishes a = false) ↔
      Unobstructed finishes limit queue := by
  induction queue generalizing limit with
  | nil => cases limit <;> simp [settle, Unobstructed]
  | cons a queue ih =>
    cases limit with
    | zero =>
      refine ⟨fun h pre b post hqueue hb => ?_, fun h b hb => ?_⟩
      · rw [h b (by simp [settle, hqueue])] at hb
        cases hb
      · obtain ⟨pre, post, hqueue⟩ := List.append_of_mem hb
        exact Bool.eq_false_iff.mpr fun hb => absurd (h pre b post hqueue hb) (by omega)
    | succ limit =>
      have hcons (P : List A → A → Prop) : (∀ pre b post, a :: queue = pre ++ b :: post → P pre b) ↔
          P [] a ∧ ∀ pre b post, queue = pre ++ b :: post → P (a :: pre) b := by
        refine ⟨fun h => ⟨h [] a queue rfl, fun pre b post hq => h (a :: pre) b post (by simp [hq])⟩,
          fun ⟨hhead, htail⟩ pre b post hq => ?_⟩
        cases pre with
        | nil => cases hq; exact hhead
        | cons c pre => cases hq; exact htail pre b post rfl
      unfold Unobstructed at ih ⊢
      rw [hcons fun pre b => finishes b → (pre.filter fun b => !finishes b).length < limit + 1]
      by_cases ha : finishes a
      · simpa [settle, ha] using ih (limit + 1)
      · simpa [settle, ha] using ih limit

/-! ## Queues kept in order -/

/-- Two ways to cut a list in front of the items with a property are the same. -/
theorem append_inj_of_forall (p : A → Bool) {front front' back back' : List A}
    (h : front ++ back = front' ++ back') (hfront : ∀ a ∈ front, p a = false)
    (hfront' : ∀ a ∈ front', p a = false) (hback : ∀ a ∈ back, p a) (hback' : ∀ a ∈ back', p a) :
    front = front' ∧ back = back' := by
  have hcut {xs ys : List A} (hxs : ∀ a ∈ xs, p a = false) (hys : ∀ a ∈ ys, p a) :
      (xs ++ ys).filter (fun a => !p a) = xs := by
    rw [List.filter_append, List.filter_eq_self.mpr fun a ha => by simp [hxs a ha],
      List.filter_eq_nil_iff.mpr fun a ha => by simp [hys a ha], List.append_nil]
  have hsame : front = front' := by rw [← hcut hfront hback, h, hcut hfront' hback']
  exact ⟨hsame, List.append_cancel_left (hsame ▸ h)⟩

/-- Selecting from a queue and putting it in order can be exchanged: the order is stable. -/
theorem filter_mergeSort {le : A → A → Bool} (htrans : ∀ a b c, le a b → le b c → le a c)
    (htotal : ∀ a b, le a b || le b a) (p : A → Bool) (queue : List A) :
    (queue.filter p).mergeSort le = (queue.mergeSort le).filter p := by
  induction queue with
  | nil => simp
  | cons a queue ih =>
    obtain ⟨front, back, hcons, hsort, hfront⟩ := List.mergeSort_cons htrans htotal a queue
    rw [hcons, List.filter_append]
    by_cases ha : p a
    · obtain ⟨front', back', hcons', hsort', hfront'⟩ :=
        List.mergeSort_cons htrans htotal a (queue.filter p)
      -- both lists are cut in front of the items that `a` may precede
      have hback {xs ys zs : List A} (h : zs.mergeSort le = xs ++ a :: ys) : ∀ b ∈ ys, le a b := by
        have hpairwise := h ▸ List.pairwise_mergeSort htrans htotal zs
        exact fun b hb => List.rel_of_pairwise_cons (List.pairwise_append.mp hpairwise).2.1 hb
      have hsame : front' ++ back' = front.filter p ++ back.filter p := by
        rw [← hsort', ih, hsort, List.filter_append]
      have hcut := append_inj_of_forall (le a) hsame
        (fun b hb => by simpa using hfront' b hb)
        (fun b hb => by simpa using hfront b (List.mem_of_mem_filter hb))
        (hback hcons') (fun b hb => hback hcons b (List.mem_of_mem_filter hb))
      rw [List.filter_cons_of_pos ha, List.filter_cons_of_pos ha, hcons', hcut.1, hcut.2]
    · rw [List.filter_cons_of_neg ha, List.filter_cons_of_neg ha, ih, hsort, List.filter_append]

end CreditScoringMlops.Interaction
