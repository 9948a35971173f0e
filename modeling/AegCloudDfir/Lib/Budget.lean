import Mathlib

/-!
# A budget for things that come one after the other

Each thing is taken if it is no larger than what is left, and passed over otherwise.

* `taken` — the things that are taken.
* `taken_eq_self_iff` — all are, exactly if together they are no larger than the budget.
* `subset_taken_iff` — and that does not depend on their order.
-/

namespace AegCloudDfir.Budget

universe u

variable {α : Type u} (size : α → ℕ)

/-- The things that are taken. -/
def taken : ℕ → List α → List α
  | _, [] => []
  | budget, a :: rest =>
    if size a ≤ budget then a :: taken (budget - size a) rest else taken budget rest

variable {size} {budget : ℕ} {a : α} {l l' : List α}

theorem taken_cons_of_le (h : size a ≤ budget) :
    taken size budget (a :: l) = a :: taken size (budget - size a) l := by
  rw [taken, if_pos h]

theorem taken_cons_of_lt (h : budget < size a) :
    taken size budget (a :: l) = taken size budget l := by
  rw [taken, if_neg (not_le.mpr h)]

/-- What is taken keeps its order. -/
theorem taken_sublist : (taken size budget l).Sublist l := by
  induction l generalizing budget with
  | nil => exact List.Sublist.slnil
  | cons a l ih =>
    rcases le_or_gt (size a) budget with h | h
    · rw [taken_cons_of_le h]
      exact ih.cons_cons a
    · rw [taken_cons_of_lt h]
      exact ih.cons a

/-- What is nothing is taken. -/
theorem mem_taken_of_size_eq_zero (ha : a ∈ l) (h : size a = 0) : a ∈ taken size budget l := by
  induction l generalizing budget with
  | nil => cases ha
  | cons b l ih =>
    rcases le_or_gt (size b) budget with hb | hb
    · rw [taken_cons_of_le hb]
      rcases List.mem_cons.mp ha with rfl | ha
      · exact List.mem_cons_self
      · exact .tail _ (ih ha)
    · rw [taken_cons_of_lt hb]
      rcases List.mem_cons.mp ha with rfl | ha
      · omega
      · exact ih ha

/-- With nothing left only what is nothing is taken. -/
theorem size_eq_zero_of_mem_taken (ha : a ∈ taken size 0 l) : size a = 0 := by
  induction l with
  | nil => cases ha
  | cons b l ih =>
    rcases Nat.eq_zero_or_pos (size b) with hb | hb
    · rw [taken_cons_of_le hb.le, hb] at ha
      rcases List.mem_cons.mp ha with rfl | ha
      · exact hb
      · exact ih ha
    · rw [taken_cons_of_lt hb] at ha
      exact ih ha

/-- No more is taken than the budget allows. -/
theorem sum_taken_le : ((taken size budget l).map size).sum ≤ budget := by
  induction l generalizing budget with
  | nil => exact Nat.zero_le _
  | cons a l ih =>
    rcases le_or_gt (size a) budget with h | h
    · rw [taken_cons_of_le h, List.map_cons, List.sum_cons]
      have hrest := @ih (budget - size a)
      omega
    · rw [taken_cons_of_lt h]
      exact ih

/-- **All are taken** exactly if together they are no larger than the budget. -/
theorem taken_eq_self_iff : taken size budget l = l ↔ (l.map size).sum ≤ budget := by
  refine ⟨fun h => h ▸ sum_taken_le, fun h => ?_⟩
  induction l generalizing budget with
  | nil => rfl
  | cons a l ih =>
    rw [List.map_cons, List.sum_cons] at h
    rw [taken_cons_of_le (by omega), ih (by omega)]

/-- **In any order** all are taken exactly if together they are no larger than the budget. -/
theorem subset_taken_iff (hl : l.Nodup) (hperm : l'.Perm l) :
    (∀ a ∈ l, a ∈ taken size budget l') ↔ (l.map size).sum ≤ budget := by
  rw [← (hperm.map size).sum_eq, ← taken_eq_self_iff]
  refine ⟨fun h => ?_, fun h a ha => ?_⟩
  · refine taken_sublist.eq_of_length_le ?_
    rw [hperm.length_eq]
    exact (List.subperm_of_subset hl h).length_le
  · rw [h]
    exact hperm.mem_iff.mpr ha

end AegCloudDfir.Budget
