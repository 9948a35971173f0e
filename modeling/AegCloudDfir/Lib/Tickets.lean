import Mathlib.Order.BooleanAlgebra.Set
import Mathlib.Logic.Function.Basic

/-!
# Tickets numbered by a counter

Every key has a counter, and a ticket is a key with a number. Tickets are issued at the count
a key has, or the count goes up. A ticket is new exactly if the count went up since the last
ticket of its key was issued, as long as the count never goes back: which keys these are can
be kept track of without the tickets (`owed`), and `Sound` says that this is right.
-/

namespace Tickets

universe u

variable {κ : Type u}

/-- The `owed` keys are those whose ticket at the present count was issued. No count was ever
higher. -/
structure Sound (count : κ → ℕ) (issued : Set (κ × ℕ)) (owed : Set κ) : Prop where
  bounded : ∀ k n, (k, n) ∈ issued → n ≤ count k
  issued_iff : ∀ k, (k, count k) ∈ issued ↔ k ∈ owed

/-- Nothing was issued. -/
theorem sound_empty (count : κ → ℕ) : Sound count ∅ ∅ where
  bounded _ _ h := h.elim
  issued_iff _ := Iff.rfl

variable {count : κ → ℕ} {issued : Set (κ × ℕ)} {owed : Set κ}

/-- A ticket at the present count. -/
theorem Sound.issue (h : Sound count issued owed) (k : κ) :
    Sound count (insert (k, count k) issued) (insert k owed) where
  bounded k' n hn := by
    rcases hn with heq | hold
    · obtain ⟨rfl, rfl⟩ := Prod.mk.inj heq
      exact Nat.le_refl _
    · exact h.bounded k' n hold
  issued_iff k' := by
    rw [Set.mem_insert_iff, Set.mem_insert_iff, h.issued_iff, Prod.mk.injEq]
    refine or_congr_left ⟨And.left, ?_⟩
    rintro rfl
    exact ⟨rfl, rfl⟩

/-- Tickets for many keys, each at its present count. -/
theorem Sound.issueAll (h : Sound count issued owed) (keys : Set κ) :
    Sound count (issued ∪ {t | t.1 ∈ keys ∧ t.2 = count t.1}) (owed ∪ keys) where
  bounded k n hn := by
    rcases hn with hold | ⟨-, hn⟩
    · exact h.bounded k n hold
    · exact Nat.le_of_eq hn
  issued_iff k := by
    rw [Set.mem_union, Set.mem_union, h.issued_iff]
    exact or_congr_right ⟨And.left, fun hk => ⟨hk, rfl⟩⟩

/-- A ticket is new if its key is not owed one. -/
theorem Sound.fresh_iff (h : Sound count issued owed) (k : κ) :
    (k, count k) ∉ issued ↔ k ∉ owed := not_congr (h.issued_iff k)

variable [DecidableEq κ]

/-- The count goes up. -/
theorem Sound.bump (h : Sound count issued owed) (k : κ) :
    Sound (Function.update count k (count k + 1)) issued (owed \ {k}) where
  bounded k' n hn := by
    have hle := h.bounded k' n hn
    by_cases hk : k' = k
    · subst hk
      rw [Function.update_self]
      exact Nat.le_succ_of_le hle
    · rwa [Function.update_of_ne hk]
  issued_iff k' := by
    by_cases hk : k' = k
    · -- nothing was ever issued beyond the old count
      subst hk
      rw [Function.update_self]
      refine iff_of_false (fun hissued => ?_) fun hmem => hmem.2 rfl
      exact absurd (h.bounded k' _ hissued) (Nat.not_succ_le_self _)
    · rw [Function.update_of_ne hk, h.issued_iff]
      exact ⟨fun hmem => ⟨hmem, hk⟩, And.left⟩

/-- The count goes up, and a ticket is issued at once. -/
theorem Sound.bumpIssue (h : Sound count issued owed) (k : κ) :
    Sound (Function.update count k (count k + 1)) (insert (k, count k + 1) issued)
      (insert k owed) := by
  have hissue := (h.bump k).issue k
  rwa [Function.update_self, Set.insert_sdiff_singleton] at hissue

end Tickets
