import Mathlib.Data.Set.Basic

/-!
# One step along a relation

What a set and its neighbours are, for a symmetric relation. A second step adds nothing exactly
if whatever is two steps away is one step away (`around_around_subset_iff`). Between the first
and the second step lies what shares a neighbour of one kind with the set.
-/

namespace Neighbours

universe u

variable {α : Type u} (R : α → α → Prop)

/-- A set and the neighbours of its elements. -/
def around (S : Set α) : Set α := {x | x ∈ S ∨ ∃ a ∈ S, R a x}

/-- What is two steps away from the set is at most one step away. -/
def Near (S : Set α) : Prop := ∀ a ∈ S, ∀ b c, R a b → R b c → c ∈ around R S

variable {R} {S T : Set α}

theorem around_mono (h : S ⊆ T) : around R S ⊆ around R T := by
  rintro x (hx | ⟨a, ha, hax⟩)
  · exact .inl (h hx)
  · exact .inr ⟨a, h ha, hax⟩

/-- **A second step adds nothing** exactly if nothing is two steps away and not one. -/
theorem around_around_subset_iff : around R (around R S) ⊆ around R S ↔ Near R S := by
  refine ⟨?_, ?_⟩
  · intro h a ha b c hab hbc
    exact h (.inr ⟨b, .inr ⟨a, ha, hab⟩, hbc⟩)
  · rintro h x (hx | ⟨b, hb | ⟨a, ha, hab⟩, hbx⟩)
    · exact hx
    · exact .inr ⟨b, hb, hbx⟩
    · exact h a ha b x hab hbx

/-- What lies between one step and two is one step if there is nothing two steps away. -/
theorem eq_around_of_near (h : Near R S) (hlow : around R S ⊆ T)
    (hhigh : T ⊆ around R (around R S)) : T = around R S :=
  Set.Subset.antisymm (hhigh.trans (around_around_subset_iff.mpr h)) hlow

end Neighbours
