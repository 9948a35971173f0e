import Mathlib.Data.List.Basic

/-!
# Entries in their places

The jobs of a system are kept in a list, and a job is known by its place. An event puts another entry
in a place, or adds entries at the end; the entries in all other places are what they were. So what
some entry has, some entry still has afterwards, unless it was that one (`exists_mem_set`).
-/

namespace Places

universe u

variable {α : Type u} {P : α → Prop} {l : List α} {i : ℕ} {a b : α}

theorem exists_mem_append (h : ∃ x ∈ l, P x) (more : List α) : ∃ x ∈ l ++ more, P x := by
  obtain ⟨x, hx, hP⟩ := h
  exact ⟨x, List.mem_append_left more hx, hP⟩

theorem forall_mem_set (h : ∀ x ∈ l, P x) (ha : P a) : ∀ x ∈ l.set i a, P x := by
  intro x hx
  rcases List.mem_or_eq_of_mem_set hx with hx | rfl
  · exact h x hx
  · exact ha

/-- An entry is replaced by one that is as good. -/
theorem exists_mem_set (hi : l[i]? = some a) (hab : P a → P b) (h : ∃ x ∈ l, P x) :
    ∃ x ∈ l.set i b, P x := by
  obtain ⟨x, hx, hP⟩ := h
  obtain ⟨n, hn⟩ := List.mem_iff_getElem?.mp hx
  by_cases hni : n = i
  · subst hni
    rw [hi] at hn
    obtain rfl := Option.some.inj hn
    have hlt : n < l.length := (List.getElem?_eq_some_iff.mp hi).1
    exact ⟨b, List.mem_iff_getElem?.mpr ⟨n, List.getElem?_set_self hlt⟩, hab hP⟩
  · refine ⟨x, List.mem_iff_getElem?.mpr ⟨n, ?_⟩, hP⟩
    rw [List.getElem?_set_ne (Ne.symm hni)]
    exact hn

/-- What is there besides an entry is there whatever the entry becomes. -/
theorem exists_mem_set_of_set (ha : ¬ P a) (h : ∃ x ∈ l.set i a, P x) (b : α) :
    ∃ x ∈ l.set i b, P x := by
  obtain ⟨x, hx, hP⟩ := h
  obtain ⟨n, hn⟩ := List.mem_iff_getElem?.mp hx
  refine ⟨x, List.mem_iff_getElem?.mpr ⟨n, ?_⟩, hP⟩
  by_cases hni : n = i
  · subst hni
    obtain ⟨hlt, -⟩ := List.getElem?_eq_some_iff.mp hn
    rw [List.length_set] at hlt
    rw [List.getElem?_set_self hlt] at hn
    obtain rfl := Option.some.inj hn
    exact absurd hP ha
  · rw [List.getElem?_set_ne (Ne.symm hni)] at hn ⊢
    exact hn

end Places
