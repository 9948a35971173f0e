import Mathlib.Data.List.Nodup
import Mathlib.Data.List.Perm.Subperm
import Mathlib.Data.List.Pairwise
import Mathlib.Logic.Function.Basic

/-!
# Handing out names

Names are asked for one after another. Two names are one for their purpose if they have the same
key; if the key of the name asked for is in use, its variants are tried, from the first on.

* `seek`, `allocate`, `allocateAll` — the search for a variant, one name, and a run.
* `allocateAll_keys` — the keys of the names of a run are distinct.
* `exists_allocateAll` — a run comes to an end if the variants of a name have distinct keys.
* `allocateAll_good_iff` — a run gives out good names exactly if it is asked for good names.
-/

namespace Naming

universe u v

variable {ν : Type u} {κ : Type v} [DecidableEq κ] (key : ν → κ) (variant : ν → ℕ → ν)

/-- The first variant from the `i`-th on with a key that is not in use. -/
def seek (used : List κ) (base : ν) : ℕ → ℕ → Option ν
  | 0, _ => none
  | rounds + 1, i =>
    if key (variant base i) ∈ used then seek used base rounds (i + 1) else some (variant base i)

/-- A name, or one of its variants. -/
def allocate (rounds : ℕ) (used : List κ) (base : ν) : Option ν :=
  if key base ∈ used then seek key variant used base rounds 1 else some base

/-- Names for all that are asked for. -/
def allocateAll (rounds : ℕ) : List κ → List ν → Option (List ν)
  | _, [] => some []
  | used, base :: bases => do
    let name ← allocate key variant rounds used base
    let names ← allocateAll rounds (key name :: used) bases
    pure (name :: names)

variable {key variant} {used : List κ} {base name : ν} {bases names : List ν} {rounds : ℕ}

theorem seek_eq_some {i : ℕ} (h : seek key variant used base rounds i = some name) :
    key name ∉ used ∧ ∃ j, name = variant base j := by
  induction rounds generalizing i with
  | zero => cases h
  | succ rounds ih =>
    rw [seek] at h
    split_ifs at h with hused
    · exact ih h
    · obtain rfl := Option.some.inj h
      exact ⟨hused, i, rfl⟩

/-- What is given out is the name asked for or a variant, and was not in use. -/
theorem allocate_eq_some (h : allocate key variant rounds used base = some name) :
    key name ∉ used ∧ (key base ∉ used ∧ name = base ∨ ∃ j, name = variant base j) := by
  rw [allocate] at h
  split_ifs at h with hused
  · obtain ⟨hname, hvariant⟩ := seek_eq_some h
    exact ⟨hname, .inr hvariant⟩
  · obtain rfl := Option.some.inj h
    exact ⟨hused, .inl ⟨hused, rfl⟩⟩

theorem allocateAll_cons_eq_some :
    allocateAll key variant rounds used (base :: bases) = some names ↔
      ∃ name rest, allocate key variant rounds used base = some name ∧
        allocateAll key variant rounds (key name :: used) bases = some rest ∧
          names = name :: rest := by
  rw [allocateAll, Option.bind_eq_bind, Option.bind_eq_some_iff]
  refine exists_congr fun name => ?_
  rw [Option.bind_eq_bind, Option.bind_eq_some_iff]
  simp [eq_comm]

/-! ## Distinct names -/

/-- **The keys of the names given out are distinct**, and were not in use before. -/
theorem allocateAll_keys (h : allocateAll key variant rounds used bases = some names) :
    (names.map key).Nodup ∧ ∀ name ∈ names, key name ∉ used := by
  induction bases generalizing used names with
  | nil =>
    obtain rfl := Option.some.inj h
    simp
  | cons base bases ih =>
    obtain ⟨name, rest, hname, hrest, rfl⟩ := allocateAll_cons_eq_some.mp h
    obtain ⟨hnodup, hfree⟩ := ih hrest
    have hnew : key name ∉ rest.map key := by
      intro hmem
      obtain ⟨other, hother, heq⟩ := List.mem_map.mp hmem
      exact hfree other hother (heq ▸ List.mem_cons_self)
    refine ⟨List.nodup_cons.mpr ⟨hnew, hnodup⟩, List.forall_mem_cons.mpr ⟨?_, ?_⟩⟩
    · exact (allocate_eq_some hname).1
    · intro other hother hused
      exact hfree other hother (List.mem_cons_of_mem _ hused)

/-! ## Coming to an end -/

/-- If the search gives up, every key it tried was in use. -/
theorem seek_eq_none {i : ℕ} (h : seek key variant used base rounds i = none) :
    ∀ j < rounds, key (variant base (i + j)) ∈ used := by
  induction rounds generalizing i with
  | zero => exact fun j hj => absurd hj (Nat.not_lt_zero j)
  | succ rounds ih =>
    rw [seek] at h
    split_ifs at h with hused
    intro j hj
    cases j with
    | zero => exact hused
    | succ j =>
      have hnext := ih h j (Nat.lt_of_succ_lt_succ hj)
      rwa [Nat.add_assoc, Nat.add_comm 1 j] at hnext

/-- **More rounds than keys in use suffice.** -/
theorem exists_seek (hinj : Function.Injective fun i => key (variant base i))
    (hrounds : used.length < rounds) (i : ℕ) :
    ∃ name, seek key variant used base rounds i = some name := by
  refine Option.ne_none_iff_exists'.mp fun hnone => ?_
  have htried := seek_eq_none hnone
  have hnodup : ((List.range rounds).map fun j => key (variant base (i + j))).Nodup :=
    List.nodup_range.map fun j k h => Nat.add_left_cancel (hinj h)
  have hsub : ((List.range rounds).map fun j => key (variant base (i + j))) ⊆ used := by
    intro k hk
    obtain ⟨j, hj, rfl⟩ := List.mem_map.mp hk
    exact htried j (List.mem_range.mp hj)
  have hlength := (hnodup.subperm hsub).length_le
  rw [List.length_map, List.length_range] at hlength
  omega

/-- **A run comes to an end.** -/
theorem exists_allocateAll (hinj : ∀ base, Function.Injective fun i => key (variant base i))
    (hrounds : used.length + bases.length < rounds) :
    ∃ names, allocateAll key variant rounds used bases = some names := by
  induction bases generalizing used with
  | nil => exact ⟨[], rfl⟩
  | cons base bases ih =>
    rw [List.length_cons] at hrounds
    obtain ⟨name, hname⟩ : ∃ name, allocate key variant rounds used base = some name := by
      rw [allocate]
      split_ifs with hused
      · exact exists_seek (hinj base) (by omega) 1
      · exact ⟨base, rfl⟩
    have hlength : (key name :: used).length + bases.length < rounds := by
      rw [List.length_cons]
      omega
    obtain ⟨rest, hrest⟩ := ih hlength
    exact ⟨name :: rest, allocateAll_cons_eq_some.mpr ⟨name, rest, hname, hrest, rfl⟩⟩

/-! ## Good names -/

section Good

variable {Good : ν → Prop}

/-- **A run gives out good names exactly if it is asked for good names.** Whether a name is good is
seen from its key; a name that is not is given out as it is the first time it is asked for. -/
theorem allocateAll_good_iff (hkey : ∀ a b, key a = key b → (Good a ↔ Good b))
    (hvariant : ∀ base i, Good base → Good (variant base i))
    (hused : ∀ base, key base ∈ used → Good base)
    (h : allocateAll key variant rounds used bases = some names) :
    (∀ name ∈ names, Good name) ↔ ∀ base ∈ bases, Good base := by
  induction bases generalizing used names with
  | nil =>
    obtain rfl := Option.some.inj h
    simp
  | cons base bases ih =>
    obtain ⟨name, rest, hname, hrest, rfl⟩ := allocateAll_cons_eq_some.mp h
    have hgood : Good name ↔ Good base := by
      refine ⟨fun hn => ?_, fun hb => ?_⟩
      · by_cases hin : key base ∈ used
        · exact hused base hin
        · rw [allocate, if_neg hin] at hname
          obtain rfl := Option.some.inj hname
          exact hn
      · obtain ⟨-, ⟨-, rfl⟩ | ⟨j, rfl⟩⟩ := allocate_eq_some hname
        · exact hb
        · exact hvariant base j hb
    rw [List.forall_mem_cons, List.forall_mem_cons, hgood]
    refine and_congr_right fun hb => ih ?_ hrest
    intro other hother
    rcases List.mem_cons.mp hother with heq | hother
    · exact (hkey other name heq).mpr (hgood.mpr hb)
    · exact hused other hother

end Good

end Naming
