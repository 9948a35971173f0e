import Mathlib.Data.List.Basic

/-!
# Outboxes whose keys work once

A transactional outbox keeps its rows forever. Every row has a key, and inserting a row
whose key was ever used does nothing. So an insertion asks for a job, and what it says is
only that a row with this key exists; whether the job is still to be done is another
question.

* `insert` — skips duplicates; `waiting_insert_iff` says when the job is waiting then.
* `Records` — the keys of an outbox are those of everything ever asked for. Then a key is
  used up exactly if the same thing was asked for before (`Records.mem_keys_iff`).
-/

namespace Outbox

universe u v w

variable {κ : Type u} {ρ : Type v} {τ : Type w}

/-- A row: its key, the job it is for, and whether someone has taken the job. -/
structure Row (κ : Type u) (ρ : Type v) where
  key : κ
  job : ρ
  consumed : Bool

/-- All keys ever used. -/
def keys (rows : List (Row κ ρ)) : List κ := rows.map (·.key)

/-- A job nobody has taken yet. -/
def Waiting (rows : List (Row κ ρ)) (job : ρ) : Prop :=
  ∃ row ∈ rows, row.job = job ∧ row.consumed = false

variable [DecidableEq κ]

/-- A new row, unless its key was used before. -/
def insert (rows : List (Row κ ρ)) (key : κ) (job : ρ) : List (Row κ ρ) :=
  if key ∈ keys rows then rows else rows ++ [⟨key, job, false⟩]

/-- The job of a row is taken, or is to be taken again. -/
def setConsumed (rows : List (Row κ ρ)) (key : κ) (consumed : Bool) : List (Row κ ρ) :=
  rows.map fun row => if row.key = key then { row with consumed } else row

variable {rows : List (Row κ ρ)} {key : κ} {job : ρ}

@[simp] theorem keys_setConsumed (consumed : Bool) :
    keys (setConsumed rows key consumed) = keys rows := by
  rw [keys, setConsumed, List.map_map, keys]
  apply List.map_congr_left
  intro row _
  by_cases hkey : row.key = key <;> simp [hkey]

theorem keys_subset_setConsumed (consumed : Bool) :
    keys rows ⊆ keys (setConsumed rows key consumed) := by
  rw [keys_setConsumed]
  exact List.Subset.refl _

theorem mem_keys_insert {k : κ} : k ∈ keys (insert rows key job) ↔ k ∈ keys rows ∨ k = key := by
  rw [insert]
  by_cases hkey : key ∈ keys rows
  · rw [if_pos hkey]
    refine ⟨.inl, ?_⟩
    rintro (h | rfl)
    · exact h
    · exact hkey
  · rw [if_neg hkey]
    simp [keys]

/-- **Asking for a job.** It is waiting then exactly if the key is new or it was waiting
already. -/
theorem waiting_insert_iff :
    Waiting (insert rows key job) job ↔ key ∉ keys rows ∨ Waiting rows job := by
  rw [insert]
  by_cases hkey : key ∈ keys rows
  · rw [if_pos hkey]
    exact ⟨.inr, fun h => h.resolve_left (not_not.mpr hkey)⟩
  · rw [if_neg hkey]
    refine ⟨fun _ => .inl hkey, fun _ => ?_⟩
    exact ⟨⟨key, job, false⟩, List.mem_append_right _ (List.mem_singleton_self _), rfl, rfl⟩

/-- Another job is not affected. -/
theorem waiting_insert_of_ne {other : ρ} (h : other ≠ job) :
    Waiting (insert rows key job) other ↔ Waiting rows other := by
  rw [insert]
  split
  · rfl
  · refine ⟨?_, fun ⟨row, hrow, hjob⟩ => ⟨row, List.mem_append_left _ hrow, hjob⟩⟩
    rintro ⟨row, hrow, hjob, hwaits⟩
    rcases List.mem_append.mp hrow with hold | hnew
    · exact ⟨row, hold, hjob, hwaits⟩
    · obtain rfl := List.mem_singleton.mp hnew
      exact absurd hjob.symm h

/-- New rows, each unless its key was used before. -/
def insertAll (job : κ → ρ) : List κ → List (Row κ ρ) → List (Row κ ρ)
  | [], rows => rows
  | key :: keys, rows => insertAll job keys (insert rows key (job key))

theorem mem_keys_insertAll {job : κ → ρ} {new : List κ} {k : κ} {rows : List (Row κ ρ)} :
    k ∈ keys (insertAll job new rows) ↔ k ∈ keys rows ∨ k ∈ new := by
  induction new generalizing rows with
  | nil => simp [insertAll]
  | cons key new ih => rw [insertAll, ih, mem_keys_insert, List.mem_cons, or_assoc]

/-- A job is waiting after rows were inserted if it was waiting before, or one of the rows is
new and for this job. -/
theorem waiting_insertAll_iff {job : κ → ρ} {new : List κ} {wanted : ρ} {rows : List (Row κ ρ)} :
    Waiting (insertAll job new rows) wanted ↔
      Waiting rows wanted ∨ ∃ key ∈ new, job key = wanted ∧ key ∉ keys rows := by
  induction new generalizing rows with
  | nil => simp [insertAll]
  | cons key new ih =>
    rw [insertAll, ih]
    by_cases hjob : job key = wanted
    · subst hjob
      rw [waiting_insert_iff]
      refine ⟨?_, ?_⟩
      · rintro ((hkey | hold) | ⟨k, hk, heq, hnew⟩)
        · exact .inr ⟨key, List.mem_cons_self .., rfl, hkey⟩
        · exact .inl hold
        · exact .inr ⟨k, List.mem_cons_of_mem _ hk, heq, fun h => hnew (mem_keys_insert.mpr (.inl h))⟩
      · rintro (hold | ⟨k, hk, heq, hnew⟩)
        · exact .inl (.inr hold)
        · rcases List.mem_cons.mp hk with rfl | hk
          · exact .inl (.inl hnew)
          · by_cases hkey : k = key
            · exact .inl (.inl (hkey ▸ hnew))
            · refine .inr ⟨k, hk, heq, fun h => ?_⟩
              exact (mem_keys_insert.mp h).elim hnew hkey
    · rw [waiting_insert_of_ne (Ne.symm hjob)]
      refine ⟨?_, ?_⟩
      · rintro (hold | ⟨k, hk, heq, hnew⟩)
        · exact .inl hold
        · exact .inr ⟨k, List.mem_cons_of_mem _ hk, heq, fun h => hnew (mem_keys_insert.mpr (.inl h))⟩
      · rintro (hold | ⟨k, hk, heq, hnew⟩)
        · exact .inl hold
        · rcases List.mem_cons.mp hk with rfl | hk
          · exact absurd heq hjob
          · refine .inr ⟨k, hk, heq, fun h => ?_⟩
            rcases mem_keys_insert.mp h with hold | rfl
            · exact hnew hold
            · exact hjob heq

/-! ## What was asked for -/

/-- The keys of the outbox are those of the `asked`, as `K` writes them. -/
def Records (K : τ → κ) (asked : List τ) (rows : List (Row κ ρ)) : Prop :=
  ∀ k, k ∈ keys rows ↔ ∃ t ∈ asked, K t = k

variable {K : τ → κ} {asked : List τ}

theorem Records.insert (h : Records K asked rows) (t : τ) :
    Records K (asked ++ [t]) (insert rows (K t) job) := by
  intro k
  rw [mem_keys_insert, h k]
  refine ⟨?_, ?_⟩
  · rintro (⟨x, hx, rfl⟩ | rfl)
    · exact ⟨x, List.mem_append_left _ hx, rfl⟩
    · exact ⟨t, List.mem_append_right _ (List.mem_singleton_self t), rfl⟩
  · rintro ⟨x, hx, rfl⟩
    rcases List.mem_append.mp hx with hold | hnew
    · exact .inl ⟨x, hold, rfl⟩
    · obtain rfl := List.mem_singleton.mp hnew
      exact .inr rfl

theorem Records.setConsumed (h : Records K asked rows) (consumed : Bool) :
    Records K asked (setConsumed rows key consumed) := by
  intro k
  rw [keys_setConsumed]
  exact h k

omit [DecidableEq κ] in
/-- Where keys tell apart what is asked for, a key is used up exactly if the same was asked
for before. -/
theorem Records.mem_keys_iff (h : Records K asked rows) {t : τ}
    (hK : ∀ x ∈ asked, K x = K t → x = t) : K t ∈ keys rows ↔ t ∈ asked := by
  rw [h]
  refine ⟨?_, ?_⟩
  · rintro ⟨x, hx, heq⟩
    exact hK x hx heq ▸ hx
  · intro ht
    exact ⟨t, ht, rfl⟩

end Outbox
