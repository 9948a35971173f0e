import Mathlib.Data.List.Nodup
import Mathlib.Logic.Function.Basic

/-!
# Rows under locks

Clients work on the rows of one table. A client locks some rows, reads them, writes them, and
then commits or rolls back; rows that someone holds are locked by nobody else and written by
nobody else. So what a client has read is still there when it writes (`Table.Sound.held`),
whatever the others do meanwhile.

* `Table.Sound` — what locking, unlocking, inserting and committing keep (`Sound.insert`,
  `Sound.lock`, `Sound.unlock`, `Sound.commit`).
* `Continues` — every row of an earlier table is there in a later one, as far as some
  relation between rows goes.
-/

namespace RowLocks

universe u v w

variable {ρ : Type u} {R : Type v} {κ : Type w}

/-- Rows, and the rows every client holds, as it has read them. -/
structure Table (ρ : Type u) (R : Type v) where
  rows : List R
  held : ρ → List R

variable [DecidableEq ρ] [DecidableEq κ] (key : R → κ)

namespace Table

/-- A client gets hold of rows, or of none. -/
def hold (t : Table ρ R) (client : ρ) (rows : List R) : Table ρ R :=
  { t with held := Function.update t.held client rows }

/-- A client writes the rows it holds, and holds none then. -/
def commit (t : Table ρ R) (client : ρ) (write : R → R) : Table ρ R where
  rows := t.rows.map fun row => if key row ∈ (t.held client).map key then write row else row
  held := Function.update t.held client []

/-- **The discipline.** Keys are unique, what a client has read is still there, and no row is
held by two. -/
structure Sound (t : Table ρ R) : Prop where
  nodup : (t.rows.map key).Nodup
  held : ∀ client, ∀ row ∈ t.held client, row ∈ t.rows
  exclusive : ∀ client client', client ≠ client' → ∀ row ∈ t.held client,
    ∀ row' ∈ t.held client', key row ≠ key row'

variable {key} {t : Table ρ R}

omit [DecidableEq κ] in
@[simp] theorem held_hold_self (client : ρ) (rows : List R) :
    (t.hold client rows).held client = rows :=
  Function.update_self ..

omit [DecidableEq κ] in
theorem held_hold_of_ne {client client' : ρ} (h : client' ≠ client) (rows : List R) :
    (t.hold client rows).held client' = t.held client' :=
  Function.update_of_ne h ..

@[simp] theorem held_commit (client : ρ) (write : R → R) :
    (t.commit key client write).held = (t.hold client []).held := rfl

omit [DecidableEq ρ] [DecidableEq κ] in
/-- Rows with one key are one row. -/
theorem Sound.eq_of_key_eq (h : t.Sound key) {row row' : R} (hrow : row ∈ t.rows)
    (hrow' : row' ∈ t.rows) (hkey : key row = key row') : row = row' :=
  List.inj_on_of_nodup_map h.nodup hrow hrow' hkey

omit [DecidableEq ρ] [DecidableEq κ] in
theorem Sound.empty : (⟨[], fun _ => []⟩ : Table ρ R).Sound key where
  nodup := List.nodup_nil
  held _ _ hrow := absurd hrow List.not_mem_nil
  exclusive _ _ _ _ hrow := absurd hrow List.not_mem_nil

omit [DecidableEq ρ] [DecidableEq κ] in
/-- A new row. -/
theorem Sound.insert (h : t.Sound key) {row : R} (hnew : key row ∉ t.rows.map key) :
    ({ t with rows := t.rows ++ [row] } : Table ρ R).Sound key where
  nodup := by
    rw [List.map_append, List.nodup_append]
    refine ⟨h.nodup, List.nodup_singleton _, ?_⟩
    rintro k hk k' hk' rfl
    rw [List.map_singleton, List.mem_singleton] at hk'
    exact hnew (hk' ▸ hk)
  held client row hrow := List.mem_append_left _ (h.held client row hrow)
  exclusive := h.exclusive

omit [DecidableEq κ] in
/-- A client locks rows that nobody else holds. -/
theorem Sound.lock (h : t.Sound key) {client : ρ} {rows : List R}
    (hrows : ∀ row ∈ rows, row ∈ t.rows)
    (hfree : ∀ row ∈ rows, ∀ client', ∀ row' ∈ t.held client', key row ≠ key row') :
    (t.hold client rows).Sound key where
  nodup := h.nodup
  held client' row hrow := by
    by_cases hclient : client' = client
    · subst hclient
      rw [held_hold_self] at hrow
      exact hrows row hrow
    · rw [held_hold_of_ne hclient] at hrow
      exact h.held client' row hrow
  exclusive client₁ client₂ hne row₁ hrow₁ row₂ hrow₂ := by
    by_cases hclient₁ : client₁ = client
    · subst hclient₁
      rw [held_hold_self] at hrow₁
      rw [held_hold_of_ne hne.symm] at hrow₂
      exact hfree row₁ hrow₁ client₂ row₂ hrow₂
    · rw [held_hold_of_ne hclient₁] at hrow₁
      by_cases hclient₂ : client₂ = client
      · subst hclient₂
        rw [held_hold_self] at hrow₂
        exact (hfree row₂ hrow₂ client₁ row₁ hrow₁).symm
      · rw [held_hold_of_ne hclient₂] at hrow₂
        exact h.exclusive client₁ client₂ hne row₁ hrow₁ row₂ hrow₂

omit [DecidableEq κ] in
/-- A client lets go, having written nothing. -/
theorem Sound.unlock (h : t.Sound key) (client : ρ) : (t.hold client []).Sound key :=
  h.lock (fun _ hrow => absurd hrow List.not_mem_nil) fun _ hrow => absurd hrow List.not_mem_nil

/-- **A client commits**: what the others have read is still there. -/
theorem Sound.commit (h : t.Sound key) (client : ρ) {write : R → R}
    (hwrite : ∀ row, key (write row) = key row) : (t.commit key client write).Sound key where
  nodup := by
    have hkeys : (t.commit key client write).rows.map key = t.rows.map key := by
      rw [Table.commit, List.map_map]
      apply List.map_congr_left
      intro row _
      rw [Function.comp_apply]
      split_ifs with hheld
      · exact hwrite row
      · rfl
    rw [hkeys]
    exact h.nodup
  held client' row hrow := by
    by_cases hclient : client' = client
    · subst hclient
      rw [held_commit, held_hold_self] at hrow
      exact absurd hrow List.not_mem_nil
    · rw [held_commit, held_hold_of_ne hclient] at hrow
      apply List.mem_map.mpr
      refine ⟨row, h.held client' row hrow, if_neg ?_⟩
      rintro hkey
      obtain ⟨row', hrow', heq⟩ := List.mem_map.mp hkey
      exact h.exclusive client' client hclient row hrow row' hrow' heq.symm
  exclusive := (h.unlock client).exclusive

end Table

/-! ## Rows over time -/

/-- Every row of the first table goes on in the second one. -/
def Continues (Rel : R → R → Prop) (rows rows' : List R) : Prop :=
  ∀ row ∈ rows, ∃ row' ∈ rows', Rel row row'

variable {Rel : R → R → Prop} {rows rows' rows'' : List R}

theorem Continues.refl (hrefl : ∀ row, Rel row row) (rows : List R) : Continues Rel rows rows :=
  fun row hrow => ⟨row, hrow, hrefl row⟩

theorem Continues.trans (htrans : ∀ a b c, Rel a b → Rel b c → Rel a c)
    (h : Continues Rel rows rows') (h' : Continues Rel rows' rows'') :
    Continues Rel rows rows'' := by
  intro row hrow
  obtain ⟨row', hrow', hrel⟩ := h row hrow
  obtain ⟨row'', hrow'', hrel'⟩ := h' row' hrow'
  exact ⟨row'', hrow'', htrans _ _ _ hrel hrel'⟩

theorem Continues.append (hrefl : ∀ row, Rel row row) (more : List R) :
    Continues Rel rows (rows ++ more) :=
  fun row hrow => ⟨row, List.mem_append_left _ hrow, hrefl row⟩

theorem Continues.map {f : R → R} (h : ∀ row ∈ rows, Rel row (f row)) :
    Continues Rel rows (rows.map f) :=
  fun row hrow => ⟨f row, List.mem_map_of_mem hrow, h row hrow⟩

end RowLocks
