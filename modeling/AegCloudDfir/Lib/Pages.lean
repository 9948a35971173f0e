import Mathlib

/-!
# Reading rows a page at a time

A server that is asked for so many rows behind a cursor, and says where the last row it
answered with stands. The cursor is the key of a row; if no two rows have one key, reading
on from the cursor of a page misses no row and repeats none (`Behind.next`).
-/

namespace Pages

universe u v

variable {α : Type u} {κ : Type v} [DecidableEq κ] (key : α → κ)

/-- The rows behind the row with a key; all rows, if there is no key. -/
def after (rows : List α) : Option κ → List α
  | none => rows
  | some k => (rows.dropWhile fun row => key row ≠ k).drop 1

/-- The answer: the first rows behind the cursor, and the cursor of the last of them. -/
def page (rows : List α) (size : ℕ) (cursor : Option κ) : List α × Option κ :=
  let items := (after key rows cursor).take size
  (items, items.getLast?.map key)

/-- The cursor stands behind the first `n` rows. -/
structure Behind (rows : List α) (n : ℕ) (cursor : Option κ) : Prop where
  le : n ≤ rows.length
  rest : after key rows cursor = rows.drop n

variable {key} {rows : List α} {n size : ℕ} {cursor : Option κ}

theorem behind_none : Behind key rows 0 none := ⟨Nat.zero_le _, rfl⟩

/-- Behind the key of a row are the rows that follow it. -/
theorem after_key (hkeys : (rows.map key).Nodup) {i : ℕ} {row : α} (hi : rows[i]? = some row) :
    after key rows (some (key row)) = rows.drop (i + 1) := by
  induction rows generalizing i with
  | nil => cases hi
  | cons first rows ih =>
    obtain ⟨hfirst, hkeys⟩ := List.nodup_cons.mp hkeys
    cases i with
    | zero =>
      obtain rfl := Option.some.inj hi
      rw [after, List.dropWhile_cons_of_neg (by simp)]
    | succ i =>
      have hne : key first ≠ key row := by
        intro heq
        apply hfirst
        rw [heq]
        exact List.mem_map_of_mem (List.mem_of_getElem? hi)
      rw [after, List.dropWhile_cons_of_pos (by simpa using hne)]
      exact ih hkeys hi

theorem Behind.items (h : Behind key rows n cursor) :
    (page key rows size cursor).1 = (rows.drop n).take size := by
  rw [page, h.rest]

theorem Behind.items_eq_nil (h : Behind key rows n cursor) (hsize : 0 < size) :
    (page key rows size cursor).1 = [] ↔ n = rows.length := by
  have hle := h.le
  rw [h.items, ← List.length_eq_zero_iff, List.length_take, List.length_drop]
  omega

theorem Behind.length_items (h : Behind key rows n cursor) :
    n + (page key rows size cursor).1.length = min rows.length (n + size) := by
  have hle := h.le
  rw [h.items, List.length_take, List.length_drop]
  omega

/-- What was read and the page are the rows that are read now. -/
theorem Behind.take_append (h : Behind key rows n cursor) :
    rows.take n ++ (page key rows size cursor).1 = rows.take (min rows.length (n + size)) := by
  rw [h.items, ← List.take_add, ← List.take_take, List.take_of_length_le (i := rows.length)]
  exact List.length_take_le' _ _

/-- **Nothing is missed and nothing is repeated.** A page that is not empty has a cursor,
and the cursor stands behind the rows that are read now. -/
theorem Behind.next (hkeys : (rows.map key).Nodup) (h : Behind key rows n cursor)
    (hsize : 0 < size) (hn : n < rows.length) :
    ∃ k, (page key rows size cursor).2 = some k ∧
      Behind key rows (min rows.length (n + size)) (some k) := by
  obtain ⟨m, hm⟩ : ∃ m, min rows.length (n + size) = m + 1 := ⟨_, (Nat.succ_pred (by omega)).symm⟩
  obtain ⟨row, hrow⟩ : ∃ row, rows[m]? = some row := ⟨_, List.getElem?_eq_getElem (by omega)⟩
  have hlast : (page key rows size cursor).1.getLast? = some row := by
    have hlength : n + (page key rows size cursor).1.length = min rows.length (n + size) :=
      h.length_items
    rw [List.getLast?_eq_getElem?, h.items, List.getElem?_take, List.getElem?_drop]
    rw [h.items] at hlength
    rw [if_pos (by omega), ← hrow]
    congr 1
    omega
  refine ⟨key row, ?_, by omega, ?_⟩
  · exact congrArg (Option.map key) hlast
  · rw [hm]
    exact after_key hkeys hrow

end Pages
