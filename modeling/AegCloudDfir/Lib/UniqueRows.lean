import Mathlib.Data.List.Basic
import Mathlib.Data.List.Nodup

/-!
# Rows under a unique key

A table with a unique key takes a row only if no row has its key. Inserting many rows with
duplicates skipped takes them one after another, so what is taken is a part of them
(`insertAll_eq_append`), and all of them exactly if their keys are new and different
(`insertAll_eq_append_iff`).
-/

namespace UniqueRows

universe u v

variable {α : Type u} {κ : Type v} [DecidableEq κ] (key : α → κ)

/-- Inserts a row unless its key is taken. -/
def insertNew (rows : List α) (row : α) : List α :=
  if key row ∈ rows.map key then rows else rows ++ [row]

/-- Inserts rows, skipping duplicates. -/
def insertAll (rows new : List α) : List α := new.foldl (insertNew key) rows

@[simp] theorem insertAll_nil (rows : List α) : insertAll key rows [] = rows := rfl

theorem insertAll_cons (rows new : List α) (row : α) :
    insertAll key rows (row :: new) = insertAll key (insertNew key rows row) new := rfl

theorem insertAll_append (rows new new' : List α) :
    insertAll key rows (new ++ new') = insertAll key (insertAll key rows new) new' :=
  List.foldl_append

/-- Nothing is taken if all keys are. -/
theorem insertAll_eq_self {rows new : List α} (h : ∀ row ∈ new, key row ∈ rows.map key) :
    insertAll key rows new = rows := by
  induction new with
  | nil => rfl
  | cons row new ih =>
    obtain ⟨hrow, hnew⟩ := List.forall_mem_cons.mp h
    rw [insertAll_cons, insertNew, if_pos hrow]
    exact ih hnew

/-- The keys that are taken in the end are those of all rows. -/
theorem mem_map_insertAll {rows new : List α} {k : κ} :
    k ∈ (insertAll key rows new).map key ↔ k ∈ rows.map key ∨ k ∈ new.map key := by
  induction new generalizing rows with
  | nil => simp
  | cons row new ih =>
    rw [insertAll_cons, ih, insertNew, List.map_cons, List.mem_cons]
    split_ifs with hrow
    · refine ⟨?_, ?_⟩
      · exact fun h => h.imp_right .inr
      · rintro (h | rfl | h)
        · exact .inl h
        · exact .inl hrow
        · exact .inr h
    · rw [List.map_append, List.map_singleton, List.mem_append, List.mem_singleton, or_assoc]

/-- The key stays unique. -/
theorem nodup_map_insertAll {rows : List α} (h : (rows.map key).Nodup) (new : List α) :
    ((insertAll key rows new).map key).Nodup := by
  induction new generalizing rows with
  | nil => exact h
  | cons row new ih =>
    rw [insertAll_cons, insertNew]
    split_ifs with hrow
    · exact ih h
    · refine ih ?_
      rw [List.map_append, List.map_singleton]
      exact h.append (List.nodup_singleton _) (by simpa using hrow)

/-- Rows may be inserted in batches. -/
theorem foldl_insertAll (rows : List α) (batches : List (List α)) :
    batches.foldl (insertAll key) rows = insertAll key rows batches.flatten := by
  rw [insertAll, List.foldl_flatten]
  rfl

/-- **What is taken** is a part of what is inserted, behind what is there. -/
theorem insertAll_eq_append (rows new : List α) :
    ∃ taken, taken.Sublist new ∧ insertAll key rows new = rows ++ taken := by
  induction new generalizing rows with
  | nil => exact ⟨[], List.Sublist.refl _, (List.append_nil rows).symm⟩
  | cons row new ih =>
    rw [insertAll_cons, insertNew]
    split_ifs with hrow
    · obtain ⟨taken, hsub, heq⟩ := ih rows
      exact ⟨taken, hsub.cons row, heq⟩
    · obtain ⟨taken, hsub, heq⟩ := ih (rows ++ [row])
      refine ⟨row :: taken, hsub.cons_cons row, ?_⟩
      rw [heq, List.append_assoc, List.singleton_append]

/-- Two parts make up the whole only if each is all of its own. -/
theorem append_eq_append_iff_of_sublist {xs ys as bs : List α} (hxs : xs.Sublist as)
    (hys : ys.Sublist bs) : xs ++ ys = as ++ bs ↔ xs = as ∧ ys = bs := by
  refine ⟨fun h => ?_, by rintro ⟨rfl, rfl⟩; rfl⟩
  have hlength := congrArg List.length h
  rw [List.length_append, List.length_append] at hlength
  have hle := hxs.length_le
  have hle' := hys.length_le
  exact ⟨hxs.eq_of_length (by omega), hys.eq_of_length (by omega)⟩

/-- **All rows are taken** exactly if their keys are new, and different from each other. -/
theorem insertAll_eq_append_iff (rows new : List α) :
    insertAll key rows new = rows ++ new ↔
      (new.map key).Nodup ∧ ∀ row ∈ new, key row ∉ rows.map key := by
  induction new generalizing rows with
  | nil => simp
  | cons row new ih =>
    rw [insertAll_cons, insertNew, List.map_cons, List.nodup_cons, List.forall_mem_cons]
    split_ifs with hrow
    · -- the first row is skipped, so there is one row less
      obtain ⟨taken, hsub, heq⟩ := insertAll_eq_append key rows new
      refine iff_of_false (fun h => ?_) fun h => h.2.1 hrow
      rw [heq, List.append_cancel_left_eq] at h
      have hle := hsub.length_le
      rw [h, List.length_cons] at hle
      omega
    · have hassoc : rows ++ row :: new = (rows ++ [row]) ++ new := by simp
      rw [hassoc, ih, List.map_append, List.map_singleton]
      simp only [List.mem_append, List.mem_singleton, not_or]
      refine ⟨?_, ?_⟩
      · rintro ⟨hnodup, hnew⟩
        refine ⟨⟨fun hmem => ?_, hnodup⟩, hrow, fun other hother => (hnew other hother).1⟩
        obtain ⟨other, hother, hkey⟩ := List.mem_map.mp hmem
        exact (hnew other hother).2 hkey
      · rintro ⟨⟨hfirst, hnodup⟩, -, hnew⟩
        refine ⟨hnodup, fun other hother => ⟨hnew other hother, fun hkey => hfirst ?_⟩⟩
        exact List.mem_map.mpr ⟨other, hother, hkey⟩

/-- **What is inserted is all there is** exactly if what was there is its beginning. -/
theorem insertAll_eq_right_iff {rows new : List α} (hnodup : (new.map key).Nodup) :
    insertAll key rows new = new ↔ rows <+: new := by
  refine ⟨?_, ?_⟩
  · intro h
    obtain ⟨taken, -, heq⟩ := insertAll_eq_append key rows new
    exact ⟨taken, heq.symm.trans h⟩
  · rintro ⟨rest, rfl⟩
    rw [insertAll_append, insertAll_eq_self key fun row hrow => List.mem_map_of_mem hrow]
    rw [List.map_append, List.nodup_append] at hnodup
    refine (insertAll_eq_append_iff key rows rest).mpr ⟨hnodup.2.1, fun row hrow hmem => ?_⟩
    exact hnodup.2.2 _ hmem _ (List.mem_map_of_mem hrow) rfl

/-! ## Rows with a key -/

/-- A row is the only one with its key. -/
theorem countP_key_eq_one {rows : List α} {row : α} (h : (rows.map key).Nodup) (hrow : row ∈ rows) :
    (rows.countP fun other => key other = key row) = 1 := by
  have hcount : (rows.map key).count (key row) = 1 :=
    List.count_eq_one_of_mem h (List.mem_map_of_mem hrow)
  rw [List.count, List.countP_map] at hcount
  refine (List.countP_congr fun other _ => ?_).trans hcount
  simp

theorem filter_key_eq_singleton {rows : List α} {row : α} (h : (rows.map key).Nodup)
    (hrow : row ∈ rows) : (rows.filter fun other => key other = key row) = [row] := by
  have hone := countP_key_eq_one key h hrow
  rw [List.countP_eq_length_filter] at hone
  obtain ⟨other, heq⟩ := List.length_eq_one_iff.mp hone
  have hmem : row ∈ rows.filter fun other => key other = key row :=
    List.mem_filter.mpr ⟨hrow, decide_eq_true rfl⟩
  rw [heq] at hmem
  rw [heq, List.mem_singleton.mp hmem]

/-- Rows may have no key; those with one have it to themselves. -/
theorem eq_of_nodup_filterMap {key? : α → Option κ} {rows : List α} {row row' : α} {k : κ}
    (h : (rows.filterMap key?).Nodup) (hrow : row ∈ rows) (hrow' : row' ∈ rows)
    (hkey : key? row = some k) (hkey' : key? row' = some k) : row = row' := by
  induction rows with
  | nil => exact (List.not_mem_nil hrow).elim
  | cons first rows ih =>
    have hmem : ∀ other ∈ rows, key? other = some k → k ∈ rows.filterMap key? :=
      fun other hother heq => List.mem_filterMap.mpr ⟨other, hother, heq⟩
    rcases List.mem_cons.mp hrow with rfl | hlater <;>
      rcases List.mem_cons.mp hrow' with rfl | hlater'
    · rfl
    · rw [List.filterMap_cons, hkey, List.nodup_cons] at h
      exact absurd (hmem row' hlater' hkey') h.1
    · rw [List.filterMap_cons, hkey', List.nodup_cons] at h
      exact absurd (hmem row hlater hkey) h.1
    · refine ih ?_ hlater hlater'
      rw [List.filterMap_cons] at h
      split at h
      · exact h
      · exact h.of_cons

end UniqueRows
