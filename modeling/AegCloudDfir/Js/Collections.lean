import Mathlib

/-!
# JavaScript arrays, sets and maps

What the modelled code does with arrays of identifiers and with `Map`. A `Map` is the
list of its entries in the order their keys were first set.

* `sorted` — `[...xs].sort()`, by code unit for strings; two arrays have one sorted array
  exactly if one is a permutation of the other (`sorted_eq_iff`).
* `sortedBy` — `[...xs].sort(compare)`, which is stable (`pairwise_sortedBy`).
* `distinct` — `[...new Set(xs)]`; sorted as well, it is the same array exactly for the
  same set (`sorted_distinct_eq_iff`).
* `JsMap.group` — the loops that collect items in a `Map` of arrays; under every key
  stand the items with that key, in their order (`JsMap.get?_group`, `JsMap.mem_group_iff`).
-/

namespace AegCloudDfir

universe u v

variable {α : Type u} {β : Type v}

instance lawfulBEqOfLinearOrder [LinearOrder α] : LawfulBEq α := inferInstance

/-! ## Sorting -/

section Sorted

variable [LinearOrder α]

/-- `[...xs].sort()`. -/
def sorted (xs : List α) : List α := xs.insertionSort (· ≤ ·)

theorem sorted_perm (xs : List α) : (sorted xs).Perm xs := List.perm_insertionSort _ xs

@[simp] theorem mem_sorted {a : α} {xs : List α} : a ∈ sorted xs ↔ a ∈ xs :=
  (sorted_perm xs).mem_iff

@[simp] theorem length_sorted (xs : List α) : (sorted xs).length = xs.length :=
  (sorted_perm xs).length_eq

/-- **Sorting forgets the order and nothing else.** -/
theorem sorted_eq_iff {xs ys : List α} : sorted xs = sorted ys ↔ xs.Perm ys := by
  refine ⟨?_, ?_⟩
  · intro h
    exact (sorted_perm xs).symm.trans (h ▸ sorted_perm ys)
  · intro h
    have hperm : (sorted xs).Perm (sorted ys) :=
      (sorted_perm xs).trans (h.trans (sorted_perm ys).symm)
    apply hperm.eq_of_pairwise (fun a b _ _ hab hba => le_antisymm hab hba)
    · exact List.pairwise_insertionSort _ xs
    · exact List.pairwise_insertionSort _ ys

end Sorted

section SortedBy

variable (compare : α → α → Ordering)

/-- `[...xs].sort(compare)`: what compares as equal keeps its order. -/
def sortedBy (xs : List α) : List α := xs.insertionSort fun a b => (compare a b).isLE

theorem sortedBy_perm (xs : List α) : (sortedBy compare xs).Perm xs :=
  List.perm_insertionSort _ xs

@[simp] theorem mem_sortedBy {a : α} {xs : List α} : a ∈ sortedBy compare xs ↔ a ∈ xs :=
  (sortedBy_perm compare xs).mem_iff

/-- For a comparison that is one the result is in order. -/
theorem pairwise_sortedBy [Std.TransCmp compare] (xs : List α) :
    (sortedBy compare xs).Pairwise fun a b => (compare a b).isLE := by
  have htotal : Std.Total fun a b => ((compare a b).isLE : Prop) := ⟨fun a b => by
    have hswap : compare b a = (compare a b).swap := Std.OrientedCmp.eq_swap
    rw [hswap]
    cases compare a b <;> simp⟩
  have htrans : IsTrans α fun a b => ((compare a b).isLE : Prop) :=
    ⟨fun _ _ _ => Std.TransCmp.isLE_trans⟩
  exact List.pairwise_insertionSort _ xs

end SortedBy

/-! ## Sets -/

section Distinct

variable [DecidableEq α]

/-- `s.add(x)`. -/
def addTo (s : List α) (x : α) : List α := if x ∈ s then s else s ++ [x]

/-- `s.add(x)` for every `x` of an array. -/
def addAll (s xs : List α) : List α := xs.foldl addTo s

/-- `[...new Set(xs)]`. -/
def distinct (xs : List α) : List α := addAll [] xs

theorem mem_addTo {s : List α} {a x : α} : a ∈ addTo s x ↔ a ∈ s ∨ a = x := by
  rw [addTo]
  split_ifs with h
  · refine ⟨.inl, ?_⟩
    rintro (ha | rfl)
    · exact ha
    · exact h
  · simp

theorem nodup_addTo {s : List α} {x : α} (h : s.Nodup) : (addTo s x).Nodup := by
  rw [addTo]
  split_ifs with hx
  · exact h
  · exact List.nodup_append.mpr ⟨h, List.nodup_singleton x, by rintro a ha _ hb rfl; simp_all⟩

@[simp] theorem mem_addAll {s xs : List α} {a : α} : a ∈ addAll s xs ↔ a ∈ s ∨ a ∈ xs := by
  induction xs generalizing s with
  | nil => simp [addAll]
  | cons x xs ih =>
    rw [addAll, List.foldl_cons, ← addAll, ih, mem_addTo, List.mem_cons, or_assoc]

theorem nodup_addAll {s : List α} (xs : List α) (h : s.Nodup) : (addAll s xs).Nodup := by
  induction xs generalizing s with
  | nil => exact h
  | cons x xs ih => exact ih (nodup_addTo h)

/-- What is added in several rounds. -/
theorem mem_foldl_addAll {β : Type} (f : β → List α) (xs : List β) (items : List α) {a : α} :
    a ∈ xs.foldl (fun items x => addAll items (f x)) items ↔ a ∈ items ∨ ∃ x ∈ xs, a ∈ f x := by
  induction xs generalizing items with
  | nil => simp
  | cons x xs ih =>
    rw [List.foldl_cons, ih, mem_addAll, or_assoc]
    simp only [List.mem_cons, exists_eq_or_imp]

theorem nodup_foldl_addAll {β : Type} (f : β → List α) (xs : List β) {items : List α}
    (h : items.Nodup) : (xs.foldl (fun items x => addAll items (f x)) items).Nodup := by
  induction xs generalizing items with
  | nil => exact h
  | cons x xs ih => exact ih (nodup_addAll _ h)

@[simp] theorem mem_distinct {a : α} {xs : List α} : a ∈ distinct xs ↔ a ∈ xs := by
  simp [distinct]

theorem nodup_distinct (xs : List α) : (distinct xs).Nodup := nodup_addAll xs List.nodup_nil

end Distinct

theorem sorted_distinct_eq_iff [LinearOrder α] {xs ys : List α} :
    sorted (distinct xs) = sorted (distinct ys) ↔ ∀ a, a ∈ xs ↔ a ∈ ys := by
  rw [sorted_eq_iff, List.perm_ext_iff_of_nodup (nodup_distinct xs) (nodup_distinct ys)]
  simp

theorem sorted_distinct_pairwise [LinearOrder α] (xs : List α) :
    (sorted (distinct xs)).Pairwise (· < ·) := by
  have hle : (sorted (distinct xs)).Pairwise (· ≤ ·) := List.pairwise_insertionSort _ _
  have hne : (sorted (distinct xs)).Nodup := (sorted_perm _).nodup_iff.mpr (nodup_distinct xs)
  exact hle.imp₂ (fun _ _ hle hne => lt_of_le_of_ne hle hne) hne

/-! ## Maps -/

/-- A `Map`: its entries in the order their keys were first set. -/
abbrev JsMap (κ : Type u) (β : Type v) : Type (max u v) := List (κ × β)

namespace JsMap

variable {κ : Type u} [DecidableEq κ]

/-- `map.get(k)`. -/
def get? (m : JsMap κ β) (k : κ) : Option β := (m.find? fun e => e.1 = k).map Prod.snd

/-- `map.set(k, v)`. -/
def set (m : JsMap κ β) (k : κ) (v : β) : JsMap κ β :=
  if k ∈ m.map Prod.fst then m.map fun e => if e.1 = k then (k, v) else e else m ++ [(k, v)]

/-- `if (!map.has(k)) map.set(k, v)`. -/
def setNew (m : JsMap κ β) (k : κ) (v : β) : JsMap κ β :=
  if k ∈ m.map Prod.fst then m else m ++ [(k, v)]

/-- Puts `v` at the end of the array under `k`, or of a new one. -/
def push (m : JsMap κ (List β)) (k : κ) (v : β) : JsMap κ (List β) :=
  if k ∈ m.map Prod.fst then m.map fun e => if e.1 = k then (k, e.2 ++ [v]) else e
  else m ++ [(k, [v])]

/-- `new Map(entries)`: of several entries with one key the last counts. -/
def ofEntries (es : List (κ × β)) : JsMap κ β := es.foldl (fun m e => m.set e.1 e.2) []

/-- The first entry of every key counts. -/
def ofFirst (es : List (κ × β)) : JsMap κ β := es.foldl (fun m e => m.setNew e.1 e.2) []

/-- The values of every key in an array. -/
def group (es : List (κ × β)) : JsMap κ (List β) := es.foldl (fun m e => m.push e.1 e.2) []

/-- The values of one key. -/
def valuesAt (es : List (κ × β)) (k : κ) : List β :=
  (es.filter fun e => e.1 = k).map Prod.snd

theorem mem_valuesAt {es : List (κ × β)} {k : κ} {v : β} : v ∈ valuesAt es k ↔ (k, v) ∈ es := by
  simp [valuesAt]

theorem get?_append_singleton {m : JsMap κ β} {k j : κ} {v : β} (hj : j ∉ m.map Prod.fst) :
    get? (m ++ [(j, v)]) k = if j = k then some v else get? m k := by
  rw [get?, List.find?_append]
  split_ifs with hjk
  · subst hjk
    have hnone : (m.find? fun e => e.1 = j) = none := by
      rw [List.find?_eq_none]
      intro e he
      have : e.1 ≠ j := fun h => hj (List.mem_map.mpr ⟨e, he, h⟩)
      simpa using this
    simp [hnone]
  · simp [hjk, get?]

theorem get?_eq_none {m : JsMap κ β} {k : κ} (h : k ∉ m.map Prod.fst) : get? m k = none := by
  have hnone : (m.find? fun e => e.1 = k) = none := by
    rw [List.find?_eq_none]
    intro e he
    have : e.1 ≠ k := fun hk => h (List.mem_map.mpr ⟨e, he, hk⟩)
    simpa using this
  simp [get?, hnone]

theorem get?_of_mem {m : JsMap κ β} {k : κ} (h : k ∈ m.map Prod.fst) : ∃ v, get? m k = some v := by
  obtain ⟨e, he, rfl⟩ := List.mem_map.mp h
  rcases hfind : m.find? fun d => d.1 = e.1 with _ | d
  · simpa using List.find?_eq_none.mp hfind e he
  · exact ⟨d.2, by simp [get?, hfind]⟩

/-- What stands under a key after the entries of a key were changed in place. -/
theorem get?_map_entry {m : JsMap κ β} {j k : κ} {f : β → β} :
    get? (m.map fun e => if e.1 = j then (j, f e.2) else e) k =
      if j = k then (get? m k).map f else get? m k := by
  induction m with
  | nil => simp [get?]
  | cons e m ih =>
    obtain ⟨i, v⟩ := e
    simp only [get?, List.map_cons, List.find?_cons] at ih ⊢
    by_cases hij : i = j
    · subst hij
      by_cases hik : i = k
      · subst hik
        simp
      · simpa [hik] using ih
    · by_cases hik : i = k
      · subst hik
        simp [hij, Ne.symm hij]
      · simpa [hij, hik] using ih

theorem keys_map_entry {m : JsMap κ β} {j : κ} {f : β → β} :
    (m.map fun e => if e.1 = j then (j, f e.2) else e).map Prod.fst = m.map Prod.fst := by
  rw [List.map_map]
  apply List.map_congr_left
  intro e _
  by_cases he : e.1 = j <;> simp [he]

/-! ### Setting entries one after another -/

theorem get?_set (m : JsMap κ β) (j k : κ) (v : β) :
    get? (m.set j v) k = if j = k then some v else get? m k := by
  rw [set]
  split_ifs with hj hjk hjk
  · subst hjk
    rw [get?_map_entry (f := fun _ => v), if_pos rfl]
    obtain ⟨w, hw⟩ := get?_of_mem hj
    simp [hw]
  · rw [get?_map_entry (f := fun _ => v), if_neg hjk]
  · rw [get?_append_singleton hj, if_pos hjk]
  · rw [get?_append_singleton hj, if_neg hjk]

theorem get?_setNew (m : JsMap κ β) (j k : κ) (v : β) :
    get? (m.setNew j v) k = if j = k then some ((get? m k).getD v) else get? m k := by
  rw [setNew]
  split_ifs with hj hjk hjk
  · subst hjk
    obtain ⟨w, hw⟩ := get?_of_mem hj
    simp [hw]
  · rfl
  · subst hjk
    rw [get?_append_singleton hj, if_pos rfl, get?_eq_none hj, Option.getD_none]
  · rw [get?_append_singleton hj, if_neg hjk]

theorem get?_push (m : JsMap κ (List β)) (j k : κ) (v : β) :
    get? (m.push j v) k = if j = k then some ((get? m k).getD [] ++ [v]) else get? m k := by
  rw [push]
  split_ifs with hj hjk hjk
  · subst hjk
    obtain ⟨w, hw⟩ := get?_of_mem hj
    rw [get?_map_entry (f := fun l => l ++ [v]), if_pos rfl, hw]
    rfl
  · rw [get?_map_entry (f := fun l => l ++ [v]), if_neg hjk]
  · subst hjk
    rw [get?_append_singleton hj, if_pos rfl, get?_eq_none hj, Option.getD_none, List.nil_append]
  · rw [get?_append_singleton hj, if_neg hjk]

/-- **The last entry with a key counts.** -/
theorem get?_ofEntries (es : List (κ × β)) (k : κ) :
    get? (ofEntries es) k = (valuesAt es k).getLast? := by
  induction es using List.reverseRecOn with
  | nil => rfl
  | append_singleton es e ih =>
    rw [ofEntries, List.foldl_append, List.foldl_cons, List.foldl_nil, ← ofEntries, get?_set, ih]
    obtain ⟨j, v⟩ := e
    by_cases hjk : j = k <;> simp [valuesAt, hjk]

/-- **The first entry with a key counts.** -/
theorem get?_ofFirst (es : List (κ × β)) (k : κ) :
    get? (ofFirst es) k = (valuesAt es k).head? := by
  induction es using List.reverseRecOn with
  | nil => rfl
  | append_singleton es e ih =>
    rw [ofFirst, List.foldl_append, List.foldl_cons, List.foldl_nil, ← ofFirst, get?_setNew, ih]
    obtain ⟨j, v⟩ := e
    by_cases hjk : j = k
    · simp only [hjk, if_true, valuesAt, List.filter_append, List.map_append, List.head?_append]
      cases ((es.filter fun e => e.1 = k).map Prod.snd).head? <;> simp
    · simp [valuesAt, hjk]

theorem group_append_singleton (es : List (κ × β)) (e : κ × β) :
    group (es ++ [e]) = (group es).push e.1 e.2 := by
  rw [group, List.foldl_append]
  rfl

/-- **Under every key stand the values with that key, in their order.** -/
theorem get?_group (es : List (κ × β)) (k : κ) :
    get? (group es) k = if valuesAt es k = [] then none else some (valuesAt es k) := by
  induction es using List.reverseRecOn with
  | nil => rfl
  | append_singleton es e ih =>
    rw [group_append_singleton, get?_push, ih]
    obtain ⟨j, v⟩ := e
    by_cases hjk : j = k
    · have hvalues : valuesAt (es ++ [(j, v)]) k = valuesAt es k ++ [v] := by simp [valuesAt, hjk]
      rw [if_pos hjk, hvalues]
      by_cases hnil : valuesAt es k = [] <;> simp [hnil]
    · have hvalues : valuesAt (es ++ [(j, v)]) k = valuesAt es k := by simp [valuesAt, hjk]
      rw [if_neg hjk, hvalues]

theorem getD_group (es : List (κ × β)) (k : κ) : (get? (group es) k).getD [] = valuesAt es k := by
  rw [get?_group]
  split_ifs with h
  · exact h.symm
  · rfl

/-! ### The entries -/

theorem mem_iff_get? {m : JsMap κ β} (h : (m.map Prod.fst).Nodup) {k : κ} {v : β} :
    (k, v) ∈ m ↔ get? m k = some v := by
  induction m with
  | nil => simp [get?]
  | cons e m ih =>
    obtain ⟨j, w⟩ := e
    rw [List.map_cons, List.nodup_cons] at h
    have ih := ih h.2
    by_cases hjk : j = k
    · subst hjk
      have hnot : (j, v) ∉ m := fun hmem => h.1 (List.mem_map.mpr ⟨_, hmem, rfl⟩)
      simp [get?, hnot, eq_comm]
    · have hne : (k, v) ≠ (j, w) := fun heq => hjk (congrArg Prod.fst heq).symm
      simpa [get?, hjk, hne] using ih

theorem mem_of_get? {m : JsMap κ β} {k : κ} {v : β} (h : get? m k = some v) : (k, v) ∈ m := by
  obtain ⟨⟨j, w⟩, hfind, rfl⟩ := Option.map_eq_some_iff.mp h
  have hkey : j = k := by simpa using List.find?_some hfind
  exact hkey ▸ List.mem_of_find?_eq_some hfind

theorem keys_set (m : JsMap κ β) (k : κ) (v : β) :
    (m.set k v).map Prod.fst = addTo (m.map Prod.fst) k := by
  rw [set, addTo]
  split_ifs with hk
  · exact keys_map_entry (f := fun _ => v)
  · rw [List.map_append]
    rfl

theorem keys_ofEntries (es : List (κ × β)) :
    (ofEntries es).map Prod.fst = distinct (es.map Prod.fst) := by
  induction es using List.reverseRecOn with
  | nil => rfl
  | append_singleton es e ih =>
    rw [ofEntries, List.foldl_append, List.foldl_cons, List.foldl_nil, ← ofEntries, keys_set, ih,
      List.map_append, distinct, distinct, addAll, addAll, List.foldl_append]
    rfl

theorem keys_push (m : JsMap κ (List β)) (k : κ) (v : β) :
    (m.push k v).map Prod.fst = addTo (m.map Prod.fst) k := by
  rw [push, addTo]
  split_ifs with hk
  · exact keys_map_entry (f := fun l => l ++ [v])
  · simp

theorem keys_group (es : List (κ × β)) : (group es).map Prod.fst = distinct (es.map Prod.fst) := by
  induction es using List.reverseRecOn with
  | nil => rfl
  | append_singleton es e ih =>
    rw [group_append_singleton, keys_push, ih, List.map_append, distinct, distinct, addAll, addAll,
      List.foldl_append]
    rfl

/-- **The entries of a grouping.** -/
theorem mem_group_iff {es : List (κ × β)} {k : κ} {vs : List β} :
    (k, vs) ∈ group es ↔ vs = valuesAt es k ∧ vs ≠ [] := by
  rw [mem_iff_get? (keys_group es ▸ nodup_distinct _), get?_group]
  split_ifs with h
  · simp [h]
  · rw [Option.some_inj]
    refine ⟨?_, ?_⟩
    · rintro rfl
      exact ⟨rfl, h⟩
    · rintro ⟨rfl, -⟩
      rfl

/-- What stands under some keys is the values of the entries with these keys. -/
theorem flatMap_valuesAt_perm {keys : List κ} (hkeys : keys.Nodup) {es : List (κ × β)}
    (h : ∀ e ∈ es, e.1 ∈ keys) : (keys.flatMap (valuesAt es)).Perm (es.map Prod.snd) := by
  induction keys generalizing es with
  | nil =>
    obtain rfl : es = [] := List.eq_nil_iff_forall_not_mem.mpr fun e he => List.not_mem_nil (h e he)
    exact .nil
  | cons k keys ih =>
    obtain ⟨hk, hkeys⟩ := List.nodup_cons.mp hkeys
    -- the entries under `k`, and the others
    have hrest : ∀ e ∈ es.filter fun e => ¬ (e.1 = k), e.1 ∈ keys := by
      intro e he
      obtain ⟨he, hne⟩ := List.mem_filter.mp he
      exact (List.mem_cons.mp (h e he)).resolve_left (by simpa using hne)
    have hvalues : ∀ j ∈ keys, valuesAt (es.filter fun e => ¬ (e.1 = k)) j = valuesAt es j := by
      intro j hj
      have hjk : j ≠ k := fun heq => hk (heq ▸ hj)
      rw [valuesAt, valuesAt, List.filter_filter]
      congr 1
      apply List.filter_congr
      intro e _
      by_cases he : e.1 = j
      · simp [he, hjk]
      · simp [he]
    rw [List.flatMap_cons, ← List.flatMap_congr hvalues]
    have hperm := (List.filter_append_perm (fun e : κ × β => e.1 = k) es).map Prod.snd
    rw [List.map_append] at hperm
    simpa [valuesAt] using ((ih hkeys hrest).append_left (valuesAt es k)).trans
      (by simpa [valuesAt] using hperm)

/-- **A grouping loses no value and adds none.** -/
theorem flatMap_group_perm (es : List (κ × β)) :
    ((group es).flatMap Prod.snd).Perm (es.map Prod.snd) := by
  have hvalues : ∀ e ∈ group es, e.2 = valuesAt es e.1 := fun e he => (mem_group_iff.mp he).1
  rw [List.flatMap_congr hvalues, ← List.flatMap_map Prod.fst (valuesAt es), keys_group]
  apply flatMap_valuesAt_perm (nodup_distinct _)
  intro e he
  exact mem_distinct.mpr (List.mem_map_of_mem he)

/-! ### Changing the values -/

variable {γ : Type v}

theorem valuesAt_map (f : β → γ) (es : List (κ × β)) (k : κ) :
    valuesAt (es.map fun e => (e.1, f e.2)) k = (valuesAt es k).map f := by
  simp only [valuesAt, List.filter_map, List.map_map]
  rfl

theorem get?_ofEntries_map (f : β → γ) (es : List (κ × β)) (k : κ) :
    get? (ofEntries (es.map fun e => (e.1, f e.2))) k = (get? (ofEntries es) k).map f := by
  rw [get?_ofEntries, get?_ofEntries, valuesAt_map, List.getLast?_map]

theorem push_map (f : β → γ) (m : JsMap κ (List β)) (k : κ) (v : β) :
    push (m.map fun e => (e.1, e.2.map f)) k (f v) =
      (push m k v).map fun e => (e.1, e.2.map f) := by
  have hkeys : (m.map fun e => (e.1, e.2.map f)).map Prod.fst = m.map Prod.fst := by
    rw [List.map_map]
    rfl
  rw [push, push, hkeys]
  split_ifs with hk
  · rw [List.map_map, List.map_map]
    apply List.map_congr_left
    intro e _
    by_cases he : e.1 = k <;> simp [he]
  · simp

theorem group_map (f : β → γ) (es : List (κ × β)) :
    group (es.map fun e => (e.1, f e.2)) = (group es).map fun e => (e.1, e.2.map f) := by
  induction es using List.reverseRecOn with
  | nil => rfl
  | append_singleton es e ih =>
    rw [List.map_append, List.map_singleton, group_append_singleton, group_append_singleton, ih]
    exact push_map f (group es) e.1 e.2

end JsMap

end AegCloudDfir
