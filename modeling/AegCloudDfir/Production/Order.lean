import AegCloudDfir.Production.Sort

/-!
# What the sorter promises

The order of a production in its own terms: which of two items comes first, and how the items of a
family stand. `sortProductionItems` (`packages/production/src/sort.ts`) collects families in a map,
in the order the items come in, and sorts with comparisons; none of that shows in its result.

* `ComesBefore` — one item comes before another by key and identifier.
* `Ordered` — what is promised of the result.
* `sortProductionItems_ordered` — it is so for items with distinct identifiers.
-/

namespace AegCloudDfir.Production

section Order

variable {Id : Type} [LinearOrder Id]

/-- One item comes before another by the key of the production. What has no date comes last. -/
def KeyBefore : ProductionSort → SortableProductionItem Id → SortableProductionItem Id → Prop
  | .folderFilename, a, b =>
    a.folderPath < b.folderPath ∨ a.folderPath = b.folderPath ∧ a.fileName < b.fileName
  | .filename, a, b => a.fileName < b.fileName
  | .primaryDateAsc, a, b => ∃ date ∈ a.primaryDate, ∀ date' ∈ b.primaryDate, date < date'
  | .primaryDateDesc, a, b => ∃ date ∈ a.primaryDate, ∀ date' ∈ b.primaryDate, date' < date
  | .custodian, a, b => a.custodian.getD [] < b.custodian.getD []
  | .evidenceId, _, _ => False

/-- And by the identifier, if the key does not tell them apart. -/
def ComesBefore (sortKey : ProductionSort) (a b : SortableProductionItem Id) : Prop :=
  KeyBefore sortKey a b ∨ ¬ KeyBefore sortKey b a ∧ a.evidenceId ≤ b.evidenceId

/-- How the members of a family stand in their group. -/
structure InFamily (members : List (SortableProductionItem Id)) (g : Group Id) : Prop where
  perm : g.items.Perm members
  /-- who is nobody's child leads, if there is one -/
  leads : (∃ m ∈ members, m.isFamilyChild = false) → g.head.isFamilyChild = false
  /-- children come last, in the order of their identifiers -/
  children : ∃ others kids, g.items = others ++ kids ∧ (∀ m ∈ others, m.isFamilyChild = false) ∧
    (∀ m ∈ kids, m.isFamilyChild = true) ∧ kids.Pairwise fun a b => a.evidenceId < b.evidenceId

/-- **What is promised** of the order of a production. -/
structure Ordered (items : List (SortableProductionItem Id)) (sortKey : ProductionSort) : Prop where
  perm : ∀ familyGrouping, (sortProductionItems items sortKey familyGrouping).Perm items
  /-- the order of the items does not matter -/
  canonical : ∀ familyGrouping items', items'.Perm items →
    sortProductionItems items' sortKey familyGrouping =
      sortProductionItems items sortKey familyGrouping
  flat : (sortProductionItems items sortKey false).Pairwise (ComesBefore sortKey)
  undated : sortKey = .primaryDateAsc ∨ sortKey = .primaryDateDesc →
    (sortProductionItems items sortKey false).Pairwise
      fun a b => a.primaryDate = none → b.primaryDate = none
  /-- there are groups, of a single item or of a whole family, in the order of their heads -/
  grouped : ∃ gs : List (Group Id),
    sortProductionItems items sortKey true = gs.flatMap Group.items ∧
    gs.Pairwise (fun g h => ComesBefore sortKey g.head h.head) ∧
    ∀ g ∈ gs, g.head.familyId = none ∧ g.children = [] ∨
      ∃ familyId, g.head.familyId = some familyId ∧ InFamily (membersOf items familyId) g

/-! ## The comparison -/

omit [LinearOrder Id] in
theorem keyComparator_eq_lt {sortKey : ProductionSort} {a b : SortableProductionItem Id} :
    keyComparator sortKey a b = .lt ↔ KeyBefore sortKey a b := by
  have hlt {α : Type} [LinearOrder α] (x y : α) : compareStrings x y = .lt ↔ x < y := by
    rw [compareStrings]
    split_ifs with h h' <;> simp [h]
  cases sortKey with
  | folderFilename =>
    simp [keyComparator, KeyBefore, Ordering.then_eq_lt, hlt, compareStrings_eq]
  | filename => exact hlt _ _
  | primaryDateAsc =>
    rcases ha : a.primaryDate with _ | d <;> rcases hb : b.primaryDate with _ | d' <;>
      simp [keyComparator, KeyBefore, compareNullableDate, Direction.times, ha, hb, hlt]
  | primaryDateDesc =>
    rcases ha : a.primaryDate with _ | d <;> rcases hb : b.primaryDate with _ | d' <;>
      simp [keyComparator, KeyBefore, compareNullableDate, Direction.times, ha, hb,
        ← compareStrings_swap, hlt]
  | custodian => exact hlt _ _
  | evidenceId => simp [keyComparator, KeyBefore]

theorem compareItems_isLE_iff {sortKey : ProductionSort} {a b : SortableProductionItem Id} :
    (compareItems sortKey a b).isLE ↔ ComesBefore sortKey a b := by
  have hswap : keyComparator sortKey b a = (keyComparator sortKey a b).swap :=
    Std.OrientedCmp.eq_swap
  have hle : (compareIds a b).isLE ↔ a.evidenceId ≤ b.evidenceId := compareStrings_isLE
  rw [ComesBefore, ← keyComparator_eq_lt, ← keyComparator_eq_lt, hswap, ← hle, compareItems]
  cases keyComparator sortKey a b <;> simp

/-- What has a date comes before what has none. -/
theorem ComesBefore.undated {sortKey : ProductionSort} {a b : SortableProductionItem Id}
    (hkey : sortKey = .primaryDateAsc ∨ sortKey = .primaryDateDesc) (h : ComesBefore sortKey a b)
    (ha : a.primaryDate = none) : b.primaryDate = none := by
  by_contra hb
  obtain ⟨d, hd⟩ := Option.ne_none_iff_exists'.mp hb
  rcases hkey with rfl | rfl
  · rcases h with ⟨e, he, -⟩ | ⟨hnot, -⟩
    · simp [ha] at he
    · exact hnot ⟨d, hd, by simp [ha]⟩
  · rcases h with ⟨e, he, -⟩ | ⟨hnot, -⟩
    · simp [ha] at he
    · exact hnot ⟨d, hd, by simp [ha]⟩

/-! ## Whatever the order of the items -/

section Canonical

variable {items items' : List (SortableProductionItem Id)} {sortKey : ProductionSort}

omit [LinearOrder Id] in
/-- Sorting forgets the order, where things that compare as equal are equal. -/
theorem sortedBy_congr {α : Type} {cmp : α → α → Ordering} [Std.TransCmp cmp] {xs ys : List α}
    (hperm : xs.Perm ys)
    (hanti : ∀ a ∈ xs, ∀ b ∈ xs, (cmp a b).isLE → (cmp b a).isLE → a = b) :
    sortedBy cmp xs = sortedBy cmp ys := by
  refine List.Perm.eq_of_pairwise ?_ (pairwise_sortedBy cmp xs) (pairwise_sortedBy cmp ys)
    ((sortedBy_perm cmp xs).trans (hperm.trans (sortedBy_perm cmp ys).symm))
  intro a b ha hb hab hba
  exact hanti a ((mem_sortedBy cmp).mp ha) b (hperm.mem_iff.mpr ((mem_sortedBy cmp).mp hb)) hab hba

omit [LinearOrder Id] in
/-- Items with one identifier are one. -/
theorem eq_of_evidenceId (hnodup : (items.map SortableProductionItem.evidenceId).Nodup)
    {a b : SortableProductionItem Id} (ha : a ∈ items) (hb : b ∈ items)
    (h : a.evidenceId = b.evidenceId) : a = b :=
  List.inj_on_of_nodup_map hnodup ha hb h

theorem groupOf_congr (hnodup : (items.map SortableProductionItem.evidenceId).Nodup)
    (hperm : items.Perm items') : groupOf sortKey items = groupOf sortKey items' := by
  have hparents : sortedBy (compareItems sortKey) (items.filter fun m => !m.isFamilyChild) =
      sortedBy (compareItems sortKey) (items'.filter fun m => !m.isFamilyChild) := by
    refine sortedBy_congr (hperm.filter _) fun a ha b hb hab hba => ?_
    exact eq_of_evidenceId hnodup (List.mem_of_mem_filter ha) (List.mem_of_mem_filter hb)
      (compareItems_antisymm hab hba)
  have hchildren : sortedBy compareIds (items.filter fun m => m.isFamilyChild) =
      sortedBy compareIds (items'.filter fun m => m.isFamilyChild) := by
    refine sortedBy_congr (hperm.filter _) fun a ha b hb hab hba => ?_
    exact eq_of_evidenceId hnodup (List.mem_of_mem_filter ha) (List.mem_of_mem_filter hb)
      (le_antisymm (compareStrings_isLE.mp hab) (compareStrings_isLE.mp hba))
  rw [groupOf, groupOf, hparents, hchildren]

/-- The families, under their names. -/
theorem sortFamilies_eq_map (items : List (SortableProductionItem Id)) :
    sortFamilies items =
      ((sortFamilies items).map Prod.fst).map fun f => (f, membersOf items f) := by
  rw [List.map_map]
  conv_lhs => rw [← List.map_id (sortFamilies items)]
  refine List.map_congr_left fun e he => ?_
  exact Prod.ext rfl (mem_sortFamilies.mp he).1

/-- Their groups. -/
theorem filterMap_sortFamilies (items : List (SortableProductionItem Id)) :
    ((sortFamilies items).filterMap fun e => groupOf sortKey e.2) =
      ((sortFamilies items).map Prod.fst).filterMap fun f =>
        groupOf sortKey (membersOf items f) := by
  conv_lhs => rw [sortFamilies_eq_map items]
  rw [List.filterMap_map]
  rfl

theorem mem_keys_sortFamilies {familyId : Id} :
    familyId ∈ (sortFamilies items).map Prod.fst ↔ membersOf items familyId ≠ [] := by
  rw [List.mem_map]
  refine ⟨?_, fun h => ⟨(familyId, membersOf items familyId), mem_sortFamilies.mpr ⟨rfl, h⟩, rfl⟩⟩
  rintro ⟨⟨f, members⟩, hmem, rfl⟩
  obtain ⟨rfl, h⟩ := mem_sortFamilies.mp hmem
  exact h

theorem nodup_keys_sortFamilies : ((sortFamilies items).map Prod.fst).Nodup := by
  rw [sortFamilies, JsMap.keys_group]
  exact nodup_distinct _

/-- The groups are the same, in some order. -/
theorem groups_perm (hnodup : (items.map SortableProductionItem.evidenceId).Nodup)
    (hperm : items.Perm items') : (groups sortKey items).Perm (groups sortKey items') := by
  have hmembers (f : Id) : (membersOf items f).Perm (membersOf items' f) := hperm.filter _
  have hkeys : ((sortFamilies items).map Prod.fst).Perm ((sortFamilies items').map Prod.fst) := by
    rw [List.perm_ext_iff_of_nodup nodup_keys_sortFamilies nodup_keys_sortFamilies]
    intro f
    rw [mem_keys_sortFamilies, mem_keys_sortFamilies, ne_eq, ne_eq,
      ← List.length_eq_zero_iff, ← List.length_eq_zero_iff, (hmembers f).length_eq]
  have hgroup (f : Id) :
      groupOf sortKey (membersOf items f) = groupOf sortKey (membersOf items' f) :=
    groupOf_congr (hnodup.sublist (List.filter_sublist.map _)) (hmembers f)
  rw [groups, groups, filterMap_sortFamilies, filterMap_sortFamilies]
  refine List.Perm.append ((hperm.filter _).map _) ?_
  rw [List.filterMap_congr fun f _ => hgroup f]
  exact hkeys.filterMap _

/-- An item has the family of its group. -/
theorem mem_groups {g : Group Id} :
    g ∈ groups sortKey items ↔
      (∃ item ∈ items, item.familyId = none ∧ g = ⟨item, []⟩) ∨
        ∃ familyId, membersOf items familyId ≠ [] ∧
          groupOf sortKey (membersOf items familyId) = some g := by
  rw [groups, List.mem_append, List.mem_map, List.mem_filterMap]
  refine or_congr ?_ ?_
  · constructor
    · rintro ⟨item, hitem, rfl⟩
      obtain ⟨hitem, hnone⟩ := List.mem_filter.mp hitem
      exact ⟨item, hitem, of_decide_eq_true hnone, rfl⟩
    · rintro ⟨item, hitem, hnone, rfl⟩
      exact ⟨item, List.mem_filter.mpr ⟨hitem, decide_eq_true hnone⟩, rfl⟩
  · constructor
    · rintro ⟨⟨f, members⟩, hmem, hg⟩
      obtain ⟨rfl, h⟩ := mem_sortFamilies.mp hmem
      exact ⟨f, h, hg⟩
    · rintro ⟨f, h, hg⟩
      exact ⟨(f, membersOf items f), mem_sortFamilies.mpr ⟨rfl, h⟩, hg⟩

/-- The head of the group of a family is one of its members. -/
theorem head_mem {familyId : Id} {g : Group Id} (h : membersOf items familyId ≠ [])
    (hg : groupOf sortKey (membersOf items familyId) = some g) :
    g.head ∈ items ∧ g.head.familyId = some familyId := by
  obtain ⟨g', hg', hitems⟩ := groupOf_spec sortKey h
  obtain rfl := Option.some.inj (hg.symm.trans hg')
  have hmem : g.head ∈ g.items := List.mem_cons_self
  rw [hitems, (inOrder_perm sortKey _).mem_iff] at hmem
  obtain ⟨hmem, hfamily⟩ := List.mem_filter.mp hmem
  exact ⟨hmem, of_decide_eq_true hfamily⟩

/-- Groups with one head are one. -/
theorem eq_of_head (hnodup : (items.map SortableProductionItem.evidenceId).Nodup) {g h : Group Id}
    (hg : g ∈ groups sortKey items) (hh : h ∈ groups sortKey items)
    (heq : g.head.evidenceId = h.head.evidenceId) : g = h := by
  rcases mem_groups.mp hg with ⟨a, ha, hnone, rfl⟩ | ⟨f, hf, hg⟩
  · rcases mem_groups.mp hh with ⟨b, hb, -, rfl⟩ | ⟨f, hf, hh⟩
    · rw [eq_of_evidenceId hnodup ha hb heq]
    · obtain ⟨hmem, hfamily⟩ := head_mem hf hh
      rw [← eq_of_evidenceId hnodup ha hmem heq, hnone] at hfamily
      cases hfamily
  · obtain ⟨hmem, hfamily⟩ := head_mem hf hg
    rcases mem_groups.mp hh with ⟨b, hb, hnone, rfl⟩ | ⟨f', hf', hh⟩
    · rw [eq_of_evidenceId hnodup hmem hb heq, hnone] at hfamily
      cases hfamily
    · obtain ⟨hmem', hfamily'⟩ := head_mem hf' hh
      rw [eq_of_evidenceId hnodup hmem hmem' heq, hfamily'] at hfamily
      obtain rfl := Option.some.inj hfamily
      exact Option.some.inj (hg.symm.trans hh)

instance compareHeadsTrans (sortKey : ProductionSort) :
    Std.TransCmp fun g h : Group Id => compareItems sortKey g.head h.head :=
  transCmp_on (compareItems sortKey) Group.head

/-- **The result does not depend on the order of the items.** -/
theorem sortProductionItems_congr (hnodup : (items.map SortableProductionItem.evidenceId).Nodup)
    (hperm : items.Perm items') (familyGrouping : Bool) :
    sortProductionItems items sortKey familyGrouping =
      sortProductionItems items' sortKey familyGrouping := by
  cases familyGrouping with
  | false =>
    refine sortedBy_congr hperm fun a ha b hb hab hba => ?_
    exact eq_of_evidenceId hnodup ha hb (compareItems_antisymm hab hba)
  | true =>
    refine congrArg (List.flatMap Group.items) (sortedBy_congr (groups_perm hnodup hperm) ?_)
    exact fun g hg h hh hgh hhg => eq_of_head hnodup hg hh (compareItems_antisymm hgh hhg)

/-- How a family stands in its group. -/
theorem inFamily_groupOf (hnodup : (items.map SortableProductionItem.evidenceId).Nodup)
    {familyId : Id} {g : Group Id} (h : membersOf items familyId ≠ [])
    (hg : groupOf sortKey (membersOf items familyId) = some g) :
    InFamily (membersOf items familyId) g := by
  obtain ⟨g', hg', hitems⟩ := groupOf_spec sortKey h
  obtain rfl := Option.some.inj (hg.symm.trans hg')
  have hhead : g.items.head? = some g.head := rfl
  refine ⟨hitems ▸ inOrder_perm sortKey _, ?_, _, _, hitems, ?_, ?_, ?_⟩
  · rintro ⟨m, hm, hparent⟩
    rw [hitems, inOrder] at hhead
    have hmem : m ∈ sortedBy (compareItems sortKey)
        ((membersOf items familyId).filter fun m => !m.isFamilyChild) := by
      simp [hm, hparent]
    rcases hsorted : sortedBy (compareItems sortKey)
        ((membersOf items familyId).filter fun m => !m.isFamilyChild) with _ | ⟨p, rest⟩
    · rw [hsorted] at hmem
      exact absurd hmem List.not_mem_nil
    · rw [hsorted, List.cons_append, List.head?_cons] at hhead
      have hp : p ∈ sortedBy (compareItems sortKey)
          ((membersOf items familyId).filter fun m => !m.isFamilyChild) := by
        rw [hsorted]
        exact List.mem_cons_self
      rw [← Option.some.inj hhead]
      simpa using (List.mem_filter.mp ((mem_sortedBy _).mp hp)).2
  · intro m hm
    simpa using (List.mem_filter.mp ((mem_sortedBy _).mp hm)).2
  · intro m hm
    simpa using (List.mem_filter.mp ((mem_sortedBy _).mp hm)).2
  · have hle := pairwise_sortedBy compareIds
      ((membersOf items familyId).filter fun m => m.isFamilyChild)
    have hdistinct : ((sortedBy compareIds ((membersOf items familyId).filter
        fun m => m.isFamilyChild)).map SortableProductionItem.evidenceId).Nodup := by
      refine ((sortedBy_perm _ _).map _).nodup_iff.mpr (hnodup.sublist ?_)
      exact (List.filter_sublist.trans List.filter_sublist).map _
    refine (hle.and (List.pairwise_map.mp hdistinct)).imp ?_
    rintro a b ⟨hab, hne⟩
    exact lt_of_le_of_ne (compareStrings_isLE.mp hab) hne

/-- **The order of a production** is what is promised. -/
theorem sortProductionItems_ordered
    (hnodup : (items.map SortableProductionItem.evidenceId).Nodup) : Ordered items sortKey := by
  have hflat : (sortProductionItems items sortKey false).Pairwise (ComesBefore sortKey) :=
    (pairwise_sortProductionItems items sortKey).imp compareItems_isLE_iff.mp
  refine ⟨sortProductionItems_perm items sortKey, fun familyGrouping items' hperm =>
    (sortProductionItems_congr hnodup hperm.symm familyGrouping).symm, hflat,
    fun hkey => hflat.imp fun h => h.undated hkey, _, rfl, ?_, ?_⟩
  · exact (pairwise_sortedBy _ _).imp compareItems_isLE_iff.mp
  · intro g hg
    rcases mem_groups.mp ((mem_sortedBy _).mp hg) with ⟨item, -, hnone, rfl⟩ | ⟨f, hf, hg⟩
    · exact .inl ⟨hnone, rfl⟩
    · exact .inr ⟨f, (head_mem hf hg).2, inFamily_groupOf hnodup hf hg⟩

end Canonical

end Order

/-- A child whose family is named after an item that comes later, and an item of its own. -/
def orphaned : List (SortableProductionItem ℕ) :=
  [⟨2, js "b", [], none, none, some 3, true⟩,
    ⟨3, js "c", [], some (js "2020"), none, some 3, false⟩,
    ⟨1, js "a", [], none, none, none, false⟩]

/-- Of three items. -/
theorem sortProductionItems_ordered_three : Ordered orphaned .primaryDateDesc ∧
    (sortProductionItems orphaned .primaryDateDesc true).map SortableProductionItem.evidenceId =
      [3, 2, 1] :=
  ⟨sortProductionItems_ordered (by decide), by decide⟩

end AegCloudDfir.Production
