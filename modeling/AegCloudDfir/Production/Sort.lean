import AegCloudDfir.Production.Tables

/-!
# The order of a production

`packages/production/src/sort.ts`. Without family grouping every item is sorted by the key
of the production and then by its identifier. With it the items of a family stand together
behind their head, and it is the heads that are sorted.

* `sortProductionItems_perm` — sorting loses nothing.
* `pairwise_sortProductionItems` — the order without family grouping.
* `family_consecutive` — with it a family is a segment of the result, those that are nobody's
  child first.
-/

namespace AegCloudDfir.Production

/-- `SortableProductionItem` -/
structure SortableProductionItem (Id : Type) where
  evidenceId : Id
  fileName : JsString
  folderPath : JsString
  primaryDate : Option JsString
  custodian : Option JsString
  familyId : Option Id
  isFamilyChild : Bool

section Compare

variable {α : Type} [LinearOrder α]

/-- `compareStrings` -/
def compareStrings (a b : α) : Ordering := if a < b then .lt else if b < a then .gt else .eq

@[simp] theorem compareStrings_isLE {a b : α} : (compareStrings a b).isLE ↔ a ≤ b := by
  rw [compareStrings]
  rcases lt_trichotomy a b with h | rfl | h
  · simp [h, h.le]
  · simp
  · simp [h, h.not_gt, h.not_ge]

theorem compareStrings_swap (a b : α) : compareStrings a b = (compareStrings b a).swap := by
  rw [compareStrings, compareStrings]
  rcases lt_trichotomy a b with h | rfl | h
  · simp [h, h.not_gt]
  · simp
  · simp [h, h.not_gt]

instance compareStringsTrans : Std.TransCmp (compareStrings : α → α → Ordering) where
  eq_swap := compareStrings_swap _ _
  isLE_trans h h' := compareStrings_isLE.mpr
    ((compareStrings_isLE.mp h).trans (compareStrings_isLE.mp h'))

theorem compareStrings_eq {a b : α} : compareStrings a b = .eq ↔ a = b := by
  rw [compareStrings]
  rcases lt_trichotomy a b with h | rfl | h
  · simp [h, h.ne]
  · simp
  · simp [h, h.not_gt, h.ne']

/-- `direction` -/
inductive Direction : Type where
  | ascending
  | descending

/-- `direction * compareStrings(a, b)` -/
def Direction.times : Direction → Ordering → Ordering
  | .ascending, o => o
  | .descending, o => o.swap

/-- `compareNullableDate`: what has no date comes last in either direction. -/
def compareNullableDate (direction : Direction) : Option JsString → Option JsString → Ordering
  | none, none => .eq
  | none, some _ => .gt
  | some _, none => .lt
  | some a, some b => direction.times (compareStrings a b)

instance compareNullableDateTrans (direction : Direction) :
    Std.TransCmp (compareNullableDate direction) where
  eq_swap {a b} := by
    rcases a with _ | a <;> rcases b with _ | b
    · rfl
    · rfl
    · rfl
    · cases direction
      · exact compareStrings_swap a b
      · exact congrArg Ordering.swap (compareStrings_swap a b)
  isLE_trans {a b c} hab hbc := by
    -- nothing but what has no date comes after it
    rcases a with _ | a <;> rcases b with _ | b <;> rcases c with _ | c
    · rfl
    · cases hbc
    · rfl
    · cases hab
    · rfl
    · cases hbc
    · rfl
    · cases direction
      · exact @Std.TransCmp.isLE_trans _ compareStrings _ _ _ _ hab hbc
      · rw [compareNullableDate, Direction.times, ← compareStrings_swap] at *
        exact @Std.TransCmp.isLE_trans _ compareStrings _ _ _ _ hbc hab

end Compare

section Sorter

variable {Id : Type} [LinearOrder Id]

/-- `keyComparator` -/
def keyComparator : ProductionSort →
    SortableProductionItem Id → SortableProductionItem Id → Ordering
  | .folderFilename => fun a b =>
    (compareStrings a.folderPath b.folderPath).then (compareStrings a.fileName b.fileName)
  | .filename => fun a b => compareStrings a.fileName b.fileName
  | .primaryDateAsc => fun a b => compareNullableDate .ascending a.primaryDate b.primaryDate
  | .primaryDateDesc => fun a b => compareNullableDate .descending a.primaryDate b.primaryDate
  | .custodian => fun a b => compareStrings (a.custodian.getD []) (b.custodian.getD [])
  | .evidenceId => fun _ _ => .eq

/-- `compareStrings(a.evidenceId, b.evidenceId)` -/
def compareIds (a b : SortableProductionItem Id) : Ordering :=
  compareStrings a.evidenceId b.evidenceId

/-- `compare`: ties are broken by the identifier. -/
def compareItems (sortKey : ProductionSort) (a b : SortableProductionItem Id) : Ordering :=
  (keyComparator sortKey a b).then (compareIds a b)

/-- `Group` -/
structure Group (Id : Type) where
  head : SortableProductionItem Id
  children : List (SortableProductionItem Id)

/-- `[g.head, ...g.children]` -/
def Group.items (g : Group Id) : List (SortableProductionItem Id) := g.head :: g.children

/-- The group of the members of a family. -/
def groupOf (sortKey : ProductionSort) (members : List (SortableProductionItem Id)) :
    Option (Group Id) :=
  let parents := sortedBy (compareItems sortKey) (members.filter fun m => !m.isFamilyChild)
  let children := sortedBy compareIds (members.filter fun m => m.isFamilyChild)
  match parents with
  | [] =>
    match children with
    | [] => none
    | head :: rest => some ⟨head, rest⟩
  | head :: extraParents => some ⟨head, extraParents ++ children⟩

/-- `families` of the sorter. -/
def sortFamilies (items : List (SortableProductionItem Id)) :
    JsMap Id (List (SortableProductionItem Id)) :=
  JsMap.group (items.filterMap fun item => item.familyId.map fun familyId => (familyId, item))

/-- `groups`, before they are sorted: the items without a family, and the families. -/
def groups (sortKey : ProductionSort) (items : List (SortableProductionItem Id)) :
    List (Group Id) :=
  ((items.filter fun item => item.familyId = none).map fun item => ⟨item, []⟩) ++
    (sortFamilies items).filterMap fun e => groupOf sortKey e.2

/-- `sortProductionItems` -/
def sortProductionItems (items : List (SortableProductionItem Id)) (sortKey : ProductionSort)
    (familyGrouping : Bool) : List (SortableProductionItem Id) :=
  if !familyGrouping then sortedBy (compareItems sortKey) items
  else
    (sortedBy (fun a b => compareItems sortKey a.head b.head) (groups sortKey items)).flatMap
      Group.items

/-! ## The comparison -/

omit [LinearOrder Id] in
/-- Things compare as what is read off them. -/
theorem transCmp_on {α β : Type} (cmp : β → β → Ordering) [Std.TransCmp cmp] (f : α → β) :
    Std.TransCmp fun a b => cmp (f a) (f b) where
  eq_swap {a b} := @Std.OrientedCmp.eq_swap _ cmp _ (f a) (f b)
  isLE_trans {a b c} := @Std.TransCmp.isLE_trans _ cmp _ (f a) (f b) (f c)

instance compareIdsTrans :
    Std.TransCmp (compareIds : SortableProductionItem Id → SortableProductionItem Id → Ordering) :=
  transCmp_on compareStrings SortableProductionItem.evidenceId

instance keyComparatorTrans (sortKey : ProductionSort) :
    Std.TransCmp (keyComparator sortKey :
      SortableProductionItem Id → SortableProductionItem Id → Ordering) := by
  cases sortKey with
  | folderFilename =>
    have hpath : Std.TransCmp fun a b : SortableProductionItem Id =>
        compareStrings a.folderPath b.folderPath := transCmp_on compareStrings _
    have hname : Std.TransCmp fun a b : SortableProductionItem Id =>
        compareStrings a.fileName b.fileName := transCmp_on compareStrings _
    exact inferInstanceAs (Std.TransCmp (compareLex
      (fun a b : SortableProductionItem Id => compareStrings a.folderPath b.folderPath)
      (fun a b => compareStrings a.fileName b.fileName)))
  | filename => exact transCmp_on compareStrings SortableProductionItem.fileName
  | primaryDateAsc =>
    exact transCmp_on (compareNullableDate .ascending) SortableProductionItem.primaryDate
  | primaryDateDesc =>
    exact transCmp_on (compareNullableDate .descending) SortableProductionItem.primaryDate
  | custodian =>
    exact transCmp_on compareStrings fun a : SortableProductionItem Id => a.custodian.getD []
  | evidenceId =>
    exact
      { eq_swap := rfl
        isLE_trans := fun _ _ => rfl }

instance compareItemsTrans (sortKey : ProductionSort) :
    Std.TransCmp (compareItems sortKey :
      SortableProductionItem Id → SortableProductionItem Id → Ordering) :=
  inferInstanceAs (Std.TransCmp (compareLex (keyComparator sortKey) compareIds))

/-- Items compare as equal only if they have one identifier. -/
theorem compareItems_antisymm {sortKey : ProductionSort} {a b : SortableProductionItem Id}
    (hab : (compareItems sortKey a b).isLE) (hba : (compareItems sortKey b a).isLE) :
    a.evidenceId = b.evidenceId := by
  have heq : compareItems sortKey a b = .eq := Std.OrientedCmp.isLE_antisymm hab hba
  exact compareStrings_eq.mp (Ordering.then_eq_eq.mp heq).2

/-! ## Groups -/

/-- The members of a family in their order: those that are nobody's child come first. -/
def inOrder (sortKey : ProductionSort) (members : List (SortableProductionItem Id)) :
    List (SortableProductionItem Id) :=
  sortedBy (compareItems sortKey) (members.filter fun m => !m.isFamilyChild) ++
    sortedBy compareIds (members.filter fun m => m.isFamilyChild)

theorem inOrder_perm (sortKey : ProductionSort) (members : List (SortableProductionItem Id)) :
    (inOrder sortKey members).Perm members := by
  have hsplit := List.filter_append_perm (fun m : SortableProductionItem Id => !m.isFamilyChild)
    members
  simp only [Bool.not_not] at hsplit
  exact ((sortedBy_perm _ _).append (sortedBy_perm _ _)).trans hsplit

/-- **A group has the members of its family**, in their order. -/
theorem groupOf_spec (sortKey : ProductionSort) {members : List (SortableProductionItem Id)}
    (h : members ≠ []) :
    ∃ g, groupOf sortKey members = some g ∧ g.items = inOrder sortKey members := by
  rw [groupOf, inOrder]
  rcases hparents : sortedBy (compareItems sortKey) (members.filter fun m => !m.isFamilyChild) with
    _ | ⟨head, extraParents⟩
  · rcases hchildren : sortedBy compareIds (members.filter fun m => m.isFamilyChild) with
      _ | ⟨head, rest⟩
    · have hnil : inOrder sortKey members = [] := by rw [inOrder, hparents, hchildren]; rfl
      have hperm := inOrder_perm sortKey members
      rw [hnil] at hperm
      exact absurd hperm.nil_eq.symm h
    · exact ⟨_, rfl, rfl⟩
  · exact ⟨_, rfl, rfl⟩

/-- **Who comes first of a family**: the item the family is named after, if it is nobody's
child; among children only the one with the least identifier. -/
theorem head_inOrder {sortKey : ProductionSort} {members : List (SortableProductionItem Id)}
    {familyId : Id} {isChild : Id → Bool}
    (hchild : ∀ m ∈ members, m.isFamilyChild = isChild m.evidenceId)
    (hself : ∀ m ∈ members, m.isFamilyChild = false → m.evidenceId = familyId) {root : Id} :
    (inOrder sortKey members).head?.map SortableProductionItem.evidenceId = some root ↔
      (∃ m ∈ members, m.evidenceId = root) ∧
        (isChild root → ∀ m ∈ members, isChild m.evidenceId ∧ root ≤ m.evidenceId) := by
  rw [inOrder]
  rcases hparents : sortedBy (compareItems sortKey) (members.filter fun m => !m.isFamilyChild) with
    _ | ⟨p, extraParents⟩
  · -- children only
    have hall : ∀ m ∈ members, m.isFamilyChild = true := by
      intro m hm
      by_contra hnot
      have hmem : m ∈ sortedBy (compareItems sortKey) (members.filter fun m => !m.isFamilyChild) := by
        simpa [hm] using hnot
      rw [hparents] at hmem
      exact List.not_mem_nil hmem
    have hmem : ∀ m, m ∈ sortedBy compareIds (members.filter fun m => m.isFamilyChild) ↔
        m ∈ members := by
      intro m
      rw [mem_sortedBy, List.mem_filter]
      exact and_iff_left_of_imp (hall m)
    have horder := pairwise_sortedBy compareIds (members.filter fun m => m.isFamilyChild)
    rcases hchildren : sortedBy compareIds (members.filter fun m => m.isFamilyChild) with
      _ | ⟨e, rest⟩
    · rw [hchildren] at hmem
      refine iff_of_false (by simp) ?_
      rintro ⟨⟨m, hm, -⟩, -⟩
      exact List.not_mem_nil ((hmem m).mpr hm)
    · rw [hchildren] at hmem horder
      have he : e ∈ members := (hmem e).mp (List.mem_cons_self ..)
      have hle : ∀ m ∈ members, e.evidenceId ≤ m.evidenceId := by
        intro m hm
        rcases List.mem_cons.mp ((hmem m).mpr hm) with rfl | hm
        · exact le_rfl
        · exact compareStrings_isLE.mp ((List.pairwise_cons.mp horder).1 m hm)
      simp only [List.nil_append, List.head?_cons, Option.map_some, Option.some.injEq]
      refine ⟨?_, ?_⟩
      · rintro rfl
        exact ⟨⟨e, he, rfl⟩, fun _ m hm => ⟨hchild m hm ▸ hall m hm, hle m hm⟩⟩
      · rintro ⟨⟨m, hm, rfl⟩, hleast⟩
        exact le_antisymm (hle m hm) (hleast (hchild m hm ▸ hall m hm) e he).2
  · have hp : p ∈ members ∧ p.isFamilyChild = false := by
      have hmem : p ∈ sortedBy (compareItems sortKey) (members.filter fun m => !m.isFamilyChild) := by
        rw [hparents]
        exact List.mem_cons_self ..
      simpa using hmem
    simp only [List.cons_append, List.head?_cons, Option.map_some, Option.some.injEq]
    refine ⟨?_, ?_⟩
    · rintro rfl
      refine ⟨⟨p, hp.1, rfl⟩, fun h => ?_⟩
      rw [← hchild p hp.1, hp.2] at h
      cases h
    · rintro ⟨⟨m, hm, rfl⟩, hleast⟩
      rcases hm' : m.isFamilyChild with _ | _
      · rw [hself m hm hm', hself p hp.1 hp.2]
      · have hpchild := (hleast (hchild m hm ▸ hm') p hp.1).1
        rw [← hchild p hp.1, hp.2] at hpchild
        cases hpchild

variable {items : List (SortableProductionItem Id)} {sortKey : ProductionSort}

/-- The items of a family. -/
def membersOf (items : List (SortableProductionItem Id)) (familyId : Id) :
    List (SortableProductionItem Id) :=
  items.filter fun m => m.familyId = some familyId

theorem valuesAt_familyIds (familyId : Id) :
    JsMap.valuesAt (items.filterMap fun item => item.familyId.map fun f => (f, item)) familyId =
      membersOf items familyId := by
  induction items with
  | nil => rfl
  | cons item items ih =>
    rcases hf : item.familyId with _ | f
    · simpa [hf, membersOf] using ih
    · by_cases hff : f = familyId
      · simpa [hf, JsMap.valuesAt, hff, membersOf] using ih
      · simpa [hf, JsMap.valuesAt, hff, membersOf] using ih

theorem mem_sortFamilies {familyId : Id} {members : List (SortableProductionItem Id)} :
    (familyId, members) ∈ sortFamilies items ↔
      members = membersOf items familyId ∧ members ≠ [] := by
  rw [sortFamilies, JsMap.mem_group_iff, valuesAt_familyIds]

/-- The groups of the families have their members. -/
theorem flatMap_families (families : List (Id × List (SortableProductionItem Id)))
    (h : ∀ e ∈ families, e.2 ≠ []) :
    ((families.filterMap fun e => groupOf sortKey e.2).flatMap Group.items) =
      families.flatMap fun e => inOrder sortKey e.2 := by
  induction families with
  | nil => rfl
  | cons e families ih =>
    obtain ⟨he, hrest⟩ := List.forall_mem_cons.mp h
    obtain ⟨g, hg, hitems⟩ := groupOf_spec sortKey he
    have hcons : (e :: families).filterMap (fun e => groupOf sortKey e.2) =
        g :: families.filterMap fun e => groupOf sortKey e.2 := List.filterMap_cons_some hg
    rw [hcons, List.flatMap_cons, List.flatMap_cons, ih hrest, hitems]

omit [LinearOrder Id] in
/-- Items without a family and items of families are all the items. -/
theorem standalone_families_perm (items : List (SortableProductionItem Id)) :
    ((items.filter fun item => item.familyId = none) ++
      (items.filterMap fun item => item.familyId.map fun f => (f, item)).map Prod.snd).Perm items := by
  have hsnd : (items.filterMap fun item => item.familyId.map fun f => (f, item)).map Prod.snd =
      items.filter fun item => !decide (item.familyId = none) := by
    induction items with
    | nil => rfl
    | cons item items ih =>
      rcases hf : item.familyId with _ | f
      · simpa [hf] using ih
      · simpa [hf] using ih
  rw [hsnd]
  exact List.filter_append_perm _ items

/-- **Sorting loses no item and adds none.** -/
theorem sortProductionItems_perm (items : List (SortableProductionItem Id))
    (sortKey : ProductionSort) (familyGrouping : Bool) :
    (sortProductionItems items sortKey familyGrouping).Perm items := by
  rw [sortProductionItems]
  split_ifs with hflat
  · exact sortedBy_perm _ _
  · apply ((sortedBy_perm _ _).flatMap_right _).trans
    have hne : ∀ e ∈ sortFamilies items, e.2 ≠ [] := fun e he => (mem_sortFamilies.mp he).2
    have hstandalone : ((items.filter fun item => item.familyId = none).map
        fun item => (⟨item, []⟩ : Group Id)).flatMap Group.items =
          items.filter fun item => item.familyId = none := by
      rw [List.flatMap_map]
      exact List.flatMap_singleton' _
    have hinOrder : ((sortFamilies items).flatMap fun e => inOrder sortKey e.2).Perm
        ((sortFamilies items).flatMap Prod.snd) :=
      List.Perm.flatMap_left _ fun e _ => inOrder_perm sortKey e.2
    rw [groups, List.flatMap_append, hstandalone, flatMap_families _ hne]
    exact ((hinOrder.trans (JsMap.flatMap_group_perm _)).append_left _).trans
      (standalone_families_perm items)

/-- **Without family grouping** the items are in the order of the comparison. -/
theorem pairwise_sortProductionItems (items : List (SortableProductionItem Id))
    (sortKey : ProductionSort) :
    (sortProductionItems items sortKey false).Pairwise
      fun a b => (compareItems sortKey a b).isLE := by
  rw [sortProductionItems, if_pos (by rfl)]
  exact pairwise_sortedBy _ _

/-- **With family grouping** the items of a family stand together, in their order. -/
theorem family_consecutive {familyId : Id} (h : membersOf items familyId ≠ []) :
    ∃ before after, sortProductionItems items sortKey true =
      before ++ inOrder sortKey (membersOf items familyId) ++ after := by
  obtain ⟨g, hg, hitems⟩ := groupOf_spec sortKey h
  rw [sortProductionItems, if_neg (by simp)]
  have hmem : g ∈ sortedBy (fun a b => compareItems sortKey a.head b.head)
      (groups sortKey items) := by
    rw [mem_sortedBy, groups, List.mem_append, List.mem_filterMap]
    exact .inr ⟨(familyId, _), mem_sortFamilies.mpr ⟨rfl, h⟩, hg⟩
  obtain ⟨before, after, heq⟩ := List.append_of_mem hmem
  refine ⟨before.flatMap Group.items, after.flatMap Group.items, ?_⟩
  rw [heq, List.flatMap_append, List.flatMap_cons, hitems, List.append_assoc]

end Sorter

end AegCloudDfir.Production
