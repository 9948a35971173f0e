import AegCloudDfir.Production.Families
import AegCloudDfir.Production.Sort

/-!
# Attachment ranges

The part of `processProductionRun` (`apps/worker/src/processors/production-run.ts`) that
decides where the documents of a family stand and from where to where its attachment range
goes. An item belongs to its first recorded parent, and to itself if it has children and no
parent. Rendering is not modelled: `pages` says how many pages an item comes out with.

The range of a family is the range of the documents with one family identifier, which is the
identifier of a parent and not of a root, and it goes from the first of them to the last
whatever stands between. `familiesRanged_iff` says when these are the ranges of the families
of a graph, be it that of the relationships of the tenant or that of those between selected
items: grouped, if families are flat; ungrouped, if nothing else is sorted between the
members of a family.
-/

namespace AegCloudDfir.Production

open Walk Relation

section Run

variable {Id : Type} [LinearOrder Id]

/-- `item.childRelationships.find((r) => isFamilyRelationshipKind(r.kind))` -/
def parentRel (tables : Tables Id) (id : Id) : Option (Relationship Id) :=
  (tables.relationships.filter fun rel => rel.childId = id).find? fun rel =>
    isFamilyRelationshipKind rel.kind

/-- `item.parentRelationships.some((r) => isFamilyRelationshipKind(r.kind))` -/
def hasChildren (tables : Tables Id) (id : Id) : Bool :=
  (tables.relationships.filter fun rel => rel.parentId = id).any fun rel =>
    isFamilyRelationshipKind rel.kind

/-- `familyId` -/
def familyIdOf (tables : Tables Id) (id : Id) : Option Id :=
  match parentRel tables id with
  | some rel => some rel.parentId
  | none => if hasChildren tables id then some id else none

/-- `isFamilyChild` -/
def isFamilyChild (tables : Tables Id) (id : Id) : Bool := (parentRel tables id).isSome

/-- An entry of `sortable`. -/
def sortableOf (tables : Tables Id) (item : EvidenceItem Id) : SortableProductionItem Id where
  evidenceId := item.id
  fileName := item.name
  folderPath := item.sourcePath
  primaryDate := item.primaryDate
  custodian := item.custodian
  familyId := familyIdOf tables item.id
  isFamilyChild := isFamilyChild tables item.id

/-- `ProducedDraft` -/
structure ProducedDraft (Id : Type) where
  evidenceItemId : Id
  sortIndex : ℕ
  begBates : JsString
  endBates : JsString
  begAttach : JsString
  endAttach : JsString
  pageCount : ℕ
  familyId : Option Id
  deriving DecidableEq

/-- The loop over the sorted items. -/
def produce (pages : Id → ℕ) : BatesCounter → ℕ → List (SortableProductionItem Id) →
    Except BatesError (List (ProducedDraft Id))
  | _, _, [] => .ok []
  | counter, sortIndex, entry :: rest => do
    let (bates, after) ← counter.nextDocument (pages entry.evidenceId)
    let drafts ← produce pages after (sortIndex + 1) rest
    .ok ({ evidenceItemId := entry.evidenceId
           sortIndex
           begBates := bates.begBates
           endBates := bates.endBates
           begAttach := []
           endAttach := []
           pageCount := pages entry.evidenceId
           familyId := entry.familyId } :: drafts)

/-- `familyGroups` -/
def familyGroups (produced : List (ProducedDraft Id)) : JsMap Id (List (ProducedDraft Id)) :=
  JsMap.group (produced.filterMap fun draft => draft.familyId.map fun familyId => (familyId, draft))

/-- The attachment range of a group: none for a single document. -/
def attachRange (group : List (ProducedDraft Id)) : JsString × JsString :=
  if group.length < 2 then ([], [])
  else ((group.head?.map ProducedDraft.begBates).getD [],
    (group.getLast?.map ProducedDraft.endBates).getD [])

/-- What the loop over the groups does to a draft. -/
def attach (groups : JsMap Id (List (ProducedDraft Id))) (draft : ProducedDraft Id) :
    ProducedDraft Id :=
  match draft.familyId.bind groups.get? with
  | none => draft
  | some group =>
    if group.length < 2 then draft
    else { draft with begAttach := (attachRange group).1, endAttach := (attachRange group).2 }

/-- The documents of a run, numbered from the start of its reservation. -/
def processProductionRun (tables : Tables Id) (ids : List Id)
    (parameters : ProductionParameters Id) (startNumber : ℕ) (pages : Id → ℕ) :
    Except BatesError (List (ProducedDraft Id)) := do
  let items := itemRows tables ids
  let sorted := sortProductionItems (items.map (sortableOf tables)) parameters.sort
    parameters.selection.includeFamilies
  let counter ← BatesCounter.new parameters.bates.style parameters.bates.numbering startNumber
  let produced ← produce pages counter 0 sorted
  .ok (produced.map (attach (familyGroups produced)))

/-! ## Families and their ranges -/

/-- The item is found when the run loads its selection. -/
def Found (tables : Tables Id) (ids : List Id) (id : Id) : Prop :=
  id ∈ (itemRows tables ids).map EvidenceItem.id

/-- The family below an item in a graph. -/
abbrev Family (link : Id → Id → Prop) : Id → Id → Prop := ReflTransGen link

/-- An item of the run with no item of the run above it. -/
def IsRoot (link : Id → Id → Prop) (tables : Tables Id) (ids : List Id) (root : Id) : Prop :=
  Found tables ids root ∧ ∀ a, Found tables ids a → ¬ TransGen link a root

/-- The documents of a family stand together, the root first, and have the range of exactly
these documents. -/
def Adjacent (link : Id → Id → Prop) (produced : List (ProducedDraft Id)) (root : Id) : Prop :=
  ∃ before family after, produced = before ++ family ++ after ∧
    family.head?.map ProducedDraft.evidenceItemId = some root ∧
    (∀ d ∈ produced, d ∈ family ↔ Family link root d.evidenceItemId) ∧
    ∀ d ∈ family, (d.begAttach, d.endAttach) = attachRange family

/-- The attachment range of `d` covers `e`. -/
def Covers (produced : List (ProducedDraft Id)) (d e : ProducedDraft Id) : Prop :=
  ∃ first ∈ produced, ∃ last ∈ produced,
    first.begBates = d.begAttach ∧ last.endBates = d.endAttach ∧
      first.sortIndex ≤ e.sortIndex ∧ e.sortIndex ≤ last.sortIndex

/-- Families are adjacent where they are asked for, and otherwise a range covers nothing
outside the family. -/
def FamiliesRanged (link : Id → Id → Prop) (tables : Tables Id) (ids : List Id)
    (parameters : ProductionParameters Id) (produced : List (ProducedDraft Id)) : Prop :=
  (parameters.selection.includeFamilies = true →
    ∀ root, IsRoot link tables ids root → Adjacent link produced root) ∧
  (parameters.selection.includeFamilies = false →
    ∀ d ∈ produced, ∀ e ∈ produced, d.begAttach ≠ [] → Covers produced d e →
      EqvGen link d.evidenceItemId e.evidenceItemId)

/-- The family of a root is what has its family identifier, and the root comes first of that:
a root that is itself recorded as a child has the least identifier, and everything in its
family is recorded as a child. -/
def Flat (link : Id → Id → Prop) (tables : Tables Id) (ids : List Id) (root : Id) : Prop :=
  (∀ x, Found tables ids x → (Family link root x ↔
    x = root ∨ familyIdOf tables root ≠ none ∧ familyIdOf tables x = familyIdOf tables root)) ∧
  (isFamilyChild tables root → ∀ x, Found tables ids x → Family link root x →
    isFamilyChild tables x ∧ root ≤ x)

/-- `x` is sorted before `y`, or is it. -/
def Precedes (tables : Tables Id) (ids : List Id) (sortKey : ProductionSort) (x y : Id) : Prop :=
  ∃ a ∈ itemRows tables ids, ∃ b ∈ itemRows tables ids, a.id = x ∧ b.id = y ∧
    (compareItems sortKey (sortableOf tables a) (sortableOf tables b)).isLE

/-- Between two items of one family identifier only their family is sorted. -/
def NothingBetween (link : Id → Id → Prop) (tables : Tables Id) (ids : List Id)
    (sortKey : ProductionSort) : Prop :=
  ∀ x y z, familyIdOf tables x ≠ none → familyIdOf tables x = familyIdOf tables y →
    Precedes tables ids sortKey x z → Precedes tables ids sortKey z y → EqvGen link x z

end Run

/-! ## What is recorded -/

section Recorded

variable {Id : Type} [LinearOrder Id] {tables : Tables Id}

/-- What is nobody's child and has a family identifier is named after itself. -/
theorem familyIdOf_eq_some_of_not_child {id k : Id} (hchild : isFamilyChild tables id = false)
    (h : familyIdOf tables id = some k) : id = k := by
  rw [isFamilyChild, Option.isSome_eq_false_iff, Option.isNone_iff_eq_none] at hchild
  rw [familyIdOf, hchild] at h
  dsimp only at h
  split_ifs at h
  exact Option.some.inj h

end Recorded

/-! ## The loop -/

section Produce

variable {Id : Type} {pages : Id → ℕ}

/-- A draft without a range, numbered from a number of the counter on. -/
structure Numbered (counter : BatesCounter) (sortIndex : ℕ) (d : ProducedDraft Id) : Prop where
  sortIndex_le : sortIndex ≤ d.sortIndex
  begAttach : d.begAttach = []
  endAttach : d.endAttach = []
  begBates : ∃ n, counter.next ≤ n ∧ d.begBates = counter.style.label n
  endBates : ∃ n, counter.next ≤ n ∧ d.endBates = counter.style.label n

/-- `d` comes before `e`, and they have nothing in common. -/
def Before (d e : ProducedDraft Id) : Prop :=
  d.sortIndex < e.sortIndex ∧ d.begBates ≠ e.begBates ∧ d.endBates ≠ e.endBates

/-- **What the loop produces**: drafts of the entries, one after the other. -/
theorem produce_ok {counter : BatesCounter} {sortIndex : ℕ}
    {entries : List (SortableProductionItem Id)} {drafts : List (ProducedDraft Id)}
    (hdigits : 0 < counter.style.digits) (h : produce pages counter sortIndex entries = .ok drafts) :
    drafts.map (fun d => (d.evidenceItemId, d.familyId)) =
        entries.map (fun e => (e.evidenceId, e.familyId)) ∧
      drafts.Pairwise Before ∧ ∀ d ∈ drafts, Numbered counter sortIndex d := by
  induction entries generalizing counter sortIndex drafts with
  | nil =>
    cases h
    exact ⟨rfl, .nil, by simp⟩
  | cons entry rest ih =>
    rw [produce] at h
    rcases hbates : counter.nextDocument (pages entry.evidenceId) with e | ⟨bates, after⟩
    · rw [hbates] at h
      cases h
    rcases hrest : produce pages after (sortIndex + 1) rest with e | drafts'
    · simp only [hbates, hrest, bind, Except.bind] at h
      cases h
    simp only [hbates, hrest, bind, Except.bind] at h
    cases h
    obtain ⟨rfl, -, hused, hbeg, hend, -⟩ := BatesCounter.nextDocument_ok hdigits hbates
    obtain ⟨hmap, hpairwise, hnumbered⟩ := ih (by exact hdigits) hrest
    refine ⟨by simp [hmap], List.pairwise_cons.mpr ⟨?_, hpairwise⟩, ?_⟩
    · -- the numbers of the others lie behind those of the first
      intro d hd
      have hd := hnumbered d hd
      obtain ⟨n, hn, hdbeg⟩ := hd.begBates
      obtain ⟨m, hm, hdend⟩ := hd.endBates
      dsimp only at hn hm
      refine ⟨hd.sortIndex_le, ?_, ?_⟩
      · rw [hbeg, hdbeg]
        intro heq
        have := counter.style.label_injective heq
        omega
      · rw [hend, hdend]
        intro heq
        have := counter.style.label_injective heq
        omega
    · intro d hd
      rcases List.mem_cons.mp hd with rfl | hd
      · exact ⟨le_rfl, rfl, rfl, ⟨_, le_rfl, hbeg⟩, ⟨_, by omega, hend⟩⟩
      · have hd := hnumbered d hd
        obtain ⟨n, hn, hdbeg⟩ := hd.begBates
        obtain ⟨m, hm, hdend⟩ := hd.endBates
        dsimp only at hn hm
        exact ⟨Nat.le_of_succ_le hd.sortIndex_le, hd.begAttach, hd.endAttach,
          ⟨n, by omega, hdbeg⟩, ⟨m, by omega, hdend⟩⟩

theorem BatesStyle.label_ne_nil (style : BatesStyle) (n : ℕ) : style.label n ≠ [] := by
  simp [BatesStyle.label, paddedDecimal_ne_nil]

end Produce

/-! ## The ranges -/

section Ranges

variable {Id : Type} [LinearOrder Id]

/-- The documents with a family identifier. -/
def withFamilyId (produced : List (ProducedDraft Id)) (familyId : Id) : List (ProducedDraft Id) :=
  produced.filter fun d => d.familyId = some familyId

theorem valuesAt_familyGroups (produced : List (ProducedDraft Id)) (familyId : Id) :
    JsMap.valuesAt (produced.filterMap fun d => d.familyId.map fun f => (f, d)) familyId =
      withFamilyId produced familyId := by
  induction produced with
  | nil => rfl
  | cons d produced ih =>
    rcases hf : d.familyId with _ | f
    · simpa [hf, withFamilyId] using ih
    · by_cases hff : f = familyId
      · simpa [hf, JsMap.valuesAt, hff, withFamilyId] using ih
      · simpa [hf, JsMap.valuesAt, hff, withFamilyId] using ih

section Attach

variable (groups : JsMap Id (List (ProducedDraft Id))) (d : ProducedDraft Id)

@[simp] theorem attach_evidenceItemId : (attach groups d).evidenceItemId = d.evidenceItemId := by
  rw [attach]
  split
  · rfl
  · split_ifs <;> rfl

@[simp] theorem attach_familyId : (attach groups d).familyId = d.familyId := by
  rw [attach]
  split
  · rfl
  · split_ifs <;> rfl

@[simp] theorem attach_sortIndex : (attach groups d).sortIndex = d.sortIndex := by
  rw [attach]
  split
  · rfl
  · split_ifs <;> rfl

@[simp] theorem attach_begBates : (attach groups d).begBates = d.begBates := by
  rw [attach]
  split
  · rfl
  · split_ifs <;> rfl

@[simp] theorem attach_endBates : (attach groups d).endBates = d.endBates := by
  rw [attach]
  split
  · rfl
  · split_ifs <;> rfl

end Attach

/-- The range of a document: that of its group. -/
def rangeFor (produced : List (ProducedDraft Id)) (d : ProducedDraft Id) : JsString × JsString :=
  match d.familyId with
  | none => ([], [])
  | some familyId => attachRange (withFamilyId produced familyId)

omit [LinearOrder Id] in
/-- A range is made of Bates numbers. -/
theorem attachRange_map {f : ProducedDraft Id → ProducedDraft Id}
    (hbeg : ∀ d, (f d).begBates = d.begBates) (hend : ∀ d, (f d).endBates = d.endBates)
    (group : List (ProducedDraft Id)) : attachRange (group.map f) = attachRange group := by
  have hbegs : ProducedDraft.begBates ∘ f = ProducedDraft.begBates := funext hbeg
  have hends : ProducedDraft.endBates ∘ f = ProducedDraft.endBates := funext hend
  simp [attachRange, hbegs, hends]

/-- **The range a document is given.** -/
theorem attach_range {produced : List (ProducedDraft Id)} {d : ProducedDraft Id} (hd : d ∈ produced)
    (hbeg : d.begAttach = []) (hend : d.endAttach = []) :
    ((attach (familyGroups produced) d).begAttach, (attach (familyGroups produced) d).endAttach) =
      rangeFor produced d := by
  rw [attach, rangeFor]
  rcases hf : d.familyId with _ | familyId
  · simp [hbeg, hend]
  · have hmem : d ∈ withFamilyId produced familyId := List.mem_filter.mpr ⟨hd, by simpa using hf⟩
    have hget : (familyGroups produced).get? familyId = some (withFamilyId produced familyId) := by
      rw [familyGroups, JsMap.get?_group, valuesAt_familyGroups, if_neg (List.ne_nil_of_mem hmem)]
    rw [Option.bind_some, hget]
    dsimp only
    split_ifs with hshort
    · rw [hbeg, hend, attachRange, if_pos hshort]
    · rfl

/-- The range of the image of the documents is the range. -/
theorem rangeFor_map (groups : JsMap Id (List (ProducedDraft Id)))
    (produced : List (ProducedDraft Id)) (d : ProducedDraft Id) :
    rangeFor (produced.map (attach groups)) (attach groups d) = rangeFor produced d := by
  rw [rangeFor, rangeFor, attach_familyId]
  rcases d.familyId with _ | familyId
  · rfl
  · dsimp only
    have hfilter : withFamilyId (produced.map (attach groups)) familyId =
        (withFamilyId produced familyId).map (attach groups) := by
      rw [withFamilyId, withFamilyId, List.filter_map]
      congr 1
      apply List.filter_congr
      intro d _
      simp
    rw [hfilter, attachRange_map (attach_begBates groups) (attach_endBates groups)]

end Ranges

/-! ## The layout of a run -/

section Layout

variable {Id : Type} [LinearOrder Id]

/-- How the documents of a run are laid out. -/
structure Laid (tables : Tables Id) (ids : List Id) (parameters : ProductionParameters Id)
    (produced : List (ProducedDraft Id)) : Prop where
  /-- they are those of the items that are found -/
  found : ∀ id, Found tables ids id ↔ ∃ d ∈ produced, d.evidenceItemId = id
  nodup : (produced.map ProducedDraft.evidenceItemId).Nodup
  before : produced.Pairwise Before
  labelled : ∀ d ∈ produced, d.begBates ≠ [] ∧ d.endBates ≠ []
  familyId : ∀ d ∈ produced, d.familyId = familyIdOf tables d.evidenceItemId
  range : ∀ d ∈ produced, (d.begAttach, d.endAttach) = rangeFor produced d
  /-- grouped, those with one family identifier stand together -/
  grouped : parameters.selection.includeFamilies = true → ∀ k, withFamilyId produced k ≠ [] →
    ∃ before after, produced = before ++ withFamilyId produced k ++ after
  /-- grouped, this is who comes first -/
  first : parameters.selection.includeFamilies = true → ∀ k root,
    (withFamilyId produced k).head?.map ProducedDraft.evidenceItemId = some root ↔
      (∃ d ∈ withFamilyId produced k, d.evidenceItemId = root) ∧
        (isFamilyChild tables root → ∀ d ∈ withFamilyId produced k,
          isFamilyChild tables d.evidenceItemId ∧ root ≤ d.evidenceItemId)
  /-- ungrouped, they are sorted -/
  ordered : parameters.selection.includeFamilies = false → produced.Pairwise fun d e =>
    Precedes tables ids parameters.sort d.evidenceItemId e.evidenceItemId

variable {tables : Tables Id} {ids : List Id} {parameters : ProductionParameters Id}

/-- The entries of the run, sorted. -/
def entries (tables : Tables Id) (ids : List Id) (parameters : ProductionParameters Id) :
    List (SortableProductionItem Id) :=
  sortProductionItems ((itemRows tables ids).map (sortableOf tables)) parameters.sort
    parameters.selection.includeFamilies

theorem entries_perm :
    (entries tables ids parameters).Perm ((itemRows tables ids).map (sortableOf tables)) :=
  sortProductionItems_perm _ _ _

theorem mem_entries {e : SortableProductionItem Id} :
    e ∈ entries tables ids parameters ↔
      ∃ item ∈ itemRows tables ids, sortableOf tables item = e := by
  rw [entries_perm.mem_iff, List.mem_map]

theorem nodup_entries (hids : ids.Nodup) :
    ((entries tables ids parameters).map SortableProductionItem.evidenceId).Nodup := by
  rw [(entries_perm.map _).nodup_iff, List.map_map]
  exact nodup_itemRows tables hids

/-- Where the entries fall into three parts, the middle one the entries with a family
identifier, so do documents that go with them. -/
theorem segment_of_entries {produced : List (ProducedDraft Id)}
    {a m b : List (SortableProductionItem Id)} {k : Id}
    (hmap : produced.map (fun d => (d.evidenceItemId, d.familyId)) =
      (a ++ m ++ b).map (fun e => (e.evidenceId, e.familyId)))
    (hm : ∀ e ∈ m, e.familyId = some k) (ha : ∀ e ∈ a, e.familyId ≠ some k)
    (hb : ∀ e ∈ b, e.familyId ≠ some k) :
    (∃ before after, produced = before ++ withFamilyId produced k ++ after) ∧
      (withFamilyId produced k).map ProducedDraft.evidenceItemId =
        m.map SortableProductionItem.evidenceId := by
  rw [List.map_append, List.map_append] at hmap
  obtain ⟨p, pb, rfl, hp, hpb⟩ := List.map_eq_append_iff.mp hmap
  obtain ⟨pa, pm, rfl, hpa, hpm⟩ := List.map_eq_append_iff.mp hp
  -- the family identifiers of a part are those of its entries
  have hids : ∀ {ds : List (ProducedDraft Id)} {es : List (SortableProductionItem Id)},
      ds.map (fun d => (d.evidenceItemId, d.familyId)) =
        es.map (fun e => (e.evidenceId, e.familyId)) →
      ∀ d ∈ ds, ∃ e ∈ es, d.familyId = e.familyId := by
    intro ds es heq d hd
    have hmem : (d.evidenceItemId, d.familyId) ∈
        es.map (fun e => (e.evidenceId, e.familyId)) := heq ▸ List.mem_map.mpr ⟨d, hd, rfl⟩
    obtain ⟨e, he, heq⟩ := List.mem_map.mp hmem
    exact ⟨e, he, (Prod.mk.inj heq).2.symm⟩
  have hpa' : withFamilyId pa k = [] := by
    apply List.filter_eq_nil_iff.mpr
    intro d hd
    obtain ⟨e, he, heq⟩ := hids hpa d hd
    simpa [heq] using ha e he
  have hpb' : withFamilyId pb k = [] := by
    apply List.filter_eq_nil_iff.mpr
    intro d hd
    obtain ⟨e, he, heq⟩ := hids hpb d hd
    simpa [heq] using hb e he
  have hpm' : withFamilyId pm k = pm := by
    apply List.filter_eq_self.mpr
    intro d hd
    obtain ⟨e, he, heq⟩ := hids hpm d hd
    simpa [heq] using hm e he
  have hall : withFamilyId (pa ++ pm ++ pb) k = pm := by
    rw [withFamilyId, List.filter_append, List.filter_append]
    change withFamilyId pa k ++ withFamilyId pm k ++ withFamilyId pb k = pm
    rw [hpa', hpm', hpb', List.nil_append, List.append_nil]
  rw [hall]
  refine ⟨⟨pa, pb, rfl⟩, ?_⟩
  have hfst := congrArg (List.map Prod.fst) hpm
  rw [List.map_map, List.map_map] at hfst
  exact hfst

/-- With family grouping, the documents of a family identifier. -/
theorem grouped_segment (hids : ids.Nodup) (hfam : parameters.selection.includeFamilies = true)
    {produced : List (ProducedDraft Id)}
    (hmap : produced.map (fun d => (d.evidenceItemId, d.familyId)) =
      (entries tables ids parameters).map (fun e => (e.evidenceId, e.familyId)))
    {k : Id} (hk : withFamilyId produced k ≠ []) :
    (∃ before after, produced = before ++ withFamilyId produced k ++ after) ∧
      (withFamilyId produced k).map ProducedDraft.evidenceItemId =
        (inOrder parameters.sort (membersOf ((itemRows tables ids).map (sortableOf tables)) k)).map
          SortableProductionItem.evidenceId := by
  -- the family has members
  have hmembers : membersOf ((itemRows tables ids).map (sortableOf tables)) k ≠ [] := by
    obtain ⟨d, hd⟩ := List.exists_mem_of_ne_nil _ hk
    obtain ⟨hd, hdk⟩ := List.mem_filter.mp hd
    have hmem : (d.evidenceItemId, d.familyId) ∈
        (entries tables ids parameters).map (fun e => (e.evidenceId, e.familyId)) :=
      hmap ▸ List.mem_map.mpr ⟨d, hd, rfl⟩
    obtain ⟨e, he, heq⟩ := List.mem_map.mp hmem
    obtain ⟨-, hfe⟩ := Prod.mk.inj heq
    apply List.ne_nil_of_mem (a := e)
    exact List.mem_filter.mpr ⟨entries_perm.mem_iff.mp he, by simpa [hfe] using hdk⟩
  obtain ⟨a, b, hentries⟩ : ∃ a b, entries tables ids parameters = a ++ inOrder parameters.sort
      (membersOf ((itemRows tables ids).map (sortableOf tables)) k) ++ b := by
    rw [entries, hfam]
    exact family_consecutive hmembers
  have hin : ∀ e, e ∈ inOrder parameters.sort
      (membersOf ((itemRows tables ids).map (sortableOf tables)) k) ↔
        e ∈ entries tables ids parameters ∧ e.familyId = some k := by
    intro e
    rw [(inOrder_perm _ _).mem_iff, membersOf, List.mem_filter, entries_perm.mem_iff,
      decide_eq_true_eq]
  -- an entry of the family in another part would stand there twice
  have hnodup : (entries tables ids parameters).Nodup := .of_map _ (nodup_entries hids)
  rw [hentries] at hnodup hmap
  obtain ⟨hleft, -, hright⟩ := List.nodup_append.mp hnodup
  obtain ⟨-, -, hmiddle⟩ := List.nodup_append.mp hleft
  apply segment_of_entries hmap
  · exact fun e he => ((hin e).mp he).2
  · intro e he hek
    refine hmiddle e he e ((hin e).mpr ⟨?_, hek⟩) rfl
    rw [hentries]
    exact List.mem_append_left _ (List.mem_append_left _ he)
  · intro e he hek
    refine hright e (List.mem_append_right _ ((hin e).mpr ⟨?_, hek⟩)) e he rfl
    rw [hentries]
    exact List.mem_append_right _ he

/-- Who comes first of the documents of a family identifier. -/
theorem first_of_segment {produced : List (ProducedDraft Id)} {k : Id}
    (hsegment : (withFamilyId produced k).map ProducedDraft.evidenceItemId =
      (inOrder parameters.sort (membersOf ((itemRows tables ids).map (sortableOf tables)) k)).map
        SortableProductionItem.evidenceId) {root : Id} :
    (withFamilyId produced k).head?.map ProducedDraft.evidenceItemId = some root ↔
      (∃ d ∈ withFamilyId produced k, d.evidenceItemId = root) ∧
        (isFamilyChild tables root → ∀ d ∈ withFamilyId produced k,
          isFamilyChild tables d.evidenceItemId ∧ root ≤ d.evidenceItemId) := by
  have hmember : ∀ m ∈ membersOf ((itemRows tables ids).map (sortableOf tables)) k,
      m.isFamilyChild = isFamilyChild tables m.evidenceId ∧
        (m.isFamilyChild = false → m.evidenceId = k) := by
    intro m hm
    obtain ⟨hm, hk⟩ := List.mem_filter.mp hm
    obtain ⟨item, -, rfl⟩ := List.mem_map.mp hm
    exact ⟨rfl, fun hchild => familyIdOf_eq_some_of_not_child hchild (of_decide_eq_true hk)⟩
  -- what holds of the identifiers of the members holds of those of the documents
  have hids : ∀ P : Id → Prop, (∀ d ∈ withFamilyId produced k, P d.evidenceItemId) ↔
      ∀ m ∈ membersOf ((itemRows tables ids).map (sortableOf tables)) k, P m.evidenceId := by
    intro P
    rw [← List.forall_mem_map (f := ProducedDraft.evidenceItemId), hsegment, List.forall_mem_map]
    simp only [(inOrder_perm _ _).mem_iff]
  have hex : (∃ d ∈ withFamilyId produced k, d.evidenceItemId = root) ↔
      ∃ m ∈ membersOf ((itemRows tables ids).map (sortableOf tables)) k, m.evidenceId = root := by
    have hnone := not_congr (hids fun id => id ≠ root)
    push Not at hnone
    exact hnone
  rw [hex, hids fun id => isFamilyChild tables id ∧ root ≤ id, ← List.head?_map, hsegment,
    List.head?_map]
  exact head_inOrder (fun m hm => (hmember m hm).1) fun m hm => (hmember m hm).2

/-- **A run lays its documents out.** -/
theorem laid_of_run (hids : ids.Nodup) {startNumber : ℕ} {pages : Id → ℕ}
    {produced : List (ProducedDraft Id)}
    (h : processProductionRun tables ids parameters startNumber pages = .ok produced) :
    Laid tables ids parameters produced := by
  rw [processProductionRun] at h
  rcases hcounter : BatesCounter.new parameters.bates.style parameters.bates.numbering startNumber
    with e | counter
  · simp only [hcounter, bind, Except.bind] at h
    cases h
  rcases hdrafts : produce pages counter 0 (entries tables ids parameters) with e | drafts
  · rw [entries] at hdrafts
    simp only [hcounter, hdrafts, bind, Except.bind] at h
    cases h
  have hproduced : produced = drafts.map (attach (familyGroups drafts)) := by
    rw [entries] at hdrafts
    simp only [hcounter, hdrafts, bind, Except.bind] at h
    exact (Except.ok.inj h).symm
  have hdigits : 0 < counter.style.digits := by
    rw [BatesCounter.new_ok hcounter]
    exact Nat.lt_of_lt_of_le (by decide) parameters.bates.four_le_digits
  obtain ⟨hpairs, hbefore, hnumbered⟩ := produce_ok hdigits hdrafts
  -- the documents are the drafts with their ranges
  have hmap : produced.map (fun d => (d.evidenceItemId, d.familyId)) =
      (entries tables ids parameters).map (fun e => (e.evidenceId, e.familyId)) := by
    rw [← hpairs, hproduced, List.map_map]
    apply List.map_congr_left
    simp
  have hidsMap : produced.map ProducedDraft.evidenceItemId =
      (entries tables ids parameters).map SortableProductionItem.evidenceId := by
    have hfst := congrArg (List.map Prod.fst) hmap
    rw [List.map_map, List.map_map] at hfst
    exact hfst
  have hentry : ∀ d ∈ produced, ∃ item ∈ itemRows tables ids, item.id = d.evidenceItemId ∧
      familyIdOf tables item.id = d.familyId := by
    intro d hd
    have hmem : (d.evidenceItemId, d.familyId) ∈ (entries tables ids parameters).map
        (fun e => (e.evidenceId, e.familyId)) := hmap ▸ List.mem_map.mpr ⟨d, hd, rfl⟩
    obtain ⟨e, he, heq⟩ := List.mem_map.mp hmem
    obtain ⟨item, hitem, rfl⟩ := mem_entries.mp he
    obtain ⟨hid, hf⟩ := Prod.mk.inj heq
    exact ⟨item, hitem, hid, hf⟩
  refine
    { found := ?_
      nodup := hidsMap ▸ nodup_entries hids
      before := ?_
      labelled := ?_
      familyId := ?_
      range := ?_
      grouped := fun hfam k hk => (grouped_segment hids hfam hmap hk).1
      first := ?_
      ordered := ?_ }
  · intro id
    rw [← List.mem_map, hidsMap, Found, (entries_perm.map _).mem_iff, List.map_map]
    rfl
  · rw [hproduced, List.pairwise_map]
    exact hbefore.imp fun h => by simpa [Before] using h
  · intro d hd
    rw [hproduced] at hd
    obtain ⟨draft, hdraft, rfl⟩ := List.mem_map.mp hd
    obtain ⟨n, -, hbeg⟩ := (hnumbered draft hdraft).begBates
    obtain ⟨m, -, hend⟩ := (hnumbered draft hdraft).endBates
    rw [attach_begBates, attach_endBates, hbeg, hend]
    exact ⟨BatesStyle.label_ne_nil _ n, BatesStyle.label_ne_nil _ m⟩
  · intro d hd
    obtain ⟨item, -, hid, hf⟩ := hentry d hd
    rw [← hid, hf]
  · intro d hd
    rw [hproduced] at hd ⊢
    obtain ⟨draft, hdraft, rfl⟩ := List.mem_map.mp hd
    rw [rangeFor_map]
    exact attach_range hdraft (hnumbered draft hdraft).begAttach (hnumbered draft hdraft).endAttach
  · intro hfam k root
    rcases eq_or_ne (withFamilyId produced k) [] with hnil | hk
    · simp [hnil]
    · exact first_of_segment (grouped_segment hids hfam hmap hk).2
  · intro hflat
    have hsorted : (entries tables ids parameters).Pairwise fun a b =>
        (compareItems parameters.sort a b).isLE := by
      rw [entries, hflat]
      exact pairwise_sortProductionItems _ _
    have hprecedes : (entries tables ids parameters).Pairwise fun a b =>
        Precedes tables ids parameters.sort a.evidenceId b.evidenceId := by
      apply hsorted.imp_of_mem
      intro a b ha hb hle
      obtain ⟨x, hx, rfl⟩ := mem_entries.mp ha
      obtain ⟨y, hy, rfl⟩ := mem_entries.mp hb
      exact ⟨x, hx, y, hy, rfl, rfl, hle⟩
    rw [← List.pairwise_map (f := ProducedDraft.evidenceItemId), hidsMap, List.pairwise_map]
    exact hprecedes

end Layout

/-! ## Families and what is recorded of them -/

section Main

variable {Id : Type} [LinearOrder Id] {tables : Tables Id} {ids : List Id}
  {parameters : ProductionParameters Id} {produced : List (ProducedDraft Id)}

theorem Precedes.found {sortKey : ProductionSort} {x y : Id}
    (h : Precedes tables ids sortKey x y) : Found tables ids x ∧ Found tables ids y := by
  obtain ⟨a, ha, b, hb, rfl, rfl, -⟩ := h
  exact ⟨List.mem_map_of_mem ha, List.mem_map_of_mem hb⟩

theorem precedes_antisymm {sortKey : ProductionSort} {x y : Id}
    (hxy : Precedes tables ids sortKey x y) (hyx : Precedes tables ids sortKey y x) : x = y := by
  obtain ⟨a, ha, b, hb, rfl, rfl, hab⟩ := hxy
  obtain ⟨b', hb', a', ha', hidb, hida, hba⟩ := hyx
  obtain rfl := tables.eq_of_id_eq (mem_itemRows.mp ha).1 (mem_itemRows.mp ha').1 hida.symm
  obtain rfl := tables.eq_of_id_eq (mem_itemRows.mp hb).1 (mem_itemRows.mp hb').1 hidb.symm
  exact compareItems_antisymm hab hba

/-- In a list without repetitions a thing stands at one place. -/
theorem eq_of_append_cons {α : Type} {a b a' b' : List α} {p : α} (hl : (a ++ p :: b).Nodup)
    (h : a ++ p :: b = a' ++ p :: b') : a = a' ∧ b = b' := by
  obtain ⟨hnot, -⟩ := List.nodup_cons.mp (List.nodup_middle.mp hl)
  rw [List.mem_append, not_or] at hnot
  obtain ⟨ha, -, hb⟩ := (List.append_cons_inj_of_notMem hnot.1 hnot.2).mp h
  exact ⟨ha, hb⟩

/-- In a list without repetitions the ends of a segment tell the segment. -/
theorem segment_eq {α : Type} {l a x b a' y b' : List α} (hl : l.Nodup) (h : l = a ++ x ++ b)
    (h' : l = a' ++ y ++ b') {p q : α} (hx : x.head? = some p) (hy : y.head? = some p)
    (hx' : x.getLast? = some q) (hy' : y.getLast? = some q) : x = y := by
  have hsplit : a ++ (x ++ b) = a' ++ (y ++ b') := by
    rw [← List.append_assoc, ← List.append_assoc, ← h, h']
  -- the segments start at one place
  have hrest : x ++ b = y ++ b' := by
    obtain ⟨xs, rfl⟩ := List.head?_eq_some_iff.mp hx
    obtain ⟨ys, rfl⟩ := List.head?_eq_some_iff.mp hy
    have hnodup : (a ++ p :: (xs ++ b)).Nodup := by simpa [h] using hl
    obtain ⟨-, hrest⟩ := eq_of_append_cons hnodup hsplit
    exact congrArg (List.cons p) hrest
  -- and end at one place
  obtain ⟨xs, rfl⟩ := List.getLast?_eq_some_iff.mp hx'
  obtain ⟨ys, rfl⟩ := List.getLast?_eq_some_iff.mp hy'
  rw [List.append_assoc, List.append_assoc] at hrest
  have hnodup : (xs ++ q :: b).Nodup := by
    rw [h, List.append_assoc, List.append_assoc] at hl
    exact (List.nodup_append.mp hl).2.1
  obtain ⟨rfl, -⟩ := eq_of_append_cons hnodup hrest
  rfl

namespace Laid

theorem eq_of_id (h : Laid tables ids parameters produced) {d e : ProducedDraft Id}
    (hd : d ∈ produced) (he : e ∈ produced) (heq : d.evidenceItemId = e.evidenceItemId) : d = e :=
  List.inj_on_of_nodup_map h.nodup hd he heq

theorem eq_of_begBates (h : Laid tables ids parameters produced) {d e : ProducedDraft Id}
    (hd : d ∈ produced) (he : e ∈ produced) (heq : d.begBates = e.begBates) : d = e := by
  have hnodup : (produced.map ProducedDraft.begBates).Nodup :=
    List.pairwise_map.mpr (h.before.imp fun h => h.2.1)
  exact List.inj_on_of_nodup_map hnodup hd he heq

theorem eq_of_endBates (h : Laid tables ids parameters produced) {d e : ProducedDraft Id}
    (hd : d ∈ produced) (he : e ∈ produced) (heq : d.endBates = e.endBates) : d = e := by
  have hnodup : (produced.map ProducedDraft.endBates).Nodup :=
    List.pairwise_map.mpr (h.before.imp fun h => h.2.2)
  exact List.inj_on_of_nodup_map hnodup hd he heq

/-- The range of documents of the run: none for one, and otherwise from the first to the
last. -/
theorem attachRange_cases (h : Laid tables ids parameters produced)
    {group : List (ProducedDraft Id)} (hgroup : ∀ d ∈ group, d ∈ produced) (hne : group ≠ []) :
    ∃ first ∈ group, ∃ last ∈ group, group.head? = some first ∧ group.getLast? = some last ∧
      (group = [first] ∧ first = last ∧ attachRange group = ([], []) ∨
        2 ≤ group.length ∧ attachRange group = (first.begBates, last.endBates) ∧
          (attachRange group).1 ≠ []) := by
  rcases group with _ | ⟨first, rest⟩
  · exact absurd rfl hne
  have hlast := List.getLast?_eq_some_getLast hne
  refine ⟨first, List.mem_cons_self .., _, List.getLast_mem hne, rfl, hlast, ?_⟩
  rcases rest with _ | ⟨second, rest⟩
  · exact .inl ⟨rfl, rfl, rfl⟩
  · right
    have hrange : attachRange (first :: second :: rest) =
        (first.begBates, ((first :: second :: rest).getLast hne).endBates) := by
      rw [attachRange, if_neg (by simp), hlast]
      rfl
    rw [hrange]
    exact ⟨by simp, rfl, (h.labelled first (hgroup first (List.mem_cons_self ..))).1⟩

/-- Segments of the run that share a document and have one range are one segment. -/
theorem eq_of_attachRange (h : Laid tables ids parameters produced)
    {a x b a' y b' : List (ProducedDraft Id)} (hx : produced = a ++ x ++ b)
    (hy : produced = a' ++ y ++ b') {d : ProducedDraft Id} (hdx : d ∈ x) (hdy : d ∈ y)
    (hrange : attachRange x = attachRange y) : x = y := by
  have hxmem : ∀ d ∈ x, d ∈ produced := by
    rw [hx]
    exact fun d hd => List.mem_append_left _ (List.mem_append_right _ hd)
  have hymem : ∀ d ∈ y, d ∈ produced := by
    rw [hy]
    exact fun d hd => List.mem_append_left _ (List.mem_append_right _ hd)
  obtain ⟨f, hf, l, hl, hfirst, hlast, hcase⟩ :=
    h.attachRange_cases hxmem (List.ne_nil_of_mem hdx)
  obtain ⟨f', hf', l', hl', hfirst', hlast', hcase'⟩ :=
    h.attachRange_cases hymem (List.ne_nil_of_mem hdy)
  rcases hcase with ⟨rfl, -, hnone⟩ | ⟨-, hsome, hne⟩ <;>
    rcases hcase' with ⟨rfl, -, hnone'⟩ | ⟨-, hsome', hne'⟩
  · rw [← List.mem_singleton.mp hdx, ← List.mem_singleton.mp hdy]
  · rw [← hrange, hnone] at hne'
    exact absurd rfl hne'
  · rw [hrange, hnone'] at hne
    exact absurd rfl hne
  · rw [hsome, hsome'] at hrange
    obtain ⟨hbeg, hend⟩ := Prod.mk.inj hrange
    obtain rfl := h.eq_of_begBates (hxmem f hf) (hymem f' hf') hbeg
    obtain rfl := h.eq_of_endBates (hxmem l hl) (hymem l' hl') hend
    exact segment_eq (.of_map _ h.nodup) hx hy hfirst hfirst' hlast hlast'

theorem mem_withFamilyId (h : Laid tables ids parameters produced) {d : ProducedDraft Id} {k : Id} :
    d ∈ withFamilyId produced k ↔ d ∈ produced ∧ familyIdOf tables d.evidenceItemId = some k := by
  rw [withFamilyId, List.mem_filter, decide_eq_true_eq]
  exact and_congr_right fun hd => by rw [h.familyId d hd]

/-- **A family is adjacent exactly if it is flat.** -/
theorem adjacent_iff (h : Laid tables ids parameters produced)
    (hfam : parameters.selection.includeFamilies = true) (link : Id → Id → Prop) {root : Id}
    (hroot : Found tables ids root) :
    Adjacent link produced root ↔ Flat link tables ids root := by
  obtain ⟨r, hr, rfl⟩ := (h.found root).mp hroot
  refine ⟨?_, ?_⟩
  · rintro ⟨before, family, after, hsplit, hhead, hmem, hranges⟩
    obtain ⟨r', hr', hid⟩ := Option.map_eq_some_iff.mp hhead
    have hr'mem : r' ∈ family := List.mem_of_mem_head? hr'
    have hfamily : ∀ d ∈ family, d ∈ produced := by
      rw [hsplit]
      exact fun d hd => List.mem_append_left _ (List.mem_append_right _ hd)
    obtain rfl := h.eq_of_id (hfamily r' hr'mem) hr hid
    have hrange : attachRange family = rangeFor produced r' :=
      (hranges r' hr'mem).symm.trans (h.range r' hr)
    rcases hk : r'.familyId with _ | k
    · -- no family identifier and so no range: the root is alone
      have hkr : familyIdOf tables r'.evidenceItemId = none := (h.familyId r' hr).symm.trans hk
      have halone : family = [r'] := by
        obtain ⟨f, -, l, -, hfirst, -, ⟨rfl, -, -⟩ | ⟨-, -, hne⟩⟩ :=
          h.attachRange_cases hfamily (List.ne_nil_of_mem hr'mem)
        · rw [← List.mem_singleton.mp hr'mem]
        · rw [hrange, rangeFor, hk] at hne
          exact absurd rfl hne
      have honly : ∀ x, Found tables ids x →
          (Family link r'.evidenceItemId x ↔ x = r'.evidenceItemId) := by
        intro x hx
        obtain ⟨d, hd, rfl⟩ := (h.found x).mp hx
        rw [← hmem d hd, halone, List.mem_singleton]
        exact ⟨fun heq => heq ▸ rfl, fun heq => h.eq_of_id hd hr heq⟩
      refine ⟨fun x hx => ?_, fun hchild x hx hin => ?_⟩
      · simp [honly x hx, hkr]
      · rw [(honly x hx).mp hin]
        exact ⟨hchild, le_rfl⟩
    · have hkr : familyIdOf tables r'.evidenceItemId = some k := (h.familyId r' hr).symm.trans hk
      have hrk : r' ∈ withFamilyId produced k := h.mem_withFamilyId.mpr ⟨hr, hkr⟩
      obtain ⟨before', after', hsplit'⟩ := h.grouped hfam k (List.ne_nil_of_mem hrk)
      rw [rangeFor, hk] at hrange
      have heq : family = withFamilyId produced k :=
        h.eq_of_attachRange hsplit hsplit' hr'mem hrk hrange
      rw [heq] at hhead hmem
      have hin : ∀ x, Found tables ids x →
          (Family link r'.evidenceItemId x ↔ familyIdOf tables x = some k) := by
        intro x hx
        obtain ⟨d, hd, rfl⟩ := (h.found x).mp hx
        rw [← hmem d hd, h.mem_withFamilyId]
        exact and_iff_right hd
      refine ⟨fun x hx => ?_, fun hchild x hx hx' => ?_⟩
      · rw [hin x hx, hkr]
        refine ⟨?_, ?_⟩
        · exact fun hxk => .inr ⟨by simp, hxk⟩
        · rintro (rfl | ⟨-, hxk⟩)
          · exact hkr
          · exact hxk
      · obtain ⟨d, hd, rfl⟩ := (h.found x).mp hx
        exact ((h.first hfam k _).mp hhead).2 hchild d ((hmem d hd).mpr hx')
  · rintro ⟨hmembers, hleast⟩
    rcases hk : r.familyId with _ | k
    · have hkr : familyIdOf tables r.evidenceItemId = none := (h.familyId r hr).symm.trans hk
      obtain ⟨before, after, hsplit⟩ := List.append_of_mem hr
      refine ⟨before, [r], after, by simpa using hsplit, rfl, fun d hd => ?_, fun d hd => ?_⟩
      · rw [hmembers _ ((h.found _).mpr ⟨d, hd, rfl⟩), List.mem_singleton, hkr]
        refine ⟨?_, ?_⟩
        · rintro rfl
          exact .inl rfl
        · rintro (heq | ⟨hne, -⟩)
          · exact h.eq_of_id hd hr heq
          · exact absurd rfl hne
      · rw [List.mem_singleton.mp hd, h.range r hr, rangeFor, hk]
        rfl
    · have hkr : familyIdOf tables r.evidenceItemId = some k := (h.familyId r hr).symm.trans hk
      have hrk : r ∈ withFamilyId produced k := h.mem_withFamilyId.mpr ⟨hr, hkr⟩
      have hin : ∀ d ∈ produced, (d ∈ withFamilyId produced k ↔
          Family link r.evidenceItemId d.evidenceItemId) := by
        intro d hd
        rw [hmembers _ ((h.found _).mpr ⟨d, hd, rfl⟩), h.mem_withFamilyId, hkr]
        refine ⟨?_, ?_⟩
        · exact fun hdk => .inr ⟨by simp, hdk.2⟩
        · rintro (heq | ⟨-, hdk⟩)
          · exact ⟨hd, heq ▸ hkr⟩
          · exact ⟨hd, hdk⟩
      obtain ⟨before, after, hsplit⟩ := h.grouped hfam k (List.ne_nil_of_mem hrk)
      refine ⟨before, withFamilyId produced k, after, hsplit, ?_, hin, fun d hd => ?_⟩
      · rw [h.first hfam]
        refine ⟨⟨r, hrk, rfl⟩, fun hchild d hd => ?_⟩
        have hdmem := (h.mem_withFamilyId.mp hd).1
        exact hleast hchild _ ((h.found _).mpr ⟨d, hdmem, rfl⟩) ((hin d hdmem).mp hd)
      · obtain ⟨hdmem, hdk⟩ := h.mem_withFamilyId.mp hd
        rw [h.range d hdmem, rangeFor, h.familyId d hdmem, hdk]

/-- Ungrouped, positions are the order. -/
theorem precedes_iff (h : Laid tables ids parameters produced)
    (hflat : parameters.selection.includeFamilies = false) {d e : ProducedDraft Id}
    (hd : d ∈ produced) (he : e ∈ produced) :
    Precedes tables ids parameters.sort d.evidenceItemId e.evidenceItemId ↔
      d.sortIndex ≤ e.sortIndex := by
  have horder : produced.Pairwise fun d e => d.sortIndex < e.sortIndex ∧
      Precedes tables ids parameters.sort d.evidenceItemId e.evidenceItemId :=
    (h.before.imp fun h => h.1).and (h.ordered hflat)
  -- of two documents one comes before the other
  have heither : produced.Pairwise fun d e =>
      (d.sortIndex < e.sortIndex ∧
        Precedes tables ids parameters.sort d.evidenceItemId e.evidenceItemId) ∨
      (e.sortIndex < d.sortIndex ∧
        Precedes tables ids parameters.sort e.evidenceItemId d.evidenceItemId) :=
    horder.imp Or.inl
  have hsymm : Std.Symm fun d e : ProducedDraft Id =>
      (d.sortIndex < e.sortIndex ∧
        Precedes tables ids parameters.sort d.evidenceItemId e.evidenceItemId) ∨
      (e.sortIndex < d.sortIndex ∧
        Precedes tables ids parameters.sort e.evidenceItemId d.evidenceItemId) :=
    ⟨fun _ _ => Or.symm⟩
  rcases eq_or_ne d e with rfl | hne
  · refine iff_of_true ?_ le_rfl
    obtain ⟨item, hitem, hid⟩ := List.mem_map.mp ((h.found _).mpr ⟨d, hd, rfl⟩)
    exact ⟨item, hitem, item, hitem, hid, hid, Std.ReflCmp.isLE_rfl⟩
  · rcases heither.forall hd he hne with ⟨hlt, hbefore⟩ | ⟨hlt, hbefore⟩
    · exact iff_of_true hbefore hlt.le
    · refine iff_of_false (fun hprecedes => ?_) (by omega)
      exact hne (h.eq_of_id hd he (precedes_antisymm hprecedes hbefore))

omit [LinearOrder Id] in
/-- The documents of a group lie between its first and its last. -/
theorem between_ends {group : List (ProducedDraft Id)} (hgroup : group.Pairwise Before)
    {first last : ProducedDraft Id} (hfirst : group.head? = some first)
    (hlast : group.getLast? = some last) {d : ProducedDraft Id} (hd : d ∈ group) :
    first.sortIndex ≤ d.sortIndex ∧ d.sortIndex ≤ last.sortIndex := by
  refine ⟨?_, ?_⟩
  · obtain ⟨rest, rfl⟩ := List.head?_eq_some_iff.mp hfirst
    rcases List.mem_cons.mp hd with rfl | hd
    · exact le_rfl
    · exact ((List.pairwise_cons.mp hgroup).1 d hd).1.le
  · obtain ⟨rest, rfl⟩ := List.getLast?_eq_some_iff.mp hlast
    rcases List.mem_append.mp hd with hd | hd
    · exact ((List.pairwise_append.mp hgroup).2.2 d hd last (by simp)).1.le
    · rw [List.mem_singleton.mp hd]

/-- **Ungrouped, a range covers nothing outside the family** exactly if nothing else is
sorted between two of one family identifier. -/
theorem apart_iff (h : Laid tables ids parameters produced)
    (hflat : parameters.selection.includeFamilies = false) (link : Id → Id → Prop) :
    (∀ d ∈ produced, ∀ e ∈ produced, d.begAttach ≠ [] → Covers produced d e →
      EqvGen link d.evidenceItemId e.evidenceItemId) ↔
      NothingBetween link tables ids parameters.sort := by
  -- the group of a document and its ends
  have hends : ∀ d ∈ produced, ∀ k, familyIdOf tables d.evidenceItemId = some k →
      d ∈ withFamilyId produced k ∧
      ∃ first ∈ withFamilyId produced k, ∃ last ∈ withFamilyId produced k,
        (∀ e ∈ withFamilyId produced k,
          first.sortIndex ≤ e.sortIndex ∧ e.sortIndex ≤ last.sortIndex) ∧
        ((∀ e ∈ withFamilyId produced k, e = d) ∧ d.begAttach = [] ∨
          d.begAttach = first.begBates ∧ d.endAttach = last.endBates ∧ d.begAttach ≠ []) := by
    intro d hd k hk
    have hdk : d ∈ withFamilyId produced k := h.mem_withFamilyId.mpr ⟨hd, hk⟩
    have hrange := h.range d hd
    rw [rangeFor, h.familyId d hd, hk] at hrange
    obtain ⟨first, hfirst, last, hlast, hhead, hgetLast, hcase⟩ :=
      h.attachRange_cases (fun e he => (h.mem_withFamilyId.mp he).1) (List.ne_nil_of_mem hdk)
    refine ⟨hdk, first, hfirst, last, hlast,
      fun e he => between_ends (h.before.filter _) hhead hgetLast he, ?_⟩
    rcases hcase with ⟨halone, -, hnone⟩ | ⟨-, hsome, hne⟩
    · left
      rw [halone] at hdk ⊢
      refine ⟨fun e he => ?_, (Prod.mk.inj (hrange.trans hnone)).1⟩
      rw [List.mem_singleton.mp he, List.mem_singleton.mp hdk]
    · obtain ⟨hbeg, hend⟩ := Prod.mk.inj (hrange.trans hsome)
      refine .inr ⟨hbeg, hend, ?_⟩
      rw [hsome] at hne
      rw [hbeg]
      exact hne
  refine ⟨?_, ?_⟩
  · intro hcovers x y z hx hxy hxz hzy
    obtain ⟨d, hd, rfl⟩ := (h.found x).mp hxz.found.1
    obtain ⟨e, he, rfl⟩ := (h.found z).mp hxz.found.2
    obtain ⟨d', hd', rfl⟩ := (h.found y).mp hzy.found.2
    obtain ⟨k, hk⟩ := Option.ne_none_iff_exists'.mp hx
    have hd'k : d' ∈ withFamilyId produced k := h.mem_withFamilyId.mpr ⟨hd', hxy ▸ hk⟩
    obtain ⟨hdk, first, hfirst, last, hlast, hends, hcase⟩ := hends d hd k hk
    rw [h.precedes_iff hflat hd he] at hxz
    rw [h.precedes_iff hflat he hd'] at hzy
    rcases hcase with ⟨halone, -⟩ | ⟨hbeg, hend, hne⟩
    · -- one document alone, so all three are one
      rw [halone d' hd'k] at hzy
      have heq : d.evidenceItemId = e.evidenceItemId :=
        precedes_antisymm ((h.precedes_iff hflat hd he).mpr hxz)
          ((h.precedes_iff hflat he hd).mpr hzy)
      rw [heq]
      exact .refl _
    · exact hcovers d hd e he hne ⟨first, (h.mem_withFamilyId.mp hfirst).1, last,
        (h.mem_withFamilyId.mp hlast).1, hbeg.symm, hend.symm, (hends d hdk).1.trans hxz,
        hzy.trans (hends d' hd'k).2⟩
  · rintro hbetween d hd e he hne ⟨a, ha, b, hb, hbegA, hendB, hae, heb⟩
    rcases hk : familyIdOf tables d.evidenceItemId with _ | k
    · have hrange := h.range d hd
      rw [rangeFor, h.familyId d hd, hk] at hrange
      exact absurd (Prod.mk.inj hrange).1 hne
    obtain ⟨hdk, first, hfirst, last, hlast, hends, ⟨-, hnone⟩ | ⟨hbeg, hend, -⟩⟩ := hends d hd k hk
    · exact absurd hnone hne
    obtain ⟨hfirstMem, hfirstK⟩ := h.mem_withFamilyId.mp hfirst
    obtain ⟨hlastMem, hlastK⟩ := h.mem_withFamilyId.mp hlast
    obtain rfl := h.eq_of_begBates ha hfirstMem (hbegA.trans hbeg)
    obtain rfl := h.eq_of_endBates hb hlastMem (hendB.trans hend)
    -- everything between the ends is of the family of the first
    have hall : ∀ c ∈ produced, a.sortIndex ≤ c.sortIndex → c.sortIndex ≤ b.sortIndex →
        EqvGen link a.evidenceItemId c.evidenceItemId := fun c hc hac hcb =>
      hbetween _ b.evidenceItemId _ (by simp [hfirstK]) (hfirstK.trans hlastK.symm)
        ((h.precedes_iff hflat hfirstMem hc).mpr hac) ((h.precedes_iff hflat hc hlastMem).mpr hcb)
    exact .trans _ _ _ (.symm _ _ (hall d hd (hends d hdk).1 (hends d hdk).2)) (hall e he hae heb)

end Laid

end Main

section Main

variable {Id : Type} [LinearOrder Id] (link : Id → Id → Prop) (tables : Tables Id) (ids : List Id)
  (parameters : ProductionParameters Id)

/-- **The ranges of a run are those of the families** of a graph exactly if families are flat,
or, where families are not asked for, nothing else is sorted between their members. -/
theorem familiesRanged_iff (hids : ids.Nodup) {startNumber : ℕ} {pages : Id → ℕ}
    {produced : List (ProducedDraft Id)}
    (h : processProductionRun tables ids parameters startNumber pages = .ok produced) :
    FamiliesRanged link tables ids parameters produced ↔
      (parameters.selection.includeFamilies = true →
        ∀ root, IsRoot link tables ids root → Flat link tables ids root) ∧
      (parameters.selection.includeFamilies = false →
        NothingBetween link tables ids parameters.sort) := by
  have hlaid := laid_of_run hids h
  rw [FamiliesRanged]
  apply and_congr
  · apply imp_congr_right
    intro hfam
    exact forall₂_congr fun root hroot => hlaid.adjacent_iff hfam link hroot.1
  · apply imp_congr_right
    intro hflat
    exact hlaid.apart_iff hflat link

end Main

/-! ## Attachments of attachments -/

/-- A run over three items of one page each. -/
def threePages (tables : Tables ℕ) : Except BatesError (List (ProducedDraft ℕ)) :=
  processProductionRun tables [1, 2, 3] wholeFamilies 1 fun _ => 1

theorem found_three {tables : Tables ℕ}
    (h : (itemRows tables [1, 2, 3]).map EvidenceItem.id = [1, 2, 3]) {id : ℕ} :
    Found tables [1, 2, 3] id ↔ id = 1 ∨ id = 2 ∨ id = 3 := by
  simp [Found, h]

theorem isRoot_siblings {root : ℕ}
    (h : IsRoot (Link familyRelationshipKinds siblingTables) siblingTables [1, 2, 3] root) :
    root = 1 := by
  obtain ⟨hfound, htop⟩ := h
  have hmessage := htop 1 ((found_three (by decide)).mpr (.inl rfl))
  rcases (found_three (by decide)).mp hfound with rfl | hroot
  · rfl
  · exact absurd (.single (link_siblings.mpr ⟨rfl, hroot⟩)) hmessage

theorem flat_siblings :
    Flat (Link familyRelationshipKinds siblingTables) siblingTables [1, 2, 3] 1 := by
  refine ⟨?_, ?_⟩
  · intro x hx
    rcases (found_three (by decide)).mp hx with rfl | rfl | rfl
    · exact iff_of_true .refl (by decide)
    · exact iff_of_true (.single (link_siblings.mpr ⟨rfl, .inl rfl⟩)) (by decide)
    · exact iff_of_true (.single (link_siblings.mpr ⟨rfl, .inr rfl⟩)) (by decide)
  · intro hchild
    exact absurd hchild (by decide)

theorem familiesRanged_iff_siblings : ∃ produced, threePages siblingTables = .ok produced ∧
    FamiliesRanged (Link familyRelationshipKinds siblingTables) siblingTables [1, 2, 3]
      wholeFamilies produced := by
  obtain ⟨produced, h⟩ : ∃ produced, threePages siblingTables = .ok produced := ⟨_, rfl⟩
  refine ⟨produced, h, ?_⟩
  apply (familiesRanged_iff _ siblingTables [1, 2, 3] wholeFamilies (by decide) h).mpr
  refine ⟨?_, ?_⟩
  · intro _ root hroot
    obtain rfl := isRoot_siblings hroot
    exact flat_siblings
  · rintro ⟨⟩

/-- **The attachment of an attachment has no range**, and the range of the message ends
before it. -/
theorem nested_not_familiesRanged : ∃ produced, threePages nestedTables = .ok produced ∧
    ¬ FamiliesRanged (Link familyRelationshipKinds nestedTables) nestedTables [1, 2, 3]
      wholeFamilies produced := by
  obtain ⟨produced, h⟩ : ∃ produced, threePages nestedTables = .ok produced := ⟨_, rfl⟩
  refine ⟨produced, h, ?_⟩
  rintro ⟨hadjacent, -⟩
  have hfound : ∀ id, Found nestedTables [1, 2, 3] id ↔ id = 1 ∨ id = 2 ∨ id = 3 := fun _ =>
    found_three (by decide)
  have hlink : ∀ a b, (a, b) ∈ [(1, 2), (2, 3)] → Link familyRelationshipKinds nestedTables a b := by
    intro a b hab
    refine ⟨⟨a, b, .attachment⟩, ?_, List.mem_cons_self .., rfl, rfl⟩
    simpa [nestedTables, exampleTables] using hab
  have hroot : IsRoot (Link familyRelationshipKinds nestedTables) nestedTables [1, 2, 3] 1 := by
    refine ⟨(hfound 1).mpr (.inl rfl), fun a _ ha => ?_⟩
    -- nothing is linked to the message
    obtain ⟨_, -, rel, hrel, -, -, hchild⟩ := TransGen.tail'_iff.mp ha
    rcases List.mem_pair.mp hrel with rfl | rfl
    · cases hchild
    · cases hchild
  have hflat := ((laid_of_run (by decide) h).adjacent_iff rfl
    (Link familyRelationshipKinds nestedTables) hroot.1).mp (hadjacent rfl 1 hroot)
  have hfamily : Family (Link familyRelationshipKinds nestedTables) 1 3 :=
    (ReflTransGen.single (hlink 1 2 (by simp))).tail (hlink 2 3 (by simp))
  exact absurd ((hflat.1 3 ((hfound 3).mpr (.inr (.inr rfl)))).mp hfamily) (by decide)

end AegCloudDfir.Production
