import AegCloudDfir.Production.Validator

/-!
# The validator of the production package

`validateProductionSet` of `packages/production/src/validate.ts`. It is the validator of
the API written a second time, over a sheet in which some facts may be left out: what is
left out is filled in by `??` where it is used, and two facts can override what follows
from the links to parents. `ValidationItem.facts` fills in everything at once.

* `engine_validateProductionSet_eq` — with the overriding facts left out both validators
  compute the same, round for round.
* `validators_agree` — without a cycle among the links to parents both return, they return
  the same flags, and of items with distinct identifiers the order does not matter.
-/

namespace AegCloudDfir.Production

open Walk

/-- `ValidationItem`. An optional property is `none` if it is left out. -/
structure ValidationItem (Id : Type) where
  evidenceId : Id
  familyId : Option Id
  /-- left out, `null` or an identifier -/
  parentId : Option (Option Id)
  hasFinalRedactions : Bool
  hasPreviewRedactions : Bool
  isPrivileged : Bool
  hasPrivilegedDescendant : Bool
  isArchiveContainer : Bool
  isDuplicate : Bool
  malwareStatus : MalwareVerdict
  hasNative : Bool
  conversionSupported : Bool
  processed : Bool
  isEncrypted : Bool
  hasText : Bool
  sizeBytes : ℕ
  wouldProduceNative : Bool
  isCorrupt : Option Bool
  isFamilyChild : Option Bool

namespace Engine

variable {Id : Type} [LinearOrder Id]

/-- `item.parentId ?? null` -/
def parentIdOf (item : ValidationItem Id) : Option Id := item.parentId.getD none

/-- `byId` -/
def byId (items : List (ValidationItem Id)) : JsMap Id (ValidationItem Id) :=
  JsMap.ofEntries (items.map fun item => (item.evidenceId, item))

/-- The items with a parent among the items, under their parents. -/
def childLinks (items : List (ValidationItem Id)) : List (Id × ValidationItem Id) :=
  items.filterMap fun item =>
    match parentIdOf item with
    | some parentId => if ((byId items).get? parentId).isSome then some (parentId, item) else none
    | none => none

/-- `childrenOf.get(item.evidenceId) ?? []` -/
def children (items : List (ValidationItem Id)) (item : ValidationItem Id) :
    List (ValidationItem Id) :=
  ((JsMap.group (childLinks items)).get? item.evidenceId).getD []

/-- `descendantHasFinalRedactions` -/
def descendantHasFinalRedactions (rounds : ℕ) (items : List (ValidationItem Id))
    (item : ValidationItem Id) : Option Bool :=
  walk (children items) ValidationItem.hasFinalRedactions rounds (children items item).reverse

/-- `ancestorHasFinalRedactions` -/
def ancestorHasFinalRedactions (items : List (ValidationItem Id)) (item : ValidationItem Id) :
    Bool :=
  (ascend (byId items).get? parentIdOf ValidationItem.hasFinalRedactions (items.length + 1)
    [item.evidenceId] (parentIdOf item)).getD false

/-- `descendantIsPrivileged` -/
def descendantIsPrivileged (rounds : ℕ) (items : List (ValidationItem Id))
    (item : ValidationItem Id) : Option Bool :=
  walk (children items) ValidationItem.isPrivileged rounds (children items item).reverse

/-- `if (applies) add(code, item.evidenceId)` -/
def note (item : ValidationItem Id) (code : ValidationFlagCode) (applies : Bool) :
    List (Offence Id) :=
  if applies then [(code, item.evidenceId)] else []

/-- The condition of `redacted_native_leak`. -/
def leaksNative (rounds : ℕ) (items : List (ValidationItem Id)) (item : ValidationItem Id) :
    Option Bool :=
  if item.wouldProduceNative then
    if item.hasFinalRedactions then some true
    else descendantHasFinalRedactions rounds items item
  else some false

/-- The condition of `privileged_descendant_container`. -/
def containsPrivileged (rounds : ℕ) (items : List (ValidationItem Id))
    (item : ValidationItem Id) : Option Bool :=
  if item.isPrivileged then some false
  else if item.hasPrivilegedDescendant then some true
  else descendantIsPrivileged rounds items item

/-- What is noted of one item. -/
def itemOffences (rounds : ℕ) (items : List (ValidationItem Id))
    (params : ProductionValidationParams) (item : ValidationItem Id) :
    Option (List (Offence Id)) := do
  let leaks ← leaksNative rounds items item
  let privilegedBelow ← containsPrivileged rounds items item
  let needsNative := params.output = .nativesOnly || item.wouldProduceNative
  pure <|
    note item .redactedNativeLeak leaks ++
    note item .redactedAncestorNativeLeak
      (item.wouldProduceNative && ancestorHasFinalRedactions items item) ++
    note item .privilegedItem item.isPrivileged ++
    note item .privilegedDescendantContainer privilegedBelow ++
    note item .archiveContainer item.isArchiveContainer ++
    note item .duplicateItem item.isDuplicate ++
    note item .malwareItem
      (item.malwareStatus = .infected || item.malwareStatus = .suspicious) ++
    note item .missingNative (needsNative && !item.hasNative) ++
    note item .unsupportedConversion
      (params.output.rendersImages && !item.conversionSupported) ++
    note item .unprocessedItem (!item.processed) ++
    note item .encryptedFile item.isEncrypted ++
    note item .missingText (params.output.wantsText && !item.hasText) ++
    note item .zeroByteItem (item.sizeBytes = 0) ++
    note item .corruptItem (item.isCorrupt = some true) ++
    note item .previewRedactionsInRelease
      (params.redactionStage = .final && item.hasPreviewRedactions)

/-- `families` -/
def families (items : List (ValidationItem Id)) : JsMap Id (List (ValidationItem Id)) :=
  JsMap.group (items.filterMap fun item => item.familyId.map fun familyId => (familyId, item))

/-- `isChild` -/
def isChild (m : ValidationItem Id) : Bool := m.isFamilyChild.getD (parentIdOf m).isSome

/-- What is noted of one family. -/
def familyOffences (members : List (ValidationItem Id)) : List (Offence Id) :=
  let children := members.filter isChild
  let parents := members.filter fun m => !isChild m
  if parents.length = 0 ∧ children.length > 0 then
    children.map fun child => (.familySplit, child.evidenceId)
  else if parents.length > 0 ∧ children.length = 0 then
    parents.map fun parent => (.familySplit, parent.evidenceId)
  else []

/-- Everything that is noted. -/
def offences (rounds : ℕ) (items : List (ValidationItem Id))
    (params : ProductionValidationParams) : Option (List (Offence Id)) := do
  let noted ← items.mapM (itemOffences rounds items params)
  pure <| noted.flatten ++
    if params.includeFamilies then (families items).flatMap fun e => familyOffences e.2 else []

/-- `validateProductionSet` of `packages/production`. -/
def validateProductionSet (rounds : ℕ) (items : List (ValidationItem Id))
    (params : ProductionValidationParams) : Option (List (ValidationFlag Id)) :=
  (offences rounds items params).map flagsOf

end Engine

variable {Id : Type}

/-- The sheet of the API for an item: what is left out is filled in. -/
def ValidationItem.facts (item : ValidationItem Id) : ProductionValidationItem Id where
  evidenceId := item.evidenceId
  familyId := item.familyId
  parentId := Engine.parentIdOf item
  hasFinalRedactions := item.hasFinalRedactions
  hasPreviewRedactions := item.hasPreviewRedactions
  isPrivileged := item.isPrivileged
  isArchiveContainer := item.isArchiveContainer
  isDuplicate := item.isDuplicate
  malwareStatus := item.malwareStatus
  hasNative := item.hasNative
  conversionSupported := item.conversionSupported
  processed := item.processed
  isEncrypted := item.isEncrypted
  hasText := item.hasText
  sizeBytes := item.sizeBytes
  wouldProduceNative := item.wouldProduceNative
  isCorrupt := item.isCorrupt = some true

/-- Nothing overrides what follows from the links. -/
structure ValidationItem.Plain (item : ValidationItem Id) : Prop where
  hasPrivilegedDescendant : item.hasPrivilegedDescendant = false
  isFamilyChild : item.isFamilyChild = none

/-! ## Agreement -/

section Agreement

variable [LinearOrder Id] {items : List (ValidationItem Id)}

theorem byId_facts (id : Id) :
    (byId (items.map ValidationItem.facts)).get? id =
      ((Engine.byId items).get? id).map ValidationItem.facts := by
  rw [Engine.byId, ← JsMap.get?_ofEntries_map, byId, List.map_map, List.map_map]
  rfl

theorem childLinks_facts :
    childLinks (items.map ValidationItem.facts) =
      (Engine.childLinks items).map fun e => (e.1, e.2.facts) := by
  rw [childLinks, Engine.childLinks, List.filterMap_map, List.map_filterMap]
  apply List.filterMap_congr
  intro item _
  simp only [Function.comp_apply, byId_facts, ValidationItem.facts, Option.isSome_map]
  rcases hparent : Engine.parentIdOf item with _ | parentId
  · rfl
  · by_cases hhas : ((Engine.byId items).get? parentId).isSome <;> simp [hhas, hparent]

theorem children_facts (item : ValidationItem Id) :
    children (items.map ValidationItem.facts) item.facts =
      (Engine.children items item).map ValidationItem.facts := by
  rw [children, childrenOf, childLinks_facts, JsMap.getD_group, JsMap.valuesAt_map,
    Engine.children, JsMap.getD_group]
  rfl

theorem leaksNative_facts (rounds : ℕ) (item : ValidationItem Id) :
    leaksNative rounds (items.map ValidationItem.facts) item.facts =
      Engine.leaksNative rounds items item := by
  rw [leaksNative, anyDescendant, children_facts, ← List.map_reverse,
    walk_map children_facts (fun _ => rfl)]
  rfl

theorem ancestors_facts (item : ValidationItem Id) :
    anyAncestorFinallyRedacted (items.map ValidationItem.facts) item.facts =
      Engine.ancestorHasFinalRedactions items item := by
  rw [anyAncestorFinallyRedacted, List.length_map,
    ascend_map byId_facts (fun _ => rfl) (fun _ => rfl)]
  rfl

theorem containsPrivileged_facts (rounds : ℕ) {item : ValidationItem Id} (h : item.Plain) :
    containsPrivileged rounds (items.map ValidationItem.facts) item.facts =
      Engine.containsPrivileged rounds items item := by
  rw [containsPrivileged, anyDescendant, children_facts, ← List.map_reverse,
    walk_map children_facts (fun _ => rfl), Engine.containsPrivileged, h.hasPrivilegedDescendant]
  rfl

theorem itemOffences_facts (rounds : ℕ) (params : ProductionValidationParams)
    {item : ValidationItem Id} (h : item.Plain) :
    itemOffences rounds (items.map ValidationItem.facts) params item.facts =
      Engine.itemOffences rounds items params item := by
  rw [itemOffences, leaksNative_facts, containsPrivileged_facts rounds h, ancestors_facts]
  rfl

theorem families_facts :
    families (items.map ValidationItem.facts) =
      (Engine.families items).map fun e => (e.1, e.2.map ValidationItem.facts) := by
  rw [Engine.families, ← JsMap.group_map, families, List.filterMap_map, List.map_filterMap]
  congr 1
  apply List.filterMap_congr
  intro item _
  rw [Option.map_map]
  rfl

omit [LinearOrder Id] in
theorem isChild_facts {m : ValidationItem Id} (h : m.Plain) :
    Engine.isChild m = decide (m.facts.parentId ≠ none) := by
  rw [Engine.isChild, h.isFamilyChild, Option.getD_none, ValidationItem.facts]
  cases Engine.parentIdOf m <;> rfl

omit [LinearOrder Id] in
theorem familyOffences_facts {members : List (ValidationItem Id)} (h : ∀ m ∈ members, m.Plain) :
    familyOffences (members.map ValidationItem.facts) = Engine.familyOffences members := by
  have hchildren : (members.map ValidationItem.facts).filter (fun m => m.parentId ≠ none) =
      (members.filter Engine.isChild).map ValidationItem.facts := by
    rw [List.filter_map]
    congr 1
    exact List.filter_congr fun m hm => (isChild_facts (h m hm)).symm
  have hparents : (members.map ValidationItem.facts).filter (fun m => m.parentId = none) =
      (members.filter fun m => !Engine.isChild m).map ValidationItem.facts := by
    rw [List.filter_map]
    congr 1
    apply List.filter_congr
    intro m hm
    simp [isChild_facts (h m hm)]
  rw [familyOffences, Engine.familyOffences, hchildren, hparents]
  simp only [List.length_map, List.map_map]
  rfl

variable (items)

/-- **Both validators compute the same**, round for round. -/
theorem engine_validateProductionSet_eq (rounds : ℕ) (params : ProductionValidationParams)
    (h : ∀ item ∈ items, item.Plain) :
    Engine.validateProductionSet rounds items params =
      validateProductionSet rounds (items.map ValidationItem.facts) params := by
  have hitems : (items.map ValidationItem.facts).mapM
      (itemOffences rounds (items.map ValidationItem.facts) params) =
        items.mapM (Engine.itemOffences rounds items params) := by
    rw [List.mapM_map]
    exact mapM_congr fun item hitem => itemOffences_facts rounds params (h item hitem)
  have hfamilies : ((families (items.map ValidationItem.facts)).flatMap fun e =>
      familyOffences e.2) = (Engine.families items).flatMap fun e => Engine.familyOffences e.2 := by
    rw [families_facts, List.flatMap_map]
    apply List.flatMap_congr
    rintro ⟨familyId, members⟩ he
    apply familyOffences_facts
    intro m hm
    -- the members of a family are items
    obtain ⟨rfl, -⟩ := JsMap.mem_group_iff.mp he
    obtain ⟨item, hitem, heq⟩ := List.mem_filterMap.mp (JsMap.mem_valuesAt.mp hm)
    obtain ⟨f, -, hfm⟩ := Option.map_eq_some_iff.mp heq
    obtain ⟨-, rfl⟩ := Prod.mk.inj hfm
    exact h item hitem
  rw [validateProductionSet, offences, hitems, hfamilies, Engine.validateProductionSet,
    Engine.offences, funext engine_flagsOf_eq]

/-- **The two validators agree.** Without a cycle among the links to parents both return,
with the same flags, and of items with distinct identifiers the order does not matter. -/
theorem validators_agree (params : ProductionValidationParams)
    (hplain : ∀ item ∈ items, item.Plain)
    (hacyclic : AcyclicParents (items.map ValidationItem.facts)) :
    ∃ flags : List (ValidationFlag Id),
      (∃ rounds, ∀ n ≥ rounds,
        validateProductionSet n (items.map ValidationItem.facts) params = some flags ∧
        Engine.validateProductionSet n items params = some flags) ∧
      (∀ flag ∈ flags, flag.evidenceItemIds.Pairwise (· < ·)) ∧
      ((items.map ValidationItem.evidenceId).Nodup → ∀ items', items.Perm items' →
        ∃ rounds, ∀ n ≥ rounds,
          validateProductionSet n (items'.map ValidationItem.facts) params = some flags ∧
          Engine.validateProductionSet n items' params = some flags) := by
  obtain ⟨flags, rounds, h⟩ := returns_of_acyclic hacyclic params
  refine ⟨flags, ⟨rounds, fun n hn => ?_⟩, fun flag hflag => ?_, fun hnodup items' hperm => ?_⟩
  · have hmono := validateProductionSet_mono h hn
    exact ⟨hmono, (engine_validateProductionSet_eq items n params hplain).trans hmono⟩
  · obtain ⟨noted, rfl, -⟩ := Returns.exists_offences ⟨rounds, h⟩
    exact sorted_evidenceItemIds hflag
  · have hfacts := hperm.map ValidationItem.facts
    have hnodup' : ((items.map ValidationItem.facts).map
        ProductionValidationItem.evidenceId).Nodup := by
      rw [List.map_map]
      exact hnodup
    obtain ⟨flags', rounds', h'⟩ := returns_of_acyclic (hacyclic.perm hfacts) params
    obtain rfl : flags' = flags := Returns.perm hfacts hnodup' ⟨rounds, h⟩ ⟨rounds', h'⟩
    refine ⟨rounds', fun n hn => ?_⟩
    have hmono := validateProductionSet_mono h' hn
    have hplain' : ∀ item ∈ items', item.Plain := fun item hitem =>
      hplain item (hperm.mem_iff.mpr hitem)
    exact ⟨hmono, (engine_validateProductionSet_eq items' n params hplain').trans hmono⟩

end Agreement

/-- A sheet of the API, passed on with nothing left out but what would override it. -/
def ProductionValidationItem.sheet (item : ProductionValidationItem Id) : ValidationItem Id where
  evidenceId := item.evidenceId
  familyId := item.familyId
  parentId := some item.parentId
  hasFinalRedactions := item.hasFinalRedactions
  hasPreviewRedactions := item.hasPreviewRedactions
  isPrivileged := item.isPrivileged
  hasPrivilegedDescendant := false
  isArchiveContainer := item.isArchiveContainer
  isDuplicate := item.isDuplicate
  malwareStatus := item.malwareStatus
  hasNative := item.hasNative
  conversionSupported := item.conversionSupported
  processed := item.processed
  isEncrypted := item.isEncrypted
  hasText := item.hasText
  sizeBytes := item.sizeBytes
  wouldProduceNative := item.wouldProduceNative
  isCorrupt := some item.isCorrupt
  isFamilyChild := none

/-- Every sheet of the API is the sheet of a plain item. -/
theorem facts_sheet (item : ProductionValidationItem Id) :
    item.sheet.facts = item ∧ item.sheet.Plain := by
  refine ⟨?_, rfl, rfl⟩
  simp [ProductionValidationItem.sheet, ValidationItem.facts, Engine.parentIdOf]

/-- A clean item with a native and text. -/
def exampleSheet (id : ℕ) (parentId : Option ℕ) : ProductionValidationItem ℕ where
  evidenceId := id
  familyId := some (parentId.getD id)
  parentId
  hasFinalRedactions := false
  hasPreviewRedactions := false
  isPrivileged := false
  isArchiveContainer := false
  isDuplicate := false
  malwareStatus := .clean
  hasNative := true
  conversionSupported := true
  processed := true
  isEncrypted := false
  hasText := true
  sizeBytes := 1
  wouldProduceNative := true
  isCorrupt := false

/-- Links that go down have no cycle. -/
theorem acyclicParents_of_lt {items : List (ProductionValidationItem ℕ)}
    (h : ∀ item ∈ items, ∀ parentId, item.parentId = some parentId → parentId < item.evidenceId) :
    AcyclicParents items := by
  apply Acyclic.of_lt id
  rintro _ parent ⟨item, hitem, rfl, hparent⟩
  exact h item hitem parent hparent

theorem validators_agree_example :
    ∃ flags : List (ValidationFlag ℕ), ∃ rounds,
      validateProductionSet rounds [exampleSheet 1 none, exampleSheet 2 (some 1)]
        ⟨true, .final, .nativesOnly⟩ = some flags ∧
      Engine.validateProductionSet rounds
        [(exampleSheet 1 none).sheet, (exampleSheet 2 (some 1)).sheet]
        ⟨true, .final, .nativesOnly⟩ = some flags := by
  have hfacts : [(exampleSheet 1 none).sheet, (exampleSheet 2 (some 1)).sheet].map
      ValidationItem.facts = [exampleSheet 1 none, exampleSheet 2 (some 1)] := by
    simp only [List.map_cons, List.map_nil, facts_sheet]
  have hplain : ∀ item ∈ [(exampleSheet 1 none).sheet, (exampleSheet 2 (some 1)).sheet],
      item.Plain := by
    simp [facts_sheet]
  have hacyclic : AcyclicParents ([(exampleSheet 1 none).sheet,
      (exampleSheet 2 (some 1)).sheet].map ValidationItem.facts) := by
    rw [hfacts]
    apply acyclicParents_of_lt
    simp [exampleSheet]
  obtain ⟨flags, ⟨rounds, h⟩, -⟩ := validators_agree
    [(exampleSheet 1 none).sheet, (exampleSheet 2 (some 1)).sheet] ⟨true, .final, .nativesOnly⟩
    hplain hacyclic
  rw [hfacts] at h
  exact ⟨flags, rounds, h rounds le_rfl⟩

end AegCloudDfir.Production
