import AegCloudDfir.Lib.Walk
import AegCloudDfir.Production.Flags

/-!
# The validator of the API

`validateProductionSet` of `apps/api/src/productions/production.validator.ts`: which flags
a selection raises, from a sheet of facts about every item.

Two rules look beyond an item. A native leaks redacted content if something below the item
has final redactions, and the loop that looks there (`anyDescendant`) does not remember
where it has been; a native also leaks if something above the item has final redactions,
and that loop (`anyAncestorFinallyRedacted`) does remember. So validation is given a number
of rounds for the first loop, and says `none` if they do not suffice.

* `validateProductionSet_eq_some` — the flags of a validation that returns are those of the
  offences `Noted` describes without any loop.
* `returns_iff` — validation returns exactly if every descent it makes ends, and
  `returns_of_acyclic` that it does if the links to parents have no cycle.
* `validateProductionSet_perm` — for items with distinct identifiers their order does not
  matter.
-/

namespace AegCloudDfir.Production

open Walk Relation

/-- `malwareStatus` as the validators see it. -/
inductive MalwareVerdict : Type where
  | clean
  | unscanned
  | suspicious
  | infected
  deriving DecidableEq

/-- `RedactionStage` -/
inductive RedactionStage : Type where
  | preview
  | final
  deriving DecidableEq

/-- `imageFormat` -/
inductive ImageFormat : Type where
  | tiffG4
  | jpeg
  | pdf
  | none
  deriving DecidableEq

/-- `productionOutputMode` -/
inductive OutputMode : Type where
  | nativesOnly
  | pdfOnly
  | loadFile (imageFormat : ImageFormat) (includeNatives includeText : Bool)
  deriving DecidableEq

/-- `ProductionValidationItem` -/
structure ProductionValidationItem (Id : Type) where
  evidenceId : Id
  familyId : Option Id
  parentId : Option Id
  hasFinalRedactions : Bool
  hasPreviewRedactions : Bool
  isPrivileged : Bool
  isArchiveContainer : Bool
  isDuplicate : Bool
  malwareStatus : MalwareVerdict
  hasNative : Bool
  conversionSupported : Bool
  processed : Bool
  isEncrypted : Bool
  hasText : Bool
  sizeBytes : ℕ
  wouldProduceNative : Bool
  isCorrupt : Bool

/-- `ProductionValidationParams` -/
structure ProductionValidationParams where
  includeFamilies : Bool
  redactionStage : RedactionStage
  output : OutputMode

/-- `rendersImages` -/
def OutputMode.rendersImages : OutputMode → Bool
  | .nativesOnly => false
  | .pdfOnly => true
  | .loadFile imageFormat _ _ => imageFormat ≠ .none

/-- `wantsText` -/
def OutputMode.wantsText : OutputMode → Bool
  | .loadFile _ _ includeText => includeText
  | _ => false

section Validate

variable {Id : Type} [LinearOrder Id]

/-- `byId` -/
def byId (items : List (ProductionValidationItem Id)) : JsMap Id (ProductionValidationItem Id) :=
  JsMap.ofEntries (items.map fun item => (item.evidenceId, item))

/-- The items with a parent among the items, under their parents. -/
def childLinks (items : List (ProductionValidationItem Id)) :
    List (Id × ProductionValidationItem Id) :=
  items.filterMap fun item =>
    match item.parentId with
    | some parentId => if ((byId items).get? parentId).isSome then some (parentId, item) else none
    | none => none

/-- `childrenOf` -/
def childrenOf (items : List (ProductionValidationItem Id)) :
    JsMap Id (List (ProductionValidationItem Id)) :=
  JsMap.group (childLinks items)

/-- `childrenOf.get(item.evidenceId) ?? []` -/
def children (items : List (ProductionValidationItem Id)) (item : ProductionValidationItem Id) :
    List (ProductionValidationItem Id) :=
  ((childrenOf items).get? item.evidenceId).getD []

/-- `anyDescendant` -/
def anyDescendant (rounds : ℕ) (items : List (ProductionValidationItem Id))
    (item : ProductionValidationItem Id) (predicate : ProductionValidationItem Id → Bool) :
    Option Bool :=
  walk (children items) predicate rounds (children items item).reverse

/-- `anyAncestorFinallyRedacted`. Every round but the last sees another of the items. -/
def anyAncestorFinallyRedacted (items : List (ProductionValidationItem Id))
    (item : ProductionValidationItem Id) : Bool :=
  (ascend (byId items).get? ProductionValidationItem.parentId
    ProductionValidationItem.hasFinalRedactions (items.length + 1) [item.evidenceId]
    item.parentId).getD false

/-- `if (applies) add(code, item.evidenceId)` -/
def note (item : ProductionValidationItem Id) (code : ValidationFlagCode) (applies : Bool) :
    List (Offence Id) :=
  if applies then [(code, item.evidenceId)] else []

/-- The condition of `redacted_native_leak`. -/
def leaksNative (rounds : ℕ) (items : List (ProductionValidationItem Id))
    (item : ProductionValidationItem Id) : Option Bool :=
  if item.wouldProduceNative then
    if item.hasFinalRedactions then some true
    else anyDescendant rounds items item ProductionValidationItem.hasFinalRedactions
  else some false

/-- The condition of `privileged_descendant_container`. -/
def containsPrivileged (rounds : ℕ) (items : List (ProductionValidationItem Id))
    (item : ProductionValidationItem Id) : Option Bool :=
  if item.isPrivileged then some false
  else anyDescendant rounds items item ProductionValidationItem.isPrivileged

/-- What is noted of one item. -/
def itemOffences (rounds : ℕ) (items : List (ProductionValidationItem Id))
    (params : ProductionValidationParams) (item : ProductionValidationItem Id) :
    Option (List (Offence Id)) := do
  let leaks ← leaksNative rounds items item
  let privilegedBelow ← containsPrivileged rounds items item
  pure <|
    note item .redactedNativeLeak leaks ++
    note item .redactedAncestorNativeLeak
      (item.wouldProduceNative && anyAncestorFinallyRedacted items item) ++
    note item .privilegedItem item.isPrivileged ++
    note item .privilegedDescendantContainer privilegedBelow ++
    note item .archiveContainer item.isArchiveContainer ++
    note item .duplicateItem item.isDuplicate ++
    note item .malwareItem
      (item.malwareStatus = .infected || item.malwareStatus = .suspicious) ++
    note item .missingNative
      ((params.output = .nativesOnly || item.wouldProduceNative) && !item.hasNative) ++
    note item .unsupportedConversion
      (params.output.rendersImages && !item.conversionSupported) ++
    note item .unprocessedItem (!item.processed) ++
    note item .encryptedFile item.isEncrypted ++
    note item .missingText (params.output.wantsText && !item.hasText) ++
    note item .zeroByteItem (item.sizeBytes = 0) ++
    note item .corruptItem item.isCorrupt ++
    note item .previewRedactionsInRelease
      (params.redactionStage = .final && item.hasPreviewRedactions)

/-- `families` -/
def families (items : List (ProductionValidationItem Id)) :
    JsMap Id (List (ProductionValidationItem Id)) :=
  JsMap.group (items.filterMap fun item => item.familyId.map fun familyId => (familyId, item))

/-- What is noted of one family. -/
def familyOffences (members : List (ProductionValidationItem Id)) : List (Offence Id) :=
  let children := members.filter fun m => m.parentId ≠ none
  let parents := members.filter fun m => m.parentId = none
  if parents.length = 0 ∧ children.length > 0 then
    children.map fun child => (.familySplit, child.evidenceId)
  else if parents.length > 0 ∧ children.length = 0 then
    parents.map fun parent => (.familySplit, parent.evidenceId)
  else []

/-- Everything that is noted. -/
def offences (rounds : ℕ) (items : List (ProductionValidationItem Id))
    (params : ProductionValidationParams) : Option (List (Offence Id)) := do
  let noted ← items.mapM (itemOffences rounds items params)
  pure <| noted.flatten ++
    if params.includeFamilies then (families items).flatMap fun e => familyOffences e.2 else []

/-- `validateProductionSet` of the API. -/
def validateProductionSet (rounds : ℕ) (items : List (ProductionValidationItem Id))
    (params : ProductionValidationParams) : Option (List (ValidationFlag Id)) :=
  (offences rounds items params).map flagsOf

/-- Validation returns the flags. -/
def Returns (items : List (ProductionValidationItem Id)) (params : ProductionValidationParams)
    (flags : List (ValidationFlag Id)) : Prop :=
  ∃ rounds, validateProductionSet rounds items params = some flags

/-! ## What the flags say -/

/-- `y` is recorded as a child of `x`. -/
def Child (items : List (ProductionValidationItem Id)) (x y : ProductionValidationItem Id) : Prop :=
  y ∈ items ∧ y.parentId = some x.evidenceId

/-- `c` lies below `x`, whatever is between them being among the items. -/
def Descends (items : List (ProductionValidationItem Id)) (x c : ProductionValidationItem Id) :
    Prop := TransGen (Child items) x c

/-- `a` lies above `x`, and the way up does not come back to `x`. -/
def Ascends (items : List (ProductionValidationItem Id)) (x a : ProductionValidationItem Id) :
    Prop :=
  ∃ parentId, x.parentId = some parentId ∧
    Above (byId items).get? ProductionValidationItem.parentId [x.evidenceId] parentId a

/-- The rule of a code applies to an item. -/
def Applies (items : List (ProductionValidationItem Id)) (params : ProductionValidationParams)
    (item : ProductionValidationItem Id) : ValidationFlagCode → Prop
  | .redactedNativeLeak =>
    item.wouldProduceNative ∧
      (item.hasFinalRedactions ∨ ∃ c, Descends items item c ∧ c.hasFinalRedactions)
  | .redactedAncestorNativeLeak =>
    item.wouldProduceNative ∧ ∃ a, Ascends items item a ∧ a.hasFinalRedactions
  | .privilegedItem => item.isPrivileged
  | .privilegedDescendantContainer =>
    ¬ item.isPrivileged ∧ ∃ c, Descends items item c ∧ c.isPrivileged
  | .archiveContainer => item.isArchiveContainer
  | .duplicateItem => item.isDuplicate
  | .malwareItem => item.malwareStatus = .infected ∨ item.malwareStatus = .suspicious
  | .missingNative => (params.output = .nativesOnly ∨ item.wouldProduceNative) ∧ ¬ item.hasNative
  | .unsupportedConversion => params.output.rendersImages ∧ ¬ item.conversionSupported
  | .unprocessedItem => ¬ item.processed
  | .encryptedFile => item.isEncrypted
  | .missingText => params.output.wantsText ∧ ¬ item.hasText
  | .zeroByteItem => item.sizeBytes = 0
  | .corruptItem => item.isCorrupt
  | .previewRedactionsInRelease => params.redactionStage = .final ∧ item.hasPreviewRedactions
  | .duplicateBatesRange | .familySplit | .selectionChangedSinceDraft => False

/-- The items of a family all have a parent, or none of them has. -/
def OneSided (items : List (ProductionValidationItem Id)) (familyId : Id) : Prop :=
  (∀ m ∈ items, m.familyId = some familyId → m.parentId ≠ none) ∨
    ∀ m ∈ items, m.familyId = some familyId → m.parentId = none

/-- What is noted. -/
def Noted (items : List (ProductionValidationItem Id)) (params : ProductionValidationParams)
    (o : Offence Id) : Prop :=
  ∃ item ∈ items, item.evidenceId = o.2 ∧
    (Applies items params item o.1 ∨
      o.1 = .familySplit ∧ params.includeFamilies ∧
        ∃ familyId, item.familyId = some familyId ∧ OneSided items familyId)

/-- The descents validation makes from an item end. -/
def DescentsEnd (items : List (ProductionValidationItem Id)) (item : ProductionValidationItem Id) :
    Prop :=
  (item.wouldProduceNative → ¬ item.hasFinalRedactions →
    Ends (children items) ProductionValidationItem.hasFinalRedactions
      (children items item).reverse) ∧
  (¬ item.isPrivileged →
    Ends (children items) ProductionValidationItem.isPrivileged (children items item).reverse)

variable {items : List (ProductionValidationItem Id)} {params : ProductionValidationParams}
  {item : ProductionValidationItem Id}

/-! ## The loops -/

theorem isSome_byId {id : Id} :
    ((byId items).get? id).isSome ↔ ∃ x ∈ items, x.evidenceId = id := by
  rw [byId, JsMap.get?_ofEntries]
  refine ⟨?_, ?_⟩
  · intro h
    obtain ⟨x, hx⟩ := Option.isSome_iff_exists.mp h
    have hmem := JsMap.mem_valuesAt.mp (List.mem_of_getLast? hx)
    obtain ⟨y, hy, heq⟩ := List.mem_map.mp hmem
    exact ⟨y, hy, congrArg Prod.fst heq⟩
  · rintro ⟨x, hx, rfl⟩
    have hmem : x ∈ JsMap.valuesAt (items.map fun item => (item.evidenceId, item)) x.evidenceId :=
      JsMap.mem_valuesAt.mpr (List.mem_map.mpr ⟨x, hx, rfl⟩)
    simpa using List.ne_nil_of_mem hmem

theorem mem_of_byId {id : Id} {x : ProductionValidationItem Id}
    (h : (byId items).get? id = some x) : x ∈ items ∧ x.evidenceId = id := by
  rw [byId, JsMap.get?_ofEntries] at h
  have hmem := JsMap.mem_valuesAt.mp (List.mem_of_getLast? h)
  obtain ⟨y, hy, heq⟩ := List.mem_map.mp hmem
  obtain ⟨rfl, rfl⟩ := Prod.mk.inj heq
  exact ⟨hy, rfl⟩

theorem mem_children {x y : ProductionValidationItem Id} (hx : x ∈ items) :
    y ∈ children items x ↔ Child items x y := by
  have hhas : ((byId items).get? x.evidenceId).isSome := isSome_byId.mpr ⟨x, hx, rfl⟩
  rw [children, childrenOf, JsMap.getD_group, JsMap.mem_valuesAt, childLinks, List.mem_filterMap]
  refine ⟨?_, ?_⟩
  · rintro ⟨z, hz, heq⟩
    rcases hp : z.parentId with _ | p
    · simp [hp] at heq
    · simp only [hp] at heq
      split_ifs at heq
      obtain ⟨rfl, rfl⟩ := Prod.mk.inj (Option.some.inj heq)
      exact ⟨hz, hp⟩
  · rintro ⟨hy, hp⟩
    exact ⟨y, hy, by simp [hp, hhas]⟩

/-- What the loop downwards reaches from an item. -/
theorem below_iff {x c : ProductionValidationItem Id} (hx : x ∈ items) :
    Below (children items) x c ↔ ReflTransGen (Child items) x c := by
  -- everything on the way is among the items
  refine ⟨?_, ?_⟩
  · intro h
    have hboth : ReflTransGen (Child items) x c ∧ c ∈ items := by
      induction h with
      | refl => exact ⟨.refl, hx⟩
      | tail _ hstep ih =>
        have hchild := (mem_children ih.2).mp hstep
        exact ⟨ih.1.tail hchild, hchild.1⟩
    exact hboth.1
  · intro h
    have hboth : Below (children items) x c ∧ c ∈ items := by
      induction h with
      | refl => exact ⟨.refl, hx⟩
      | tail _ hchild ih => exact ⟨ih.1.tail ((mem_children ih.2).mpr hchild), hchild.1⟩
    exact hboth.1

/-- **The loop downwards finds what lies below.** -/
theorem anyDescendant_eq_some (hitem : item ∈ items) {rounds : ℕ}
    {predicate : ProductionValidationItem Id → Bool} {b : Bool}
    (h : anyDescendant rounds items item predicate = some b) :
    b = true ↔ ∃ c, Descends items item c ∧ predicate c := by
  rw [walk_eq_some h]
  refine ⟨?_, ?_⟩
  · rintro ⟨x, hx, c, hc, hpred⟩
    have hchild := (mem_children hitem).mp (List.mem_reverse.mp hx)
    exact ⟨c, TransGen.head'_iff.mpr ⟨x, hchild, (below_iff hchild.1).mp hc⟩, hpred⟩
  · rintro ⟨c, hc, hpred⟩
    obtain ⟨x, hchild, hc⟩ := TransGen.head'_iff.mp hc
    exact ⟨x, List.mem_reverse.mpr ((mem_children hitem).mpr hchild), c,
      (below_iff hchild.1).mpr hc, hpred⟩

/-- **The loop upwards finds what lies above.** -/
theorem anyAncestorFinallyRedacted_iff :
    anyAncestorFinallyRedacted items item ↔
      ∃ a, Ascends items item a ∧ a.hasFinalRedactions := by
  have hkeys : ∀ k a, (byId items).get? k = some a →
      k ∈ items.map ProductionValidationItem.evidenceId := fun k a h =>
    List.mem_map.mpr ⟨a, mem_of_byId h⟩
  have hrounds : ((items.map ProductionValidationItem.evidenceId).filter
      (· ∉ [item.evidenceId])).length < items.length + 1 := by
    have := List.length_filter_le (fun k => decide (k ∉ [item.evidenceId]))
      (items.map ProductionValidationItem.evidenceId)
    simp only [List.length_map] at this
    omega
  have hends : ∃ b, ascend (byId items).get? ProductionValidationItem.parentId
      ProductionValidationItem.hasFinalRedactions (items.length + 1) [item.evidenceId]
      item.parentId = some b := ascend_ends hkeys hrounds item.parentId
  obtain ⟨b, hb⟩ := hends
  rw [anyAncestorFinallyRedacted, hb, Option.getD_some]
  rcases hparent : item.parentId with _ | parentId
  · have hfalse : b = false := by
      rw [hparent, ascend] at hb
      exact (Option.some.inj hb).symm
    simp [hfalse, Ascends, hparent]
  · rw [hparent] at hb
    simp only [ascend_eq_some hb, Ascends, hparent, Option.some.injEq, exists_eq_left']

/-! ## What is noted -/

omit [LinearOrder Id] in
theorem mem_note {code : ValidationFlagCode} {b : Bool} {o : Offence Id} :
    o ∈ note item code b ↔ o = (code, item.evidenceId) ∧ b := by
  cases b <;> simp [note]

theorem leaksNative_eq_some (hitem : item ∈ items) {rounds : ℕ} {b : Bool}
    (h : leaksNative rounds items item = some b) :
    b ↔ Applies items params item .redactedNativeLeak := by
  rw [leaksNative] at h
  rw [Applies]
  split_ifs at h with hnative hfinal
  · obtain rfl := Option.some.inj h
    simp [hnative, hfinal]
  · rw [anyDescendant_eq_some hitem h]
    simp [hnative, hfinal]
  · obtain rfl := Option.some.inj h
    simp [hnative]

theorem containsPrivileged_eq_some (hitem : item ∈ items) {rounds : ℕ} {b : Bool}
    (h : containsPrivileged rounds items item = some b) :
    b ↔ Applies items params item .privilegedDescendantContainer := by
  rw [containsPrivileged] at h
  rw [Applies]
  split_ifs at h with hprivileged
  · obtain rfl := Option.some.inj h
    simp [hprivileged]
  · rw [anyDescendant_eq_some hitem h]
    simp [hprivileged]

/-- **What is noted of an item.** -/
theorem mem_itemOffences (hitem : item ∈ items) {rounds : ℕ} {noted : List (Offence Id)}
    (h : itemOffences rounds items params item = some noted) {o : Offence Id} :
    o ∈ noted ↔ o.2 = item.evidenceId ∧ Applies items params item o.1 := by
  obtain ⟨leaks, hleaks, h⟩ := Option.bind_eq_some_iff.mp h
  obtain ⟨below, hbelow, h⟩ := Option.bind_eq_some_iff.mp h
  obtain rfl := Option.some.inj h
  have hnative : leaks ↔ Applies items params item .redactedNativeLeak :=
    leaksNative_eq_some hitem hleaks
  have hprivileged : below ↔ Applies items params item .privilegedDescendantContainer :=
    containsPrivileged_eq_some hitem hbelow
  obtain ⟨code, id⟩ := o
  simp only [List.mem_append, mem_note, Prod.mk.injEq, hnative, hprivileged]
  cases code <;> simp [Applies, anyAncestorFinallyRedacted_iff]

omit [LinearOrder Id] in
/-- What is noted of a family: all its members if they are on one side. -/
theorem mem_familyOffences {members : List (ProductionValidationItem Id)} {o : Offence Id} :
    o ∈ familyOffences members ↔ ∃ m ∈ members, o = (.familySplit, m.evidenceId) ∧
      ((∀ m ∈ members, m.parentId ≠ none) ∨ ∀ m ∈ members, m.parentId = none) := by
  have hchildren : (members.filter fun m => m.parentId ≠ none).length = 0 ↔
      ∀ m ∈ members, m.parentId = none := by simp [List.filter_eq_nil_iff]
  have hparents : (members.filter fun m => m.parentId = none).length = 0 ↔
      ∀ m ∈ members, m.parentId ≠ none := by simp [List.filter_eq_nil_iff]
  rw [familyOffences]
  simp only [Nat.pos_iff_ne_zero, ne_eq, hchildren, hparents]
  split_ifs with hall hnone
  · -- no parent, so the children are the members
    rw [List.mem_map]
    refine ⟨?_, ?_⟩
    · rintro ⟨m, hm, rfl⟩
      exact ⟨m, (List.mem_filter.mp hm).1, rfl, .inl hall.1⟩
    · rintro ⟨m, hm, rfl, -⟩
      exact ⟨m, List.mem_filter.mpr ⟨hm, by simpa using hall.1 m hm⟩, rfl⟩
  · rw [List.mem_map]
    refine ⟨?_, ?_⟩
    · rintro ⟨m, hm, rfl⟩
      exact ⟨m, (List.mem_filter.mp hm).1, rfl, .inr hnone.2⟩
    · rintro ⟨m, hm, rfl, -⟩
      exact ⟨m, List.mem_filter.mpr ⟨hm, by simpa using hnone.2 m hm⟩, rfl⟩
  · refine iff_of_false List.not_mem_nil ?_
    rintro ⟨m, hm, -, h⟩
    rcases h with h | h
    · have hnot : ¬ ∀ m ∈ members, m.parentId = none := fun h' => h m hm (h' m hm)
      exact hall ⟨h, hnot⟩
    · have hnot : ¬ ∀ m ∈ members, m.parentId ≠ none := fun h' => h' m hm (h m hm)
      exact hnone ⟨hnot, h⟩

theorem mem_families {familyId : Id} {members : List (ProductionValidationItem Id)} :
    (familyId, members) ∈ families items ↔
      members = (items.filter fun m => m.familyId = some familyId) ∧ members ≠ [] := by
  have hvalues : JsMap.valuesAt
      (items.filterMap fun item => item.familyId.map fun f => (f, item)) familyId =
        items.filter fun m => m.familyId = some familyId := by
    induction items with
    | nil => rfl
    | cons item items ih =>
      rcases hf : item.familyId with _ | f
      · simpa [hf] using ih
      · by_cases hff : f = familyId
        · simpa [hf, JsMap.valuesAt, hff] using ih
        · simpa [hf, JsMap.valuesAt, hff] using ih
  rw [families, JsMap.mem_group_iff, hvalues]

/-- The rule about families. -/
theorem mem_splits {o : Offence Id} :
    (o ∈ (families items).flatMap fun e => familyOffences e.2) ↔
      ∃ item ∈ items, item.evidenceId = o.2 ∧ o.1 = .familySplit ∧
        ∃ familyId, item.familyId = some familyId ∧ OneSided items familyId := by
  obtain ⟨code, id⟩ := o
  rw [List.mem_flatMap]
  refine ⟨?_, ?_⟩
  · rintro ⟨⟨familyId, members⟩, he, ho⟩
    obtain ⟨rfl, -⟩ := mem_families.mp he
    obtain ⟨m, hm, heq, hside⟩ := mem_familyOffences.mp ho
    obtain ⟨rfl, rfl⟩ := Prod.mk.inj heq
    obtain ⟨hm, hf⟩ := List.mem_filter.mp hm
    refine ⟨m, hm, rfl, rfl, familyId, by simpa using hf, ?_⟩
    simpa [OneSided, List.mem_filter] using hside
  · rintro ⟨m, hm, rfl, rfl, familyId, hf, hside⟩
    have hmem : m ∈ items.filter fun m => m.familyId = some familyId :=
      List.mem_filter.mpr ⟨hm, by simpa using hf⟩
    refine ⟨(familyId, _), mem_families.mpr ⟨rfl, List.ne_nil_of_mem hmem⟩, ?_⟩
    refine mem_familyOffences.mpr ⟨m, hmem, rfl, ?_⟩
    simpa [OneSided, List.mem_filter] using hside

/-- **What is noted.** -/
theorem mem_offences {rounds : ℕ} {noted : List (Offence Id)}
    (h : offences rounds items params = some noted) {o : Offence Id} :
    o ∈ noted ↔ Noted items params o := by
  obtain ⟨lists, hlists, h⟩ := Option.bind_eq_some_iff.mp h
  obtain rfl := Option.some.inj h
  have hitems : o ∈ lists.flatten ↔
      ∃ item ∈ items, item.evidenceId = o.2 ∧ Applies items params item o.1 := by
    rw [List.mem_flatten]
    refine ⟨?_, ?_⟩
    · rintro ⟨l, hl, ho⟩
      obtain ⟨item, hitem, hnoted⟩ := (mem_of_mapM hlists).mp hl
      obtain ⟨hid, happ⟩ := (mem_itemOffences hitem hnoted).mp ho
      exact ⟨item, hitem, hid.symm, happ⟩
    · rintro ⟨item, hitem, hid, happ⟩
      obtain ⟨l, hl⟩ := isSome_mapM.mp ⟨lists, hlists⟩ item hitem
      exact ⟨l, (mem_of_mapM hlists).mpr ⟨item, hitem, hl⟩,
        (mem_itemOffences hitem hl).mpr ⟨hid.symm, happ⟩⟩
  rw [List.mem_append, hitems, Noted]
  have hsplit : (o ∈ if params.includeFamilies then
      (families items).flatMap fun e => familyOffences e.2 else []) ↔
      ∃ item ∈ items, item.evidenceId = o.2 ∧ o.1 = .familySplit ∧ params.includeFamilies ∧
        ∃ familyId, item.familyId = some familyId ∧ OneSided items familyId := by
    split_ifs with hfam
    · rw [mem_splits]
      simp [hfam]
    · simp [hfam]
  rw [hsplit]
  refine ⟨?_, ?_⟩
  · rintro (⟨item, hitem, hid, h⟩ | ⟨item, hitem, hid, h⟩)
    · exact ⟨item, hitem, hid, .inl h⟩
    · exact ⟨item, hitem, hid, .inr h⟩
  · rintro ⟨item, hitem, hid, h | h⟩
    · exact .inl ⟨item, hitem, hid, h⟩
    · exact .inr ⟨item, hitem, hid, h⟩

/-- **The flags of a validation that returns** are those of what is noted. -/
theorem Returns.exists_offences {flags : List (ValidationFlag Id)}
    (h : Returns items params flags) :
    ∃ noted, flags = flagsOf noted ∧ ∀ o, o ∈ noted ↔ Noted items params o := by
  obtain ⟨rounds, h⟩ := h
  obtain ⟨noted, hnoted, rfl⟩ := Option.map_eq_some_iff.mp h
  exact ⟨noted, rfl, fun o => mem_offences hnoted⟩

/-- An item is named by the flag of a code exactly if that is noted of it. -/
theorem Returns.flag_iff {flags : List (ValidationFlag Id)} (h : Returns items params flags)
    {code : ValidationFlagCode} {id : Id} :
    (∃ flag ∈ flags, flag.code = code ∧ id ∈ flag.evidenceItemIds) ↔
      Noted items params (code, id) := by
  obtain ⟨noted, rfl, hnoted⟩ := h.exists_offences
  rw [exists_flag_mem_iff, hnoted]

/-- A code has a flag exactly if something is noted with it. -/
theorem Returns.code_iff {flags : List (ValidationFlag Id)} (h : Returns items params flags)
    {code : ValidationFlagCode} :
    (∃ flag ∈ flags, flag.code = code) ↔ ∃ id, Noted items params (code, id) := by
  obtain ⟨noted, rfl, hnoted⟩ := h.exists_offences
  simp only [exists_flag_iff, hnoted]

/-- **Validation has one result.** -/
theorem Returns.congr {items' : List (ProductionValidationItem Id)}
    {params' : ProductionValidationParams} {flags flags' : List (ValidationFlag Id)}
    (h : Returns items params flags) (h' : Returns items' params' flags')
    (hnoted : ∀ o, Noted items params o ↔ Noted items' params' o) : flags = flags' := by
  obtain ⟨noted, rfl, hn⟩ := h.exists_offences
  obtain ⟨noted', rfl, hn'⟩ := h'.exists_offences
  exact flagsOf_congr fun o => (hn o).trans ((hnoted o).trans (hn' o).symm)

/-! ## Whether validation returns -/

theorem itemOffences_isSome {rounds : ℕ} :
    (∃ noted, itemOffences rounds items params item = some noted) ↔
      (∃ b, leaksNative rounds items item = some b) ∧
        ∃ b, containsPrivileged rounds items item = some b := by
  refine ⟨?_, ?_⟩
  · rintro ⟨noted, h⟩
    obtain ⟨leaks, hleaks, h⟩ := Option.bind_eq_some_iff.mp h
    obtain ⟨below, hbelow, -⟩ := Option.bind_eq_some_iff.mp h
    exact ⟨⟨leaks, hleaks⟩, ⟨below, hbelow⟩⟩
  · rintro ⟨⟨leaks, hleaks⟩, ⟨below, hbelow⟩⟩
    rw [itemOffences, hleaks, Option.bind_eq_bind, Option.bind_some, hbelow]
    exact ⟨_, rfl⟩

theorem leaksNative_mono {n m : ℕ} {b : Bool} (h : leaksNative n items item = some b)
    (hnm : n ≤ m) : leaksNative m items item = some b := by
  rw [leaksNative] at h ⊢
  split_ifs at h ⊢
  · exact h
  · exact walk_mono h hnm
  · exact h

theorem containsPrivileged_mono {n m : ℕ} {b : Bool}
    (h : containsPrivileged n items item = some b) (hnm : n ≤ m) :
    containsPrivileged m items item = some b := by
  rw [containsPrivileged] at h ⊢
  split_ifs at h ⊢
  · exact h
  · exact walk_mono h hnm

theorem itemOffences_mono {n m : ℕ} {noted : List (Offence Id)}
    (h : itemOffences n items params item = some noted) (hnm : n ≤ m) :
    itemOffences m items params item = some noted := by
  obtain ⟨leaks, hleaks, h⟩ := Option.bind_eq_some_iff.mp h
  obtain ⟨below, hbelow, h⟩ := Option.bind_eq_some_iff.mp h
  rw [itemOffences, leaksNative_mono hleaks hnm, Option.bind_eq_bind, Option.bind_some,
    containsPrivileged_mono hbelow hnm]
  exact h

/-- More rounds change no result. -/
theorem validateProductionSet_mono {n m : ℕ} {flags : List (ValidationFlag Id)}
    (h : validateProductionSet n items params = some flags) (hnm : n ≤ m) :
    validateProductionSet m items params = some flags := by
  obtain ⟨noted, hnoted, rfl⟩ := Option.map_eq_some_iff.mp h
  obtain ⟨lists, hlists, hrest⟩ := Option.bind_eq_some_iff.mp hnoted
  have hm : items.mapM (itemOffences m items params) = some lists := by
    rw [mapM_eq_some_iff] at hlists ⊢
    rw [← hlists]
    apply List.map_congr_left
    intro item hitem
    obtain ⟨noted, hn⟩ := isSome_mapM.mp ⟨lists, mapM_eq_some_iff.mpr hlists⟩ item hitem
    rw [hn, itemOffences_mono hn hnm]
  rw [validateProductionSet, offences, hm]
  exact Option.map_eq_some_iff.mpr ⟨noted, hrest, rfl⟩

theorem leaksNative_ends_iff :
    (∃ rounds b, leaksNative rounds items item = some b) ↔
      (item.wouldProduceNative → ¬ item.hasFinalRedactions →
        Ends (children items) ProductionValidationItem.hasFinalRedactions
          (children items item).reverse) := by
  simp only [leaksNative, anyDescendant]
  by_cases hnative : item.wouldProduceNative
  · by_cases hfinal : item.hasFinalRedactions
    · simp [hnative, hfinal]
    · simp [hnative, hfinal, Ends]
  · simp [hnative]

theorem containsPrivileged_ends_iff :
    (∃ rounds b, containsPrivileged rounds items item = some b) ↔
      (¬ item.isPrivileged → Ends (children items) ProductionValidationItem.isPrivileged
        (children items item).reverse) := by
  simp only [containsPrivileged, anyDescendant]
  by_cases hprivileged : item.isPrivileged
  · simp [hprivileged]
  · simp [hprivileged, Ends]

/-- **Validation returns exactly if every descent it makes ends.** -/
theorem returns_iff :
    (∃ flags, Returns items params flags) ↔ ∀ item ∈ items, DescentsEnd items item := by
  refine ⟨?_, ?_⟩
  · rintro ⟨flags, rounds, h⟩ item hitem
    obtain ⟨noted, hnoted, -⟩ := Option.map_eq_some_iff.mp h
    obtain ⟨lists, hlists, -⟩ := Option.bind_eq_some_iff.mp hnoted
    obtain ⟨hleaks, hbelow⟩ := itemOffences_isSome.mp (isSome_mapM.mp ⟨lists, hlists⟩ item hitem)
    exact ⟨leaksNative_ends_iff.mp ⟨rounds, hleaks⟩,
      containsPrivileged_ends_iff.mp ⟨rounds, hbelow⟩⟩
  · intro h
    -- the rounds that suffice for every item suffice for all
    have hone : ∀ item ∈ items, ∃ n noted, itemOffences n items params item = some noted := by
      intro item hitem
      obtain ⟨n, a, ha⟩ := leaksNative_ends_iff.mpr (h item hitem).1
      obtain ⟨m, b, hb⟩ := containsPrivileged_ends_iff.mpr (h item hitem).2
      exact ⟨max n m, itemOffences_isSome.mpr ⟨⟨a, leaksNative_mono ha (le_max_left ..)⟩,
        ⟨b, containsPrivileged_mono hb (le_max_right ..)⟩⟩⟩
    have hall : ∃ n, ∀ item ∈ items, ∃ noted, itemOffences n items params item = some noted :=
      exists_rounds (fun _ _ _ _ hx hnm => itemOffences_mono hx hnm) hone
    obtain ⟨rounds, hall⟩ := hall
    obtain ⟨lists, hlists⟩ := isSome_mapM.mpr hall
    have hsome : (validateProductionSet rounds items params).isSome := by
      rw [validateProductionSet, offences, hlists]
      rfl
    obtain ⟨flags, hflags⟩ := Option.isSome_iff_exists.mp hsome
    exact ⟨flags, rounds, hflags⟩

/-- The links to parents have no cycle. -/
def AcyclicParents (items : List (ProductionValidationItem Id)) : Prop :=
  Acyclic fun child parent : Id =>
    ∃ item ∈ items, item.evidenceId = child ∧ item.parentId = some parent

theorem wellFounded_children (h : AcyclicParents items) :
    WellFounded fun y x => y ∈ children items x := by
  -- a child links its identifier to that of its parent
  have hchild : ∀ x y, y ∈ children items x → y ∈ items ∧ y.parentId = some x.evidenceId := by
    intro x y hy
    rw [children, childrenOf, JsMap.getD_group, JsMap.mem_valuesAt, childLinks,
      List.mem_filterMap] at hy
    obtain ⟨z, hz, heq⟩ := hy
    rcases hp : z.parentId with _ | p
    · simp [hp] at heq
    · simp only [hp] at heq
      split_ifs at heq
      obtain ⟨rfl, rfl⟩ := Prod.mk.inj (Option.some.inj heq)
      exact ⟨hz, hp⟩
  have hacyclic : Acyclic fun y x => y ∈ children items x := by
    intro x hx
    apply h x.evidenceId
    exact hx.lift ProductionValidationItem.evidenceId
      fun y x hy => ⟨y, (hchild x y hy).1, rfl, (hchild x y hy).2⟩
  exact hacyclic.wellFounded fun y x hy => (hchild x y hy).1

/-- **Without a cycle validation returns.** -/
theorem returns_of_acyclic (h : AcyclicParents items) (params : ProductionValidationParams) :
    ∃ flags, Returns items params flags :=
  returns_iff.mpr fun _ _ =>
    ⟨fun _ _ => ends_of_wellFounded (wellFounded_children h) _,
      fun _ => ends_of_wellFounded (wellFounded_children h) _⟩

/-! ## The order of the items -/

section Perm

variable {items' : List (ProductionValidationItem Id)}

theorem byId_iff (hnodup : (items.map ProductionValidationItem.evidenceId).Nodup) {id : Id}
    {x : ProductionValidationItem Id} :
    (byId items).get? id = some x ↔ x ∈ items ∧ x.evidenceId = id := by
  refine ⟨mem_of_byId, ?_⟩
  rintro ⟨hx, rfl⟩
  obtain ⟨y, hy⟩ := Option.isSome_iff_exists.mp (isSome_byId.mpr ⟨x, hx, rfl⟩)
  obtain ⟨hmem, hid⟩ := mem_of_byId hy
  rw [hy, List.inj_on_of_nodup_map hnodup hmem hx hid]

theorem byId_perm (hperm : items.Perm items')
    (hnodup : (items.map ProductionValidationItem.evidenceId).Nodup) :
    (byId items').get? = (byId items).get? := by
  have hnodup' : (items'.map ProductionValidationItem.evidenceId).Nodup :=
    (hperm.map _).nodup_iff.mp hnodup
  funext id
  apply Option.ext
  intro x
  rw [byId_iff hnodup, byId_iff hnodup', hperm.mem_iff]

omit [LinearOrder Id] in
theorem child_perm (hperm : items.Perm items') : Child items' = Child items := by
  funext x y
  simp only [Child, hperm.mem_iff]

theorem applies_perm (hperm : items.Perm items')
    (hnodup : (items.map ProductionValidationItem.evidenceId).Nodup)
    (code : ValidationFlagCode) :
    Applies items' params item code ↔ Applies items params item code := by
  cases code <;>
    simp only [Applies, Descends, Ascends, child_perm hperm, byId_perm hperm hnodup]

theorem noted_perm (hperm : items.Perm items')
    (hnodup : (items.map ProductionValidationItem.evidenceId).Nodup) (o : Offence Id) :
    Noted items' params o ↔ Noted items params o := by
  simp only [Noted, OneSided, applies_perm hperm hnodup, hperm.mem_iff]

/-- **The order of items with distinct identifiers does not matter.** -/
theorem Returns.perm {flags flags' : List (ValidationFlag Id)} (hperm : items.Perm items')
    (hnodup : (items.map ProductionValidationItem.evidenceId).Nodup)
    (h : Returns items params flags) (h' : Returns items' params flags') : flags' = flags :=
  h'.congr h (noted_perm hperm hnodup)

omit [LinearOrder Id] in
theorem AcyclicParents.perm (h : AcyclicParents items) (hperm : items.Perm items') :
    AcyclicParents items' := by
  simpa only [AcyclicParents, hperm.mem_iff] using h

end Perm

end Validate

end AegCloudDfir.Production
