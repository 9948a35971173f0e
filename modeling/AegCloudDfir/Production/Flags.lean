import AegCloudDfir.Js.Text
import AegCloudDfir.Js.Collections

/-!
# Validation flags

The flags of a production selection: the codes and the shape of a flag
(`packages/contracts/src/productions.ts`), and the tables `FLAG_DEFINITIONS` of
`apps/api/src/productions/production.validator.ts` and of
`packages/production/src/validate.ts`. The tables are two copies that have to stay equal
(`flagDefinitions_eq`).

Both validators note an offence whenever a rule applies to an item (`Offence`), and in the
end make one flag for every code that was noted (`flagsOf`). The flags depend only on
which offences were noted, not on their order or number (`flagsOf_congr`).
-/

namespace AegCloudDfir.Production

/-- `validationFlagCode` -/
inductive ValidationFlagCode : Type where
  | redactedNativeLeak
  | redactedAncestorNativeLeak
  | privilegedItem
  | privilegedDescendantContainer
  | archiveContainer
  | duplicateItem
  | malwareItem
  | missingNative
  | unsupportedConversion
  | unprocessedItem
  | encryptedFile
  | missingText
  | duplicateBatesRange
  | zeroByteItem
  | corruptItem
  | familySplit
  | previewRedactionsInRelease
  | selectionChangedSinceDraft
  deriving DecidableEq

/-- The code as the contract writes it. -/
def ValidationFlagCode.text : ValidationFlagCode → JsString
  | redactedNativeLeak => js "redacted_native_leak"
  | redactedAncestorNativeLeak => js "redacted_ancestor_native_leak"
  | privilegedItem => js "privileged_item"
  | privilegedDescendantContainer => js "privileged_descendant_container"
  | archiveContainer => js "archive_container"
  | duplicateItem => js "duplicate_item"
  | malwareItem => js "malware_item"
  | missingNative => js "missing_native"
  | unsupportedConversion => js "unsupported_conversion"
  | unprocessedItem => js "unprocessed_item"
  | encryptedFile => js "encrypted_file"
  | missingText => js "missing_text"
  | duplicateBatesRange => js "duplicate_bates_range"
  | zeroByteItem => js "zero_byte_item"
  | corruptItem => js "corrupt_item"
  | familySplit => js "family_split"
  | previewRedactionsInRelease => js "preview_redactions_in_release"
  | selectionChangedSinceDraft => js "selection_changed_since_draft"

/-- `severity` of a flag. -/
inductive ValidationSeverity : Type where
  | info
  | warning
  | blocking
  | securityCritical
  deriving DecidableEq

/-- `FlagDefinition` -/
structure FlagDefinition where
  severity : ValidationSeverity
  overridable : Bool
  requiresElevatedOverride : Bool
  message : JsString
  deriving DecidableEq

/-- `validationFlag` -/
structure ValidationFlag (Id : Type) where
  code : ValidationFlagCode
  severity : ValidationSeverity
  message : JsString
  evidenceItemIds : List Id
  overridable : Bool
  requiresElevatedOverride : Bool
  deriving DecidableEq

/-- `isAcknowledgeable` -/
def isAcknowledgeable {Id : Type} (flag : ValidationFlag Id) : Bool :=
  flag.overridable || flag.requiresElevatedOverride

/-! ## The tables -/

section Definitions

open ValidationFlagCode ValidationSeverity

/-- `FLAG_DEFINITIONS` of the API. -/
def flagDefinitions : ValidationFlagCode → FlagDefinition
  | redactedNativeLeak =>
    ⟨securityCritical, false, true,
      js "Native output would leak unredacted content of an item with final redactions (or a redacted descendant)."⟩
  | redactedAncestorNativeLeak =>
    ⟨securityCritical, false, true,
      js "Native output of an item extracted from a container with final redactions would leak redacted content."⟩
  | privilegedItem =>
    ⟨warning, true, false, js "Selection includes items marked privileged."⟩
  | privilegedDescendantContainer =>
    ⟨warning, true, false, js "Selection includes containers with privileged descendants."⟩
  | archiveContainer =>
    ⟨warning, true, false, js "Selection includes archive containers (zip/pst/etc.)."⟩
  | duplicateItem =>
    ⟨info, true, false, js "Selection includes items marked as duplicates."⟩
  | malwareItem =>
    ⟨blocking, false, false, js "Selection includes items flagged as malware."⟩
  | missingNative =>
    ⟨warning, true, false,
      js "Native output was requested for items that have no stored native file."⟩
  | unsupportedConversion =>
    ⟨warning, true, false,
      js "Items cannot be converted to the requested image format; placeholders will be produced."⟩
  | unprocessedItem =>
    ⟨blocking, true, false,
      js "Selection includes items whose processing has not completed."⟩
  | encryptedFile =>
    ⟨warning, true, false,
      js "Selection includes encrypted files that could not be opened."⟩
  | missingText =>
    ⟨warning, true, false,
      js "Text output was requested for items that have no extracted text."⟩
  | duplicateBatesRange =>
    ⟨blocking, false, false,
      js "The requested bates range collides with an existing production."⟩
  | zeroByteItem =>
    ⟨warning, true, false, js "Selection includes zero-byte items."⟩
  | corruptItem =>
    ⟨blocking, true, false, js "Selection includes items detected as corrupt."⟩
  | familySplit =>
    ⟨blocking, true, false,
      js "Family grouping is enabled but the selection splits at least one family."⟩
  | previewRedactionsInRelease =>
    ⟨blocking, false, false,
      js "A final production was requested but items still carry unresolved preview-stage redactions."⟩
  | selectionChangedSinceDraft =>
    ⟨blocking, false, false,
      js "The underlying selection changed after the draft was validated."⟩

/-- `FLAG_DEFINITIONS` of `packages/production`. -/
def Engine.flagDefinitions : ValidationFlagCode → FlagDefinition
  | redactedNativeLeak =>
    ⟨securityCritical, false, true,
      js "Native output would leak unredacted content of an item with final redactions (or a redacted descendant)."⟩
  | redactedAncestorNativeLeak =>
    ⟨securityCritical, false, true,
      js "Native output of an item extracted from a container with final redactions would leak redacted content."⟩
  | privilegedItem =>
    ⟨warning, true, false, js "Selection includes items marked privileged."⟩
  | privilegedDescendantContainer =>
    ⟨warning, true, false, js "Selection includes containers with privileged descendants."⟩
  | archiveContainer =>
    ⟨warning, true, false, js "Selection includes archive containers (zip/pst/etc.)."⟩
  | duplicateItem =>
    ⟨info, true, false, js "Selection includes items marked as duplicates."⟩
  | malwareItem =>
    ⟨blocking, false, false, js "Selection includes items flagged as malware."⟩
  | missingNative =>
    ⟨warning, true, false,
      js "Native output was requested for items that have no stored native file."⟩
  | unsupportedConversion =>
    ⟨warning, true, false,
      js "Items cannot be converted to the requested image format; placeholders will be produced."⟩
  | unprocessedItem =>
    ⟨blocking, true, false,
      js "Selection includes items whose processing has not completed."⟩
  | encryptedFile =>
    ⟨warning, true, false,
      js "Selection includes encrypted files that could not be opened."⟩
  | missingText =>
    ⟨warning, true, false,
      js "Text output was requested for items that have no extracted text."⟩
  | duplicateBatesRange =>
    ⟨blocking, false, false,
      js "The requested bates range collides with an existing production."⟩
  | zeroByteItem =>
    ⟨warning, true, false, js "Selection includes zero-byte items."⟩
  | corruptItem =>
    ⟨blocking, true, false, js "Selection includes items detected as corrupt."⟩
  | familySplit =>
    ⟨blocking, true, false,
      js "Family grouping is enabled but the selection splits at least one family."⟩
  | previewRedactionsInRelease =>
    ⟨blocking, false, false,
      js "A final production was requested but items still carry unresolved preview-stage redactions."⟩
  | selectionChangedSinceDraft =>
    ⟨blocking, false, false,
      js "The underlying selection changed after the draft was validated."⟩

/-- **The two tables agree.** -/
theorem flagDefinitions_eq : Engine.flagDefinitions = flagDefinitions := by
  funext code
  cases code <;> rfl

end Definitions

/-! ## Making flags -/

variable {Id : Type} [LinearOrder Id]

/-- `makeFlag` of the API. -/
def makeFlag (code : ValidationFlagCode) (evidenceItemIds : List Id) : ValidationFlag Id :=
  let d := flagDefinitions code
  { code
    severity := d.severity
    message := d.message
    evidenceItemIds := sorted (distinct evidenceItemIds)
    overridable := d.overridable
    requiresElevatedOverride := d.requiresElevatedOverride }

/-- `makeFlag` of `packages/production`, which leaves sorting to its caller. -/
def Engine.makeFlag (code : ValidationFlagCode) (evidenceItemIds : List Id) : ValidationFlag Id :=
  let d := Engine.flagDefinitions code
  { code
    severity := d.severity
    message := d.message
    evidenceItemIds
    overridable := d.overridable
    requiresElevatedOverride := d.requiresElevatedOverride }

/-- The order the flags are sorted in. -/
def ValidationFlag.le (a b : ValidationFlag Id) : Prop := ¬ b.code.text < a.code.text

instance : DecidableRel (@ValidationFlag.le Id) := fun _ _ => inferInstanceAs (Decidable (¬ _))

/-- A rule applies to an item: `add(code, id)`. -/
abbrev Offence (Id : Type) : Type := ValidationFlagCode × Id

/-- What `validateProductionSet` of the API makes of the offences. -/
def flagsOf (offences : List (Offence Id)) : List (ValidationFlag Id) :=
  ((JsMap.group offences).map fun e => makeFlag e.1 e.2).insertionSort ValidationFlag.le

/-- What `validateProductionSet` of `packages/production` makes of the offences. -/
def Engine.flagsOf (offences : List (Offence Id)) : List (ValidationFlag Id) :=
  ((JsMap.group offences).map fun e =>
    Engine.makeFlag e.1 (sorted (distinct e.2))).insertionSort ValidationFlag.le

/-- **Both make the same flags.** -/
theorem engine_flagsOf_eq (offences : List (Offence Id)) :
    Engine.flagsOf offences = flagsOf offences := by
  simp only [Engine.flagsOf, flagsOf, Engine.makeFlag, makeFlag, flagDefinitions_eq]

/-! ## What the flags depend on -/

section

open ValidationFlagCode

/-- All codes. -/
def validationFlagCodes : List ValidationFlagCode :=
  [redactedNativeLeak, redactedAncestorNativeLeak, privilegedItem, privilegedDescendantContainer,
    archiveContainer, duplicateItem, malwareItem, missingNative, unsupportedConversion,
    unprocessedItem, encryptedFile, missingText, duplicateBatesRange, zeroByteItem, corruptItem,
    familySplit, previewRedactionsInRelease, selectionChangedSinceDraft]

end

theorem mem_validationFlagCodes (code : ValidationFlagCode) : code ∈ validationFlagCodes := by
  cases code <;> simp [validationFlagCodes]

theorem nodup_text : (validationFlagCodes.map ValidationFlagCode.text).Nodup := by
  decide +kernel

theorem text_injective : Function.Injective ValidationFlagCode.text := fun a b =>
  List.inj_on_of_nodup_map nodup_text (mem_validationFlagCodes a) (mem_validationFlagCodes b)

omit [LinearOrder Id] in
theorem ValidationFlag.le_iff {a b : ValidationFlag Id} : a.le b ↔ a.code.text ≤ b.code.text :=
  not_lt

instance : Std.Total (@ValidationFlag.le Id) :=
  ⟨fun a b => by simpa only [ValidationFlag.le_iff] using le_total a.code.text b.code.text⟩

instance : IsTrans (ValidationFlag Id) ValidationFlag.le :=
  ⟨fun _ _ _ hab hbc => ValidationFlag.le_iff.mpr
    ((ValidationFlag.le_iff.mp hab).trans (ValidationFlag.le_iff.mp hbc))⟩

/-- The flags are those of the codes that were noted, for everything noted with the code. -/
theorem mem_flagsOf {offences : List (Offence Id)} {flag : ValidationFlag Id} :
    flag ∈ flagsOf offences ↔
      ∃ code id, (code, id) ∈ offences ∧ flag = makeFlag code (JsMap.valuesAt offences code) := by
  rw [flagsOf, List.mem_insertionSort, List.mem_map]
  refine ⟨?_, ?_⟩
  · rintro ⟨⟨code, ids⟩, he, rfl⟩
    obtain ⟨rfl, hne⟩ := JsMap.mem_group_iff.mp he
    obtain ⟨id, hid⟩ := List.exists_mem_of_ne_nil _ hne
    exact ⟨code, id, JsMap.mem_valuesAt.mp hid, rfl⟩
  · rintro ⟨code, id, hmem, rfl⟩
    have hid := JsMap.mem_valuesAt.mpr hmem
    exact ⟨(code, _), JsMap.mem_group_iff.mpr ⟨rfl, List.ne_nil_of_mem hid⟩, rfl⟩

/-- Something was noted with the code. -/
theorem exists_flag_iff {offences : List (Offence Id)} {code : ValidationFlagCode} :
    (∃ flag ∈ flagsOf offences, flag.code = code) ↔ ∃ id, (code, id) ∈ offences := by
  refine ⟨?_, ?_⟩
  · rintro ⟨flag, hflag, rfl⟩
    obtain ⟨c, id, hmem, rfl⟩ := mem_flagsOf.mp hflag
    exact ⟨id, hmem⟩
  · rintro ⟨id, hmem⟩
    exact ⟨_, mem_flagsOf.mpr ⟨code, id, hmem, rfl⟩, rfl⟩

/-- An item is named by the flag of a code exactly if it was noted with the code. -/
theorem exists_flag_mem_iff {offences : List (Offence Id)} {code : ValidationFlagCode} {id : Id} :
    (∃ flag ∈ flagsOf offences, flag.code = code ∧ id ∈ flag.evidenceItemIds) ↔
      (code, id) ∈ offences := by
  refine ⟨?_, ?_⟩
  · rintro ⟨flag, hflag, rfl, hid⟩
    obtain ⟨c, -, -, rfl⟩ := mem_flagsOf.mp hflag
    simpa [makeFlag, JsMap.mem_valuesAt] using hid
  · intro hmem
    refine ⟨_, mem_flagsOf.mpr ⟨code, id, hmem, rfl⟩, rfl, ?_⟩
    simpa [makeFlag, JsMap.mem_valuesAt] using hmem

theorem makeFlag_eq_of_mem_iff {code : ValidationFlagCode} {ids ids' : List Id}
    (h : ∀ id, id ∈ ids ↔ id ∈ ids') : makeFlag code ids = makeFlag code ids' := by
  simp only [makeFlag, sorted_distinct_eq_iff.mpr h]

/-- One flag for a code. -/
theorem nodup_codes_flagsOf (offences : List (Offence Id)) :
    ((flagsOf offences).map ValidationFlag.code).Nodup := by
  have hperm : ((flagsOf offences).map ValidationFlag.code).Perm
      ((JsMap.group offences).map Prod.fst) := by
    refine ((List.perm_insertionSort _ _).map ValidationFlag.code).trans ?_
    rw [List.map_map]
    rfl
  rw [hperm.nodup_iff, JsMap.keys_group]
  exact nodup_distinct _

/-- **The flags depend on which offences were noted**, not on their order or number. -/
theorem flagsOf_congr {offences offences' : List (Offence Id)}
    (h : ∀ o, o ∈ offences ↔ o ∈ offences') : flagsOf offences = flagsOf offences' := by
  have hflag : ∀ flag, flag ∈ flagsOf offences ↔ flag ∈ flagsOf offences' := by
    intro flag
    have hmake : ∀ code, makeFlag code (JsMap.valuesAt offences code) =
        makeFlag code (JsMap.valuesAt offences' code) := fun code =>
      makeFlag_eq_of_mem_iff fun id => by simp [JsMap.mem_valuesAt, h]
    simp only [mem_flagsOf, h, hmake]
  have hperm : (flagsOf offences).Perm (flagsOf offences') :=
    (List.perm_ext_iff_of_nodup (nodup_codes_flagsOf _).of_map (nodup_codes_flagsOf _).of_map).mpr
      hflag
  apply hperm.eq_of_pairwise ?_ (List.pairwise_insertionSort _ _) (List.pairwise_insertionSort _ _)
  intro a b ha hb hab hba
  -- flags of one code are one flag
  have hcode : a.code = b.code := text_injective (le_antisymm
    (ValidationFlag.le_iff.mp hab) (ValidationFlag.le_iff.mp hba))
  exact List.inj_on_of_nodup_map (nodup_codes_flagsOf offences') ((hflag a).mp ha) hb hcode

/-- **The identifiers of a flag are sorted, each of them once.** -/
theorem sorted_evidenceItemIds {offences : List (Offence Id)} {flag : ValidationFlag Id}
    (h : flag ∈ flagsOf offences) : flag.evidenceItemIds.Pairwise (· < ·) := by
  obtain ⟨code, -, -, rfl⟩ := mem_flagsOf.mp h
  exact sorted_distinct_pairwise _

end AegCloudDfir.Production
