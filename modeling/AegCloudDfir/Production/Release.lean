import AegCloudDfir.Production.Edits
import AegCloudDfir.Production.Engine

/-!
# No run is released on stale facts

When `submit` creates a run, validating the frozen selection once more is to give no flag that
had to be acknowledged and was not, and no `malware_item` (`Clean`). `submit` compares the
flags of the snapshot with the acknowledgements and the identifiers with those of the
snapshot, but the facts behind the flags are those of the time of `validate`.

What the snapshot says was true then, and an accepted request acknowledges it
(`Reviewed`, `reviewed_step`). So a run is clean exactly if, by the time it is created, no
rule applies that needs an acknowledgement, applied to nothing before, and was not
acknowledged beforehand (`NothingNew`, `allClean_iff`).
-/

namespace AegCloudDfir.Production.Drafts

open Transition

section Defs

variable {Id Hash : Type} [LinearOrder Id] (toLowerCase : JsString → JsString)

/-- The code is among the acknowledgements. -/
def Acknowledged (acknowledgements : List Acknowledgement) (code : ValidationFlagCode) : Prop :=
  ∃ ack ∈ acknowledgements, ack.code = code

/-- Validating the frozen selection when the run was created gives nothing that had to be
acknowledged and was not. -/
def Clean (release : Release Id) : Prop :=
  ∃ flags, Returns
      (loadValidationItems toLowerCase release.tables release.selectionItemIds release.draft)
      release.draft.validationParams flags ∧
    (∀ flag ∈ flags, needsAck flag.severity →
      Acknowledged release.acknowledgedWarnings flag.code) ∧
    ∀ flag ∈ flags, flag.code ≠ .malwareItem

/-- Every run was clean when it was created. -/
def AllClean (s : State Id Hash) : Prop := ∀ release ∈ s.releases, Clean toLowerCase release

/-- Of the rules that need an acknowledgement only such apply now as applied before, or as are
acknowledged. -/
structure Covered (before now : List (ProductionValidationItem Id))
    (params params' : ProductionValidationParams) (acknowledgements : List Acknowledgement) :
    Prop where
  ends : ∀ item ∈ now, DescentsEnd now item
  noted : ∀ code id, needsAck (flagDefinitions code).severity → Noted now params' (code, id) →
    (∃ id, Noted before params (code, id)) ∨
      code ≠ .malwareItem ∧ Acknowledged acknowledgements code

/-- Where a run is created, the facts are covered by those the snapshot was calculated from. -/
def NothingNew (s : State Id Hash) : Event Id → Prop
  | .create i _ => ∀ parameters validation input ids,
    s.calls[i]? = some (.unchanged parameters validation input ids) →
      s.reserved parameters ids = [] →
        Covered validation.sheets
          (loadValidationItems toLowerCase s.tables ids s.production.parameters)
          validation.params s.production.parameters.validationParams input.acknowledgedWarnings
  | _ => True

/-- The snapshot keeps the flags of the facts it was calculated from. -/
def Sound (validation : Validation Id Hash) : Prop :=
  ∃ flags, Returns validation.sheets validation.params flags ∧
    validation.snapshot.flags = flags.map snapshotFlag

/-- The request has accepted the snapshot it read. -/
def Accepted (validation : Validation Id Hash) (input : SubmitProductionRequest) : Prop :=
  Sound validation ∧ checkAcknowledgements validation.snapshot input = .ok ()

/-- What a request has calculated or accepted. -/
def Call.Reviewed : Call Id Hash → Prop
  | .evaluated parameters _ sheets flags => Returns sheets parameters.validationParams flags
  | .submitting _ validation input => Accepted validation input
  | .unchanged _ validation input _ => Accepted validation input
  | _ => True

/-- **The invariant**: the snapshot is sound, and so is what the requests work with. -/
structure Reviewed (s : State Id Hash) : Prop where
  draft : ∀ validation, s.production.validation = some validation → Sound validation
  calls : ∀ call ∈ s.calls, call.Reviewed

end Defs

/-! ## What an accepted request acknowledges -/

section Accepted

variable {Id Hash : Type} [LinearOrder Id]

omit [LinearOrder Id] in
theorem acknowledged_of_acked {input : SubmitProductionRequest} {code : ValidationFlagCode}
    (h : acked input code) : Acknowledged input.acknowledgedWarnings code := by
  rw [acked, acksByCode, JsMap.get?_ofEntries] at h
  obtain ⟨ack, hack⟩ := Option.isSome_iff_exists.mp h
  have hmem := JsMap.mem_valuesAt.mp (List.mem_of_getLast? hack)
  obtain ⟨ack', hack', heq⟩ := List.mem_map.mp hmem
  obtain ⟨hcode, rfl⟩ := Prod.mk.inj heq
  exact ⟨ack', hack', hcode⟩

/-- The flags of what is noted are made of the table. -/
theorem flag_of_noted {sheets : List (ProductionValidationItem Id)}
    {params : ProductionValidationParams} {flags : List (ValidationFlag Id)}
    (h : Returns sheets params flags) {flag : ValidationFlag Id} (hflag : flag ∈ flags) :
    flag.severity = (flagDefinitions flag.code).severity ∧
      ∃ id, Noted sheets params (flag.code, id) := by
  obtain ⟨noted, rfl, hnoted⟩ := h.exists_offences
  obtain ⟨code, id, hmem, rfl⟩ := mem_flagsOf.mp hflag
  exact ⟨rfl, id, (hnoted _).mp hmem⟩

/-- **What an accepted snapshot notes** is acknowledged, if it needs to be, and is no
malware, which nobody can acknowledge. -/
theorem Accepted.acknowledged {validation : Validation Id Hash} {input : SubmitProductionRequest}
    (h : Accepted validation input) {code : ValidationFlagCode} {id : Id}
    (hneeds : needsAck (flagDefinitions code).severity)
    (hnoted : Noted validation.sheets validation.params (code, id)) :
    code ≠ .malwareItem ∧ Acknowledged input.acknowledgedWarnings code := by
  obtain ⟨⟨flags, hreturns, hflags⟩, hchecked⟩ := h
  obtain ⟨noted, rfl, hmem⟩ := hreturns.exists_offences
  have hflag : snapshotFlag (makeFlag code (JsMap.valuesAt noted code)) ∈
      validation.snapshot.flags := by
    rw [hflags]
    exact List.mem_map_of_mem (mem_flagsOf.mpr ⟨code, id, (hmem _).mpr hnoted, rfl⟩)
  obtain ⟨hacked, hallowed, -⟩ := checkAcknowledgements_ok hchecked _ hflag hneeds
  refine ⟨?_, acknowledged_of_acked hacked⟩
  rintro rfl
  exact absurd hallowed (by simp [SnapshotFlag.isAcknowledgeable, snapshotFlag, makeFlag,
    flagDefinitions])

/-- **A run is clean** exactly if the facts it is created on are covered by those of the
snapshot that was accepted. -/
theorem clean_iff (toLowerCase : JsString → JsString) {validation : Validation Id Hash}
    {input : SubmitProductionRequest} (h : Accepted validation input) {release : Release Id}
    (hacks : release.acknowledgedWarnings = input.acknowledgedWarnings) :
    Clean toLowerCase release ↔ Covered validation.sheets
      (loadValidationItems toLowerCase release.tables release.selectionItemIds release.draft)
      validation.params release.draft.validationParams input.acknowledgedWarnings := by
  refine ⟨?_, ?_⟩
  · rintro ⟨flags, hreturns, hacknowledged, hmalware⟩
    refine ⟨returns_iff.mp ⟨flags, hreturns⟩, fun code id hneeds hnoted => .inr ?_⟩
    obtain ⟨flag, hflag, rfl⟩ := hreturns.code_iff.mpr ⟨id, hnoted⟩
    rw [← (flag_of_noted hreturns hflag).1] at hneeds
    exact ⟨hmalware flag hflag, hacks ▸ hacknowledged flag hflag hneeds⟩
  · rintro ⟨hends, hcovered⟩
    obtain ⟨flags, hreturns⟩ := returns_iff.mpr hends
    have hflag : ∀ flag ∈ flags, needsAck flag.severity →
        flag.code ≠ .malwareItem ∧ Acknowledged input.acknowledgedWarnings flag.code := by
      intro flag hflag hneeds
      obtain ⟨hseverity, id, hnoted⟩ := flag_of_noted hreturns hflag
      rw [hseverity] at hneeds
      rcases hcovered flag.code id hneeds hnoted with ⟨id', hbefore⟩ | hnow
      · exact h.acknowledged hneeds hbefore
      · exact hnow
    refine ⟨flags, hreturns, fun flag hmem hneeds => hacks ▸ (hflag flag hmem hneeds).2, ?_⟩
    intro flag hmem hcode
    have hseverity := (flag_of_noted hreturns hmem).1
    refine (hflag flag hmem ?_).1 hcode
    rw [hseverity, hcode]
    rfl

end Accepted

/-! ## Steps -/

section Steps

variable {Id Hash : Type} [LinearOrder Id] [DecidableEq Hash] {toLowerCase : JsString → JsString}
  {digest : List Id → Hash}

theorem reviewed_step (s : State Id Hash) (e : Event Id) (s' : State Id Hash) (hs : Reviewed s)
    (h : step toLowerCase digest s e = some s') : Reviewed s' := by
  have hopened : ∀ {call : Call Id Hash}, call.Reviewed → Reviewed (s.opened call) :=
    fun hcall => ⟨hs.draft, mem_calls_opened hs.calls hcall⟩
  have hgoesOn : ∀ {i : ℕ} {call : Call Id Hash}, call.Reviewed → Reviewed (s.goesOn i call) :=
    fun hcall => ⟨hs.draft, mem_calls_goesOn hs.calls hcall⟩
  have hclosed : ∀ i, Reviewed (s.closed i) := fun i => ⟨hs.draft, mem_calls_closed hs.calls⟩
  cases e with
  | change tables store =>
    cases h
    exact ⟨hs.draft, hs.calls⟩
  | update version parameters =>
    rcases step_update h with rfl | ⟨production, hupdate, rfl⟩
    · exact hs
    · -- an edit takes the snapshot away
      obtain ⟨-, -, rfl⟩ := update_ok hupdate
      exact ⟨fun validation hvalidation => (by cases hvalidation), hs.calls⟩
  | validate =>
    rcases step_validate h with rfl | rfl
    · exact hs
    · exact hopened trivial
  | resolve i searches =>
    rcases step_resolve h with ⟨parameters, ids, -, rfl⟩ |
      ⟨parameters, validation, input, ids, hcall, rfl⟩ | rfl
    · exact hgoesOn trivial
    · have haccepted : Accepted validation input := hs.calls _ (List.mem_of_getElem? hcall)
      exact hgoesOn haccepted
    · exact hclosed i
  | evaluate i rounds =>
    obtain ⟨parameters, ids, flags, -, hreturns, rfl⟩ := step_evaluate h
    exact hgoesOn hreturns
  | save i calculatedAt =>
    obtain ⟨parameters, ids, sheets, flags, hcall, rfl⟩ := step_save h
    have hreturns : Returns sheets parameters.validationParams flags :=
      hs.calls _ (List.mem_of_getElem? hcall)
    refine ⟨?_, mem_calls_closed hs.calls⟩
    rintro _ ⟨⟩
    exact ⟨flags, hreturns, rfl⟩
  | submit input =>
    rcases step_submit h with rfl | ⟨validation, hvalidation, hchecked, rfl⟩
    · exact hs
    · exact hopened ⟨hs.draft validation hvalidation, hchecked⟩
  | create i runId =>
    obtain ⟨parameters, validation, input, ids, -, rfl⟩ := step_create h
    rcases create_cases s i runId parameters input ids with ⟨-, heq⟩ | ⟨-, store, heq⟩
    · rw [heq]
      exact hclosed i
    · rw [heq]
      exact ⟨hs.draft, mem_calls_closed hs.calls⟩
  | abort i =>
    cases h
    exact hclosed i

/-- Only creating a run adds to the runs. -/
theorem releases_eq_of_step {s s' : State Id Hash} {e : Event Id} (he : ∀ i runId, e ≠ .create i runId)
    (h : step toLowerCase digest s e = some s') : s'.releases = s.releases := by
  cases e with
  | change tables store =>
    cases h
    rfl
  | update version parameters =>
    rcases step_update h with rfl | ⟨production, -, rfl⟩
    · rfl
    · rfl
  | validate =>
    rcases step_validate h with rfl | rfl
    · rfl
    · rfl
  | resolve i searches =>
    rcases step_resolve h with ⟨parameters, ids, -, rfl⟩ |
      ⟨parameters, validation, input, ids, -, rfl⟩ | rfl
    · rfl
    · rfl
    · rfl
  | evaluate i rounds =>
    obtain ⟨parameters, ids, flags, -, -, rfl⟩ := step_evaluate h
    rfl
  | save i calculatedAt =>
    obtain ⟨parameters, ids, sheets, flags, -, rfl⟩ := step_save h
    rfl
  | submit input =>
    rcases step_submit h with rfl | ⟨validation, -, -, rfl⟩
    · rfl
    · rfl
  | create i runId => exact absurd rfl (he i runId)
  | abort i =>
    cases h
    rfl

/-- **Which steps keep all runs clean.** -/
theorem allClean_step (s : State Id Hash) (e : Event Id) (s' : State Id Hash) (hs : Reviewed s)
    (hclean : AllClean toLowerCase s) (h : step toLowerCase digest s e = some s') :
    AllClean toLowerCase s' ↔ NothingNew toLowerCase s e := by
  by_cases hcreate : ∃ i runId, e = .create i runId
  · obtain ⟨i, runId, rfl⟩ := hcreate
    obtain ⟨parameters, validation, input, ids, hcall, rfl⟩ := step_create h
    have haccepted : Accepted validation input := hs.calls _ (List.mem_of_getElem? hcall)
    have hnew : NothingNew toLowerCase s (.create i runId) ↔
        (s.reserved parameters ids = [] → Covered validation.sheets
          (loadValidationItems toLowerCase s.tables ids s.production.parameters)
          validation.params s.production.parameters.validationParams
          input.acknowledgedWarnings) := by
      refine ⟨fun hnew => hnew _ _ _ _ hcall, ?_⟩
      intro hcovered p v r is hcall'
      cases Option.some.inj (hcall.symm.trans hcall')
      exact hcovered
    rw [hnew]
    rcases create_cases s i runId parameters input ids with ⟨hne, heq⟩ | ⟨hnil, store, heq⟩
    · rw [heq]
      exact iff_of_true hclean fun hnil => absurd hnil hne
    · -- the runs before stay as they are, and there is one more
      have hclean_iff : Clean toLowerCase ⟨parameters, ids, input.acknowledgedWarnings,
          s.production.parameters, s.tables⟩ ↔ _ := clean_iff toLowerCase haccepted rfl
      rw [heq, ← hclean_iff]
      refine ⟨fun hall _ => hall _ (List.mem_append_right _ (List.mem_cons_self ..)), ?_⟩
      intro hone release hrelease
      rcases List.mem_append.mp hrelease with hrelease | hrelease
      · exact hclean release hrelease
      · rw [List.mem_singleton.mp hrelease]
        exact hone hnil
  · have hreleases := releases_eq_of_step (fun i runId he => hcreate ⟨i, runId, he⟩) h
    have hnothing : NothingNew toLowerCase s e := by
      cases e with
      | create i runId => exact absurd ⟨i, runId, rfl⟩ hcreate
      | _ => trivial
    refine iff_of_true (fun release hrelease => ?_) hnothing
    exact hclean release (hreleases ▸ hrelease)

end Steps

section Runs

variable {Id Hash : Type} [LinearOrder Id] [DecidableEq Hash] (toLowerCase : JsString → JsString)
  (digest : List Id → Hash)

/-- **No run is released on stale facts** in a run of the system exactly if nothing new that
needs an acknowledgement applies when a run is created. -/
theorem allClean_iff {tables : Tables Id} {store : Store Id} {id tenantId : Id}
    {parameters : ProductionParameters Id} {events : List (Event Id)} {s : State Id Hash}
    (h : run (step toLowerCase digest) (State.created tables store id tenantId parameters) events =
      some s) :
    Throughout (step toLowerCase digest) (AllClean toLowerCase)
        (State.created tables store id tenantId parameters) events ↔
      Always (step toLowerCase digest) (NothingNew toLowerCase)
        (State.created tables store id tenantId parameters) events := by
  have hreviewed : Reviewed
      (State.created tables store id tenantId parameters : State Id Hash) :=
    ⟨fun validation hvalidation => (by cases hvalidation),
      fun call hcall => absurd hcall List.not_mem_nil⟩
  have hclean : AllClean toLowerCase
      (State.created tables store id tenantId parameters : State Id Hash) :=
    fun release hrelease => absurd hrelease List.not_mem_nil
  exact throughout_iff_always reviewed_step allClean_step hreviewed hclean h

end Runs

/-! ## An item that turns out infected -/

/-- When the example snapshots are written. -/
def midnight : JsString := js "2026-01-01T00:00:00.000Z"

/-- A validation of the draft, and the submission of its snapshot up to the last transaction. -/
def validated : List (Event ℕ) := .validate :: finishValidation 0

/-- A submission without acknowledgements. -/
def submission : List (Event ℕ) :=
  [.submit ⟨[], midnight⟩, .resolve 0 fun _ => [1], .create 0 7]

/-- The item of `oneItem` after a scan that found something. -/
def infectedItem : Tables ℕ :=
  exampleTables [{ exampleItem 1 with malwareStatus := .infected }] [] [] (by simp) (by simp)

theorem acyclicParents_oneItem :
    AcyclicParents (loadValidationItems asciiToLowerCase oneItem [1] plainNatives) := by
  apply acyclicParents_of_lt
  intro item hitem parent hparent
  obtain ⟨row, -, -, rfl⟩ := (mem_loadValidationItems asciiToLowerCase).mp hitem
  cases hparent

/-- What applied before covers itself. -/
theorem Covered.refl {Id : Type} [LinearOrder Id] {items : List (ProductionValidationItem Id)}
    {params : ProductionValidationParams} (h : AcyclicParents items)
    (acknowledgements : List Acknowledgement) : Covered items items params params acknowledgements :=
  ⟨returns_iff.mp (returns_of_acyclic h params), fun _ id _ hnoted => .inl ⟨id, hnoted⟩⟩

/-- A run of a draft that nothing happens to. -/
theorem allClean_iff_unchanged :
    Throughout (step asciiToLowerCase id) (AllClean asciiToLowerCase) nativesDraft
      (validated ++ submission) := by
  obtain ⟨s, h⟩ : ∃ s, run (step asciiToLowerCase id) nativesDraft (validated ++ submission) =
    some s := ⟨_, rfl⟩
  apply (allClean_iff asciiToLowerCase id h).mpr
  refine ⟨trivial, ?_⟩
  rintro _ ⟨⟩
  refine ⟨trivial, ?_⟩
  rintro _ ⟨⟩
  refine ⟨trivial, ?_⟩
  rintro _ ⟨⟩
  refine ⟨trivial, ?_⟩
  rintro _ ⟨⟩
  refine ⟨trivial, ?_⟩
  rintro _ ⟨⟩
  refine ⟨trivial, ?_⟩
  rintro _ ⟨⟩
  refine ⟨?_, fun _ _ => trivial⟩
  rintro _ _ _ _ ⟨⟩ -
  exact Covered.refl acyclicParents_oneItem []

/-- **A run of infected items**: the item is found infected after the validation, and nothing
looks at it again. -/
theorem infected_released :
    ¬ Throughout (step asciiToLowerCase id) (AllClean asciiToLowerCase) nativesDraft
      (validated ++ .change infectedItem .empty :: submission) := by
  obtain ⟨s, h, release, hrelease, htables, hids⟩ : ∃ s, run (step asciiToLowerCase id)
      nativesDraft (validated ++ .change infectedItem .empty :: submission) = some s ∧
      ∃ release ∈ s.releases, release.tables = infectedItem ∧ release.selectionItemIds = [1] :=
    ⟨_, rfl, _, List.mem_cons_self .., rfl, rfl⟩
  intro hthroughout
  obtain ⟨flags, hreturns, -, hmalware⟩ := hthroughout.run h release hrelease
  rw [htables, hids] at hreturns
  have hnoted : Noted (loadValidationItems asciiToLowerCase infectedItem [1] release.draft)
      release.draft.validationParams (.malwareItem, 1) :=
    ⟨_, List.mem_cons_self .., rfl, .inl (.inl rfl)⟩
  obtain ⟨flag, hflag, hcode⟩ := hreturns.code_iff.mpr ⟨1, hnoted⟩
  exact hmalware flag hflag hcode

end AegCloudDfir.Production.Drafts
