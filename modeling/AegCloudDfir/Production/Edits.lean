import AegCloudDfir.Production.Drafts
import AegCloudDfir.Production.Leaks

/-!
# No edit of a draft is lost

After an edit the draft is to stay what the edit made it, until the next one, and a run is to
freeze what the draft is when the run is created (`NoEditLost`). `validate` and `submit` both
work with a draft they have read before, and neither looks again, so this holds throughout a
run exactly if no draft changes between these two transactions of a request
(`noEditLost_iff`).
-/

namespace AegCloudDfir.Production.Drafts

open Transition

section Edits

variable {Id Hash : Type}

/-- The draft is as the latest edit left it, and every run froze the draft of its time. -/
structure NoEditLost (s : State Id Hash) : Prop where
  draft : ∀ parameters, s.latest = some parameters → s.production.parameters = parameters
  frozen : ∀ release ∈ s.releases, release.frozen = release.draft

/-- Where a request writes a snapshot or creates a run, the draft is what it has read. -/
def ReadsCurrent [LinearOrder Id] (s : State Id Hash) : Event Id → Prop
  | .save i _ => ∀ call, s.calls[i]? = some call → call.parameters = s.production.parameters
  | .create i _ => ∀ parameters validation input ids,
    s.calls[i]? = some (.unchanged parameters validation input ids) →
      s.reserved parameters ids = [] → parameters = s.production.parameters
  | _ => True

/-- Before the first edit there are only the parameters the production was made with. -/
def Unedited (made : ProductionParameters Id) (s : State Id Hash) : Prop :=
  s.latest = none →
    s.production.parameters = made ∧ ∀ call ∈ s.calls, call.parameters = made

end Edits

section Steps

variable {Id Hash : Type} [LinearOrder Id] [DecidableEq Hash] {toLowerCase : JsString → JsString}
  {digest : List Id → Hash} {made : ProductionParameters Id}

theorem unedited_step (s : State Id Hash) (e : Event Id) (s' : State Id Hash)
    (hs : Unedited made s) (h : step toLowerCase digest s e = some s') : Unedited made s' := by
  -- a request that goes on keeps the parameters it has read
  have hgoesOn : ∀ {i : ℕ} {call call' : Call Id Hash}, s.calls[i]? = some call →
      call'.parameters = call.parameters → Unedited made (s.goesOn i call') := by
    intro i call call' hcall hparameters hlatest
    obtain ⟨hmade, hcalls⟩ := hs hlatest
    refine ⟨hmade, mem_calls_goesOn hcalls ?_⟩
    rw [hparameters]
    exact hcalls call (List.mem_of_getElem? hcall)
  have hclosed : ∀ i, Unedited made (s.closed i) := fun i hlatest =>
    ⟨(hs hlatest).1, mem_calls_closed (hs hlatest).2⟩
  cases e with
  | change tables store =>
    cases h
    exact hs
  | update version parameters =>
    rcases step_update h with rfl | ⟨production, -, rfl⟩
    · exact hs
    · rintro ⟨⟩
  | validate =>
    rcases step_validate h with rfl | rfl
    · exact hs
    · intro hlatest
      exact ⟨(hs hlatest).1, mem_calls_opened (hs hlatest).2 (hs hlatest).1⟩
  | resolve i searches =>
    rcases step_resolve h with ⟨parameters, ids, hcall, rfl⟩ |
      ⟨parameters, validation, input, ids, hcall, rfl⟩ | rfl
    · exact hgoesOn hcall rfl
    · exact hgoesOn hcall rfl
    · exact hclosed i
  | evaluate i rounds =>
    obtain ⟨parameters, ids, flags, hcall, -, rfl⟩ := step_evaluate h
    exact hgoesOn hcall rfl
  | save i calculatedAt =>
    obtain ⟨parameters, ids, sheets, flags, hcall, rfl⟩ := step_save h
    intro hlatest
    obtain ⟨-, hcalls⟩ := hs hlatest
    exact ⟨hcalls _ (List.mem_of_getElem? hcall), mem_calls_closed hcalls⟩
  | submit input =>
    rcases step_submit h with rfl | ⟨validation, -, -, rfl⟩
    · exact hs
    · intro hlatest
      exact ⟨(hs hlatest).1, mem_calls_opened (hs hlatest).2 (hs hlatest).1⟩
  | create i runId =>
    obtain ⟨parameters, validation, input, ids, -, rfl⟩ := step_create h
    rcases create_cases s i runId parameters input ids with ⟨-, heq⟩ | ⟨-, store, heq⟩
    · rw [heq]
      exact hclosed i
    · rw [heq]
      exact hclosed i
  | abort i =>
    cases h
    exact hclosed i

/-- **Which steps lose no edit.** -/
theorem noEditLost_step (s : State Id Hash) (e : Event Id) (s' : State Id Hash)
    (hs : Unedited made s) (hgood : NoEditLost s)
    (h : step toLowerCase digest s e = some s') : NoEditLost s' ↔ ReadsCurrent s e := by
  -- most steps change nothing of this
  have hsame : ∀ {t : State Id Hash}, t.production.parameters = s.production.parameters →
      t.latest = s.latest → t.releases = s.releases → NoEditLost t := by
    intro t hparameters hlatest hreleases
    refine ⟨fun parameters hp => ?_, hreleases ▸ hgood.frozen⟩
    rw [hparameters]
    exact hgood.draft parameters (hlatest ▸ hp)
  cases e with
  | change tables store | abort i =>
    cases h
    exact iff_of_true (hsame rfl rfl rfl) trivial
  | update version parameters =>
    refine iff_of_true ?_ trivial
    rcases step_update h with rfl | ⟨production, hupdate, rfl⟩
    · exact hgood
    · obtain ⟨-, -, rfl⟩ := update_ok hupdate
      exact ⟨fun p hp => Option.some.inj hp, hgood.frozen⟩
  | validate =>
    refine iff_of_true ?_ trivial
    rcases step_validate h with rfl | rfl
    · exact hgood
    · exact hsame rfl rfl rfl
  | resolve i searches =>
    refine iff_of_true ?_ trivial
    rcases step_resolve h with ⟨parameters, ids, -, rfl⟩ |
      ⟨parameters, validation, input, ids, -, rfl⟩ | rfl
    · exact hsame rfl rfl rfl
    · exact hsame rfl rfl rfl
    · exact hsame rfl rfl rfl
  | evaluate i rounds =>
    obtain ⟨parameters, ids, flags, -, -, rfl⟩ := step_evaluate h
    exact iff_of_true (hsame rfl rfl rfl) trivial
  | save i calculatedAt =>
    obtain ⟨parameters, ids, sheets, flags, hcall, rfl⟩ := step_save h
    have hcurrent : ReadsCurrent s (.save i calculatedAt) ↔ parameters = s.production.parameters := by
      refine ⟨?_, ?_⟩
      · exact fun hreads => hreads _ hcall
      · rintro hparameters call hcall'
        obtain rfl := Option.some.inj (hcall.symm.trans hcall')
        exact hparameters
    rw [hcurrent]
    refine ⟨?_, ?_⟩
    · intro hsaved
      rcases hlatest : s.latest with _ | edited
      · -- before the first edit there is nothing else to read
        obtain ⟨hmade, hcalls⟩ := hs hlatest
        exact (hcalls _ (List.mem_of_getElem? hcall)).trans hmade.symm
      · exact (hsaved.draft edited hlatest).trans (hgood.draft edited hlatest).symm
    · intro hparameters
      exact hsame hparameters rfl rfl
  | submit input =>
    refine iff_of_true ?_ trivial
    rcases step_submit h with rfl | ⟨validation, -, -, rfl⟩
    · exact hgood
    · exact hsame rfl rfl rfl
  | create i runId =>
    obtain ⟨parameters, validation, input, ids, hcall, rfl⟩ := step_create h
    have hcurrent : ReadsCurrent s (.create i runId) ↔
        (s.reserved parameters ids = [] → parameters = s.production.parameters) := by
      refine ⟨?_, ?_⟩
      · exact fun hreads => hreads _ _ _ _ hcall
      · rintro hparameters p v r is hcall'
        cases Option.some.inj (hcall.symm.trans hcall')
        exact hparameters
    rw [hcurrent]
    rcases create_cases s i runId parameters input ids with ⟨hne, heq⟩ | ⟨hnil, store, heq⟩
    · rw [heq]
      exact iff_of_true (hsame rfl rfl rfl) fun hnil => absurd hnil hne
    · rw [heq]
      refine ⟨?_, ?_⟩
      · intro hcreated _
        exact hcreated.frozen _ (List.mem_append_right _ (List.mem_cons_self ..))
      · intro hparameters
        refine ⟨hgood.draft, fun release hrelease => ?_⟩
        rcases List.mem_append.mp hrelease with hrelease | hrelease
        · exact hgood.frozen release hrelease
        · rw [List.mem_singleton.mp hrelease]
          exact hparameters hnil

end Steps

section Runs

variable {Id Hash : Type} [LinearOrder Id] [DecidableEq Hash] (toLowerCase : JsString → JsString)
  (digest : List Id → Hash)

/-- **No edit is lost** in a run exactly if every request finds the draft as it has read it
when it writes its snapshot or creates its run. -/
theorem noEditLost_iff {tables : Tables Id} {store : Store Id} {id tenantId : Id}
    {parameters : ProductionParameters Id} {events : List (Event Id)} {s : State Id Hash}
    (h : run (step toLowerCase digest) (State.created tables store id tenantId parameters) events =
      some s) :
    Throughout (step toLowerCase digest) NoEditLost
        (State.created tables store id tenantId parameters) events ↔
      Always (step toLowerCase digest) ReadsCurrent
        (State.created tables store id tenantId parameters) events := by
  have hunedited : Unedited parameters
      (State.created tables store id tenantId parameters : State Id Hash) :=
    fun _ => ⟨rfl, fun call hcall => absurd hcall List.not_mem_nil⟩
  have hgood : NoEditLost
      (State.created tables store id tenantId parameters : State Id Hash) :=
    ⟨fun p hp => (by cases hp), fun release hrelease => absurd hrelease List.not_mem_nil⟩
  exact throughout_iff_always unedited_step noEditLost_step hunedited hgood h

end Runs

/-! ## An edit during a validation -/

/-- A production of natives, just made. -/
def nativesDraft : State ℕ (List ℕ) := .created oneItem .empty 1 1 plainNatives

/-- Pages instead of natives. -/
def plainPages : ProductionParameters ℕ := exampleParameters false .pdfOnly ⟨[], []⟩

/-- The `i`-th request resolves and evaluates a selection of one item, and writes its
snapshot. -/
def finishValidation (i : ℕ) : List (Event ℕ) :=
  [.resolve i fun _ => [1], .evaluate i 1, .save i (js "2026-01-01T00:00:00.000Z")]

/-- An edit, and a validation after it. -/
theorem noEditLost_iff_edit_first :
    Throughout (step asciiToLowerCase id) NoEditLost nativesDraft
      (.update 1 plainPages :: .validate :: finishValidation 0) := by
  obtain ⟨s, h⟩ : ∃ s, run (step asciiToLowerCase id) nativesDraft
    (.update 1 plainPages :: .validate :: finishValidation 0) = some s := ⟨_, rfl⟩
  apply (noEditLost_iff asciiToLowerCase id h).mpr
  refine ⟨trivial, ?_⟩
  rintro _ ⟨⟩
  refine ⟨trivial, ?_⟩
  rintro _ ⟨⟩
  refine ⟨trivial, ?_⟩
  rintro _ ⟨⟩
  refine ⟨trivial, ?_⟩
  rintro _ ⟨⟩
  refine ⟨?_, fun _ _ => trivial⟩
  rintro _ ⟨⟩
  rfl

/-- **An edit during a validation is overwritten** when the validation writes its snapshot. -/
theorem edit_during_validation_lost :
    ¬ Throughout (step asciiToLowerCase id) NoEditLost nativesDraft
      (.validate :: .update 1 plainPages :: finishValidation 0) := by
  obtain ⟨s, h, hlatest, houtput⟩ : ∃ s, run (step asciiToLowerCase id) nativesDraft
      (.validate :: .update 1 plainPages :: finishValidation 0) = some s ∧
      s.latest = some plainPages ∧ s.production.parameters.output = .nativesOnly :=
    ⟨_, rfl, rfl, rfl⟩
  intro hthroughout
  rw [(hthroughout.run h).draft plainPages hlatest] at houtput
  exact absurd houtput (by decide)

end AegCloudDfir.Production.Drafts
