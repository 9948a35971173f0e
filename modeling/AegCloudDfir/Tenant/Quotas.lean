import AegCloudDfir.Collection.Actions
import AegCloudDfir.Export.Recording
import AegCloudDfir.Lib.Admission

/-!
# Quotas of a tenant

`create` of the collections and of the exports counts what is active and inserts a row in the same
transaction, but nothing keeps another transaction from counting before it commits. A collection
also becomes active again without any count: a user resumes it or retries its failed items, and a
job that was under way writes its status over that of a user. So does an export whose job was
delivered twice.

* `readQuota`, `assertWithinQuota` — the check.
* `Collections.population`, `Exports.population` — the rows, and what makes one active.
* `quotasKept_iff` — the quotas are kept throughout exactly the runs in which everything becomes
  active while there is room for it.
-/

namespace AegCloudDfir.Tenant

open Transition Admission

/-! ## The check -/

/-- `QuotaKey` -/
inductive QuotaKey : Type where
  | maxConcurrentCollections
  | maxConcurrentExports
  | maxConcurrentProductions
  | maxConnectorAccounts
  | maxCustodians
  deriving DecidableEq

namespace QuotaKey

/-- The property of `planQuota`. -/
def property : QuotaKey → JsString
  | maxConcurrentCollections => js "maxConcurrentCollections"
  | maxConcurrentExports => js "maxConcurrentExports"
  | maxConcurrentProductions => js "maxConcurrentProductions"
  | maxConnectorAccounts => js "maxConnectorAccounts"
  | maxCustodians => js "maxCustodians"

/-- `QUOTA_DEFAULTS` -/
def default : QuotaKey → ℕ
  | maxConcurrentCollections => 3
  | maxConcurrentExports => 5
  | maxConcurrentProductions => 2
  | maxConnectorAccounts => 10
  | maxCustodians => 500

end QuotaKey

/-- `readQuota`. Numbers of the JSON document that are integers are integers here. -/
def readQuota (planQuota : JsVal ℚ) (key : QuotaKey) : ℕ :=
  match planQuota with
  | .obj properties =>
    match (properties.find? fun p => p.1 = key.property).map Prod.snd with
    | some (.num value) => if value.den = 1 ∧ 0 ≤ value then value.num.toNat else key.default
    | _ => key.default
  | _ => key.default

/-- `ConflictException` of `assertWithinQuota` -/
structure QuotaExceeded where
  key : QuotaKey
  used : ℕ
  limit : ℕ
  deriving DecidableEq

/-- `assertWithinQuota` -/
def assertWithinQuota (key : QuotaKey) (used limit : ℕ) : Except QuotaExceeded Unit :=
  if used ≥ limit then .error ⟨key, used, limit⟩ else .ok ()

/-- Whether `create` goes on. -/
def withinQuota (key : QuotaKey) (limit used : ℕ) : Bool :=
  match assertWithinQuota key used limit with
  | .ok _ => true
  | .error _ => false

/-! ## Collections -/

namespace Collections

open Collection (Status Provider Discovery)

variable {Id : Type} [DecidableEq Id]

/-- `ACTIVE_STATUSES` -/
def activeStatuses : List Status := [.created, .discovering, .fetching, .processing, .finalizing]

/-- What a user can do to a collection; `retry` with what it finds in the ledger. -/
inductive Action (Id : Type) : Type where
  | pause
  | resume
  | cancel
  | retry (stuck : List Id) (cleared : ℕ)

/-- `LEGAL_TRANSITIONS` -/
def legalTransitions : Action Id → List Status
  | .pause => [.created, .discovering, .fetching, .processing]
  | .resume => [.paused]
  | .cancel => [.created, .discovering, .fetching, .processing, .paused]
  | .retry _ _ => [.failed, .completed]

/-- A collection with the actions that were accepted, but not yet written. -/
structure Row (Id : Type) where
  collection : Collection.State Id
  accepted : List (Action Id)

/-- What can happen to a collection. -/
inductive RowEvent (Id : Type) : Type where
  /-- a transaction of a job -/
  | job (e : Collection.Event Id)
  /-- `action` reads the collection -/
  | accept (action : Action Id)
  /-- it writes what follows -/
  | write (i : ℕ)
  /-- it fails for another reason -/
  | abandon (i : ℕ)

/-- The event is one of a user: its two halves are `accept` and `write`. -/
def isAction : Collection.Event Id → Bool
  | .pause | .resume | .cancel | .retry _ _ => true
  | _ => false

/-- The event is one of a job that writes the status of a collection at work. -/
def marks : Collection.Event Id → Bool
  | .markDiscovery _ | .finishDiscovery _ _ | .mark _ => true
  | _ => false

/-- What `action` writes. -/
def perform (s : Collection.State Id) : Action Id → Collection.State Id
  | .pause => { s with status := .paused }
  | .resume => { s with status := .fetching }
  | .cancel => { s with status := .cancelling, cancelRequested := true }
  | .retry stuck cleared => s.retry stuck cleared

/-- What an event does to a collection. -/
def rowStep (row : Row Id) : RowEvent Id → Option (Row Id)
  | .job e =>
    if isAction e then none
    else (Collection.step row.collection e).map fun collection => { row with collection }
  | .accept action =>
    if row.collection.status ∈ legalTransitions action then
      some { row with accepted := row.accepted ++ [action] }
    else some row
  | .write i =>
    row.accepted[i]?.map fun action =>
      ⟨perform row.collection action, row.accepted.eraseIdx i⟩
  | .abandon i => some { row with accepted := row.accepted.eraseIdx i }

/-- The collection counts. -/
def active (row : Row Id) : Bool := row.collection.status ∈ activeStatuses

/-- The action puts a collection to work. -/
def Restarts (s : Collection.State Id) : Action Id → Prop
  | .resume => True
  | .retry _ _ => s.work.ledger.failedItems.isEmpty = false
  | _ => False

/-- The event makes an inactive collection active: a user puts it to work, or a job writes a status
it decided on before. -/
def Activates (row : Row Id) (e : RowEvent Id) : Prop :=
  active row = false ∧
    match e with
    | .job e => marks e = true
    | .write i => ∃ action ∈ row.accepted[i]?, Restarts row.collection action
    | _ => False

omit [DecidableEq Id] in
instance Restarts.decidable (s : Collection.State Id) : ∀ action, Decidable (Restarts s action)
  | .resume => isTrue trivial
  | .retry _ _ => inferInstanceAs (Decidable (_ = false))
  | .pause | .cancel => isFalse id

instance Activates.decidable (row : Row Id) : ∀ e, Decidable (Activates row e)
  | .job e => inferInstanceAs (Decidable (active row = false ∧ marks e = true))
  | .write i => inferInstanceAs
      (Decidable (active row = false ∧ ∃ action ∈ row.accepted[i]?, Restarts row.collection action))
  | .accept _ | .abandon _ => isFalse And.right

omit [DecidableEq Id] in
theorem active_iff {row : Row Id} : active row = true ↔ row.collection.status ∈ activeStatuses :=
  decide_eq_true_iff

theorem status_of_marks {s s' : Collection.State Id} {e : Collection.Event Id}
    (he : marks e = true) (h : Collection.step s e = some s') : s'.status ∈ activeStatuses := by
  cases e with
  | markDiscovery i =>
    simp only [Collection.step] at h
    split at h <;> cases h
    exact List.mem_cons_of_mem _ List.mem_cons_self
  | finishDiscovery i scopes =>
    simp only [Collection.step] at h
    split at h
    · split at h <;> cases h
      exact List.mem_cons_of_mem _ (List.mem_cons_of_mem _ List.mem_cons_self)
    · cases h
  | mark i =>
    simp only [Collection.step] at h
    split at h <;> cases h
    simp [activeStatuses]
  | _ => cases he

theorem finalStatus_notMem (completeness : Collection.Completeness) :
    Collection.finalStatus completeness ∉ activeStatuses := by
  cases completeness <;> decide

/-- The other jobs leave the status as it is, or are the last ones. -/
theorem status_of_not_marks {s s' : Collection.State Id} {e : Collection.Event Id}
    (haction : isAction e = false) (he : marks e = false) (h : Collection.step s e = some s') :
    s'.status = s.status ∨ s'.status ∉ activeStatuses := by
  have hwrites := Collection.step_status h
  generalize s'.status = status at hwrites ⊢
  cases hwrites with
  | aside => exact .inl rfl
  | failDiscovery i => exact .inr (by decide)
  | close i snapshot hi => exact .inr (finalStatus_notMem _)
  | markDiscovery i => cases he
  | finishDiscovery i scopes => cases he
  | mark i => cases he
  | pause hopen hpaused => cases haction
  | resume hpaused => cases haction
  | cancel hopen => cases haction
  | retry stuck cleared hfrom => cases haction

/-- An action that puts a collection to work is one after which the collection counts. -/
theorem perform_active_iff {s : Collection.State Id} (hs : s.status ∉ activeStatuses)
    (action : Action Id) : (perform s action).status ∈ activeStatuses ↔ Restarts s action := by
  have hpaused : Status.paused ∉ activeStatuses := by decide
  have hfetching : Status.fetching ∈ activeStatuses := by decide
  have hcancelling : Status.cancelling ∉ activeStatuses := by decide
  cases action with
  | pause => exact iff_of_false hpaused id
  | resume => exact iff_of_true hfetching trivial
  | cancel => exact iff_of_false hcancelling id
  | retry stuck cleared =>
    rw [Restarts, perform, Collection.State.retry]
    cases hempty : s.work.ledger.failedItems.isEmpty with
    | true => exact iff_of_false hs (fun h => Bool.false_ne_true h.symm)
    | false => exact iff_of_true hfetching rfl

/-- **What makes a collection active.** -/
theorem activates_iff (row : Row Id) (e : RowEvent Id) (row' : Row Id)
    (h : rowStep row e = some row') :
    Activates row e ↔ active row = false ∧ active row' = true := by
  refine and_congr_right fun hinactive => ?_
  have hstatus : row.collection.status ∉ activeStatuses := of_decide_eq_false hinactive
  rw [active_iff]
  cases e with
  | job e =>
    rw [rowStep] at h
    cases haction : isAction e with
    | true =>
      rw [if_pos haction] at h
      cases h
    | false =>
      rw [haction, if_neg Bool.false_ne_true] at h
      obtain ⟨s', hs', rfl⟩ := Option.map_eq_some_iff.mp h
      change marks e = true ↔ s'.status ∈ activeStatuses
      cases hmarks : marks e with
      | true => exact iff_of_true rfl (status_of_marks hmarks hs')
      | false =>
        refine iff_of_false Bool.false_ne_true ?_
        rcases status_of_not_marks haction hmarks hs' with hsame | hlast
        · rwa [hsame]
        · exact hlast
  | accept action =>
    rw [rowStep] at h
    split at h <;> cases h <;> exact iff_of_false id hstatus
  | write i =>
    obtain ⟨action, hi, rfl⟩ := Option.map_eq_some_iff.mp h
    change (∃ action ∈ row.accepted[i]?, Restarts row.collection action) ↔
      (perform row.collection action).status ∈ activeStatuses
    rw [perform_active_iff hstatus, hi]
    refine ⟨?_, ?_⟩
    · rintro ⟨action', heq, hrestarts⟩
      cases heq
      exact hrestarts
    · exact fun hrestarts => ⟨action, rfl, hrestarts⟩
  | abandon i =>
    cases h
    exact iff_of_false id hstatus

/-- The collections of a tenant. `create` gives one its provider. -/
def population : Population (Row Id) (RowEvent Id) Provider where
  rowStep := rowStep
  active := active
  fresh provider := ⟨.created provider, []⟩
  Activates := Activates
  active_fresh _ := rfl
  activates_iff := activates_iff

instance population.decidable (row : Row Id) (e : RowEvent Id) :
    Decidable (population.Activates row e) :=
  inferInstanceAs (Decidable (Activates row e))

section Machine

variable (planQuota : JsVal ℚ)

/-- `maxConcurrentCollections` of the tenant -/
def limit : ℕ := readQuota planQuota .maxConcurrentCollections

/-- `CollectionsService` and the jobs. -/
def machine (r : Registry (Row Id) JsString Provider) :
    Event (RowEvent Id) JsString Provider → Option (Registry (Row Id) JsString Provider) :=
  step population (withinQuota .maxConcurrentCollections (limit planQuota)) r

/-- At no time are more collections active than allowed. -/
def Kept (es : List (Event (RowEvent Id) JsString Provider)) : Prop :=
  Throughout (machine planQuota) (Within population (limit planQuota)) .empty es

/-- Whenever a collection becomes active, fewer than allowed are. -/
def HasRoom (es : List (Event (RowEvent Id) JsString Provider)) : Prop :=
  Always (machine planQuota) (Room population (limit planQuota)) .empty es

instance HasRoom.decidable (es : List (Event (RowEvent Id) JsString Provider)) :
    Decidable (HasRoom planQuota es) :=
  inferInstanceAs (Decidable (Always _ _ _ _))

end Machine

end Collections

/-! ## Exports -/

namespace Exports

open Export.Recording (ExportStatus ExportKind)
open Evidence (Buffer)

/-- `ACTIVE_STATUSES` -/
def activeStatuses : List ExportStatus := [.queued, .running, .verifying]

/-- An export of some kind. -/
structure Row where
  kind : ExportKind
  «export» : Export.Recording.State

/-- The export counts. -/
def active (row : Row) : Bool := row.export.status ∈ activeStatuses

variable (sha256 : Buffer → Buffer)

/-- What an event does to an export. -/
def rowStep (row : Row) (e : Export.Recording.Event) : Option Row :=
  (Export.Recording.step sha256 row.kind row.export e).map fun state =>
    { row with «export» := state }

/-- A job that found the export unfinished starts when it no longer is. -/
def Activates (row : Row) : Export.Recording.Event → Prop
  | .start _ => active row = false
  | _ => False

instance Activates.decidable (row : Row) : ∀ e, Decidable (Activates row e)
  | .start _ => inferInstanceAs (Decidable (active row = false))
  | .look | .uploadPart _ _ | .uploadManifest _ _ | .complete _ | .fail _ | .crash _ | .cancel =>
    isFalse id

/-- Otherwise the status stays as it is, or it is a last one. -/
theorem status_step {kind : ExportKind} {s s' : Export.Recording.State}
    {e : Export.Recording.Event} (he : ∀ i, e ≠ .start i)
    (h : Export.Recording.step sha256 kind s e = some s') :
    s'.status = s.status ∨ s'.status ∉ activeStatuses := by
  cases e with
  | start i => exact absurd rfl (he i)
  | look | crash i =>
    simp only [Export.Recording.step] at h
    split at h <;> cases h <;> exact .inl rfl
  | uploadPart i bytes | uploadManifest i bytes =>
    simp only [Export.Recording.step] at h
    split at h
    · split at h <;> cases h
      exact .inl rfl
    · cases h
  | complete i =>
    have hready : ExportStatus.ready ∉ activeStatuses := by decide
    simp only [Export.Recording.step] at h
    split at h <;> cases h
    exact .inr hready
  | fail i =>
    have hfailed : ExportStatus.failed ∉ activeStatuses := by decide
    simp only [Export.Recording.step] at h
    split at h <;> cases h <;> exact .inr hfailed
  | cancel =>
    have hcancelled : ExportStatus.cancelled ∉ activeStatuses := by decide
    cases h
    exact .inr hcancelled

theorem activates_iff (row : Row) (e : Export.Recording.Event) (row' : Row)
    (h : rowStep sha256 row e = some row') :
    Activates row e ↔ active row = false ∧ active row' = true := by
  obtain ⟨s', hs', rfl⟩ := Option.map_eq_some_iff.mp h
  by_cases he : ∃ i, e = .start i
  · obtain ⟨i, rfl⟩ := he
    simp only [Export.Recording.step] at hs'
    split at hs' <;> cases hs'
    exact ⟨fun hinactive => ⟨hinactive, rfl⟩, And.left⟩
  · have hother : ¬ Activates row e := by
      cases e with
      | start i => exact absurd ⟨i, rfl⟩ he
      | _ => exact id
    refine iff_of_false hother ?_
    rintro ⟨hinactive, hactive⟩
    have hmem : s'.status ∈ activeStatuses := of_decide_eq_true hactive
    rcases status_step sha256 (fun i hi => he ⟨i, hi⟩) hs' with hsame | hlast
    · exact of_decide_eq_false hinactive (hsame ▸ hmem)
    · exact hlast hmem

/-- The exports of a tenant. `create` gives one its kind. -/
def population : Population Row Export.Recording.Event ExportKind where
  rowStep := rowStep sha256
  active := active
  fresh kind := ⟨kind, .queued⟩
  Activates := Activates
  active_fresh _ := rfl
  activates_iff := activates_iff sha256

instance population.decidable (row : Row) (e : Export.Recording.Event) :
    Decidable ((population sha256).Activates row e) :=
  inferInstanceAs (Decidable (Activates row e))

section Machine

variable (planQuota : JsVal ℚ)

/-- `maxConcurrentExports` of the tenant -/
def limit : ℕ := readQuota planQuota .maxConcurrentExports

/-- `ExportsService` and the job. -/
def machine (r : Registry Row JsString ExportKind) :
    Event Export.Recording.Event JsString ExportKind → Option (Registry Row JsString ExportKind) :=
  step (population sha256) (withinQuota .maxConcurrentExports (limit planQuota)) r

/-- At no time are more exports active than allowed. -/
def Kept (es : List (Event Export.Recording.Event JsString ExportKind)) : Prop :=
  Throughout (machine sha256 planQuota) (Within (population sha256) (limit planQuota)) .empty es

/-- Whenever an export becomes active, fewer than allowed are. -/
def HasRoom (es : List (Event Export.Recording.Event JsString ExportKind)) : Prop :=
  Always (machine sha256 planQuota) (Room (population sha256) (limit planQuota)) .empty es

instance HasRoom.decidable (es : List (Event Export.Recording.Event JsString ExportKind)) :
    Decidable (HasRoom sha256 planQuota es) :=
  inferInstanceAs (Decidable (Always _ _ _ _))

end Machine

end Exports

/-! ## The quotas -/

section Kept

variable {Id : Type} [DecidableEq Id] {sha256 : Evidence.Buffer → Evidence.Buffer}
  {planQuota : JsVal ℚ}

/-- **The quotas are kept throughout exactly the runs in which everything that becomes active finds
room.** -/
theorem quotasKept_iff {collections : List (Event (Collections.RowEvent Id) JsString Collection.Provider)}
    {exports : List (Event Export.Recording.Event JsString Export.Recording.ExportKind)}
    {collections' : Registry (Collections.Row Id) JsString Collection.Provider}
    {exports' : Registry Exports.Row JsString Export.Recording.ExportKind}
    (hcollections : run (Collections.machine planQuota) .empty collections = some collections')
    (hexports : run (Exports.machine sha256 planQuota) .empty exports = some exports') :
    (Collections.Kept planQuota collections ∧ Exports.Kept sha256 planQuota exports) ↔
      Collections.HasRoom planQuota collections ∧ Exports.HasRoom sha256 planQuota exports :=
  and_congr (within_iff (Nat.zero_le _) hcollections) (within_iff (Nat.zero_le _) hexports)

end Kept

/-! ### Two requests at once, and a collection that is resumed -/

/-- A tenant with one collection and one export at a time. -/
def single : JsVal ℚ :=
  .obj [(js "maxConcurrentCollections", .num 1), (js "maxConcurrentExports", .num 1)]

/-- One request is through before the other one comes, and the other one is refused. -/
def served (ε ι : Type) (input : ι) : List (Event ε JsString ι) :=
  [.lookup (js "a") input, .count 0, .commit 0, .lookup (js "b") input, .count 0]

theorem served_kept :
    Collections.Kept single (served (Collections.RowEvent ℕ) _ .imap) ∧
      Exports.Kept id single (served _ _ .csv) := by
  have hcollections : ∃ t, run (Collections.machine single) .empty
      (served (Collections.RowEvent ℕ) _ .imap) = some t := ⟨_, rfl⟩
  have hexports : ∃ t, run (Exports.machine id single) .empty (served _ _ .csv) = some t :=
    ⟨_, rfl⟩
  obtain ⟨t, ht⟩ := hcollections
  obtain ⟨t', ht'⟩ := hexports
  exact (quotasKept_iff ht ht').mpr ⟨by decide +kernel, by decide +kernel⟩

/-- Both requests count before either commits. -/
def raced (ε ι : Type) (input : ι) : List (Event ε JsString ι) :=
  [.lookup (js "a") input, .lookup (js "b") input, .count 0, .count 1, .commit 0, .commit 0]

/-- A collection is paused, another one is created, and the first one is resumed. -/
def resumed : List (Event (Collections.RowEvent ℕ) JsString Collection.Provider) :=
  [.lookup (js "a") .imap, .count 0, .commit 0, .row 0 (.accept .pause), .row 0 (.write 0),
    .lookup (js "b") .imap, .count 0, .commit 0, .row 0 (.accept .resume), .row 0 (.write 0)]

/-- **A tenant with one collection and one export at a time gets two of each.** -/
theorem raced_not_kept :
    ¬ Collections.Kept single (raced (Collections.RowEvent ℕ) _ .imap) ∧
      ¬ Exports.Kept id single (raced _ _ .csv) ∧ ¬ Collections.Kept single resumed := by
  have hexceeded {σ ε ι : Type} {P : Population σ ε ι} {check : ℕ → Bool}
      {es : List (Event ε JsString ι)}
      (hrun : ∃ t, run (step P check) .empty es = some t ∧ t.used P = 2) :
      ¬ Throughout (step P check) (Within P 1) .empty es := by
    obtain ⟨t, ht, hused⟩ := hrun
    intro h
    have hle : t.used P ≤ 1 := h.run ht
    omega
  exact ⟨hexceeded ⟨_, rfl, rfl⟩, hexceeded ⟨_, rfl, rfl⟩, hexceeded ⟨_, rfl, rfl⟩⟩

end AegCloudDfir.Tenant
