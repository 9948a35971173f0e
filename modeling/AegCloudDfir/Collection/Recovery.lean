import AegCloudDfir.Collection.Resting

/-!
# Preserved items and failed jobs

Three transactions mark an item as failed because fetching it failed: the handler of errors in
`fetch-item`, `recordTerminalFailure` of `apps/worker/src/terminal-failure.ts` for a job that
died, and the sweeper of `apps/worker/src/stalled-item-sweeper.ts` when it gives up. The
handler looks at nothing. The other two read the item first and write it then, and at the
isolation level of the database the item can change in between. So here these are two events
each, and the rest of the collection goes on as in `Collection.step`.

An item that was preserved keeps its evidence, so it is enough to know who could still mark it
(`Pending`). Nobody can, in runs where no transaction starts or ends too late (`Calm`), which
is what `preserved_not_remarked` says.
-/

namespace AegCloudDfir.Collection

open Transition

variable {Id : Type} [DecidableEq Id]

namespace Ledger

variable (l : Ledger Id)

/-- The state of an item. -/
def stateOf (key : ItemKey Id) : Option ItemState := (l.findItem key).map (·.state)

/-- `recordTerminalFailure` writes to the item it has found. -/
def recordFailure (key : ItemKey Id) : Ledger Id :=
  l.recordException.updateItem key fun item => { item with state := .failed }

/-- The sweeper writes what it has planned for an item as it read it. -/
def applyPlan (read : Item Id) : Ledger Id :=
  match recoveryPlan read with
  | .wait => l
  | .requeue => l.updateItem read.key fun item => { item with attempts := read.attempts + 1 }
  | .giveUp =>
    (l.recordException.setProcessing (isContainerOf read) .exception).updateItem read.key
      fun item => { item with state := .failed }

end Ledger

namespace Recovery

/-- A collection, and who has read one of its items to write it later. -/
structure State (Id : Type) where
  base : Collection.State Id
  /-- `recordTerminalFailure` of a `fetch-item` job, by the item it has found -/
  failures : List (ItemKey Id)
  /-- the sweeper, by the item it has read -/
  plans : List (Item Id)

/-- A new collection. -/
def State.created (provider : Provider) : State Id := ⟨.created provider, [], []⟩

/-- What comes next. -/
inductive Event (Id : Type) : Type where
  | base (e : Collection.Event Id)
  /-- a job of `fetch-item` died, and `recordTerminalFailure` looks for its item -/
  | findFailed (key : ItemKey Id)
  | recordFailure (i : ℕ)
  | crashRecord (i : ℕ)
  /-- the sweeper finds a stalled item -/
  | readStalled (key : ItemKey Id)
  | applyPlan (i : ℕ)
  | crashSweep (i : ℕ)

/-- The events that are two here. -/
def isSplit : Collection.Event Id → Bool
  | .work (.recordItemFailure _) => true
  | .work (.sweepItem _) => true
  | _ => false

namespace State

variable (s : State Id)

/-- The rows. -/
def ledger : Ledger Id := s.base.work.ledger

/-- Only the ledger changes. -/
def withLedger (ledger : Ledger Id) : State Id :=
  { s with base := s.base.withWork (s.base.work.withLedger ledger) }

/-- An item that no failure of a job may overwrite is not found. `failureTargetFor` knows no
chat messages. -/
def findFailed (key : ItemKey Id) : State Id :=
  match s.ledger.findItem key with
  | none => s
  | some item =>
    if Ledger.isSettled item.state then s else { s with failures := s.failures ++ [key] }

/-- The sweeper reads an item that is in flight. -/
def readStalled (key : ItemKey Id) : State Id :=
  match s.ledger.findItem key with
  | none => s
  | some item =>
    if Ledger.isInFlight item.state then { s with plans := s.plans ++ [item] } else s

end State

/-- One event, if it can come next. -/
def step (s : State Id) : Event Id → Option (State Id)
  | .base e => if isSplit e then none else (Collection.step s.base e).map fun base => { s with base }
  | .findFailed key =>
    if Fetchable s.base.provider key ∧ key.source ≠ .chat then some (s.findFailed key) else none
  | .recordFailure i =>
    s.failures[i]?.map fun key =>
      { s.withLedger (s.ledger.recordFailure key) with failures := s.failures.eraseIdx i }
  | .crashRecord i => some { s with failures := s.failures.eraseIdx i }
  | .readStalled key => if s.base.status.isSwept then some (s.readStalled key) else none
  | .applyPlan i =>
    s.plans[i]?.map fun item =>
      { s.withLedger (s.ledger.applyPlan item) with plans := s.plans.eraseIdx i }
  | .crashSweep i => some { s with plans := s.plans.eraseIdx i }

/-! ## Marking a preserved item -/

/-- The sweeper gives up an item that it read before it was preserved: it gives up fetching
it. -/
def GivesUpFetch (provider : Provider) (read : Item Id) : Prop :=
  Fetchable provider read.key ∧ read.state ≠ .preserved ∧ Ledger.isInFlight read.state ∧
    read.attempts ≥ maxRecoveryAttempts

/-- The event writes that fetching the item failed. -/
def Fails (s : State Id) (key : ItemKey Id) : Event Id → Prop
  | .base (.work (.failItem i)) => ∃ job, s.base.work.started? i = some job ∧ job.key = key
  | .recordFailure i => s.failures[i]? = some key
  | .applyPlan i =>
    ∃ read, s.plans[i]? = some read ∧ read.key = key ∧ GivesUpFetch s.base.provider read
  | _ => False

/-- The item is preserved, and has its evidence. -/
def Preserved (s : State Id) (key : ItemKey Id) : Prop :=
  ∃ item, s.ledger.findItem key = some item ∧ item.state = .preserved ∧ item.evidenceItemId.isSome

/-- No failure to fetch the item moves it to `failed`. -/
def NotRemarked (key : ItemKey Id) (s : State Id) (e : Event Id) : Prop :=
  Fails s key e → ∀ s', step s e = some s' →
    s'.ledger.stateOf key = some .failed → s.ledger.stateOf key = some .failed

/-- Someone has read the item who can still write that fetching it failed. -/
def Pending (s : State Id) (key : ItemKey Id) : Prop :=
  (∃ job ∈ s.base.work.fetches, job.key = key) ∨ key ∈ s.failures ∨
    ∃ read ∈ s.plans, read.key = key ∧ GivesUpFetch s.base.provider read

/-- Nothing starts too late for an item, and nothing is under way when the item is preserved:

* no execution of `fetch-item` starts with an item that has evidence,
* no job is reported dead whose item has evidence, unless the item is settled,
* and when an execution preserves its item, nobody else has read it who could fail. -/
def Calm (s : State Id) : Event Id → Prop
  | .base (.work (.loadItem key)) => s.base.status = .fetching →
    ∀ item, s.ledger.findItem key = some item → item.evidenceItemId.isSome →
      Ledger.isFetched item.state
  | .base (.work (.preserveItem i _ _)) => ∀ job, s.base.work.started? i = some job →
    (∀ j other, j ≠ i → s.base.work.fetches[j]? = some other → other.key ≠ job.key) ∧
      job.key ∉ s.failures ∧
      ∀ read ∈ s.plans, GivesUpFetch s.base.provider read → read.key ≠ job.key
  | .findFailed key =>
    ∀ item, s.ledger.findItem key = some item → item.evidenceItemId.isSome →
      Ledger.isSettled item.state
  | _ => True

end Recovery

namespace Rests

variable {provider : Provider} {l : Ledger Id}

theorem recordFailure {key : ItemKey Id} : Rests provider l (l.recordFailure key) :=
  (of_items rfl).trans (setState (by simp) (by simp))

theorem applyPlan {read : Item Id} : Rests provider l (l.applyPlan read) := by
  rw [Ledger.applyPlan]
  split
  · exact .refl l
  · exact updateItems (fun _ => rfl) fun _ h => h
  · exact (of_items rfl).trans (setState (by simp) (by simp))

end Rests

namespace Recovery

variable {s s' : State Id} {key : ItemKey Id}

/-! ## Evidence -/

theorem evidenceOf_eq {l : Ledger Id} {item : Item Id} (h : l.findItem key = some item) :
    l.evidenceOf key = item.evidenceItemId := by
  rw [Ledger.evidenceOf, h]
  rfl

theorem findItem_startItem {l : Ledger Id} (k : ItemKey Id) :
    (l.startItem key).findItem k = (l.findItem k).map fun item =>
      if item.key = key then
        { item with state := .fetching, attempts := item.attempts + 1, lastAttempt := .running }
      else item := by
  have hupdate := Ledger.findItem_updateItems (l := l) (p := fun item => item.key = key)
    (f := fun item =>
      { item with state := .fetching, attempts := item.attempts + 1, lastAttempt := .running })
    (fun _ => rfl) k
  simp only [decide_eq_true_eq] at hupdate
  exact hupdate

theorem inert_recordFailure {provider : Provider} {l : Ledger Id} :
    Ledger.Inert provider l (l.recordFailure key) :=
  Ledger.inert_recordException.trans Ledger.inert_setState

theorem inert_applyPlan {provider : Provider} {l : Ledger Id} {read : Item Id} :
    Ledger.Inert provider l (l.applyPlan read) := by
  rw [Ledger.applyPlan]
  split
  · exact .refl l
  · exact Ledger.inert_updateItems (fun _ => rfl) (fun _ _ => rfl) fun _ h => h
  · exact (Ledger.inert_recordException.trans Ledger.inert_setProcessing).trans
      Ledger.inert_setState

/-! ## The invariant -/

/-- **The invariant**: nobody can still mark an item that has evidence. -/
structure Guarded (s : State Id) : Prop where
  rested : Rested s.base.provider s.ledger
  fetches : ∀ job ∈ s.base.work.fetches, Fetchable s.base.provider job.key ∧
    (s.ledger.findItem job.key).isSome
  failures : ∀ key ∈ s.failures, Fetchable s.base.provider key
  clear : ∀ key, (s.ledger.evidenceOf key).isSome → ¬ Pending s key

theorem guarded_created (provider : Provider) : Guarded (State.created provider : State Id) where
  rested _ _ h := by cases h
  fetches _ h := absurd h List.not_mem_nil
  failures _ h := absurd h List.not_mem_nil
  clear _ h := by cases h

theorem Guarded.fetchable (h : Guarded s) (hpending : Pending s key) :
    Fetchable s.base.provider key := by
  rcases hpending with ⟨job, hjob, rfl⟩ | hkey | ⟨read, -, rfl, hfetchable, -⟩
  · exact (h.fetches job hjob).1
  · exact h.failures key hkey
  · exact hfetchable

/-- Where no evidence appears and nobody reads an item, the invariant stays. -/
theorem Guarded.mono (h : Guarded s) (hprovider : s'.base.provider = s.base.provider)
    (hrested : Rested s.base.provider s'.ledger)
    (hsame : s.ledger.SameEvidence s.base.provider s'.ledger)
    (hfetches : ∀ job ∈ s'.base.work.fetches, ∃ old ∈ s.base.work.fetches, old.key = job.key)
    (hfailures : s'.failures ⊆ s.failures) (hplans : s'.plans ⊆ s.plans) : Guarded s' := by
  have hpending : ∀ key, Pending s' key → Pending s key := by
    rintro key (⟨job, hjob, rfl⟩ | hkey | ⟨read, hread, hkey, hgives⟩)
    · exact .inl (hfetches job hjob)
    · exact .inr (.inl (hfailures hkey))
    · exact .inr (.inr ⟨read, hplans hread, hkey, hprovider ▸ hgives⟩)
  refine ⟨hprovider.symm ▸ hrested, fun job hjob => ?_, fun key hkey => ?_, fun key hsome hp => ?_⟩
  · obtain ⟨old, hold, hkey⟩ := hfetches job hjob
    obtain ⟨hfetchable, hpresent⟩ := h.fetches old hold
    rw [hprovider, ← hkey]
    exact ⟨hfetchable, hsame.present old.key hpresent⟩
  · rw [hprovider]
    exact h.failures key (hfailures hkey)
  · have hp := hpending key hp
    rw [hsame.evidenceOf key (h.fetchable hp)] at hsome
    exact h.clear key hsome hp

/-- Evidence appears only when an item is preserved. -/
theorem evidence_of_work {provider : Provider} {status : Status} {w w' : Work Id}
    {e : WorkEvent Id} (h : w.step status provider e = some w') :
    w.ledger.SameEvidence provider w'.ledger ∨
      ∃ i evidenceId derivative job, e = .preserveItem i evidenceId derivative ∧
        w.started? i = some job ∧
        w' = w.endFetch i (w.ledger.preserveItem job.key evidenceId derivative) := by
  cases Work.step_cases h with
  | preserve hjob => exact .inr ⟨_, _, _, _, rfl, hjob, rfl⟩
  | fail hjob => exact .inl Ledger.sameEvidence_failItem
  | inert hledger hfetches => exact .inl hledger.toSameEvidence

/-- An execution starts with an item that has no evidence. -/
theorem Guarded.load {w' : Work Id} (h : Guarded s)
    (hcalm : Calm s (.base (.work (.loadItem key))))
    (hload : Loads s.base.status s.base.provider s.base.work w' key) :
    Guarded { s with base := s.base.withWork w' } := by
  obtain ⟨hstatus, hkey, item, hitem, hfetched, rfl⟩ := hload
  refine ⟨h.rested, fun job hjob => ?_, h.failures, fun k hsome hpending => ?_⟩
  · rcases List.mem_append.mp hjob with hold | hnew
    · exact h.fetches job hold
    · obtain rfl := List.mem_singleton.mp hnew
      exact ⟨hkey, Option.isSome_of_eq_some hitem⟩
  · rcases hpending with ⟨job, hjob, rfl⟩ | hpending
    · rcases List.mem_append.mp hjob with hold | hnew
      · exact h.clear job.key hsome (.inl ⟨job, hold, rfl⟩)
      · obtain rfl := List.mem_singleton.mp hnew
        have hevidence : s.ledger.evidenceOf key = item.evidenceItemId := evidenceOf_eq hitem
        change (s.ledger.evidenceOf key).isSome at hsome
        rw [hevidence] at hsome
        exact hfetched (hcalm hstatus item hitem hsome)
    · exact h.clear k hsome (.inr hpending)

/-- An execution marks its item as being fetched, which has no evidence. -/
theorem Guarded.start {i : ℕ} {job : Fetch Id} (h : Guarded s)
    (hjob : s.base.work.fetches[i]? = some job) :
    Guarded { s with
      base := s.base.withWork { s.base.work with
        ledger := s.ledger.startItem job.key
        fetches := s.base.work.fetches.set i { job with started := true } } } := by
  have hmem : job ∈ s.base.work.fetches := List.mem_of_getElem? hjob
  have hnone : ¬ (s.ledger.evidenceOf job.key).isSome := fun hsome =>
    h.clear job.key hsome (.inl ⟨job, hmem, rfl⟩)
  refine h.mono ?_ ?_ ?_ ?_ ?_ ?_
  · rfl
  · intro k item hitem
    change (s.ledger.startItem job.key).findItem k = some item at hitem
    rw [findItem_startItem] at hitem
    obtain ⟨old, hold, rfl⟩ := Option.map_eq_some_iff.mp hitem
    split_ifs with hkey
    · -- the item of the execution
      intro _ hsome
      obtain rfl := Ledger.findItem_key hold
      rw [← hkey, evidenceOf_eq hold] at hnone
      exact absurd hsome hnone
    · exact h.rested k old hold
  · exact Ledger.inert_startItem.toSameEvidence
  · intro x hx
    rcases List.mem_or_eq_of_mem_set hx with hold | rfl
    · exact ⟨x, hold, rfl⟩
    · exact ⟨job, hmem, rfl⟩
  · exact List.Subset.refl _
  · exact List.Subset.refl _

/-- An item is preserved, and nobody else has read it. -/
theorem Guarded.preserve {i : ℕ} {evidenceId : Id} {derivative : Bool} {job : Fetch Id}
    (h : Guarded s) (hcalm : Calm s (.base (.work (.preserveItem i evidenceId derivative))))
    (hjob : s.base.work.started? i = some job) :
    Guarded { s with
      base := s.base.withWork
        (s.base.work.endFetch i (s.ledger.preserveItem job.key evidenceId derivative)) } := by
  obtain ⟨hothers, hfailures, hplans⟩ := hcalm job hjob
  refine ⟨Rests.preserveItem h.rested, fun x hx => ?_, h.failures, fun k hsome hpending => ?_⟩
  · obtain ⟨hfetchable, hpresent⟩ := h.fetches x (List.eraseIdx_subset hx)
    exact ⟨hfetchable, Ledger.present_preserveItem hpresent⟩
  by_cases hk : k = job.key
  · subst hk
    rcases hpending with ⟨x, hx, hkey⟩ | hkey | ⟨read, hread, hkey, hgives⟩
    · obtain ⟨j, hj, hne⟩ := List.mem_eraseIdx_iff_getElem?.mp hx
      exact hothers j x hj hne hkey
    · exact hfailures hkey
    · exact hplans read hread hgives hkey
  · change ((s.ledger.preserveItem job.key evidenceId derivative).evidenceOf k).isSome at hsome
    rw [Ledger.evidenceOf_preserveItem_of_ne hk] at hsome
    apply h.clear k hsome
    rcases hpending with ⟨x, hx, hkey⟩ | hpending
    · exact .inl ⟨x, List.eraseIdx_subset hx, hkey⟩
    · exact .inr hpending

/-- **What a job does to the invariant.** -/
theorem Guarded.work {e : WorkEvent Id} {w' : Work Id} (h : Guarded s)
    (hcalm : Calm s (.base (.work e)))
    (hstep : s.base.work.step s.base.status s.base.provider e = some w') :
    Guarded { s with base := s.base.withWork w' } := by
  cases motion_of_step hstep with
  | load hload => exact h.load hcalm hload
  | start hjob => exact h.start hjob
  | other hfetches hledger =>
    rcases evidence_of_work hstep with hsame | ⟨i, evidenceId, derivative, job, rfl, hjob, rfl⟩
    · exact h.mono rfl (hledger h.rested) hsame (fun x hx => ⟨x, hfetches hx, rfl⟩)
        (List.Subset.refl _) (List.Subset.refl _)
    · exact h.preserve hcalm hjob

/-- **What any event does to the invariant**, if it is calm. -/
theorem guarded_step (s : State Id) (e : Event Id) (s' : State Id) (h : Guarded s)
    (hcalm : Calm s e) (hstep : step s e = some s') : Guarded s' := by
  cases e with
  | base e =>
    simp only [step] at hstep
    split_ifs at hstep
    obtain ⟨base, hbase, rfl⟩ := Option.map_eq_some_iff.mp hstep
    cases e with
    | work e =>
      obtain ⟨w', hw', rfl⟩ := Option.map_eq_some_iff.mp hbase
      exact h.work hcalm hw'
    | _ =>
      obtain ⟨hprovider, ⟨_, ⟨⟩, -⟩ | ⟨hfetches, hledger⟩⟩ := step_work hbase
      exact h.mono hprovider (rests_of_step hbase (fun _ he => (by cases he)) h.rested)
        hledger.toSameEvidence (fun x hx => ⟨x, hfetches ▸ hx, rfl⟩) (List.Subset.refl _)
        (List.Subset.refl _)
  | findFailed key =>
    simp only [step] at hstep
    split_ifs at hstep with hkey
    obtain rfl := Option.some.inj hstep
    rw [State.findFailed]
    rcases hitem : s.ledger.findItem key with _ | item
    · exact h
    · simp only
      split_ifs with hsettled
      · exact h
      · refine ⟨h.rested, h.fetches, fun k hk => ?_, fun k hsome hpending => ?_⟩
        · rcases List.mem_append.mp hk with hold | hnew
          · exact h.failures k hold
          · exact List.mem_singleton.mp hnew ▸ hkey.1
        · rcases hpending with hjob | hk | hplan
          · exact h.clear k hsome (.inl hjob)
          · rcases List.mem_append.mp hk with hold | hnew
            · exact h.clear k hsome (.inr (.inl hold))
            · obtain rfl := List.mem_singleton.mp hnew
              change (s.ledger.evidenceOf k).isSome at hsome
              rw [evidenceOf_eq hitem] at hsome
              exact hsettled (hcalm item hitem hsome)
          · exact h.clear k hsome (.inr (.inr hplan))
  | recordFailure i =>
    obtain ⟨key, -, rfl⟩ := Option.map_eq_some_iff.mp hstep
    exact h.mono rfl (Rests.recordFailure h.rested) inert_recordFailure.toSameEvidence
      (fun x hx => ⟨x, hx, rfl⟩) List.eraseIdx_subset (List.Subset.refl _)
  | crashRecord i =>
    cases hstep
    exact h.mono rfl h.rested (Ledger.Inert.refl _).toSameEvidence (fun x hx => ⟨x, hx, rfl⟩) List.eraseIdx_subset
      (List.Subset.refl _)
  | readStalled key =>
    simp only [step] at hstep
    split_ifs at hstep
    obtain rfl := Option.some.inj hstep
    rw [State.readStalled]
    rcases hitem : s.ledger.findItem key with _ | item
    · exact h
    · simp only
      split_ifs
      · refine ⟨h.rested, h.fetches, h.failures, fun k hsome hpending => ?_⟩
        rcases hpending with hjob | hk | ⟨read, hread, rfl, hgives⟩
        · exact h.clear k hsome (.inl hjob)
        · exact h.clear k hsome (.inr (.inl hk))
        · rcases List.mem_append.mp hread with hold | hnew
          · exact h.clear read.key hsome (.inr (.inr ⟨read, hold, rfl, hgives⟩))
          · -- an item that has evidence is not given up as one to be fetched
            obtain rfl := List.mem_singleton.mp hnew
            obtain ⟨hfetchable, hnotPreserved, hinFlight, -⟩ := hgives
            obtain rfl := Ledger.findItem_key hitem
            change (s.ledger.evidenceOf read.key).isSome at hsome
            rw [evidenceOf_eq hitem] at hsome
            obtain ⟨hdiscovered, hfetching⟩ := h.rested read.key read hitem hfetchable hsome
            simp [Ledger.isInFlight, hdiscovered, hfetching, hnotPreserved] at hinFlight
      · exact h
  | applyPlan i =>
    obtain ⟨item, -, rfl⟩ := Option.map_eq_some_iff.mp hstep
    exact h.mono rfl (Rests.applyPlan h.rested) inert_applyPlan.toSameEvidence
      (fun x hx => ⟨x, hx, rfl⟩) (List.Subset.refl _) List.eraseIdx_subset
  | crashSweep i =>
    cases hstep
    exact h.mono rfl h.rested (Ledger.Inert.refl _).toSameEvidence (fun x hx => ⟨x, hx, rfl⟩) (List.Subset.refl _)
      List.eraseIdx_subset

/-! ## Calm runs -/

omit [DecidableEq Id] in
/-- Who fails an item has read it before. -/
theorem pending_of_fails {e : Event Id} (h : Fails s key e) : Pending s key := by
  cases e with
  | base e =>
    cases e with
    | work e =>
      cases e with
      | failItem i =>
        obtain ⟨job, hjob, hkey⟩ := h
        exact .inl ⟨job, Work.started?_eq_some hjob, hkey⟩
      | _ => exact absurd h id
    | _ => exact absurd h id
  | recordFailure i => exact .inr (.inl (List.mem_of_getElem? h))
  | applyPlan i =>
    obtain ⟨read, hread, hkey, hgives⟩ := h
    exact .inr (.inr ⟨read, List.mem_of_getElem? hread, hkey, hgives⟩)
  | _ => exact absurd h id

/-- What an event does to the evidence of items. -/
theorem evidence_step {e : Event Id} (h : step s e = some s') :
    s'.base.provider = s.base.provider ∧
      ((∀ key, Fetchable s.base.provider key →
          s'.ledger.evidenceOf key = s.ledger.evidenceOf key) ∨
        ∃ k evidenceId derivative, s'.ledger = s.ledger.preserveItem k evidenceId derivative) := by
  cases e with
  | base e =>
    simp only [step] at h
    split_ifs at h
    obtain ⟨base, hbase, rfl⟩ := Option.map_eq_some_iff.mp h
    obtain ⟨hprovider, ⟨e', -, hwork⟩ | ⟨-, hledger⟩⟩ := step_work hbase
    · rcases evidence_of_work hwork with hsame | ⟨i, evidenceId, derivative, job, -, -, heq⟩
      · exact ⟨hprovider, .inl hsame.evidenceOf⟩
      · exact ⟨hprovider, .inr ⟨job.key, evidenceId, derivative, congrArg Work.ledger heq⟩⟩
    · exact ⟨hprovider, .inl hledger.evidenceOf⟩
  | findFailed k =>
    simp only [step] at h
    split_ifs at h
    obtain rfl := Option.some.inj h
    rw [State.findFailed]
    split
    · exact ⟨rfl, .inl fun _ _ => rfl⟩
    · split_ifs <;> exact ⟨rfl, .inl fun _ _ => rfl⟩
  | recordFailure i =>
    obtain ⟨k, -, rfl⟩ := Option.map_eq_some_iff.mp h
    exact ⟨rfl, .inl inert_recordFailure.evidenceOf⟩
  | crashRecord i | crashSweep i =>
    cases h
    exact ⟨rfl, .inl fun _ _ => rfl⟩
  | readStalled k =>
    simp only [step] at h
    split_ifs at h
    obtain rfl := Option.some.inj h
    rw [State.readStalled]
    split
    · exact ⟨rfl, .inl fun _ _ => rfl⟩
    · split_ifs <;> exact ⟨rfl, .inl fun _ _ => rfl⟩
  | applyPlan i =>
    obtain ⟨read, -, rfl⟩ := Option.map_eq_some_iff.mp h
    exact ⟨rfl, .inl inert_applyPlan.evidenceOf⟩

/-- Evidence stays. -/
theorem evidence_stays {e : Event Id} (h : step s e = some s')
    (hfetchable : Fetchable s.base.provider key) (hsome : (s.ledger.evidenceOf key).isSome) :
    (s'.ledger.evidenceOf key).isSome := by
  obtain ⟨-, hsame | ⟨k, evidenceId, derivative, hpreserve⟩⟩ := evidence_step h
  · rw [hsame key hfetchable]
    exact hsome
  · rw [hpreserve]
    by_cases hk : key = k
    · subst hk
      rw [Ledger.evidenceOf_preserveItem (Option.isSome_of_isSome_bind hsome)]
      rfl
    · rw [Ledger.evidenceOf_preserveItem_of_ne hk]
      exact hsome

/-- **A preserved item is not marked again** in a calm run: whatever happens after it was
preserved, no failure to fetch it moves it to `failed`. -/
theorem preserved_not_remarked {provider : Provider} {events more : List (Event Id)}
    {s : State Id} {key : ItemKey Id} (h : run step (State.created provider) events = some s)
    (hcalm : Always step Calm (State.created provider) (events ++ more))
    (hpreserved : Preserved s key) : Always step (NotRemarked key) s more := by
  obtain ⟨hbefore, hafter⟩ := Always.append.mp hcalm
  have hguarded : Guarded s :=
    Always.run_induction guarded_step (guarded_created provider) hbefore h
  obtain ⟨item, hitem, -, hsome⟩ := hpreserved
  have hevidence : (s.ledger.evidenceOf key).isSome := by
    rw [evidenceOf_eq hitem]
    exact hsome
  -- from now on the item has evidence, and nobody is left who could mark it
  have hstep : ∀ (t : State Id) (e : Event Id) (t' : State Id),
      Guarded t ∧ (Fetchable t.base.provider key → (t.ledger.evidenceOf key).isSome) →
        Calm t e → step t e = some t' →
          Guarded t' ∧ (Fetchable t'.base.provider key → (t'.ledger.evidenceOf key).isSome) := by
    intro t e t' ht hcalm hstep
    refine ⟨guarded_step t e t' ht.1 hcalm hstep, fun hfetchable => ?_⟩
    rw [(evidence_step hstep).1] at hfetchable
    exact evidence_stays hstep hfetchable (ht.2 hfetchable)
  apply Always.imp hstep ?_ ⟨hguarded, fun _ => hevidence⟩ (hafter s h)
  intro t e ht _ hfails
  have hpending := pending_of_fails hfails
  exact absurd hpending (ht.1.clear key (ht.2 (ht.1.fetchable hpending)))

/-- The first execution of a message's job dies before its item is preserved, and the second
one preserves it. -/
def retriedFetch : List (Event ℕ) :=
  onePage.map .base ++ ([.base (.work (.loadItem (mailboxKey 7))), .base (.work (.startItem 0)),
    .base (.work (.crashItem 0)), .findFailed (mailboxKey 7), .recordFailure 0,
    .base (.work (.loadItem (mailboxKey 7))), .base (.work (.startItem 0)),
    .base (.work (.preserveItem 0 100 false))] : List (Event ℕ))

/-- The job runs once more after that, and dies only when the item is indexed. -/
def afterPreserved : List (Event ℕ) :=
  [.base (.work (.loadItem (mailboxKey 7))), .base (.work (.indexEvidence 100)),
    .findFailed (mailboxKey 7)]

theorem preserved_not_remarked_example :
    ∃ s, run step (State.created .google) retriedFetch = some s ∧
      Always step (NotRemarked (mailboxKey 7)) s afterPreserved := by
  have hcalm : Always step Calm (State.created .google) (retriedFetch ++ afterPreserved) := by
    iterate 5
      refine ⟨trivial, ?_⟩
      rintro _ ⟨⟩
    -- the item has no evidence yet
    refine ⟨(by rintro - _ ⟨⟩ ⟨⟩), ?_⟩
    rintro _ ⟨⟩
    iterate 2
      refine ⟨trivial, ?_⟩
      rintro _ ⟨⟩
    refine ⟨(by rintro _ ⟨⟩ ⟨⟩), ?_⟩
    rintro _ ⟨⟩
    refine ⟨trivial, ?_⟩
    rintro _ ⟨⟩
    refine ⟨(by rintro - _ ⟨⟩ ⟨⟩), ?_⟩
    rintro _ ⟨⟩
    refine ⟨trivial, ?_⟩
    rintro _ ⟨⟩
    -- only this execution has read it
    refine ⟨?_, ?_⟩
    · rintro _ ⟨⟩
      refine ⟨?_, List.not_mem_nil, fun _ hread => absurd hread List.not_mem_nil⟩
      rintro (_ | j) other hj hother
      · exact absurd rfl hj
      · cases hother
    rintro _ ⟨⟩
    -- it is fetched, and then settled
    refine ⟨(by rintro - _ ⟨⟩ -; rfl), ?_⟩
    rintro _ ⟨⟩
    refine ⟨trivial, ?_⟩
    rintro _ ⟨⟩
    exact ⟨(by rintro _ ⟨⟩ -; rfl), fun _ _ => trivial⟩
  exact ⟨_, rfl, preserved_not_remarked rfl hcalm ⟨_, rfl, rfl, rfl⟩⟩

/-! ## A run that is not calm -/

/-- The item is preserved, and the worker is killed before it acknowledges the job. -/
def killedWorker : List (Event ℕ) :=
  onePage.map .base ++ ([.base (.work (.loadItem (mailboxKey 7))), .base (.work (.startItem 0)),
    .base (.work (.preserveItem 0 100 false))] : List (Event ℕ))

/-- Not every run of the system leaves preserved items alone: the stalled job is reported. -/
theorem killedWorker_remarked :
    ¬ ∀ (events more : List (Event ℕ)) (s : State ℕ) (key : ItemKey ℕ),
      run step (State.created .google) events = some s → Preserved s key →
        Always step (NotRemarked key) s more := by
  intro h
  have halways := h killedWorker [.findFailed (mailboxKey 7), .recordFailure 0] _ (mailboxKey 7)
    rfl ⟨_, rfl, rfl, rfl⟩
  obtain ⟨-, hafter⟩ := halways
  have hbefore := (hafter _ rfl).1 rfl _ rfl rfl
  cases hbefore

end Recovery

end AegCloudDfir.Collection
