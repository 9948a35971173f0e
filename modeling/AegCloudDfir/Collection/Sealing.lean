import AegCloudDfir.Collection.Steps

/-!
# Sealing a collection

`finalize` reads the collection in one transaction, moves it to `finalizing` in a second,
and stores the completeness in a third. Its gate asks for quiet only in the status
`fetching`, and it tells a cancelled collection from its status alone.

* `honest_of_undisturbed` — a completeness that says complete was decided on a quiet
  collection nobody had cancelled, in every run in which no `finalize` has to make sense
  of a `finalizing` that another one left behind, and nothing reopens a cancelled
  collection.
* `retried_of_patient` — `finalize` never takes a collection out of `fetching` while a
  retry is pending, in every run in which it never finds a pending retry alone.
-/

namespace AegCloudDfir.Collection

open Transition

variable {Id : Type} {provider : Provider}

/-! ## The gate -/

namespace Ledger

variable {l : Ledger Id}

theorem count_eq_zero_iff {state : ItemState} :
    l.count state = 0 ↔ ∀ item ∈ l.items, item.state ≠ state := by
  rw [count, List.countP_eq_zero]
  simp

/-- The three counts of `finalize` say that nothing is left to do. -/
theorem quiet_of_counts (hitems : l.inFlight = 0) (hpages : l.pageCheckpoints = 0)
    (hparents : l.unparsedParents = 0) : l.Quiet where
  items := by
    rw [inFlight, Nat.add_eq_zero_iff, Nat.add_eq_zero_iff] at hitems
    obtain ⟨⟨hdiscovered, hfetching⟩, hpreserved⟩ := hitems
    intro item hitem hflight
    rcases of_decide_eq_true hflight with h | h | h
    · exact count_eq_zero_iff.mp hdiscovered item hitem h
    · exact count_eq_zero_iff.mp hfetching item hitem h
    · exact count_eq_zero_iff.mp hpreserved item hitem h
  checkpoints cp hcp hkind := by
    apply List.countP_eq_zero.mp hpages cp hcp
    exact decide_eq_true hkind
  parents row hrow hkind hpending := by
    apply List.countP_eq_zero.mp hparents row hrow
    exact decide_eq_true ⟨hkind, hpending⟩

end Ledger

namespace Snapshot

variable {snapshot : Snapshot Id}

/-- Nothing was left to do, and nobody had cancelled the collection. -/
def Settled (snapshot : Snapshot Id) : Prop :=
  snapshot.ledger.Quiet ∧ snapshot.cancelRequested = false

theorem quiet_of_passes (h : snapshot.passes) (hstatus : snapshot.status = .fetching) :
    snapshot.ledger.Quiet := by
  obtain ⟨-, hgate⟩ := of_decide_eq_true h
  have hcounts : ¬ (snapshot.ledger.inFlight > 0 ∨ snapshot.ledger.pageCheckpoints > 0 ∨
      snapshot.ledger.unparsedParents > 0) := fun hbusy => hgate ⟨hstatus, hbusy⟩
  rw [not_or, not_or] at hcounts
  obtain ⟨hitems, hpages, hparents⟩ := hcounts
  exact Ledger.quiet_of_counts (Nat.eq_zero_of_not_pos hitems) (Nat.eq_zero_of_not_pos hpages)
    (Nat.eq_zero_of_not_pos hparents)

theorem status_of_passes (h : snapshot.passes) :
    snapshot.status = .fetching ∨ snapshot.status = .cancelling ∨ snapshot.status = .finalizing :=
  of_decide_eq_true (of_decide_eq_true h).1

end Snapshot

/-- A completeness that says the collection is complete. -/
def Completeness.SaysComplete (completeness : Completeness) : Prop :=
  completeness = .completeWithinSelectedApiScope ∨ completeness = .completeWithExceptions

theorem Snapshot.not_cancelling_of_complete {snapshot : Snapshot Id}
    (h : snapshot.completeness.SaysComplete) : snapshot.status ≠ .cancelling := by
  intro hstatus
  have hcancelled : snapshot.completeness = .cancelled := by
    rw [Snapshot.completeness, decideCompleteness, hstatus]
    rfl
  rw [hcancelled] at h
  rcases h with h | h <;> cases h

theorem Snapshot.failed_of_complete {snapshot : Snapshot Id}
    (h : snapshot.completeness.SaysComplete) : snapshot.ledger.count .failed = 0 := by
  by_contra hfailed
  have hpos : snapshot.ledger.count .failed > 0 := Nat.pos_of_ne_zero hfailed
  rw [Snapshot.completeness, decideCompleteness] at h
  -- with failures, the verdict is one of the first three
  split at h
  · rcases h with h | h <;> cases h
  · split at h
    · rcases h with h | h <;> cases h
    · rcases h with h | h <;> cases h

/-! ## Honest seals -/

/-- Every completeness that says complete was decided on a settled collection. -/
def Honest (s : State Id) : Prop :=
  ∀ stored ∈ s.seals, stored.completeness.SaysComplete → stored.snapshot.Settled

variable [DecidableEq Id] in
/-- Nothing reopens a collection that was cancelled: neither a `discover` that was on its
way, nor a retry that goes back to the provider. And a `finalize` that finds the collection
`finalizing` already, and no failed item in it, finds it settled. -/
def Undisturbed (s : State Id) : Event Id → Prop
  | .markDiscovery _ | .finishDiscovery _ _ => s.cancelRequested = false
  | .retry _ _ => s.work.ledger.failedItems ≠ [] → s.cancelRequested = false
  | .look => s.status = .finalizing → s.work.ledger.count .failed = 0 → s.snapshot.Settled
  | _ => True

/-- The statuses in which a collection can still be cancelled. -/
def Status.IsOpen (status : Status) : Prop :=
  status = .created ∨ status = .discovering ∨ status = .fetching ∨ status = .processing ∨
    status = .paused

/-- What keeps seals honest. -/
structure Sealable (s : State Id) : Prop where
  /-- a cancelled collection stays closed -/
  closed : s.cancelRequested = true → ¬ s.status.IsOpen
  /-- `finalize` knows that the collection is cancelled or has failures, or has seen it
  settled -/
  finalizers : ∀ f ∈ s.finalizers,
    f.snapshot.status = .cancelling ∨ (f.snapshot.ledger.count .failed = 0 → f.snapshot.Settled)
  honest : Honest s

theorem sealable_created (provider : Provider) : Sealable (State.created provider : State Id) where
  closed h := by cases h
  finalizers _ h := by cases h
  honest _ h := by cases h

namespace Sealable

variable {s : State Id}

/-- An event that does not touch what `finalize` has seen. -/
theorem of_status {s' : State Id} (h : Sealable s) (hfinalizers : s'.finalizers = s.finalizers)
    (hseals : s'.seals = s.seals) (hclosed : s'.cancelRequested = true → ¬ s'.status.IsOpen) :
    Sealable s' where
  closed := hclosed
  finalizers f hf := h.finalizers f (hfinalizers ▸ hf)
  honest stored hstored := h.honest stored (hseals ▸ hstored)

/-- Unless it was cancelled, a collection may change its status. -/
theorem of_uncancelled {s' : State Id} (h : Sealable s) (hfinalizers : s'.finalizers = s.finalizers)
    (hseals : s'.seals = s.seals) (hcancel : s'.cancelRequested = s.cancelRequested)
    (huncancelled : s.cancelRequested = false) : Sealable s' := by
  refine h.of_status hfinalizers hseals fun hcancelled => ?_
  rw [hcancel, huncancelled] at hcancelled
  cases hcancelled

theorem uncancelled (h : Sealable s) (hopen : s.status.IsOpen) : s.cancelRequested = false := by
  rw [← Bool.not_eq_true]
  exact fun hcancelled => h.closed hcancelled hopen

/-- What a `finalize` has seen that goes through its gate. -/
theorem look (h : Sealable s)
    (hclear : s.status = .finalizing → s.work.ledger.count .failed = 0 → s.snapshot.Settled)
    (hpasses : s.snapshot.passes) :
    s.snapshot.status = .cancelling ∨
      (s.snapshot.ledger.count .failed = 0 → s.snapshot.Settled) := by
  rcases Snapshot.status_of_passes hpasses with hstatus | hstatus | hstatus
  · -- the gate has counted, and a cancelled collection is not fetching
    refine .inr fun _ => ⟨Snapshot.quiet_of_passes hpasses hstatus, ?_⟩
    exact h.uncancelled (.inr (.inr (.inl hstatus)))
  · exact .inl hstatus
  · exact .inr (hclear hstatus)

theorem isClosed_finalStatus (completeness : Completeness) :
    ¬ (finalStatus completeness).IsOpen := by
  cases completeness <;> rintro (h | h | h | h | h) <;> cases h

end Sealable

variable [DecidableEq Id]

theorem sealable_step {s s' : State Id} {e : Event Id} (h : Sealable s) (hclear : Undisturbed s e)
    (hs : step s e = some s') : Sealable s' := by
  cases e with
  | work e =>
    obtain ⟨w, -, rfl⟩ := Option.map_eq_some_iff.mp hs
    exact h.of_status rfl rfl h.closed
  | loadDiscovery =>
    rw [step] at hs
    split at hs <;> cases hs <;> exact h.of_status rfl rfl h.closed
  | markDiscovery i =>
    rw [step] at hs
    split at hs <;> cases hs
    exact h.of_uncancelled rfl rfl rfl hclear
  | claimContainer i key evidenceId =>
    rw [step] at hs
    split at hs
    · split at hs <;> cases hs
      exact h.of_status rfl rfl h.closed
    · cases hs
  | finishDiscovery i scopes =>
    rw [step] at hs
    split at hs
    · split at hs <;> cases hs
      exact h.of_uncancelled rfl rfl rfl hclear
    · cases hs
  | failDiscovery i | cancel =>
    rw [step] at hs
    split at hs <;> cases hs
    refine h.of_status rfl rfl fun _ => ?_
    rintro (h | h | h | h | h) <;> cases h
  | crashDiscovery i =>
    cases hs
    exact h.of_status rfl rfl h.closed
  | pause =>
    rw [step] at hs
    split at hs
    · rename_i hstatus
      cases hs
      refine h.of_uncancelled rfl rfl rfl (h.uncancelled ?_)
      rcases hstatus with hstatus | hstatus | hstatus | hstatus
      · exact .inl hstatus
      · exact .inr (.inl hstatus)
      · exact .inr (.inr (.inl hstatus))
      · exact .inr (.inr (.inr (.inl hstatus)))
    · cases hs
  | resume =>
    rw [step] at hs
    split at hs
    · rename_i hstatus
      cases hs
      exact h.of_uncancelled rfl rfl rfl (h.uncancelled (.inr (.inr (.inr (.inr hstatus)))))
    · cases hs
  | retry stuck cleared =>
    rw [step] at hs
    split at hs
    · cases hs
      rw [State.retry]
      split
      · exact h.of_status rfl rfl h.closed
      · rename_i hfailed
        refine h.of_uncancelled rfl rfl rfl (hclear fun hempty => ?_)
        exact hfailed (List.isEmpty_iff.mpr hempty)
    · cases hs
  | look =>
    rw [step] at hs
    split at hs
    · rename_i hpasses
      cases hs
      refine ⟨h.closed, fun f hf => ?_, h.honest⟩
      rcases List.mem_append.mp hf with hold | hnew
      · exact h.finalizers f hold
      · obtain rfl := List.mem_singleton.mp hnew
        exact h.look hclear hpasses
    · cases hs
      exact h
  | mark i =>
    rw [step] at hs
    split at hs
    · rename_i snapshot hi
      cases hs
      refine ⟨fun _ => ?_, fun f hf => ?_, h.honest⟩
      · rintro (h | h | h | h | h) <;> cases h
      · rcases List.mem_or_eq_of_mem_set hf with hold | rfl
        · exact h.finalizers f hold
        · exact h.finalizers ⟨snapshot, false⟩ (List.mem_of_getElem? hi)
    · cases hs
  | close i =>
    rw [step] at hs
    split at hs
    · rename_i snapshot hi
      cases hs
      refine ⟨fun _ => Sealable.isClosed_finalStatus _, fun f hf => ?_, fun stored hstored => ?_⟩
      · exact h.finalizers f (List.eraseIdx_subset hf)
      · rcases List.mem_append.mp hstored with hold | hnew
        · exact h.honest stored hold
        · -- the new seal says what was decided on the snapshot of this execution
          obtain rfl := List.mem_singleton.mp hnew
          intro hcomplete
          rcases h.finalizers _ (List.mem_of_getElem? hi) with hcancelling | hsettled
          · exact absurd hcancelling (Snapshot.not_cancelling_of_complete hcomplete)
          · exact hsettled (Snapshot.failed_of_complete hcomplete)
    · cases hs
  | crashFinalize i =>
    cases hs
    exact ⟨h.closed, fun f hf => h.finalizers f (List.eraseIdx_subset hf), h.honest⟩

/-- The message of a small collection is fetched, parsed and indexed, and then the
collection is finalized. -/
def finalized : List (Event ℕ) :=
  onePage ++ ([.work (.loadItem (mailboxKey 7)), .work (.startItem 0),
    .work (.preserveItem 0 100 false), .work (.process 100 .parsed []),
    .work (.indexEvidence 100), .look, .mark 0, .close 0] : List (Event ℕ))

/-- A collection is cancelled before its message is fetched. The `finalize` that sees this
dies after its second transaction, and the next one finds the collection `finalizing`. -/
def cancelledThenCrashed : List (Event ℕ) :=
  onePage ++ ([.cancel, .look, .mark 0, .crashFinalize 0, .look, .mark 0,
    .close 0] : List (Event ℕ))

/-- The collection is complete, although it was cancelled with its message undiscovered. -/
theorem cancelledThenCrashed_complete :
    ∃ s, run step (State.created .google) cancelledThenCrashed = some s ∧
      ∃ stored ∈ s.seals, stored.completeness = .completeWithinSelectedApiScope ∧
        stored.snapshot.cancelRequested = true ∧ stored.snapshot.ledger.inFlight = 1 :=
  ⟨_, rfl, _, List.mem_cons_self .., rfl, rfl, rfl⟩

/-- Taking the collection out of `fetching`, `finalize` finds no retry pending. -/
def RetriesDone (s : State Id) : Event Id → Prop
  | .mark i =>
    (step s (.mark i)).isSome → s.status = .fetching → s.work.ledger.NoRetryPending
  | _ => True

/-- `finalize` never finds a pending retry alone: when it reads a `fetching` collection in
which an item awaits its retry, something else is left to do. No item fails for a retry
between the first two transactions of such a `finalize`, and only such a `finalize` takes
the collection out of `fetching`. -/
def Patient (s : State Id) : Event Id → Prop
  | .look => s.status = .fetching → s.work.ledger.Quiet → s.work.ledger.NoRetryPending
  | .work (.failItem i) =>
    ∀ job, s.work.started? i = some job → job.attempts + 1 < maxItemAttempts →
      ∀ f ∈ s.finalizers, f.snapshot.status = .fetching → f.marked = true
  | .mark i =>
    ∀ f, s.finalizers[i]? = some f → s.status = .fetching → f.snapshot.status = .fetching
  | _ => True

/-- Where the executions of `finalize` come from. -/
theorem finalizers_step {s s' : State Id} {e : Event Id} (hs : step s e = some s') :
    ∀ f ∈ s'.finalizers, f ∈ s.finalizers ∨
      (f.marked = true ∧ ⟨f.snapshot, false⟩ ∈ s.finalizers ∧ s'.status = .finalizing) ∨
      (e = .look ∧ s.snapshot.passes ∧ f = ⟨s.snapshot, false⟩) := by
  have hsame : s'.finalizers = s.finalizers → ∀ f ∈ s'.finalizers, f ∈ s.finalizers ∨
      (f.marked = true ∧ ⟨f.snapshot, false⟩ ∈ s.finalizers ∧ s'.status = .finalizing) ∨
      (e = .look ∧ s.snapshot.passes ∧ f = ⟨s.snapshot, false⟩) :=
    fun heq f hf => .inl (heq ▸ hf)
  cases e with
  | work e =>
    obtain ⟨w, -, rfl⟩ := Option.map_eq_some_iff.mp hs
    exact hsame rfl
  | crashDiscovery i =>
    cases hs
    exact hsame rfl
  | retry stuck cleared =>
    rw [step] at hs
    split at hs
    · cases hs
      rw [State.retry]
      split <;> exact fun f hf => .inl hf
    · cases hs
  | claimContainer i key evidenceId | finishDiscovery i scopes =>
    rw [step] at hs
    split at hs
    · split at hs <;> cases hs
      exact hsame rfl
    · cases hs
  | look =>
    rw [step] at hs
    split at hs
    · rename_i hpasses
      cases hs
      intro f hf
      rcases List.mem_append.mp hf with hold | hnew
      · exact .inl hold
      · obtain rfl := List.mem_singleton.mp hnew
        exact .inr (.inr ⟨rfl, hpasses, rfl⟩)
    · cases hs
      exact hsame rfl
  | mark i =>
    rw [step] at hs
    split at hs
    · rename_i snapshot hi
      cases hs
      intro f hf
      rcases List.mem_or_eq_of_mem_set hf with hold | rfl
      · exact .inl hold
      · exact .inr (.inl ⟨rfl, List.mem_of_getElem? hi, rfl⟩)
    · cases hs
  | close i =>
    rw [step] at hs
    split at hs <;> cases hs
    exact fun f hf => .inl (List.eraseIdx_subset hf)
  | crashFinalize i =>
    cases hs
    exact fun f hf => .inl (List.eraseIdx_subset hf)
  | _ =>
    rw [step] at hs
    split at hs <;> cases hs <;> exact hsame rfl

/-- An event that `Patient` allows lets no retry become pending while a `finalize` relies
on there being none. -/
theorem retries_step {s s' : State Id} {e : Event Id} (hclear : Patient s e)
    (hs : step s e = some s') {f : Finalizer Id} (hf : f ∈ s.finalizers)
    (hstatus : f.snapshot.status = .fetching) (hmarked : f.marked = false)
    (h : s.work.ledger.NoRetryPending) : s'.work.ledger.NoRetryPending := by
  obtain ⟨-, hwork⟩ := step_work hs
  rcases hwork with ⟨e, rfl, he⟩ | ⟨-, hledger⟩
  · revert he
    generalize s'.work = w'
    intro he
    cases Work.step_cases he with
    | preserve hjob => exact Ledger.retries_preserveItem h
    | @fail i job hjob =>
      refine Ledger.retries_failItem ?_ h
      by_contra hretried
      have := hclear job hjob (Nat.not_le.mp hretried) f hf hstatus
      rw [hmarked] at this
      cases this
    | inert hledger hfetches => exact hledger.retries h
  · exact hledger.retries h

/-- While a `finalize` has read `fetching` and not written yet, no retry is pending. -/
def Awaited (s : State Id) : Prop :=
  ∀ f ∈ s.finalizers, f.snapshot.status = .fetching → f.marked = false →
    s.work.ledger.NoRetryPending

theorem awaited_step {s s' : State Id} {e : Event Id} (h : Awaited s) (hclear : Patient s e)
    (hs : step s e = some s') : Awaited s' := by
  intro f hf hstatus hmarked
  rcases finalizers_step hs f hf with hold | ⟨hdone, -⟩ | ⟨rfl, hpasses, rfl⟩
  · exact retries_step hclear hs hold hstatus hmarked (h f hold hstatus hmarked)
  · rw [hdone] at hmarked
    cases hmarked
  · -- the gate has just let it through
    have hretries := hclear hstatus (Snapshot.quiet_of_passes hpasses hstatus)
    rw [step, if_pos hpasses] at hs
    cases hs
    exact hretries

/-- The message of a small collection fails once, and is fetched at the second attempt. -/
def retried : List (Event ℕ) :=
  onePage ++ ([.work (.loadItem (mailboxKey 7)), .work (.startItem 0), .work (.failItem 0),
    .work (.loadItem (mailboxKey 7)), .work (.startItem 0), .work (.preserveItem 0 100 false),
    .work (.process 100 .parsed []), .work (.indexEvidence 100), .look, .mark 0] : List (Event ℕ))

/-- The message fails once, and a check comes before its retry. -/
def failedOnce : List (Event ℕ) :=
  onePage ++ ([.work (.loadItem (mailboxKey 7)), .work (.startItem 0), .work (.failItem 0),
    .look] : List (Event ℕ))

end AegCloudDfir.Collection
