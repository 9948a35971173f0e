import AegCloudDfir.Collection.Steps

/-!
# Items at rest

What the transactions of a collection do to the state of an item that has evidence, and to the
executions of `fetch-item`. An item is `discovered` or `fetching` only before it has evidence,
unless an execution starts with an item that has some (`Rested`). Every transaction leaves it
at that, but for the one that starts to fetch (`Rests`).

* `motion_of_step` — an execution starts with an item that is not fetched, it marks the item
  as being fetched, and everything else starts nothing and leaves what rests.
* `rests_of_step` — the same for the events that are not of a job.
-/

namespace AegCloudDfir.Collection

variable {Id : Type} [DecidableEq Id]

/-! ## Items with evidence are not being fetched -/

section Rested

variable {provider : Provider}

/-- An item that has evidence is past being fetched. -/
def Resting (provider : Provider) (item : Item Id) : Prop :=
  Fetchable provider item.key → item.evidenceItemId.isSome →
    item.state ≠ .discovered ∧ item.state ≠ .fetching

/-- So are all items. -/
def Rested (provider : Provider) (l : Ledger Id) : Prop :=
  ∀ key item, l.findItem key = some item → Resting provider item

/-- The transaction leaves it at that. -/
def Rests (provider : Provider) (l l' : Ledger Id) : Prop := Rested provider l → Rested provider l'

namespace Rests

variable {l l₁ l₂ : Ledger Id}

theorem refl (l : Ledger Id) : Rests provider l l := fun h => h

theorem trans (h : Rests provider l l₁) (h' : Rests provider l₁ l₂) : Rests provider l l₂ :=
  fun hl => h' (h hl)

theorem of_items (h : l₁.items = l.items) : Rests provider l l₁ := by
  intro hl key item hitem
  rw [Ledger.findItem, h] at hitem
  exact hl key item hitem

theorem updateItems {p : Item Id → Bool} {f : Item Id → Item Id}
    (hkey : ∀ item, (f item).key = item.key)
    (hf : ∀ item, Resting provider item → Resting provider (f item)) :
    Rests provider l (l.updateItems p f) := by
  intro hl key item hitem
  rw [Ledger.findItem_updateItems hkey] at hitem
  obtain ⟨old, hold, rfl⟩ := Option.map_eq_some_iff.mp hitem
  split_ifs
  · exact hf old (hl key old hold)
  · exact hl key old hold

/-- Any state will do but the two an item is fetched in. -/
theorem setState {p : Item Id → Bool} {state : ItemState} (hdiscovered : state ≠ .discovered)
    (hfetching : state ≠ .fetching) :
    Rests provider l (l.updateItems p fun item => { item with state }) :=
  updateItems (fun _ => rfl) fun _ _ _ _ => ⟨hdiscovered, hfetching⟩

theorem createItem {item : Item Id} (h : Resting provider item) :
    Rests provider l (l.createItem item) := by
  intro hl key row hrow
  rw [Ledger.findItem_createItem] at hrow
  rcases Option.or_eq_some_iff.mp hrow with hold | ⟨-, hnew⟩
  · exact hl key row hold
  · split_ifs at hnew
    cases hnew
    exact h

theorem discover (keys : List (ItemKey Id)) (l : Ledger Id) :
    Rests provider l (Ledger.discover keys l) := by
  induction keys generalizing l with
  | nil => exact .refl l
  | cons key keys ih =>
    have hnew : Resting provider (Ledger.newItem key .discovered none) :=
      fun _ hsome => (by cases hsome)
    exact (createItem hnew).trans (ih _)

/-- An item that comes with its evidence. -/
theorem createPreserved {key : ItemKey Id} {evidenceId : Id} :
    Rests provider l (l.createItem (Ledger.newItem key .preserved (some evidenceId))) :=
  createItem fun _ _ => ⟨by simp [Ledger.newItem], by simp [Ledger.newItem]⟩

theorem commitBatches (batches : List (ItemKey Id × Id)) (l : Ledger Id) :
    Rests provider l (Ledger.commitBatches batches l) := by
  induction batches generalizing l with
  | nil => exact .refl l
  | cons batch batches ih =>
    have hbatch : Rests provider l (l.commitBatch batch.1 batch.2) := by
      rw [Ledger.commitBatch]
      split_ifs
      · exact .refl l
      · exact createPreserved.trans (of_items rfl)
    exact hbatch.trans (ih _)

theorem commitAuditPage {id version : ℕ} {batches : List (ItemKey Id × Id)}
    {cursorKind : CursorKind} :
    Rests provider l (l.commitAuditPage id version batches cursorKind) := by
  rw [Ledger.commitAuditPage]
  split_ifs
  · have hadvance : Rests provider l (l.advance id version cursorKind) := of_items rfl
    exact hadvance.trans (commitBatches batches _)
  · exact .refl l

theorem seedCheckpoints (scopes : List (ItemKey Id)) (l : Ledger Id) :
    Rests provider l (Ledger.seedCheckpoints scopes l) := by
  induction scopes generalizing l with
  | nil => exact .refl l
  | cons scope scopes ih =>
    have hseed : Rests provider l (l.seedCheckpoint scope) := by
      rw [Ledger.seedCheckpoint]
      split_ifs
      · exact .refl l
      · exact of_items rfl
    exact hseed.trans (ih _)

theorem preserveItem {key : ItemKey Id} {evidenceId : Id} {derivative : Bool} :
    Rests provider l (l.preserveItem key evidenceId derivative) := by
  intro hl k item hitem
  rw [Ledger.findItem_preserveItem] at hitem
  obtain ⟨old, hold, rfl⟩ := Option.map_eq_some_iff.mp hitem
  split_ifs
  · exact fun _ _ => ⟨by simp, by simp⟩
  · exact hl k old hold

theorem skipItem {key : ItemKey Id} : Rests provider l (l.skipItem key) :=
  (of_items rfl).trans (updateItems (fun _ => rfl) fun _ _ _ _ => ⟨by simp, by simp⟩)

theorem failItem {key : ItemKey Id} {attemptNumber : ℕ} :
    Rests provider l (l.failItem key attemptNumber) :=
  (of_items rfl).trans (updateItems (fun _ => rfl) fun _ _ _ _ => ⟨by simp, by simp⟩)

theorem recordItemFailure {key : ItemKey Id} : Rests provider l (l.recordItemFailure key) := by
  rw [Ledger.recordItemFailure]
  split_ifs
  · exact (of_items rfl).trans (setState (by simp) (by simp))
  · exact .refl l

/-- Nothing in an upload is fetched. -/
theorem upload (l l' : Ledger Id) : Rests .upload l l' :=
  fun _ _ _ _ hfetchable => absurd rfl hfetchable.1

theorem retry {stuck : List Id} {cleared : ℕ} : Rests provider l (l.retry stuck cleared) :=
  Rests.trans (setState (by simp) (by simp)) (of_items rfl)

end Rests

/-- An execution of `fetch-item` that was not there before has just read an item that was
neither fetched nor skipped. -/
def Loads (status : Status) (provider : Provider) (w w' : Work Id) (key : ItemKey Id) : Prop :=
  status = .fetching ∧ Fetchable provider key ∧
    ∃ item, w.ledger.findItem key = some item ∧ ¬ Ledger.isFetched item.state ∧
      w' = { w with fetches := w.fetches ++ [⟨key, item.attempts, item.evidenceItemId, false⟩] }

/-- What a `WorkEvent` does to the executions of `fetch-item`, and that it leaves what rests. -/
inductive Motion (status : Status) (provider : Provider) (w : Work Id) :
    WorkEvent Id → Work Id → Prop where
  | load {key : ItemKey Id} {w' : Work Id} (h : Loads status provider w w' key) :
      Motion status provider w (.loadItem key) w'
  | start {i : ℕ} {job : Fetch Id} (hjob : w.fetches[i]? = some job) :
      Motion status provider w (.startItem i)
        { w with
          ledger := w.ledger.startItem job.key
          fetches := w.fetches.set i { job with started := true } }
  | other {e : WorkEvent Id} {w' : Work Id} (hfetches : w'.fetches ⊆ w.fetches)
      (hledger : Rests provider w.ledger w'.ledger) : Motion status provider w e w'

variable {status : Status} {w w' : Work Id}

theorem Motion.aside {e : WorkEvent Id} {l : Ledger Id} (h : Rests provider w.ledger l) :
    Motion status provider w e (w.withLedger l) :=
  .other (List.Subset.refl _) h

theorem Motion.endPage {e : WorkEvent Id} {i : ℕ} {l : Ledger Id}
    (h : Rests provider w.ledger l) : Motion status provider w e (w.endPage i l) :=
  .other (List.Subset.refl _) h

theorem Motion.endFetch {e : WorkEvent Id} {i : ℕ} {l : Ledger Id}
    (h : Rests provider w.ledger l) : Motion status provider w e (w.endFetch i l) :=
  .other List.eraseIdx_subset h

/-- An execution starts with an item that is neither fetched nor skipped. -/
theorem loads_of_loadItem {key : ItemKey Id} {item : Item Id}
    (h : w.loadItem status provider key = some w') (hstatus : status = .fetching)
    (hitem : w.ledger.findItem key = some item) (hfetched : ¬ Ledger.isFetched item.state) :
    Loads status provider w w' key := by
  have hbail : ¬ (Ledger.isFetched item.state ∨ status ≠ .fetching) := by
    simp [hfetched, hstatus]
  rw [Work.loadItem] at h
  by_cases hkey : Fetchable provider key
  · rw [if_neg (not_not.mpr hkey)] at h
    simp only [hitem, if_neg hbail] at h
    cases h
    exact ⟨hstatus, hkey, item, hitem, hfetched, rfl⟩
  · rw [if_pos hkey] at h
    cases h

theorem Motion.loadItem {key : ItemKey Id} (h : w.loadItem status provider key = some w') :
    Motion status provider w (.loadItem key) w' := by
  rcases hitem : w.ledger.findItem key with _ | item
  · simp only [Work.loadItem, hitem] at h
    split_ifs at h
    cases h
    exact .other (List.Subset.refl _) (.refl _)
  · by_cases hbail : Ledger.isFetched item.state ∨ status ≠ .fetching
    · simp only [Work.loadItem, hitem, if_pos hbail] at h
      split_ifs at h
      cases h
      exact .other (List.Subset.refl _) (.refl _)
    · rw [not_or, not_not] at hbail
      exact .load (loads_of_loadItem h hbail.2 hitem hbail.1)

/-- **What a job that works on the ledger moves.** -/
theorem motion_of_step {e : WorkEvent Id} (h : w.step status provider e = some w') :
    Motion status provider w e w' := by
  cases e with
  | loadPage scope =>
    cases h
    rw [Work.loadPage]
    split_ifs
    · exact .other (List.Subset.refl _) (.refl _)
    · split
      · exact .other (List.Subset.refl _) (.refl _)
      · exact .other (List.Subset.refl _) (.refl _)
  | commitPage i providerItemIds pageEnd =>
    rcases hi : w.pages[i]? with _ | cp <;> simp only [Work.step, hi] at h
    · cases h
    · split_ifs at h
      cases h
      exact .endPage ((Rests.discover _ _).trans (.of_items rfl))
  | commitAuditPage i batches exhausted =>
    rcases hi : w.pages[i]? with _ | cp <;> simp only [Work.step, hi] at h
    · cases h
    · split_ifs at h <;> cases h <;> exact .endPage .commitAuditPage
  | expirePage i | refusePage i | exhaustPage i =>
    obtain ⟨cp, -, rfl⟩ := Option.map_eq_some_iff.mp h
    exact .endPage (.of_items rfl)
  | crashPage i =>
    cases h
    exact .endPage (.refl _)
  | loadItem key => exact .loadItem h
  | startItem i =>
    rcases hi : w.fetches[i]? with _ | job <;> simp only [Work.step, hi] at h
    · cases h
    · split_ifs at h
      cases h
      exact .start hi
  | preserveItem i evidenceId derivative =>
    obtain ⟨job, -, rfl⟩ := Option.map_eq_some_iff.mp h
    exact .endFetch .preserveItem
  | skipItem i =>
    obtain ⟨job, -, rfl⟩ := Option.map_eq_some_iff.mp h
    exact .endFetch .skipItem
  | failItem i =>
    obtain ⟨job, -, rfl⟩ := Option.map_eq_some_iff.mp h
    exact .endFetch .failItem
  | crashItem i =>
    cases h
    exact .endFetch (.refl _)
  | recordException | process evidenceId status children =>
    cases h
    exact .aside (.of_items rfl)
  | indexEvidence evidenceId =>
    cases h
    exact .aside (Rests.trans (.of_items rfl) (.setState (by simp) (by simp)))
  | failIndexing evidenceId | recordEvidenceFailure evidenceId =>
    cases h
    exact .aside (.setState (by simp) (by simp))
  | recordItemFailure key =>
    cases h
    exact .aside .recordItemFailure
  | recordExtractFailure key evidenceId =>
    cases h
    exact .aside (Rests.trans .recordItemFailure (.of_items rfl))
  | preserveMessage key evidenceId | closeContainer key evidenceId state processingStatus =>
    simp only [Work.step] at h
    split_ifs at h with hupload
    cases h
    subst hupload
    exact .aside (.upload _ _)
  | sweepItem key =>
    simp only [Work.step] at h
    split_ifs at h
    cases h
    apply Motion.aside
    rw [Ledger.sweepItem]
    split
    · exact .refl _
    · split
      · exact .refl _
      · exact .updateItems (fun _ => rfl) fun _ h => h
      · exact Rests.trans (.of_items rfl) (.setState (by simp) (by simp))
  | sweepCheckpoint scope | sweepParent evidenceId =>
    simp only [Work.step] at h
    split_ifs at h
    cases h
    exact .aside (.of_items rfl)

/-- Whatever else happens to a collection leaves what rests. -/
theorem rests_of_step {s s' : State Id} {e : Event Id} (h : step s e = some s')
    (he : ∀ e', e ≠ .work e') : Rests s.provider s.work.ledger s'.work.ledger := by
  cases e with
  | work e => exact absurd rfl (he e)
  | loadDiscovery | look =>
    rw [step] at h
    split_ifs at h <;> cases h <;> exact .refl _
  | markDiscovery i | mark i | close i =>
    rw [step] at h
    split at h <;> cases h
    exact .refl _
  | claimContainer i key evidenceId =>
    rw [step] at h
    split at h
    · split_ifs at h with hupload
      cases h
      rw [hupload]
      exact .upload _ _
    · cases h
  | finishDiscovery i scopes =>
    rw [step] at h
    split at h
    · split_ifs at h
      cases h
      exact .seedCheckpoints scopes _
    · cases h
  | failDiscovery i =>
    rw [step] at h
    split at h <;> cases h
    exact .of_items rfl
  | crashDiscovery i | crashFinalize i =>
    cases h
    exact .refl _
  | pause | resume | cancel =>
    rw [step] at h
    split_ifs at h
    cases h
    exact .refl _
  | retry stuck cleared =>
    rw [step] at h
    split_ifs at h
    cases h
    rw [State.retry]
    split_ifs
    · exact .retry
    · exact .retry

end Rested

end AegCloudDfir.Collection
