import AegCloudDfir.Collection.Jobs
import AegCloudDfir.Lib.Tickets

/-!
# Retrying items

The key of a job of `fetch-item` is an item with its `attempts`. Pages and the action `retry`
take the count as it is, the sweeper increments it first, and an execution increments it when
it starts. A key works once, so a retry does something only if the count went up since the item
was enqueued the last time.

* `ticketed_step` — the keys that were used are those of the counts so far, and the present
  count of an item is used exactly if the item was not attempted since it was enqueued.
* `retries_iff` — when retrying is not without effect.
-/

namespace AegCloudDfir.Collection

open Transition

variable {Id : Type} [DecidableEq Id]

/-! ## Counting attempts -/

namespace Ledger

/-- `attempts` of an item; an item that is not there has none. -/
def attemptsOf (l : Ledger Id) (key : ItemKey Id) : ℕ := ((l.findItem key).map (·.attempts)).getD 0

/-- The transaction counts no attempt, and creates no item twice. -/
structure Steady (l l' : Ledger Id) : Prop where
  attempts : l'.attemptsOf = l.attemptsOf
  nodup : (l.items.map (·.key)).Nodup → (l'.items.map (·.key)).Nodup

namespace Steady

variable {l l₁ l₂ : Ledger Id}

theorem refl (l : Ledger Id) : Steady l l := ⟨rfl, fun h => h⟩

theorem trans (h : Steady l l₁) (h' : Steady l₁ l₂) : Steady l l₂ where
  attempts := h'.attempts.trans h.attempts
  nodup hnodup := h'.nodup (h.nodup hnodup)

theorem of_items (h : l₁.items = l.items) : Steady l l₁ where
  attempts := by
    funext key
    rw [attemptsOf, findItem, h]
    rfl
  nodup hnodup := h ▸ hnodup

/-- A progress counter. -/
theorem counts {preserved : List (Origin Id)} : Steady l { l with preserved } := of_items rfl

/-- Every item keeps its key and its attempts. -/
theorem of_map {g : Item Id → Item Id}
    (hg : ∀ item, (g item).key = item.key ∧ (g item).attempts = item.attempts)
    (h : l₁.items = l.items.map g) : Steady l l₁ where
  attempts := by
    have hkey : ∀ key : ItemKey Id, ((fun item : Item Id => decide (item.key = key)) ∘ g) =
        fun item => decide (item.key = key) := by
      intro key
      funext item
      rw [Function.comp_apply, (hg item).1]
    funext key
    rw [attemptsOf, findItem, h, List.find?_map, hkey, Option.map_map, attemptsOf, findItem]
    congr 2
    funext item
    exact (hg item).2
  nodup hnodup := by
    rw [h, List.map_map]
    refine (List.map_congr_left fun item _ => ?_) ▸ hnodup
    exact (hg item).1.symm

theorem createItem {item : Item Id} (h : item.attempts = 0) : Steady l (l.createItem item) where
  attempts := by
    funext key
    rw [attemptsOf, findItem_createItem, attemptsOf]
    rcases l.findItem key with _ | row
    · by_cases hkey : item.key = key <;> simp [hkey, h]
    · rfl
  nodup hnodup := by
    rw [Ledger.createItem]
    split
    · exact hnodup
    · rename_i hnew
      rw [List.map_append, List.map_singleton, ← List.concat_eq_append]
      refine List.Nodup.concat (fun hmem => hnew ?_) hnodup
      obtain ⟨row, hrow, hkey⟩ := List.mem_map.mp hmem
      exact List.any_eq_true.mpr ⟨row, hrow, decide_eq_true hkey⟩

theorem discover (keys : List (ItemKey Id)) (l : Ledger Id) :
    Steady l (Ledger.discover keys l) := by
  induction keys generalizing l with
  | nil => exact .refl l
  | cons key keys ih => exact (createItem rfl).trans (ih _)

theorem commitBatches (batches : List (ItemKey Id × Id)) (l : Ledger Id) :
    Steady l (Ledger.commitBatches batches l) := by
  induction batches generalizing l with
  | nil => exact .refl l
  | cons batch batches ih =>
    have hbatch : Steady l (l.commitBatch batch.1 batch.2) := by
      rw [commitBatch]
      split_ifs
      · exact .refl l
      · exact (createItem rfl).trans (of_items rfl)
    exact hbatch.trans (ih _)

theorem commitAuditPage {id version : ℕ} {batches : List (ItemKey Id × Id)}
    {cursorKind : CursorKind} : Steady l (l.commitAuditPage id version batches cursorKind) := by
  rw [Ledger.commitAuditPage]
  split_ifs
  · have hadvance : Steady l (l.advance id version cursorKind) := of_items rfl
    exact hadvance.trans (commitBatches batches _)
  · exact .refl l

theorem seedCheckpoints (scopes : List (ItemKey Id)) (l : Ledger Id) :
    Steady l (Ledger.seedCheckpoints scopes l) := by
  induction scopes generalizing l with
  | nil => exact .refl l
  | cons scope scopes ih =>
    have hseed : Steady l (l.seedCheckpoint scope) := by
      rw [seedCheckpoint]
      split_ifs
      · exact .refl l
      · exact of_items rfl
    exact hseed.trans (ih _)

theorem preserveItem {key : ItemKey Id} {evidenceId : Id} {derivative : Bool} :
    Steady l (l.preserveItem key evidenceId derivative) := by
  cases derivative <;> exact of_map (fun item => by split <;> exact ⟨rfl, rfl⟩) rfl

theorem recordItemFailure {key : ItemKey Id} : Steady l (l.recordItemFailure key) := by
  rw [Ledger.recordItemFailure]
  split_ifs
  · exact of_map (fun item => by split <;> exact ⟨rfl, rfl⟩) rfl
  · exact .refl l

theorem claimContainer {key : ItemKey Id} {evidenceId : Id} :
    Steady l (l.claimContainer key evidenceId) := by
  rw [Ledger.claimContainer]
  split_ifs
  · exact .refl l
  · exact (createItem rfl).trans (of_items rfl)

theorem preserveMessage {key : ItemKey Id} {evidenceId : Id} :
    Steady l (l.preserveMessage key evidenceId) := by
  have hmessage : Steady l (l.createEvidence ⟨evidenceId, .email, .pending, .derived⟩) :=
    of_items rfl
  refine (hmessage.trans ?_).trans counts
  split
  · exact of_map (fun item => by split <;> exact ⟨rfl, rfl⟩) rfl
  · exact createItem rfl

theorem closeContainer {key : ItemKey Id} {evidenceId : Id} {state : ItemState}
    {status : ProcessingStatus} : Steady l (l.closeContainer key evidenceId state status) := by
  rw [Ledger.closeContainer]
  split <;> exact of_map (fun item => by split <;> exact ⟨rfl, rfl⟩) rfl

theorem retry {stuck : List Id} {cleared : ℕ} : Steady l (l.retry stuck cleared) :=
  of_map (fun item => by split <;> exact ⟨rfl, rfl⟩) rfl

end Steady

section Counting

variable {l : Ledger Id} {key : ItemKey Id} {item : Item Id} {f : Item Id → Item Id}

/-- The attempts of one item change. -/
theorem attemptsOf_updateItem (hkey : ∀ item, (f item).key = item.key)
    (h : l.findItem key = some item) :
    (l.updateItem key f).attemptsOf = Function.update l.attemptsOf key (f item).attempts := by
  funext k
  rw [attemptsOf, updateItem, findItem_updateItems hkey]
  by_cases hk : k = key
  · subst hk
    rw [h, Function.update_self]
    simp [findItem_key h]
  · rw [Function.update_of_ne hk, attemptsOf]
    rcases hother : l.findItem k with _ | other
    · rfl
    · have hne : other.key ≠ key := findItem_key hother ▸ hk
      simp [hne]

theorem attemptsOf_eq (h : l.findItem key = some item) : l.attemptsOf key = item.attempts := by
  rw [attemptsOf, h]
  rfl

omit [DecidableEq Id] in
theorem keys_updateItems {p : Item Id → Bool} (hkey : ∀ item, (f item).key = item.key) :
    (l.updateItems p f).items.map (·.key) = l.items.map (·.key) := by
  rw [updateItems, List.map_map]
  refine List.map_congr_left fun item _ => ?_
  by_cases hp : p item <;> simp [hp, hkey]

/-- In a table without duplicates every row is the one that is found. -/
theorem findItem_of_mem (hnodup : (l.items.map (·.key)).Nodup) (h : item ∈ l.items) :
    l.findItem item.key = some item := by
  obtain ⟨row, hrow⟩ : ∃ row, l.findItem item.key = some row :=
    Option.isSome_iff_exists.mp (List.find?_isSome.mpr ⟨item, h, decide_eq_true rfl⟩)
  rw [hrow]
  have hmem : row ∈ l.items := List.mem_of_find?_eq_some hrow
  exact congrArg some (List.inj_on_of_nodup_map hnodup hmem h (findItem_key hrow))

end Counting

end Ledger

/-! ## What counts -/

/-- What a `WorkEvent` does to the counts, the sweeper's aside. -/
inductive Work.Counts (w : Work Id) : WorkEvent Id → Work Id → Prop where
  | start {i : ℕ} {job : Fetch Id} (hjob : w.fetches[i]? = some job) :
      Counts w (.startItem i)
        { w with
          ledger := w.ledger.startItem job.key
          fetches := w.fetches.set i { job with started := true } }
  | steady {e : WorkEvent Id} {w' : Work Id} (he : ∀ i, e ≠ .startItem i)
      (h : w.ledger.Steady w'.ledger) : Counts w e w'

theorem Work.counts_of_step {status : Status} {provider : Provider} {w w' : Work Id}
    {e : WorkEvent Id} (h : w.step status provider e = some w') (he : ∀ key, e ≠ .sweepItem key) :
    w.Counts e w' := by
  cases e with
  | startItem i =>
    rcases hi : w.fetches[i]? with _ | job <;> simp only [Work.step, hi] at h
    · cases h
    · split_ifs at h
      cases h
      exact .start hi
  | sweepItem key => exact absurd rfl (he key)
  | loadPage scope =>
    cases h
    refine .steady (by simp) (.of_items ?_)
    rw [Work.loadPage]
    split_ifs
    · rfl
    · split <;> rfl
  | commitPage i providerItemIds pageEnd =>
    rcases hi : w.pages[i]? with _ | cp <;> simp only [Work.step, hi] at h
    · cases h
    · split_ifs at h
      cases h
      exact .steady (by simp) ((Ledger.Steady.discover _ _).trans (.of_items rfl))
  | commitAuditPage i batches exhausted =>
    rcases hi : w.pages[i]? with _ | cp <;> simp only [Work.step, hi] at h
    · cases h
    · split_ifs at h <;> cases h <;> exact .steady (by simp) .commitAuditPage
  | loadItem key =>
    refine .steady (by simp) (.of_items ?_)
    obtain ⟨hledger, -⟩ := Work.loadItem_cases h
    rw [hledger]
  | preserveItem i evidenceId derivative =>
    obtain ⟨job, -, rfl⟩ := Option.map_eq_some_iff.mp h
    exact .steady (by simp) .preserveItem
  | skipItem i | failItem i =>
    obtain ⟨job, -, rfl⟩ := Option.map_eq_some_iff.mp h
    exact .steady (by simp) (.of_map (fun item => by split <;> exact ⟨rfl, rfl⟩) rfl)
  | recordItemFailure key =>
    cases h
    exact .steady (by simp) .recordItemFailure
  | recordExtractFailure key evidenceId =>
    cases h
    exact .steady (by simp) (Ledger.Steady.recordItemFailure.trans (.of_items rfl))
  | preserveMessage key evidenceId =>
    simp only [Work.step] at h
    split_ifs at h
    cases h
    exact .steady (by simp) .preserveMessage
  | closeContainer key evidenceId state processingStatus =>
    simp only [Work.step] at h
    split_ifs at h
    cases h
    exact .steady (by simp) .closeContainer
  | indexEvidence evidenceId | failIndexing evidenceId | recordEvidenceFailure evidenceId =>
    cases h
    exact .steady (by simp) (.of_map (fun item => by split <;> exact ⟨rfl, rfl⟩) rfl)
  | expirePage i | refusePage i | exhaustPage i =>
    obtain ⟨cp, -, rfl⟩ := Option.map_eq_some_iff.mp h
    exact .steady (by simp) (.of_items rfl)
  | sweepCheckpoint scope | sweepParent evidenceId =>
    simp only [Work.step] at h
    split_ifs at h
    cases h
    exact .steady (by simp) (.of_items rfl)
  | _ =>
    cases h
    exact .steady (by simp) (.of_items rfl)

/-- Whatever else happens to a collection counts nothing. -/
theorem steady_of_step {s s' : State Id} {e : Event Id} (h : step s e = some s')
    (he : ∀ e', e ≠ .work e') : s.work.ledger.Steady s'.work.ledger := by
  cases e with
  | work e => exact absurd rfl (he e)
  | claimContainer i key evidenceId =>
    rw [step] at h
    split at h
    · split_ifs at h
      cases h
      exact .claimContainer
    · cases h
  | finishDiscovery i scopes =>
    rw [step] at h
    split at h
    · split_ifs at h
      cases h
      exact .seedCheckpoints scopes _
    · cases h
  | failDiscovery i =>
    rw [step] at h
    split at h <;> cases h
    exact .of_items rfl
  | retry stuck cleared =>
    rw [step] at h
    split_ifs at h
    cases h
    rw [State.retry]
    split_ifs <;> exact .retry
  | loadDiscovery | look =>
    rw [step] at h
    split_ifs at h <;> cases h <;> exact .refl _
  | pause | resume | cancel =>
    rw [step] at h
    split_ifs at h
    cases h
    exact .refl _
  | markDiscovery i | mark i | close i =>
    rw [step] at h
    split at h <;> cases h
    exact .refl _
  | crashDiscovery i | crashFinalize i =>
    cases h
    exact .refl _

namespace Jobs

/-- **What a transaction does to the counts**: it counts an attempt that starts, or one for the
sweeper, or nothing. -/
inductive Counts (s : Recovery.State Id) : Recovery.Event Id → Recovery.State Id → Prop where
  | start {i : ℕ} {job : Fetch Id} {s' : Recovery.State Id}
      (hjob : s.base.work.fetches[i]? = some job)
      (hledger : s'.ledger = s.ledger.startItem job.key) :
      Counts s (.base (.work (.startItem i))) s'
  | requeue {i : ℕ} {read : Item Id} {s' : Recovery.State Id} (hread : s.plans[i]? = some read)
      (hplan : Ledger.recoveryPlan read = .requeue)
      (hledger : s'.ledger = s.ledger.updateItem read.key fun item =>
        { item with attempts := read.attempts + 1 }) : Counts s (.applyPlan i) s'
  | steady {e : Recovery.Event Id} {s' : Recovery.State Id} (he : attempted s e = none)
      (hplan : ∀ i read, e = .applyPlan i → s.plans[i]? = some read → refetch read = [])
      (h : s.ledger.Steady s'.ledger) : Counts s e s'

theorem counts_of_step {s s' : Recovery.State Id} {e : Recovery.Event Id}
    (h : Recovery.step s e = some s') : Counts s e s' := by
  cases e with
  | base e =>
    simp only [Recovery.step] at h
    split_ifs at h with hsplit
    obtain ⟨base, hbase, rfl⟩ := Option.map_eq_some_iff.mp h
    cases e with
    | work e =>
      obtain ⟨w', hw', rfl⟩ := Option.map_eq_some_iff.mp hbase
      have hsweep : ∀ key, e ≠ .sweepItem key := by
        rintro key rfl
        exact hsplit rfl
      cases Work.counts_of_step hw' hsweep with
      | start hjob => exact .start hjob rfl
      | steady he hsteady =>
        refine .steady ?_ (by simp) hsteady
        cases e <;> first | rfl | exact absurd rfl (he _)
    | _ => exact .steady rfl (by simp) (steady_of_step hbase (by simp))
  | findFailed key =>
    simp only [Recovery.step] at h
    split_ifs at h
    cases h
    refine .steady rfl (by simp) ?_
    rw [Recovery.State.findFailed]
    split
    · exact .refl _
    · split_ifs <;> exact .refl _
  | recordFailure i =>
    obtain ⟨key, -, rfl⟩ := Option.map_eq_some_iff.mp h
    exact .steady rfl (by simp) (.of_map (fun item => by split <;> exact ⟨rfl, rfl⟩) rfl)
  | crashRecord i | crashSweep i =>
    cases h
    exact .steady rfl (by simp) (.refl _)
  | readStalled key =>
    simp only [Recovery.step] at h
    split_ifs at h
    cases h
    refine .steady rfl (by simp) ?_
    rw [Recovery.State.readStalled]
    split
    · exact .refl _
    · split_ifs <;> exact .refl _
  | applyPlan i =>
    obtain ⟨read, hread, rfl⟩ := Option.map_eq_some_iff.mp h
    -- where it does not requeue, the sweeper counts nothing
    have hsteady : Ledger.recoveryPlan read ≠ .requeue →
        s.ledger.Steady (s.ledger.applyPlan read) → Counts s (.applyPlan i)
          { s.withLedger (s.ledger.applyPlan read) with plans := s.plans.eraseIdx i } := by
      intro hne hledger
      refine .steady ?_ (fun j other hj hother => ?_) hledger
      · rw [attempted, hread, Option.bind_some]
        split
        · exact absurd ‹_› hne
        · rfl
      · cases hj
        obtain rfl := Option.some.inj (hread.symm.trans hother)
        rw [refetch]
        split
        · exact absurd ‹_› hne
        · rfl
    rcases hplan : Ledger.recoveryPlan read with _ | _ | _
    · refine hsteady (by simp [hplan]) ?_
      rw [Ledger.applyPlan, hplan]
      exact .refl _
    · refine .requeue hread hplan ?_
      change s.ledger.applyPlan read = _
      rw [Ledger.applyPlan, hplan]
    · refine hsteady (by simp [hplan]) ?_
      rw [Ledger.applyPlan, hplan]
      exact .of_map (fun item => by split <;> exact ⟨rfl, rfl⟩) rfl

/-- Items stay, and executions of `fetch-item` work on items that are there. -/
theorem present_of_step {s s' : Recovery.State Id} {e : Recovery.Event Id}
    (h : Recovery.step s e = some s') :
    (∀ key, (s.ledger.findItem key).isSome → (s'.ledger.findItem key).isSome) ∧
      ∀ job ∈ s'.base.work.fetches, (∃ old ∈ s.base.work.fetches, old.key = job.key) ∨
        (s.ledger.findItem job.key).isSome := by
  have hsame : ∀ t : Recovery.State Id, t.base.work.fetches = s.base.work.fetches →
      ∀ job ∈ t.base.work.fetches, (∃ old ∈ s.base.work.fetches, old.key = job.key) ∨
        (s.ledger.findItem job.key).isSome :=
    fun t ht job hjob => .inl ⟨job, ht ▸ hjob, rfl⟩
  cases e with
  | base e =>
    simp only [Recovery.step] at h
    split_ifs at h
    obtain ⟨base, hbase, rfl⟩ := Option.map_eq_some_iff.mp h
    obtain ⟨-, ⟨e', -, hwork⟩ | ⟨hfetches, hledger⟩⟩ := step_work hbase
    · have horigin : ∀ {w' : Work Id}, Work.FetchesFrom s.base.provider s.base.work w' →
          ∀ job ∈ w'.fetches, (∃ old ∈ s.base.work.fetches, old.key = job.key) ∨
            (s.ledger.findItem job.key).isSome := by
        intro w' hfrom job hjob
        rcases hfrom job hjob with ⟨old, hold, hkey, -⟩ | ⟨-, hpresent, -⟩
        · exact .inl ⟨old, hold, hkey⟩
        · exact .inr hpresent
      change (∀ key, _ → (base.work.ledger.findItem key).isSome) ∧ ∀ job ∈ base.work.fetches, _
      generalize base.work = w' at hwork ⊢
      cases Work.step_cases hwork with
      | preserve hjob =>
        exact ⟨fun _ hpresent => Ledger.present_preserveItem hpresent,
          horigin Work.fetchesFrom_endFetch⟩
      | fail hjob =>
        refine ⟨fun key hpresent => ?_, horigin Work.fetchesFrom_endFetch⟩
        exact (Ledger.sameEvidence_failItem :
          Ledger.SameEvidence s.base.provider s.base.work.ledger _).present key hpresent
      | inert hledger hfetches => exact ⟨hledger.present, horigin hfetches⟩
    · exact ⟨hledger.present, hsame _ hfetches⟩
  | findFailed key =>
    simp only [Recovery.step] at h
    split_ifs at h
    cases h
    rw [Recovery.State.findFailed]
    split
    · exact ⟨fun _ hpresent => hpresent, hsame s rfl⟩
    · split_ifs <;> exact ⟨fun _ hpresent => hpresent, hsame _ rfl⟩
  | recordFailure i =>
    obtain ⟨key, -, rfl⟩ := Option.map_eq_some_iff.mp h
    have hinert : s.ledger.Inert s.base.provider (s.ledger.recordFailure key) :=
      Recovery.inert_recordFailure
    exact ⟨hinert.present, hsame _ rfl⟩
  | crashRecord i | crashSweep i =>
    cases h
    exact ⟨fun _ hpresent => hpresent, hsame _ rfl⟩
  | readStalled key =>
    simp only [Recovery.step] at h
    split_ifs at h
    cases h
    rw [Recovery.State.readStalled]
    split
    · exact ⟨fun _ hpresent => hpresent, hsame s rfl⟩
    · split_ifs <;> exact ⟨fun _ hpresent => hpresent, hsame _ rfl⟩
  | applyPlan i =>
    obtain ⟨read, -, rfl⟩ := Option.map_eq_some_iff.mp h
    have hinert : s.ledger.Inert s.base.provider (s.ledger.applyPlan read) :=
      Recovery.inert_applyPlan
    exact ⟨hinert.present, hsame _ rfl⟩

/-! ## What is claimed -/

/-- The action `retry` inserts a new row for every failed item that it counts. -/
def RetriesAll (sha256 : JsString → JsString) (s : State Id) : Event Id → Prop
  | .retry stuck cleared round => ∀ s', step sha256 s (.retry stuck cleared round) = some s' →
    ∀ item ∈ s.core.ledger.failedItems,
      (item.key, item.attempts) ∉ Outbox.keys s.items ∧
        (item.key, item.attempts) ∈ Outbox.keys s'.items
  | _ => True

/-- Every failed item was attempted since it was enqueued the last time. -/
def Attempted (s : State Id) : Event Id → Prop
  | .retry _ _ _ => s.core.base.status = .failed ∨ s.core.base.status = .completed →
    ∀ item ∈ s.core.ledger.failedItems, item.key ∉ s.unattempted
  | _ => True

/-- When the sweeper requeues an item that it has read, no other attempt was counted since. -/
def UpToDate (s : State Id) : Event Id → Prop
  | .core (.applyPlan i) => ∀ read, s.core.plans[i]? = some read →
    Ledger.recoveryPlan read = .requeue →
      (s.core.ledger.findItem read.key).map (·.attempts) = some read.attempts
  | _ => True

/-! ## The invariant -/

/-- **The invariant**: the keys of `fetch-item` that were used are tickets, numbered by the
attempts of the items. -/
structure Ticketed (s : State Id) : Prop where
  nodup : (s.core.ledger.items.map (·.key)).Nodup
  fetches : ∀ job ∈ s.core.base.work.fetches, (s.core.ledger.findItem job.key).isSome
  tickets : Tickets.Sound s.core.ledger.attemptsOf {t | t ∈ Outbox.keys s.items}
    {key | key ∈ s.unattempted}

theorem ticketed_created (provider : Provider) :
    Ticketed (State.created provider : State Id) where
  nodup := List.nodup_nil
  fetches _ h := absurd h List.not_mem_nil
  tickets := by
    have hnone : {t : ItemJob Id | t ∈ Outbox.keys (State.created provider : State Id).items} = ∅ :=
      Set.eq_empty_of_forall_notMem fun _ h => absurd h List.not_mem_nil
    have hunattempted :
        {key : ItemKey Id | key ∈ (State.created provider : State Id).unattempted} = ∅ :=
      Set.eq_empty_of_forall_notMem fun _ h => absurd h List.not_mem_nil
    rw [hnone, hunattempted]
    exact Tickets.sound_empty _

variable {s s' : State Id}

/-- Only the keys of the rows matter. -/
theorem Ticketed.of_keys (h : Ticketed s) (hcore : s'.core = s.core)
    (hkeys : Outbox.keys s'.items = Outbox.keys s.items) (hunattempted : s'.unattempted = s.unattempted) :
    Ticketed s' where
  nodup := hcore ▸ h.nodup
  fetches := hcore ▸ h.fetches
  tickets := by
    rw [hcore, hkeys, hunattempted]
    exact h.tickets

/-- Where nothing is counted, items are enqueued at their present counts. -/
theorem attempts_of_mem_itemJobs {c : Recovery.State Id} {e : Recovery.Event Id}
    (hnodup : (c.ledger.items.map (·.key)).Nodup)
    (hplan : ∀ i read, e = .applyPlan i → c.plans[i]? = some read → refetch read = [])
    {t : ItemJob Id} (ht : t ∈ itemJobs c e) : t.2 = c.ledger.attemptsOf t.1 := by
  cases e with
  | base e =>
    cases e with
    | work e =>
      cases e with
      | commitPage i providerItemIds pageEnd =>
        rw [itemJobs] at ht
        split at ht
        · rename_i cp hcp
          obtain ⟨item, hitem, rfl⟩ := List.mem_map.mp ht
          have hsteady := Ledger.Steady.discover (providerItemIds.map (Work.keyIn cp.scope)) c.ledger
          rw [← hsteady.attempts]
          exact (Ledger.attemptsOf_eq (Ledger.findItem_of_mem (hsteady.nodup hnodup)
            (List.mem_filter.mp hitem).1)).symm
        · cases ht
      | _ => cases ht
    | retry stuck cleared =>
      obtain ⟨item, hitem, rfl⟩ := List.mem_map.mp ht
      have hmem : item ∈ c.ledger.items := by
        have hfailed := List.mem_of_mem_take hitem
        exact (List.mem_filter.mp (List.mem_of_mem_take (List.mem_filter.mp hfailed).1)).1
      exact (Ledger.attemptsOf_eq (Ledger.findItem_of_mem hnodup hmem)).symm
    | _ => cases ht
  | applyPlan i =>
    rw [itemJobs] at ht
    split at ht
    · rename_i read hread
      rw [hplan i read rfl hread] at ht
      cases ht
    · cases ht
  | _ => cases ht

theorem tickets_insertAll {items : List (Outbox.Row (ItemJob Id) (ItemKey Id))}
    {new : List (ItemJob Id)} {count : ItemKey Id → ℕ} (h : ∀ t ∈ new, t.2 = count t.1) :
    {t | t ∈ Outbox.keys (Outbox.insertAll Prod.fst new items)} =
      {t | t ∈ Outbox.keys items} ∪ {t | t.1 ∈ {key | key ∈ new.map Prod.fst} ∧ t.2 = count t.1} := by
  ext t
  rw [Set.mem_ofPred_eq, Outbox.mem_keys_insertAll, Set.mem_union]
  refine or_congr_right ⟨fun ht => ⟨List.mem_map_of_mem ht, h t ht⟩, ?_⟩
  rintro ⟨hkey, hcount⟩
  obtain ⟨x, hx, hfst⟩ := List.mem_map.mp hkey
  have hsame : x = t := Prod.ext hfst (by rw [h x hx, hcount, hfst])
  exact hsame ▸ hx

/-- **What a transaction does to the tickets.** -/
theorem ticketed_fire {e : Recovery.Event Id} {pages : List (PageJob Id)}
    {extracts : List (ExtractJob Id)} (h : Ticketed s) (hs : fire s e pages extracts = some s')
    (hupToDate : UpToDate s (.core e)) : Ticketed s' := by
  obtain ⟨core, hcore, rfl⟩ := Option.map_eq_some_iff.mp hs
  obtain ⟨hpresent, hfetches⟩ := present_of_step hcore
  have hfetches' : ∀ job ∈ core.base.work.fetches, (core.ledger.findItem job.key).isSome := by
    intro job hjob
    rcases hfetches job hjob with ⟨old, hold, hkey⟩ | hthere
    · exact hpresent _ (hkey ▸ h.fetches old hold)
    · exact hpresent _ hthere
  -- no key of an item changes
  have hnodup : ∀ (key : ItemKey Id) (f : Item Id → Item Id),
      core.ledger = s.core.ledger.updateItem key f → (∀ item, (f item).key = item.key) →
        (core.ledger.items.map (·.key)).Nodup := by
    intro key f hledger hkey
    rw [hledger, Ledger.updateItem, Ledger.keys_updateItems hkey]
    exact h.nodup
  have hwithout : ∀ key : ItemKey Id, {k | k ∈ s.unattempted.filter fun other => other ≠ key} =
      {k | k ∈ s.unattempted} \ {key} := by
    intro key
    ext k
    simp
  cases counts_of_step hcore with
  | start hjob hledger =>
    rename_i i job
    obtain ⟨item, hitem⟩ := Option.isSome_iff_exists.mp (h.fetches job (List.mem_of_getElem? hjob))
    refine ⟨hnodup _ _ hledger fun _ => rfl, hfetches', ?_⟩
    have hcount : core.ledger.attemptsOf = Function.update s.core.ledger.attemptsOf job.key
        (s.core.ledger.attemptsOf job.key + 1) := by
      rw [hledger, Ledger.startItem, Ledger.attemptsOf_updateItem ?_ hitem,
        Ledger.attemptsOf_eq hitem]
      exact fun _ => rfl
    have hattempted : attempted s.core (.base (.work (.startItem i))) = some job.key := by
      rw [attempted, hjob]
      rfl
    simp only [hattempted]
    rw [hcount, hwithout]
    exact h.tickets.bump job.key
  | requeue hread hplan hledger =>
    rename_i i read
    obtain ⟨item, hitem, hattempts⟩ := Option.map_eq_some_iff.mp (hupToDate read hread hplan)
    refine ⟨hnodup _ _ hledger fun _ => rfl, hfetches', ?_⟩
    have hcount : core.ledger.attemptsOf = Function.update s.core.ledger.attemptsOf read.key
        (s.core.ledger.attemptsOf read.key + 1) := by
      rw [hledger, Ledger.attemptsOf_updateItem ?_ hitem, Ledger.attemptsOf_eq hitem, hattempts]
      exact fun _ => rfl
    have hjobs : itemJobs s.core (.applyPlan i) = refetch read := by
      rw [itemJobs, hread]
    by_cases hpreserved : read.state = .preserved
    · -- the item is to be indexed
      have hattempted : attempted s.core (.applyPlan i) = some read.key := by
        rw [attempted, hread, Option.bind_some, hplan]
        exact if_pos hpreserved
      have hnone : refetch read = [] := by
        rw [refetch, hplan]
        exact if_pos hpreserved
      simp only [hattempted, hjobs, hnone, Outbox.insertAll]
      rw [hcount, hwithout]
      exact h.tickets.bump read.key
    · -- or to be fetched
      have hattempted : attempted s.core (.applyPlan i) = none := by
        rw [attempted, hread, Option.bind_some, hplan]
        exact if_neg hpreserved
      have hone : refetch read = [(read.key, s.core.ledger.attemptsOf read.key + 1)] := by
        rw [refetch, hplan, Ledger.attemptsOf_eq hitem, hattempts]
        exact if_neg hpreserved
      simp only [hattempted, hjobs, hone, Outbox.insertAll, List.map_singleton]
      have hissued : {t | t ∈ Outbox.keys (Outbox.insert s.items
          (read.key, s.core.ledger.attemptsOf read.key + 1) read.key)} =
            insert (read.key, s.core.ledger.attemptsOf read.key + 1)
              {t | t ∈ Outbox.keys s.items} := by
        ext t
        rw [Set.mem_ofPred_eq, Outbox.mem_keys_insert, or_comm]
        rfl
      have howed : {k | k ∈ s.unattempted ++ [read.key]} = insert read.key {k | k ∈ s.unattempted} := by
        ext k
        simp [or_comm]
      rw [hcount, hissued, howed]
      exact h.tickets.bumpIssue read.key
  | steady he hplan hsteady =>
    refine ⟨hsteady.nodup h.nodup, hfetches', ?_⟩
    have hcount : ∀ t ∈ itemJobs s.core e, t.2 = s.core.ledger.attemptsOf t.1 :=
      fun t ht => attempts_of_mem_itemJobs h.nodup hplan ht
    have hissued := h.tickets.issueAll {key | key ∈ (itemJobs s.core e).map Prod.fst}
    simp only [he]
    rw [hsteady.attempts, tickets_insertAll hcount]
    have hunattempted : {key | key ∈ s.unattempted ++ (itemJobs s.core e).map Prod.fst} =
        {key | key ∈ s.unattempted} ∪ {key | key ∈ (itemJobs s.core e).map Prod.fst} :=
      Set.ext fun _ => List.mem_append
    rw [hunattempted]
    exact hissued

section Runs

variable {sha256 : JsString → JsString}

theorem ticketed_step {e : Event Id} (h : Ticketed s) (hupToDate : UpToDate s e)
    (hs : step sha256 s e = some s') : Ticketed s' := by
  cases e with
  | core e =>
    simp only [step] at hs
    split_ifs at hs
    exact ticketed_fire h hs hupToDate
  | commitPage i providerItemIds nextCursor deltaCursor | commitAuditPage i batches nextCursor
  | retry stuck cleared round => exact ticketed_fire h hs trivial
  | resumePage scope attempt =>
    simp only [step] at hs
    split_ifs at hs
    cases hs
    exact h.of_keys rfl rfl rfl
  | takePage key =>
    rw [step] at hs
    split at hs
    · have htaken : Ticketed { s with pages := Outbox.setConsumed s.pages key true } :=
        h.of_keys rfl rfl rfl
      exact ticketed_fire htaken hs trivial
    · cases hs
  | takeItem key =>
    rw [step] at hs
    split at hs
    · have htaken : Ticketed { s with items := Outbox.setConsumed s.items key true } :=
        h.of_keys rfl (Outbox.keys_setConsumed true) rfl
      exact ticketed_fire htaken hs trivial
    · cases hs
  | takeExtract key =>
    rw [step] at hs
    split_ifs at hs
    cases hs
    exact h.of_keys rfl rfl rfl
  | redeliverPage key | redeliverExtract key =>
    cases hs
    exact h.of_keys rfl rfl rfl
  | redeliverItem key =>
    cases hs
    exact h.of_keys rfl (Outbox.keys_setConsumed false) rfl

/-- One retry inserts its rows exactly if everything was attempted. -/
theorem Ticketed.retriesAll_iff (h : Ticketed s) (e : Event Id) :
    RetriesAll sha256 s e ↔ Attempted s e := by
  cases e with
  | retry stuck cleared round =>
    have hcount : ∀ item ∈ s.core.ledger.failedItems,
        (item.key, item.attempts) ∉ Outbox.keys s.items ↔ item.key ∉ s.unattempted := by
      intro item hitem
      have hjob : (item.key, item.attempts) ∈
          itemJobs s.core (.base (.retry stuck cleared)) := List.mem_map_of_mem hitem
      have hattempts := attempts_of_mem_itemJobs h.nodup (by simp) hjob
      change item.attempts = s.core.ledger.attemptsOf item.key at hattempts
      rw [hattempts]
      exact h.tickets.fresh_iff item.key
    by_cases hstatus : s.core.base.status = .failed ∨ s.core.base.status = .completed
    · obtain ⟨s', hs, hitems⟩ : ∃ s', step sha256 s (.retry stuck cleared round) = some s' ∧
          s'.items = Outbox.insertAll Prod.fst
            (s.core.ledger.failedItems.map fun item => (item.key, item.attempts)) s.items := by
        simp only [step, fire, Recovery.step, Recovery.isSplit, Collection.step, hstatus,
          if_true, Bool.false_eq_true, if_false, Option.map_some]
        exact ⟨_, rfl, rfl⟩
      simp only [RetriesAll, Attempted, hs, Option.some.injEq, forall_eq', hstatus, forall_const]
      refine forall₂_congr fun item hitem => ?_
      rw [hcount item hitem, hitems, Outbox.mem_keys_insertAll]
      exact and_iff_left (.inr (List.mem_map_of_mem hitem))
    · have hs : step sha256 s (.retry stuck cleared round) = none := by
        simp only [step, fire, Recovery.step, Recovery.isSplit, Collection.step, hstatus, if_false,
          Bool.false_eq_true, Option.map_none]
      simp only [RetriesAll, Attempted, hs, hstatus]
      simp
  | _ => exact iff_of_true trivial trivial

/-- **Retrying is not without effect** exactly if every failed item was attempted since it was
enqueued: whatever pages list, executions do, the sweeper recovers and gives up, jobs bail out
and users retry, as long as the sweeper requeues no item whose attempts changed under it. -/
theorem retries_iff {provider : Provider} {events : List (Event Id)}
    (hupToDate : Always (step sha256) UpToDate (State.created provider) events) :
    Always (step sha256) (RetriesAll sha256) (State.created provider) events ↔
      Always (step sha256) Attempted (State.created provider) events := by
  have hticketed : ∀ (s : State Id) (e : Event Id) (s' : State Id), Ticketed s →
      UpToDate s e → step sha256 s e = some s' → Ticketed s' :=
    fun _ _ _ hs he hstep => ticketed_step hs he hstep
  refine ⟨?_, ?_⟩
  · intro h
    refine (Always.and h hupToDate).imp (fun s e s' hs he => hticketed s e s' hs he.2)
      (fun s e hs he => ?_) (ticketed_created provider)
    exact (hs.retriesAll_iff e).mp he.1
  · intro h
    refine (Always.and h hupToDate).imp (fun s e s' hs he => hticketed s e s' hs he.2)
      (fun s e hs he => ?_) (ticketed_created provider)
    exact (hs.retriesAll_iff e).mpr he.1

end Runs

/-! ## A message that fails -/

/-- A mailbox with one message, whose job a worker takes. -/
def takenMessage : List (Event ℕ) :=
  [.core (.base .loadDiscovery), .core (.base (.markDiscovery 0)),
    .core (.base (.finishDiscovery 0 [mailboxKey 0])), .takePage (mailboxKey 0, .start),
    .commitPage 0 [7] none none, .takeItem (mailboxKey 7, 0)]

/-- The collection is sealed as failed. -/
def failedCollection : List (Event ℕ) :=
  [.core (.base .look), .core (.base (.mark 0)), .core (.base (.close 0))]

/-- The message is attempted, and the attempt fails. -/
def failedAttempt : List (Event ℕ) :=
  takenMessage ++ ([.core (.base (.work (.startItem 0))),
    .core (.base (.work (.failItem 0)))] : List (Event ℕ)) ++ failedCollection

/-- The events of a run without a sweeper, up to the retry. -/
def isPlain : Event ℕ → Bool
  | .core (.applyPlan _) => false
  | .retry _ _ _ => false
  | _ => true

theorem upToDate_of_isPlain {s : State ℕ} {e : Event ℕ} (h : isPlain e) : UpToDate s e := by
  cases e with
  | core e => cases e <;> trivial
  | _ => trivial

theorem attempted_of_isPlain {s : State ℕ} {e : Event ℕ} (h : isPlain e) : Attempted s e := by
  cases e <;> trivial

theorem retries_iff_example :
    (run (step Paging.digest) (State.created .google) (failedAttempt ++ [.retry [] 0 1])).isSome ∧
      Always (step Paging.digest) (RetriesAll Paging.digest) (State.created .google)
        (failedAttempt ++ [.retry [] 0 1]) := by
  have hplain : ∀ e ∈ failedAttempt, isPlain e := List.all_eq_true.mp (by decide)
  have hattempted : ((run (step Paging.digest) (State.created .google) failedAttempt).all fun s =>
      s.core.ledger.failedItems.all fun item => item.key ∉ s.unattempted) = true := by
    decide +kernel
  refine ⟨by decide +kernel, (retries_iff ?_).mpr ?_⟩
  · refine Always.append.mpr ⟨.of_forall_mem fun e he s => upToDate_of_isPlain (hplain e he), ?_⟩
    exact fun _ _ => ⟨trivial, fun _ _ => trivial⟩
  · refine Always.append.mpr ⟨.of_forall_mem fun e he s => attempted_of_isPlain (hplain e he), ?_⟩
    intro s hs
    refine ⟨fun _ item hitem => ?_, fun _ _ => trivial⟩
    rw [hs] at hattempted
    exact of_decide_eq_true (List.all_eq_true.mp hattempted item hitem)

/-- The job dies before it attempts anything. -/
def failedJob : List (Event ℕ) :=
  takenMessage ++ ([.core (.base (.work (.crashItem 0))), .core (.findFailed (mailboxKey 7)),
    .core (.recordFailure 0)] : List (Event ℕ)) ++ failedCollection

/-- The key that the retry asks for was used. -/
theorem failedJob_used :
    ∃ s s' item, run (step Paging.digest) (State.created .google) failedJob = some s ∧
      step Paging.digest s (.retry [] 0 1) = some s' ∧ item ∈ s.core.ledger.failedItems ∧
        (item.key, item.attempts) ∈ Outbox.keys s.items := by
  have hvalue : ((run (step Paging.digest) (State.created .google) failedJob).bind fun s =>
      (step Paging.digest s (.retry [] 0 1)).map fun _ => s.core.ledger.failedItems.any fun item =>
        (item.key, item.attempts) ∈ Outbox.keys s.items) = some true := by
    decide +kernel
  obtain ⟨s, hs, hretry⟩ := Option.bind_eq_some_iff.mp hvalue
  obtain ⟨s', hs', hany⟩ := Option.map_eq_some_iff.mp hretry
  obtain ⟨item, hitem, hused⟩ := List.any_eq_true.mp hany
  exact ⟨s, s', item, hs, hs', hitem, of_decide_eq_true hused⟩

/-- Not every retry inserts a row for what it counts. -/
theorem failedJob_not_retriesAll :
    ¬ ∀ events : List (Event ℕ),
      Always (step Paging.digest) (RetriesAll Paging.digest) (State.created .google) events := by
  intro h
  obtain ⟨s, s', item, hs, hs', hitem, hused⟩ := failedJob_used
  obtain ⟨hlast, -⟩ := (Always.append.mp (h (failedJob ++ [.retry [] 0 1]))).2 s hs
  exact (hlast s' hs' item hitem).1 hused

end Jobs

end AegCloudDfir.Collection
