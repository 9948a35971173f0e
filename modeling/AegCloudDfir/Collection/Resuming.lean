import AegCloudDfir.Collection.Jobs

/-!
# Resuming a collection

A job that is taken while the collection is paused bails out, and its key stays used. The
action `resume` enqueues `discover` once more, and `discover` enqueues the first page of every
scope and the extraction of every container, each under the key it had the first time.

* `keyed_run` — every checkpoint and every container was enqueued under that key before.
* `resumed_iff` — so resuming restores no work: what waits for a job afterwards waited for it
  all the time, apart from what `discover` finds for the first time.
-/

namespace AegCloudDfir.Collection

open Transition

variable {Id : Type} [DecidableEq Id]

/-! ## Where scopes and containers come from -/

namespace Ledger

/-- The transaction adds neither a scope nor a container. -/
structure NoMore (l l' : Ledger Id) : Prop where
  scopes : ∀ cp ∈ l'.checkpoints, ∃ old ∈ l.checkpoints, old.scope = cp.scope
  containers : ∀ row ∈ l'.evidence, row.kind = .container →
    ∃ old ∈ l.evidence, old.id = row.id ∧ old.kind = .container

namespace NoMore

variable {l l₁ l₂ : Ledger Id}

omit [DecidableEq Id] in
theorem refl (l : Ledger Id) : NoMore l l :=
  ⟨fun cp h => ⟨cp, h, rfl⟩, fun row h hkind => ⟨row, h, rfl, hkind⟩⟩

omit [DecidableEq Id] in
theorem trans (h : NoMore l l₁) (h' : NoMore l₁ l₂) : NoMore l l₂ where
  scopes cp hcp := by
    obtain ⟨mid, hmid, hscope⟩ := h'.scopes cp hcp
    obtain ⟨old, hold, hscope'⟩ := h.scopes mid hmid
    exact ⟨old, hold, hscope'.trans hscope⟩
  containers row hrow hkind := by
    obtain ⟨mid, hmid, hid, hmidKind⟩ := h'.containers row hrow hkind
    obtain ⟨old, hold, hid', holdKind⟩ := h.containers mid hmid hmidKind
    exact ⟨old, hold, hid'.trans hid, holdKind⟩

omit [DecidableEq Id] in
/-- Only items and counters change. -/
theorem of_rows (hcheckpoints : l₁.checkpoints = l.checkpoints) (hevidence : l₁.evidence = l.evidence) :
    NoMore l l₁ where
  scopes cp hcp := ⟨cp, hcheckpoints ▸ hcp, rfl⟩
  containers row hrow hkind := ⟨row, hevidence ▸ hrow, rfl, hkind⟩

omit [DecidableEq Id] in
/-- Evidence of another kind is added. -/
theorem of_evidence (rows : List (Evidence Id)) (hrows : ∀ row ∈ rows, row.kind ≠ .container)
    (hcheckpoints : l₁.checkpoints = l.checkpoints) (hevidence : l₁.evidence = l.evidence ++ rows) :
    NoMore l l₁ where
  scopes cp hcp := ⟨cp, hcheckpoints ▸ hcp, rfl⟩
  containers row hrow hkind := by
    rw [hevidence] at hrow
    rcases List.mem_append.mp hrow with hold | hnew
    · exact ⟨row, hold, rfl, hkind⟩
    · exact absurd hkind (hrows row hnew)

omit [DecidableEq Id] in
theorem setProcessing {p : Evidence Id → Bool} {status : ProcessingStatus} :
    NoMore l (l.setProcessing p status) where
  scopes cp hcp := ⟨cp, hcp, rfl⟩
  containers row hrow hkind := by
    obtain ⟨old, hold, rfl⟩ := List.mem_map.mp hrow
    refine ⟨old, hold, ?_, ?_⟩
    · split <;> rfl
    · split at hkind <;> exact hkind

omit [DecidableEq Id] in
theorem advance {id version : ℕ} {cursorKind : CursorKind} :
    NoMore l (l.advance id version cursorKind) where
  scopes cp hcp := by
    obtain ⟨old, hold, rfl⟩ := List.mem_map.mp hcp
    refine ⟨old, hold, ?_⟩
    split <;> rfl
  containers row hrow hkind := ⟨row, hrow, rfl, hkind⟩

theorem dropCheckpoint {scope : ItemKey Id} : NoMore l (l.dropCheckpoint scope) where
  scopes cp hcp := ⟨cp, List.mem_of_mem_filter hcp, rfl⟩
  containers row hrow hkind := ⟨row, hrow, rfl, hkind⟩

theorem createItem {item : Item Id} : NoMore l (l.createItem item) := by
  rw [Ledger.createItem]
  split
  · exact .refl l
  · exact of_rows rfl rfl

theorem discover (keys : List (ItemKey Id)) (l : Ledger Id) :
    NoMore l (Ledger.discover keys l) := by
  induction keys generalizing l with
  | nil => exact .refl l
  | cons key keys ih => exact createItem.trans (ih _)

theorem commitBatches (batches : List (ItemKey Id × Id)) (l : Ledger Id) :
    NoMore l (Ledger.commitBatches batches l) := by
  induction batches generalizing l with
  | nil => exact .refl l
  | cons batch batches ih =>
    have hbatch : NoMore l (l.commitBatch batch.1 batch.2) := by
      rw [commitBatch]
      split
      · exact .refl l
      · refine createItem.trans (of_evidence [⟨batch.2, .auditBatch, .pending, .derived⟩] ?_ rfl rfl)
        simp
    exact hbatch.trans (ih _)

theorem commitAuditPage {id version : ℕ} {batches : List (ItemKey Id × Id)}
    {cursorKind : CursorKind} : NoMore l (l.commitAuditPage id version batches cursorKind) := by
  rw [Ledger.commitAuditPage]
  split
  · exact advance.trans (commitBatches batches _)
  · exact .refl l

theorem preserveItem {key : ItemKey Id} {evidenceId : Id} {derivative : Bool} :
    NoMore l (l.preserveItem key evidenceId derivative) := by
  refine of_evidence [⟨evidenceId, evidenceKindOf key.source, .pending, .fetched key⟩] ?_ ?_ ?_
  · rintro row hrow
    obtain rfl := List.mem_singleton.mp hrow
    rcases key.source with _ | _ | _ | _ <;> exact EvidenceKind.noConfusion
  · cases derivative <;> rfl
  · cases derivative <;> rfl

theorem recordItemFailure {key : ItemKey Id} : NoMore l (l.recordItemFailure key) := by
  rw [Ledger.recordItemFailure]
  split
  · exact of_rows rfl rfl
  · exact .refl l

theorem process {evidenceId : Id} {status : ProcessingStatus} {children : List Id} :
    NoMore l (l.process evidenceId status children) := by
  have hstatus : NoMore l (l.setProcessing (fun row => row.id = evidenceId) status) := setProcessing
  refine hstatus.trans (of_evidence
    (children.map fun id => ⟨id, .attachment, .pending, .derived⟩) ?_ rfl rfl)
  intro row hrow
  obtain ⟨id, -, rfl⟩ := List.mem_map.mp hrow
  exact EvidenceKind.noConfusion

theorem preserveMessage {key : ItemKey Id} {evidenceId : Id} :
    NoMore l (l.preserveMessage key evidenceId) := by
  refine of_evidence [⟨evidenceId, .email, .pending, .derived⟩] (by simp) ?_ ?_
  · rw [Ledger.preserveMessage]
    split
    · rfl
    · simp only [Ledger.createItem]
      split <;> rfl
  · rw [Ledger.preserveMessage]
    split
    · rfl
    · simp only [Ledger.createItem]
      split <;> rfl

theorem closeContainer {key : ItemKey Id} {evidenceId : Id} {state : ItemState}
    {status : ProcessingStatus} : NoMore l (l.closeContainer key evidenceId state status) := by
  rw [Ledger.closeContainer]
  split
  · exact setProcessing.trans (of_rows rfl rfl)
  · have hrecord : NoMore l l.recordException := of_rows rfl rfl
    exact hrecord.trans (setProcessing.trans (of_rows rfl rfl))

theorem retry {stuck : List Id} {cleared : ℕ} : NoMore l (l.retry stuck cleared) := by
  have hitems : NoMore l (l.updateItems (fun item => item.key ∈
      (l.allFailed.filter fun item => item.evidenceItemId ≠ none).map (·.key)) fun item =>
        { item with state := .preserved }) := of_rows rfl rfl
  exact hitems.trans (setProcessing.trans (of_rows rfl rfl))

theorem applyPlan {read : Item Id} : NoMore l (l.applyPlan read) := by
  rw [Ledger.applyPlan]
  split
  · exact .refl l
  · exact of_rows rfl rfl
  · have hrecord : NoMore l l.recordException := of_rows rfl rfl
    exact hrecord.trans (setProcessing.trans (of_rows rfl rfl))

end NoMore

end Ledger

/-- The jobs on the ledger add none. -/
theorem Work.noMore_of_step {status : Status} {provider : Provider} {w w' : Work Id}
    {e : WorkEvent Id} (h : w.step status provider e = some w') : w.ledger.NoMore w'.ledger := by
  cases e with
  | loadPage scope =>
    cases h
    rw [Work.loadPage]
    split
    · exact .refl _
    · split <;> exact .refl _
  | commitPage i providerItemIds pageEnd =>
    rcases hi : w.pages[i]? with _ | cp <;> simp only [Work.step, hi] at h
    · cases h
    · split at h
      · cases h
      · cases h
        exact (Ledger.NoMore.discover _ _).trans .advance
  | commitAuditPage i batches exhausted =>
    rcases hi : w.pages[i]? with _ | cp <;> simp only [Work.step, hi] at h
    · cases h
    · split at h
      · cases h
      · cases h
        exact .commitAuditPage
  | expirePage i | exhaustPage i =>
    obtain ⟨cp, -, rfl⟩ := Option.map_eq_some_iff.mp h
    have hrecord : w.ledger.NoMore w.ledger.recordException := .of_rows rfl rfl
    exact hrecord.trans .advance
  | refusePage i =>
    obtain ⟨cp, -, rfl⟩ := Option.map_eq_some_iff.mp h
    exact .dropCheckpoint
  | loadItem key =>
    obtain ⟨hledger, -⟩ := Work.loadItem_cases h
    rw [hledger]
    exact .refl _
  | startItem i =>
    rcases hi : w.fetches[i]? with _ | job <;> simp only [Work.step, hi] at h
    · cases h
    · split at h <;> cases h
      exact .of_rows rfl rfl
  | preserveItem i evidenceId derivative =>
    obtain ⟨job, -, rfl⟩ := Option.map_eq_some_iff.mp h
    exact .preserveItem
  | skipItem i | failItem i =>
    obtain ⟨job, -, rfl⟩ := Option.map_eq_some_iff.mp h
    exact .of_rows rfl rfl
  | process evidenceId status children =>
    cases h
    exact .process
  | indexEvidence evidenceId =>
    cases h
    exact Ledger.NoMore.setProcessing.trans (.of_rows rfl rfl)
  | recordItemFailure key =>
    cases h
    exact .recordItemFailure
  | recordExtractFailure key evidenceId =>
    cases h
    exact Ledger.NoMore.recordItemFailure.trans .setProcessing
  | preserveMessage key evidenceId =>
    simp only [Work.step] at h
    split at h <;> cases h
    exact .preserveMessage
  | closeContainer key evidenceId state processingStatus =>
    simp only [Work.step] at h
    split at h <;> cases h
    exact .closeContainer
  | sweepItem key =>
    simp only [Work.step] at h
    split at h <;> cases h
    change w.ledger.NoMore (w.ledger.sweepItem key)
    rw [Ledger.sweepItem]
    split
    · exact .refl _
    · split
      · exact .refl _
      · exact .of_rows rfl rfl
      · have hrecord : w.ledger.NoMore w.ledger.recordException := .of_rows rfl rfl
        exact hrecord.trans (Ledger.NoMore.setProcessing.trans (.of_rows rfl rfl))
  | sweepCheckpoint scope =>
    simp only [Work.step] at h
    split at h <;> cases h
    exact .dropCheckpoint
  | sweepParent evidenceId =>
    simp only [Work.step] at h
    split at h <;> cases h
    have hrecord : w.ledger.NoMore w.ledger.recordException := .of_rows rfl rfl
    exact hrecord.trans .setProcessing
  | _ =>
    cases h
    exact .of_rows rfl rfl

/-- Only `discover` does. -/
theorem noMore_of_step {s s' : State Id} {e : Event Id} (h : step s e = some s')
    (hclaim : ∀ i key evidenceId, e ≠ .claimContainer i key evidenceId)
    (hfinish : ∀ i scopes, e ≠ .finishDiscovery i scopes) :
    s.work.ledger.NoMore s'.work.ledger := by
  cases e with
  | work e =>
    obtain ⟨w, hw, rfl⟩ := Option.map_eq_some_iff.mp h
    exact Work.noMore_of_step hw
  | claimContainer i key evidenceId => exact absurd rfl (hclaim i key evidenceId)
  | finishDiscovery i scopes => exact absurd rfl (hfinish i scopes)
  | failDiscovery i =>
    rw [step] at h
    split at h <;> cases h
    exact .of_rows rfl rfl
  | retry stuck cleared =>
    rw [step] at h
    split at h <;> cases h
    rw [State.retry]
    split <;> exact .retry
  | crashDiscovery i | crashFinalize i =>
    cases h
    exact .refl _
  | _ =>
    rw [step] at h
    split at h <;> cases h <;> exact .refl _

namespace Ledger

variable {l : Ledger Id}

theorem any_key_iff {key : ItemKey Id} :
    (l.items.any fun row => row.key = key) = true ↔ key ∈ l.items.map (·.key) := by
  rw [List.any_eq_true, List.mem_map]
  refine exists_congr fun row => and_congr_right fun _ => decide_eq_true_iff

theorem claimContainer_of_mem {key : ItemKey Id} {evidenceId : Id}
    (h : key ∈ l.items.map (·.key)) : l.claimContainer key evidenceId = l :=
  if_pos (any_key_iff.mpr h)

/-- A container that is claimed for the first time. -/
theorem claimContainer_of_notMem {key : ItemKey Id} {evidenceId : Id}
    (h : key ∉ l.items.map (·.key)) : l.claimContainer key evidenceId =
      { l with
        items := l.items ++ [newItem key .preserved (some evidenceId)]
        evidence := l.evidence ++ [⟨evidenceId, .container, .pending, .derived⟩]
        preserved := l.preserved ++ [.derived] } := by
  have hany : ¬ (l.items.any fun row => row.key = key) = true := fun hany => h (any_key_iff.mp hany)
  have hitem : l.createItem (newItem key .preserved (some evidenceId)) =
      { l with items := l.items ++ [newItem key .preserved (some evidenceId)] } := if_neg hany
  rw [claimContainer, if_neg hany, hitem]
  rfl

theorem evidence_seedCheckpoints (scopes : List (ItemKey Id)) (l : Ledger Id) :
    (seedCheckpoints scopes l).evidence = l.evidence := by
  induction scopes generalizing l with
  | nil => rfl
  | cons scope scopes ih =>
    refine (ih _).trans ?_
    rw [seedCheckpoint]
    split <;> rfl

theorem items_seedCheckpoints (scopes : List (ItemKey Id)) (l : Ledger Id) :
    (seedCheckpoints scopes l).items = l.items := by
  induction scopes generalizing l with
  | nil => rfl
  | cons scope scopes ih =>
    refine (ih _).trans ?_
    rw [seedCheckpoint]
    split <;> rfl

/-- The scopes after new ones were seeded. -/
theorem scope_seedCheckpoints {scopes : List (ItemKey Id)} {l : Ledger Id} {cp : Checkpoint Id}
    (h : cp ∈ (seedCheckpoints scopes l).checkpoints) :
    cp ∈ l.checkpoints ∨ cp.scope ∈ scopes ∧ cp.cursorKind = .page ∧
      ∀ old ∈ l.checkpoints, old.scope ≠ cp.scope := by
  induction scopes generalizing l with
  | nil => exact .inl h
  | cons scope scopes ih =>
    rcases ih h with hold | ⟨hscope, hkind, hnew⟩
    · rw [seedCheckpoint] at hold
      split at hold
      · exact .inl hold
      · rename_i hnone
        rcases List.mem_append.mp hold with hold | hnew
        · exact .inl hold
        · obtain rfl := List.mem_singleton.mp hnew
          refine .inr ⟨List.mem_cons_self .., rfl, fun old hold heq => hnone ?_⟩
          exact List.any_eq_true.mpr ⟨old, hold, decide_eq_true heq⟩
    · refine .inr ⟨List.mem_cons_of_mem _ hscope, hkind, fun old hold => hnew old ?_⟩
      rw [seedCheckpoint]
      split
      · exact hold
      · exact List.mem_append_left _ hold

/-- Checkpoints stay where they are. -/
theorem mem_seedCheckpoints {scopes : List (ItemKey Id)} {l : Ledger Id} {cp : Checkpoint Id}
    (h : cp ∈ l.checkpoints) : cp ∈ (seedCheckpoints scopes l).checkpoints := by
  induction scopes generalizing l with
  | nil => exact h
  | cons scope scopes ih =>
    refine ih ?_
    rw [seedCheckpoint]
    split
    · exact h
    · exact List.mem_append_left _ h

/-- Every seeded scope has a checkpoint. -/
theorem exists_seedCheckpoints {scopes : List (ItemKey Id)} {l : Ledger Id} {scope : ItemKey Id}
    (h : scope ∈ scopes) (hnew : ∀ old ∈ l.checkpoints, old.scope ≠ scope) :
    ∃ cp ∈ (seedCheckpoints scopes l).checkpoints, cp.scope = scope ∧ cp.cursorKind = .page := by
  induction scopes generalizing l with
  | nil => cases h
  | cons first scopes ih =>
    by_cases hfirst : first = scope
    · subst hfirst
      have hnone : ¬ (l.checkpoints.any fun cp => cp.scope = first) := by
        intro hany
        obtain ⟨old, hold, heq⟩ := List.any_eq_true.mp hany
        exact hnew old hold (of_decide_eq_true heq)
      have hseeded : ⟨l.nextCheckpoint, first, .page, 0⟩ ∈ (l.seedCheckpoint first).checkpoints := by
        rw [seedCheckpoint, if_neg hnone]
        exact List.mem_append_right _ (List.mem_singleton_self _)
      have hmem : ⟨l.nextCheckpoint, first, .page, 0⟩ ∈
          (seedCheckpoints scopes (l.seedCheckpoint first)).checkpoints := mem_seedCheckpoints hseeded
      exact ⟨_, hmem, rfl, rfl⟩
    · refine ih ((List.mem_cons.mp h).resolve_left (Ne.symm hfirst)) fun old hold => ?_
      rw [seedCheckpoint] at hold
      split at hold
      · exact hnew old hold
      · rcases List.mem_append.mp hold with hold | hadded
        · exact hnew old hold
        · obtain rfl := List.mem_singleton.mp hadded
          exact hfirst

end Ledger

namespace Jobs

/-! ## The keys of the first time -/

/-- **The invariant**: the first page of every scope and the extraction of every container were
enqueued. -/
structure Keyed (s : State Id) : Prop where
  pages : ∀ cp ∈ s.core.ledger.checkpoints, (cp.scope, .start) ∈ Outbox.keys s.pages
  extracts : ∀ row ∈ s.core.ledger.evidence, row.kind = .container →
    (row.id, .claimed) ∈ Outbox.keys s.extracts

omit [DecidableEq Id] in
theorem keyed_created (provider : Provider) : Keyed (State.created provider : State Id) where
  pages _ h := absurd h List.not_mem_nil
  extracts _ h := absurd h List.not_mem_nil

variable {s s' : State Id}

omit [DecidableEq Id] in
/-- Keys are never freed. -/
theorem Keyed.mono (h : Keyed s) (hledger : s.core.ledger.NoMore s'.core.ledger)
    (hpages : Outbox.keys s.pages ⊆ Outbox.keys s'.pages)
    (hextracts : Outbox.keys s.extracts ⊆ Outbox.keys s'.extracts) : Keyed s' where
  pages cp hcp := by
    obtain ⟨old, hold, hscope⟩ := hledger.scopes cp hcp
    exact hpages (hscope ▸ h.pages old hold)
  extracts row hrow hkind := by
    obtain ⟨old, hold, hid, hkind⟩ := hledger.containers row hrow hkind
    exact hextracts (hid ▸ h.extracts old hold hkind)

theorem noMore_of_recovery {c c' : Recovery.State Id} {e : Recovery.Event Id}
    (h : Recovery.step c e = some c')
    (hclaim : ∀ i key evidenceId, e ≠ .base (.claimContainer i key evidenceId))
    (hfinish : ∀ i scopes, e ≠ .base (.finishDiscovery i scopes)) :
    c.ledger.NoMore c'.ledger := by
  cases e with
  | base e =>
    simp only [Recovery.step] at h
    split at h
    · cases h
    · obtain ⟨base, hbase, rfl⟩ := Option.map_eq_some_iff.mp h
      exact noMore_of_step hbase (fun i key evidenceId heq => hclaim i key evidenceId (heq ▸ rfl))
        fun i scopes heq => hfinish i scopes (heq ▸ rfl)
  | findFailed key =>
    simp only [Recovery.step] at h
    split at h <;> cases h
    rw [Recovery.State.findFailed]
    split
    · exact .refl _
    · split <;> exact .refl _
  | recordFailure i =>
    obtain ⟨key, -, rfl⟩ := Option.map_eq_some_iff.mp h
    exact .of_rows rfl rfl
  | crashRecord i | crashSweep i =>
    cases h
    exact .refl _
  | readStalled key =>
    simp only [Recovery.step] at h
    split at h <;> cases h
    rw [Recovery.State.readStalled]
    split
    · exact .refl _
    · split <;> exact .refl _
  | applyPlan i =>
    obtain ⟨read, -, rfl⟩ := Option.map_eq_some_iff.mp h
    exact .applyPlan

theorem claim_of_step {c c' : Recovery.State Id} {i : ℕ} {key : ItemKey Id} {evidenceId : Id}
    (h : Recovery.step c (.base (.claimContainer i key evidenceId)) = some c') :
    c'.ledger = c.ledger.claimContainer key evidenceId := by
  obtain ⟨base, hbase, rfl⟩ := Option.map_eq_some_iff.mp h
  rw [Collection.step] at hbase
  split at hbase
  · split at hbase <;> cases hbase
    rfl
  · cases hbase

theorem finish_of_step {c c' : Recovery.State Id} {i : ℕ} {scopes : List (ItemKey Id)}
    (h : Recovery.step c (.base (.finishDiscovery i scopes)) = some c') :
    c'.ledger = Ledger.seedCheckpoints scopes c.ledger := by
  obtain ⟨base, hbase, rfl⟩ := Option.map_eq_some_iff.mp h
  rw [Collection.step] at hbase
  split at hbase
  · split at hbase <;> cases hbase
    rfl
  · cases hbase

/-- A transaction of the core, with what it inserts. -/
theorem Keyed.fire (h : Keyed s) {e : Recovery.Event Id} {pages : List (PageJob Id)}
    {extracts : List (ExtractJob Id)} (hfire : fire s e pages extracts = some s')
    (hclaim : ∀ i key evidenceId, e = .base (.claimContainer i key evidenceId) →
      (evidenceId, .claimed) ∈ extracts)
    (hfinish : ∀ i scopes, e = .base (.finishDiscovery i scopes) →
      ∀ scope ∈ scopes, (scope, .start) ∈ pages) : Keyed s' := by
  obtain ⟨core, hcore, rfl⟩ := Option.map_eq_some_iff.mp hfire
  have hpages : Outbox.keys s.pages ⊆ Outbox.keys (Outbox.insertAll Prod.fst pages s.pages) :=
    fun _ hkey => Outbox.mem_keys_insertAll.mpr (.inl hkey)
  have hextracts : Outbox.keys s.extracts ⊆
      Outbox.keys (Outbox.insertAll Prod.fst extracts s.extracts) :=
    fun _ hkey => Outbox.mem_keys_insertAll.mpr (.inl hkey)
  by_cases hclaimed : ∃ i key evidenceId, e = .base (.claimContainer i key evidenceId)
  · obtain ⟨i, key, evidenceId, rfl⟩ := hclaimed
    have hledger := claim_of_step hcore
    have hnew := hclaim i key evidenceId rfl
    refine ⟨fun cp hcp => ?_, fun row hrow hkind => ?_⟩
    · change cp ∈ core.ledger.checkpoints at hcp
      rw [hledger] at hcp
      by_cases hkey : key ∈ s.core.ledger.items.map (·.key)
      · rw [Ledger.claimContainer_of_mem hkey] at hcp
        exact hpages (h.pages cp hcp)
      · rw [Ledger.claimContainer_of_notMem hkey] at hcp
        exact hpages (h.pages cp hcp)
    · change row ∈ core.ledger.evidence at hrow
      rw [hledger] at hrow
      by_cases hkey : key ∈ s.core.ledger.items.map (·.key)
      · rw [Ledger.claimContainer_of_mem hkey] at hrow
        exact hextracts (h.extracts row hrow hkind)
      · rw [Ledger.claimContainer_of_notMem hkey] at hrow
        rcases List.mem_append.mp hrow with hold | hadded
        · exact hextracts (h.extracts row hold hkind)
        · obtain rfl := List.mem_singleton.mp hadded
          exact Outbox.mem_keys_insertAll.mpr (.inr hnew)
  · by_cases hfinished : ∃ i scopes, e = .base (.finishDiscovery i scopes)
    · obtain ⟨i, scopes, rfl⟩ := hfinished
      have hledger := finish_of_step hcore
      have hnew := hfinish i scopes rfl
      refine ⟨fun cp hcp => ?_, fun row hrow hkind => ?_⟩
      · change cp ∈ core.ledger.checkpoints at hcp
        rw [hledger] at hcp
        rcases Ledger.scope_seedCheckpoints hcp with hold | ⟨hscope, -⟩
        · exact hpages (h.pages cp hold)
        · exact Outbox.mem_keys_insertAll.mpr (.inr (hnew cp.scope hscope))
      · change row ∈ core.ledger.evidence at hrow
        rw [hledger, Ledger.evidence_seedCheckpoints] at hrow
        exact hextracts (h.extracts row hrow hkind)
    · have hmore := noMore_of_recovery hcore
        (fun i key evidenceId heq => hclaimed ⟨i, key, evidenceId, heq⟩)
        fun i scopes heq => hfinished ⟨i, scopes, heq⟩
      exact h.mono hmore hpages hextracts

theorem keyed_step {sha256 : JsString → JsString} {e : Event Id} (h : Keyed s)
    (hs : step sha256 s e = some s') : Keyed s' := by
  cases e with
  | core e =>
    rw [step] at hs
    split at hs
    · cases hs
    · refine h.fire hs ?_ ?_
      · rintro i key evidenceId rfl
        exact List.mem_singleton_self _
      · rintro i scopes rfl scope hscope
        exact List.mem_map_of_mem hscope
  | commitPage i providerItemIds nextCursor deltaCursor | commitAuditPage i batches nextCursor
  | retry stuck cleared round => exact h.fire hs nofun nofun
  | resumePage scope attempt =>
    rw [step] at hs
    split at hs <;> cases hs
    exact h.mono (.refl _) (fun _ hkey => Outbox.mem_keys_insert.mpr (.inl hkey)) (fun _ hkey => hkey)
  | takePage key =>
    rw [step] at hs
    split at hs
    · have htaken : Keyed { s with pages := Outbox.setConsumed s.pages key true } :=
        h.mono (.refl _) (Outbox.keys_subset_setConsumed _) fun _ hkey => hkey
      exact htaken.fire hs nofun nofun
    · cases hs
  | takeItem key =>
    rw [step] at hs
    split at hs
    · have htaken : Keyed { s with items := Outbox.setConsumed s.items key true } :=
        h.mono (.refl _) (fun _ hkey => hkey) fun _ hkey => hkey
      exact htaken.fire hs nofun nofun
    · cases hs
  | takeExtract key =>
    rw [step] at hs
    split at hs <;> cases hs
    exact h.mono (.refl _) (fun _ hkey => hkey)  (Outbox.keys_subset_setConsumed _)
  | redeliverPage key =>
    cases hs
    exact h.mono (.refl _) (Outbox.keys_subset_setConsumed _) fun _ hkey => hkey
  | redeliverItem key =>
    cases hs
    exact h.mono (.refl _) (fun _ hkey => hkey) fun _ hkey => hkey
  | redeliverExtract key =>
    cases hs
    exact h.mono (.refl _) (fun _ hkey => hkey)  (Outbox.keys_subset_setConsumed _)

/-! ## Resuming -/

/-- Pages of the scope are left to fetch. -/
def PagesLeft (l : Ledger Id) (scope : ItemKey Id) : Prop :=
  ∃ cp ∈ l.checkpoints, cp.scope = scope ∧ cp.cursorKind = .page

/-- The container was not extracted. -/
def Unextracted (l : Ledger Id) (evidenceId : Id) : Prop :=
  ∃ row ∈ l.evidence, row.id = evidenceId ∧ row.kind = .container ∧ row.processingStatus = .pending

/-- Everything that is left to do has a job that nobody has taken yet. -/
structure Enqueued (s : State Id) : Prop where
  pages : ∀ scope, PagesLeft s.core.ledger scope → Outbox.Waiting s.pages scope
  items : ∀ item ∈ s.core.ledger.items, item.state = .discovered ∨ item.state = .fetching →
    Outbox.Waiting s.items item.key
  containers : ∀ evidenceId, Unextracted s.core.ledger evidenceId →
    Outbox.Waiting s.extracts evidenceId

/-- What `discover` does on its way: it claims a container, or records an exception. -/
def findEvent (n : ℕ) : Option (ItemKey Id × Id) → Event Id
  | some (key, evidenceId) => .core (.base (.claimContainer n key evidenceId))
  | none => .core (.base (.work .recordException))

/-- How `discover` ends: with the scopes that it has found, or none at all. -/
def endEvent (n : ℕ) : Option (List (ItemKey Id)) → Event Id
  | some scopes => .core (.base (.finishDiscovery n scopes))
  | none => .core (.base (.failDiscovery n))

/-- The action `resume` and the execution of `discover` that it enqueues. -/
def resumption (n : ℕ) (finds : List (Option (ItemKey Id × Id)))
    (ending : Option (List (ItemKey Id))) : List (Event Id) :=
  .core (.base .resume) :: .core (.base .loadDiscovery) :: .core (.base (.markDiscovery n)) ::
    (finds.map (findEvent n) ++ [endEvent n ending])

/-- The containers among `claims` that are claimed for the first time. -/
def firstClaims : List (ItemKey Id) → List (ItemKey Id × Id) → List Id
  | _, [] => []
  | known, (key, evidenceId) :: claims =>
    if key ∈ known then firstClaims known claims
    else evidenceId :: firstClaims (known ++ [key]) claims

/-- What `discover` finds for the first time was not enqueued before, or waits. -/
structure FreshFinds (s : State Id) (claims : List (ItemKey Id × Id)) (scopes : List (ItemKey Id)) :
    Prop where
  scopes : ∀ scope ∈ scopes, (∀ cp ∈ s.core.ledger.checkpoints, cp.scope ≠ scope) →
    (scope, .start) ∉ Outbox.keys s.pages ∨ Outbox.Waiting s.pages scope
  containers : ∀ evidenceId ∈ firstClaims (s.core.ledger.items.map (·.key)) claims,
    (evidenceId, .claimed) ∉ Outbox.keys s.extracts ∨ Outbox.Waiting s.extracts evidenceId

/-- From `s` to `t`, `discover` finds the claims and the scopes. -/
structure Found (s : State Id) (claims : List (ItemKey Id × Id)) (scopes : List (ItemKey Id))
    (t : State Id) : Prop where
  pages : t.pages = Outbox.insertAll Prod.fst (scopes.map fun scope => (scope, .start)) s.pages
  items : t.items = s.items
  extracts : t.extracts =
    Outbox.insertAll Prod.fst (claims.map fun claim => (claim.2, .claimed)) s.extracts
  pagesLeft : ∀ scope, PagesLeft t.core.ledger scope ↔ PagesLeft s.core.ledger scope ∨
    scope ∈ scopes ∧ ∀ cp ∈ s.core.ledger.checkpoints, cp.scope ≠ scope
  itemsLeft : ∀ item : Item Id, item.state = .discovered ∨ item.state = .fetching →
    (item ∈ t.core.ledger.items ↔ item ∈ s.core.ledger.items)
  unextracted : ∀ evidenceId, Unextracted t.core.ledger evidenceId ↔
    Unextracted s.core.ledger evidenceId ∨
      evidenceId ∈ firstClaims (s.core.ledger.items.map (·.key)) claims

/-- Nothing is found. -/
structure Aside (s s' : State Id) : Prop where
  pages : s'.pages = s.pages
  items : s'.items = s.items
  extracts : s'.extracts = s.extracts
  checkpoints : s'.core.ledger.checkpoints = s.core.ledger.checkpoints
  ledgerItems : s'.core.ledger.items = s.core.ledger.items
  evidence : s'.core.ledger.evidence = s.core.ledger.evidence

section Discovering

variable {sha256 : JsString → JsString} {t : State Id} {claims : List (ItemKey Id × Id)}
  {scopes : List (ItemKey Id)} {n : ℕ}

theorem aside_resume (h : step sha256 s (.core (.base .resume)) = some s') : Aside s s' := by
  obtain ⟨core, hcore, rfl⟩ := Option.map_eq_some_iff.mp h
  obtain ⟨base, hbase, rfl⟩ := Option.map_eq_some_iff.mp hcore
  rw [Collection.step] at hbase
  split at hbase <;> cases hbase
  exact ⟨rfl, rfl, rfl, rfl, rfl, rfl⟩

theorem aside_loadDiscovery (h : step sha256 s (.core (.base .loadDiscovery)) = some s') :
    Aside s s' := by
  obtain ⟨core, hcore, rfl⟩ := Option.map_eq_some_iff.mp h
  obtain ⟨base, hbase, rfl⟩ := Option.map_eq_some_iff.mp hcore
  rw [Collection.step] at hbase
  split at hbase <;> cases hbase <;> exact ⟨rfl, rfl, rfl, rfl, rfl, rfl⟩

theorem aside_markDiscovery (h : step sha256 s (.core (.base (.markDiscovery n))) = some s') :
    Aside s s' := by
  obtain ⟨core, hcore, rfl⟩ := Option.map_eq_some_iff.mp h
  obtain ⟨base, hbase, rfl⟩ := Option.map_eq_some_iff.mp hcore
  rw [Collection.step] at hbase
  split at hbase <;> cases hbase
  exact ⟨rfl, rfl, rfl, rfl, rfl, rfl⟩

theorem aside_recordException
    (h : step sha256 s (.core (.base (.work .recordException))) = some s') : Aside s s' := by
  cases h
  exact ⟨rfl, rfl, rfl, rfl, rfl, rfl⟩

theorem aside_failDiscovery (h : step sha256 s (.core (.base (.failDiscovery n))) = some s') :
    Aside s s' := by
  obtain ⟨core, hcore, rfl⟩ := Option.map_eq_some_iff.mp h
  obtain ⟨base, hbase, rfl⟩ := Option.map_eq_some_iff.mp hcore
  rw [Collection.step] at hbase
  split at hbase <;> cases hbase
  exact ⟨rfl, rfl, rfl, rfl, rfl, rfl⟩

theorem Aside.found (h : Aside s s') (hfound : Found s' claims scopes t) :
    Found s claims scopes t where
  pages := h.pages ▸ hfound.pages
  items := h.items ▸ hfound.items
  extracts := h.extracts ▸ hfound.extracts
  pagesLeft scope := by
    rw [hfound.pagesLeft, PagesLeft, PagesLeft, h.checkpoints]
  itemsLeft item hitem := by
    rw [hfound.itemsLeft item hitem, h.ledgerItems]
  unextracted evidenceId := by
    rw [hfound.unextracted, Unextracted, Unextracted, h.evidence, h.ledgerItems]

theorem Aside.found_nothing (h : Aside s t) : Found s [] [] t where
  pages := h.pages
  items := h.items
  extracts := h.extracts
  pagesLeft scope := by
    rw [PagesLeft, PagesLeft, h.checkpoints]
    simp
  itemsLeft item _ := by rw [h.ledgerItems]
  unextracted evidenceId := by
    rw [Unextracted, Unextracted, h.evidence]
    simp [firstClaims]

omit [DecidableEq Id] in
/-- A new container is not extracted. -/
theorem unextracted_append {l l' : Ledger Id} {evidenceId : Id}
    (h : l'.evidence = l.evidence ++ [⟨evidenceId, .container, .pending, .derived⟩]) (id : Id) :
    Unextracted l' id ↔ Unextracted l id ∨ id = evidenceId := by
  rw [Unextracted, h]
  refine ⟨?_, ?_⟩
  · rintro ⟨row, hrow, rfl, hpending⟩
    rcases List.mem_append.mp hrow with hold | hnew
    · exact .inl ⟨row, hold, rfl, hpending⟩
    · obtain rfl := List.mem_singleton.mp hnew
      exact .inr rfl
  · rintro (⟨row, hold, hid⟩ | rfl)
    · exact ⟨row, List.mem_append_left _ hold, hid⟩
    · exact ⟨_, List.mem_append_right _ (List.mem_singleton_self _), rfl, rfl, rfl⟩

/-- `discover` claims a container. -/
theorem Found.claim {key : ItemKey Id} {evidenceId : Id}
    (h : step sha256 s (.core (.base (.claimContainer n key evidenceId))) = some s')
    (hfound : Found s' claims scopes t) : Found s ((key, evidenceId) :: claims) scopes t := by
  obtain ⟨core, hcore, rfl⟩ := Option.map_eq_some_iff.mp h
  have hledger := claim_of_step hcore
  by_cases hkey : key ∈ s.core.ledger.items.map (·.key)
  · -- it was claimed before
    rw [Ledger.claimContainer_of_mem hkey] at hledger
    refine ⟨hfound.pages, hfound.items, hfound.extracts, fun scope => ?_, fun item hitem => ?_,
      fun id => ?_⟩
    · rw [hfound.pagesLeft, hledger]
    · rw [hfound.itemsLeft item hitem, hledger]
    · rw [hfound.unextracted, hledger, firstClaims, if_pos hkey]
  · rw [Ledger.claimContainer_of_notMem hkey] at hledger
    refine ⟨hfound.pages, hfound.items, hfound.extracts, fun scope => ?_, fun item hitem => ?_,
      fun id => ?_⟩
    · rw [hfound.pagesLeft, hledger]
      rfl
    · rw [hfound.itemsLeft item hitem, hledger]
      refine ⟨fun hmem => ?_, List.mem_append_left _⟩
      rcases List.mem_append.mp hmem with hold | hnew
      · exact hold
      · -- what is claimed is preserved already
        obtain rfl := List.mem_singleton.mp hnew
        rcases hitem with hstate | hstate <;> cases hstate
    · have hevidence : core.ledger.evidence =
          s.core.ledger.evidence ++ [⟨evidenceId, .container, .pending, .derived⟩] := by
        rw [hledger]
      have hnew := unextracted_append hevidence id
      have hkeys : core.ledger.items.map (·.key) = s.core.ledger.items.map (·.key) ++ [key] := by
        rw [hledger, List.map_append]
        rfl
      rw [hfound.unextracted, hkeys, hnew, firstClaims, if_neg hkey, List.mem_cons, or_assoc]

/-- `discover` stores its scopes. -/
theorem found_finish (h : step sha256 s (.core (.base (.finishDiscovery n scopes))) = some t) :
    Found s [] scopes t := by
  obtain ⟨core, hcore, rfl⟩ := Option.map_eq_some_iff.mp h
  have hledger := finish_of_step hcore
  refine ⟨rfl, rfl, rfl, fun scope => ?_, fun item _ => ?_, fun id => ?_⟩
  · change PagesLeft core.ledger scope ↔ _
    rw [hledger]
    refine ⟨?_, ?_⟩
    · rintro ⟨cp, hcp, rfl, hkind⟩
      rcases Ledger.scope_seedCheckpoints hcp with hold | ⟨hscope, -, hnew⟩
      · exact .inl ⟨cp, hold, rfl, hkind⟩
      · exact .inr ⟨hscope, hnew⟩
    · rintro (⟨cp, hold, hscope⟩ | ⟨hscope, hnew⟩)
      · exact ⟨cp, Ledger.mem_seedCheckpoints hold, hscope⟩
      · exact Ledger.exists_seedCheckpoints hscope hnew
  · change item ∈ core.ledger.items ↔ _
    rw [hledger, Ledger.items_seedCheckpoints]
  · change Unextracted core.ledger id ↔ _
    rw [Unextracted, hledger, Ledger.evidence_seedCheckpoints]
    simp [firstClaims, Unextracted]

/-- `discover` from its first find to its end. -/
theorem found_of_run {finds : List (Option (ItemKey Id × Id))}
    {ending : Option (List (ItemKey Id))}
    (h : run (step sha256) s (finds.map (findEvent n) ++ [endEvent n ending]) = some t) :
    Found s finds.reduceOption (ending.getD []) t := by
  induction finds generalizing s with
  | nil =>
    obtain ⟨t', hend, hrun⟩ := run_cons.mp h
    cases hrun
    cases ending with
    | none => exact (aside_failDiscovery hend).found_nothing
    | some scopes => exact found_finish hend
  | cons find finds ih =>
    obtain ⟨s', hfind, hrun⟩ := run_cons.mp h
    cases find with
    | none => exact (aside_recordException hfind).found (ih hrun)
    | some claim => exact Found.claim hfind (ih hrun)

theorem found_of_resumption {finds : List (Option (ItemKey Id × Id))}
    {ending : Option (List (ItemKey Id))}
    (h : run (step sha256) s (resumption n finds ending) = some t) :
    Found s finds.reduceOption (ending.getD []) t := by
  obtain ⟨s₁, hresume, hrun⟩ := run_cons.mp h
  obtain ⟨s₂, hload, hrun⟩ := run_cons.mp hrun
  obtain ⟨s₃, hmark, hrun⟩ := run_cons.mp hrun
  exact (aside_resume hresume).found ((aside_loadDiscovery hload).found
    ((aside_markDiscovery hmark).found (found_of_run hrun)))

omit [DecidableEq Id] in
theorem snd_of_mem_firstClaims [DecidableEq Id] {known : List (ItemKey Id)} {evidenceId : Id}
    (h : evidenceId ∈ firstClaims known claims) : evidenceId ∈ claims.map Prod.snd := by
  induction claims generalizing known with
  | nil => cases h
  | cons claim claims ih =>
    rw [firstClaims] at h
    split at h
    · exact List.mem_cons_of_mem _ (ih h)
    · rcases List.mem_cons.mp h with rfl | h
      · exact List.mem_cons_self ..
      · exact List.mem_cons_of_mem _ (ih h)

/-- Scopes are enqueued under the key of their first page. -/
theorem waiting_start_iff {rows : List (Outbox.Row (PageJob Id) (ItemKey Id))} {scope : ItemKey Id} :
    Outbox.Waiting (Outbox.insertAll Prod.fst (scopes.map fun scope => (scope, .start)) rows) scope ↔
      Outbox.Waiting rows scope ∨ scope ∈ scopes ∧ (scope, .start) ∉ Outbox.keys rows := by
  rw [Outbox.waiting_insertAll_iff]
  refine or_congr_right ⟨?_, fun ⟨hscope, hkey⟩ => ?_⟩
  · rintro ⟨key, hmem, rfl, hkey⟩
    obtain ⟨scope, hscope, rfl⟩ := List.mem_map.mp hmem
    exact ⟨hscope, hkey⟩
  · exact ⟨_, List.mem_map_of_mem hscope, rfl, hkey⟩

/-- Containers are enqueued under the key of their claim. -/
theorem waiting_claimed_iff {rows : List (Outbox.Row (ExtractJob Id) Id)} {evidenceId : Id} :
    Outbox.Waiting
        (Outbox.insertAll Prod.fst (claims.map fun claim => (claim.2, .claimed)) rows) evidenceId ↔
      Outbox.Waiting rows evidenceId ∨
        evidenceId ∈ claims.map Prod.snd ∧ (evidenceId, .claimed) ∉ Outbox.keys rows := by
  rw [Outbox.waiting_insertAll_iff]
  refine or_congr_right ⟨?_, fun ⟨hid, hkey⟩ => ?_⟩
  · rintro ⟨key, hmem, rfl, hkey⟩
    obtain ⟨claim, hclaim, rfl⟩ := List.mem_map.mp hmem
    exact ⟨List.mem_map_of_mem hclaim, hkey⟩
  · obtain ⟨claim, hclaim, rfl⟩ := List.mem_map.mp hid
    exact ⟨_, List.mem_map_of_mem hclaim, rfl, hkey⟩

/-- What is enqueued after `discover` is what was enqueued before it, and its new finds. -/
theorem Found.enqueued_iff (hfound : Found s claims scopes t) (h : Keyed s) :
    Enqueued t ↔ Enqueued s ∧ FreshFinds s claims scopes := by
  refine ⟨?_, ?_⟩
  · intro henqueued
    refine ⟨⟨fun scope hleft => ?_, fun item hitem hstate => ?_, fun id hleft => ?_⟩,
      fun scope hscope hnew => ?_, fun id hid => ?_⟩
    · have hwaits := henqueued.pages scope ((hfound.pagesLeft scope).mpr (.inl hleft))
      rw [hfound.pages, waiting_start_iff] at hwaits
      obtain ⟨cp, hcp, rfl, -⟩ := hleft
      exact hwaits.resolve_right fun hfresh => hfresh.2 (h.pages cp hcp)
    · have hwaits := henqueued.items item ((hfound.itemsLeft item hstate).mpr hitem) hstate
      rw [hfound.items] at hwaits
      exact hwaits
    · have hwaits := henqueued.containers id ((hfound.unextracted id).mpr (.inl hleft))
      rw [hfound.extracts, waiting_claimed_iff] at hwaits
      obtain ⟨row, hrow, rfl, hkind, -⟩ := hleft
      exact hwaits.resolve_right fun hfresh => hfresh.2 (h.extracts row hrow hkind)
    · have hwaits := henqueued.pages scope ((hfound.pagesLeft scope).mpr (.inr ⟨hscope, hnew⟩))
      rw [hfound.pages, waiting_start_iff] at hwaits
      exact hwaits.symm.imp_left And.right
    · have hwaits := henqueued.containers id ((hfound.unextracted id).mpr (.inr hid))
      rw [hfound.extracts, waiting_claimed_iff] at hwaits
      exact hwaits.symm.imp_left And.right
  · rintro ⟨henqueued, hfresh⟩
    refine ⟨fun scope hleft => ?_, fun item hitem hstate => ?_, fun id hleft => ?_⟩
    · rw [hfound.pages, waiting_start_iff]
      rcases (hfound.pagesLeft scope).mp hleft with hold | ⟨hscope, hnew⟩
      · exact .inl (henqueued.pages scope hold)
      · exact (hfresh.scopes scope hscope hnew).symm.imp_right fun hkey => ⟨hscope, hkey⟩
    · rw [hfound.items]
      exact henqueued.items item ((hfound.itemsLeft item hstate).mp hitem) hstate
    · rw [hfound.extracts, waiting_claimed_iff]
      rcases (hfound.unextracted id).mp hleft with hold | hnew
      · exact .inl (henqueued.containers id hold)
      · exact (hfresh.containers id hnew).symm.imp_right fun hkey => ⟨snd_of_mem_firstClaims hnew, hkey⟩

/-- **Resuming restores no work.** However a collection came to be paused: after `resume` and
the `discover` that it enqueues, everything that is left to do has a job waiting if and only
if it had one before, and what `discover` finds for the first time is not listed under a key
that was used. -/
theorem resumed_iff {provider : Provider} {events : List (Event Id)}
    {finds : List (Option (ItemKey Id × Id))} {ending : Option (List (ItemKey Id))}
    (hpaused : run (step sha256) (State.created provider) events = some s)
    (hresumed : run (step sha256) s (resumption n finds ending) = some t) :
    Enqueued t ↔ Enqueued s ∧ FreshFinds s finds.reduceOption (ending.getD []) := by
  have hkeyed : Keyed s := run_induction (fun _ _ _ h hs => keyed_step h hs)
    (keyed_created provider) hpaused
  exact (found_of_resumption hresumed).enqueued_iff hkeyed

end Discovering

/-! ## A mailbox that is paused -/

/-- `discover` enqueues the first page of a mailbox, and the user pauses the collection. -/
def pausedMailbox : List (Event ℕ) :=
  [.core (.base .loadDiscovery), .core (.base (.markDiscovery 0)),
    .core (.base (.finishDiscovery 0 [mailboxKey 0])), .core (.base .pause)]

/-- Its only row is the one of its first page, and nobody has taken the job. -/
theorem pausedMailbox_rows :
    ∃ s t, run (step Paging.digest) (State.created .google) pausedMailbox = some s ∧
      run (step Paging.digest) s (resumption 0 [none] (some [mailboxKey 0, mailboxKey 1])) = some t ∧
        s.core.ledger.checkpoints = [⟨0, mailboxKey 0, .page, 0⟩] ∧ s.core.ledger.items = [] ∧
          s.core.ledger.evidence = [] ∧
            s.pages = [⟨(mailboxKey 0, .start), mailboxKey 0, false⟩] :=
  ⟨_, _, rfl, rfl, rfl, rfl, rfl, rfl⟩

theorem resumed_iff_example :
    ∃ s t, run (step Paging.digest) (State.created .google) pausedMailbox = some s ∧
      run (step Paging.digest) s (resumption 0 [none] (some [mailboxKey 0, mailboxKey 1])) = some t ∧
        Enqueued t := by
  obtain ⟨s, t, hs, ht, hcheckpoints, hitems, hevidence, hpages⟩ := pausedMailbox_rows
  refine ⟨s, t, hs, ht, (resumed_iff hs ht).mpr ⟨⟨?_, ?_, ?_⟩, ?_, nofun⟩⟩
  · rintro scope ⟨cp, hcp, rfl, -⟩
    rw [hcheckpoints] at hcp
    obtain rfl := List.mem_singleton.mp hcp
    rw [hpages]
    exact ⟨_, List.mem_singleton_self _, rfl, rfl⟩
  · rw [hitems]
    exact nofun
  · rintro evidenceId ⟨row, hrow, -⟩
    rw [hevidence] at hrow
    cases hrow
  · -- the other mailbox is new
    intro scope hscope hnew
    rw [hcheckpoints] at hnew
    have hne := hnew _ (List.mem_singleton_self _)
    rcases List.mem_cons.mp hscope with rfl | hscope
    · exact absurd rfl hne
    · obtain rfl := List.mem_singleton.mp hscope
      rw [hpages]
      exact .inl (by decide)

/-- A worker takes the job while the collection is paused, and bails out. -/
theorem pausedMailbox_not_resumed :
    ∃ s t, run (step Paging.digest) (State.created .google)
        (pausedMailbox ++ [.takePage (mailboxKey 0, .start)]) = some s ∧
      s.core.base.status = .paused ∧ s.core.base.work.pages = [] ∧
        run (step Paging.digest) s (resumption 0 [] (some [mailboxKey 0])) = some t ∧
          ¬ Enqueued t := by
  refine ⟨_, _, rfl, rfl, rfl, rfl, fun h => ?_⟩
  obtain ⟨row, hrow, -, hwaits⟩ := h.pages (mailboxKey 0) ⟨_, List.mem_singleton_self _, rfl, rfl⟩
  obtain rfl := List.mem_singleton.mp hrow
  cases hwaits

end Jobs

end AegCloudDfir.Collection
