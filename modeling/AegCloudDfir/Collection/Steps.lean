import AegCloudDfir.Collection.System

/-!
# What the jobs of a collection can do

The specifications of the jobs ask three things about a ledger: what evidence an item
carries (`evidenceOf`), how often it was acquired and counted (`acquired`, `counted`), and
whether a retry is pending (`NoRetryPending`). Almost every transaction is *inert*: it
changes none of the answers, except that it may end a pending retry. The two that are not
are the last transactions of `fetch-item`, `preserveItem` and `failItem`.

* `Work.step_cases` — what a `WorkEvent` can do, said once.
* `step_work` — what any event can do to the work.
-/

namespace AegCloudDfir.Collection

variable {Id : Type} [DecidableEq Id] {provider : Provider}

namespace Ledger

/-! ## What is asked about a ledger -/

/-- The evidence an item carries. -/
def evidenceOf (l : Ledger Id) (key : ItemKey Id) : Option Id :=
  (l.findItem key).bind (·.evidenceItemId)

/-- How many pieces of evidence `fetch-item` created for an item. -/
def acquired (l : Ledger Id) (key : ItemKey Id) : ℕ :=
  l.evidence.countP fun row => row.origin = .fetched key

/-- How often `fetch-item` counted an item as preserved. -/
def counted (l : Ledger Id) (key : ItemKey Id) : ℕ := l.preserved.count (.fetched key)

/-- No item has failed in a way that is still to be retried. -/
def NoRetryPending (l : Ledger Id) : Prop := ∀ item ∈ l.items, ¬ item.AwaitsRetry

/-- A transaction that acquires nothing. -/
structure SameEvidence (provider : Provider) (l l' : Ledger Id) : Prop where
  evidenceOf : ∀ key, Fetchable provider key → l'.evidenceOf key = l.evidenceOf key
  present : ∀ key, (l.findItem key).isSome → (l'.findItem key).isSome
  acquired : ∀ key, l'.acquired key = l.acquired key
  counted : ∀ key, l'.counted key = l.counted key

/-- A transaction that acquires nothing and lets nothing fail. -/
structure Inert (provider : Provider) (l l' : Ledger Id) : Prop
    extends SameEvidence provider l l' where
  retries : l.NoRetryPending → l'.NoRetryPending

theorem Inert.refl (l : Ledger Id) : Inert provider l l :=
  ⟨⟨fun _ _ => rfl, fun _ h => h, fun _ => rfl, fun _ => rfl⟩, fun h => h⟩

theorem SameEvidence.trans {l₁ l₂ l₃ : Ledger Id} (h : SameEvidence provider l₁ l₂)
    (h' : SameEvidence provider l₂ l₃) : SameEvidence provider l₁ l₃ where
  evidenceOf key hkey := (h'.evidenceOf key hkey).trans (h.evidenceOf key hkey)
  present key hp := h'.present key (h.present key hp)
  acquired key := (h'.acquired key).trans (h.acquired key)
  counted key := (h'.counted key).trans (h.counted key)

theorem Inert.trans {l₁ l₂ l₃ : Ledger Id} (h : Inert provider l₁ l₂)
    (h' : Inert provider l₂ l₃) : Inert provider l₁ l₃ where
  toSameEvidence := h.toSameEvidence.trans h'.toSameEvidence
  retries hr := h'.retries (h.retries hr)

/-! ## The primitives -/

variable {l : Ledger Id}

theorem findItem_key {key : ItemKey Id} {item : Item Id} (h : l.findItem key = some item) :
    item.key = key := by
  rw [findItem] at h
  have hkey := List.find?_some h
  exact of_decide_eq_true hkey

theorem findItem_updateItems {p : Item Id → Bool} {f : Item Id → Item Id}
    (hf : ∀ item, (f item).key = item.key) (key : ItemKey Id) :
    (l.updateItems p f).findItem key =
      (l.findItem key).map fun item => if p item then f item else item := by
  have hkey : ((fun item : Item Id => decide (item.key = key)) ∘
      fun item => if p item then f item else item) = fun item => decide (item.key = key) := by
    funext item
    by_cases hp : p item <;> simp [hp, hf]
  rw [findItem, updateItems, List.find?_map, hkey]
  rfl

/-- Only other columns change. -/
theorem inert_of_rows {l' : Ledger Id} (hitems : l'.items = l.items)
    (hevidence : ∀ key, l'.acquired key = l.acquired key) (hpreserved : l'.preserved = l.preserved) :
    Inert provider l l' where
  evidenceOf key _ := by rw [Ledger.evidenceOf, findItem, hitems]; rfl
  present key h := by rw [findItem, hitems]; exact h
  acquired := hevidence
  counted key := by rw [Ledger.counted, hpreserved]; rfl
  retries h := by rw [NoRetryPending, hitems]; exact h

theorem inert_recordException : Inert provider l l.recordException :=
  inert_of_rows rfl (fun _ => rfl) rfl

theorem inert_advance {id version : ℕ} {cursorKind : CursorKind} :
    Inert provider l (l.advance id version cursorKind) :=
  inert_of_rows rfl (fun _ => rfl) rfl

theorem inert_dropCheckpoint {scope : ItemKey Id} : Inert provider l (l.dropCheckpoint scope) :=
  inert_of_rows rfl (fun _ => rfl) rfl

theorem inert_setProcessing {p : Evidence Id → Bool} {status : ProcessingStatus} :
    Inert provider l (l.setProcessing p status) := by
  refine inert_of_rows rfl (fun key => ?_) rfl
  have horigin : ((fun row : Evidence Id => decide (row.origin = .fetched key)) ∘
      fun row => if p row then { row with processingStatus := status } else row) =
        fun row => decide (row.origin = .fetched key) := by
    funext row
    by_cases hp : p row <;> simp [hp]
  rw [acquired, setProcessing, List.countP_map, horigin]
  rfl

theorem inert_derived {row : Evidence Id} (h : row.origin = .derived) :
    Inert provider l (l.createEvidence row) := by
  refine inert_of_rows rfl (fun key => ?_) rfl
  rw [acquired, createEvidence, List.countP_append]
  simp [h, acquired]

theorem inert_countDerived : Inert provider l { l with preserved := l.preserved ++ [.derived] } where
  evidenceOf _ _ := rfl
  present _ h := h
  acquired _ := rfl
  counted key := by
    rw [Ledger.counted, List.count_append]
    simp [Ledger.counted]
  retries h := h

/-- An update of items that leaves them their evidence. -/
theorem sameEvidence_updateItems {p : Item Id → Bool} {f : Item Id → Item Id}
    (hkey : ∀ item, (f item).key = item.key)
    (hevidence : ∀ item, Fetchable provider item.key →
      (f item).evidenceItemId = item.evidenceItemId) :
    SameEvidence provider l (l.updateItems p f) where
  evidenceOf key hfetchable := by
    rw [Ledger.evidenceOf, findItem_updateItems hkey, Ledger.evidenceOf]
    rcases h : l.findItem key with _ | item
    · rfl
    · have hitem : (f item).evidenceItemId = item.evidenceItemId :=
        hevidence item (findItem_key h ▸ hfetchable)
      by_cases hp : p item <;> simp [hp, hitem]
  present key h := by
    rw [findItem_updateItems hkey, Option.isSome_map]
    exact h
  acquired _ := rfl
  counted _ := rfl

theorem inert_updateItems {p : Item Id → Bool} {f : Item Id → Item Id}
    (hkey : ∀ item, (f item).key = item.key)
    (hevidence : ∀ item, Fetchable provider item.key →
      (f item).evidenceItemId = item.evidenceItemId)
    (hretries : ∀ item, (f item).AwaitsRetry → item.AwaitsRetry) :
    Inert provider l (l.updateItems p f) where
  toSameEvidence := sameEvidence_updateItems hkey hevidence
  retries h := by
    intro item hitem
    obtain ⟨old, hold, rfl⟩ := List.mem_map.mp hitem
    by_cases hp : p old
    · rw [if_pos hp]
      exact fun hawaits => h old hold (hretries old hawaits)
    · rw [if_neg hp]
      exact h old hold

/-- A change of nothing but the state of items. -/
theorem inert_setState {p : Item Id → Bool} {state : ItemState} :
    Inert provider l (l.updateItems p fun item => { item with state }) :=
  inert_updateItems (fun _ => rfl) (fun _ _ => rfl) fun _ h => h

theorem findItem_createItem {item : Item Id} (key : ItemKey Id) :
    (l.createItem item).findItem key =
      (l.findItem key).or (if item.key = key then some item else none) := by
  rw [createItem]
  by_cases hany : l.items.any fun row => row.key = item.key
  · rw [if_pos hany]
    by_cases hkey : item.key = key
    · -- the row is there already
      subst hkey
      obtain ⟨row, hrow, heq⟩ := List.any_eq_true.mp hany
      have hsome : (l.findItem item.key).isSome := List.find?_isSome.mpr ⟨row, hrow, heq⟩
      rw [Option.or_of_isSome hsome]
    · rw [if_neg hkey, Option.or_none]
  · rw [if_neg hany, findItem, List.find?_append]
    by_cases hkey : item.key = key <;> simp [hkey, findItem]

theorem inert_createItem {item : Item Id}
    (hevidence : Fetchable provider item.key → item.evidenceItemId = none)
    (hattempt : item.lastAttempt = .none) : Inert provider l (l.createItem item) where
  evidenceOf key hfetchable := by
    rw [Ledger.evidenceOf, findItem_createItem, Ledger.evidenceOf]
    rcases l.findItem key with _ | row
    · by_cases hkey : item.key = key
      · rw [if_pos hkey]
        exact hevidence (hkey ▸ hfetchable)
      · rw [if_neg hkey]
        rfl
    · rfl
  present key h := by
    rw [findItem_createItem, Option.isSome_or, h]
    rfl
  acquired key := by
    rw [createItem]
    split <;> rfl
  counted key := by
    rw [createItem]
    split <;> rfl
  retries h := by
    rw [createItem]
    split
    · exact h
    · intro row hrow
      rcases List.mem_append.mp hrow with hold | hnew
      · exact h row hold
      · obtain rfl := List.mem_singleton.mp hnew
        rintro ⟨n, hn, -⟩
        rw [hattempt] at hn
        cases hn

/-! ## The transactions -/

theorem inert_discover (keys : List (ItemKey Id)) (l : Ledger Id) :
    Inert provider l (discover keys l) := by
  induction keys generalizing l with
  | nil => exact .refl l
  | cons key keys ih => exact (inert_createItem (fun _ => rfl) rfl).trans (ih _)

theorem inert_commitPage {id version : ℕ} {entries : List (ItemKey Id)} {cursorKind : CursorKind} :
    Inert provider l (l.commitPage id version entries cursorKind) :=
  (inert_discover entries l).trans inert_advance

/-- An item and its derived evidence at once. -/
theorem inert_createPreserved {key : ItemKey Id} (hkey : ¬ Fetchable provider key)
    (evidenceId : Id) (kind : EvidenceKind) :
    Inert provider l ((l.createItem (newItem key .preserved (some evidenceId))).createEvidence
      ⟨evidenceId, kind, .pending, .derived⟩) :=
  (inert_createItem (fun h => absurd h hkey) rfl).trans (inert_derived rfl)

theorem inert_commitBatch {key : ItemKey Id} {evidenceId : Id} (hkey : ¬ Fetchable provider key) :
    Inert provider l (l.commitBatch key evidenceId) := by
  rw [commitBatch]
  split
  · exact .refl l
  · exact (inert_createPreserved hkey evidenceId .auditBatch).trans inert_countDerived

theorem inert_commitBatches {batches : List (ItemKey Id × Id)}
    (h : ∀ batch ∈ batches, ¬ Fetchable provider batch.1) (l : Ledger Id) :
    Inert provider l (commitBatches batches l) := by
  induction batches generalizing l with
  | nil => exact .refl l
  | cons batch batches ih =>
    obtain ⟨hbatch, hbatches⟩ := List.forall_mem_cons.mp h
    exact (inert_commitBatch hbatch).trans (ih hbatches _)

theorem inert_commitAuditPage {id version : ℕ} {batches : List (ItemKey Id × Id)}
    {cursorKind : CursorKind} (h : ∀ batch ∈ batches, ¬ Fetchable provider batch.1) :
    Inert provider l (l.commitAuditPage id version batches cursorKind) := by
  rw [commitAuditPage]
  split
  · exact inert_advance.trans (inert_commitBatches h _)
  · exact .refl l

theorem inert_seedCheckpoints (scopes : List (ItemKey Id)) (l : Ledger Id) :
    Inert provider l (seedCheckpoints scopes l) := by
  induction scopes generalizing l with
  | nil => exact .refl l
  | cons scope scopes ih =>
    have hseed : Inert provider l (l.seedCheckpoint scope) := by
      rw [seedCheckpoint]
      split
      · exact .refl l
      · exact inert_of_rows rfl (fun _ => rfl) rfl
    exact hseed.trans (ih _)

theorem inert_startItem {key : ItemKey Id} : Inert provider l (l.startItem key) := by
  refine inert_updateItems (fun _ => rfl) (fun _ _ => rfl) ?_
  rintro item ⟨n, hn, -⟩
  cases hn

theorem inert_skipItem {key : ItemKey Id} : Inert provider l (l.skipItem key) := by
  refine inert_recordException.trans (inert_updateItems (fun _ => rfl) (fun _ _ => rfl) ?_)
  rintro item ⟨n, hn, -⟩
  cases hn

theorem inert_process {evidenceId : Id} {status : ProcessingStatus} {children : List Id} :
    Inert provider l (l.process evidenceId status children) := by
  let t := l.setProcessing (fun row => row.id = evidenceId) status
  have hstatus : Inert provider l t := inert_setProcessing
  refine hstatus.trans (inert_of_rows rfl (fun key => ?_) rfl)
  rw [acquired, process, List.countP_append, List.countP_map]
  simp [acquired, t]

theorem inert_indexEvidence {evidenceId : Id} : Inert provider l (l.indexEvidence evidenceId) :=
  inert_setProcessing.trans inert_setState

theorem inert_recordItemFailure {key : ItemKey Id} :
    Inert provider l (l.recordItemFailure key) := by
  rw [recordItemFailure]
  split
  · exact inert_recordException.trans inert_setState
  · exact .refl l

theorem inert_recordExtractFailure {key : ItemKey Id} {evidenceId : Id} :
    Inert provider l (l.recordExtractFailure key evidenceId) :=
  inert_recordItemFailure.trans inert_setProcessing

theorem inert_claimContainer {key : ItemKey Id} {evidenceId : Id} :
    Inert .upload l (l.claimContainer key evidenceId) := by
  rw [claimContainer]
  split
  · exact .refl l
  · have hkey : ¬ Fetchable .upload key := fun h => h.1 rfl
    exact (inert_createPreserved hkey evidenceId .container).trans inert_countDerived

theorem inert_preserveMessage {key : ItemKey Id} {evidenceId : Id} :
    Inert .upload l (l.preserveMessage key evidenceId) := by
  have hmessage : Inert .upload l (l.createEvidence ⟨evidenceId, .email, .pending, .derived⟩) :=
    inert_derived rfl
  refine (hmessage.trans ?_).trans inert_countDerived
  split
  · exact inert_updateItems (fun _ => rfl) (fun _ h => absurd rfl h.1) fun _ h => h
  · exact inert_createItem (fun h => absurd rfl h.1) rfl

theorem inert_closeContainer {key : ItemKey Id} {evidenceId : Id} {state : ItemState}
    {status : ProcessingStatus} :
    Inert provider l (l.closeContainer key evidenceId state status) := by
  rw [closeContainer]
  split
  · exact inert_setProcessing.trans inert_setState
  · exact (inert_recordException.trans inert_setProcessing).trans inert_setState

theorem inert_sweepItem {key : ItemKey Id} : Inert provider l (l.sweepItem key) := by
  unfold sweepItem
  rcases hitem : l.findItem key with _ | item <;> simp only
  · exact .refl l
  · cases recoveryPlan item with
    | wait => exact .refl l
    | requeue => exact inert_updateItems (fun _ => rfl) (fun _ _ => rfl) fun _ h => h
    | giveUp => exact (inert_recordException.trans inert_setProcessing).trans inert_setState

theorem inert_retry {stuck : List Id} {cleared : ℕ} :
    Inert provider l (l.retry stuck cleared) :=
  (inert_setState.trans inert_setProcessing).trans (inert_of_rows rfl (fun _ => rfl) rfl)

/-! ## The transactions that are not inert -/

theorem sameEvidence_failItem {key : ItemKey Id} {attemptNumber : ℕ} :
    SameEvidence provider l (l.failItem key attemptNumber) :=
  inert_recordException.toSameEvidence.trans
    (sameEvidence_updateItems (fun _ => rfl) fun _ _ => rfl)

/-- The last of the attempts leaves no retry pending. -/
theorem retries_failItem {key : ItemKey Id} {attemptNumber : ℕ}
    (hpermanent : maxItemAttempts ≤ attemptNumber) (h : l.NoRetryPending) :
    (l.failItem key attemptNumber).NoRetryPending := by
  intro item hitem
  obtain ⟨old, hold, rfl⟩ := List.mem_map.mp hitem
  split
  · rintro ⟨n, hn, hlt⟩
    cases hn
    exact absurd hlt (Nat.not_lt.mpr hpermanent)
  · exact h old hold

section PreserveItem

variable {key : ItemKey Id} {evidenceId : Id} {derivative : Bool}

theorem acquired_preserveItem (k : ItemKey Id) :
    (l.preserveItem key evidenceId derivative).acquired k =
      l.acquired k + if key = k then 1 else 0 := by
  have hexception : (if derivative then l.recordException else l).evidence = l.evidence := by
    split <;> rfl
  rw [acquired, preserveItem]
  simp only [updateItem, updateItems, createEvidence, hexception]
  rw [List.countP_append, acquired]
  by_cases hkey : key = k <;> simp [hkey]

theorem counted_preserveItem (k : ItemKey Id) :
    (l.preserveItem key evidenceId derivative).counted k =
      l.counted k + if key = k then 1 else 0 := by
  have hexception : (if derivative then l.recordException else l).preserved = l.preserved := by
    split <;> rfl
  rw [counted, preserveItem]
  simp only [updateItem, updateItems, createEvidence, hexception]
  rw [List.count_append, counted]
  by_cases hkey : key = k <;> simp [hkey]

theorem findItem_preserveItem (k : ItemKey Id) :
    (l.preserveItem key evidenceId derivative).findItem k =
      (l.findItem k).map fun item =>
        if item.key = key then
          { item with state := .preserved, evidenceItemId := some evidenceId, lastAttempt := .done }
        else item := by
  have hupdate := findItem_updateItems (l := l) (p := fun item => item.key = key)
    (f := fun item =>
      { item with state := .preserved, evidenceItemId := some evidenceId, lastAttempt := .done })
    (fun _ => rfl) k
  simp only [decide_eq_true_eq] at hupdate
  rw [← hupdate, preserveItem]
  cases derivative <;> rfl

theorem present_preserveItem {k : ItemKey Id} (h : (l.findItem k).isSome) :
    ((l.preserveItem key evidenceId derivative).findItem k).isSome := by
  rw [findItem_preserveItem, Option.isSome_map]
  exact h

theorem evidenceOf_preserveItem (h : (l.findItem key).isSome) :
    (l.preserveItem key evidenceId derivative).evidenceOf key = some evidenceId := by
  obtain ⟨item, hitem⟩ := Option.isSome_iff_exists.mp h
  rw [evidenceOf, findItem_preserveItem, hitem]
  simp [findItem_key hitem]

theorem evidenceOf_preserveItem_of_ne {k : ItemKey Id} (h : k ≠ key) :
    (l.preserveItem key evidenceId derivative).evidenceOf k = l.evidenceOf k := by
  rw [evidenceOf, findItem_preserveItem, evidenceOf]
  rcases hitem : l.findItem k with _ | item
  · rfl
  · have hne : item.key ≠ key := findItem_key hitem ▸ h
    simp [hne]

theorem retries_preserveItem (h : l.NoRetryPending) :
    (l.preserveItem key evidenceId derivative).NoRetryPending := by
  have hitems : (l.preserveItem key evidenceId derivative).items =
      (l.updateItem key fun item =>
        { item with
          state := .preserved, evidenceItemId := some evidenceId, lastAttempt := .done }).items := by
    cases derivative <;> rfl
  intro item hitem
  rw [hitems] at hitem
  obtain ⟨old, hold, rfl⟩ := List.mem_map.mp hitem
  split
  · rintro ⟨n, hn, -⟩
    cases hn
  · exact h old hold

end PreserveItem

end Ledger

/-! ## The events -/

namespace Work

/-- Where the executions of `fetch-item` come from: they were there, or they have just read
their item. -/
def FetchesFrom (provider : Provider) (w w' : Work Id) : Prop :=
  ∀ job ∈ w'.fetches,
    (∃ old ∈ w.fetches, old.key = job.key ∧ old.evidenceItemId = job.evidenceItemId) ∨
      Fetchable provider job.key ∧ (w.ledger.findItem job.key).isSome ∧
        w.ledger.evidenceOf job.key = job.evidenceItemId

/-- What a `WorkEvent` can do. -/
inductive StepCases (provider : Provider) (w : Work Id) : WorkEvent Id → Work Id → Prop where
  | preserve {i : ℕ} {evidenceId : Id} {derivative : Bool} {job : Fetch Id}
      (hjob : w.started? i = some job) :
      StepCases provider w (.preserveItem i evidenceId derivative)
        (w.endFetch i (w.ledger.preserveItem job.key evidenceId derivative))
  | fail {i : ℕ} {job : Fetch Id} (hjob : w.started? i = some job) :
      StepCases provider w (.failItem i)
        (w.endFetch i (w.ledger.failItem job.key (job.attempts + 1)))
  | inert {e : WorkEvent Id} {w' : Work Id} (hledger : w.ledger.Inert provider w'.ledger)
      (hfetches : FetchesFrom provider w w') : StepCases provider w e w'

variable {w : Work Id}

theorem fetchesFrom_of_subset {w' : Work Id} (h : w'.fetches ⊆ w.fetches) :
    FetchesFrom provider w w' :=
  fun job hjob => .inl ⟨job, h hjob, rfl, rfl⟩

theorem fetchesFrom_endFetch {i : ℕ} {l : Ledger Id} : FetchesFrom provider w (w.endFetch i l) :=
  fetchesFrom_of_subset (List.eraseIdx_subset ..)

/-- The executions stay the same. -/
theorem StepCases.same {e : WorkEvent Id} {w' : Work Id} (hfetches : w'.fetches = w.fetches)
    (hledger : w.ledger.Inert provider w'.ledger) : StepCases provider w e w' :=
  .inert hledger (fetchesFrom_of_subset fun _ h => hfetches ▸ h)

omit [DecidableEq Id] in
theorem started?_eq_some {i : ℕ} {job : Fetch Id} (h : w.started? i = some job) :
    job ∈ w.fetches := by
  rw [started?, Option.filter_eq_some_iff] at h
  exact List.mem_of_getElem? h.1

theorem loadItem_cases {status : Status} {key : ItemKey Id} {w' : Work Id}
    (h : w.loadItem status provider key = some w') :
    w'.ledger = w.ledger ∧ FetchesFrom provider w w' := by
  rw [loadItem] at h
  by_cases hkey : Fetchable provider key
  · rw [if_neg (not_not.mpr hkey)] at h
    rcases hitem : w.ledger.findItem key with _ | item <;> simp only [hitem] at h
    · cases h
      exact ⟨rfl, fetchesFrom_of_subset fun _ h => h⟩
    · by_cases hbail : Ledger.isFetched item.state ∨ status ≠ .fetching
      · rw [if_pos hbail] at h
        cases h
        exact ⟨rfl, fetchesFrom_of_subset fun _ h => h⟩
      · rw [if_neg hbail] at h
        cases h
        refine ⟨rfl, fun job hjob => ?_⟩
        rcases List.mem_append.mp hjob with hold | hnew
        · exact .inl ⟨job, hold, rfl, rfl⟩
        · obtain rfl := List.mem_singleton.mp hnew
          refine .inr ⟨hkey, ?_, ?_⟩
          · rw [hitem]
            rfl
          · rw [Ledger.evidenceOf, hitem]
            rfl
  · rw [if_pos hkey] at h
    cases h

/-- **What a job that works on the ledger can do.** -/
theorem step_cases {status : Status} {e : WorkEvent Id} {w' : Work Id}
    (h : w.step status provider e = some w') : StepCases provider w e w' := by
  cases e with
  | loadPage scope =>
    obtain rfl := Option.some.inj h
    unfold loadPage
    split
    · exact .same rfl (.refl _)
    · split <;> exact .same rfl (.refl _)
  | commitPage i providerItemIds pageEnd =>
    rcases hi : w.pages[i]? with _ | cp <;> simp only [step, hi] at h
    · cases h
    · split at h
      · cases h
      · cases h
        exact .same rfl Ledger.inert_commitPage
  | commitAuditPage i batches exhausted =>
    rcases hi : w.pages[i]? with _ | cp <;> simp only [step, hi] at h
    · cases h
    · by_cases haudit : cp.scope.source ≠ .audit
      · rw [if_pos haudit] at h
        cases h
      · rw [if_neg haudit] at h
        cases h
        refine .same rfl (Ledger.inert_commitAuditPage ?_)
        intro batch hbatch hfetchable
        obtain ⟨row, -, rfl⟩ := List.mem_map.mp hbatch
        exact hfetchable.2 (not_not.mp haudit)
  | expirePage i | exhaustPage i =>
    obtain ⟨cp, -, rfl⟩ := Option.map_eq_some_iff.mp h
    exact .same rfl (Ledger.inert_recordException.trans Ledger.inert_advance)
  | refusePage i =>
    obtain ⟨cp, -, rfl⟩ := Option.map_eq_some_iff.mp h
    exact .same rfl Ledger.inert_dropCheckpoint
  | crashPage i =>
    cases h
    exact .same rfl (.refl _)
  | loadItem key =>
    obtain ⟨hledger, hfetches⟩ := loadItem_cases h
    exact .inert (hledger ▸ .refl _) hfetches
  | startItem i =>
    rcases hi : w.fetches[i]? with _ | job <;> simp only [step, hi] at h
    · cases h
    · split at h
      · cases h
      · cases h
        refine .inert Ledger.inert_startItem fun x hx => .inl ?_
        rcases List.mem_or_eq_of_mem_set hx with hold | rfl
        · exact ⟨x, hold, rfl, rfl⟩
        · exact ⟨job, List.mem_of_getElem? hi, rfl, rfl⟩
  | preserveItem i evidenceId derivative =>
    obtain ⟨job, hjob, rfl⟩ := Option.map_eq_some_iff.mp h
    exact .preserve hjob
  | skipItem i =>
    obtain ⟨job, -, rfl⟩ := Option.map_eq_some_iff.mp h
    exact .inert Ledger.inert_skipItem fetchesFrom_endFetch
  | failItem i =>
    obtain ⟨job, hjob, rfl⟩ := Option.map_eq_some_iff.mp h
    exact .fail hjob
  | crashItem i =>
    cases h
    exact .inert (.refl _) fetchesFrom_endFetch
  | recordException =>
    cases h
    exact .same rfl Ledger.inert_recordException
  | process evidenceId status children =>
    cases h
    exact .same rfl Ledger.inert_process
  | indexEvidence evidenceId =>
    cases h
    exact .same rfl Ledger.inert_indexEvidence
  | failIndexing evidenceId | recordEvidenceFailure evidenceId =>
    cases h
    exact .same rfl Ledger.inert_setState
  | recordItemFailure key =>
    cases h
    exact .same rfl Ledger.inert_recordItemFailure
  | recordExtractFailure key evidenceId =>
    cases h
    exact .same rfl Ledger.inert_recordExtractFailure
  | preserveMessage key evidenceId =>
    rw [step] at h
    split at h
    · rename_i hupload
      cases h
      subst hupload
      exact .same rfl Ledger.inert_preserveMessage
    · cases h
  | closeContainer key evidenceId state processingStatus =>
    rw [step] at h
    split at h
    · cases h
      exact .same rfl Ledger.inert_closeContainer
    · cases h
  | sweepItem key =>
    rw [step] at h
    split at h
    · cases h
      exact .same rfl Ledger.inert_sweepItem
    · cases h
  | sweepCheckpoint scope =>
    rw [step] at h
    split at h
    · cases h
      exact .same rfl Ledger.inert_dropCheckpoint
    · cases h
  | sweepParent evidenceId =>
    rw [step] at h
    split at h
    · cases h
      exact .same rfl (Ledger.inert_recordException.trans Ledger.inert_setProcessing)
    · cases h

end Work

/-- The ledger changes by an inert transaction, and the executions stay the same. -/
def Work.Aside (provider : Provider) (w w' : Work Id) : Prop :=
  w'.fetches = w.fetches ∧ w.ledger.Inert provider w'.ledger

theorem Work.Aside.refl (w : Work Id) : w.Aside provider w := ⟨rfl, .refl _⟩

/-- **What any event can do to the work.** -/
theorem step_work {s s' : State Id} {e : Event Id} (h : step s e = some s') :
    s'.provider = s.provider ∧
      ((∃ e', e = .work e' ∧ s.work.step s.status s.provider e' = some s'.work) ∨
        s.work.Aside s.provider s'.work) := by
  cases e with
  | work e =>
    obtain ⟨w, hw, rfl⟩ := Option.map_eq_some_iff.mp h
    exact ⟨rfl, .inl ⟨e, rfl, hw⟩⟩
  | loadDiscovery | look =>
    rw [step] at h
    split at h <;> cases h <;> exact ⟨rfl, .inr (.refl _)⟩
  | markDiscovery i | pause | resume | cancel | mark i | close i =>
    rw [step] at h
    split at h <;> cases h
    exact ⟨rfl, .inr (.refl _)⟩
  | claimContainer i key evidenceId =>
    rw [step] at h
    split at h
    · split at h
      · rename_i hupload
        cases h
        refine ⟨rfl, .inr ⟨rfl, ?_⟩⟩
        rw [hupload]
        exact Ledger.inert_claimContainer
      · cases h
    · cases h
  | finishDiscovery i scopes =>
    rw [step] at h
    split at h
    · split at h
      · cases h
      · cases h
        exact ⟨rfl, .inr ⟨rfl, Ledger.inert_seedCheckpoints scopes _⟩⟩
    · cases h
  | failDiscovery i =>
    rw [step] at h
    split at h <;> cases h
    exact ⟨rfl, .inr ⟨rfl, Ledger.inert_recordException⟩⟩
  | crashDiscovery i | crashFinalize i =>
    cases h
    exact ⟨rfl, .inr (.refl _)⟩
  | retry stuck cleared =>
    rw [step] at h
    split at h
    · cases h
      rw [State.retry]
      split <;> exact ⟨rfl, .inr ⟨rfl, Ledger.inert_retry⟩⟩
    · cases h

/-! ## A small collection -/

/-- A message of a mailbox, or the mailbox's only folder. -/
def mailboxKey (providerItemId : ℕ) : ItemKey ℕ := ⟨1, .email, providerItemId⟩

/-- A mailbox whose only page lists one message. -/
def onePage : List (Event ℕ) :=
  [.loadDiscovery, .markDiscovery 0, .finishDiscovery 0 [mailboxKey 0],
    .work (.loadPage (mailboxKey 0)), .work (.commitPage 0 [7] (.exhausted false))]

end AegCloudDfir.Collection
