import AegCloudDfir.Collection.System
import AegCloudDfir.Production.Tables

/-!
# Uploaded containers

A collection of uploads names containers that were uploaded before. `CollectionsService.create`
accepts it only if none of them is claimed by a collection (`assertUploadsClaimable` of
`apps/api/src/collections/collections.service.ts`), and its discover job claims them one by one:
`discoverUploads` of `apps/worker/src/processors/collection-discover.ts` reads a container, and
updates it if it was unclaimed. Transactions are read-committed, so between the reading and the
update the containers may be claimed by another collection. A container is claimed twice exactly
if that happens (`oneCollection_iff`).
-/

namespace AegCloudDfir.Collection.Uploads

/-! ## Rows -/

section Defs

variable {Id : Type} [DecidableEq Id]

/-- An evidence item, as far as claiming goes. -/
structure Evidence (Id : Type) where
  id : Id
  /-- `kind === 'container'` -/
  container : Bool
  /-- `provider === 'upload'` -/
  upload : Bool
  collectionId : Option ℕ
  deriving DecidableEq

/-- A collection of uploads. Collections are identified by their place in the table. -/
structure UploadCollection (Id : Type) where
  idempotencyKey : JsString
  /-- `scope.uploads.evidenceItemIds` -/
  evidenceItemIds : List Id
  custodianId : Option JsString
  status : Status
  deriving DecidableEq

/-- A collection item of a container; its `providerItemId` is `pst:` and the container. -/
structure ContainerItem (Id : Type) where
  collectionId : ℕ
  custodianId : JsString
  evidenceItemId : Id
  state : ItemState
  deriving DecidableEq

/-- An exception of `kind` `unavailable_item`. -/
structure UnavailableItem (Id : Type) where
  collectionId : ℕ
  evidenceItemId : Id
  message : JsString
  deriving DecidableEq

/-- A call of `create`. -/
inductive Call (Id : Type) : Type where
  /-- the batches of identifiers that are left to read, and the rows read so far -/
  | checking (input : UploadCollection Id) (batches : List (List Id)) (items : List (Evidence Id))
  | over
  deriving DecidableEq

/-- An execution of a discover job. -/
inductive Execution (Id : Type) : Type where
  /-- the collection has been read -/
  | found (collectionId : ℕ)
  /-- the containers of the loop that are left, and the number of those claimed -/
  | reading (collectionId : ℕ) (custodianId : JsString) (remaining : List Id) (claimed : ℕ)
  /-- the next container has been read and may be claimed -/
  | claiming (collectionId : ℕ) (custodianId : JsString) (evidenceItemId : Id)
    (remaining : List Id) (claimed : ℕ)
  | over
  deriving DecidableEq

/-- The database, and what is under way. -/
structure State (Id : Type) where
  evidence : List (Evidence Id)
  collections : List (UploadCollection Id)
  items : List (ContainerItem Id)
  /-- the jobs of `pst.extract` that were enqueued, each for a collection and a container -/
  extracts : List (ℕ × Id)
  exceptions : List (UnavailableItem Id)
  calls : List (Call Id)
  executions : List (Execution Id)
  deriving DecidableEq

/-- Nothing uploaded yet. -/
def State.empty : State Id := ⟨[], [], [], [], [], [], []⟩

/-! ## Creating -/

/-- What `assertUploadsClaimable` throws. -/
inductive NotClaimable : Type where
  | badRequest (message : JsString)
  | conflict (message : JsString)
  deriving DecidableEq

/-- `assertUploadsClaimable`, with the rows that were read -/
def assertUploadsClaimable (uniqueIds : List Id) (items : List (Evidence Id)) :
    Except NotClaimable Unit :=
  if items.length ≠ uniqueIds.length then
    .error (.badRequest
      (js "every uploads.evidenceItemIds entry must reference an existing uploaded file"))
  else
    items.forM fun item =>
      if item.container = false ∨ item.upload = false then
        .error (.badRequest
          (js "uploads.evidenceItemIds must reference uploaded container files"))
      else if item.collectionId ≠ none then
        .error (.conflict
          (js "an uploaded container is already claimed by another collection"))
      else .ok ()

/-- A call of `create` begins: a key that was used before returns the collection that has it. -/
def State.create (s : State Id) (input : UploadCollection Id) : State Id :=
  if s.collections.any fun c => c.idempotencyKey = input.idempotencyKey then s
  else
    let uniqueIds := distinct input.evidenceItemIds
    { s with
      calls := s.calls ++ [.checking input (Production.chunk Production.queryChunk uniqueIds) []] }

/-- The next batch of containers is read. -/
def State.readBatch (s : State Id) (i : ℕ) (input : UploadCollection Id) (batch : List Id)
    (batches : List (List Id)) (items : List (Evidence Id)) : State Id :=
  let read := s.evidence.filter fun row => row.id ∈ batch
  { s with calls := s.calls.set i (.checking input batches (items ++ read)) }

/-- The rest of the transaction: the collection is created, unless its containers may not be
claimed or another call has used the key meanwhile. -/
def State.commitCreate (s : State Id) (i : ℕ) (input : UploadCollection Id)
    (items : List (Evidence Id)) : State Id :=
  let closed := { s with calls := s.calls.set i .over }
  match assertUploadsClaimable (distinct input.evidenceItemIds) items with
  | .error _ => closed
  | .ok () =>
    if s.collections.any fun c => c.idempotencyKey = input.idempotencyKey then closed
    else { closed with collections := s.collections ++ [{ input with status := .created }] }

/-! ## Discovering -/

/-- Sets the status of a collection. -/
def State.setStatus (s : State Id) (collectionId : ℕ) (status : Status) : State Id :=
  { s with
    collections := s.collections.modify collectionId fun c => { c with status := status } }

/-- `processCollectionDiscover` reads its collection. -/
def State.look (s : State Id) (collectionId : ℕ) : State Id :=
  match s.collections[collectionId]? with
  | none => s
  | some c =>
    if c.status ∈ [Status.created, .discovering, .fetching] then
      { s with executions := s.executions ++ [.found collectionId] }
    else s

/-- It marks the collection and comes to `discoverUploads`. -/
def State.start (s : State Id) (i collectionId : ℕ) (c : UploadCollection Id) : State Id :=
  match c.custodianId with
  | none =>
    { s.setStatus collectionId .failed with executions := s.executions.set i .over }
  | some custodianId =>
    if c.evidenceItemIds = [] then
      { s.setStatus collectionId .failed with executions := s.executions.set i .over }
    else
      { s.setStatus collectionId .discovering with
        executions := s.executions.set i (.reading collectionId custodianId c.evidenceItemIds 0) }

/-- A container that the collection may claim. -/
def Evidence.claimableBy (evidence : Evidence Id) (collectionId : ℕ) : Bool :=
  evidence.container ∧ evidence.upload ∧
    (evidence.collectionId = none ∨ evidence.collectionId = some collectionId)

/-- The transaction of a container reads it; one that cannot be claimed is an exception. -/
def State.read (s : State Id) (i collectionId : ℕ) (custodianId : JsString) (evidenceItemId : Id)
    (remaining : List Id) (claimed : ℕ) : State Id :=
  let unavailable (message : JsString) : State Id :=
    { s with
      exceptions := s.exceptions ++ [⟨collectionId, evidenceItemId, message⟩]
      executions := s.executions.set i (.reading collectionId custodianId remaining claimed) }
  match s.evidence.find? fun row => row.id = evidenceItemId with
  | none => unavailable (js "uploaded container no longer exists")
  | some evidence =>
    if evidence.claimableBy collectionId then
      { s with
        executions := s.executions.set i
          (.claiming collectionId custodianId evidenceItemId remaining claimed) }
    else unavailable (js "evidence item is not an unclaimed uploaded container")

/-- Its updates: the container is the collection's, and is preserved, and its messages are to be
extracted. They wait for those of another transaction on the container, and are then made whatever
that one has written. -/
def State.claim (s : State Id) (i collectionId : ℕ) (custodianId : JsString) (evidenceItemId : Id)
    (remaining : List Id) (claimed : ℕ) : State Id :=
  let item : ContainerItem Id := ⟨collectionId, custodianId, evidenceItemId, .preserved⟩
  let existing := s.items.any fun row => row.collectionId = collectionId ∧
    row.custodianId = custodianId ∧ row.evidenceItemId = evidenceItemId
  { s with
    evidence := s.evidence.map fun row =>
      if row.id = evidenceItemId then { row with collectionId := some collectionId } else row
    items := if existing then s.items else s.items ++ [item]
    extracts := addTo s.extracts (collectionId, evidenceItemId)
    executions := s.executions.set i (.reading collectionId custodianId remaining (claimed + 1)) }

/-- After the loop: with nothing claimed the collection has failed. -/
def State.finish (s : State Id) (i collectionId claimed : ℕ) : State Id :=
  { s.setStatus collectionId (if claimed = 0 then .failed else .fetching) with
    executions := s.executions.set i .over }

/-! ## The system -/

/-- What can happen next. -/
inductive Event (Id : Type) : Type where
  /-- an upload is stored, or evidence of another kind -/
  | insert (row : Evidence Id)
  /-- a call of `create` -/
  | create (input : UploadCollection Id)
  | readBatch (i : ℕ)
  | commitCreate (i : ℕ)
  /-- a call is refused for another reason, or ends without a trace -/
  | abandon (i : ℕ)
  /-- a discover job of the collection is delivered, for the first time or again -/
  | look (collectionId : ℕ)
  | start (i : ℕ)
  | read (i : ℕ)
  | claim (i : ℕ)
  | finish (i : ℕ)
  /-- an execution ends without a trace, and so does its open transaction -/
  | crash (i : ℕ)
  /-- others set the status of a collection -/
  | settle (collectionId : ℕ) (status : Status)

/-- What an event does. -/
def step (s : State Id) : Event Id → Option (State Id)
  | .insert row =>
    if row.id ∈ s.evidence.map Evidence.id ∨
        row.container ∧ row.upload ∧ row.collectionId ≠ none then none
    else some { s with evidence := s.evidence ++ [row] }
  | .create input => some (s.create input)
  | .readBatch i =>
    match s.calls[i]? with
    | some (.checking input (batch :: batches) items) =>
      some (s.readBatch i input batch batches items)
    | _ => none
  | .commitCreate i =>
    match s.calls[i]? with
    | some (.checking input [] items) => some (s.commitCreate i input items)
    | _ => none
  | .abandon i => some { s with calls := s.calls.set i .over }
  | .look collectionId => some (s.look collectionId)
  | .start i =>
    match s.executions[i]? with
    | some (.found collectionId) =>
      (s.collections[collectionId]?).map fun c => s.start i collectionId c
    | _ => none
  | .read i =>
    match s.executions[i]? with
    | some (.reading collectionId custodianId (evidenceItemId :: remaining) claimed) =>
      some (s.read i collectionId custodianId evidenceItemId remaining claimed)
    | _ => none
  | .claim i =>
    match s.executions[i]? with
    | some (.claiming collectionId custodianId evidenceItemId remaining claimed) =>
      some (s.claim i collectionId custodianId evidenceItemId remaining claimed)
    | _ => none
  | .finish i =>
    match s.executions[i]? with
    | some (.reading collectionId _ [] claimed) => some (s.finish i collectionId claimed)
    | _ => none
  | .crash i => some { s with executions := s.executions.set i .over }
  | .settle collectionId status => some (s.setStatus collectionId status)

/-! ## Claims -/

/-- A container has a preserved item and a job in the collection. -/
def Claimed (s : State Id) (collectionId : ℕ) (evidenceItemId : Id) : Prop :=
  (∃ custodianId, ContainerItem.mk collectionId custodianId evidenceItemId .preserved ∈ s.items) ∧
    (collectionId, evidenceItemId) ∈ s.extracts

/-- No container is claimed by two collections. -/
def OneCollection (s : State Id) : Prop :=
  ∀ evidenceItemId collectionId other, Claimed s collectionId evidenceItemId →
    Claimed s other evidenceItemId → collectionId = other

/-- Where a container is claimed, it is still not claimed by another collection. -/
def StillUnclaimed (s : State Id) : Event Id → Prop
  | .claim i => ∀ collectionId custodianId evidenceItemId remaining claimed,
    s.executions[i]? =
        some (.claiming collectionId custodianId evidenceItemId remaining claimed) →
      ∀ row ∈ s.evidence, row.id = evidenceItemId →
        row.collectionId = none ∨ row.collectionId = some collectionId
  | _ => True

/-- An uploaded container. -/
def Evidence.Uploaded (evidence : Evidence Id) : Prop := evidence.container ∧ evidence.upload

/-- **The invariant**: a container says which collection has claimed it last, and only containers
are claimed. -/
structure Sound (s : State Id) : Prop where
  preserved : ∀ item ∈ s.items, item.state = .preserved
  nodup : (s.evidence.map Evidence.id).Nodup
  claimed : ∀ row ∈ s.evidence, row.Uploaded → ∀ collectionId,
    row.collectionId = some collectionId → Claimed s collectionId row.id
  said : ∀ collectionId evidenceItemId, Claimed s collectionId evidenceItemId →
    ∃ row ∈ s.evidence, row.id = evidenceItemId ∧ row.Uploaded ∧ row.collectionId ≠ none
  claiming : ∀ collectionId custodianId evidenceItemId remaining claimed,
    Execution.claiming collectionId custodianId evidenceItemId remaining claimed ∈ s.executions →
      ∃ row ∈ s.evidence, row.id = evidenceItemId ∧ row.Uploaded

/-- What an event does that claims nothing. -/
structure Aside (s s' : State Id) : Prop where
  items : s'.items = s.items
  extracts : s'.extracts = s.extracts
  evidence : s'.evidence = s.evidence ∨ ∃ row : Evidence Id, s'.evidence = s.evidence ++ [row] ∧
    row.id ∉ s.evidence.map Evidence.id ∧ (row.Uploaded → row.collectionId = none)
  claiming : ∀ collectionId custodianId evidenceItemId remaining claimed,
    Execution.claiming collectionId custodianId evidenceItemId remaining claimed ∈ s'.executions →
      Execution.claiming collectionId custodianId evidenceItemId remaining claimed ∈ s.executions ∨
        ∃ row ∈ s.evidence, row.id = evidenceItemId ∧ row.Uploaded

end Defs

section Proofs

variable {Id : Type} [DecidableEq Id] {s s' : State Id}

/-! ### What an event does -/

omit [DecidableEq Id] in
/-- An event that changes neither the evidence nor the executions. -/
theorem Aside.of_eq (hitems : s'.items = s.items) (hextracts : s'.extracts = s.extracts)
    (hevidence : s'.evidence = s.evidence) (hexecutions : s'.executions = s.executions) :
    Aside s s' :=
  ⟨hitems, hextracts, .inl hevidence, fun _ _ _ _ _ h => .inl (hexecutions ▸ h)⟩

omit [DecidableEq Id] in
/-- An event that changes one execution to one that is not about to claim. -/
theorem Aside.of_set {i : ℕ} {next : Execution Id} (hitems : s'.items = s.items)
    (hextracts : s'.extracts = s.extracts) (hevidence : s'.evidence = s.evidence)
    (hexecutions : s'.executions = s.executions.set i next)
    (hnext : ∀ collectionId custodianId evidenceItemId remaining claimed,
      next = .claiming collectionId custodianId evidenceItemId remaining claimed →
        ∃ row ∈ s.evidence, row.id = evidenceItemId ∧ row.Uploaded) : Aside s s' := by
  refine ⟨hitems, hextracts, .inl hevidence, ?_⟩
  intro collectionId custodianId evidenceItemId remaining claimed hmem
  rw [hexecutions] at hmem
  rcases List.mem_or_eq_of_mem_set hmem with hmem | heq
  · exact .inl hmem
  · exact .inr (hnext collectionId custodianId evidenceItemId remaining claimed heq.symm)

theorem aside_read {i collectionId : ℕ} {custodianId : JsString} {evidenceItemId : Id}
    {remaining : List Id} {claimed : ℕ} :
    Aside s (s.read i collectionId custodianId evidenceItemId remaining claimed) := by
  simp only [State.read]
  split
  · refine .of_set rfl rfl rfl rfl ?_
    rintro _ _ _ _ _ ⟨⟩
  · next row hfind =>
    split_ifs with hclaimable
    · refine .of_set rfl rfl rfl rfl ?_
      rintro _ _ _ _ _ ⟨⟩
      rw [Evidence.claimableBy, decide_eq_true_eq] at hclaimable
      refine ⟨row, List.mem_of_find?_eq_some hfind, by simpa using List.find?_some hfind, ?_⟩
      exact ⟨hclaimable.1, hclaimable.2.1⟩
    · refine .of_set rfl rfl rfl rfl ?_
      rintro _ _ _ _ _ ⟨⟩

/-- A call of `create` claims nothing. -/
theorem aside_create {input : UploadCollection Id} : Aside s (s.create input) := by
  rw [State.create]
  split_ifs <;> exact .of_eq rfl rfl rfl rfl

theorem aside_commitCreate {i : ℕ} {input : UploadCollection Id} {items : List (Evidence Id)} :
    Aside s (s.commitCreate i input items) := by
  simp only [State.commitCreate]
  split
  · exact .of_eq rfl rfl rfl rfl
  · split_ifs <;> exact .of_eq rfl rfl rfl rfl

omit [DecidableEq Id] in
theorem aside_look {collectionId : ℕ} : Aside s (s.look collectionId) := by
  rw [State.look]
  split
  · exact .of_eq rfl rfl rfl rfl
  · split_ifs
    · refine ⟨rfl, rfl, .inl rfl, ?_⟩
      intro _ _ _ _ _ hmem
      rcases List.mem_append.mp hmem with hmem | hmem
      · exact .inl hmem
      · cases List.mem_singleton.mp hmem
    · exact .of_eq rfl rfl rfl rfl

omit [DecidableEq Id] in
theorem aside_start {i collectionId : ℕ} {c : UploadCollection Id} :
    Aside s (s.start i collectionId c) := by
  rw [State.start]
  split
  · refine .of_set rfl rfl rfl rfl ?_
    rintro _ _ _ _ _ ⟨⟩
  · split_ifs
    all_goals
      refine .of_set rfl rfl rfl rfl ?_
      rintro _ _ _ _ _ ⟨⟩

/-- **What an event does**: it claims a container, or it claims nothing. -/
theorem step_cases {e : Event Id} (h : step s e = some s') :
    (∃ i collectionId custodianId evidenceItemId remaining claimed, e = .claim i ∧
      s.executions[i]? =
        some (.claiming collectionId custodianId evidenceItemId remaining claimed) ∧
      s' = s.claim i collectionId custodianId evidenceItemId remaining claimed) ∨
    ((∀ i, e ≠ .claim i) ∧ Aside s s') := by
  cases e with
  | claim i =>
    simp only [step] at h
    split at h
    · next collectionId custodianId evidenceItemId remaining claimed hexecution =>
      exact .inl ⟨i, collectionId, custodianId, evidenceItemId, remaining, claimed, rfl, hexecution,
        (Option.some.inj h).symm⟩
    · cases h
  | insert row =>
    refine .inr ⟨by rintro i ⟨⟩, ?_⟩
    simp only [step] at h
    split_ifs at h with hrefused
    obtain rfl := Option.some.inj h
    obtain ⟨hnew, hunclaimed⟩ := not_or.mp hrefused
    refine ⟨rfl, rfl, .inr ⟨row, rfl, hnew, fun hrow => ?_⟩, fun _ _ _ _ _ h => .inl h⟩
    by_contra hclaimed
    exact hunclaimed ⟨hrow.1, hrow.2, hclaimed⟩
  | create input =>
    obtain rfl := Option.some.inj h
    exact .inr ⟨by rintro i ⟨⟩, aside_create⟩
  | readBatch i =>
    refine .inr ⟨by rintro i ⟨⟩, ?_⟩
    simp only [step] at h
    split at h
    · obtain rfl := Option.some.inj h
      exact .of_eq rfl rfl rfl rfl
    · cases h
  | commitCreate i =>
    refine .inr ⟨by rintro i ⟨⟩, ?_⟩
    simp only [step] at h
    split at h
    · obtain rfl := Option.some.inj h
      exact aside_commitCreate
    · cases h
  | abandon i | settle collectionId status =>
    obtain rfl := Option.some.inj h
    exact .inr ⟨by rintro i ⟨⟩, .of_eq rfl rfl rfl rfl⟩
  | look collectionId =>
    obtain rfl := Option.some.inj h
    exact .inr ⟨by rintro i ⟨⟩, aside_look⟩
  | start i =>
    refine .inr ⟨by rintro i ⟨⟩, ?_⟩
    simp only [step] at h
    split at h
    · obtain ⟨c, -, rfl⟩ := Option.map_eq_some_iff.mp h
      exact aside_start
    · cases h
  | read i =>
    refine .inr ⟨by rintro i ⟨⟩, ?_⟩
    simp only [step] at h
    split at h
    · obtain rfl := Option.some.inj h
      exact aside_read
    · cases h
  | finish i =>
    refine .inr ⟨by rintro i ⟨⟩, ?_⟩
    simp only [step] at h
    split at h
    · obtain rfl := Option.some.inj h
      refine .of_set rfl rfl rfl rfl ?_
      rintro _ _ _ _ _ ⟨⟩
    · cases h
  | crash i =>
    obtain rfl := Option.some.inj h
    refine .inr ⟨by rintro i ⟨⟩, .of_set rfl rfl rfl rfl ?_⟩
    rintro _ _ _ _ _ ⟨⟩

/-! ### The invariant -/

omit [DecidableEq Id] in
/-- Nothing is claimed by an event that claims nothing. -/
theorem Aside.claimed_iff (h : Aside s s') {collectionId : ℕ} {evidenceItemId : Id} :
    Claimed s' collectionId evidenceItemId ↔ Claimed s collectionId evidenceItemId := by
  rw [Claimed, Claimed, h.items, h.extracts]

omit [DecidableEq Id] in
/-- The evidence that was there is there. -/
theorem Aside.evidence_subset (h : Aside s s') : s.evidence ⊆ s'.evidence := by
  rcases h.evidence with heq | ⟨row, heq, -⟩
  · rw [heq]
    exact List.Subset.refl _
  · rw [heq]
    exact List.subset_append_left _ _

omit [DecidableEq Id] in
theorem Aside.sound (h : Aside s s') (hs : Sound s) : Sound s' := by
  have hsubset := h.evidence_subset
  refine ⟨?_, ?_, ?_, ?_, ?_⟩
  · rw [h.items]
    exact hs.preserved
  · rcases h.evidence with heq | ⟨row, heq, hnew, -⟩
    · rw [heq]
      exact hs.nodup
    · rw [heq, List.map_append, List.map_singleton, ← List.concat_eq_append]
      exact hs.nodup.concat hnew
  · intro row hrow huploaded collectionId hclaimed
    rw [h.claimed_iff]
    rcases h.evidence with heq | ⟨new, heq, -, hnew⟩
    · rw [heq] at hrow
      exact hs.claimed row hrow huploaded collectionId hclaimed
    · rw [heq] at hrow
      rcases List.mem_append.mp hrow with hrow | hrow
      · exact hs.claimed row hrow huploaded collectionId hclaimed
      · obtain rfl := List.mem_singleton.mp hrow
        rw [hnew huploaded] at hclaimed
        cases hclaimed
  · intro collectionId evidenceItemId hclaimed
    obtain ⟨row, hrow, hsaid⟩ := hs.said collectionId evidenceItemId (h.claimed_iff.mp hclaimed)
    exact ⟨row, hsubset hrow, hsaid⟩
  · intro collectionId custodianId evidenceItemId remaining claimed hmem
    have hrow : ∃ row ∈ s.evidence, row.id = evidenceItemId ∧ row.Uploaded := by
      rcases h.claiming _ _ _ _ _ hmem with hold | hread
      · exact hs.claiming _ _ _ _ _ hold
      · exact hread
    obtain ⟨row, hrow, hid⟩ := hrow
    exact ⟨row, hsubset hrow, hid⟩

variable {i collectionId : ℕ} {custodianId : JsString} {evidenceItemId : Id} {remaining : List Id}
  {claimed : ℕ}

/-- **A claim** adds one container to one collection. -/
theorem claimed_claim_iff (hs : Sound s) {other : ℕ} {id : Id} :
    Claimed (s.claim i collectionId custodianId evidenceItemId remaining claimed) other id ↔
      Claimed s other id ∨ other = collectionId ∧ id = evidenceItemId := by
  refine ⟨?_, ?_⟩
  · rintro ⟨⟨custodian, hitem⟩, hextract⟩
    by_cases hnew : other = collectionId ∧ id = evidenceItemId
    · exact .inr hnew
    · refine .inl ⟨⟨custodian, ?_⟩, ?_⟩
      · simp only [State.claim] at hitem
        split_ifs at hitem
        · exact hitem
        · rcases List.mem_append.mp hitem with hitem | hitem
          · exact hitem
          · cases List.mem_singleton.mp hitem
            exact absurd ⟨rfl, rfl⟩ hnew
      · rcases mem_addTo.mp hextract with hextract | heq
        · exact hextract
        · cases heq
          exact absurd ⟨rfl, rfl⟩ hnew
  · rintro (⟨⟨custodian, hitem⟩, hextract⟩ | ⟨rfl, rfl⟩)
    · refine ⟨⟨custodian, ?_⟩, mem_addTo.mpr (.inl hextract)⟩
      simp only [State.claim]
      split_ifs
      · exact hitem
      · exact List.mem_append_left _ hitem
    · refine ⟨⟨custodianId, ?_⟩, mem_addTo.mpr (.inr rfl)⟩
      simp only [State.claim]
      split_ifs with hexisting
      · -- the item of an earlier execution
        obtain ⟨row, hrow, heq⟩ := List.any_eq_true.mp hexisting
        obtain ⟨hother, hcustodian, hid⟩ := of_decide_eq_true heq
        obtain ⟨c, custodian, e, state⟩ := row
        obtain rfl : c = other := hother
        obtain rfl : custodian = custodianId := hcustodian
        obtain rfl : e = id := hid
        obtain rfl : state = .preserved := hs.preserved _ hrow
        exact hrow
      · exact List.mem_append_right _ (List.mem_singleton_self _)

/-- The rows of evidence after a claim. -/
theorem mem_evidence_claim {row : Evidence Id}
    (h : row ∈ (s.claim i collectionId custodianId evidenceItemId remaining claimed).evidence) :
    ∃ old ∈ s.evidence, row.id = old.id ∧ (row.Uploaded ↔ old.Uploaded) ∧ row.collectionId =
      if old.id = evidenceItemId then some collectionId else old.collectionId := by
  obtain ⟨old, hold, rfl⟩ := List.mem_map.mp h
  refine ⟨old, hold, ?_⟩
  split_ifs <;> exact ⟨rfl, Iff.rfl, rfl⟩

theorem evidence_claim_of_mem {row : Evidence Id} (h : row ∈ s.evidence) :
    ∃ new ∈ (s.claim i collectionId custodianId evidenceItemId remaining claimed).evidence,
      new.id = row.id ∧ (new.Uploaded ↔ row.Uploaded) ∧ (row.collectionId ≠ none →
        new.collectionId ≠ none) ∧ (row.id = evidenceItemId → new.collectionId ≠ none) := by
  refine ⟨_, List.mem_map_of_mem h, ?_⟩
  split_ifs with hid
  · exact ⟨rfl, Iff.rfl, fun _ => Option.some_ne_none _, fun _ => Option.some_ne_none _⟩
  · exact ⟨rfl, Iff.rfl, id, fun heq => absurd heq hid⟩

theorem sound_claim (hs : Sound s)
    (hexecution : s.executions[i]? =
      some (.claiming collectionId custodianId evidenceItemId remaining claimed)) :
    Sound (s.claim i collectionId custodianId evidenceItemId remaining claimed) := by
  obtain ⟨container, hcontainer, hid, huploaded⟩ :=
    hs.claiming _ _ _ _ _ (List.mem_of_getElem? hexecution)
  refine ⟨?_, ?_, ?_, ?_, ?_⟩
  · intro item hitem
    simp only [State.claim] at hitem
    split_ifs at hitem
    · exact hs.preserved item hitem
    · rcases List.mem_append.mp hitem with hitem | hitem
      · exact hs.preserved item hitem
      · rw [List.mem_singleton.mp hitem]
  · have hids : (s.claim i collectionId custodianId evidenceItemId remaining claimed).evidence.map
        Evidence.id = s.evidence.map Evidence.id := by
      simp only [State.claim, List.map_map]
      refine List.map_congr_left fun row _ => ?_
      rw [Function.comp_apply]
      split_ifs <;> rfl
    rw [hids]
    exact hs.nodup
  · intro row hrow hrowUploaded other hother
    obtain ⟨old, hold, hrowId, huploaded', hset⟩ := mem_evidence_claim hrow
    rw [claimed_claim_iff hs, hrowId]
    rw [hset] at hother
    split_ifs at hother with hsame
    · exact .inr ⟨(Option.some.inj hother).symm, hsame⟩
    · exact .inl (hs.claimed old hold (huploaded'.mp hrowUploaded) other hother)
  · intro other id hclaimed
    rcases (claimed_claim_iff hs).mp hclaimed with hbefore | ⟨rfl, rfl⟩
    · obtain ⟨row, hrow, rfl, hrowUploaded, hsome⟩ := hs.said other id hbefore
      obtain ⟨new, hnew, hnewId, huploaded', hkeeps, -⟩ := evidence_claim_of_mem hrow
      exact ⟨new, hnew, hnewId, huploaded'.mpr hrowUploaded, hkeeps hsome⟩
    · obtain ⟨new, hnew, hnewId, huploaded', -, hset⟩ := evidence_claim_of_mem hcontainer
      exact ⟨new, hnew, hnewId.trans hid, huploaded'.mpr huploaded, hset hid⟩
  · intro c custodian e left n hmem
    have hbefore : Execution.claiming c custodian e left n ∈ s.executions := by
      rcases List.mem_or_eq_of_mem_set hmem with hmem | heq
      · exact hmem
      · cases heq
    obtain ⟨row, hrow, hrowId, hrowUploaded⟩ := hs.claiming c custodian e left n hbefore
    obtain ⟨new, hnew, hnewId, huploaded', -, -⟩ := evidence_claim_of_mem hrow
    exact ⟨new, hnew, hnewId.trans hrowId, huploaded'.mpr hrowUploaded⟩

/-! ### Claiming twice -/

/-- A claim is the second for its container exactly if the container is another collection's by
then. -/
theorem oneCollection_claim_iff (hs : Sound s) (hgood : OneCollection s)
    (hexecution : s.executions[i]? =
      some (.claiming collectionId custodianId evidenceItemId remaining claimed)) :
    OneCollection (s.claim i collectionId custodianId evidenceItemId remaining claimed) ↔
      ∀ row ∈ s.evidence, row.id = evidenceItemId →
        row.collectionId = none ∨ row.collectionId = some collectionId := by
  obtain ⟨container, hcontainer, hid, huploaded⟩ :=
    hs.claiming _ _ _ _ _ (List.mem_of_getElem? hexecution)
  have hunique : ∀ row ∈ s.evidence, row.id = evidenceItemId → row = container := fun row hrow h =>
    List.inj_on_of_nodup_map hs.nodup hrow hcontainer (h.trans hid.symm)
  refine ⟨?_, ?_⟩
  · intro hnext row hrow hrowId
    obtain rfl := hunique row hrow hrowId
    rcases hother : row.collectionId with _ | other
    · exact .inl rfl
    · -- the other collection has it too
      have hclaimed := hs.claimed row hrow huploaded other hother
      rw [hrowId] at hclaimed
      refine .inr (congrArg some ?_)
      exact hnext evidenceItemId other collectionId ((claimed_claim_iff hs).mpr (.inl hclaimed))
        ((claimed_claim_iff hs).mpr (.inr ⟨rfl, rfl⟩))
  · intro hunclaimed
    -- whoever has claimed the container is the collection that claims it now
    have hsame : ∀ other, Claimed s other evidenceItemId → other = collectionId := by
      intro other hother
      obtain ⟨row, hrow, hrowId, -, hsome⟩ := hs.said other evidenceItemId hother
      obtain rfl := hunique row hrow hrowId
      rcases hunclaimed row hrow hrowId with hnone | hmine
      · exact absurd hnone hsome
      · have hclaimed := hs.claimed row hrow huploaded collectionId hmine
        rw [hrowId] at hclaimed
        exact hgood evidenceItemId other collectionId hother hclaimed
    intro id c c' hc hc'
    rw [claimed_claim_iff hs] at hc hc'
    by_cases hsameId : id = evidenceItemId
    · subst hsameId
      have hmine : ∀ other, Claimed s other id ∨ other = collectionId ∧ id = id →
          other = collectionId := by
        rintro other (hother | ⟨hother, -⟩)
        · exact hsame other hother
        · exact hother
      rw [hmine c hc, hmine c' hc']
    · exact hgood id c c' (hc.resolve_right fun h => hsameId h.2)
        (hc'.resolve_right fun h => hsameId h.2)

theorem sound_step {e : Event Id} (hs : Sound s) (h : step s e = some s') : Sound s' := by
  rcases step_cases h with ⟨i, _, _, _, _, _, rfl, hexecution, rfl⟩ | ⟨-, haside⟩
  · exact sound_claim hs hexecution
  · exact haside.sound hs

omit [DecidableEq Id] in
theorem sound_empty : Sound (State.empty : State Id) where
  preserved _ h := absurd h List.not_mem_nil
  nodup := List.nodup_nil
  claimed _ h := absurd h List.not_mem_nil
  said _ _ h := absurd h.2 List.not_mem_nil
  claiming _ _ _ _ _ h := absurd h List.not_mem_nil

omit [DecidableEq Id] in
theorem oneCollection_empty : OneCollection (State.empty : State Id) :=
  fun _ _ _ h => absurd h.2 List.not_mem_nil

/-- An event keeps containers apart exactly if what it claims is still unclaimed. -/
theorem oneCollection_step {e : Event Id} (hs : Sound s) (hgood : OneCollection s)
    (h : step s e = some s') : OneCollection s' ↔ StillUnclaimed s e := by
  rcases step_cases h with ⟨i, c, custodian, id, left, n, rfl, hexecution, rfl⟩ | ⟨hne, haside⟩
  · rw [oneCollection_claim_iff hs hgood hexecution]
    refine ⟨?_, ?_⟩
    · intro hrow c' custodian' id' left' n' hexecution'
      cases Option.some.inj (hexecution.symm.trans hexecution')
      exact hrow
    · intro hrow
      exact hrow c custodian id left n hexecution
  · have hkept : OneCollection s' := by
      intro id c c' hc hc'
      exact hgood id c c' (haside.claimed_iff.mp hc) (haside.claimed_iff.mp hc')
    refine iff_of_true hkept ?_
    cases e with
    | claim i => exact absurd rfl (hne i)
    | _ => trivial

/-- **A container belongs to one collection** throughout exactly the runs in which whatever is
claimed has not been claimed by another collection since it was read. -/
theorem oneCollection_iff {es : List (Event Id)} {t : State Id}
    (h : Transition.run step State.empty es = some t) :
    Transition.Throughout step OneCollection State.empty es ↔
      Transition.Always step StillUnclaimed State.empty es :=
  Transition.throughout_iff_always (fun _ _ _ => sound_step)
    (fun _ _ _ => oneCollection_step) sound_empty oneCollection_empty h

end Proofs

/-! ### Two collections of one container -/

/-- A container, and a collection that names it. -/
def mailbox : Evidence ℕ := ⟨7, true, true, none⟩

def named (idempotencyKey : String) : UploadCollection ℕ :=
  ⟨js idempotencyKey, [7], some (js "custodian"), .created⟩

/-- Two collections are created, both of the container that nobody has claimed yet. -/
def bothCreated : List (Event ℕ) :=
  [.insert mailbox, .create (named "a"), .create (named "b"), .readBatch 0, .readBatch 1,
    .commitCreate 0, .commitCreate 1, .look 0, .start 0, .look 1, .start 1]

/-- Both discover jobs read it before either claims it. -/
def readTogether : List (Event ℕ) :=
  bothCreated ++ ([.read 0, .read 1, .claim 0, .claim 1, .finish 0, .finish 1] : List (Event ℕ))

/-- One reads it when the other has claimed it. -/
def readAfterwards : List (Event ℕ) :=
  bothCreated ++ ([.read 0, .claim 0, .read 1, .finish 0, .finish 1] : List (Event ℕ))

/-- **The container belongs to both collections.** -/
theorem readTogether_claimedTwice :
    ∃ t, Transition.run step State.empty readTogether = some t ∧ ¬ OneCollection t := by
  have hrun : (Transition.run step State.empty readTogether).map (fun t => (t.items, t.extracts)) =
      some ([⟨0, js "custodian", 7, .preserved⟩, ⟨1, js "custodian", 7, .preserved⟩],
        [(0, 7), (1, 7)]) := by
    decide +kernel
  obtain ⟨t, ht, heq⟩ := Option.map_eq_some_iff.mp hrun
  obtain ⟨hitems, hextracts⟩ := Prod.mk.inj heq
  refine ⟨t, ht, fun hone => ?_⟩
  have hclaimed : Claimed t 0 7 := ⟨⟨js "custodian", by simp [hitems]⟩, by simp [hextracts]⟩
  have hclaimed' : Claimed t 1 7 := ⟨⟨js "custodian", by simp [hitems]⟩, by simp [hextracts]⟩
  exact absurd (hone 7 0 1 hclaimed hclaimed') (by decide)

/-- With the readings apart it belongs to the first. -/
theorem readAfterwards_oneCollection : Transition.Throughout step OneCollection State.empty
    readAfterwards := by
  have hrun : (Transition.run step State.empty readAfterwards).isSome := by decide +kernel
  obtain ⟨t, ht⟩ := Option.isSome_iff_exists.mp hrun
  refine (oneCollection_iff ht).mpr ?_
  have hearlier : Transition.Always step StillUnclaimed State.empty (bothCreated ++ [.read 0]) := by
    refine Transition.Always.of_forall_mem ?_
    simp [bothCreated, StillUnclaimed]
  have hsplit : readAfterwards = (bothCreated ++ [.read 0]) ++
      (.claim 0 :: [.read 1, .finish 0, .finish 1]) := rfl
  rw [hsplit, Transition.Always.append]
  refine ⟨hearlier, fun middle hmiddle => ⟨?_, fun next _ => ?_⟩⟩
  · have hevidence : (Transition.run step State.empty (bothCreated ++ [.read 0])).map
        State.evidence = some [mailbox] := by
      decide +kernel
    rw [hmiddle, Option.map_some] at hevidence
    intro c custodian id left n _ row hrow _
    rw [Option.some.inj hevidence, List.mem_singleton] at hrow
    rw [hrow]
    exact .inl rfl
  · refine Transition.Always.of_forall_mem ?_
    simp [StillUnclaimed]

end AegCloudDfir.Collection.Uploads
