import Mathlib
import AegCloudDfir.Lib.Places
import AegCloudDfir.Lib.Transition
import AegCloudDfir.Search.Document

/-!
# From the rows of an item to its document

`processSearchIndex` reads the rows of an item in one transaction, loads its texts, overwrites the
whole document, and sets the status of the item in another transaction. `addCaseToCollection`
(`packages/search/src/adapter.ts`) appends one case to the documents its search finds, and skips
those that have another version by the time it writes. No write says which rows it was made from.

One item is followed here, with its rows, its document and every job about it. The objects with
its texts are written once; what an attempt gets of them is up to the attempt.

* `Change` — the changes to the rows, and what each enqueues.
* `Owed` — no job is left that will read the rows, and the document is that of the rows up to cases
  that are about to be appended: `owed_step` keeps it under `Calm`, a condition on each step.
* `converges` — so in a run under that condition, an item without jobs has the document of its rows.
-/

namespace AegCloudDfir.Search.Convergence

open Transition Places
open Production (EvidenceKind ProcessingStatus)

/-! ## Documents -/

/-- The cases of a document. -/
def cases (doc : EvidenceSearchDoc) : List JsString := doc.caseIds.getD []

/-- The documents agree, apart from their cases and the time at which they were made. -/
def AllButCases (d e : EvidenceSearchDoc) : Prop :=
  { d with caseIds := none, indexedAt := [] } = { e with caseIds := none, indexedAt := [] }

instance (d e : EvidenceSearchDoc) : Decidable (AllButCases d e) := decEq _ _

/-- The documents agree, apart from the time at which they were made and the order of the cases. -/
def SameDoc (d e : EvidenceSearchDoc) : Prop := AllButCases d e ∧ ∀ c, c ∈ cases d ↔ c ∈ cases e

/-- What the script of `addCaseToCollection` makes of a document. -/
def addCase (caseId : JsString) (doc : EvidenceSearchDoc) : EvidenceSearchDoc :=
  { doc with caseIds := some (addTo (cases doc) caseId) }

@[simp] theorem mem_cases_addCase {a caseId : JsString} {doc : EvidenceSearchDoc} :
    a ∈ cases (addCase caseId doc) ↔ a ∈ cases doc ∨ a = caseId := mem_addTo

theorem AllButCases.addCase {d e : EvidenceSearchDoc} (h : AllButCases d e) (caseId : JsString) :
    AllButCases (addCase caseId d) e := h

instance (d e : EvidenceSearchDoc) : Decidable (SameDoc d e) :=
  decidable_of_iff (AllButCases d e ∧ (∀ c ∈ cases d, c ∈ cases e) ∧ ∀ c ∈ cases e, c ∈ cases d)
    (and_congr_right fun _ => forall_and.symm.trans (forall_congr' fun _ => iff_def.symm))

theorem SameDoc.privileged {d e : EvidenceSearchDoc} (h : SameDoc d e) :
    d.privileged = e.privileged := by
  have hall := h.1
  unfold AllButCases at hall
  have hprivileged := congrArg EvidenceSearchDoc.privileged hall
  exact hprivileged

/-! ## Jobs and changes -/

/-- A job about the item, by how far it has come. -/
inductive Job : Type where
  /-- a `search.index` job that has to read -/
  | index
  /-- it has read these rows -/
  | indexing (rows : ItemRows)
  /-- it has written their document -/
  | written (rows : ItemRows)
  /-- a `search.case-collection` job that has to search -/
  | stamp (caseId collectionId : JsString)
  /-- it has found the document, in this version -/
  | stamping (caseId collectionId : JsString) (seen : ℕ)
  | done
  deriving DecidableEq

namespace Job

/-- The document is still to be written. -/
def Indexes : Job → Prop
  | .index | .indexing _ => True
  | _ => False

/-- The case is still to be appended. -/
def Stamps (c : JsString) : Job → Prop
  | .stamp caseId _ | .stamping caseId _ _ => caseId = c
  | _ => False

instance (j : Job) : Decidable j.Indexes := by
  cases j <;> unfold Indexes <;> infer_instance

instance (c : JsString) (j : Job) : Decidable (j.Stamps c) := by
  cases j <;> unfold Stamps <;> infer_instance

/-- The rows a job has read and not written. -/
def reads? : Job → Option ItemRows
  | .indexing rows => some rows
  | _ => none

/-- The rows a job has written. -/
def wrote? : Job → Option ItemRows
  | .written rows => some rows
  | _ => none

/-- The case a job is about to append, and the version of the document it has found. -/
def stamping? : Job → Option (JsString × ℕ)
  | .stamping caseId _ seen => some (caseId, seen)
  | _ => none

/-- The job from its start, when it is attempted again. -/
def restart : Job → Job
  | .index | .indexing _ | .written _ => .index
  | .stamp caseId collectionId | .stamping caseId collectionId _ => .stamp caseId collectionId
  | .done => .done

end Job

/-- A change to the rows that was committed. -/
inductive Change : Type where
  /-- by a stage of the pipeline, which enqueues under a key -/
  | staged (dedupKey : JsString) (rows : ItemRows)
  /-- by a reviewer (`enqueueReindex`, with a key of its own) -/
  | reviewed (rows : ItemRows)
  /-- the collection of the item joins a case -/
  | filed (caseId collectionId : JsString)
  /-- the item is produced -/
  | produced (bates : BatesRecord)
  /-- a tag is edited or deleted (`TagsService.update`, `TagsService.remove`) -/
  | retagged (tags : List TagRow)

/-- What there is about the item. -/
structure State where
  item : ItemRows
  doc : Option EvidenceSearchDoc
  /-- how often the document was written -/
  version : ℕ
  jobs : List Job
  /-- the keys of the pipeline that are in the outbox -/
  sent : List JsString

/-- The script of `addCaseToCollection` is run on the document. -/
def State.append (s : State) (caseId : JsString) : State :=
  match s.doc with
  | some doc =>
    if caseId ∈ cases doc then s
    else { s with doc := some (addCase caseId doc), version := s.version + 1 }
  | none => s

/-- The rows after a change. -/
def Change.rows (item : ItemRows) : Change → ItemRows
  | .staged _ rows | .reviewed rows => rows
  | .filed caseId _ => { item with caseItems := addTo item.caseItems caseId }
  | .produced bates => { item with productionItems := item.productionItems ++ [bates] }
  | .retagged tags => { item with tags := tags }

/-- The job that a change enqueues. -/
def Change.job? (sent : List JsString) : Change → Option Job
  | .staged dedupKey _ => if dedupKey ∈ sent then none else some .index
  | .reviewed _ => some .index
  | .filed caseId collectionId => some (.stamp caseId collectionId)
  | .produced _ | .retagged _ => none

/-- The keys in the outbox after a change. -/
def Change.keys (sent : List JsString) : Change → List JsString
  | .staged dedupKey _ => addTo sent dedupKey
  | _ => sent

/-- What can happen next. -/
inductive Event : Type where
  | commit (change : Change)
  /-- the first transaction of `processSearchIndex` -/
  | read (i : ℕ)
  /-- `indexBulk`, with the texts that the attempt got -/
  | wrote (i : ℕ) (now : ℤ) (fetched : JsString → ℕ → Option JsString)
  /-- `indexBulk` reports an error -/
  | rejected (i : ℕ)
  /-- the last transaction of `processSearchIndex` -/
  | finished (i : ℕ)
  /-- the search of `updateByQuery`, and the version of the document it finds -/
  | searched (i : ℕ) (seen : Option ℕ)
  /-- the update of `updateByQuery` -/
  | stamped (i : ℕ)
  /-- an attempt fails -/
  | retried (i : ℕ)
  /-- a job is delivered a second time -/
  | redelivered (i : ℕ)
  /-- the last attempt fails -/
  | died (i : ℕ)

/-- `indexableFrom` -/
def indexableFrom (kind : EvidenceKind) : List ProcessingStatus :=
  if kind = .auditBatch then [.pending, .parsed, .extracted, .ocrComplete, .previewReady]
  else [.parsed, .extracted, .ocrComplete, .previewReady]

/-- The rows after the last transaction of a job. -/
def markIndexed (kind : EvidenceKind) (item : ItemRows) : ItemRows :=
  if item.processingStatus ∈ indexableFrom kind then { item with processingStatus := .indexed }
  else item

variable (tenantId : JsString)

/-- The search of `updateByQuery` can find this version of the document. The index may show its
searches an older one, or none. -/
def Finds (s : State) (collectionId : JsString) (seen : ℕ) : Prop :=
  ∃ doc ∈ s.doc, seen ≤ s.version ∧
    (seen = s.version → doc.tenantId = tenantId ∧ doc.collectionId = some collectionId)

instance (s : State) (collectionId : JsString) (seen : ℕ) :
    Decidable (Finds tenantId s collectionId seen) := by
  unfold Finds
  infer_instance

/-- The state after an event. -/
def step (s : State) : Event → Option State
  | .commit change =>
    some { s with
      item := change.rows s.item
      jobs := s.jobs ++ (change.job? s.sent).toList
      sent := change.keys s.sent }
  | .read i =>
    match s.jobs[i]? with
    | some .index => some { s with jobs := s.jobs.set i (.indexing s.item) }
    | _ => none
  | .wrote i now fetched =>
    match s.jobs[i]? with
    | some (.indexing rows) =>
      some { s with
        doc := some (itemDoc fetched tenantId now rows)
        version := s.version + 1
        jobs := s.jobs.set i (.written rows) }
    | _ => none
  | .rejected i =>
    match s.jobs[i]? with
    | some (.indexing _) => some { s with jobs := s.jobs.set i .done }
    | _ => none
  | .finished i =>
    match s.jobs[i]? with
    | some (.written rows) =>
      some { s with item := markIndexed rows.kind s.item, jobs := s.jobs.set i .done }
    | _ => none
  | .searched i seen =>
    match s.jobs[i]?, seen with
    | some (.stamp _ _), none => some { s with jobs := s.jobs.set i .done }
    | some (.stamp caseId collectionId), some v =>
      if Finds tenantId s collectionId v then
        some { s with jobs := s.jobs.set i (.stamping caseId collectionId v) }
      else none
    | _, _ => none
  | .stamped i =>
    match s.jobs[i]? with
    | some (.stamping caseId _ seen) =>
      if seen = s.version then some { s.append caseId with jobs := s.jobs.set i .done }
      else some { s with jobs := s.jobs.set i .done }
    | _ => none
  | .retried i =>
    match s.jobs[i]? with
    | some j => some { s with jobs := s.jobs.set i j.restart }
    | none => none
  | .redelivered i =>
    match s.jobs[i]? with
    | some j => some { s with jobs := s.jobs ++ [j.restart] }
    | none => none
  | .died i => if i < s.jobs.length then some { s with jobs := s.jobs.set i .done } else none

/-- An item with its first `search.index` job. -/
def start (item : ItemRows) : State := ⟨item, none, 0, [.index], []⟩

/-- No job remains. -/
def Idle (s : State) : Prop := ∀ j ∈ s.jobs, j = .done

instance (s : State) : Decidable (Idle s) := by
  unfold Idle
  infer_instance

variable (fetch : JsString → ℕ → Option JsString)

/-- The document of some rows, but for the time. -/
def docOf (item : ItemRows) : EvidenceSearchDoc := itemDoc fetch tenantId 0 item

/-- The index has the document of the rows. -/
def Converged (s : State) : Prop :=
  ∃ doc ∈ s.doc, SameDoc doc (docOf tenantId fetch s.item)

instance (s : State) : Decidable (Converged tenantId fetch s) := by
  unfold Converged
  infer_instance

/-! ## What is owed -/

/-- The document is still to be written. -/
def Reindexing (jobs : List Job) : Prop := ∃ j ∈ jobs, j.Indexes

/-- The document is that of the rows, up to cases that are still to be appended. -/
def UpToDate (s : State) : Prop :=
  ∃ doc ∈ s.doc, AllButCases doc (docOf tenantId fetch s.item) ∧
    (∀ c ∈ cases doc, c ∈ s.item.caseItems) ∧
    ∀ c ∈ s.item.caseItems, c ∈ cases doc ∨ ∃ j ∈ s.jobs, j.Stamps c

/-- The document is that of the rows, or a job will see to it. -/
def Owed (s : State) : Prop := Reindexing s.jobs ∨ UpToDate tenantId fetch s

instance (jobs : List Job) : Decidable (Reindexing jobs) := by
  unfold Reindexing
  infer_instance

instance (s : State) : Decidable (UpToDate tenantId fetch s) := by
  unfold UpToDate
  infer_instance

theorem mem_cases_docOf {item : ItemRows} {c : JsString} :
    c ∈ cases (docOf tenantId fetch item) ↔ c ∈ item.caseItems := by
  have h : cases (docOf tenantId fetch item) = distinct item.caseItems := by
    change (ifAny (distinct item.caseItems)).getD [] = _
    cases hd : distinct item.caseItems <;> rfl
  rw [h]
  exact mem_distinct

/-- With no job left, nothing is owed. -/
theorem Owed.converged {s : State} (h : Owed tenantId fetch s) (hidle : Idle s) :
    Converged tenantId fetch s := by
  rcases h with ⟨j, hj, hindexes⟩ | ⟨doc, hdoc, hall, hsub, hcov⟩
  · rw [hidle j hj] at hindexes
    exact hindexes.elim
  · refine ⟨doc, hdoc, hall, fun c => ?_⟩
    rw [mem_cases_docOf]
    refine ⟨hsub c, fun hc => (hcov c hc).resolve_right ?_⟩
    rintro ⟨j, hj, hstamps⟩
    rw [hidle j hj] at hstamps
    exact hstamps

/-! ## One step -/

/-- The step leaves a job that will write the document, or does no harm itself:

* a change enqueues a job, or the document of the rows is the same;
* the last job that writes has read rows with the document of the current ones, up to cases that
  are still to be appended;
* the last transaction of a job leaves the status alone;
* a stamp finds the document and is not overtaken, and the item is in the case;
* a job that ends otherwise leaves nothing undone. -/
def Calm (s : State) : Event → Prop
  | .commit change =>
    (change.job? s.sent).isSome ∨ Reindexing s.jobs ∨
      SameDoc (docOf tenantId fetch (change.rows s.item)) (docOf tenantId fetch s.item)
  | .wrote i now fetched =>
    Reindexing (s.jobs.set i .done) ∨
      ∀ rows ∈ s.jobs[i]?.bind Job.reads?,
        UpToDate tenantId fetch { s with doc := some (itemDoc fetched tenantId now rows) }
  | .finished i =>
    Reindexing s.jobs ∨
      ∀ rows ∈ s.jobs[i]?.bind Job.wrote?, markIndexed rows.kind s.item = s.item
  | .stamped i =>
    Reindexing s.jobs ∨
      ∀ found ∈ s.jobs[i]?.bind Job.stamping?,
        if found.2 = s.version then found.1 ∈ s.item.caseItems
        else UpToDate tenantId fetch { s with jobs := s.jobs.set i .done }
  | .searched i none | .rejected i | .died i =>
    Reindexing (s.jobs.set i .done) ∨ UpToDate tenantId fetch { s with jobs := s.jobs.set i .done }
  | .read _ | .searched _ (some _) | .retried _ | .redelivered _ => True

instance (s : State) : (e : Event) → Decidable (Calm tenantId fetch s e)
  | .commit change => inferInstanceAs <| Decidable
      ((change.job? s.sent).isSome ∨ Reindexing s.jobs ∨
        SameDoc (docOf tenantId fetch (change.rows s.item)) (docOf tenantId fetch s.item))
  | .wrote i now fetched => inferInstanceAs <| Decidable
      (Reindexing (s.jobs.set i .done) ∨ ∀ rows ∈ s.jobs[i]?.bind Job.reads?,
        UpToDate tenantId fetch { s with doc := some (itemDoc fetched tenantId now rows) })
  | .finished i => inferInstanceAs <| Decidable
      (Reindexing s.jobs ∨
        ∀ rows ∈ s.jobs[i]?.bind Job.wrote?, markIndexed rows.kind s.item = s.item)
  | .stamped i => inferInstanceAs <| Decidable
      (Reindexing s.jobs ∨ ∀ found ∈ s.jobs[i]?.bind Job.stamping?,
        if found.2 = s.version then found.1 ∈ s.item.caseItems
        else UpToDate tenantId fetch { s with jobs := s.jobs.set i .done })
  | .searched i none | .rejected i | .died i => inferInstanceAs <| Decidable
      (Reindexing (s.jobs.set i .done) ∨
        UpToDate tenantId fetch { s with jobs := s.jobs.set i .done })
  | .read _ | .searched _ (some _) | .retried _ | .redelivered _ => isTrue trivial

/-- What writes besides a job goes on writing, whatever becomes of that job. -/
theorem Reindexing.set {jobs : List Job} {i : ℕ} (h : Reindexing (jobs.set i .done)) (j' : Job) :
    Reindexing (jobs.set i j') := exists_mem_set_of_set (fun hdone => hdone) h j'

variable {tenantId fetch}

/-- As long as no stamp is lost, the jobs do not matter. -/
theorem UpToDate.jobs {s : State} (h : UpToDate tenantId fetch s) {jobs : List Job}
    (hjobs : ∀ c, (∃ j ∈ s.jobs, j.Stamps c) → ∃ j ∈ jobs, j.Stamps c) :
    UpToDate tenantId fetch { s with jobs := jobs } := by
  obtain ⟨doc, hdoc, hall, hsub, hcov⟩ := h
  exact ⟨doc, hdoc, hall, hsub, fun c hc => (hcov c hc).imp_right (hjobs c)⟩

/-- The document of some rows, whatever else the state is about. -/
theorem UpToDate.of_sameDoc {s t : State} (h : UpToDate tenantId fetch s) (hdoc : t.doc = s.doc)
    (hjobs : ∀ c, (∃ j ∈ s.jobs, j.Stamps c) → ∃ j ∈ t.jobs, j.Stamps c)
    (hsame : SameDoc (docOf tenantId fetch t.item) (docOf tenantId fetch s.item)) :
    UpToDate tenantId fetch t := by
  obtain ⟨doc, hd, hall, hsub, hcov⟩ := h
  have hcases : ∀ c, c ∈ t.item.caseItems ↔ c ∈ s.item.caseItems := by
    intro c
    rw [← mem_cases_docOf tenantId fetch, ← mem_cases_docOf tenantId fetch]
    exact hsame.2 c
  refine ⟨doc, by rwa [hdoc], ?_, fun c hc => (hcases c).mpr (hsub c hc), fun c hc => ?_⟩
  · unfold AllButCases at hall ⊢
    rw [hall]
    exact hsame.1.symm
  · exact (hcov c ((hcases c).mp hc)).imp_right (hjobs c)

/-- A job that stays as good as it was changes nothing. -/
theorem Owed.set {s : State} (h : Owed tenantId fetch s) {i : ℕ} {j j' : Job}
    (hi : s.jobs[i]? = some j) (hindexes : j.Indexes → j'.Indexes)
    (hstamps : ∀ c, j.Stamps c → j'.Stamps c) :
    Owed tenantId fetch { s with jobs := s.jobs.set i j' } := by
  rcases h with h | h
  · exact Or.inl (exists_mem_set hi hindexes h)
  · exact Or.inr (h.jobs fun c => exists_mem_set hi (hstamps c))

/-- A case is appended, and its stamp is done. -/
theorem UpToDate.append {s : State} (h : UpToDate tenantId fetch s) {i : ℕ}
    {caseId collectionId : JsString} {seen : ℕ}
    (hi : s.jobs[i]? = some (.stamping caseId collectionId seen))
    (hcase : caseId ∈ s.item.caseItems) :
    UpToDate tenantId fetch { s.append caseId with jobs := s.jobs.set i .done } := by
  obtain ⟨doc, hdoc, hall, hsub, hcov⟩ := h
  have hdoc' : s.doc = some doc := hdoc
  -- a stamp of another case is another job
  have hother : ∀ c, c ≠ caseId → (∃ j ∈ s.jobs, j.Stamps c) →
      ∃ j ∈ s.jobs.set i .done, j.Stamps c := by
    intro c hc
    refine exists_mem_set hi fun hstamps => hc ?_
    exact Eq.symm hstamps
  by_cases hmem : caseId ∈ cases doc
  · refine ⟨doc, ?_, ?_, ?_, fun c hc => ?_⟩
    · simp [State.append, hdoc', hmem]
    · simpa [State.append, hdoc', hmem] using hall
    · simpa [State.append, hdoc', hmem] using hsub
    · by_cases hcc : c = caseId
      · exact Or.inl (hcc ▸ hmem)
      · have hc' : c ∈ s.item.caseItems := by simpa [State.append, hdoc', hmem] using hc
        exact (hcov c hc').imp_right (hother c hcc)
  · refine ⟨addCase caseId doc, ?_, ?_, ?_, fun c hc => ?_⟩
    · simp [State.append, hdoc', hmem]
    · simpa [State.append, hdoc', hmem] using hall.addCase caseId
    · intro c hc
      have hitem : ({ s.append caseId with jobs := s.jobs.set i .done } : State).item = s.item := by
        simp [State.append, hdoc', hmem]
      rw [hitem]
      rcases mem_cases_addCase.mp hc with hc | rfl
      · exact hsub c hc
      · exact hcase
    · have hc' : c ∈ s.item.caseItems := by simpa [State.append, hdoc', hmem] using hc
      by_cases hcc : c = caseId
      · exact Or.inl (mem_cases_addCase.mpr (Or.inr hcc))
      · rcases hcov c hc' with hc | hc
        · exact Or.inl (mem_cases_addCase.mpr (Or.inl hc))
        · exact Or.inr (hother c hcc hc)

theorem owed_commit {s : State} {change : Change} (h : Owed tenantId fetch s)
    (hcalm : Calm tenantId fetch s (.commit change)) :
    Owed tenantId fetch { s with
      item := change.rows s.item
      jobs := s.jobs ++ (change.job? s.sent).toList
      sent := change.keys s.sent } := by
  rcases hcalm with henqueues | hindexes | hsame
  · -- a `search.index` job is enqueued, or a stamp for the one case that is new
    have hindex : change.job? s.sent = some .index →
        Reindexing (s.jobs ++ (change.job? s.sent).toList) := by
      intro hjob
      exact ⟨.index, by simp [hjob], trivial⟩
    cases change with
    | staged dedupKey rows =>
      refine Or.inl (hindex ?_)
      by_cases hsent : dedupKey ∈ s.sent <;> simp_all [Change.job?]
    | reviewed rows => exact Or.inl (hindex rfl)
    | filed caseId collectionId =>
      rcases h with h | ⟨doc, hdoc, hall, hsub, hcov⟩
      · exact Or.inl (exists_mem_append h _)
      · refine Or.inr ⟨doc, hdoc, hall, fun c hc => mem_addTo.mpr (Or.inl (hsub c hc)), ?_⟩
        intro c hc
        rcases mem_addTo.mp hc with hc | rfl
        · exact (hcov c hc).imp_right fun hstamp => exists_mem_append hstamp _
        · refine Or.inr ⟨.stamp c collectionId, ?_, rfl⟩
          exact List.mem_append_right s.jobs (List.mem_singleton.mpr rfl)
    | produced bates => cases henqueues
    | retagged tags => cases henqueues
  · exact Or.inl (exists_mem_append hindexes _)
  · rcases h with h | h
    · exact Or.inl (exists_mem_append h _)
    · exact Or.inr (h.of_sameDoc rfl (fun _ hstamp => exists_mem_append hstamp _) hsame)

/-- **What every step keeps if it is calm.** -/
theorem owed_step {s s' : State} {e : Event} (h : Owed tenantId fetch s)
    (hcalm : Calm tenantId fetch s e) (hstep : step tenantId s e = some s') :
    Owed tenantId fetch s' := by
  cases e with
  | commit change =>
    obtain rfl := Option.some.inj hstep
    exact owed_commit h hcalm
  | read i =>
    simp only [step] at hstep
    split at hstep
    · next hi =>
      obtain rfl := Option.some.inj hstep
      exact h.set hi (fun _ => trivial) (fun _ => False.elim)
    · cases hstep
  | wrote i now fetched =>
    simp only [step] at hstep
    split at hstep
    · next rows hi =>
      obtain rfl := Option.some.inj hstep
      rcases hcalm with hindexes | hrows
      · exact Or.inl (hindexes.set _)
      · refine Or.inr ((hrows rows (by rw [hi]; rfl)).jobs fun c => ?_)
        exact exists_mem_set hi False.elim
    · cases hstep
  | rejected i | died i =>
    simp only [step] at hstep
    split at hstep
    · obtain rfl := Option.some.inj hstep
      exact hcalm
    · cases hstep
  | finished i =>
    simp only [step] at hstep
    split at hstep
    · next rows hi =>
      obtain rfl := Option.some.inj hstep
      rcases hcalm with hindexes | hstatus
      · exact Or.inl (exists_mem_set hi False.elim hindexes)
      · rw [hstatus rows (by rw [hi]; rfl)]
        exact h.set hi False.elim fun _ => False.elim
    · cases hstep
  | searched i seen =>
    simp only [step] at hstep
    split at hstep
    · obtain rfl := Option.some.inj hstep
      exact hcalm
    · next caseId collectionId v hi =>
      split at hstep
      · obtain rfl := Option.some.inj hstep
        exact h.set hi id fun _ => id
      · cases hstep
    · cases hstep
  | stamped i =>
    simp only [step] at hstep
    split at hstep
    · next caseId collectionId seen hi =>
      rcases hcalm with hindexes | hfound
      · have hindexes' : Reindexing (s.jobs.set i .done) := exists_mem_set hi False.elim hindexes
        split at hstep <;> obtain rfl := Option.some.inj hstep <;> exact Or.inl hindexes'
      · have hseen := hfound (caseId, seen) (by rw [hi]; rfl)
        split at hstep
        · next hversion =>
          obtain rfl := Option.some.inj hstep
          rw [if_pos hversion] at hseen
          rcases h with h | h
          · exact Or.inl (exists_mem_set hi False.elim h)
          · exact Or.inr (h.append hi hseen)
        · next hversion =>
          obtain rfl := Option.some.inj hstep
          rw [if_neg hversion] at hseen
          exact Or.inr hseen
    · cases hstep
  | retried i =>
    simp only [step] at hstep
    split at hstep
    · next j hi =>
      obtain rfl := Option.some.inj hstep
      refine h.set hi ?_ ?_
      · cases j <;> simp [Job.Indexes, Job.restart]
      · cases j <;> simp [Job.Stamps, Job.restart]
    · cases hstep
  | redelivered i =>
    simp only [step] at hstep
    split at hstep
    · obtain rfl := Option.some.inj hstep
      exact h.imp (fun h => exists_mem_append h _) fun h =>
        h.jobs fun _ hstamp => exists_mem_append hstamp _
    · cases hstep

/-! ## Runs -/

theorem owed_run {item : ItemRows} {t : State} {es : List Event}
    (hcalm : Always (step tenantId) (Calm tenantId fetch) (start item) es)
    (hrun : run (step tenantId) (start item) es = some t) : Owed tenantId fetch t := by
  refine Always.run_induction (fun s e s' h hcalm hstep => owed_step h hcalm hstep) ?_ hcalm hrun
  exact Or.inl ⟨.index, List.mem_singleton.mpr rfl, trivial⟩

/-- **In a run whose steps are all calm, an item without jobs has the document of its rows**, with
their cases, their tags and their privileged flag. -/
theorem converges {item : ItemRows} {t : State} {es : List Event}
    (hcalm : Always (step tenantId) (Calm tenantId fetch) (start item) es)
    (hrun : run (step tenantId) (start item) es = some t) (hidle : Idle t) :
    Converged tenantId fetch t :=
  (owed_run hcalm hrun).converged tenantId fetch hidle

/-- Without a text in the store. -/
def noTexts (_ : JsString) (_ : ℕ) : Option JsString := none

/-- A file of a collection that waits for its scan. -/
def waitingFile : ItemRows where
  id := js "e1"
  kind := .file
  name := js "memo.docx"
  extension := js "docx"
  mimeType := js "application/msword"
  size := 512
  sha256 := js "ab12"
  custodianId := none
  custodianEmail := none
  provider := none
  collectionId := some (js "k1")
  importId := none
  importOwnerId := none
  sourcePath := js "/memos"
  sourceLabels := []
  processingStatus := .pending
  malwareStatus := .notScanned
  primaryDate := none
  acquiredAt := 0
  sourceCreatedAt := none
  sourceModifiedAt := none
  emailMetadata := none
  participants := []
  headers := []
  extractedTexts := []
  ocrPages := []
  tags := []
  caseItems := []
  productionItems := []
  childRelationships := []
  parentRelationships := []
  auditRecords := []

/-- The file after a reviewer has tagged it. -/
def taggedFile : ItemRows :=
  { waitingFile with tags := [⟨js "g1", js "Privileged", true, false⟩] }

/-- The collection joins a case while the file is indexed for the first time; then the file is
tagged, and the first attempt to index it fails. -/
def quietEvents : List Event :=
  [.read 0, .commit (.filed (js "c1") (js "k1")), .wrote 0 0 noTexts, .searched 1 (some 1),
    .stamped 1, .finished 0,
    .commit (.reviewed { taggedFile with caseItems := [js "c1"] }), .read 2, .retried 2, .read 2,
    .wrote 2 1 noTexts, .finished 2]

/-- The file is tagged while it is indexed, and the second job is faster. -/
def overtakenEvents : List Event :=
  [.read 0, .commit (.reviewed taggedFile), .read 1, .wrote 1 0 noTexts, .finished 1,
    .wrote 0 1 noTexts, .finished 0]

/-- A run with a stamp and a failure, in which all steps are calm. -/
theorem quiet_converges :
    ∃ t, run (step (js "t1")) (start waitingFile) quietEvents = some t ∧
      Converged (js "t1") noTexts t := by
  have hcalm : Always (step (js "t1")) (Calm (js "t1") noTexts) (start waitingFile) quietEvents := by
    decide +kernel
  exact ⟨_, rfl, converges hcalm rfl (by decide +kernel)⟩

/-- The index says that a privileged file is not. -/
theorem overtaken_not_converged :
    ¬ ∀ (es : List Event) (t : State), run (step (js "t1")) (start waitingFile) es = some t →
      Idle t → Converged (js "t1") noTexts t := by
  intro h
  obtain ⟨doc, hdoc, hsame⟩ := h overtakenEvents _ rfl (by decide +kernel)
  cases hdoc
  have hprivileged := hsame.privileged
  revert hprivileged
  decide +kernel

end AegCloudDfir.Search.Convergence
