import AegCloudDfir.Js.Collections
import AegCloudDfir.Lib.Places
import AegCloudDfir.Lib.Transition

/-!
# Imports in cases

`ImportsService.attach` adds the items of an import to a case, page by page, and `persistPayload`
(`apps/worker/src/processors/import-analyze.ts`) adds a new item to the cases its import is attached
to. Each is a transaction, and sees what is committed when its statement runs. `processSearchIndex`
writes the document of an item with the cases it has read, and `addCaseToImport`
(`packages/search/src/adapter.ts`) appends one case to the documents its search finds, skipping
those that have another version by the time it writes.

What the items and documents say besides is left out, and who may attach.

* `step` — the transactions and jobs about one import.
* `Whole` — every item is in every attached case, and its document says so.
* `Good` — what is not so yet is on its way; `good_step_iff`: a step keeps that exactly if it is
  `Clear`.
* `whole_of_clear` — so an import is whole in the end, if all steps are clear.
-/

namespace AegCloudDfir.Search.CaseImport

open Transition

variable {Id C : Type}

/-! ## Rows, documents and jobs -/

/-- A document: its cases, and how often it was written. -/
structure Doc (C : Type) where
  caseIds : List C
  version : ℕ
  deriving DecidableEq

/-- A transaction or a job, by how far it has come. -/
inductive Job (Id C : Type) : Type where
  /-- `attach`, in its loop. `start` are the items that were there when it began. -/
  | attaching (caseId : C) (start : List Id) (cursor : Option Id) (listed : List Id)
  /-- the loop is over -/
  | attached (caseId : C) (start listed : List Id)
  /-- `persistPayload`, with the row of its item -/
  | creating (id : Id)
  /-- it has listed the cases the import is attached to -/
  | created (id : Id) (caseIds : List C)
  /-- a `search.index` job that has to read -/
  | index (id : Id)
  | indexing (id : Id) (caseIds : List C)
  /-- a `search.case-import` job that has to search -/
  | stamp (caseId : C)
  /-- it has found these documents, in these versions -/
  | stamping (caseId : C) (found : List (Id × ℕ))
  | done
  deriving DecidableEq

/-- What there is about an import. -/
structure State (Id C : Type) where
  /-- the rows of `evidence_items` -/
  items : List Id
  /-- the rows of `import_cases` -/
  importCases : List C
  caseItems : List (C × Id)
  docs : Id → Option (Doc C)
  jobs : List (Job Id C)

/-- What can happen next. -/
inductive Event (Id C : Type) : Type where
  | attach (caseId : C)
  /-- the transaction of `persistPayload` begins -/
  | unpack (id : Id)
  /-- a `search.index` job is enqueued -/
  | enqueue (id : Id)
  /-- a transaction or a job makes its next step. A search finds these documents. -/
  | next (i : ℕ) (seen : List (Id × ℕ))
  /-- a transaction is rolled back -/
  | rollback (i : ℕ)
  /-- a job is attempted again -/
  | retry (i : ℕ)

/-- `ATTACH_PAGE` -/
def attachPage : ℕ := 1000

section Steps

variable [LinearOrder Id] [DecidableEq C] (s : State Id C)

/-- The items behind the cursor, in order, as many as fit a page. -/
def page (items : List Id) (cursor : Option Id) : List Id :=
  ((items.filter fun id => ∀ k ∈ cursor, k < id).insertionSort (· ≤ ·)).take attachPage

/-- A job becomes another. -/
def State.setJob (i : ℕ) (job : Job Id C) : State Id C := { s with jobs := s.jobs.set i job }

/-- The cases of an item, as `processSearchIndex` reads them. -/
def State.casesOf (id : Id) : List C :=
  (s.caseItems.filterMap fun row => if row.2 = id then some row.1 else none).dedup

/-- A round of the loop of `attach`. -/
def nextPage (i : ℕ) (caseId : C) (start : List Id) (cursor : Option Id) (listed : List Id) :
    State Id C :=
  let rows := page s.items cursor
  if rows = [] then s.setJob i (.attached caseId start listed)
  else if rows.length < attachPage then s.setJob i (.attached caseId start (listed ++ rows))
  else s.setJob i (.attaching caseId start rows.getLast? (listed ++ rows))

/-- The end of `attach`. -/
def commitAttach (i : ℕ) (caseId : C) (listed : List Id) : State Id C :=
  { s with
    importCases := caseId :: s.importCases
    caseItems := s.caseItems ++ listed.map fun id => (caseId, id)
    jobs := s.jobs.set i .done ++ [.stamp caseId] }

/-- The end of `persistPayload`. Ids are unique. -/
def commitMember (i : ℕ) (id : Id) (caseIds : List C) : State Id C :=
  if id ∈ s.items then s.setJob i .done
  else { s.setJob i .done with
    items := id :: s.items
    caseItems := s.caseItems ++ caseIds.map fun caseId => (caseId, id) }

/-- A document is written. -/
def State.write (id : Id) (caseIds : List C) : State Id C :=
  let doc : Doc C := ⟨caseIds, (s.docs id).elim 1 fun doc => doc.version + 1⟩
  { s with docs := Function.update s.docs id (some doc) }

/-- The script of `addCaseToImport` is run on a document, unless its version is another. -/
def State.append (caseId : C) (id : Id) (version : ℕ) : State Id C :=
  match s.docs id with
  | some doc =>
    if doc.version ≠ version then s
    else if caseId ∈ doc.caseIds then s
    else s.write id (doc.caseIds ++ [caseId])
  | none => s

/-- The search may find a document, in this version. The index may show its searches an older one
than there is. -/
def Finds (found : Id × ℕ) : Prop := ∃ doc ∈ s.docs found.1, found.2 ≤ doc.version

instance (found : Id × ℕ) : Decidable (Finds s found) :=
  inferInstanceAs (Decidable (∃ doc ∈ s.docs found.1, _))

/-- The next step of a transaction or a job. -/
def next (i : ℕ) (seen : List (Id × ℕ)) : Job Id C → Option (State Id C)
  | .attaching caseId start cursor listed => some (nextPage s i caseId start cursor listed)
  | .attached caseId _ listed => some (commitAttach s i caseId listed)
  | .creating id => some (s.setJob i (.created id s.importCases))
  | .created id caseIds => some (commitMember s i id caseIds)
  | .index id => some (s.setJob i (.indexing id (s.casesOf id)))
  | .indexing id caseIds => some ((s.write id caseIds).setJob i .done)
  | .stamp caseId =>
    if ∀ found ∈ seen, Finds s found then some (s.setJob i (.stamping caseId seen)) else none
  | .stamping _ [] => some (s.setJob i .done)
  | .stamping caseId ((id, version) :: found) =>
    some ((s.append caseId id version).setJob i (.stamping caseId found))
  | .done => none

/-- The job is a transaction. -/
def Job.isTransaction : Job Id C → Bool
  | .attaching .. | .attached .. | .creating .. | .created .. => true
  | _ => false

/-- A job from its start. -/
def Job.restart : Job Id C → Job Id C
  | .indexing id _ => .index id
  | .stamping caseId _ => .stamp caseId
  | job => job

/-- What an event does. -/
def step : Event Id C → Option (State Id C)
  | .attach caseId => some { s with jobs := s.jobs ++ [.attaching caseId s.items none []] }
  | .unpack id => some { s with jobs := s.jobs ++ [.creating id] }
  | .enqueue id =>
    if id ∈ s.items then some { s with jobs := s.jobs ++ [.index id] } else none
  | .next i seen => s.jobs[i]?.bind (next s i seen)
  | .rollback i => (s.jobs[i]?.filter Job.isTransaction).map fun _ => s.setJob i .done
  | .retry i => s.jobs[i]?.map fun job => s.setJob i job.restart

end Steps

/-! ## What is asked for -/

section Asked

variable (s : State Id C)

/-- No transaction is under way, and all jobs have finished. -/
def Settled : Prop := ∀ job ∈ s.jobs, job = .done

/-- **Every item is in every attached case, and its document says so.** -/
structure Whole : Prop where
  rows : ∀ caseId ∈ s.importCases, ∀ id ∈ s.items, (caseId, id) ∈ s.caseItems
  docs : ∀ caseId ∈ s.importCases, ∀ id ∈ s.items, ∀ doc ∈ s.docs id, caseId ∈ doc.caseIds

/-- The job will see to it that the document says so, whatever becomes of it meanwhile. -/
def Job.Refreshes (caseId : C) (id : Id) : Job Id C → Prop
  | .index id' => id' = id
  | .indexing id' caseIds => id' = id ∧ caseId ∈ caseIds
  | .stamp caseId' => caseId' = caseId
  | _ => False

/-- The job has found the document, in this version. -/
def Job.HasFound (caseId : C) (id : Id) (version : ℕ) : Job Id C → Prop
  | .stamping caseId' found => caseId' = caseId ∧ (id, version) ∈ found
  | _ => False

/-- The job will see to it that the document says so, if the version is still this one. -/
def Job.Promises (caseId : C) (id : Id) (version : ℕ) (job : Job Id C) : Prop :=
  job.Refreshes caseId id ∨ job.HasFound caseId id version

/-- If the job is a transaction that has listed the cases, the case is among them. -/
def Job.Lists (caseId : C) : Job Id C → Prop
  | .created _ caseIds => caseId ∈ caseIds
  | _ => True

/-- **What is not so yet is on its way.** -/
structure Good : Prop where
  rows : ∀ caseId ∈ s.importCases, ∀ id ∈ s.items, (caseId, id) ∈ s.caseItems
  lists : ∀ caseId ∈ s.importCases, ∀ job ∈ s.jobs, job.Lists caseId
  docs : ∀ caseId ∈ s.importCases, ∀ id ∈ s.items, ∀ doc ∈ s.docs id,
    caseId ∈ doc.caseIds ∨ ∃ job ∈ s.jobs, job.Promises caseId id doc.version

instance (caseId : C) [DecidableEq C] : (job : Job Id C) → Decidable (job.Lists caseId)
  | .created _ caseIds => inferInstanceAs (Decidable (caseId ∈ caseIds))
  | .attaching .. | .attached .. | .creating .. | .index .. | .indexing .. | .stamp .. |
    .stamping .. | .done => .isTrue trivial

instance (caseId : C) (id : Id) [DecidableEq Id] [DecidableEq C] :
    (job : Job Id C) → Decidable (job.Refreshes caseId id)
  | .index id' => inferInstanceAs (Decidable (id' = id))
  | .indexing id' caseIds => inferInstanceAs (Decidable (id' = id ∧ caseId ∈ caseIds))
  | .stamp caseId' => inferInstanceAs (Decidable (caseId' = caseId))
  | .attaching .. | .attached .. | .creating .. | .created .. | .stamping .. | .done =>
    .isFalse fun h => h

instance (caseId : C) (id : Id) (version : ℕ) [DecidableEq Id] [DecidableEq C] :
    (job : Job Id C) → Decidable (job.HasFound caseId id version)
  | .stamping caseId' found =>
    inferInstanceAs (Decidable (caseId' = caseId ∧ (id, version) ∈ found))
  | .attaching .. | .attached .. | .creating .. | .created .. | .index .. | .indexing .. |
    .stamp .. | .done => .isFalse fun h => h

instance (caseId : C) (id : Id) (version : ℕ) [DecidableEq Id] [DecidableEq C] (job : Job Id C) :
    Decidable (job.Promises caseId id version) := inferInstanceAs (Decidable (_ ∨ _))

/-- In the end, what is on its way has arrived. -/
theorem Good.whole {s : State Id C} (h : Good s) (hsettled : Settled s) : Whole s := by
  refine ⟨h.rows, fun caseId hcase id hid doc hdoc => ?_⟩
  refine (h.docs caseId hcase id hid doc hdoc).resolve_right ?_
  rintro ⟨job, hjob, hrefreshes | hfound⟩
  · rw [hsettled job hjob] at hrefreshes
    exact hrefreshes
  · rw [hsettled job hjob] at hfound
    exact hfound

/-- A step of a job is clear:

* an attach has listed the items that were committed since it began, and no transaction that has
  listed the cases before it is still under way;
* what writes a document has read all cases, or there is a job that will see to the others;
* a search finds the documents that there are, unless they say so already, or another job will see
  to it;
* what appends a case overtakes nobody who would append another. -/
def ClearNext (i : ℕ) (seen : List (Id × ℕ)) : Job Id C → Prop
  | .attached caseId start listed =>
    (∀ id ∈ s.items, id ∈ start ∨ id ∈ listed ∨ (caseId, id) ∈ s.caseItems) ∧
      ∀ job ∈ s.jobs, job.Lists caseId
  | .indexing id caseIds =>
    ∀ caseId ∈ s.importCases, caseId ∈ caseIds ∨
      ∃ job ∈ s.jobs.set i .done, job.Refreshes caseId id
  | .stamp caseId =>
    caseId ∈ s.importCases → ∀ id ∈ s.items, ∀ doc ∈ s.docs id,
      caseId ∈ doc.caseIds ∨ (id, doc.version) ∈ seen ∨
        ∃ job ∈ s.jobs.set i .done, job.Promises caseId id doc.version
  | .stamping caseId ((id, version) :: _) =>
    ∀ doc ∈ s.docs id, doc.version = version → caseId ∉ doc.caseIds →
      ∀ other ∈ s.importCases, other = caseId ∨ other ∈ doc.caseIds ∨
        ∃ job ∈ s.jobs, job.Refreshes other id
  | _ => True

instance [DecidableEq Id] [DecidableEq C] (i : ℕ) (seen : List (Id × ℕ)) :
    (job : Job Id C) → Decidable (ClearNext s i seen job)
  | .attached .. => inferInstanceAs (Decidable ((∀ _ ∈ _, _) ∧ ∀ _ ∈ _, _))
  | .indexing .. => inferInstanceAs (Decidable (∀ _ ∈ _, _ ∨ _))
  | .stamp .. => inferInstanceAs (Decidable (_ → ∀ _ ∈ _, ∀ _ ∈ s.docs _, _))
  | .stamping _ (_ :: _) => inferInstanceAs (Decidable (∀ _ ∈ s.docs _, _ → _ → ∀ _ ∈ _, _))
  | .stamping _ [] | .attaching .. | .creating .. | .created .. | .index .. | .done =>
    .isTrue trivial

/-- **A step is clear.** -/
def Clear : Event Id C → Prop
  | .next i seen => ∀ job ∈ s.jobs[i]?, ClearNext s i seen job
  | _ => True

instance [DecidableEq Id] [DecidableEq C] : (e : Event Id C) → Decidable (Clear s e)
  | .next i seen => inferInstanceAs (Decidable (∀ job ∈ s.jobs[i]?, ClearNext s i seen job))
  | .attach _ | .unpack _ | .enqueue _ | .rollback _ | .retry _ => .isTrue trivial

end Asked

/-! ## Pages -/

section Pages

variable [LinearOrder Id] {items : List Id} {cursor : Option Id} {m : Id}

/-- **What is behind the cursor is on the page**, or the page is full and it is behind its last
item. -/
theorem page_spec (hnodup : items.Nodup) (hm : m ∈ items) (hcursor : ∀ k ∈ cursor, k < m) :
    m ∈ page items cursor ∨
      (page items cursor).length = attachPage ∧ ∀ k ∈ (page items cursor).getLast?, k < m := by
  have hsorted : (((items.filter fun id => ∀ k ∈ cursor, k < id)).insertionSort (· ≤ ·)).Pairwise
      (· ≤ ·) := List.pairwise_insertionSort _ _
  have hdistinct : ((items.filter fun id => ∀ k ∈ cursor, k < id).insertionSort (· ≤ ·)).Nodup :=
    (List.perm_insertionSort _ _).nodup_iff.mpr (hnodup.filter _)
  have hmem : m ∈ (items.filter fun id => ∀ k ∈ cursor, k < id).insertionSort (· ≤ ·) :=
    (List.mem_insertionSort _).mpr (List.mem_filter.mpr ⟨hm, decide_eq_true hcursor⟩)
  rw [page]
  generalize (items.filter fun id => ∀ k ∈ cursor, k < id).insertionSort (· ≤ ·) = sorted at *
  rw [← List.take_append_drop attachPage sorted] at hmem hsorted hdistinct
  rcases List.mem_append.mp hmem with hmem | hmem
  · exact .inl hmem
  · have hlength : attachPage < sorted.length := by
      have hpos := List.length_pos_of_mem hmem
      rw [List.length_drop] at hpos
      omega
    refine .inr ⟨?_, fun k hk => ?_⟩
    · rw [List.length_take]
      omega
    · have hlast := List.mem_of_getLast? hk
      have hle := (List.pairwise_append.mp hsorted).2.2 k hlast m hmem
      have hne := (List.nodup_append.mp hdistinct).2.2 k hlast m hmem
      exact lt_of_le_of_ne hle hne

end Pages

/-! ## What holds during a run -/

section Invariant

variable {s s' : State Id C}

/-- Items and documents stay. -/
structure Grown (s s' : State Id C) : Prop where
  items : s.items ⊆ s'.items
  docs : ∀ id doc, s.docs id = some doc → ∃ doc' ∈ s'.docs id, doc.version ≤ doc'.version

theorem Grown.of_eq (hitems : s'.items = s.items) (hdocs : s'.docs = s.docs) : Grown s s' where
  items := hitems ▸ List.Subset.refl _
  docs _ doc h := ⟨doc, hdocs ▸ h, le_rfl⟩

variable [LinearOrder Id]

/-- What a transaction or a job knows. -/
def Job.Sound (s : State Id C) : Job Id C → Prop
  | .attaching _ start cursor listed =>
    start ⊆ s.items ∧ ∀ m ∈ start, m ∈ listed ∨ ∀ k ∈ cursor, k < m
  | .attached _ start listed => start ⊆ listed
  | .index id | .indexing id _ => id ∈ s.items
  | .stamping _ found => ∀ x ∈ found, Finds s x
  | _ => True

/-- The invariant. -/
structure Inv (s : State Id C) : Prop where
  nodup : s.items.Nodup
  docs : ∀ id doc, s.docs id = some doc → id ∈ s.items
  jobs : ∀ job ∈ s.jobs, job.Sound s

theorem Job.Sound.grown {job : Job Id C} (h : job.Sound s) (hg : Grown s s') : job.Sound s' := by
  cases job with
  | attaching caseId start cursor listed => exact ⟨List.Subset.trans h.1 hg.items, h.2⟩
  | attached caseId start listed => exact h
  | index id => exact hg.items h
  | indexing id caseIds => exact hg.items h
  | stamping caseId found =>
    intro x hx
    obtain ⟨doc, hdoc, hle⟩ := h x hx
    obtain ⟨doc', hdoc', hle'⟩ := hg.docs _ doc hdoc
    exact ⟨doc', hdoc', hle.trans hle'⟩
  | _ => trivial

/-- A job goes on. -/
theorem Inv.setJob (hs : Inv s) (i : ℕ) {j : Job Id C} (h : j.Sound s) :
    Inv (s.setJob i j) :=
  have hg : Grown s (s.setJob i j) := .of_eq rfl rfl
  ⟨hs.nodup, hs.docs, fun other hother => by
    rcases List.mem_or_eq_of_mem_set hother with hother | rfl
    · exact (hs.jobs other hother).grown hg
    · exact h.grown hg⟩

/-- A job is added. -/
theorem Inv.addJob (hs : Inv s) {j : Job Id C} (h : j.Sound s) :
    Inv { s with jobs := s.jobs ++ [j] } :=
  have hg : Grown s { s with jobs := s.jobs ++ [j] } := .of_eq rfl rfl
  ⟨hs.nodup, hs.docs, fun other hother => by
    rcases List.mem_append.mp hother with hother | hother
    · exact (hs.jobs other hother).grown hg
    · exact List.mem_singleton.mp hother ▸ h.grown hg⟩

/-- The document that is written has a later version. -/
theorem docs_write_self (id : Id) (caseIds : List C) : ∃ version,
    (s.write id caseIds).docs id = some ⟨caseIds, version⟩ ∧
      ∀ doc ∈ s.docs id, doc.version < version := by
  refine ⟨_, Function.update_self _ _ _, fun doc hdoc => ?_⟩
  rw [Option.mem_def.mp hdoc]
  exact Nat.lt_succ_self _

theorem docs_write_of_ne {id other : Id} (caseIds : List C) (h : other ≠ id) :
    (s.write id caseIds).docs other = s.docs other := Function.update_of_ne h _ _

theorem grown_write (s : State Id C) (id : Id) (caseIds : List C) :
    Grown s (s.write id caseIds) := by
  refine ⟨List.Subset.refl _, fun other doc hdoc => ?_⟩
  by_cases hother : other = id
  · subst hother
    obtain ⟨version, hwritten, hlater⟩ := docs_write_self (s := s) other caseIds
    exact ⟨_, hwritten, (hlater doc hdoc).le⟩
  · exact ⟨doc, (docs_write_of_ne caseIds hother).trans hdoc, le_rfl⟩

theorem Inv.write (hs : Inv s) {id : Id} (hid : id ∈ s.items) (caseIds : List C) :
    Inv (s.write id caseIds) := by
  refine ⟨hs.nodup, fun other doc hdoc => ?_, fun job hjob => ?_⟩
  · by_cases hother : other = id
    · exact hother ▸ hid
    · exact hs.docs other doc ((docs_write_of_ne caseIds hother).symm.trans hdoc)
  · exact (hs.jobs job hjob).grown (grown_write s id caseIds)

/-- What has been found has no later version than there is. -/
theorem Inv.not_hasFound (hs : Inv s) {id : Id} {version : ℕ}
    (hlater : ∀ doc ∈ s.docs id, doc.version < version) {job : Job Id C} (hjob : job ∈ s.jobs)
    (caseId : C) : ¬ job.HasFound caseId id version := by
  cases job with
  | stamping caseId' found =>
    rintro ⟨-, hfound⟩
    obtain ⟨doc, hdoc, hle⟩ := hs.jobs _ hjob _ hfound
    exact absurd (hlater doc hdoc) (Nat.not_lt.mpr hle)
  | _ => exact fun h => h

variable [DecidableEq C]

/-- The script is run, or nothing happens. -/
theorem append_cases (s : State Id C) (caseId : C) (id : Id) (version : ℕ) :
    (s.append caseId id version = s ∧
      ∀ doc ∈ s.docs id, doc.version = version → caseId ∈ doc.caseIds) ∨
    ∃ doc ∈ s.docs id, doc.version = version ∧ caseId ∉ doc.caseIds ∧
      s.append caseId id version = s.write id (doc.caseIds ++ [caseId]) := by
  rw [State.append]
  rcases hdoc : s.docs id with _ | doc
  · exact .inl ⟨rfl, fun _ h => nomatch h⟩
  · dsimp only
    split_ifs with hversion hcase
    · refine .inl ⟨rfl, fun other hother hsame => ?_⟩
      obtain rfl := Option.some.inj hother
      exact absurd hsame hversion
    · refine .inl ⟨rfl, fun other hother _ => ?_⟩
      obtain rfl := Option.some.inj hother
      exact hcase
    · exact .inr ⟨doc, rfl, not_not.mp hversion, hcase, rfl⟩

/-- **The next step of a job keeps the invariant.** -/
theorem inv_next (hs : Inv s) {i : ℕ} {seen : List (Id × ℕ)} {job : Job Id C}
    (hjob : s.jobs[i]? = some job) (h : next s i seen job = some s') : Inv s' := by
  have hsound := hs.jobs job (List.mem_of_getElem? hjob)
  have hdone : Job.Sound s (.done : Job Id C) := trivial
  cases job with
  | attaching caseId start cursor listed =>
    obtain rfl := Option.some.inj h
    obtain ⟨hstart, hlisted⟩ := hsound
    -- what is behind the cursor is on the page, or behind it
    have hpage : ∀ m ∈ start, m ∈ listed ++ page s.items cursor ∨
        (page s.items cursor).length = attachPage ∧
          ∀ k ∈ (page s.items cursor).getLast?, k < m := by
      intro m hm
      rcases hlisted m hm with hbefore | hcursor
      · exact .inl (List.mem_append_left _ hbefore)
      · rcases page_spec hs.nodup (hstart hm) hcursor with hpage | hbehind
        · exact .inl (List.mem_append_right _ hpage)
        · exact .inr hbehind
    rw [nextPage]
    split_ifs with hempty hshort
    · refine hs.setJob i fun m hm => ?_
      rcases hpage m hm with hmem | ⟨hfull, -⟩
      · rw [hempty, List.append_nil] at hmem
        exact hmem
      · rw [hempty] at hfull
        cases hfull
    · refine hs.setJob i fun m hm => ?_
      exact (hpage m hm).resolve_right fun hfull => absurd hfull.1 (Nat.ne_of_lt hshort)
    · exact hs.setJob i ⟨hstart, fun m hm => (hpage m hm).imp_right And.right⟩
  | attached caseId start listed =>
    obtain rfl := Option.some.inj h
    have hdoneInv := hs.setJob i hdone
    have hadded := hdoneInv.addJob (show Job.Sound (s.setJob i .done) (.stamp caseId) from trivial)
    exact ⟨hadded.nodup, hadded.docs, fun job hjob => (hadded.jobs job hjob).grown (.of_eq rfl rfl)⟩
  | creating id =>
    obtain rfl := Option.some.inj h
    exact hs.setJob i (j := .created id s.importCases) trivial
  | created id caseIds =>
    obtain rfl := Option.some.inj h
    rw [commitMember]
    split_ifs with hid
    · exact hs.setJob i hdone
    · have hdoneInv := hs.setJob i hdone
      refine ⟨List.nodup_cons.mpr ⟨hid, hs.nodup⟩,
        fun other doc hdoc => List.mem_cons_of_mem _ (hs.docs other doc hdoc), fun job hjob => ?_⟩
      refine (hdoneInv.jobs job hjob).grown ⟨List.subset_cons_self _ _, fun other doc hdoc => ?_⟩
      exact ⟨doc, hdoc, le_rfl⟩
  | index id =>
    obtain rfl := Option.some.inj h
    exact hs.setJob i (j := .indexing id (s.casesOf id)) hsound
  | indexing id caseIds =>
    obtain rfl := Option.some.inj h
    exact (hs.write hsound caseIds).setJob i (j := .done) trivial
  | stamp caseId =>
    rw [next] at h
    split_ifs at h with hseen
    obtain rfl := Option.some.inj h
    exact hs.setJob i (j := .stamping caseId seen) hseen
  | stamping caseId found =>
    cases found with
    | nil =>
      obtain rfl := Option.some.inj h
      exact hs.setJob i hdone
    | cons x found =>
      obtain ⟨id, version⟩ := x
      obtain rfl := Option.some.inj h
      have hrest : Job.Sound s (.stamping caseId found) := fun x hx => hsound x (.tail _ hx)
      rcases append_cases s caseId id version with ⟨hsame, -⟩ | ⟨doc, hdoc, -, -, hwritten⟩
      · rw [hsame]
        exact hs.setJob i hrest
      · rw [hwritten]
        exact (hs.write (hs.docs id doc hdoc) _).setJob i (hrest.grown (grown_write s id _))
  | done => cases h

/-- **Every step keeps the invariant.** -/
theorem inv_step (hs : Inv s) {e : Event Id C} (h : step s e = some s') : Inv s' := by
  cases e with
  | attach caseId =>
    obtain rfl := Option.some.inj h
    exact hs.addJob (j := .attaching caseId s.items none [])
      ⟨List.Subset.refl _, fun _ _ => .inr fun _ h => nomatch h⟩
  | unpack id =>
    obtain rfl := Option.some.inj h
    exact hs.addJob (j := .creating id) trivial
  | enqueue id =>
    rw [step] at h
    split_ifs at h with hid
    obtain rfl := Option.some.inj h
    exact hs.addJob (j := .index id) hid
  | next i seen =>
    obtain ⟨job, hjob, h⟩ := Option.bind_eq_some_iff.mp h
    exact inv_next hs hjob h
  | rollback i =>
    obtain ⟨job, -, rfl⟩ := Option.map_eq_some_iff.mp h
    exact hs.setJob i (j := .done) trivial
  | retry i =>
    obtain ⟨job, hjob, rfl⟩ := Option.map_eq_some_iff.mp h
    have hsound := hs.jobs job (List.mem_of_getElem? hjob)
    refine hs.setJob i ?_
    cases job with
    | indexing id caseIds => exact hsound
    | stamping caseId found => trivial
    | _ => exact hsound

end Invariant

/-! ## One step -/

section Step

variable {s s' : State Id C} {i : ℕ} {job : Job Id C}

theorem not_promises_done (caseId : C) (id : Id) (version : ℕ) :
    ¬ (.done : Job Id C).Promises caseId id version := by
  rintro (h | h)
  · exact h
  · exact h

/-- Something is true of a job in its place, or of another. -/
theorem exists_mem_set_iff {P : Job Id C → Prop} (hdone : ¬ P .done) (hi : i < s.jobs.length)
    (job : Job Id C) :
    (∃ j ∈ s.jobs.set i job, P j) ↔ P job ∨ ∃ j ∈ s.jobs.set i .done, P j := by
  refine ⟨fun h => ?_, fun h => ?_⟩
  · by_cases hjob : P job
    · exact .inl hjob
    · exact .inr (Places.exists_mem_set_of_set hjob h .done)
  · rcases h with hjob | hothers
    · exact ⟨job, List.mem_set hi job, hjob⟩
    · exact Places.exists_mem_set_of_set hdone hothers job

/-- The same where the job has not changed. -/
theorem exists_mem_iff {P : Job Id C → Prop} (hdone : ¬ P .done) (hjob : s.jobs[i]? = some job) :
    (∃ j ∈ s.jobs, P j) ↔ P job ∨ ∃ j ∈ s.jobs.set i .done, P j := by
  obtain ⟨hi, hget⟩ := List.getElem?_eq_some_iff.mp hjob
  have hsame : s.jobs.set i job = s.jobs := by
    rw [← hget]
    exact List.set_getElem_self hi
  rw [← exists_mem_set_iff hdone hi job, hsame]

/-- A job goes on that keeps its promises. -/
theorem Good.setJob (hgood : Good s) (hjob : s.jobs[i]? = some job) {j : Job Id C}
    (hpromises : ∀ caseId ∈ s.importCases, ∀ id version, job.Promises caseId id version →
      j.Promises caseId id version ∨ ∀ doc ∈ s.docs id, doc.version = version →
        caseId ∈ doc.caseIds)
    (hlists : ∀ caseId ∈ s.importCases, j.Lists caseId) : Good (s.setJob i j) := by
  have hi := (List.getElem?_eq_some_iff.mp hjob).1
  refine ⟨hgood.rows, fun caseId hcase =>
    Places.forall_mem_set (hgood.lists caseId hcase) (hlists caseId hcase),
    fun caseId hcase id hid doc hdoc => ?_⟩
  · have hnone : ¬ (.done : Job Id C).Promises caseId id doc.version :=
      not_promises_done _ _ _
    rcases hgood.docs caseId hcase id hid doc hdoc with hmem | hpromised
    · exact .inl hmem
    · rcases (exists_mem_iff hnone hjob).mp hpromised with hkept | hothers
      · rcases hpromises caseId hcase id doc.version hkept with hkept | hdone
        · exact .inr ((exists_mem_set_iff hnone hi j).mpr (.inl hkept))
        · exact .inl (hdone doc hdoc rfl)
      · exact .inr ((exists_mem_set_iff hnone hi j).mpr (.inr hothers))

/-- A job is added, which has not listed cases. -/
theorem Good.addJob (hgood : Good s) {j : Job Id C} (hj : ∀ caseId, j.Lists caseId) :
    Good { s with jobs := s.jobs ++ [j] } := by
  refine ⟨hgood.rows, fun caseId hcase => List.forall_mem_append.mpr
    ⟨hgood.lists caseId hcase, List.forall_mem_singleton.mpr (hj caseId)⟩,
    fun caseId hcase id hid doc hdoc => ?_⟩
  exact (hgood.docs caseId hcase id hid doc hdoc).imp_right fun h => Places.exists_mem_append h _

/-- What a step of `attach` needs: an attach that ends has listed all items, and nobody has listed
the cases before it. -/
theorem good_commitAttach_iff (hgood : Good s) {caseId : C} {start listed : List Id}
    (hjob : s.jobs[i]? = some (.attached caseId start listed)) (hstart : start ⊆ listed)
    (seen : List (Id × ℕ)) :
    Good (commitAttach s i caseId listed) ↔ ClearNext s i seen (.attached caseId start listed) := by
  have hi := (List.getElem?_eq_some_iff.mp hjob).1
  refine ⟨fun h => ⟨fun id hid => ?_, fun other hother => ?_⟩, fun h => ?_⟩
  · rcases List.mem_append.mp (h.rows caseId List.mem_cons_self id hid) with hrow | hrow
    · exact .inr (.inr hrow)
    · obtain ⟨other, hother, heq⟩ := List.mem_map.mp hrow
      cases heq
      exact .inr (.inl hother)
  · obtain ⟨n, hn⟩ := List.mem_iff_getElem?.mp hother
    by_cases hni : i = n
    · subst hni
      obtain rfl := Option.some.inj (hjob.symm.trans hn)
      trivial
    · refine h.lists caseId List.mem_cons_self other (List.mem_append_left _ ?_)
      refine List.mem_iff_getElem?.mpr ⟨n, ?_⟩
      rw [List.getElem?_set_ne hni, hn]
  · obtain ⟨hlisted, hlists⟩ := h
    have hjobs : ∀ c, (∀ job ∈ s.jobs, job.Lists c) →
        ∀ job ∈ s.jobs.set i .done ++ [.stamp caseId], job.Lists c := fun c h =>
      List.forall_mem_append.mpr
        ⟨Places.forall_mem_set h trivial, List.forall_mem_singleton.mpr trivial⟩
    refine ⟨List.forall_mem_cons.mpr ⟨fun id hid => ?_, fun c hc id hid => ?_⟩,
      List.forall_mem_cons.mpr ⟨hjobs caseId hlists, fun c hc => hjobs c (hgood.lists c hc)⟩,
      List.forall_mem_cons.mpr ⟨fun id _ doc _ => ?_, fun c hc id hid doc hdoc => ?_⟩⟩
    · rcases hlisted id hid with hmem | hmem | hrow
      · exact List.mem_append_right _ (List.mem_map_of_mem (hstart hmem))
      · exact List.mem_append_right _ (List.mem_map_of_mem hmem)
      · exact List.mem_append_left _ hrow
    · exact List.mem_append_left _ (hgood.rows c hc id hid)
    · exact .inr ⟨_, List.mem_append_right _ List.mem_cons_self, .inl rfl⟩
    · refine (hgood.docs c hc id hid doc hdoc).imp_right fun hpromised => ?_
      refine Places.exists_mem_append ?_ _
      refine ((exists_mem_iff (not_promises_done c id _) hjob).mp hpromised).resolve_left ?_
      rintro (h | h)
      · exact h
      · exact h

/-- What a search needs. -/
theorem good_search_iff (hgood : Good s) {caseId : C}
    (hjob : s.jobs[i]? = some (.stamp caseId)) (seen : List (Id × ℕ)) :
    Good (s.setJob i (.stamping caseId seen)) ↔ ClearNext s i seen (.stamp caseId) := by
  have hi := (List.getElem?_eq_some_iff.mp hjob).1
  refine ⟨fun h hcase id hid doc hdoc => ?_, fun h => ⟨hgood.rows, fun c hc =>
    Places.forall_mem_set (hgood.lists c hc) trivial, fun c hc id hid doc hdoc => ?_⟩⟩
  · refine (h.docs caseId hcase id hid doc hdoc).imp_right fun hpromised => ?_
    refine ((exists_mem_set_iff (not_promises_done caseId id _) hi _).mp hpromised).imp_left ?_
    rintro (h | h)
    · exact h.elim
    · exact h.2
  · have hnone : ¬ (.done : Job Id C).Promises c id doc.version :=
      not_promises_done _ _ _
    by_cases hcase : c = caseId
    · subst hcase
      rcases h hc id hid doc hdoc with hmem | hseen | hothers
      · exact .inl hmem
      · exact .inr ((exists_mem_set_iff hnone hi _).mpr (.inl (.inr ⟨rfl, hseen⟩)))
      · exact .inr ((exists_mem_set_iff hnone hi _).mpr (.inr hothers))
    · refine (hgood.docs c hc id hid doc hdoc).imp_right fun hpromised => ?_
      refine (exists_mem_set_iff hnone hi _).mpr (.inr ?_)
      refine ((exists_mem_iff hnone hjob).mp hpromised).resolve_left ?_
      rintro (h | h)
      · exact hcase h.symm
      · exact h

variable [LinearOrder Id]

/-- A member that is committed is in all cases. -/
theorem good_commitMember (hs : Inv s) (hgood : Good s) {id : Id} {caseIds : List C}
    (hjob : s.jobs[i]? = some (.created id caseIds)) : Good (commitMember s i id caseIds) := by
  have hdone : Good (s.setJob i .done) := hgood.setJob hjob
    (fun _ _ _ _ h => h.elim (fun h => h.elim) fun h => h.elim) fun _ _ => trivial
  rw [commitMember]
  split_ifs with hid
  · exact hdone
  · refine ⟨fun caseId hcase => List.forall_mem_cons.mpr ⟨?_, fun other hother => ?_⟩,
      hdone.lists, fun caseId hcase => List.forall_mem_cons.mpr ⟨fun doc hdoc => ?_, ?_⟩⟩
    · have hlisted : caseId ∈ caseIds := hgood.lists caseId hcase _ (List.mem_of_getElem? hjob)
      exact List.mem_append_right _ (List.mem_map_of_mem hlisted)
    · exact List.mem_append_left _ (hgood.rows caseId hcase other hother)
    · exact absurd (hs.docs id doc hdoc) hid
    · exact hdone.docs caseId hcase

/-- What a document needs that is written. -/
theorem good_write_iff (hs : Inv s) (hgood : Good s) {id : Id} (hid : id ∈ s.items)
    {caseIds : List C} (hjob : s.jobs[i]? = some job) {j : Job Id C}
    (hj : ∀ other, ¬ j.Refreshes other id)
    (hfound : ∀ caseId version, j.HasFound caseId id version →
      ∃ doc ∈ s.docs id, version ≤ doc.version)
    (hothers : ∀ caseId ∈ s.importCases, ∀ other version, other ≠ id →
      job.Promises caseId other version → j.Promises caseId other version)
    (hlists : ∀ caseId, j.Lists caseId) :
    Good ((s.write id caseIds).setJob i j) ↔ ∀ caseId ∈ s.importCases,
      caseId ∈ caseIds ∨ ∃ job ∈ s.jobs.set i .done, job.Refreshes caseId id := by
  have hi := (List.getElem?_eq_some_iff.mp hjob).1
  obtain ⟨version, hwritten, hlater⟩ := docs_write_self (s := s) id caseIds
  refine ⟨fun h caseId hcase => ?_,
    fun h => ⟨hgood.rows, fun caseId hcase =>
      Places.forall_mem_set (hgood.lists caseId hcase) (hlists caseId),
      fun caseId hcase other hother doc hdoc => ?_⟩⟩
  · refine (h.docs caseId hcase id hid _ hwritten).imp_right fun hpromised => ?_
    have hnone : ¬ (.done : Job Id C).Promises caseId id version :=
      not_promises_done _ _ _
    rcases (exists_mem_set_iff hnone hi j).mp hpromised with (hrefreshes | hhas) | ⟨other, hmem, hp⟩
    · exact absurd hrefreshes (hj caseId)
    · obtain ⟨doc, hdoc, hle⟩ := hfound caseId version hhas
      exact absurd (hlater doc hdoc) (Nat.not_lt.mpr hle)
    · refine ⟨other, hmem, hp.resolve_right ?_⟩
      rcases List.mem_or_eq_of_mem_set hmem with hmem | rfl
      · exact hs.not_hasFound hlater hmem caseId
      · exact fun h => h
  · have hnone : ¬ (.done : Job Id C).Promises caseId other doc.version :=
      not_promises_done _ _ _
    by_cases heq : other = id
    · subst heq
      obtain rfl := Option.some.inj (hwritten.symm.trans hdoc)
      refine (h caseId hcase).imp_right fun ⟨job, hmem, hrefreshes⟩ => ?_
      exact (exists_mem_set_iff hnone hi j).mpr (.inr ⟨job, hmem, .inl hrefreshes⟩)
    · have hbefore : s.docs other = some doc := (docs_write_of_ne caseIds heq).symm.trans hdoc
      refine (hgood.docs caseId hcase other hother doc hbefore).imp_right fun hpromised => ?_
      exact (exists_mem_set_iff hnone hi j).mpr (((exists_mem_iff hnone hjob).mp hpromised).imp_left
        (hothers caseId hcase other doc.version heq))

variable [DecidableEq C]

/-- The cases that a job reads are those of the rows. -/
theorem mem_casesOf {caseId : C} {id : Id} :
    caseId ∈ s.casesOf id ↔ (caseId, id) ∈ s.caseItems := by
  rw [State.casesOf, List.mem_dedup, List.mem_filterMap]
  refine ⟨?_, fun h => ⟨_, h, if_pos rfl⟩⟩
  rintro ⟨⟨caseId', id'⟩, hmem, h⟩
  split_ifs at h with hid
  obtain rfl := Option.some.inj h
  exact hid ▸ hmem

/-- What an update needs. -/
theorem good_append_iff (hs : Inv s) (hgood : Good s) {caseId : C} {id : Id} {version : ℕ}
    {found : List (Id × ℕ)} (hjob : s.jobs[i]? = some (.stamping caseId ((id, version) :: found)))
    (seen : List (Id × ℕ)) :
    Good ((s.append caseId id version).setJob i (.stamping caseId found)) ↔
      ClearNext s i seen (.stamping caseId ((id, version) :: found)) := by
  have hsound := hs.jobs _ (List.mem_of_getElem? hjob)
  rcases append_cases s caseId id version with ⟨hsame, hsaid⟩ |
    ⟨doc, hdoc, hversion, hnot, hwritten⟩
  · -- nothing is written
    rw [hsame]
    refine iff_of_true (hgood.setJob hjob ?_ fun _ _ => trivial) ?_
    · rintro c - other version' (h | ⟨rfl, hmem⟩)
      · exact h.elim
      · rcases List.mem_cons.mp hmem with heq | hmem
        · cases heq
          exact .inr hsaid
        · exact .inl (.inr ⟨rfl, hmem⟩)
    · exact fun doc hdoc hversion hnot => absurd (hsaid doc hdoc hversion) hnot
  · have hlists : ∀ c, (Job.stamping caseId found).Lists c := fun _ => trivial
    rw [hwritten, good_write_iff (j := .stamping caseId found) hs hgood (hs.docs id doc hdoc) hjob
      (fun _ h => h) ?_ ?_ hlists]
    · have hothers : ∀ c, (∃ job ∈ s.jobs.set i .done, job.Refreshes c id) ↔
          ∃ job ∈ s.jobs, job.Refreshes c id := fun c =>
        ((exists_mem_iff (fun h => h) hjob).trans (or_iff_right fun h => h)).symm
      refine ⟨fun h other hother hversion' hnot' c hc => ?_, fun h c hc => ?_⟩
      · obtain rfl := Option.some.inj (hdoc.symm.trans hother)
        rcases h c hc with hmem | hrefreshes
        · rcases List.mem_append.mp hmem with hmem | hmem
          · exact .inr (.inl hmem)
          · exact .inl (List.mem_singleton.mp hmem)
        · exact .inr (.inr ((hothers c).mp hrefreshes))
      · rcases h doc hdoc hversion hnot c hc with rfl | hmem | hrefreshes
        · exact .inl (List.mem_append_right _ (List.mem_singleton_self c))
        · exact .inl (List.mem_append_left _ hmem)
        · exact .inr ((hothers c).mpr hrefreshes)
    · rintro c version' ⟨-, hmem⟩
      exact hsound _ (.tail _ hmem)
    · rintro c - other version' hne (h | ⟨hcase, hmem⟩)
      · exact .inl h
      · rcases List.mem_cons.mp hmem with heq | hmem
        · cases heq
          exact absurd rfl hne
        · exact .inr ⟨hcase, hmem⟩

/-- **The next step of a job** keeps what is on its way exactly if it is clear. -/
theorem good_next_iff (hs : Inv s) (hgood : Good s) (hjob : s.jobs[i]? = some job)
    {seen : List (Id × ℕ)} (h : next s i seen job = some s') :
    Good s' ↔ ClearNext s i seen job := by
  have hsound := hs.jobs job (List.mem_of_getElem? hjob)
  -- transactions promise nothing, and nothing that is done
  have hgoes : ∀ {j : Job Id C}, (∀ caseId id version, ¬ job.Promises caseId id version) →
      (∀ caseId, j.Lists caseId) → Good (s.setJob i j) := fun hnone hj =>
    hgood.setJob hjob (fun c _ id version h => absurd h (hnone c id version)) fun c _ => hj c
  cases job with
  | attaching caseId start cursor listed =>
    obtain rfl := Option.some.inj h
    have hnone : ∀ c id version,
        ¬ (Job.attaching caseId start cursor listed).Promises c id version :=
      fun _ _ _ h => h.elim (fun h => h) fun h => h
    refine iff_of_true ?_ trivial
    rw [nextPage]
    split_ifs
    · exact hgoes hnone fun _ => trivial
    · exact hgoes hnone fun _ => trivial
    · exact hgoes hnone fun _ => trivial
  | attached caseId start listed =>
    obtain rfl := Option.some.inj h
    exact good_commitAttach_iff hgood hjob hsound seen
  | creating id =>
    obtain rfl := Option.some.inj h
    refine iff_of_true (hgood.setJob hjob ?_ ?_) trivial
    · exact fun _ _ _ _ h => h.elim (fun h => h.elim) fun h => h.elim
    · exact fun c hc => hc
  | created id caseIds =>
    obtain rfl := Option.some.inj h
    exact iff_of_true (good_commitMember hs hgood hjob) trivial
  | index id =>
    obtain rfl := Option.some.inj h
    refine iff_of_true (hgood.setJob hjob ?_ fun _ _ => trivial) trivial
    rintro c hc other version (h | h)
    · exact .inl (.inl ⟨h, mem_casesOf.mpr (hgood.rows c hc id hsound)⟩)
    · exact h.elim
  | indexing id caseIds =>
    obtain rfl := Option.some.inj h
    refine good_write_iff hs hgood hsound hjob (fun _ h => h) (fun _ _ h => h.elim) ?_
      fun _ => trivial
    rintro c - other version hne (h | h)
    · exact absurd h.1.symm hne
    · exact h.elim
  | stamp caseId =>
    rw [next] at h
    split_ifs at h
    obtain rfl := Option.some.inj h
    exact good_search_iff hgood hjob seen
  | stamping caseId found =>
    cases found with
    | nil =>
      obtain rfl := Option.some.inj h
      refine iff_of_true (hgoes ?_ fun _ => trivial) trivial
      rintro c id version (h | h)
      · exact h
      · exact List.not_mem_nil h.2
    | cons x found =>
      obtain rfl := Option.some.inj h
      exact good_append_iff hs hgood hjob seen
  | done => cases h

/-- **A step keeps what is on its way** exactly if it is clear. -/
theorem good_step_iff (hs : Inv s) (hgood : Good s) {e : Event Id C} (h : step s e = some s') :
    Good s' ↔ Clear s e := by
  cases e with
  | attach caseId | unpack id =>
    obtain rfl := Option.some.inj h
    exact iff_of_true (hgood.addJob fun _ => trivial) trivial
  | enqueue id =>
    rw [step] at h
    split_ifs at h
    obtain rfl := Option.some.inj h
    exact iff_of_true (hgood.addJob fun _ => trivial) trivial
  | next i seen =>
    obtain ⟨job, hjob, h⟩ := Option.bind_eq_some_iff.mp h
    rw [good_next_iff hs hgood hjob h, Clear]
    refine ⟨fun hclear other hother => ?_, fun hclear => hclear job hjob⟩
    obtain rfl := Option.some.inj (hjob.symm.trans hother)
    exact hclear
  | rollback i =>
    obtain ⟨job, hfilter, rfl⟩ := Option.map_eq_some_iff.mp h
    obtain ⟨hjob, htransaction⟩ := Option.filter_eq_some_iff.mp hfilter
    refine iff_of_true (hgood.setJob hjob ?_ fun _ _ => trivial) trivial
    intro c _ id version hpromises
    cases job with
    | attaching | attached | creating
    | created => exact hpromises.elim (fun h => h.elim) fun h => h.elim
    | _ => cases htransaction
  | retry i =>
    obtain ⟨job, hjob, rfl⟩ := Option.map_eq_some_iff.mp h
    refine iff_of_true (hgood.setJob hjob ?_ ?_) trivial
    · intro c _ id version hpromises
      refine .inl ?_
      cases job with
      | indexing id' caseIds => exact hpromises.imp And.left fun h => h
      | stamping caseId found => exact .inl (hpromises.elim (fun h => h.elim) fun h => h.1)
      | _ => exact hpromises
    · intro c hc
      have hlists := hgood.lists c hc job (List.mem_of_getElem? hjob)
      cases job with
      | created id caseIds => exact hlists
      | _ => trivial

end Step

/-! ## Runs -/

section Run

variable {s t : State Id C} {es : List (Event Id C)}

/-- How an import begins: with its source, and attached to nothing. -/
structure Initial (s : State Id C) : Prop where
  importCases : s.importCases = []
  jobs : s.jobs = []
  nodup : s.items.Nodup
  docs : ∀ id doc, s.docs id = some doc → id ∈ s.items

theorem Initial.good (h : Initial s) : Good s := by
  have hnone : ∀ {P : C → Prop}, ∀ c ∈ s.importCases, P c := fun c hc =>
    absurd (h.importCases ▸ hc) List.not_mem_nil
  exact ⟨hnone, hnone, hnone⟩

variable [LinearOrder Id]

theorem Initial.inv (h : Initial s) : Inv s :=
  ⟨h.nodup, h.docs, fun _ hjob => absurd (h.jobs ▸ hjob) List.not_mem_nil⟩

variable [DecidableEq C]

/-- **An attached import is in the case as a whole** in the end, if every step is clear: attaches
and members do not miss each other, and no document is written behind an update. What is not so
yet is on its way throughout exactly such runs. -/
theorem whole_of_clear (hs : Initial s) (h : run step s es = some t) :
    (Always step Clear s es → Settled t → Whole t) ∧
      (Throughout step Good s es ↔ Always step Clear s es) := by
  have hiff : Throughout step Good s es ↔ Always step Clear s es :=
    throughout_iff_always (fun _ _ _ hs hstep => inv_step hs hstep)
      (fun _ _ _ hs hgood hstep => good_step_iff hs hgood hstep) hs.inv hs.good h
  exact ⟨fun hclear hsettled => ((hiff.mpr hclear).run h).whole hsettled, hiff⟩

/-- An import with its source `0`. -/
def uploaded : State ℕ ℕ := ⟨[0], [], [], fun _ => none, []⟩

/-- A member is unpacked and indexed, and then the import is attached to the case `7`. -/
def inOrder : List (Event ℕ ℕ) :=
  [.unpack 1, .next 0 [], .next 0 [], .enqueue 1, .next 1 [], .next 1 [], .attach 7, .next 2 [],
    .next 2 [], .next 3 [(1, 1)], .next 3 [], .next 3 []]

/-- A member lists the cases before an attach is committed, and is committed behind its page. -/
def crossing : List (Event ℕ ℕ) :=
  [.unpack 1, .next 0 [], .attach 7, .next 1 [], .next 1 [], .next 0 [], .next 2 [], .next 2 []]

theorem uploaded_initial : Initial uploaded := ⟨rfl, rfl, by decide, fun _ _ h => nomatch h⟩

/-- An import that is unpacked, indexed and attached in order. -/
theorem whole_of_clear_inOrder : ∃ t, run step uploaded inOrder = some t ∧
    t.importCases = [7] ∧ t.items = [1, 0] ∧ Whole t := by
  have hruns : ((run step uploaded inOrder).any fun t => t.importCases = [7] ∧
      t.items = [1, 0] ∧ t.jobs = [.done, .done, .done, .done]) = true := by decide +kernel
  obtain ⟨t, hrun, heq⟩ := (Option.any_eq_true _ _).mp hruns
  obtain ⟨hcases, hitems, hjobs⟩ := of_decide_eq_true heq
  have hclear : Always step Clear uploaded inOrder := by decide +kernel
  refine ⟨t, hrun, hcases, hitems, (whole_of_clear uploaded_initial hrun).1 hclear ?_⟩
  rw [Settled, hjobs]
  decide

/-- **An import can be attached in part**: an attach and a member miss each other. -/
theorem overlapping_not_whole : ¬ ∀ (s : State ℕ ℕ), Initial s →
    ∀ (es : List (Event ℕ ℕ)) (t : State ℕ ℕ), run step s es = some t → Settled t → Whole t := by
  intro h
  have hruns : ((run step uploaded crossing).any fun t => t.importCases = [7] ∧
      t.items = [1, 0] ∧ t.caseItems = [(7, 0)] ∧ t.jobs = [.done, .done, .done]) = true := by
    decide +kernel
  obtain ⟨t, hrun, heq⟩ := (Option.any_eq_true _ _).mp hruns
  obtain ⟨hcases, hitems, hrows, hjobs⟩ := of_decide_eq_true heq
  have hwhole := h uploaded uploaded_initial crossing t hrun (by rw [Settled, hjobs]; decide)
  have hrow := hwhole.rows 7 (by rw [hcases]; decide) 1 (by rw [hitems]; decide)
  rw [hrows] at hrow
  revert hrow
  decide

end Run

end AegCloudDfir.Search.CaseImport
