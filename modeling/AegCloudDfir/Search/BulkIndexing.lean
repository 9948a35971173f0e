import AegCloudDfir.Search.Document

/-!
# Bulk indexing

`indexBulk` (`packages/search/src/adapter.ts`) sends documents to the index and reads the answer
item by item: the item at the position of a document tells what became of it. Documents that were
answered 429 are sent again, so many times; all others are counted or reported.

The answers are a parameter, one for each request; they may have fewer or more items than there are
documents.

* `bulkInto` — the loop, with the requests it sends.
* `bulkInto_accounts` — every document ends in one place, for a reason.
-/

namespace AegCloudDfir.Search.BulkIndexing

/-! ## Answers -/

/-- `error` of an item. -/
structure BulkError where
  type : Option JsString
  reason : Option JsString

/-- `index` of a `BulkItemResult`. -/
structure ItemResult where
  status : ℤ
  error : Option BulkError

/-- `response.body.items`; an item may be without `index`. -/
abbrev Items : Type := Option (List (Option ItemResult))

/-- `describeBulkError`, of a result that is there -/
def describeBulkError (result : ItemResult) : JsString :=
  match result.error with
  | some error =>
    error.type.getD (js "error") ++ js ": " ++ error.reason.getD (js "unknown reason")
  | none => js "status " ++ decimalInt result.status

/-- An entry of `errors`. -/
structure IndexError where
  id : JsString
  error : JsString

/-- `BulkIndexResult` -/
structure BulkIndexResult where
  indexed : ℕ
  errors : List IndexError

/-! ## The loop -/

/-- `!result.error && result.status < 300` -/
def ItemResult.Succeeded (result : ItemResult) : Prop := result.error = none ∧ result.status < 300

instance (result : ItemResult) : Decidable result.Succeeded :=
  inferInstanceAs (Decidable (_ = none ∧ _))

instance (error : Option BulkError) : Decidable (error = none) :=
  decidable_of_iff _ Option.isNone_iff_eq_none

/-- What one answer leaves: how many documents were indexed, the errors, and the documents to send
again. -/
structure Attempt where
  indexed : ℕ
  errors : List IndexError
  retry : List EvidenceSearchDoc

/-- The loop over the documents that are pending, beside the items of the answer; `again` says that
there are retries left. -/
def readItems (again : Bool) : List EvidenceSearchDoc → List (Option ItemResult) → Attempt
  | [], _ => ⟨0, [], []⟩
  | doc :: docs, items =>
    let rest := readItems again docs items.tail
    match items.head?.join with
    | none =>
      { rest with errors := ⟨doc.evidenceItemId, js "missing bulk item result"⟩ :: rest.errors }
    | some result =>
      if result.Succeeded then { rest with indexed := rest.indexed + 1 }
      else if result.status = 429 ∧ again then { rest with retry := doc :: rest.retry }
      else
        { rest with errors := ⟨doc.evidenceItemId, describeBulkError result⟩ :: rest.errors }

section Loop

variable (maxBulkRetries : ℕ) (responses : ℕ → Items)

/-- The `for` loop from an attempt on: what is counted, and the documents of the requests that are
sent. -/
def bulkFrom (attempt : ℕ) (pending : List EvidenceSearchDoc) :
    BulkIndexResult × List (List EvidenceSearchDoc) :=
  if attempt ≤ maxBulkRetries ∧ pending ≠ [] then
    let read := readItems (attempt < maxBulkRetries) pending ((responses attempt).getD [])
    let rest := bulkFrom (attempt + 1) read.retry
    (⟨read.indexed + rest.1.indexed, read.errors ++ rest.1.errors⟩, pending :: rest.2)
  else (⟨0, []⟩, [])
termination_by maxBulkRetries + 1 - attempt

/-- `bulkInto` -/
def bulkInto (docs : List EvidenceSearchDoc) : BulkIndexResult × List (List EvidenceSearchDoc) :=
  bulkFrom maxBulkRetries responses 0 docs

end Loop

/-! ## What is asked for -/

/-- The item at a position of an answer. -/
def itemAt (items : Items) (i : ℕ) : Option ItemResult := ((items.getD [])[i]?).join

/-- A document was sent at a position of a request, and this was the item there. -/
def Answered (responses : ℕ → Items) (sent : List (List EvidenceSearchDoc)) (attempt : ℕ)
    (doc : EvidenceSearchDoc) (result : ItemResult) : Prop :=
  ∃ docs, sent[attempt]? = some docs ∧ ∃ i : ℕ, docs[i]? = some doc ∧
    itemAt (responses attempt) i = some result

/-- Every document is accounted for: `done` are the documents that are counted. -/
structure Accounted (maxBulkRetries : ℕ) (responses : ℕ → Items) (docs : List EvidenceSearchDoc)
    (result : BulkIndexResult) (sent : List (List EvidenceSearchDoc))
    (done : List EvidenceSearchDoc) : Prop where
  /-- as many documents are counted -/
  indexed : result.indexed = done.length
  /-- every document is counted or reported, and not both -/
  once : ∀ doc ∈ docs, Xor (doc ∈ done) (doc.evidenceItemId ∈ result.errors.map (·.id))
  /-- nothing is counted or reported twice, and nothing else is -/
  distinct : (done.map (·.evidenceItemId) ++ result.errors.map (·.id)).Nodup
  known : ∀ id ∈ done.map (·.evidenceItemId) ++ result.errors.map (·.id),
    ∃ doc ∈ docs, doc.evidenceItemId = id
  total : result.indexed + result.errors.length = docs.length
  /-- what is counted has been answered with success -/
  succeeded : ∀ doc ∈ done, ∃ attempt item, Answered responses sent attempt doc item ∧
    item.Succeeded
  /-- what is sent again has been answered 429 in the request before -/
  resent : ∀ attempt again, sent[attempt + 1]? = some again → ∀ doc ∈ again,
    ∃ item, Answered responses sent attempt doc item ∧ item.status = 429
  /-- no more requests are sent than there are attempts -/
  requests : sent.length ≤ maxBulkRetries + 1

/-! ## One answer -/

theorem readItems_spec (again : Bool) (docs : List EvidenceSearchDoc)
    (items : List (Option ItemResult)) : ∃ done failed : List EvidenceSearchDoc,
      (readItems again docs items).indexed = done.length ∧
      (readItems again docs items).errors.map (·.id) = failed.map (·.evidenceItemId) ∧
      (done ++ (failed ++ (readItems again docs items).retry)).Perm docs ∧
      (∀ doc ∈ done, ∃ i : ℕ, docs[i]? = some doc ∧ ∃ item, (items[i]?).join = some item ∧
        item.Succeeded) ∧
      (∀ doc ∈ (readItems again docs items).retry, again ∧ ∃ i : ℕ, docs[i]? = some doc ∧
        ∃ item, (items[i]?).join = some item ∧ item.status = 429) := by
  induction docs generalizing items with
  | nil =>
    exact ⟨[], [], rfl, rfl, .nil, fun _ h => (nomatch h), fun _ h => (nomatch h)⟩
  | cons doc docs ih =>
    obtain ⟨done, failed, hindexed, herrors, hperm, hdone, hretry⟩ := ih items.tail
    have hlater {p : ItemResult → Prop} {other : EvidenceSearchDoc}
        (h : ∃ i : ℕ, docs[i]? = some other ∧ ∃ item, (items.tail[i]?).join = some item ∧ p item) :
        ∃ i : ℕ, (doc :: docs)[i]? = some other ∧ ∃ item, (items[i]?).join = some item ∧
          p item := by
      obtain ⟨i, hi, item, hitem, hp⟩ := h
      refine ⟨i + 1, hi, item, ?_, hp⟩
      rw [← hitem, List.getElem?_tail]
    have hfirst : items.head? = items[0]? := List.head?_eq_getElem?
    rw [readItems]
    split
    · refine ⟨done, doc :: failed, hindexed, ?_, ?_, fun d hd => hlater (hdone d hd),
        fun d hd => ⟨(hretry d hd).1, hlater (hretry d hd).2⟩⟩
      · rw [List.map_cons, List.map_cons, herrors]
      · exact List.perm_middle.trans (hperm.cons doc)
    · rename_i item hitem
      split_ifs with hsucceeded hagain
      · refine ⟨doc :: done, failed, ?_, herrors, hperm.cons doc, ?_,
          fun d hd => ⟨(hretry d hd).1, hlater (hretry d hd).2⟩⟩
        · exact congrArg (· + 1) hindexed
        · intro d hd
          rcases List.mem_cons.mp hd with rfl | hd
          · exact ⟨0, rfl, item, hfirst ▸ hitem, hsucceeded⟩
          · exact hlater (hdone d hd)
      · refine ⟨done, failed, hindexed, herrors, ?_, fun d hd => hlater (hdone d hd), ?_⟩
        · rw [← List.append_assoc] at hperm ⊢
          exact List.perm_middle.trans (hperm.cons doc)
        · intro d hd
          rcases List.mem_cons.mp hd with rfl | hd
          · exact ⟨hagain.2, 0, rfl, item, hfirst ▸ hitem, hagain.1⟩
          · exact ⟨(hretry d hd).1, hlater (hretry d hd).2⟩
      · refine ⟨done, doc :: failed, hindexed, ?_, ?_, fun d hd => hlater (hdone d hd),
          fun d hd => ⟨(hretry d hd).1, hlater (hretry d hd).2⟩⟩
        · rw [List.map_cons, List.map_cons, herrors]
        · exact List.perm_middle.trans (hperm.cons doc)

/-! ## All answers -/

section Run

variable {maxBulkRetries : ℕ} {responses : ℕ → Items}

/-- What is answered in the later requests is answered. -/
theorem Answered.cons {pending : List EvidenceSearchDoc} {sent : List (List EvidenceSearchDoc)}
    {attempt k : ℕ} {doc : EvidenceSearchDoc} {item : ItemResult}
    (h : Answered (fun k => responses (attempt + 1 + k)) sent k doc item) :
    Answered (fun k => responses (attempt + k)) (pending :: sent) (k + 1) doc item := by
  obtain ⟨docs, hdocs, i, hi, hitem⟩ := h
  have hattempt : attempt + (k + 1) = attempt + 1 + k := by omega
  refine ⟨docs, hdocs, i, hi, ?_⟩
  show itemAt (responses (attempt + (k + 1))) i = some item
  rw [hattempt, hitem]

/-- Every document that is pending ends among those that are counted or among those that are
reported: by induction on the attempts that are left. -/
theorem bulkFrom_spec {attempt : ℕ} {pending : List EvidenceSearchDoc}
    (hleft : attempt ≤ maxBulkRetries ∨ pending = []) :
    ∃ done failed : List EvidenceSearchDoc,
      (bulkFrom maxBulkRetries responses attempt pending).1.indexed = done.length ∧
      (bulkFrom maxBulkRetries responses attempt pending).1.errors.map (·.id) =
        failed.map (·.evidenceItemId) ∧
      (done ++ failed).Perm pending ∧
      (∀ doc ∈ done, ∃ k item, Answered (fun k => responses (attempt + k))
        (bulkFrom maxBulkRetries responses attempt pending).2 k doc item ∧ item.Succeeded) ∧
      (∀ k again, (bulkFrom maxBulkRetries responses attempt pending).2[k + 1]? = some again →
        ∀ doc ∈ again, ∃ item, Answered (fun k => responses (attempt + k))
          (bulkFrom maxBulkRetries responses attempt pending).2 k doc item ∧ item.status = 429) ∧
      (∀ first, (bulkFrom maxBulkRetries responses attempt pending).2[0]? = some first →
        first = pending) ∧
      (bulkFrom maxBulkRetries responses attempt pending).2.length ≤
        maxBulkRetries + 1 - attempt := by
  fun_induction bulkFrom maxBulkRetries responses attempt pending with
  | case1 attempt pending hguard read rest ih =>
    obtain ⟨done, failed, hindexed, herrors, hperm, hdone, hretry⟩ :=
      readItems_spec (attempt < maxBulkRetries) pending ((responses attempt).getD [])
    -- nothing is sent again behind the last attempt
    have hlater : attempt + 1 ≤ maxBulkRetries ∨ read.retry = [] := by
      by_cases hlast : attempt < maxBulkRetries
      · exact .inl hlast
      · refine .inr (List.eq_nil_iff_forall_not_mem.mpr fun doc hdoc => hlast ?_)
        exact of_decide_eq_true (hretry doc hdoc).1
    obtain ⟨done', failed', hindexed', herrors', hperm', hdone', hretry', hfirst', hlength'⟩ :=
      ih hlater
    have hnow {doc : EvidenceSearchDoc} {p : ItemResult → Prop}
        (h : ∃ i : ℕ, pending[i]? = some doc ∧ ∃ item,
          (((responses attempt).getD [])[i]?).join = some item ∧ p item) :
        ∃ item, Answered (fun k => responses (attempt + k)) (pending :: rest.2) 0 doc item ∧
          p item := by
      obtain ⟨i, hi, item, hitem, hp⟩ := h
      exact ⟨item, ⟨pending, rfl, i, hi, hitem⟩, hp⟩
    refine ⟨done ++ done', failed ++ failed', ?_, ?_, ?_, ?_, ?_, ?_, ?_⟩
    · rw [List.length_append, ← hindexed, ← hindexed']
    · rw [List.map_append, List.map_append, ← herrors, ← herrors']
    · have hswap : (done ++ done' ++ (failed ++ failed')).Perm
          (done ++ (failed ++ (done' ++ failed'))) := by
        rw [List.append_assoc, ← List.append_assoc done', ← List.append_assoc failed]
        exact .append_left _ (.append_right _ List.perm_append_comm)
      exact hswap.trans (((hperm'.append_left _).append_left _).trans hperm)
    · intro doc hdoc
      rcases List.mem_append.mp hdoc with hdoc | hdoc
      · exact ⟨0, hnow (hdone doc hdoc)⟩
      · obtain ⟨k, item, hanswered, hsucceeded⟩ := hdone' doc hdoc
        exact ⟨k + 1, item, hanswered.cons, hsucceeded⟩
    · intro k again hagain doc hdoc
      cases k with
      | zero =>
        rw [hfirst' again hagain] at hdoc
        exact hnow (hretry doc hdoc).2
      | succ k =>
        obtain ⟨item, hanswered, hstatus⟩ := hretry' k again hagain doc hdoc
        exact ⟨item, hanswered.cons, hstatus⟩
    · intro first hfirst
      exact (Option.some.inj hfirst).symm
    · have hguard := hguard.1
      show rest.2.length + 1 ≤ maxBulkRetries + 1 - attempt
      have hrest : rest.2.length ≤ maxBulkRetries + 1 - (attempt + 1) := hlength'
      omega
  | case2 attempt pending hguard =>
    have hpending : pending = [] := by
      rcases hleft with hleft | hnil
      · exact not_not.mp fun hne => hguard ⟨hleft, hne⟩
      · exact hnil
    refine ⟨[], [], rfl, rfl, ?_, fun _ h => (nomatch h), fun _ _ h => (nomatch h),
      fun _ h => (nomatch h), Nat.zero_le _⟩
    rw [hpending]
    exact .nil

/-- **Bulk indexing accounts for every document**, whatever is answered. -/
theorem bulkInto_accounts (maxBulkRetries : ℕ) (responses : ℕ → Items)
    (docs : List EvidenceSearchDoc) (hids : (docs.map (·.evidenceItemId)).Nodup) :
    ∃ done, Accounted maxBulkRetries responses docs (bulkInto maxBulkRetries responses docs).1
      (bulkInto maxBulkRetries responses docs).2 done := by
  obtain ⟨done, failed, hindexed, herrors, hperm, hdone, hretry, -, hlength⟩ :=
    @bulkFrom_spec maxBulkRetries responses 0 docs (.inl (Nat.zero_le maxBulkRetries))
  have hzero : (fun k => responses (0 + k)) = responses := by
    funext k
    rw [Nat.zero_add]
  rw [hzero] at hdone hretry
  -- the ids that are counted and reported are those of the documents, in another order
  have hidsPerm := hperm.map (·.evidenceItemId)
  rw [List.map_append, ← herrors] at hidsPerm
  have hnodup := hidsPerm.nodup_iff.mpr hids
  refine ⟨done, hindexed, ?_, hnodup, ?_, ?_, hdone, hretry, hlength⟩
  · intro doc hdoc
    have hreported {doc : EvidenceSearchDoc} (hdoc : doc ∈ failed) :
        doc.evidenceItemId ∈ (bulkFrom maxBulkRetries responses 0 docs).1.errors.map (·.id) :=
      herrors ▸ List.mem_map_of_mem hdoc
    have hdisjoint {doc : EvidenceSearchDoc} (hdoc : doc ∈ done)
        (herror : doc.evidenceItemId ∈
          (bulkFrom maxBulkRetries responses 0 docs).1.errors.map (·.id)) : False :=
      (List.nodup_append.mp hnodup).2.2 _ (List.mem_map_of_mem hdoc) _ herror rfl
    rcases List.mem_append.mp (hperm.mem_iff.mpr hdoc) with h | h
    · exact .inl ⟨h, hdisjoint h⟩
    · exact .inr ⟨hreported h, fun hd => hdisjoint hd (hreported h)⟩
  · intro id hid
    obtain ⟨doc, hdoc, rfl⟩ := List.mem_map.mp (hidsPerm.mem_iff.mp hid)
    exact ⟨doc, hdoc, rfl⟩
  · have hcount := hidsPerm.length_eq
    rw [List.length_append, List.length_map, List.length_map, List.length_map, ← hindexed]
      at hcount
    exact hcount

end Run

/-- A document without content. -/
def emptyDoc (evidenceItemId : JsString) : EvidenceSearchDoc where
  evidenceItemId := evidenceItemId
  tenantId := js "t1"
  kind := .file
  name := []
  extension := none
  mimeType := none
  size := 0
  sha256 := none
  custodianId := none
  custodianEmail := none
  provider := none
  collectionId := none
  importId := none
  importOwnerId := none
  sourcePath := none
  sourceLabels := none
  folder := none
  dates := ⟨none, none, none, none, none, none⟩
  email := none
  audit := none
  headers := none
  addresses := none
  text := none
  ocrPages := none
  tags := none
  tagNames := none
  caseIds := none
  privileged := false
  confidential := false
  processingStatus := .pending
  malwareStatus := .clean
  familyId := none
  parentId := none
  isFamilyChild := false
  bates := none
  hasBeenProduced := false
  indexedAt := []
  docVersion := 0

/-- The first request is answered 429 and 201, the second one 200. -/
def busyAnswers : ℕ → Items
  | 0 => some [some ⟨429, none⟩, some ⟨201, none⟩]
  | _ => some [some ⟨200, none⟩]

theorem bulkInto_accounts_busy :
    ∃ done, Accounted 3 busyAnswers [emptyDoc (js "a"), emptyDoc (js "b")]
      (bulkInto 3 busyAnswers [emptyDoc (js "a"), emptyDoc (js "b")]).1
      (bulkInto 3 busyAnswers [emptyDoc (js "a"), emptyDoc (js "b")]).2 done :=
  bulkInto_accounts 3 busyAnswers [emptyDoc (js "a"), emptyDoc (js "b")] (by decide)

end AegCloudDfir.Search.BulkIndexing
