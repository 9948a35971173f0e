import AegCloudDfir.Audit.Transactions

/-!
# The chain shows tampering

Two tables of one tenant that both verify and end with the same hash hold the same
events. The proof walks back from the end: equal hashes are hashes of equal texts,
a text is the previous hash (64 characters) and the canonical JSON of an event, and
canonical JSON determines every field of the event, the summary up to key order.

SHA-256 is only assumed not to collide on the texts the two walks hash. One edit does
go unnoticed: `event.summary ?? \x7b\x7d` hashes a summary that is JSON `null` like
an empty object.
-/

namespace AegCloudDfir

variable {N : Type}

/-- The table `audit_events` of a database. -/
structure AuditTable (N : Type) where
  rows : List (AuditRow N)
  /-- ids are the primary key -/
  primaryKey : (rows.map AuditRow.id).Nodup

/-- The summary that is hashed for a row. -/
def AuditRow.hashedSummary (r : AuditRow N) : JsVal N := r.rehashed.summary

/-- Two rows agree on everything that is hashed; summaries up to key order. -/
structure SameHashed (r s : AuditRow N) : Prop where
  prevEventHash : r.prevEventHash = s.prevEventHash
  tenantId : r.event.tenantId = s.event.tenantId
  sequence : r.event.sequence = s.event.sequence
  actorUserId : r.event.actorUserId = s.event.actorUserId
  actorDisplay : r.event.actorDisplay = s.event.actorDisplay
  effectiveRoles : r.event.effectiveRoles = s.event.effectiveRoles
  action : r.event.action = s.event.action
  targetType : r.event.targetType = s.event.targetType
  targetId : r.event.targetId = s.event.targetId
  requestId : r.event.requestId = s.event.requestId
  ipAddress : r.event.ipAddress = s.event.ipAddress
  userAgent : r.event.userAgent = s.event.userAgent
  summary : SameJson r.hashedSummary s.hashedSummary
  occurredAt : r.event.occurredAt = s.event.occurredAt

variable [JsNumber N]

/-- The text that is hashed when a row is verified. -/
def AuditRow.hashedText (r : AuditRow N) : Except JsError JsString := do
  let text ← Database.canonicalJson (.obj r.rehashed.entries)
  pure (r.prevEventHash ++ text)

/-- SHA-256 does not collide on the texts of the rows. -/
def CollisionFree (sha256 : JsString → JsString) (rows : List (AuditRow N)) : Prop :=
  ∀ r ∈ rows, ∀ s ∈ rows, ∀ x y, r.hashedText = .ok x → s.hashedText = .ok y →
    sha256 x = sha256 y → x = y

/-! ## Reading an event back from its text -/

omit [JsNumber N] in
theorem JsonTree.isUndefined {v : JsVal N} (h : JsonTree v) : v.isUndefined = false := by
  cases h <;> rfl

omit [JsNumber N] in
/-- The hashed summary is JSON with nothing undefined in it. -/
theorem AuditRow.hashedSummary_json (r : AuditRow N) :
    JsonTree r.hashedSummary ∧ dropUndefined r.hashedSummary = r.hashedSummary := by
  rw [hashedSummary, rehashed, HashableEvent.withSummary]
  simp only
  split_ifs
  · exact ⟨.obj List.nodup_nil (by simp), rfl⟩
  · exact ⟨r.event.summary.tree, r.event.summary.plain⟩

/-- The tree of a verified row. -/
def AuditRow.trees (r : AuditRow N) : List (JsString × Json N) := r.rehashed.trees

theorem AuditRow.canonicalJson_rehashed (r : AuditRow N) :
    Database.canonicalJson (.obj r.rehashed.entries) =
      .ok (Json.obj (sortByKey r.trees)).render :=
  canonicalJson_entries r.hashedSummary_json.1.serializable r.hashedSummary_json.1.isUndefined

omit [JsNumber N] in
/-- Distinct keys in a known order can be sorted back. -/
theorem eq_of_sortByKey_eq {α : Type} {es fs : List (JsString × α)}
    (hkeys : es.map Prod.fst = fs.map Prod.fst) (hnodup : (fs.map Prod.fst).Nodup)
    (h : sortByKey es = sortByKey fs) : es = fs := by
  have hmem := (sortByKey_eq_iff (hkeys ▸ hnodup) hnodup).mp h
  refine List.ext_getElem? fun i => ?_
  have hkey : es[i]?.map Prod.fst = fs[i]?.map Prod.fst := by
    rw [← List.getElem?_map, ← List.getElem?_map, hkeys]
  rcases he : es[i]? with _ | e <;> rcases hf : fs[i]? with _ | f
  · rfl
  · rw [he, hf] at hkey
    cases hkey
  · rw [he, hf] at hkey
    cases hkey
  · rw [he, hf] at hkey
    have hkey : e.1 = f.1 := Option.some.inj hkey
    have hes : (e.1, e.2) ∈ fs := (hmem e).mp (List.mem_of_getElem? he)
    have hfs : (e.1, f.2) ∈ fs := by
      rw [hkey]
      exact List.mem_of_getElem? hf
    exact congrArg some (Prod.ext hkey (eq_of_key_eq hnodup hes hfs))

/-- The keys of an event. -/
def eventKeys : List JsString :=
  [js "tenantId", js "sequence", js "actorUserId", js "actorDisplay", js "effectiveRoles",
    js "action", js "targetType", js "targetId", js "requestId", js "ipAddress", js "userAgent",
    js "summary", js "occurredAt"]

theorem nodup_eventKeys : eventKeys.Nodup := by decide +kernel

omit [JsNumber N] in
theorem AuditRow.keys_trees (r : AuditRow N) : r.trees.map Prod.fst = eventKeys := rfl

omit [JsNumber N] in
theorem canonical_str_map_injective {xs ys : List JsString}
    (h : canonical (N := N) (.arr (xs.map .str)) = canonical (.arr (ys.map .str))) : xs = ys := by
  simp only [canonical, canonicalElements_eq, Json.arr.injEq, List.map_map] at h
  refine List.map_injective_iff.mpr (fun a b hab => ?_) h
  simpa only [Function.comp_apply, canonical, Json.str.injEq] using hab

omit [JsNumber N] in
/-- **The tree of an event determines its fields.** -/
theorem sameHashed_of_trees_eq {r s : AuditRow N}
    (hprev : r.prevEventHash = s.prevEventHash) (h : r.trees = s.trees) : SameHashed r s := by
  simp only [AuditRow.trees, HashableEvent.trees, HashableEvent.entries, List.map_cons,
    List.map_nil, List.cons.injEq, Prod.mk.injEq, true_and, and_true] at h
  obtain ⟨h₁, h₂, h₃, h₄, h₅, h₆, h₇, h₈, h₉, h₁₀, h₁₁, h₁₂, h₁₃⟩ := h
  have hstr : ∀ {a b : JsString}, canonical (N := N) (.str a) = canonical (.str b) → a = b :=
    fun hab => Json.str.inj hab
  have hr := r.hashedSummary_json
  have hs := s.hashedSummary_json
  have hsummary := (canonical_eq_iff hr.1 hs.1).mp h₁₂
  rw [hr.2, hs.2] at hsummary
  exact {
    prevEventHash := hprev
    tenantId := hstr h₁
    sequence := decimalInt_injective (hstr h₂)
    actorUserId := hstr h₃
    actorDisplay := hstr h₄
    effectiveRoles := canonical_str_map_injective h₅
    action := hstr h₆
    targetType := hstr h₇
    targetId := hstr h₈
    requestId := hstr h₉
    ipAddress := hstr h₁₀
    userAgent := hstr h₁₁
    summary := hsummary
    occurredAt := toISOString_injective (hstr h₁₃) }

/-! ## Walking back from the head -/

section Chains

variable {sha256 : JsString → JsString}

/-- Rows with equal hashes and prefixes of one length agree on what is hashed. -/
theorem sameHashed_of_hash_eq {r s : AuditRow N} {prev prev' : JsString} {next next' : ℤ}
    {rs ss : List (AuditRow N)} (hr : Chained sha256 prev next (r :: rs))
    (hs : Chained sha256 prev' next' (s :: ss)) (hlen : prev.length = prev'.length)
    (hfree : CollisionFree sha256 [r, s]) (heq : r.eventHash = s.eventHash) :
    prev = prev' ∧ SameHashed r s := by
  obtain ⟨-, hrprev, hrhash, -⟩ := hr
  obtain ⟨-, hsprev, hshash, -⟩ := hs
  have htext : ∀ t : AuditRow N, t.hashedText =
      .ok (t.prevEventHash ++ (Json.obj (sortByKey t.trees)).render) := by
    intro t
    rw [AuditRow.hashedText, t.canonicalJson_rehashed]
    rfl
  rw [computeEventHash, r.canonicalJson_rehashed, ← hrprev] at hrhash
  rw [computeEventHash, s.canonicalJson_rehashed, ← hsprev] at hshash
  have hsha := (Except.ok.inj hrhash).trans (heq.trans (Except.ok.inj hshash).symm)
  have happend := hfree r (by simp) s (by simp) _ _ (htext r) (htext s) hsha
  obtain ⟨hprev, hrender⟩ := List.append_inj happend (by rw [hrprev, hsprev, hlen])
  have hsorted := Json.obj.inj (Json.render_injective hrender)
  have hkeys : r.trees.map Prod.fst = s.trees.map Prod.fst :=
    r.keys_trees.trans s.keys_trees.symm
  have hnodup : (s.trees.map Prod.fst).Nodup := by
    rw [s.keys_trees]
    exact nodup_eventKeys
  have htrees : r.trees = s.trees := eq_of_sortByKey_eq hkeys hnodup hsorted
  rw [← hrprev, ← hsprev]
  exact ⟨hprev, sameHashed_of_trees_eq hprev htrees⟩

omit [JsNumber N] in
theorem CollisionFree.mono {xs ys : List (AuditRow N)} [JsNumber N]
    (h : CollisionFree sha256 ys) (hsub : ∀ r ∈ xs, r ∈ ys) : CollisionFree sha256 xs :=
  fun r hr s hs => h r (hsub r hr) s (hsub s hs)

/-- **Two chains of one length with one head hold the same events.** -/
theorem Chained.sameHashed (hlength : ∀ text, (sha256 text).length = 64)
    {xs ys : List (AuditRow N)} {prev prev' : JsString} {next : ℤ}
    (hx : Chained sha256 prev next xs) (hy : Chained sha256 prev' next ys)
    (hprev : prev.length = 64) (hprev' : prev'.length = 64) (hlen : xs.length = ys.length)
    (hfree : CollisionFree sha256 (xs ++ ys)) (hhead : headHash prev xs = headHash prev' ys) :
    prev = prev' ∧ List.Forall₂ SameHashed xs ys := by
  induction xs generalizing ys prev prev' next with
  | nil =>
    cases ys with
    | nil => exact ⟨hhead, .nil⟩
    | cons s ss => cases hlen
  | cons r rs ih =>
    cases ys with
    | nil => cases hlen
    | cons s ss =>
      have hhash64 : ∀ {q : JsString} {m : ℤ} {t : AuditRow N} {ts : List (AuditRow N)},
          Chained sha256 q m (t :: ts) → t.eventHash.length = 64 := by
        rintro q m t ts ⟨-, -, hhash, -⟩
        rw [computeEventHash, t.canonicalJson_rehashed] at hhash
        rw [← Except.ok.inj hhash]
        exact hlength _
      rw [headHash_cons, headHash_cons] at hhead
      -- the rest of the chain gives the hash of this event
      have hsub : ∀ t ∈ rs ++ ss, t ∈ r :: rs ++ s :: ss := by
        intro t ht
        rcases List.mem_append.mp ht with ht | ht
        · exact List.mem_append_left _ (List.mem_cons_of_mem _ ht)
        · exact List.mem_append_right _ (List.mem_cons_of_mem _ ht)
      have hrest := ih hx.2.2.2 hy.2.2.2 (hhash64 hx) (hhash64 hy) (Nat.succ.inj hlen)
        (hfree.mono hsub) hhead
      have hthis := sameHashed_of_hash_eq hx hy (hprev.trans hprev'.symm)
        (hfree.mono (by simp)) hrest.1
      exact ⟨hthis.1, .cons hthis.2 hrest.2⟩

theorem Chained.length_headHash (hlength : ∀ text, (sha256 text).length = 64)
    {xs : List (AuditRow N)} {prev : JsString} {next : ℤ} (hx : Chained sha256 prev next xs)
    (hprev : prev.length = 64) : (headHash prev xs).length = 64 := by
  induction xs generalizing prev next with
  | nil => exact hprev
  | cons r rs ih =>
    obtain ⟨-, -, hhash, hrest⟩ := hx
    rw [computeEventHash, r.canonicalJson_rehashed] at hhash
    rw [headHash_cons]
    refine ih hrest ?_
    rw [← Except.ok.inj hhash]
    exact hlength _

/-- Chains that end with the same hash are of one length: the last event holds its
number. -/
theorem Chained.length_eq (hlength : ∀ text, (sha256 text).length = 64)
    {xs ys : List (AuditRow N)} (hx : Chained sha256 genesisHash 1 xs)
    (hy : Chained sha256 genesisHash 1 ys) (hfree : CollisionFree sha256 (xs ++ ys))
    (hhead : xs.getLast?.map AuditRow.eventHash = ys.getLast?.map AuditRow.eventHash) :
    xs.length = ys.length := by
  rcases List.eq_nil_or_concat xs with rfl | ⟨init, r, rfl⟩ <;>
    rcases List.eq_nil_or_concat ys with rfl | ⟨init', s, rfl⟩
  · rfl
  · simp at hhead
  · simp at hhead
  · simp only [List.concat_eq_append] at hx hy hfree hhead ⊢
    obtain ⟨hinit, hr⟩ := Chained.append.mp hx
    obtain ⟨hinit', hs⟩ := Chained.append.mp hy
    have heq : r.eventHash = s.eventHash := by simpa using hhead
    have hlen : (headHash genesisHash init).length = (headHash genesisHash init').length :=
      (hinit.length_headHash hlength rfl).trans (hinit'.length_headHash hlength rfl).symm
    have hsame := (sameHashed_of_hash_eq hr hs hlen (hfree.mono (by simp)) heq).2.sequence
    have hrseq := hr.1
    have hsseq := hs.1
    simp only [List.length_append, List.length_singleton]
    omega

end Chains

/-- **Tampering shows.** Two tables of a tenant that both verify and whose last
events have the same hash hold the same events: as many of them, and the same in
every hashed field. A table that differs from a verified one anywhere but keeps the
head hash does not verify. -/
theorem auditChain_tamper_evident {sha256 : JsString → JsString}
    (hlength : ∀ text, (sha256 text).length = 64) {T U : AuditTable N} {tenantId : JsString}
    {p q : ℕ} (hp : 1 ≤ p) (hq : 1 ≤ q) {v w : AuditChainVerification}
    (hT : verifyAuditChain sha256 T.rows tenantId p = some (.ok v)) (hv : v.valid = true)
    (hU : verifyAuditChain sha256 U.rows tenantId q = some (.ok w)) (hw : w.valid = true)
    (hfree : CollisionFree sha256 (tenantEvents T.rows tenantId ++ tenantEvents U.rows tenantId))
    (hhead : (tenantEvents T.rows tenantId).getLast?.map AuditRow.eventHash =
      (tenantEvents U.rows tenantId).getLast?.map AuditRow.eventHash) :
    v.checkedCount = w.checkedCount ∧
      List.Forall₂ SameHashed (tenantEvents T.rows tenantId) (tenantEvents U.rows tenantId) := by
  have hid : ∀ table : AuditTable N, ((tenantEvents table.rows tenantId).map AuditRow.id).Nodup := by
    intro table
    have hsub := table.primaryKey.sublist
      ((List.filter_sublist (p := fun r => r.event.tenantId = tenantId)).map AuditRow.id)
    exact ((List.perm_insertionSort _ _).map AuditRow.id).nodup_iff.mpr hsub
  obtain ⟨hTchain, rfl⟩ := (verifyAuditChain_valid_iff hp (hid T)).mp ⟨hT, hv⟩
  obtain ⟨hUchain, rfl⟩ := (verifyAuditChain_valid_iff hq (hid U)).mp ⟨hU, hw⟩
  have hlen := hTchain.length_eq hlength hUchain hfree hhead
  have hhash : headHash genesisHash (tenantEvents T.rows tenantId) =
      headHash genesisHash (tenantEvents U.rows tenantId) := by
    rw [headHash, hhead, headHash]
  exact ⟨hlen, (hTchain.sameHashed hlength hUchain rfl rfl hlen hfree hhash).2⟩

/-! One event with the empty summary, and with JSON `null` in its place. -/

/-- `exampleInput` as it is stored, with a summary. -/
def exampleRow (id : ℕ) (summary : JsonValue ℤ) : AuditRow ℤ where
  id := id
  event := (hashable none exampleInput 0).withSummary summary
  prevEventHash := genesisHash
  eventHash := exampleHash

/-- The table of that one event. -/
def exampleTable (id : ℕ) (summary : JsonValue ℤ) : AuditTable ℤ where
  rows := [exampleRow id summary]
  primaryKey := List.nodup_singleton _

/-- The digest of the one text that is hashed. -/
def exampleSha256 (text : JsString) : JsString :=
  if text = genesisHash ++ exampleText "1" then exampleHash else genesisHash

theorem length_exampleSha256 (text : JsString) : (exampleSha256 text).length = 64 := by
  rw [exampleSha256]
  split_ifs <;> rfl

/-- JSON `null`. -/
def nullValue : JsonValue ℤ := ⟨.null, .null, rfl⟩

theorem jsonTree_empty : JsonTree (.obj [] : JsVal ℤ) := .obj List.nodup_nil (by simp)

theorem dropUndefined_empty : dropUndefined (.obj [] : JsVal ℤ) = .obj [] := rfl

/-- The empty object. -/
def emptyValue : JsonValue ℤ := ⟨.obj [], jsonTree_empty, dropUndefined_empty⟩

theorem collisionFree_example {rows : List (AuditRow ℤ)}
    (h : ∀ r ∈ rows, r.hashedText = .ok (genesisHash ++ exampleText "1")) :
    CollisionFree exampleSha256 rows := by
  intro r hr s hs x y hx hy _
  rw [h r hr] at hx
  rw [h s hs] at hy
  exact (Except.ok.inj hx).symm.trans (Except.ok.inj hy)

theorem canonicalJson_exampleRow {id : ℕ} {summary : JsonValue ℤ}
    (h : summary.val = .null ∨ summary.val = .obj []) :
    Database.canonicalJson (.obj (exampleRow id summary).rehashed.entries) =
      .ok (exampleText "1") := by
  have hrehashed : (exampleRow id summary).rehashed = hashable none exampleInput 0 := by
    obtain ⟨val, tree, plain⟩ := summary
    rcases h with rfl | rfl <;> rfl
  rw [hrehashed, canonicalJson_exampleInput]

theorem hashedText_exampleRow {id : ℕ} {summary : JsonValue ℤ}
    (h : summary.val = .null ∨ summary.val = .obj []) :
    (exampleRow id summary).hashedText = .ok (genesisHash ++ exampleText "1") := by
  rw [AuditRow.hashedText, canonicalJson_exampleRow h]
  rfl

theorem tenantEvents_exampleTable (id : ℕ) (summary : JsonValue ℤ) :
    tenantEvents (exampleTable id summary).rows (js "t1") = [exampleRow id summary] := by
  have hmem : (exampleRow id summary).event.tenantId = js "t1" := rfl
  simp [tenantEvents, ofTenant, exampleTable, hmem]

/-- The one event is a chain, in pages of any size. -/
theorem verifyAuditChain_exampleTable {id : ℕ} {summary : JsonValue ℤ}
    (h : summary.val = .null ∨ summary.val = .obj []) {pageSize : ℕ} (hsize : 1 ≤ pageSize) :
    verifyAuditChain exampleSha256 (exampleTable id summary).rows (js "t1") pageSize =
      some (.ok ⟨true, 1, none, []⟩) := by
  have hchained : Chained exampleSha256 genesisHash 1
      (tenantEvents (exampleTable id summary).rows (js "t1")) := by
    rw [tenantEvents_exampleTable]
    refine ⟨rfl, rfl, ?_, trivial⟩
    rw [computeEventHash, canonicalJson_exampleRow h]
    exact congrArg Except.ok (if_pos rfl)
  have hid : ((tenantEvents (exampleTable id summary).rows (js "t1")).map AuditRow.id).Nodup := by
    rw [tenantEvents_exampleTable]
    exact List.nodup_singleton _
  refine ((verifyAuditChain_valid_iff hsize hid).mpr ⟨hchained, ?_⟩).1
  rw [tenantEvents_exampleTable]
  rfl

/-- **A summary replaced by JSON `null` goes unnoticed** where it was the empty
object. -/
theorem auditChain_null_summary :
    (∀ text, (exampleSha256 text).length = 64) ∧
    CollisionFree exampleSha256
      (tenantEvents (exampleTable 0 emptyValue).rows (js "t1") ++
        tenantEvents (exampleTable 0 nullValue).rows (js "t1")) ∧
    verifyAuditChain exampleSha256 (exampleTable 0 emptyValue).rows (js "t1") 1000 =
      some (.ok ⟨true, 1, none, []⟩) ∧
    verifyAuditChain exampleSha256 (exampleTable 0 nullValue).rows (js "t1") 1000 =
      some (.ok ⟨true, 1, none, []⟩) ∧
    (tenantEvents (exampleTable 0 emptyValue).rows (js "t1")).getLast?.map AuditRow.eventHash =
      (tenantEvents (exampleTable 0 nullValue).rows (js "t1")).getLast?.map AuditRow.eventHash ∧
    ¬ List.Forall₂ (fun r s : AuditRow ℤ => SameJson r.event.summary.val s.event.summary.val)
      (tenantEvents (exampleTable 0 emptyValue).rows (js "t1"))
      (tenantEvents (exampleTable 0 nullValue).rows (js "t1")) := by
  rw [tenantEvents_exampleTable, tenantEvents_exampleTable]
  refine ⟨length_exampleSha256, collisionFree_example ?_, ?_, ?_, rfl, ?_⟩
  · intro r hr
    rcases List.mem_append.mp hr with hr | hr
    · rw [List.mem_singleton.mp hr]
      exact hashedText_exampleRow (.inr rfl)
    · rw [List.mem_singleton.mp hr]
      exact hashedText_exampleRow (.inl rfl)
  · exact verifyAuditChain_exampleTable (.inr rfl) (by decide)
  · exact verifyAuditChain_exampleTable (.inl rfl) (by decide)
  · intro h
    cases h with
    | cons hsame _ => cases hsame

/-- Two copies of the event under different ids, read in pages of different sizes. -/
theorem auditChain_tamper_evident_example :
    (⟨true, 1, none, []⟩ : AuditChainVerification).checkedCount =
        (⟨true, 1, none, []⟩ : AuditChainVerification).checkedCount ∧
      List.Forall₂ SameHashed
        (tenantEvents (exampleTable 0 emptyValue).rows (js "t1"))
        (tenantEvents (exampleTable 7 emptyValue).rows (js "t1")) := by
  have hT : verifyAuditChain exampleSha256 (exampleTable 0 emptyValue).rows (js "t1") 1000 =
      some (.ok ⟨true, 1, none, []⟩) :=
    verifyAuditChain_exampleTable (.inr rfl) (by decide)
  have hU : verifyAuditChain exampleSha256 (exampleTable 7 emptyValue).rows (js "t1") 1 =
      some (.ok ⟨true, 1, none, []⟩) :=
    verifyAuditChain_exampleTable (.inr rfl) (le_refl 1)
  have hfree : CollisionFree exampleSha256
      (tenantEvents (exampleTable 0 emptyValue).rows (js "t1") ++
        tenantEvents (exampleTable 7 emptyValue).rows (js "t1")) := by
    rw [tenantEvents_exampleTable, tenantEvents_exampleTable]
    refine collisionFree_example fun r hr => ?_
    rcases List.mem_append.mp hr with hr | hr <;> rw [List.mem_singleton.mp hr]
    · exact hashedText_exampleRow (.inr rfl)
    · exact hashedText_exampleRow (.inr rfl)
  have hhead : (tenantEvents (exampleTable 0 emptyValue).rows (js "t1")).getLast?.map
        AuditRow.eventHash =
      (tenantEvents (exampleTable 7 emptyValue).rows (js "t1")).getLast?.map
        AuditRow.eventHash := by
    rw [tenantEvents_exampleTable, tenantEvents_exampleTable]
    rfl
  exact auditChain_tamper_evident length_exampleSha256 (by decide) (by decide)
    hT rfl hU rfl hfree hhead

end AegCloudDfir
