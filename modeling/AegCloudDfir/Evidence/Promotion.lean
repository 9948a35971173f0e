import AegCloudDfir.Evidence.ObjectKeys
import AegCloudDfir.Lib.Transition

/-!
# Promotion

`promoteToOriginal` and `copySized` of `packages/evidence/src/store.ts`: a staged object is copied
to the key that its hash names, and removed. A call is a sequence of requests to S3, each of which
is atomic; between two of them other calls make theirs, and the process may end. A request may also
fail, with or without effect. What a multipart upload has received so far is kept with the call,
since nobody else knows the identifier of the upload.

Two keys matter: what is staged is never changed, only removed, and what is at the key of a hash is
what was staged with that hash. So nothing at such a key changes, and what is removed has been
copied (`promotions_safe`). A call can find its object removed by another call for the same staged
object, and then fails; if calls for one staged object do not overlap (`Own`) it does not.
-/

namespace AegCloudDfir.Evidence.Promotion

open Transition
open Evidence.Keys

/-! ## Calls -/

/-- The buckets of the store. -/
inductive Bucket : Type where
  | evidence
  | quarantine
  deriving DecidableEq

/-- `{ sha256: string; size: number }` -/
structure Expected where
  sha256 : JsString
  size : ℕ
  deriving DecidableEq

/-- The arguments of `promoteToOriginal`. -/
structure Args where
  sourceStagingKey : JsString
  expected : Expected
  quarantine : Bool
  deriving DecidableEq

/-- `PromoteResult` -/
structure PromoteResult where
  objectKey : JsString
  bucket : Bucket
  deriving DecidableEq

/-- What a call throws. -/
inductive PromoteError : Type where
  | keyValidation (message : JsString)
  /-- `IntegrityError`, with the key of its details -/
  | integrity (message key : JsString)
  /-- there is nothing to copy from -/
  | noSuchKey
  /-- a request failed -/
  | failed
  deriving DecidableEq

/-- The request a call makes next. -/
inductive Phase : Type where
  | headDestination
  | deleteDuplicate
  | headStaging
  | copyObject
  | createUpload
  /-- `UploadPartCopy` from `start` on, with the parts so far -/
  | uploadPart (start : ℕ) (parts : List Buffer)
  | completeUpload (parts : List Buffer)
  /-- `AbortMultipartUpload`, because of an error -/
  | abortUpload (error : PromoteError)
  | headCopied
  | deleteStaging
  deriving DecidableEq

/-- How far a call is. -/
inductive Status : Type where
  | active (dest : PromoteResult) (phase : Phase)
  | finished (result : Except PromoteError PromoteResult)
  | crashed
  deriving DecidableEq

/-- A call. -/
structure Execution where
  args : Args
  status : Status
  deriving DecidableEq

/-- What is stored. -/
abbrev Objects : Type := Bucket → JsString → Option Buffer

/-- The objects after one has been written or removed. -/
def Objects.set (objects : Objects) (bucket : Bucket) (key : JsString) (object : Option Buffer) :
    Objects := fun b k => if b = bucket ∧ k = key then object else objects b k

/-! ## What a call does -/

/-- `MAX_SINGLE_PART_COPY_BYTES` -/
def maxSinglePartCopyBytes : ℕ := 5 * 1024 ^ 3

/-- `COPY_PART_BYTES` -/
def copyPartBytes : ℕ := 512 * 1024 ^ 2

/-- `MAX_COPY_PARTS` -/
def maxCopyParts : ℕ := 10000

/-- `copyPartSize` -/
def copyPartSize (size : ℕ) : ℕ := max copyPartBytes ((size + maxCopyParts - 1) / maxCopyParts)

/-- A key of the class `staging`, in the tenant. -/
def isStagingKey (tenantId key : JsString) : Bool :=
  match assertKeyInTenant tenantId key with
  | .ok () => keyClass key = .staging
  | .error _ => false

/-- `destKey` and `destBucket` -/
def destination (tenantId sha256 : JsString) (quarantine : Bool) :
    Except KeyValidationError PromoteResult := do
  if quarantine then
    let key ← quarantineKey tenantId sha256
    pure ⟨key, .quarantine⟩
  else
    let key ← originalKey tenantId sha256
    pure ⟨key, .evidence⟩

/-- What is checked of the arguments. Sizes are natural numbers here. -/
def validate (tenantId : JsString) (args : Args) : Except KeyValidationError PromoteResult := do
  assertKeyInTenant tenantId args.sourceStagingKey
  if keyClass args.sourceStagingKey ≠ .staging then
    throw ⟨js "promoteToOriginal requires a staging-class key"⟩
  if ¬ isSha256Hex args.expected.sha256 then
    throw ⟨js "expected.sha256 must be 64 lowercase hex characters"⟩
  destination tenantId args.expected.sha256 args.quarantine

/-- A call up to its first request. -/
def start (tenantId : JsString) (args : Args) : Status :=
  match validate tenantId args with
  | .ok dest => .active dest .headDestination
  | .error error => .finished (.error (.keyValidation error.message))

/-- The next round of the loop over the parts, or what comes behind it. -/
def nextPart (size start : ℕ) (parts : List Buffer) : Phase :=
  if start < size then .uploadPart start parts else .completeUpload parts

/-- A request, with the objects it leaves and what the call does of the answer. -/
def request (objects : Objects) (args : Args) (dest : PromoteResult) : Phase → Objects × Status
  | .headDestination =>
    match objects dest.bucket dest.objectKey with
    | some existing =>
      if existing.length ≠ args.expected.size then
        (objects, .finished (.error (.integrity
          (js "destination object already exists with a different size; refusing to touch it")
          dest.objectKey)))
      else (objects, .active dest .deleteDuplicate)
    | none => (objects, .active dest .headStaging)
  | .deleteDuplicate =>
    (objects.set .evidence args.sourceStagingKey none, .finished (.ok dest))
  | .headStaging =>
    match objects .evidence args.sourceStagingKey with
    | none => (objects, .finished (.error (.integrity (js "staging object not found")
        args.sourceStagingKey)))
    | some staged =>
      if staged.length ≠ args.expected.size then
        (objects, .finished (.error (.integrity
          (js "staging object size does not match expected size") args.sourceStagingKey)))
      else if args.expected.size ≤ maxSinglePartCopyBytes then (objects, .active dest .copyObject)
      else (objects, .active dest .createUpload)
  | .copyObject =>
    match objects .evidence args.sourceStagingKey with
    | none => (objects, .finished (.error .noSuchKey))
    | some bytes =>
      (objects.set dest.bucket dest.objectKey (some bytes), .active dest .headCopied)
  | .createUpload => (objects, .active dest (nextPart args.expected.size 0 []))
  | .uploadPart start parts =>
    match objects .evidence args.sourceStagingKey with
    | none => (objects, .active dest (.abortUpload .noSuchKey))
    | some bytes =>
      let stop := min (start + copyPartSize args.expected.size) args.expected.size
      -- a range beyond the object is refused
      if bytes.length < stop then (objects, .active dest (.abortUpload .failed))
      else
        let part := (bytes.take stop).drop start
        (objects, .active dest (nextPart args.expected.size
          (start + copyPartSize args.expected.size) (parts ++ [part])))
  | .completeUpload parts =>
    (objects.set dest.bucket dest.objectKey (some parts.flatten), .active dest .headCopied)
  | .abortUpload error => (objects, .finished (.error error))
  | .headCopied =>
    match objects dest.bucket dest.objectKey with
    | some copied =>
      if copied.length = args.expected.size then (objects, .active dest .deleteStaging)
      else (objects, .finished (.error (.integrity
        (js "copied object failed post-copy size verification") dest.objectKey)))
    | none => (objects, .finished (.error (.integrity
        (js "copied object failed post-copy size verification") dest.objectKey)))
  | .deleteStaging =>
    (objects.set .evidence args.sourceStagingKey none, .finished (.ok dest))

/-- What the call does if the request fails. -/
def onFailure (dest : PromoteResult) : Phase → Status
  | .uploadPart _ _ => .active dest (.abortUpload .failed)
  | .completeUpload _ => .active dest (.abortUpload .failed)
  | .abortUpload error => .finished (.error error)
  | _ => .finished (.error .failed)

/-! ## The system -/

/-- The objects, and the calls in the order in which they began. -/
structure System where
  objects : Objects
  calls : List Execution

/-- Nothing stored, nothing called. -/
def System.empty : System := ⟨fun _ _ => none, []⟩

/-- What can come next. -/
inductive Event : Type where
  /-- an object is staged -/
  | stage (key : JsString)
  | call (args : Args)
  /-- a call makes its next request -/
  | advance (i : ℕ)
  /-- the next request of a call fails, with or without effect -/
  | fail (i : ℕ) (applied : Bool)
  | crash (i : ℕ)
  deriving DecidableEq

/-- What an event does. `content` is what is staged under a key. -/
def step (tenantId : JsString) (content : JsString → Buffer) (s : System) :
    Event → Option System
  | .stage key =>
    if isStagingKey tenantId key then
      some { s with objects := s.objects.set .evidence key (some (content key)) }
    else none
  | .call args => some { s with calls := s.calls ++ [⟨args, start tenantId args⟩] }
  | .advance i =>
    match s.calls[i]? with
    | some ⟨args, .active dest phase⟩ =>
      some ⟨(request s.objects args dest phase).1,
        s.calls.set i ⟨args, (request s.objects args dest phase).2⟩⟩
    | _ => none
  | .fail i applied =>
    match s.calls[i]? with
    | some ⟨args, .active dest phase⟩ =>
      some ⟨if applied then (request s.objects args dest phase).1 else s.objects,
        s.calls.set i ⟨args, onFailure dest phase⟩⟩
    | _ => none
  | .crash i =>
    match s.calls[i]? with
    | some ⟨args, .active _ _⟩ => some { s with calls := s.calls.set i ⟨args, .crashed⟩ }
    | _ => none

/-! ## Keys -/

section Keys

variable {tenantId sha256 : JsString} {quarantine : Bool} {dest : PromoteResult}

/-- The class of objects a call writes to. -/
def className (quarantine : Bool) : JsString :=
  if quarantine then js "quarantine" else js "originals"

theorem contentKey_eq_ok {name key : JsString} :
    contentKey name tenantId sha256 = .ok key ↔
      isUuid tenantId = true ∧ isSha256Hex sha256 = true ∧
        key = tenantKey tenantId name [js "sha256", sha256.take 2, sha256] := by
  rw [contentKey, assertUuid, assertSha256Hex]
  by_cases htenant : isUuid tenantId = true
  · by_cases hsha : isSha256Hex sha256 = true
    · rw [if_pos htenant, if_pos hsha]
      refine ⟨fun h => ⟨htenant, hsha, (Except.ok.inj h).symm⟩, ?_⟩
      exact fun h => congrArg Except.ok h.2.2.symm
    · rw [if_pos htenant, if_neg hsha]
      exact iff_of_false (by rintro ⟨⟩) fun h => hsha h.2.1
  · rw [if_neg htenant]
    exact iff_of_false (by rintro ⟨⟩) fun h => htenant h.1

theorem destination_eq_ok :
    destination tenantId sha256 quarantine = .ok dest ↔
      isUuid tenantId = true ∧ isSha256Hex sha256 = true ∧
        dest = ⟨tenantKey tenantId (className quarantine) [js "sha256", sha256.take 2, sha256],
          if quarantine then .quarantine else .evidence⟩ := by
  rw [destination]
  rcases quarantine with _ | _
  · rw [if_neg Bool.false_ne_true, bind_eq_ok]
    refine ⟨?_, ?_⟩
    · rintro ⟨key, hkey, h⟩
      obtain ⟨htenant, hsha, rfl⟩ := contentKey_eq_ok.mp hkey
      exact ⟨htenant, hsha, (Except.ok.inj h).symm⟩
    · rintro ⟨htenant, hsha, rfl⟩
      exact ⟨_, contentKey_eq_ok.mpr ⟨htenant, hsha, rfl⟩, rfl⟩
  · rw [if_pos rfl, bind_eq_ok]
    refine ⟨?_, ?_⟩
    · rintro ⟨key, hkey, h⟩
      obtain ⟨htenant, hsha, rfl⟩ := contentKey_eq_ok.mp hkey
      exact ⟨htenant, hsha, (Except.ok.inj h).symm⟩
    · rintro ⟨htenant, hsha, rfl⟩
      exact ⟨_, contentKey_eq_ok.mpr ⟨htenant, hsha, rfl⟩, rfl⟩

theorem isStagingKey_iff {key : JsString} :
    isStagingKey tenantId key = true ↔
      assertKeyInTenant tenantId key = .ok () ∧ keyClass key = .staging := by
  rw [isStagingKey]
  rcases assertKeyInTenant tenantId key with error | ⟨⟩
  · exact iff_of_false Bool.false_ne_true fun h => by cases h.1
  · exact ⟨fun h => ⟨rfl, of_decide_eq_true h⟩, fun h => decide_eq_true h.2⟩

/-- What is let through. -/
theorem validate_eq_ok {args : Args} : validate tenantId args = .ok dest ↔
    isStagingKey tenantId args.sourceStagingKey = true ∧
      destination tenantId args.expected.sha256 args.quarantine = .ok dest := by
  rw [isStagingKey_iff, validate, bind_eq_ok]
  refine ⟨?_, ?_⟩
  · rintro ⟨⟨⟩, htenant, h⟩
    by_cases hclass : keyClass args.sourceStagingKey = .staging
    · by_cases hsha : isSha256Hex args.expected.sha256 = true
      · rw [if_neg (not_not.mpr hclass), if_neg (not_not.mpr hsha)] at h
        exact ⟨⟨htenant, hclass⟩, h⟩
      · rw [if_neg (not_not.mpr hclass), if_pos hsha] at h
        cases h
    · rw [if_pos hclass] at h
      cases h
  · rintro ⟨⟨htenant, hclass⟩, h⟩
    refine ⟨(), htenant, ?_⟩
    rw [if_neg (not_not.mpr hclass), if_neg (not_not.mpr (destination_eq_ok.mp h).2.1)]
    exact h

/-- The segments of a hash in a key. -/
theorem segment_of_isSha256Hex (h : isSha256Hex sha256 = true) :
    ∀ p ∈ [js "sha256", sha256.take 2, sha256], Segment p := by
  simp only [isSha256Hex, decide_eq_true_eq, List.all_eq_true] at h
  obtain ⟨hlength, hunits⟩ := h
  have hlong : sha256 ≠ [] := List.ne_nil_of_length_pos (hlength ▸ by decide)
  intro p hp
  simp only [List.mem_cons, List.not_mem_nil, or_false] at hp
  rcases hp with rfl | rfl | rfl
  · exact ⟨by decide, by decide, by decide, by decide, by decide⟩
  · refine segment_of_hex (fun hnil => ?_) fun c hc => .inl (hunits c (List.mem_of_mem_take hc))
    rcases List.take_eq_nil_iff.mp hnil with h | h
    · cases h
    · exact hlong h
  · exact segment_of_hex hlong fun c hc => .inl (hunits c hc)

/-- What is copied to is not staging. -/
theorem not_staging_of_destination (h : destination tenantId sha256 quarantine = .ok dest) :
    ¬ (dest.bucket = .evidence ∧ isStagingKey tenantId dest.objectKey = true) := by
  obtain ⟨htenant, hsha, rfl⟩ := destination_eq_ok.mp h
  rintro ⟨hbucket, hkey⟩
  rcases quarantine with _ | _
  · have hclass := (isStagingKey_iff.mp hkey).2
    have hname : Segment (js "originals") :=
      ⟨by decide, by decide, by decide, by decide, by decide⟩
    rw [className, if_neg Bool.false_ne_true, keyClass_tenantKey htenant hname
      (segment_of_isSha256Hex hsha) (List.cons_ne_nil _ _), if_pos rfl] at hclass
    cases hclass
  · cases hbucket

/-- A key names its hash. -/
theorem sha256_eq_of_destination {other : JsString} {quarantine' : Bool}
    (h : destination tenantId sha256 quarantine = .ok dest)
    (h' : destination tenantId other quarantine' = .ok dest) : sha256 = other := by
  obtain ⟨htenant, hsha, rfl⟩ := destination_eq_ok.mp h
  obtain ⟨-, hother, heq⟩ := destination_eq_ok.mp h'
  have hsplit : ∀ {hash : JsString} (q : Bool), isSha256Hex hash = true →
      (tenantKey tenantId (className q) [js "sha256", hash.take 2, hash]).splitOn (unitOf '/') =
        [js "tenants", tenantId, className q, js "sha256", hash.take 2, hash] := by
    intro hash q hhash
    refine splitOn_joinWith _ (List.cons_ne_nil _ _) fun p hp => ?_
    rcases List.mem_cons.mp hp with rfl | hp
    · decide
    rcases List.mem_cons.mp hp with rfl | hp
    · exact (segment_of_isUuid htenant).no_slash
    rcases List.mem_cons.mp hp with rfl | hp
    · cases q <;> decide
    · exact (segment_of_isSha256Hex hhash p hp).no_slash
  have hkeys := congrArg (fun dest => dest.objectKey.splitOn (unitOf '/')) heq
  dsimp only at hkeys
  rw [hsplit quarantine hsha, hsplit quarantine' hother] at hkeys
  simpa using congrArg List.getLast? hkeys

end Keys

/-! ## What holds of the objects -/

section Stored

variable (tenantId : JsString) (content : JsString → Buffer) (sha256 : Buffer → JsString)

/-- What is staged has the hash and the size that calls declare. -/
def Declared (args : Args) : Prop :=
  isStagingKey tenantId args.sourceStagingKey = true → args.expected =
    ⟨sha256 (content args.sourceStagingKey), (content args.sourceStagingKey).length⟩

/-- SHA-256 has no collision among what is staged. -/
def CollisionFree : Prop :=
  Set.InjOn sha256 {bytes | ∃ key, isStagingKey tenantId key = true ∧ content key = bytes}

/-- Staging keys have what was staged there, and the key of a hash has something that was staged
with that hash. -/
structure Stored (objects : Objects) : Prop where
  staged : ∀ key bytes, isStagingKey tenantId key = true → objects .evidence key = some bytes →
    bytes = content key
  addressed : ∀ hash quarantine dest bytes, destination tenantId hash quarantine = .ok dest →
    objects dest.bucket dest.objectKey = some bytes → sha256 bytes = hash ∧
      ∃ key, isStagingKey tenantId key = true ∧ content key = bytes

/-- What a call has done so far. -/
def PhaseOk (objects : Objects) (args : Args) (dest : PromoteResult) : Phase → Prop
  | .deleteDuplicate | .headCopied | .deleteStaging =>
    objects dest.bucket dest.objectKey = some (content args.sourceStagingKey)
  | .uploadPart start parts => start < (content args.sourceStagingKey).length ∧
      parts.flatten = (content args.sourceStagingKey).take start
  | .completeUpload parts => parts.flatten = content args.sourceStagingKey
  | _ => True

/-- Calls were let through, and return where they copied to. -/
def CallOk (objects : Objects) (call : Execution) : Prop :=
  match call.status with
  | .active dest phase => validate tenantId call.args = .ok dest ∧
      Declared tenantId content sha256 call.args ∧ PhaseOk content objects call.args dest phase
  | .finished (.ok dest) => validate tenantId call.args = .ok dest
  | _ => True

/-- The invariant. -/
structure Inv (s : System) : Prop where
  stored : Stored tenantId content sha256 s.objects
  calls : ∀ call ∈ s.calls, CallOk tenantId content sha256 s.objects call

/-- What is at the keys of hashes stays. -/
def Kept (objects objects' : Objects) : Prop :=
  ∀ hash quarantine dest bytes, destination tenantId hash quarantine = .ok dest →
    objects dest.bucket dest.objectKey = some bytes →
      objects' dest.bucket dest.objectKey = some bytes

end Stored

section Change

variable {tenantId : JsString} {content : JsString → Buffer} {sha256 : Buffer → JsString}
  {objects objects' : Objects}

theorem Objects.set_self (objects : Objects) (bucket : Bucket) (key : JsString)
    (object : Option Buffer) : objects.set bucket key object bucket key = object :=
  if_pos ⟨rfl, rfl⟩

theorem Objects.set_of_ne {bucket b : Bucket} {key k : JsString} (object : Option Buffer)
    (h : ¬ (b = bucket ∧ k = key)) : objects.set bucket key object b k = objects b k :=
  if_neg h

/-- Writing removes nothing. -/
theorem Objects.set_some_ne_none {bucket b : Bucket} {key k : JsString} {bytes object : Buffer}
    (h : objects b k = some bytes) : objects.set bucket key (some object) b k ≠ none := by
  rw [Objects.set]
  split_ifs
  · exact Option.some_ne_none object
  · rw [h]
    exact Option.some_ne_none bytes

/-- The key of a hash is not touched when something is staged or removed. -/
theorem set_staging_destination {hash key : JsString} {quarantine : Bool} {dest : PromoteResult}
    (object : Option Buffer) (hkey : isStagingKey tenantId key = true)
    (hdest : destination tenantId hash quarantine = .ok dest) :
    objects.set .evidence key object dest.bucket dest.objectKey =
      objects dest.bucket dest.objectKey := by
  refine Objects.set_of_ne object ?_
  rintro ⟨hbucket, heq⟩
  exact not_staging_of_destination hdest ⟨hbucket, heq ▸ hkey⟩

/-- What a request or a staging does to the objects. -/
inductive Change (tenantId : JsString) (content : JsString → Buffer) (sha256 : Buffer → JsString)
    (objects : Objects) : Objects → Prop where
  | unchanged : Change tenantId content sha256 objects objects
  | staged (key : JsString) (hkey : isStagingKey tenantId key = true) :
    Change tenantId content sha256 objects (objects.set .evidence key (some (content key)))
  | copied (key : JsString) (quarantine : Bool) (dest : PromoteResult)
    (hkey : isStagingKey tenantId key = true)
    (hdest : destination tenantId (sha256 (content key)) quarantine = .ok dest) :
    Change tenantId content sha256 objects
      (objects.set dest.bucket dest.objectKey (some (content key)))
  | removed (key : JsString) (hkey : isStagingKey tenantId key = true) :
    Change tenantId content sha256 objects (objects.set .evidence key none)

/-- What is at a key of the hash of something staged is this. -/
theorem Stored.eq_content (hfree : CollisionFree tenantId content sha256)
    (hstored : Stored tenantId content sha256 objects) {key : JsString} {quarantine : Bool}
    {dest : PromoteResult} {bytes : Buffer} (hkey : isStagingKey tenantId key = true)
    (hdest : destination tenantId (sha256 (content key)) quarantine = .ok dest)
    (hbytes : objects dest.bucket dest.objectKey = some bytes) : bytes = content key := by
  obtain ⟨hhash, hstaged⟩ := hstored.addressed _ _ _ _ hdest hbytes
  exact hfree hstaged ⟨key, hkey, rfl⟩ hhash

/-- **Changes keep what is stored as it should be.** -/
theorem Change.stored (h : Change tenantId content sha256 objects objects')
    (hstored : Stored tenantId content sha256 objects) :
    Stored tenantId content sha256 objects' := by
  cases h with
  | unchanged => exact hstored
  | staged key hkey =>
    refine ⟨fun k bytes hk hbytes => ?_, fun hash q dest bytes hdest hbytes => ?_⟩
    · by_cases heq : k = key
      · subst heq
        rw [Objects.set_self] at hbytes
        exact (Option.some.inj hbytes).symm
      · rw [Objects.set_of_ne _ fun h => heq h.2] at hbytes
        exact hstored.staged k bytes hk hbytes
    · rw [set_staging_destination _ hkey hdest] at hbytes
      exact hstored.addressed hash q dest bytes hdest hbytes
  | copied key quarantine copy hkey hcopy =>
    refine ⟨fun k bytes hk hbytes => ?_, fun hash q dest bytes hdest hbytes => ?_⟩
    · have hne : ¬ (Bucket.evidence = copy.bucket ∧ k = copy.objectKey) := fun h =>
        not_staging_of_destination hcopy ⟨h.1.symm, h.2 ▸ hk⟩
      rw [Objects.set_of_ne _ hne] at hbytes
      exact hstored.staged k bytes hk hbytes
    · by_cases heq : dest.bucket = copy.bucket ∧ dest.objectKey = copy.objectKey
      · obtain rfl : dest = copy := by
          cases dest
          cases copy
          exact congrArg₂ _ heq.2 heq.1
        rw [Objects.set_self] at hbytes
        obtain rfl := Option.some.inj hbytes
        exact ⟨sha256_eq_of_destination hcopy hdest, key, hkey, rfl⟩
      · rw [Objects.set_of_ne _ heq] at hbytes
        exact hstored.addressed hash q dest bytes hdest hbytes
  | removed key hkey =>
    refine ⟨fun k bytes hk hbytes => ?_, fun hash q dest bytes hdest hbytes => ?_⟩
    · by_cases heq : k = key
      · subst heq
        rw [Objects.set_self] at hbytes
        cases hbytes
      · rw [Objects.set_of_ne _ fun h => heq h.2] at hbytes
        exact hstored.staged k bytes hk hbytes
    · rw [set_staging_destination _ hkey hdest] at hbytes
      exact hstored.addressed hash q dest bytes hdest hbytes

/-- **Changes keep what is at the keys of hashes.** -/
theorem Change.kept (h : Change tenantId content sha256 objects objects')
    (hfree : CollisionFree tenantId content sha256)
    (hstored : Stored tenantId content sha256 objects) : Kept tenantId objects objects' := by
  intro hash q dest bytes hdest hbytes
  cases h with
  | unchanged => exact hbytes
  | staged key hkey | removed key hkey =>
    rw [set_staging_destination _ hkey hdest]
    exact hbytes
  | copied key quarantine copy hkey hcopy =>
    by_cases heq : dest.bucket = copy.bucket ∧ dest.objectKey = copy.objectKey
    · -- the same is written again
      have hcopied : objects copy.bucket copy.objectKey = some bytes := by
        rw [← heq.1, ← heq.2]
        exact hbytes
      rw [heq.1, heq.2, Objects.set_self, hstored.eq_content hfree hkey hcopy hcopied]
    · rw [Objects.set_of_ne _ heq]
      exact hbytes

theorem callOk_active {args : Args} {dest : PromoteResult} {phase : Phase} :
    CallOk tenantId content sha256 objects ⟨args, .active dest phase⟩ ↔
      validate tenantId args = .ok dest ∧ Declared tenantId content sha256 args ∧
        PhaseOk content objects args dest phase := Iff.rfl

/-- What is done of calls stays done. -/
theorem Kept.callOk (h : Kept tenantId objects objects') {call : Execution}
    (hcall : CallOk tenantId content sha256 objects call) :
    CallOk tenantId content sha256 objects' call := by
  obtain ⟨args, status⟩ := call
  rcases status with ⟨dest, phase⟩ | result | _
  · obtain ⟨hvalid, hdeclared, hphase⟩ := callOk_active.mp hcall
    refine callOk_active.mpr ⟨hvalid, hdeclared, ?_⟩
    have hdest := (validate_eq_ok.mp hvalid).2
    cases phase with
    | deleteDuplicate | headCopied | deleteStaging => exact h _ _ _ _ hdest hphase
    | _ => exact hphase
  · cases result <;> exact hcall
  · trivial

end Change

/-! ## Requests -/

section Request

variable {tenantId : JsString} {content : JsString → Buffer} {sha256 : Buffer → JsString}
  {objects : Objects} {args : Args} {dest : PromoteResult} {phase : Phase}

/-- The destination of a call is the key of what is staged. -/
theorem destination_declared (hdeclared : Declared tenantId content sha256 args)
    (hkey : isStagingKey tenantId args.sourceStagingKey = true)
    (hdest : destination tenantId args.expected.sha256 args.quarantine = .ok dest) :
    destination tenantId (sha256 (content args.sourceStagingKey)) args.quarantine = .ok dest := by
  rw [hdeclared hkey] at hdest
  exact hdest

/-- The parts up to somewhere make the object up to there. -/
theorem phaseOk_nextPart {start : ℕ} {parts : List Buffer}
    (hsize : args.expected.size = (content args.sourceStagingKey).length)
    (hparts : parts.flatten = (content args.sourceStagingKey).take start) :
    PhaseOk content objects args dest (nextPart args.expected.size start parts) := by
  rw [nextPart]
  split_ifs with hmore
  · exact ⟨hsize ▸ hmore, hparts⟩
  · rw [PhaseOk, hparts, List.take_of_length_le (hsize ▸ Nat.le_of_not_lt hmore)]

/-- A part behind the parts so far. -/
theorem flatten_append_part {parts : List Buffer} {bytes : Buffer} {start stop : ℕ}
    (hparts : parts.flatten = bytes.take start) (hle : start ≤ stop) :
    (parts ++ [(bytes.take stop).drop start]).flatten = bytes.take stop := by
  have htake : bytes.take start = (bytes.take stop).take start := by
    rw [List.take_take, Nat.min_eq_left hle]
  rw [List.flatten_append, hparts, htake, List.flatten_singleton, List.take_append_drop]

theorem copyPartSize_pos (size : ℕ) : 0 < copyPartSize size :=
  Nat.lt_of_lt_of_le (by decide) (Nat.le_max_left _ _)

/-- **A request** changes the objects in one of these ways, and the call goes on as it should. -/
theorem request_spec (hfree : CollisionFree tenantId content sha256)
    (hstored : Stored tenantId content sha256 objects)
    (hcall : CallOk tenantId content sha256 objects ⟨args, .active dest phase⟩) :
    Change tenantId content sha256 objects (request objects args dest phase).1 ∧
      CallOk tenantId content sha256 (request objects args dest phase).1
        ⟨args, (request objects args dest phase).2⟩ := by
  obtain ⟨hvalid, hdeclared, hphase⟩ := callOk_active.mp hcall
  obtain ⟨hkey, hdest⟩ := validate_eq_ok.mp hvalid
  have hexpected := hdeclared hkey
  have hsize : args.expected.size = (content args.sourceStagingKey).length :=
    congrArg Expected.size hexpected
  have hcopy := destination_declared hdeclared hkey hdest
  cases phase with
  | headDestination =>
    rw [request]
    split
    · rename_i existing hexisting
      split_ifs
      · exact ⟨.unchanged, trivial⟩
      · refine ⟨.unchanged, hvalid, hdeclared, ?_⟩
        exact hexisting.trans (congrArg some (hstored.eq_content hfree hkey hcopy hexisting))
    · exact ⟨.unchanged, hvalid, hdeclared, trivial⟩
  | deleteDuplicate | deleteStaging => exact ⟨.removed _ hkey, hvalid⟩
  | headStaging =>
    rw [request]
    split
    · exact ⟨.unchanged, trivial⟩
    · split_ifs
      · exact ⟨.unchanged, trivial⟩
      · exact ⟨.unchanged, hvalid, hdeclared, trivial⟩
      · exact ⟨.unchanged, hvalid, hdeclared, trivial⟩
  | copyObject =>
    rw [request]
    split
    · exact ⟨.unchanged, trivial⟩
    · rename_i bytes hbytes
      obtain rfl := hstored.staged _ _ hkey hbytes
      exact ⟨.copied _ _ dest hkey hcopy, hvalid, hdeclared, Objects.set_self _ _ _ _⟩
  | createUpload => exact ⟨.unchanged, hvalid, hdeclared, phaseOk_nextPart hsize rfl⟩
  | uploadPart start parts =>
    obtain ⟨hstart, hparts⟩ := hphase
    rw [request]
    split
    · exact ⟨.unchanged, hvalid, hdeclared, trivial⟩
    · rename_i bytes hbytes
      obtain rfl := hstored.staged _ _ hkey hbytes
      dsimp only
      split_ifs
      · exact ⟨.unchanged, hvalid, hdeclared, trivial⟩
      · refine ⟨.unchanged, hvalid, hdeclared, phaseOk_nextPart hsize ?_⟩
        have hpos := copyPartSize_pos args.expected.size
        rw [flatten_append_part hparts (by omega), hsize, List.take_eq_take_iff]
        omega
  | completeUpload parts =>
    rw [request, hphase]
    exact ⟨.copied _ _ dest hkey hcopy, hvalid, hdeclared, Objects.set_self _ _ _ _⟩
  | abortUpload error => exact ⟨.unchanged, trivial⟩
  | headCopied =>
    rw [request, hphase]
    dsimp only
    split_ifs
    · exact ⟨.unchanged, hvalid, hdeclared, hphase⟩
    · exact ⟨.unchanged, trivial⟩

/-- What a request removes is what its call is for, and it has been copied. -/
theorem request_removes (hcall : CallOk tenantId content sha256 objects ⟨args, .active dest phase⟩)
    {key : JsString} {bytes : Buffer} (hbefore : objects .evidence key = some bytes)
    (hafter : (request objects args dest phase).1 .evidence key = none) :
    args.sourceStagingKey = key ∧
      objects dest.bucket dest.objectKey = some (content args.sourceStagingKey) := by
  obtain ⟨-, -, hphase⟩ := callOk_active.mp hcall
  have hunchanged : ¬ objects .evidence key = none := by
    rw [hbefore]
    exact Option.some_ne_none bytes
  have hremoved : objects.set .evidence args.sourceStagingKey none .evidence key = none →
      args.sourceStagingKey = key := by
    intro h
    by_contra hne
    rw [Objects.set_of_ne _ fun heq => hne heq.2.symm] at h
    exact hunchanged h
  cases phase with
  | deleteDuplicate | deleteStaging => exact ⟨hremoved hafter, hphase⟩
  | copyObject =>
    rw [request] at hafter
    split at hafter
    · exact absurd hafter hunchanged
    · exact absurd hafter (Objects.set_some_ne_none hbefore)
  | completeUpload parts => exact absurd hafter (Objects.set_some_ne_none hbefore)
  | headDestination | headCopied =>
    rw [request] at hafter
    split at hafter
    · split_ifs at hafter
      all_goals exact absurd hafter hunchanged
    · exact absurd hafter hunchanged
  | headStaging =>
    rw [request] at hafter
    split at hafter
    · exact absurd hafter hunchanged
    · split_ifs at hafter
      all_goals exact absurd hafter hunchanged
  | createUpload | abortUpload error => exact absurd hafter hunchanged
  | uploadPart start parts =>
    rw [request] at hafter
    split at hafter
    · exact absurd hafter hunchanged
    · dsimp only at hafter
      split_ifs at hafter
      all_goals exact absurd hafter hunchanged

/-- A request that fails leaves the call as it should be, too. -/
theorem callOk_onFailure
    (hcall : CallOk tenantId content sha256 objects ⟨args, .active dest phase⟩) :
    CallOk tenantId content sha256 objects ⟨args, onFailure dest phase⟩ := by
  obtain ⟨hvalid, hdeclared, -⟩ := callOk_active.mp hcall
  cases phase with
  | uploadPart | completeUpload => exact ⟨hvalid, hdeclared, trivial⟩
  | _ => trivial

end Request

/-! ## Steps -/

section Step

variable {tenantId : JsString} {content : JsString → Buffer} {sha256 : Buffer → JsString}
  {s s' : System}

/-- Calls declare what is staged. -/
def EventDeclared (tenantId : JsString) (content : JsString → Buffer) (sha256 : Buffer → JsString) :
    Event → Prop
  | .call args => Declared tenantId content sha256 args
  | _ => True

/-- **What can happen**: something is staged, a call begins, makes a request, has one fail, or
ends. -/
theorem step_cases {e : Event} (h : step tenantId content s e = some s') :
    (∃ key, e = .stage key ∧ isStagingKey tenantId key = true ∧
      s' = { s with objects := s.objects.set .evidence key (some (content key)) }) ∨
    (∃ args, e = .call args ∧ s' = { s with calls := s.calls ++ [⟨args, start tenantId args⟩] }) ∨
    (∃ i args dest phase, s.calls[i]? = some ⟨args, .active dest phase⟩ ∧
      ((e = .advance i ∧ s' = ⟨(request s.objects args dest phase).1,
          s.calls.set i ⟨args, (request s.objects args dest phase).2⟩⟩) ∨
        (∃ applied, e = .fail i applied ∧
          s' = ⟨if applied then (request s.objects args dest phase).1 else s.objects,
            s.calls.set i ⟨args, onFailure dest phase⟩⟩) ∨
        (e = .crash i ∧ s' = { s with calls := s.calls.set i ⟨args, .crashed⟩ }))) := by
  cases e with
  | stage key =>
    rw [step] at h
    split_ifs at h with hkey
    exact .inl ⟨key, rfl, hkey, (Option.some.inj h).symm⟩
  | call args => exact .inr (.inl ⟨args, rfl, (Option.some.inj h).symm⟩)
  | advance i =>
    rw [step] at h
    split at h
    · rename_i args dest phase hcall
      exact .inr (.inr ⟨i, args, dest, phase, hcall, .inl ⟨rfl, (Option.some.inj h).symm⟩⟩)
    · cases h
  | fail i applied =>
    rw [step] at h
    split at h
    · rename_i args dest phase hcall
      exact .inr (.inr ⟨i, args, dest, phase, hcall,
        .inr (.inl ⟨applied, rfl, (Option.some.inj h).symm⟩)⟩)
    · cases h
  | crash i =>
    rw [step] at h
    split at h
    · rename_i args dest phase hcall
      exact .inr (.inr ⟨i, args, dest, phase, hcall,
        .inr (.inr ⟨rfl, (Option.some.inj h).symm⟩)⟩)
    · cases h

theorem callOk_start {args : Args} {objects : Objects}
    (hdeclared : Declared tenantId content sha256 args) :
    CallOk tenantId content sha256 objects ⟨args, start tenantId args⟩ := by
  rw [start]
  rcases hvalid : validate tenantId args with error | dest
  · trivial
  · exact callOk_active.mpr ⟨hvalid, hdeclared, trivial⟩

theorem inv_empty : Inv tenantId content sha256 System.empty where
  stored := ⟨by rintro _ _ _ ⟨⟩, by rintro _ _ _ _ _ ⟨⟩⟩
  calls := by rintro _ ⟨⟩

/-- The calls after one of them has changed. -/
theorem callOk_of_mem_set {objects : Objects} {calls : List Execution} {i : ℕ} {call : Execution}
    (hcalls : ∀ c ∈ calls, CallOk tenantId content sha256 objects c)
    (hcall : CallOk tenantId content sha256 objects call) :
    ∀ c ∈ calls.set i call, CallOk tenantId content sha256 objects c := by
  intro c hc
  rcases List.mem_or_eq_of_mem_set hc with hc | rfl
  · exact hcalls c hc
  · exact hcall

/-- **Every step keeps the invariant**, and changes the objects in one of the ways. -/
theorem step_spec (hfree : CollisionFree tenantId content sha256)
    (hinv : Inv tenantId content sha256 s) {e : Event}
    (hdeclared : EventDeclared tenantId content sha256 e)
    (h : step tenantId content s e = some s') :
    Inv tenantId content sha256 s' ∧ Change tenantId content sha256 s.objects s'.objects := by
  have hnext : ∀ {objects : Objects}, Change tenantId content sha256 s.objects objects →
      Stored tenantId content sha256 objects ∧
        ∀ c ∈ s.calls, CallOk tenantId content sha256 objects c := fun hchange =>
    ⟨hchange.stored hinv.stored, fun c hc =>
      (hchange.kept hfree hinv.stored).callOk (hinv.calls c hc)⟩
  rcases step_cases h with ⟨key, rfl, hkey, rfl⟩ | ⟨args, rfl, rfl⟩ |
    ⟨i, args, dest, phase, hcall, ⟨rfl, rfl⟩ | ⟨applied, rfl, rfl⟩ | ⟨rfl, rfl⟩⟩
  · have hchange : Change tenantId content sha256 s.objects
        (s.objects.set .evidence key (some (content key))) := .staged key hkey
    exact ⟨⟨(hnext hchange).1, (hnext hchange).2⟩, hchange⟩
  · refine ⟨⟨hinv.stored, fun c hc => ?_⟩, .unchanged⟩
    rcases List.mem_append.mp hc with hc | hc
    · exact hinv.calls c hc
    · obtain rfl := List.mem_singleton.mp hc
      exact callOk_start hdeclared
  · obtain ⟨hchange, hok⟩ :=
      request_spec hfree hinv.stored (hinv.calls _ (List.mem_of_getElem? hcall))
    exact ⟨⟨(hnext hchange).1, callOk_of_mem_set (hnext hchange).2 hok⟩, hchange⟩
  · have hactive := hinv.calls _ (List.mem_of_getElem? hcall)
    obtain ⟨hchange, -⟩ := request_spec hfree hinv.stored hactive
    rcases applied with _ | _
    · exact ⟨⟨hinv.stored, callOk_of_mem_set hinv.calls (callOk_onFailure hactive)⟩, .unchanged⟩
    · have hkept := hchange.kept hfree hinv.stored
      exact ⟨⟨(hnext hchange).1, callOk_of_mem_set (hnext hchange).2
        (callOk_onFailure (hkept.callOk hactive))⟩, hchange⟩
  · exact ⟨⟨hinv.stored, callOk_of_mem_set hinv.calls trivial⟩, .unchanged⟩

end Step

/-! ## Runs -/

section Run

variable {tenantId : JsString} {content : JsString → Buffer} {sha256 : Buffer → JsString}
  {s t : System} {es : List Event}

/-- What is staged is removed only where it has been copied: to the destination of a call for it,
where there is an object of the size the call expects. -/
def RemovedSafely (tenantId : JsString) (s s' : System) : Prop :=
  ∀ key bytes, isStagingKey tenantId key = true → s.objects .evidence key = some bytes →
    s'.objects .evidence key = none →
      ∃ call ∈ s.calls, call.args.sourceStagingKey = key ∧
        ∃ dest copied, validate tenantId call.args = .ok dest ∧
          s.objects dest.bucket dest.objectKey = some copied ∧
          s'.objects dest.bucket dest.objectKey = some copied ∧
            copied.length = call.args.expected.size

/-- **Removals are safe.** -/
theorem removedSafely_step (hfree : CollisionFree tenantId content sha256)
    (hinv : Inv tenantId content sha256 s) {e : Event}
    (hdeclared : EventDeclared tenantId content sha256 e)
    (h : step tenantId content s e = some t) : RemovedSafely tenantId s t := by
  intro key bytes hkey hbefore hafter
  have hkept : Kept tenantId s.objects t.objects :=
    (step_spec hfree hinv hdeclared h).2.kept hfree hinv.stored
  have hrequest : ∀ (i : ℕ) (args : Args) (dest : PromoteResult) (phase : Phase),
      s.calls[i]? = some ⟨args, .active dest phase⟩ →
      (request s.objects args dest phase).1 .evidence key = none →
      ∃ call ∈ s.calls, call.args.sourceStagingKey = key ∧
        ∃ dest copied, validate tenantId call.args = .ok dest ∧
          s.objects dest.bucket dest.objectKey = some copied ∧
          t.objects dest.bucket dest.objectKey = some copied ∧
            copied.length = call.args.expected.size := by
    intro i args dest phase hcall hnone
    have hmem := List.mem_of_getElem? hcall
    have hactive := hinv.calls _ hmem
    obtain ⟨rfl, hcopied⟩ := request_removes hactive hbefore hnone
    obtain ⟨hvalid, hargs, -⟩ := callOk_active.mp hactive
    refine ⟨_, hmem, rfl, dest, _, hvalid, hcopied, ?_, ?_⟩
    · exact hkept _ _ _ _ (validate_eq_ok.mp hvalid).2 hcopied
    · exact (congrArg Expected.size (hargs hkey)).symm
  rcases step_cases h with ⟨k, rfl, hk, rfl⟩ | ⟨args, rfl, rfl⟩ |
    ⟨i, args, dest, phase, hcall, ⟨rfl, rfl⟩ | ⟨applied, rfl, rfl⟩ | ⟨rfl, rfl⟩⟩
  · exact absurd hafter (Objects.set_some_ne_none hbefore)
  · rw [hbefore] at hafter
    cases hafter
  · exact hrequest i args dest phase hcall hafter
  · rcases applied with _ | _
    · exact absurd (hbefore.symm.trans hafter) (Option.some_ne_none bytes)
    · exact hrequest i args dest phase hcall hafter
  · rw [hbefore] at hafter
    cases hafter

/-- The invariant holds in whatever run begins with nothing. -/
theorem inv_of_run (hfree : CollisionFree tenantId content sha256)
    (hinv : Inv tenantId content sha256 s)
    (hdeclared : ∀ e ∈ es, EventDeclared tenantId content sha256 e)
    (h : run (step tenantId content) s es = some t) : Inv tenantId content sha256 t := by
  refine Always.run_induction (P := fun _ e => EventDeclared tenantId content sha256 e) ?_ hinv
    (Always.of_forall_mem fun e he _ => hdeclared e he) h
  exact fun s e s' hs he hstep => (step_spec hfree hs he hstep).1

/-- **What is at the key of a hash stays** through a run. -/
theorem kept_of_run (hfree : CollisionFree tenantId content sha256)
    (hinv : Inv tenantId content sha256 s)
    (hdeclared : ∀ e ∈ es, EventDeclared tenantId content sha256 e)
    (h : run (step tenantId content) s es = some t) : Kept tenantId s.objects t.objects := by
  induction es generalizing s with
  | nil =>
    cases h
    exact fun _ _ _ _ _ hbytes => hbytes
  | cons e es ih =>
    obtain ⟨he, hes⟩ := List.forall_mem_cons.mp hdeclared
    obtain ⟨s', hstep, h⟩ := run_cons.mp h
    obtain ⟨hinv', hchange⟩ := step_spec hfree hinv he hstep
    intro hash q dest bytes hdest hbytes
    exact ih hinv' hes h hash q dest bytes hdest
      (hchange.kept hfree hinv.stored hash q dest bytes hdest hbytes)

end Run

/-! ## Calls that do not overlap -/

section Serial

/-- A call still makes requests. -/
def Status.isActive : Status → Bool
  | .active _ _ => true
  | _ => false

/-- A call for a staged object has it, or tries again what was tried, and there is no other call
for the object that is active or has other arguments. -/
def Own (s : System) : Event → Prop
  | .call args =>
    (∀ call ∈ s.calls, call.args.sourceStagingKey = args.sourceStagingKey →
      call.args = args ∧ call.status.isActive = false) ∧
    ((s.objects .evidence args.sourceStagingKey).isSome = true ∨ ∃ call ∈ s.calls, call.args = args)
  | _ => True

instance Own.decidable : ∀ (s : System) (e : Event), Decidable (Own s e)
  | _, .call _ => inferInstanceAs (Decidable (_ ∧ _))
  | _, .stage _ => .isTrue trivial
  | _, .advance _ => .isTrue trivial
  | _, .fail _ _ => .isTrue trivial
  | _, .crash _ => .isTrue trivial

/-- What a call ends with: what its arguments say. -/
def outcome (tenantId : JsString) (args : Args) : Except PromoteError PromoteResult :=
  (validate tenantId args).mapError fun error => .keyValidation error.message

/-- A request that reads what is staged, or is followed by one. -/
def Phase.needsStaging : Phase → Bool
  | .headStaging | .copyObject | .createUpload | .uploadPart _ _ => true
  | _ => false

/-- How far the end is. -/
def Phase.rank (size : ℕ) : Phase → ℕ
  | .headDestination => size + 6
  | .headStaging => size + 5
  | .createUpload => size + 4
  | .uploadPart start _ => size - start + 3
  | .copyObject | .completeUpload _ => 3
  | .headCopied => 2
  | .deleteDuplicate | .deleteStaging => 1
  | .abortUpload _ => 0

/-- A call ends with what its arguments say, if no request fails. -/
def Ended (tenantId : JsString) (failures : Prop) (args : Args)
    (result : Except PromoteError PromoteResult) : Prop :=
  result = outcome tenantId args ∨ failures ∧ result = .error .failed

/-- A call has what it needs, and has failed only where a request has. -/
def Sound (tenantId : JsString) (failures : Prop) (objects : Objects) (call : Execution) : Prop :=
  match call.status with
  | .active _ phase =>
    (phase.needsStaging = true → (objects .evidence call.args.sourceStagingKey).isSome = true) ∧
      ∀ error, phase = .abortUpload error → failures ∧ error = .failed
  | .finished result => Ended tenantId failures call.args result
  | .crashed => True

/-- What a call is for is still staged, or has been copied. -/
def Present (tenantId : JsString) (objects : Objects) (args : Args) : Prop :=
  ∀ dest, validate tenantId args = .ok dest →
    (objects .evidence args.sourceStagingKey).isSome = true ∨
      (objects dest.bucket dest.objectKey).isSome = true

/-- The invariant of calls that do not overlap. -/
structure Serial (tenantId : JsString) (failures : Prop) (s : System) : Prop where
  alone : ∀ (i j : ℕ) (a b : Execution), s.calls[i]? = some a → s.calls[j]? = some b →
    a.args.sourceStagingKey = b.args.sourceStagingKey →
      a.args = b.args ∧ ∀ d p d' p', a.status = .active d p → b.status = .active d' p' → i = j
  present : ∀ call ∈ s.calls, Present tenantId s.objects call.args
  sound : ∀ call ∈ s.calls, Sound tenantId failures s.objects call

/-- Calls with the same arguments end with the same result. -/
def SameResults (s : System) : Prop :=
  ∀ call ∈ s.calls, ∀ other ∈ s.calls, call.args = other.args →
    ∀ result result', call.status = .finished result → other.status = .finished result' →
      result = result'

/-- A request fails. -/
def Failing (e : Event) : Prop := ∃ i applied, e = .fail i applied

variable {failures : Prop} {tenantId : JsString} {content : JsString → Buffer}
  {sha256 : Buffer → JsString}
  {objects : Objects} {args : Args} {dest : PromoteResult} {phase : Phase}

theorem rank_nextPart {start step : ℕ} {size : ℕ} (parts : List Buffer) (hstart : start < size)
    (hstep : 0 < step) :
    (nextPart size (start + step) parts).rank size < (Phase.uploadPart start parts).rank size := by
  rw [nextPart]
  split_ifs with h
  · simp only [Phase.rank]
    omega
  · simp only [Phase.rank]
    omega

theorem rank_nextPart_le (size start : ℕ) (parts : List Buffer) :
    (nextPart size start parts).rank size < size + 4 := by
  rw [nextPart]
  split_ifs with h
  · simp only [Phase.rank]
    omega
  · simp only [Phase.rank]
    omega

theorem nextPart_ne_abortUpload {size start : ℕ} {parts : List Buffer} (error : PromoteError) :
    nextPart size start parts ≠ .abortUpload error := by
  rw [nextPart]
  split_ifs
  · rintro ⟨⟩
  · rintro ⟨⟩

theorem outcome_eq_ok (h : validate tenantId args = .ok dest) :
    outcome tenantId args = .ok dest := by
  rw [outcome, h]
  rfl

/-- An upload is given up because of a request that failed. -/
theorem ended_abort {error : PromoteError}
    (hsound : Sound tenantId failures objects ⟨args, .active dest (.abortUpload error)⟩) :
    Ended tenantId failures args (.error error) := by
  obtain ⟨hfailures, rfl⟩ := hsound.2 error rfl
  exact .inr ⟨hfailures, rfl⟩

/-- **A request goes on.** If what is staged is there as long as it has to be, a call ends with its
destination or comes nearer to the end. -/
theorem request_goes_on (hfree : CollisionFree tenantId content sha256)
    (hstored : Stored tenantId content sha256 objects)
    (hcall : CallOk tenantId content sha256 objects ⟨args, .active dest phase⟩)
    (hsound : Sound tenantId failures objects ⟨args, .active dest phase⟩)
    (hpresent : Present tenantId objects args) (hactive : ∀ error, phase ≠ .abortUpload error) :
    (request objects args dest phase).2 = .finished (.ok dest) ∨
      ∃ next, request objects args dest phase =
          ((request objects args dest phase).1, .active dest next) ∧
        next.rank args.expected.size < phase.rank args.expected.size ∧
        (∀ error, next ≠ .abortUpload error) ∧
        (next.needsStaging = true →
          ((request objects args dest phase).1 .evidence args.sourceStagingKey).isSome = true) := by
  obtain ⟨hvalid, hdeclared, hphase⟩ := callOk_active.mp hcall
  obtain ⟨hkey, hdest⟩ := validate_eq_ok.mp hvalid
  have hexpected := hdeclared hkey
  have hsize : args.expected.size = (content args.sourceStagingKey).length :=
    congrArg Expected.size hexpected
  have hneeds := hsound.1
  -- what is staged, where it is
  have hstaged : (objects .evidence args.sourceStagingKey).isSome = true →
      objects .evidence args.sourceStagingKey = some (content args.sourceStagingKey) := by
    intro hsome
    obtain ⟨bytes, hbytes⟩ := Option.isSome_iff_exists.mp hsome
    rw [hbytes, hstored.staged _ _ hkey hbytes]
  cases phase with
  | headDestination =>
    rw [request]
    split
    · rename_i existing hexisting
      have hlength : existing.length = args.expected.size := by
        rw [hstored.eq_content hfree hkey (destination_declared hdeclared hkey hdest) hexisting,
          hsize]
      rw [if_neg (not_not.mpr hlength)]
      refine .inr ⟨.deleteDuplicate, rfl, ?_, by rintro _ ⟨⟩, by rintro ⟨⟩⟩
      simp only [Phase.rank]
      omega
    · rename_i hnone
      refine .inr ⟨.headStaging, rfl, Nat.lt_succ_self _, by rintro _ ⟨⟩, fun _ => ?_⟩
      refine (hpresent dest hvalid).resolve_right ?_
      rw [hnone]
      exact Bool.false_ne_true
  | deleteDuplicate => exact .inl rfl
  | headStaging =>
    have hsome := hneeds rfl
    rw [request, hstaged hsome]
    dsimp only
    rw [if_neg (not_not.mpr hsize.symm)]
    split_ifs
    · refine .inr ⟨.copyObject, rfl, ?_, by rintro _ ⟨⟩, fun _ => hsome⟩
      simp only [Phase.rank]
      omega
    · exact .inr ⟨.createUpload, rfl, Nat.lt_succ_self _, by rintro _ ⟨⟩, fun _ => hsome⟩
  | copyObject =>
    rw [request, hstaged (hneeds rfl)]
    exact .inr ⟨.headCopied, rfl, Nat.lt_succ_self _, by rintro _ ⟨⟩, by rintro ⟨⟩⟩
  | createUpload =>
    refine .inr ⟨_, rfl, ?_, nextPart_ne_abortUpload, fun _ => hneeds rfl⟩
    exact rank_nextPart_le _ _ _
  | uploadPart start parts =>
    have hsome := hneeds rfl
    rw [request, hstaged hsome]
    dsimp only
    rw [if_neg (by omega)]
    refine .inr ⟨_, rfl, ?_, nextPart_ne_abortUpload, fun _ => hsome⟩
    exact rank_nextPart _ (hsize ▸ hphase.1) (copyPartSize_pos _)
  | completeUpload parts =>
    exact .inr ⟨.headCopied, rfl, Nat.lt_succ_self _, by rintro _ ⟨⟩, by rintro ⟨⟩⟩
  | abortUpload error => exact absurd rfl (hactive error)
  | headCopied =>
    rw [request, hphase]
    dsimp only
    rw [if_pos hsize.symm]
    exact .inr ⟨.deleteStaging, rfl, Nat.lt_succ_self _, by rintro _ ⟨⟩,
      by rintro ⟨⟩⟩
  | deleteStaging => exact .inl rfl

/-- What was at a place of the calls before one of them changed. -/
theorem getElem?_of_set {calls : List Execution} {i j : ℕ} {call changed a : Execution}
    (hcall : calls[i]? = some call) (hargs : changed.args = call.args)
    (hactive : ∃ d p, call.status = .active d p)
    (h : (calls.set i changed)[j]? = some a) :
    (j = i ∧ a = changed ∨ j ≠ i ∧ calls[j]? = some a) ∧
      ∃ b, calls[j]? = some b ∧ b.args = a.args ∧
        ∀ d p, a.status = .active d p → ∃ d p, b.status = .active d p := by
  rw [List.getElem?_set] at h
  split_ifs at h with heq hlt
  · subst heq
    obtain rfl := Option.some.inj h
    exact ⟨.inl ⟨rfl, rfl⟩, call, hcall, hargs.symm, fun _ _ _ => hactive⟩
  · exact ⟨.inr ⟨fun hji => heq hji.symm, h⟩, a, h, rfl, fun d p hdp => ⟨d, p, hdp⟩⟩

theorem Sound.mono {objects objects' : Objects} {call : Execution}
    (h : Sound tenantId failures objects call)
    (hkeep : ∀ dest phase, call.status = .active dest phase →
      (objects .evidence call.args.sourceStagingKey).isSome = true →
        (objects' .evidence call.args.sourceStagingKey).isSome = true) :
    Sound tenantId failures objects' call := by
  obtain ⟨args, ⟨dest, phase⟩ | result | _⟩ := call
  · exact ⟨fun hneeds => hkeep dest phase rfl (h.1 hneeds), h.2⟩
  · exact h
  · trivial

/-- Calls do not overlap after one of them has gone on. -/
theorem Serial.set {s : System} (hserial : Serial tenantId failures s) {i : ℕ} {status : Status}
    (hcall : s.calls[i]? = some ⟨args, .active dest phase⟩) {objects' : Objects}
    (hpresent : ∀ call ∈ s.calls, Present tenantId objects' call.args)
    (hkeep : ∀ key, key ≠ args.sourceStagingKey → (s.objects .evidence key).isSome = true →
      (objects' .evidence key).isSome = true)
    (hsound : Sound tenantId failures objects' ⟨args, status⟩) :
    Serial tenantId failures ⟨objects', s.calls.set i ⟨args, status⟩⟩ := by
  have hset : ∀ (j : ℕ) (a : Execution), (s.calls.set i ⟨args, status⟩)[j]? = some a →
      (j = i ∧ a = ⟨args, status⟩ ∨ j ≠ i ∧ s.calls[j]? = some a) ∧
        ∃ b, s.calls[j]? = some b ∧ b.args = a.args ∧
          ∀ d p, a.status = .active d p → ∃ d p, b.status = .active d p := fun j a h =>
    getElem?_of_set hcall rfl ⟨_, _, rfl⟩ h
  refine ⟨fun j k a b ha hb hkey => ?_, fun call hmem => ?_, fun call hmem => ?_⟩
  · obtain ⟨-, a', ha', hargs, hactive⟩ := hset j a ha
    obtain ⟨-, b', hb', hargs', hactive'⟩ := hset k b hb
    obtain ⟨hsame, hone⟩ := hserial.alone j k a' b' ha' hb' (hargs ▸ hargs' ▸ hkey)
    refine ⟨hargs ▸ hargs' ▸ hsame, fun d p d' p' hd hd' => ?_⟩
    obtain ⟨_, _, hd⟩ := hactive d p hd
    obtain ⟨_, _, hd'⟩ := hactive' d' p' hd'
    exact hone _ _ _ _ hd hd'
  · obtain ⟨j, hj⟩ := List.mem_iff_getElem?.mp hmem
    obtain ⟨-, b, hb, hargs, -⟩ := hset j call hj
    exact hargs ▸ hpresent b (List.mem_of_getElem? hb)
  · obtain ⟨j, hj⟩ := List.mem_iff_getElem?.mp hmem
    obtain ⟨⟨-, rfl⟩ | ⟨hne, hbefore⟩, -⟩ := hset j call hj
    · exact hsound
    · refine (hserial.sound call (List.mem_of_getElem? hbefore)).mono fun d p hd => ?_
      refine hkeep _ fun hkey => hne ?_
      exact (hserial.alone j i call _ hbefore hcall hkey).2 d p dest phase hd rfl

variable {s s' : System}

/-- What calls are for is still there after a step. -/
theorem present_step (hfree : CollisionFree tenantId content sha256)
    (hinv : Inv tenantId content sha256 s) (hserial : Serial tenantId failures s) {e : Event}
    (hdeclared : EventDeclared tenantId content sha256 e)
    (h : step tenantId content s e = some s') :
    ∀ call ∈ s.calls, Present tenantId s'.objects call.args := by
  intro call hmem dest hvalid
  obtain ⟨hkey, hdest⟩ := validate_eq_ok.mp hvalid
  rcases hserial.present call hmem dest hvalid with hstaged | hcopied
  · obtain ⟨bytes, hbytes⟩ := Option.isSome_iff_exists.mp hstaged
    rcases hafter : s'.objects .evidence call.args.sourceStagingKey with _ | object
    · -- it has been removed by a call with these arguments
      obtain ⟨other, hother, hsame, copy, copied, hcopy, -, hpresent, -⟩ :=
        removedSafely_step hfree hinv hdeclared h _ bytes hkey hbytes hafter
      obtain ⟨i, hi⟩ := List.mem_iff_getElem?.mp hother
      obtain ⟨j, hj⟩ := List.mem_iff_getElem?.mp hmem
      rw [(hserial.alone i j other call hi hj hsame).1] at hcopy
      obtain rfl := Except.ok.inj (hvalid.symm.trans hcopy)
      exact .inr (Option.isSome_iff_exists.mpr ⟨copied, hpresent⟩)
    · exact .inl rfl
  · obtain ⟨bytes, hbytes⟩ := Option.isSome_iff_exists.mp hcopied
    have hkept := (step_spec hfree hinv hdeclared h).2.kept hfree hinv.stored
    exact .inr (Option.isSome_iff_exists.mpr ⟨bytes, hkept _ _ _ _ hdest hbytes⟩)

/-- What a request leaves: everything staged but what its call is for. -/
theorem request_keeps (hcall : CallOk tenantId content sha256 objects ⟨args, .active dest phase⟩)
    {key : JsString} (hne : key ≠ args.sourceStagingKey)
    (h : (objects .evidence key).isSome = true) :
    ((request objects args dest phase).1 .evidence key).isSome = true := by
  obtain ⟨bytes, hbytes⟩ := Option.isSome_iff_exists.mp h
  rcases hafter : (request objects args dest phase).1 .evidence key with _ | object
  · exact absurd (request_removes hcall hbytes hafter).1.symm hne
  · rfl

/-- A request of such a call leaves it sound. -/
theorem request_sound (hfree : CollisionFree tenantId content sha256)
    (hstored : Stored tenantId content sha256 objects)
    (hcall : CallOk tenantId content sha256 objects ⟨args, .active dest phase⟩)
    (hsound : Sound tenantId failures objects ⟨args, .active dest phase⟩)
    (hpresent : Present tenantId objects args) :
    Sound tenantId failures (request objects args dest phase).1
      ⟨args, (request objects args dest phase).2⟩ := by
  by_cases habort : ∃ error, phase = .abortUpload error
  · obtain ⟨error, rfl⟩ := habort
    exact ended_abort hsound
  · have hvalid := (callOk_active.mp hcall).1
    rcases request_goes_on hfree hstored hcall hsound hpresent
      fun error h => habort ⟨error, h⟩ with hend | ⟨next, hnext, -, hactive, hneeds⟩
    · rw [hend]
      exact .inl (outcome_eq_ok hvalid).symm
    · rw [hnext]
      exact ⟨hneeds, fun error h => absurd h (hactive error)⟩

theorem sound_onFailure (hsound : Sound tenantId failures objects ⟨args, .active dest phase⟩)
    (hfailures : failures) (objects' : Objects) :
    Sound tenantId failures objects' ⟨args, onFailure dest phase⟩ := by
  cases phase with
  | uploadPart | completeUpload =>
    exact ⟨by rintro ⟨⟩, fun _ h => ⟨hfailures, (Phase.abortUpload.inj h).symm⟩⟩
  | abortUpload error => exact ended_abort hsound
  | _ => exact .inr ⟨hfailures, rfl⟩

theorem sound_start : Sound tenantId failures objects ⟨args, start tenantId args⟩ := by
  rcases hvalid : validate tenantId args with error | dest
  · rw [start, hvalid]
    refine .inl ?_
    rw [outcome, hvalid]
    rfl
  · rw [start, hvalid]
    exact ⟨by rintro ⟨⟩, by rintro _ ⟨⟩⟩

/-- Calls do not overlap after one more has begun. -/
theorem Serial.append (hserial : Serial tenantId failures s) (hown : Own s (.call args)) :
    Serial tenantId failures { s with calls := s.calls ++ [⟨args, start tenantId args⟩] } := by
  obtain ⟨hfirst, hsource⟩ := hown
  have hmem : ∀ {call}, call ∈ s.calls ++ [⟨args, start tenantId args⟩] →
      call ∈ s.calls ∨ call = ⟨args, start tenantId args⟩ := fun h =>
    (List.mem_append.mp h).imp_right List.mem_singleton.mp
  refine ⟨fun j k a b ha hb hkey => ?_, fun call hcall => ?_, fun call hcall => ?_⟩
  · have hplace : ∀ {l : ℕ} {c}, (s.calls ++ [⟨args, start tenantId args⟩])[l]? = some c →
        s.calls[l]? = some c ∨ l = s.calls.length ∧ c = ⟨args, start tenantId args⟩ := by
      intro l c hc
      rw [List.getElem?_append] at hc
      split_ifs at hc with hl
      · exact .inl hc
      · rw [List.getElem?_singleton] at hc
        split_ifs at hc with hlast
        exact .inr ⟨by omega, (Option.some.inj hc).symm⟩
    rcases hplace ha with ha | ⟨rfl, rfl⟩
    · rcases hplace hb with hb | ⟨rfl, rfl⟩
      · exact hserial.alone j k a b ha hb hkey
      · obtain ⟨hsame, hended⟩ := hfirst a (List.mem_of_getElem? ha) hkey
        refine ⟨hsame, fun _ _ _ _ h => ?_⟩
        rw [h] at hended
        cases hended
    · rcases hplace hb with hb | ⟨rfl, rfl⟩
      · obtain ⟨hsame, hended⟩ := hfirst b (List.mem_of_getElem? hb) hkey.symm
        refine ⟨hsame.symm, fun _ _ _ _ _ h => ?_⟩
        rw [h] at hended
        cases hended
      · exact ⟨rfl, fun _ _ _ _ _ _ => rfl⟩
  · rcases hmem hcall with hcall | rfl
    · exact hserial.present call hcall
    · rcases hsource with hstaged | ⟨before, hbefore, rfl⟩
      · exact fun _ _ => .inl hstaged
      · exact hserial.present before hbefore
  · rcases hmem hcall with hcall | rfl
    · exact hserial.sound call hcall
    · exact sound_start

/-- **Calls that do not overlap** stay sound. -/
theorem serial_step (hfree : CollisionFree tenantId content sha256)
    (hinv : Inv tenantId content sha256 s) (hserial : Serial tenantId failures s) {e : Event}
    (hdeclared : EventDeclared tenantId content sha256 e) (hown : Own s e)
    (hfail : Failing e → failures) (h : step tenantId content s e = some s') :
    Serial tenantId failures s' := by
  have hpresent := present_step hfree hinv hserial hdeclared h
  rcases step_cases h with ⟨key, rfl, hkey, rfl⟩ | ⟨args, rfl, rfl⟩ |
    ⟨i, args, dest, phase, hcall, ⟨rfl, rfl⟩ | ⟨applied, rfl, rfl⟩ | ⟨rfl, rfl⟩⟩
  · refine ⟨hserial.alone, hpresent, fun call hcall => ?_⟩
    refine (hserial.sound call hcall).mono fun _ _ _ hsome => ?_
    obtain ⟨bytes, hbytes⟩ := Option.isSome_iff_exists.mp hsome
    exact Option.isSome_iff_ne_none.mpr (Objects.set_some_ne_none hbytes)
  · exact hserial.append hown
  · have hmem := List.mem_of_getElem? hcall
    have hactive := hinv.calls _ hmem
    exact hserial.set hcall hpresent (fun key hne => request_keeps hactive hne)
      (request_sound hfree hinv.stored hactive (hserial.sound _ hmem) (hserial.present _ hmem))
  · have hmem := List.mem_of_getElem? hcall
    have hactive := hinv.calls _ hmem
    rcases applied with _ | _
    · exact hserial.set hcall hpresent (fun _ _ => id)
        (sound_onFailure (hserial.sound _ hmem) (hfail ⟨i, _, rfl⟩) _)
    · exact hserial.set hcall hpresent (fun key hne => request_keeps hactive hne)
        (sound_onFailure (hserial.sound _ hmem) (hfail ⟨i, _, rfl⟩) _)
  · exact hserial.set hcall hpresent (fun _ _ => id) trivial

theorem serial_empty : Serial tenantId failures System.empty where
  alone := by rintro _ _ _ _ ⟨⟩
  present := by rintro _ ⟨⟩
  sound := by rintro _ ⟨⟩

/-- **Calls that do not overlap** are sound through a run. -/
theorem serial_of_run (hfree : CollisionFree tenantId content sha256) {t : System}
    {es : List Event} (hinv : Inv tenantId content sha256 s) (hserial : Serial tenantId failures s)
    (hdeclared : ∀ e ∈ es, EventDeclared tenantId content sha256 e)
    (hown : Always (step tenantId content) Own s es) (hfail : ∀ e ∈ es, Failing e → failures)
    (h : run (step tenantId content) s es = some t) :
    Inv tenantId content sha256 t ∧ Serial tenantId failures t := by
  induction es generalizing s with
  | nil =>
    cases h
    exact ⟨hinv, hserial⟩
  | cons e es ih =>
    obtain ⟨he, hes⟩ := List.forall_mem_cons.mp hdeclared
    obtain ⟨hfe, hfes⟩ := List.forall_mem_cons.mp hfail
    obtain ⟨s', hstep, h⟩ := run_cons.mp h
    exact ih (step_spec hfree hinv he hstep).1
      (serial_step hfree hinv hserial he hown.1 hfe hstep) hes (hown.2 s' hstep) hfes h

/-- **A call that goes on ends**, if others wait. -/
theorem ends (hfree : CollisionFree tenantId content sha256) (hinv : Inv tenantId content sha256 s)
    (hserial : Serial tenantId failures s) {i : ℕ}
    (hcall : s.calls[i]? = some ⟨args, .active dest phase⟩) :
    ∃ n t result, run (step tenantId content) s (List.replicate n (.advance i)) = some t ∧
      t.calls[i]? = some ⟨args, .finished result⟩ ∧ Ended tenantId failures args result := by
  induction hrank : phase.rank args.expected.size using Nat.strong_induction_on
    generalizing s phase with
  | _ rank ih =>
    have hmem := List.mem_of_getElem? hcall
    have hactive := hinv.calls _ hmem
    have hsound := hserial.sound _ hmem
    have hvalid := (callOk_active.mp hactive).1
    have hstep : step tenantId content s (.advance i) =
        some ⟨(request s.objects args dest phase).1,
          s.calls.set i ⟨args, (request s.objects args dest phase).2⟩⟩ := by
      rw [step, hcall]
    have hlt := (List.getElem?_eq_some_iff.mp hcall).1
    -- one request is enough, or one request and what comes behind it
    have hlast : ∀ result, (request s.objects args dest phase).2 = .finished result →
        Ended tenantId failures args result →
        ∃ n t result, run (step tenantId content) s (List.replicate n (.advance i)) = some t ∧
          t.calls[i]? = some ⟨args, .finished result⟩ ∧
            Ended tenantId failures args result := by
      intro result hresult hended
      refine ⟨1, _, result, run_cons.mpr ⟨_, hstep, rfl⟩, ?_, hended⟩
      rw [hresult, List.getElem?_set_self hlt]
    by_cases habort : ∃ error, phase = .abortUpload error
    · obtain ⟨error, rfl⟩ := habort
      exact hlast (.error error) rfl (ended_abort hsound)
    · rcases request_goes_on hfree hinv.stored hactive hsound (hserial.present _ hmem)
        fun error h => habort ⟨error, h⟩ with hend | ⟨next, hnext, hless, -, -⟩
      · exact hlast (.ok dest) hend (.inl (outcome_eq_ok hvalid).symm)
      · have hafter : (s.calls.set i ⟨args, (request s.objects args dest phase).2⟩)[i]? =
            some ⟨args, .active dest next⟩ := by
          rw [hnext, List.getElem?_set_self hlt]
        have hdeclared : EventDeclared tenantId content sha256 (.advance i) := trivial
        have hfail : Failing (.advance i) → failures := by rintro ⟨_, _, ⟨⟩⟩
        obtain ⟨n, t, result, hrun, hfinished, hended⟩ :=
          ih _ (hrank ▸ hless) (step_spec hfree hinv hdeclared hstep).1
            (serial_step hfree hinv hserial hdeclared trivial hfail hstep) hafter rfl
        exact ⟨n + 1, t, result, run_cons.mpr ⟨_, hstep, hrun⟩, hfinished, hended⟩

end Serial

/-! ## Promotions -/

section Promotions

variable {tenantId : JsString} {content : JsString → Buffer} {sha256 : Buffer → JsString}

/-- **Promotions are safe**, in whatever order requests, crashes and failures of requests come: what
is at the key of a hash stays, and what is staged is removed only where it has been copied. If
calls for one staged object do not overlap, then each ends, and with what its arguments say, if no
request fails. -/
theorem promotions_safe (hfree : CollisionFree tenantId content sha256) {es fs : List Event}
    {s t : System} (hdeclared : ∀ e ∈ es ++ fs, EventDeclared tenantId content sha256 e)
    (hes : run (step tenantId content) System.empty es = some s)
    (hfs : run (step tenantId content) s fs = some t) :
    Kept tenantId s.objects t.objects ∧
    (∀ e s', EventDeclared tenantId content sha256 e → step tenantId content s e = some s' →
      RemovedSafely tenantId s s') ∧
    (Always (step tenantId content) Own System.empty es →
      (∀ call ∈ s.calls, ∀ result, call.status = .finished result →
        Ended tenantId (∃ e ∈ es, Failing e) call.args result) ∧
      (∀ (i : ℕ) (args : Args) (dest : PromoteResult) (phase : Phase),
        s.calls[i]? = some ⟨args, .active dest phase⟩ →
          ∃ n u result, run (step tenantId content) s (List.replicate n (.advance i)) = some u ∧
            u.calls[i]? = some ⟨args, .finished result⟩ ∧
              Ended tenantId (∃ e ∈ es, Failing e) args result) ∧
      ((∀ e ∈ es, ¬ Failing e) → SameResults s)) := by
  obtain ⟨hbefore, hbehind⟩ := List.forall_mem_append.mp hdeclared
  have hinv := inv_of_run hfree inv_empty hbefore hes
  refine ⟨kept_of_run hfree hinv hbehind hfs, fun e s' => removedSafely_step hfree hinv, ?_⟩
  intro hown
  have hempty : Serial tenantId (∃ e ∈ es, Failing e) System.empty := serial_empty
  obtain ⟨-, hserial⟩ := serial_of_run hfree inv_empty hempty hbefore hown
    (fun e he hfail => ⟨e, he, hfail⟩) hes
  have hended : ∀ call ∈ s.calls, ∀ result, call.status = .finished result →
      Ended tenantId (∃ e ∈ es, Failing e) call.args result := by
    intro call hcall result hresult
    have hsound := hserial.sound call hcall
    rw [Sound, hresult] at hsound
    exact hsound
  refine ⟨hended, fun i args dest phase hcall => ends hfree hinv hserial hcall, ?_⟩
  intro hnone call hcall other hother hargs result result' hresult hresult'
  have hwhole : ∀ c ∈ s.calls, ∀ r, c.status = .finished r → r = outcome tenantId c.args :=
    fun c hc r hr => (hended c hc r hr).resolve_right fun ⟨⟨e, he, hfail⟩, _⟩ => hnone e he hfail
  rw [hwhole call hcall result hresult, hwhole other hother result' hresult', hargs]

/-- A tenant. -/
def sampleTenant : JsString := js "00000000-0000-4000-8000-000000000000"

/-- A key to stage at. -/
def sampleKey : JsString :=
  js "tenants/00000000-0000-4000-8000-000000000000/staging/00000000-0000-4000-8000-000000000001"

/-- The hash of nothing. -/
def hashOfNothing : JsString :=
  js "e3b0c44298fc1c149afbf4c8996fb92427ae41e4649b934ca495991b7852b855"

/-- A call for an object without bytes. -/
def sampleArgs : Args := ⟨sampleKey, ⟨hashOfNothing, 0⟩, false⟩

/-- A call ends early, and is tried again. -/
def retried : List Event :=
  [.stage sampleKey, .call sampleArgs, .advance 0, .crash 0, .call sampleArgs, .advance 1,
    .advance 1, .advance 1, .advance 1, .advance 1]

/-- The call is made once more. -/
def again : List Event := [.call sampleArgs, .advance 2, .advance 2]

theorem collisionFree_nothing :
    CollisionFree sampleTenant (fun _ => []) fun _ => hashOfNothing := by
  rintro _ ⟨_, -, rfl⟩ _ ⟨_, -, rfl⟩ -
  rfl

/-- What is staged is what the call declares. -/
theorem eventDeclared_of_calls {es : List Event} (h : ∀ args, .call args ∈ es → args = sampleArgs) :
    ∀ e ∈ es, EventDeclared sampleTenant (fun _ => []) (fun _ => hashOfNothing) e := by
  intro e he
  cases e with
  | call args =>
    obtain rfl := h args he
    exact fun _ => rfl
  | _ => trivial

/-- A call that is tried again. -/
theorem promotions_safe_retried : ∃ s t,
    run (step sampleTenant fun _ => []) System.empty retried = some s ∧
    run (step sampleTenant fun _ => []) s again = some t ∧
    Kept sampleTenant s.objects t.objects ∧ SameResults s := by
  have hruns : (run (step sampleTenant fun _ => []) System.empty (retried ++ again)).isSome =
      true := by
    simp only [retried, again, sampleArgs, sampleKey, sampleTenant, hashOfNothing]
    repeat rw [js_ofList]
    decide +kernel
  obtain ⟨t, ht⟩ := Option.isSome_iff_exists.mp hruns
  obtain ⟨s, hs, hst⟩ := run_append.mp ht
  have hdeclared := @eventDeclared_of_calls (retried ++ again) fun args h => by
    simpa [retried, again] using h
  have hown : Always (step sampleTenant fun _ => []) Own System.empty retried := by
    simp only [retried, sampleArgs, sampleKey, sampleTenant, hashOfNothing]
    repeat rw [js_ofList]
    decide +kernel
  have hnone : ∀ e ∈ retried, ¬ Failing e := by
    rintro e he ⟨i, applied, rfl⟩
    simp [retried] at he
  obtain ⟨hkept, -, hserial⟩ := promotions_safe collisionFree_nothing hdeclared hs hst
  exact ⟨s, t, hs, hst, hkept, (hserial hown).2.2 hnone⟩

/-- A call ends early, and while it is tried again the same call is made elsewhere. -/
def overlapping : List Event :=
  [.stage sampleKey, .call sampleArgs, .crash 0, .call sampleArgs, .advance 1,
    .call sampleArgs, .advance 2, .advance 2, .advance 2, .advance 2, .advance 2, .advance 1]

/-- **Calls that overlap** can end with different results: one finds its object gone. -/
theorem not_sameResults : ¬ ∀ (tenantId : JsString) (content : JsString → Buffer)
    (sha256 : Buffer → JsString), CollisionFree tenantId content sha256 →
      ∀ (es : List Event) (s : System),
        (∀ e ∈ es, EventDeclared tenantId content sha256 e ∧ ¬ Failing e) →
        run (step tenantId content) System.empty es = some s → SameResults s := by
  intro h
  have hcalls : (run (step sampleTenant fun _ => []) System.empty overlapping).map (·.calls) =
      some [⟨sampleArgs, .crashed⟩,
        ⟨sampleArgs, .finished (.error (.integrity (js "staging object not found") sampleKey))⟩,
        ⟨sampleArgs, .finished (outcome sampleTenant sampleArgs)⟩] := by
    simp only [overlapping, sampleArgs, sampleKey, sampleTenant, hashOfNothing]
    repeat rw [js_ofList]
    decide +kernel
  obtain ⟨s, hs, hcalls⟩ := Option.map_eq_some_iff.mp hcalls
  have hdeclared : ∀ e ∈ overlapping,
      EventDeclared sampleTenant (fun _ => []) (fun _ => hashOfNothing) e ∧ ¬ Failing e := by
    intro e he
    refine ⟨eventDeclared_of_calls (fun args h => ?_) e he, ?_⟩
    · simpa [overlapping] using h
    · rintro ⟨i, applied, rfl⟩
      simp [overlapping] at he
  have hsame := h _ _ _ collisionFree_nothing overlapping s hdeclared hs
  rw [SameResults, hcalls] at hsame
  have hresults := hsame _ (.tail _ (.head _)) _ (.tail _ (.tail _ (.head _))) rfl _ _ rfl rfl
  revert hresults
  simp only [sampleArgs, sampleKey, sampleTenant, hashOfNothing]
  repeat rw [js_ofList]
  decide +kernel

end Promotions

end AegCloudDfir.Evidence.Promotion
