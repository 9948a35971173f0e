import AegCloudDfir.Evidence.Promotion
import AegCloudDfir.Js.Encoding
import AegCloudDfir.Lib.Tiling

/-!
# Multipart copies

`copySized` of `packages/evidence/src/store.ts`: what it sends to S3 to copy an object of a
given size. Up to 5 GiB that is one command. A larger object is copied range by range, and
the ranges are texts whose ends are both inclusive.

* `Command`, `Response` — what is sent, and the properties of an answer that are read; how
  S3 answers is a parameter.
* `copyParts`, `copySized` — the loop over the parts, and what is around it.
* `ranges` — the ranges an object is divided into; `Covers` — what is expected of them.
* `copySized_covers` — for every size above 5 GiB the commands ask for these ranges, and
  for all of them unless something fails.

Sizes are natural numbers here. The quotient in `copyPartSize` is a double; up to 2^53, where
sizes are exact, it is rounded up to the same part size.
-/

namespace AegCloudDfir.Evidence.MultipartCopy

open Promotion Tiling

/-! ## Commands -/

/-- The characters that `encodeURIComponent` leaves as they are. -/
def isUnreserved (c : CodeUnit) : Bool :=
  IsDigit c ∨ (unitOf 'A' ≤ c ∧ c ≤ unitOf 'Z') ∨ (unitOf 'a' ≤ c ∧ c ≤ unitOf 'z') ∨
    c ∈ js "-_.!~*'()"

/-- `%XX` -/
def percent (byte : Byte) : JsString :=
  let digit (n : ℕ) : CodeUnit := Fin.ofNat 0x10000 (if n < 10 then 0x30 + n else 0x37 + n)
  [unitOf '%', digit (byte.val / 16), digit (byte.val % 16)]

/-- A character in a component of a URI, unless it is a surrogate without its partner. -/
def encodeCodePoint : CodePoint → Option JsString
  | .unit c =>
    if isUnreserved c then some [c]
    else if IsHighSurrogate c ∨ IsLowSurrogate c then none
    else some ((utf8Bytes c.val).flatMap percent)
  | .pair hi lo hhi hlo => some ((utf8Bytes (CodePoint.pair hi lo hhi hlo).scalar).flatMap percent)

/-- `encodeURIComponent`, which throws a `URIError` otherwise -/
def encodeURIComponent (text : JsString) : Option JsString :=
  ((codePoints text).mapM encodeCodePoint).map List.flatten

/-- `encodeCopySource` -/
def encodeCopySource (bucket key : JsString) : Option JsString :=
  ((key.splitOn (unitOf '/')).mapM encodeURIComponent).map fun segments =>
    bucket ++ js "/" ++ joinWith (js "/") segments

/-- `CompletedPart` -/
structure CompletedPart where
  etag : JsString
  partNumber : ℕ
  deriving DecidableEq

/-- What `copySized` sends, to a bucket and a key that are the same in every command. -/
inductive Command : Type where
  | copyObject (copySource : JsString)
  | createMultipartUpload
  | uploadPartCopy (uploadId : JsString) (partNumber : ℕ) (copySource copySourceRange : JsString)
  | completeMultipartUpload (uploadId : JsString) (parts : List CompletedPart)
  | abortMultipartUpload (uploadId : JsString)
  deriving DecidableEq

/-- What is read of an answer. -/
structure Response where
  uploadId : Option JsString
  /-- `CopyPartResult?.ETag` -/
  etag : Option JsString

/-- What `copySized` throws. -/
inductive CopyError (ε : Type) : Type where
  /-- what `s3.send` has thrown -/
  | s3 (error : ε)
  | uriError
  /-- `IntegrityError`, with its details -/
  | integrity (message key : JsString) (partNumber : Option ℕ)

/-! ## The copy -/

section

variable {ε : Type} (send : Command → Except ε Response)

/-- `bytes=${start}-${end}`, inclusive at both ends -/
def rangeText (range : ℕ × ℕ) : JsString :=
  js "bytes=" ++ decimal range.1 ++ js "-" ++ decimal range.2

/-- The loop over the parts of an object, from the byte `start` on: what is sent, and the
parts that are there in the end. -/
def copyParts (key uploadId copySource : JsString) (size partSize : ℕ) (hpos : 0 < partSize)
    (start partNumber : ℕ) (parts : List CompletedPart) :
    List Command × Except (CopyError ε) (List CompletedPart) :=
  if start < size then
    let stop := min (start + partSize) size - 1
    let command : Command :=
      .uploadPartCopy uploadId partNumber copySource (rangeText (start, stop))
    match send command with
    | .error error => ([command], .error (.s3 error))
    | .ok response =>
      match response.etag.filter (· ≠ []) with
      | none =>
        ([command],
          .error (.integrity (js "UploadPartCopy returned no ETag") key (some partNumber)))
      | some etag =>
        let rest := copyParts key uploadId copySource size partSize hpos (start + partSize)
          (partNumber + 1) (parts ++ [⟨etag, partNumber⟩])
        (command :: rest.1, rest.2)
  else ([], .ok parts)
termination_by size - start

/-- What is inside the `try`: the parts, and the command that completes the upload. -/
def copyAll (key uploadId copySource : JsString) (size : ℕ) :
    List Command × Except (CopyError ε) Unit :=
  match copyParts send key uploadId copySource size (copyPartSize size) (copyPartSize_pos size)
      0 1 [] with
  | (sent, .error error) => (sent, .error error)
  | (sent, .ok parts) =>
    let command : Command := .completeMultipartUpload uploadId parts
    match send command with
    | .error error => (sent ++ [command], .error (.s3 error))
    | .ok _ => (sent ++ [command], .ok ())

/-- `copySized`: what is sent, and how it ends. An error of the abort is dropped. -/
def copySized (sourceBucket sourceKey key : JsString) (size : ℕ) :
    List Command × Except (CopyError ε) Unit :=
  match encodeCopySource sourceBucket sourceKey with
  | none => ([], .error .uriError)
  | some copySource =>
    if size ≤ maxSinglePartCopyBytes then
      match send (.copyObject copySource) with
      | .error error => ([.copyObject copySource], .error (.s3 error))
      | .ok _ => ([.copyObject copySource], .ok ())
    else
      match send .createMultipartUpload with
      | .error error => ([.createMultipartUpload], .error (.s3 error))
      | .ok created =>
        match created.uploadId.filter (· ≠ []) with
        | none =>
          ([.createMultipartUpload],
            .error (.integrity (js "CreateMultipartUpload returned no UploadId") key none))
        | some uploadId =>
          match copyAll send key uploadId copySource size with
          | (sent, .ok ()) => (.createMultipartUpload :: sent, .ok ())
          | (sent, .error error) =>
            (.createMultipartUpload :: sent ++ [.abortMultipartUpload uploadId], .error error)

end

/-! ## What is to be shown -/

/-- A piece whose end does not belong to it, with the end that does. -/
def inclusive (piece : ℕ × ℕ) : ℕ × ℕ := (piece.1, piece.2 - 1)

/-- The ranges of an object, inclusive at both ends. -/
def ranges (size : ℕ) : List (ℕ × ℕ) :=
  (steps (copyPartSize size) (copyPartSize_pos size) 0 size).map inclusive

/-- What ranges must be to make an object. -/
structure Covers (size : ℕ) (ranges : List (ℕ × ℕ)) : Prop where
  nonempty : ∀ range ∈ ranges, range.1 ≤ range.2
  first : ranges.head?.map Prod.fst = some 0
  consecutive : ∀ (i : ℕ) (range next : ℕ × ℕ), ranges[i]? = some range →
    ranges[i + 1]? = some next → next.1 = range.2 + 1
  last : ranges.getLast?.map Prod.snd = some (size - 1)
  disjoint : ranges.Pairwise fun range other => range.2 < other.1
  bytes : ∀ byte, (∃ range ∈ ranges, range.1 ≤ byte ∧ byte ≤ range.2) ↔ byte < size
  few : ranges.length ≤ maxCopyParts

/-- The number and the range of a command, if it asks for a part. -/
def Command.part? : Command → Option (ℕ × JsString)
  | .uploadPartCopy _ partNumber _ copySourceRange => some (partNumber, copySourceRange)
  | _ => none

/-- The parts that are asked for, in order. -/
def requested (sent : List Command) : List (ℕ × JsString) := sent.filterMap Command.part?

/-- The ranges as parts, numbered from `n` on. -/
def numbered (n : ℕ) (ranges : List (ℕ × ℕ)) : List (ℕ × JsString) :=
  (ranges.zipIdx n).map fun entry => (entry.2, rangeText entry.1)

/-- Every command for a part is answered with an ETag. -/
def AnswersParts {ε : Type} (send : Command → Except ε Response) : Prop :=
  ∀ uploadId partNumber copySource range, ∃ response etag,
    send (.uploadPartCopy uploadId partNumber copySource range) = .ok response ∧
      response.etag = some etag ∧ etag ≠ []

/-- An upload is created. -/
def CreatesUpload {ε : Type} (send : Command → Except ε Response) : Prop :=
  ∃ response uploadId, send .createMultipartUpload = .ok response ∧
    response.uploadId = some uploadId ∧ uploadId ≠ []

/-- A copy whose parts should be those of a plan. -/
structure Copied {ε : Type} (send : Command → Except ε Response)
    (sourceBucket sourceKey : JsString) (plan : List (ℕ × JsString))
    (result : List Command × Except (CopyError ε) Unit) : Prop where
  /-- the parts are asked for in order, until something fails -/
  asked : requested result.1 <+: plan
  /-- all of them, if the source can be named, an upload is created and every part is
  answered -/
  all : (encodeCopySource sourceBucket sourceKey).isSome → AnswersParts send →
    CreatesUpload send → requested result.1 = plan
  /-- a copy that succeeds has asked for all of them, and completed its upload with them -/
  completed : result.2 = .ok () → requested result.1 = plan ∧
    ∃ uploadId parts, .completeMultipartUpload uploadId parts ∈ result.1 ∧
      parts.map (·.partNumber) = plan.map Prod.fst

/-! ## The ranges -/

section Ranges

variable {size : ℕ}

/-- The part size is large enough for the parts that are allowed. -/
theorem le_copyPartSize (size : ℕ) : size ≤ maxCopyParts * copyPartSize size := by
  have hmax : (size + maxCopyParts - 1) / maxCopyParts ≤ copyPartSize size := Nat.le_max_right _ _
  have hdiv := Nat.div_add_mod (size + maxCopyParts - 1) maxCopyParts
  have hmod := Nat.mod_lt (size + maxCopyParts - 1) (show 0 < maxCopyParts by decide)
  have hmul := Nat.mul_le_mul_left maxCopyParts hmax
  omega

/-- **The ranges make the object.** -/
theorem covers_ranges (hsize : 0 < size) : Covers size (ranges size) := by
  have htiles : Tiles 0 size (steps (copyPartSize size) (copyPartSize_pos size) 0 size) :=
    tiles_steps (Nat.zero_le size)
  generalize hpieces : steps (copyPartSize size) (copyPartSize_pos size) 0 size = pieces at htiles
  have hranges : ranges size = pieces.map inclusive := by rw [ranges, hpieces]
  obtain ⟨hhead, hlast⟩ := htiles.ends hsize
  rw [hranges]
  refine ⟨?_, ?_, ?_, ?_, ?_, ?_, ?_⟩
  · intro range hrange
    obtain ⟨p, hp, rfl⟩ := List.mem_map.mp hrange
    have hbounds := htiles.bounds hp
    exact Nat.le_sub_one_of_lt hbounds.2.1
  · rw [List.head?_map, Option.map_map]
    exact hhead
  · intro i range next hrange hnext
    rw [List.getElem?_map] at hrange hnext
    obtain ⟨p, hp, rfl⟩ := Option.map_eq_some_iff.mp hrange
    obtain ⟨q, hq, rfl⟩ := Option.map_eq_some_iff.mp hnext
    have hbounds := htiles.bounds (List.mem_of_getElem? hp)
    have hnext := htiles.next hp hq
    simp only [inclusive]
    omega
  · rw [List.getLast?_map, Option.map_map]
    obtain ⟨p, hp, hstop⟩ := Option.map_eq_some_iff.mp hlast
    rw [hp, ← hstop]
    rfl
  · refine List.pairwise_map.mpr (htiles.pairwise.imp_of_mem fun {p q} hp _ hle => ?_)
    have hbounds := htiles.bounds hp
    simp only [inclusive]
    omega
  · intro byte
    have hmem := @Tiles.mem_iff _ _ _ _ _ htiles byte
    simp only [Nat.zero_le, true_and] at hmem
    rw [← hmem]
    simp only [List.mem_map, exists_exists_and_eq_and, inclusive]
    refine exists_congr fun p => and_congr_right fun hp => and_congr_right fun _ => ?_
    have hbounds := htiles.bounds hp
    omega
  · rw [List.length_map, ← hpieces]
    exact length_steps_le ((Nat.zero_add _).symm ▸ le_copyPartSize size)

end Ranges

/-! ## The commands -/

section Commands

variable {ε : Type} {send : Command → Except ε Response} {key uploadId copySource : JsString}
  {size partSize : ℕ} {hpos : 0 < partSize}

theorem numbered_cons (n : ℕ) (range : ℕ × ℕ) (ranges : List (ℕ × ℕ)) :
    numbered n (range :: ranges) = (n, rangeText range) :: numbered (n + 1) ranges := rfl

/-- What the loop has asked for when it is through, and what it returns. -/
structure Looped (send : Command → Except ε Response) (plan : List (ℕ × JsString))
    (parts : List CompletedPart)
    (result : List Command × Except (CopyError ε) (List CompletedPart)) : Prop where
  asked : requested result.1 <+: plan
  /-- without an error it has asked for every part, and has an ETag for each -/
  returned : ∀ completed, result.2 = .ok completed → requested result.1 = plan ∧
    completed.map (·.partNumber) = parts.map (·.partNumber) ++ plan.map Prod.fst
  answered : AnswersParts send → ∃ completed, result.2 = .ok completed

/-- The plan of a round of the loop, and of the rounds behind it. -/
theorem numbered_steps {start : ℕ} (partNumber : ℕ) (h : start < size) :
    numbered partNumber ((steps partSize hpos start size).map inclusive) =
      (partNumber, rangeText (start, min (start + partSize) size - 1)) ::
        numbered (partNumber + 1) ((steps partSize hpos (start + partSize) size).map inclusive) := by
  rw [steps_of_lt h, List.map_cons, numbered_cons]
  rfl

/-- **The loop** asks for the parts from where it starts. -/
theorem looped_copyParts (start partNumber : ℕ) (parts : List CompletedPart) :
    Looped send (numbered partNumber ((steps partSize hpos start size).map inclusive)) parts
      (copyParts send key uploadId copySource size partSize hpos start partNumber parts) := by
  fun_induction copyParts send key uploadId copySource size partSize hpos start partNumber parts with
  | case1 start partNumber parts hlt stop command error hsend =>
    rw [numbered_steps partNumber hlt]
    refine ⟨?_, fun _ h => (nomatch h), fun hanswers => ?_⟩
    · exact ⟨_, rfl⟩
    · obtain ⟨response, etag, hresponse, -⟩ := hanswers uploadId partNumber copySource _
      cases hsend.symm.trans hresponse
  | case2 start partNumber parts hlt stop command response hsend hetag =>
    rw [numbered_steps partNumber hlt]
    refine ⟨?_, fun _ h => (nomatch h), fun hanswers => ?_⟩
    · exact ⟨_, rfl⟩
    · obtain ⟨answer, etag, hresponse, hsome, hne⟩ := hanswers uploadId partNumber copySource _
      cases hsend.symm.trans hresponse
      rw [hsome, Option.filter_some, if_pos (decide_eq_true hne)] at hetag
      cases hetag
  | case3 start partNumber parts hlt stop command response hsend etag hetag rest ih =>
    rw [numbered_steps partNumber hlt]
    refine ⟨?_, fun completed hcompleted => ?_, ih.answered⟩
    · exact List.cons_prefix_cons.mpr ⟨rfl, ih.asked⟩
    · obtain ⟨hall, hparts⟩ := ih.returned completed hcompleted
      refine ⟨congrArg (List.cons _) hall, ?_⟩
      rw [hparts, List.map_append, List.append_assoc]
      rfl
  | case4 start partNumber parts hge =>
    rw [steps_of_le (Nat.not_lt.mp hge)]
    refine ⟨List.prefix_rfl, fun completed hcompleted => ?_, fun _ => ⟨parts, rfl⟩⟩
    cases hcompleted
    exact ⟨rfl, (List.append_nil _).symm⟩

theorem copyAll_spec :
    requested (copyAll send key uploadId copySource size).1 <+: numbered 1 (ranges size) ∧
      (AnswersParts send →
        requested (copyAll send key uploadId copySource size).1 = numbered 1 (ranges size)) ∧
      ((copyAll send key uploadId copySource size).2 = .ok () →
        requested (copyAll send key uploadId copySource size).1 = numbered 1 (ranges size) ∧
        ∃ parts, .completeMultipartUpload uploadId parts ∈
            (copyAll send key uploadId copySource size).1 ∧
          parts.map (·.partNumber) = (numbered 1 (ranges size)).map Prod.fst) := by
  have hloop : Looped send (numbered 1 (ranges size)) [] _ :=
    @looped_copyParts ε send key uploadId copySource size (copyPartSize size)
      (copyPartSize_pos size) 0 1 []
  have happend : ∀ sent parts,
      requested (sent ++ [.completeMultipartUpload uploadId parts]) = requested sent := by
    intro sent parts
    rw [requested, List.filterMap_append]
    exact List.append_nil _
  unfold copyAll
  split
  · next sent error hresult =>
    rw [hresult] at hloop
    refine ⟨hloop.asked, fun hanswers => ?_, fun h => nomatch h⟩
    obtain ⟨completed, hcompleted⟩ := hloop.answered hanswers
    cases hcompleted
  · next sent parts hresult =>
    rw [hresult] at hloop
    obtain ⟨hall, hparts⟩ := hloop.returned parts rfl
    dsimp only
    split
    · rw [happend]
      exact ⟨hloop.asked, fun _ => hall, fun h => nomatch h⟩
    · rw [happend]
      refine ⟨hloop.asked, fun _ => hall, fun _ => ⟨hall, parts, ?_, hparts⟩⟩
      exact List.mem_append_right _ (List.mem_singleton_self _)

/-- What is around the loop asks for no parts. -/
theorem requested_around (sent : List Command) :
    requested (.createMultipartUpload :: sent) = requested sent ∧
      requested (.createMultipartUpload :: sent ++ [.abortMultipartUpload uploadId]) =
        requested sent := by
  refine ⟨rfl, ?_⟩
  rw [requested, List.filterMap_append]
  exact List.append_nil _

/-- **A multipart copy covers the object exactly**, whatever its size above 5 GiB: the
ranges lie one behind the other from the first byte to the last, and there are at most
10,000 of them; what is sent asks for them in their order, numbered from 1. -/
theorem copySized_covers (send : Command → Except ε Response)
    (sourceBucket sourceKey key : JsString) (hsize : maxSinglePartCopyBytes < size) :
    Covers size (ranges size) ∧
      Copied send sourceBucket sourceKey (numbered 1 (ranges size))
        (copySized send sourceBucket sourceKey key size) := by
  refine ⟨covers_ranges (Nat.zero_lt_of_lt hsize), ?_⟩
  unfold copySized
  split
  · next hsource =>
    refine ⟨List.nil_prefix, fun hsome => ?_, fun h => nomatch h⟩
    rw [hsource] at hsome
    cases hsome
  next copySource hsource =>
  rw [if_neg (Nat.not_le.mpr hsize)]
  split
  · next error hsend =>
    refine ⟨List.nil_prefix, fun _ _ hcreates => ?_, fun h => nomatch h⟩
    obtain ⟨response, uploadId, hresponse, -⟩ := hcreates
    cases hsend.symm.trans hresponse
  next created hsend =>
  split
  · next hnone =>
    refine ⟨List.nil_prefix, fun _ _ hcreates => ?_, fun h => nomatch h⟩
    obtain ⟨response, uploadId, hresponse, hsome, hne⟩ := hcreates
    cases hsend.symm.trans hresponse
    rw [hsome, Option.filter_some, if_pos (decide_eq_true hne)] at hnone
    cases hnone
  next uploadId hsome =>
  obtain ⟨hasked, hall, hcompleted⟩ := @copyAll_spec ε send key uploadId copySource size
  split
  · next sent hresult =>
    rw [hresult] at hasked hall hcompleted
    refine ⟨hasked, fun _ hanswers _ => hall hanswers, fun _ => ?_⟩
    obtain ⟨hrequested, parts, hmem, hparts⟩ := hcompleted rfl
    exact ⟨hrequested, uploadId, parts, List.mem_cons_of_mem _ hmem, hparts⟩
  · next sent error hresult =>
    rw [hresult] at hasked hall
    refine ⟨?_, fun _ hanswers _ => ?_, fun h => nomatch h⟩
    · rw [(requested_around sent).2]
      exact hasked
    · rw [(requested_around sent).2]
      exact hall hanswers

/-- A provider that answers everything. -/
def answering (_ : Command) : Except Empty Response :=
  .ok ⟨some (js "upload-1"), some (js "etag")⟩

theorem copySized_covers_sixGiB :
    Covers (6 * 1024 ^ 3) (ranges (6 * 1024 ^ 3)) ∧
      Copied answering (js "cdfir-evidence") (js "staging/1") (numbered 1 (ranges (6 * 1024 ^ 3)))
        (copySized answering (js "cdfir-evidence") (js "staging/1") (js "original/1")
          (6 * 1024 ^ 3)) :=
  copySized_covers answering _ _ _ (by decide)

end Commands

end AegCloudDfir.Evidence.MultipartCopy
