import AegCloudDfir.Collection.PageKey
import AegCloudDfir.Dispatch.Dispatcher

/-!
# What dedup keys tell apart

`dedupKeys` of `apps/worker/src/queues.ts` joins what names a job with colons, and the ids of
providers, the keys of scopes and the names of stages in it may have colons themselves.
`sanitizeJobId` of `apps/worker/src/bullmq-enqueuer.ts` writes a colon as two underscores, which
these texts may have as well, and takes keys of at most 512 characters. Three searches in the outbox
look for keys that begin with a given text: `recoverListingFromPriorFetch` for the rows of one item,
and the stalled-item sweeper for the recoveries of one scope and of one message.

A job id leaves of a job what `LogicalJob.mark` says (`jobId_eq_iff`), and of each search it can be
said which other rows it finds. `told_apart_iff` puts together what a set of jobs needs.
-/

namespace AegCloudDfir.Dispatch.JobKeys

open PrefixCode
open AegCloudDfir.Collection (Source Source.text_injective colon IsHex)

/-! ## Jobs -/

/-- A UUID. -/
structure Uuid where
  text : JsString
  length_text : text.length = 36
  mem_text : ∀ c ∈ text, IsHex c ∨ c = unitOf '-'
  deriving DecidableEq

/-- The queues that have keys of `dedupKeys`. -/
inductive QueueName : Type where
  | collectionDiscover
  | collectionFetchPage
  | collectionFetchItem
  | collectionFinalize
  | pstExtract
  | importAnalyze
  | processParse
  | processExtract
  | processOcr
  | processOcrImage
  | processPreview
  | processScan
  | searchIndex
  | searchCaseImport
  | exportRun
  | productionRun
  | deletionRun
  deriving DecidableEq

/-- The queues of `processStage`. -/
inductive StageQueue : Type where
  | parse
  | extract
  | ocr
  | ocrImage
  | preview
  | scan
  deriving DecidableEq

/-- The name of a queue of `processStage`. -/
def StageQueue.topic : StageQueue → QueueName
  | .parse => .processParse
  | .extract => .processExtract
  | .ocr => .processOcr
  | .ocrImage => .processOcrImage
  | .preview => .processPreview
  | .scan => .processScan

/-- A job, with what its key is made of. An attempt at an item is a job of its own, and so is every
recovery by the sweeper. -/
inductive LogicalJob : Type where
  | discover (collectionId : Uuid)
  | fetchPage (collectionId custodianId : Uuid) (source : Source) (scopeKey cursorHash : JsString)
  | recoverPage (collectionId custodianId : Uuid) (source : Source) (scopeKey : JsString)
      (attempt : ℕ)
  | fetchItem (collectionId custodianId : Uuid) (source : Source) (providerItemId : JsString)
      (attempts : ℕ)
  | finalize (collectionId : Uuid)
  | pstExtract (collectionId evidenceItemId : Uuid)
  | importAnalyze (importId : Uuid) (attemptToken : JsString)
  | processStage (queue : StageQueue) (stage : JsString) (evidenceItemId : Uuid) (version : ℕ)
  | recoverParse (evidenceItemId : Uuid) (version attempt : ℕ)
  | searchIndex (evidenceItemId : Uuid) (version : ℕ) (stage : JsString)
  /-- a chat message goes from its fetch to the index -/
  | indexMessage (evidenceItemId : Uuid)
  | searchCaseImport (importId caseId : Uuid)
  | exportRun (exportId : Uuid)
  | productionRun (productionRunId : Uuid)
  | deletionRun (deletionRequestId : Uuid)
  deriving DecidableEq

/-- The queue of a job. -/
def LogicalJob.topic : LogicalJob → QueueName
  | .discover _ => .collectionDiscover
  | .fetchPage _ _ _ _ _ | .recoverPage _ _ _ _ _ => .collectionFetchPage
  | .fetchItem _ _ _ _ _ => .collectionFetchItem
  | .finalize _ => .collectionFinalize
  | .pstExtract _ _ => .pstExtract
  | .importAnalyze _ _ => .importAnalyze
  | .processStage queue _ _ _ => queue.topic
  | .recoverParse _ _ _ => .processParse
  | .searchIndex _ _ _ | .indexMessage _ => .searchIndex
  | .searchCaseImport _ _ => .searchCaseImport
  | .exportRun _ => .exportRun
  | .productionRun _ => .productionRun
  | .deletionRun _ => .deletionRun

/-- `dedupKeys.collectionFetchPage` -/
def dedupKeys.collectionFetchPage (collectionId custodianId : Uuid) (source : Source)
    (scopeKey cursorHash : JsString) : JsString :=
  js "page:" ++ collectionId.text ++ js ":" ++ custodianId.text ++ js ":" ++ source.text ++
    js ":" ++ scopeKey ++ js ":" ++ cursorHash

/-- `dedupKeys.collectionFetchItem` -/
def dedupKeys.collectionFetchItem (collectionId custodianId : Uuid) (source : Source)
    (providerItemId : JsString) : JsString :=
  js "item:" ++ collectionId.text ++ js ":" ++ custodianId.text ++ js ":" ++ source.text ++
    js ":" ++ providerItemId

/-- `dedupKeys.processStage` -/
def dedupKeys.processStage (stage : JsString) (evidenceItemId : Uuid) (version : ℕ) : JsString :=
  stage ++ js ":" ++ evidenceItemId.text ++ js ":v" ++ decimal version

/-- The key of a job. -/
def LogicalJob.key : LogicalJob → JsString
  | .discover collectionId => js "discover:" ++ collectionId.text
  | .fetchPage collectionId custodianId source scopeKey cursorHash =>
    dedupKeys.collectionFetchPage collectionId custodianId source scopeKey cursorHash
  | .recoverPage collectionId custodianId source scopeKey attempt =>
    dedupKeys.collectionFetchPage collectionId custodianId source scopeKey [] ++ js "recover" ++
      decimal attempt
  | .fetchItem collectionId custodianId source providerItemId attempts =>
    dedupKeys.collectionFetchItem collectionId custodianId source providerItemId ++ js ":a" ++
      decimal attempts
  | .finalize collectionId => js "finalize:" ++ collectionId.text
  | .pstExtract collectionId evidenceItemId =>
    js "pst:" ++ collectionId.text ++ js ":" ++ evidenceItemId.text
  | .importAnalyze importId attemptToken => js "import:" ++ importId.text ++ js ":" ++ attemptToken
  | .processStage _ stage evidenceItemId version =>
    dedupKeys.processStage stage evidenceItemId version
  | .recoverParse evidenceItemId version attempt =>
    dedupKeys.processStage (js "parse") evidenceItemId version ++ js ":" ++ js "recover" ++
      decimal attempt
  | .searchIndex evidenceItemId version stage =>
    js "index:" ++ evidenceItemId.text ++ js ":v" ++ decimal version ++ js ":" ++ stage
  | .indexMessage evidenceItemId => dedupKeys.processStage (js "extract") evidenceItemId 1
  | .searchCaseImport importId caseId =>
    js "case-import:" ++ importId.text ++ js ":" ++ caseId.text
  | .exportRun exportId => js "export:" ++ exportId.text
  | .productionRun productionRunId => js "production-run:" ++ productionRunId.text
  | .deletionRun deletionRequestId => js "deletion:" ++ deletionRequestId.text

/-! ## Searches -/

/-- `priorFetchItemKeyPrefix` -/
def priorFetchItemKeyPrefix (collectionId custodianId : Uuid) (source : Source)
    (providerItemId : JsString) : JsString :=
  dedupKeys.collectionFetchItem collectionId custodianId source providerItemId ++ js ":"

/-- The rows that `recoverListingFromPriorFetch` finds for an item. -/
def FoundForItem (collectionId custodianId : Uuid) (source : Source) (providerItemId : JsString)
    (job : LogicalJob) : Prop :=
  job.topic = .collectionFetchItem ∧
    priorFetchItemKeyPrefix collectionId custodianId source providerItemId <+: job.key

/-- The rows that the sweeper counts as recoveries of a scope. -/
def FoundForScope (collectionId custodianId : Uuid) (source : Source) (scopeKey : JsString)
    (job : LogicalJob) : Prop :=
  job.topic = .collectionFetchPage ∧
    dedupKeys.collectionFetchPage collectionId custodianId source scopeKey [] <+: job.key ∧
      js "recover" <:+: job.key

/-- The rows that the sweeper counts as recoveries of a message. -/
def FoundForParent (evidenceItemId : Uuid) (version : ℕ) (job : LogicalJob) : Prop :=
  job.topic = .processParse ∧
    dedupKeys.processStage (js "parse") evidenceItemId version ++ js ":" <+: job.key ∧
      js "recover" <:+: job.key

/-- A page of a scope. -/
def LogicalJob.PageOf (collectionId custodianId : Uuid) (source : Source) (scopeKey : JsString)
    (job : LogicalJob) : Prop :=
  (∃ cursorHash, job = .fetchPage collectionId custodianId source scopeKey cursorHash) ∨
    ∃ attempt, job = .recoverPage collectionId custodianId source scopeKey attempt

/-- Keys and job ids tell the jobs of a queue apart, no key is too long, and every search finds what
it is for. -/
structure ToldApart (jobs : List LogicalJob) : Prop where
  keys : ∀ job ∈ jobs, ∀ other ∈ jobs, job.topic = other.topic → job.key = other.key → job = other
  jobIds : ∀ job ∈ jobs, ∀ other ∈ jobs, job.topic = other.topic → ∀ id,
    sanitizeJobId job.key = .ok id → sanitizeJobId other.key = .ok id → job = other
  lengths : ∀ job ∈ jobs, ∃ id, sanitizeJobId job.key = .ok id
  items : ∀ collectionId custodianId source providerItemId attempts,
    .fetchItem collectionId custodianId source providerItemId attempts ∈ jobs → ∀ job ∈ jobs,
      (FoundForItem collectionId custodianId source providerItemId job ↔
        ∃ n, job = .fetchItem collectionId custodianId source providerItemId n)
  scopes : ∀ collectionId custodianId source scopeKey,
    (∃ job ∈ jobs, job.PageOf collectionId custodianId source scopeKey) → ∀ job ∈ jobs,
      (FoundForScope collectionId custodianId source scopeKey job ↔
        ∃ n, job = .recoverPage collectionId custodianId source scopeKey n)
  parents : ∀ evidenceItemId version, ∀ job ∈ jobs,
    (FoundForParent evidenceItemId version job ↔
      ∃ n, job = .recoverParse evidenceItemId version n)

/-! ## What is left of a job -/

/-- `dedupKey.replaceAll(':', '__')` -/
def underscored (s : JsString) : JsString := s.flatMap fun c => if c = colon then js "__" else [c]

/-- What a job id says about a job, with colons and pairs of underscores confused. -/
inductive Mark : Type where
  | discover (collectionId : Uuid)
  | page (collectionId custodianId : Uuid) (source : Source) (scopeAndCursor : JsString)
  | item (collectionId custodianId : Uuid) (source : Source) (providerItemId : JsString)
      (attempts : ℕ)
  | finalize (collectionId : Uuid)
  | pst (collectionId evidenceItemId : Uuid)
  | import (importId : Uuid) (attemptToken : JsString)
  | stage (queue : StageQueue) (stage : JsString) (evidenceItemId : Uuid) (version : ℕ)
  | recoverParse (evidenceItemId : Uuid) (version attempt : ℕ)
  | index (evidenceItemId : Uuid) (version : ℕ) (stage : JsString)
  | indexMessage (evidenceItemId : Uuid)
  | caseImport (importId caseId : Uuid)
  | export (exportId : Uuid)
  | production (productionRunId : Uuid)
  | deletion (deletionRequestId : Uuid)
  deriving DecidableEq

/-- What is left of a job in its id. -/
def LogicalJob.mark : LogicalJob → Mark
  | .discover collectionId => .discover collectionId
  | .fetchPage collectionId custodianId source scopeKey cursorHash =>
    .page collectionId custodianId source (underscored (scopeKey ++ js ":" ++ cursorHash))
  | .recoverPage collectionId custodianId source scopeKey attempt =>
    .page collectionId custodianId source
      (underscored (scopeKey ++ js ":" ++ (js "recover" ++ decimal attempt)))
  | .fetchItem collectionId custodianId source providerItemId attempts =>
    .item collectionId custodianId source (underscored providerItemId) attempts
  | .finalize collectionId => .finalize collectionId
  | .pstExtract collectionId evidenceItemId => .pst collectionId evidenceItemId
  | .importAnalyze importId attemptToken => .import importId (underscored attemptToken)
  | .processStage queue stage evidenceItemId version =>
    .stage queue (underscored stage) evidenceItemId version
  | .recoverParse evidenceItemId version attempt => .recoverParse evidenceItemId version attempt
  | .searchIndex evidenceItemId version stage => .index evidenceItemId version (underscored stage)
  | .indexMessage evidenceItemId => .indexMessage evidenceItemId
  | .searchCaseImport importId caseId => .caseImport importId caseId
  | .exportRun exportId => .export exportId
  | .productionRun productionRunId => .production productionRunId
  | .deletionRun deletionRequestId => .deletion deletionRequestId

/-- The texts of a job leave room for the rest of its key. -/
def LogicalJob.Short : LogicalJob → Prop
  | .fetchPage _ _ source scopeKey cursorHash =>
    source.text.length + scopeKey.length + cursorHash.length ≤ 431
  | .recoverPage _ _ source scopeKey attempt =>
    source.text.length + scopeKey.length + (decimal attempt).length ≤ 424
  | .fetchItem _ _ source providerItemId attempts =>
    source.text.length + providerItemId.length + (decimal attempts).length ≤ 430
  | .importAnalyze _ attemptToken => attemptToken.length ≤ 468
  | .processStage _ stage _ version => stage.length + (decimal version).length ≤ 473
  | .recoverParse _ version attempt => (decimal version).length + (decimal attempt).length ≤ 460
  | .searchIndex _ version stage => (decimal version).length + stage.length ≤ 467
  | _ => True

/-- What a set of jobs needs. -/
structure Distinct (jobs : List LogicalJob) : Prop where
  /-- colons as underscores, the texts of two jobs are different if nothing else is -/
  marks : ∀ job ∈ jobs, ∀ other ∈ jobs, job.mark = other.mark → job = other
  short : ∀ job ∈ jobs, job.Short
  /-- no item of a source has the id of another one, a colon, and more -/
  items : ∀ collectionId custodianId source providerItemId attempts longer attempts',
    .fetchItem collectionId custodianId source providerItemId attempts ∈ jobs →
      .fetchItem collectionId custodianId source longer attempts' ∈ jobs →
        ¬ providerItemId ++ js ":" <+: longer
  /-- what begins as a page of a scope does not have the word in it -/
  scopes : ∀ collectionId custodianId source scopeKey other cursorHash,
    (∃ job ∈ jobs, job.PageOf collectionId custodianId source scopeKey) →
      .fetchPage collectionId custodianId source other cursorHash ∈ jobs →
        scopeKey ++ js ":" <+: other ++ js ":" ++ cursorHash →
          ¬ js "recover" <:+: other ∧ ¬ js "recover" <:+: cursorHash
  /-- no recovered scope has the key of another one, a colon, and more -/
  recoveries : ∀ collectionId custodianId source scopeKey longer attempt,
    (∃ job ∈ jobs, job.PageOf collectionId custodianId source scopeKey) →
      .recoverPage collectionId custodianId source longer attempt ∈ jobs →
        ¬ scopeKey ++ js ":" <+: longer
  /-- no stage is itself a recovery of a message -/
  parents : ∀ evidenceItemId version stage other version',
    .processStage .parse stage other version' ∈ jobs →
      dedupKeys.processStage (js "parse") evidenceItemId version ++ js ":" <+: stage →
        ¬ js "recover" <:+: stage

/-! ### Reading job ids -/

@[simp] theorem underscored_append (s t : JsString) :
    underscored (s ++ t) = underscored s ++ underscored t := List.flatMap_append

theorem underscored_of_not_mem {s : JsString} (h : colon ∉ s) : underscored s = s := by
  have hunit : ∀ c ∈ s, (if c = colon then js "__" else [c]) = [c] := by
    intro c hc
    refine if_neg ?_
    rintro rfl
    exact h hc
  rw [underscored, List.flatMap_congr hunit]
  exact List.flatMap_singleton' s

/-- A UUID has only the letters of hexadecimal digits. -/
theorem Uuid.not_mem (id : Uuid) {c : CodeUnit} (h : ¬ (IsHex c ∨ c = unitOf '-')) :
    c ∉ id.text := fun hc => h (id.mem_text c hc)

theorem Uuid.ext_text {id other : Uuid} (h : id.text = other.text) : id = other := by
  cases id
  cases other
  congr

@[simp] theorem underscored_uuid (id : Uuid) : underscored id.text = id.text :=
  underscored_of_not_mem (id.not_mem (by decide))

@[simp] theorem underscored_source (source : Source) : underscored source.text = source.text :=
  underscored_of_not_mem source.colon_not_mem

theorem not_mem_decimal {c : CodeUnit} (h : ¬ IsDigit c) (n : ℕ) : c ∉ decimal n :=
  fun hc => h (isDigit_of_mem_decimal hc)

@[simp] theorem underscored_decimal (n : ℕ) : underscored (decimal n) = decimal n :=
  underscored_of_not_mem (not_mem_decimal (by decide) n)

/-- The job id of a mark. -/
def Mark.text : Mark → JsString
  | .discover collectionId => js "discover__" ++ collectionId.text
  | .page collectionId custodianId source scopeAndCursor =>
    js "page__" ++ (collectionId.text ++ (js "__" ++ (custodianId.text ++ (js "__" ++
      (source.text ++ (js "__" ++ scopeAndCursor))))))
  | .item collectionId custodianId source providerItemId attempts =>
    js "item__" ++ (collectionId.text ++ (js "__" ++ (custodianId.text ++ (js "__" ++
      (source.text ++ (js "__" ++ (providerItemId ++ (js "__a" ++ decimal attempts))))))))
  | .finalize collectionId => js "finalize__" ++ collectionId.text
  | .pst collectionId evidenceItemId =>
    js "pst__" ++ (collectionId.text ++ (js "__" ++ evidenceItemId.text))
  | .import importId attemptToken => js "import__" ++ (importId.text ++ (js "__" ++ attemptToken))
  | .stage _ stageName evidenceItemId version =>
    stageName ++ (js "__" ++ (evidenceItemId.text ++ (js "__v" ++ decimal version)))
  | .recoverParse evidenceItemId version attempt =>
    js "parse" ++ (js "__" ++ (evidenceItemId.text ++ (js "__v" ++ (decimal version ++
      (js "__recover" ++ decimal attempt)))))
  | .index evidenceItemId version stageName =>
    js "index__" ++ (evidenceItemId.text ++ (js "__v" ++ (decimal version ++
      (js "__" ++ stageName))))
  | .indexMessage evidenceItemId => js "extract__" ++ (evidenceItemId.text ++ js "__v1")
  | .caseImport importId caseId => js "case-import__" ++ (importId.text ++ (js "__" ++ caseId.text))
  | .export exportId => js "export__" ++ exportId.text
  | .production productionRunId => js "production-run__" ++ productionRunId.text
  | .deletion deletionRequestId => js "deletion__" ++ deletionRequestId.text

/-- The queue of a mark. -/
def Mark.topic : Mark → QueueName
  | .discover _ => .collectionDiscover
  | .page _ _ _ _ => .collectionFetchPage
  | .item _ _ _ _ _ => .collectionFetchItem
  | .finalize _ => .collectionFinalize
  | .pst _ _ => .pstExtract
  | .import _ _ => .importAnalyze
  | .stage queue _ _ _ => queue.topic
  | .recoverParse _ _ _ => .processParse
  | .index _ _ _ | .indexMessage _ => .searchIndex
  | .caseImport _ _ => .searchCaseImport
  | .export _ => .exportRun
  | .production _ => .productionRun
  | .deletion _ => .deletionRun

theorem topic_mark (job : LogicalJob) : job.mark.topic = job.topic := by
  cases job <;> rfl

/-- **The job id of a job** is that of its mark. -/
theorem underscored_key (job : LogicalJob) : underscored job.key = job.mark.text := by
  cases job <;>
    simp only [LogicalJob.key, dedupKeys.collectionFetchPage, dedupKeys.collectionFetchItem,
      dedupKeys.processStage, LogicalJob.mark, Mark.text, underscored_append, underscored_uuid,
      underscored_source, underscored_decimal, List.append_assoc, List.nil_append] <;>
    rfl

theorem uuid_append_inj {id other : Uuid} {s t : JsString} (h : id.text ++ s = other.text ++ t) :
    id = other ∧ s = t := by
  obtain ⟨hid, hst⟩ := List.append_inj h (id.length_text.trans other.length_text.symm)
  exact ⟨Uuid.ext_text hid, hst⟩

theorem append_uuid_inj {id other : Uuid} {s t : JsString} (h : s ++ id.text = t ++ other.text) :
    s = t ∧ id = other := by
  obtain ⟨hst, hid⟩ := List.append_inj' h (id.length_text.trans other.length_text.symm)
  exact ⟨hst, Uuid.ext_text hid⟩

theorem source_append_inj {source other : Source} {s t : JsString}
    (h : source.text ++ (js "__" ++ s) = other.text ++ (js "__" ++ t)) :
    source = other ∧ s = t := by
  have hline : ∀ source : Source, (0x5F : CodeUnit) ∉ source.text := by
    intro source
    cases source <;> decide
  have hsplit : ∀ u : JsString, js "__" ++ u = 0x5F :: 0x5F :: u := fun u => rfl
  rw [hsplit, hsplit] at h
  obtain ⟨hsource, hst⟩ := first_inj (hline source) (hline other) h
  exact ⟨Source.text_injective hsource, (List.cons.inj hst).2⟩

/-- A text that ends in a word and a number is read from the end. -/
theorem append_number_inj {s t x y : JsString} {n m : ℕ} (hx : 0x5F ∉ x) (hy : 0x5F ∉ y)
    (h : s ++ (js "__" ++ (x ++ decimal n)) = t ++ (js "__" ++ (y ++ decimal m))) :
    s = t ∧ x ++ decimal n = y ++ decimal m := by
  have hsplit : ∀ u v : JsString, u ++ (js "__" ++ v) = (u ++ [0x5F]) ++ 0x5F :: v := by
    intro u v
    rw [List.append_assoc]
    rfl
  have hnumber : ∀ {z : JsString}, 0x5F ∉ z → ∀ k, 0x5F ∉ z ++ decimal k := by
    intro z hz k
    rw [List.mem_append, not_or]
    exact ⟨hz, not_mem_decimal (by decide) k⟩
  rw [hsplit, hsplit] at h
  obtain ⟨hst, hxy⟩ := last_inj (hnumber hx n) (hnumber hy m) h
  exact ⟨List.append_cancel_right hst, hxy⟩

/-- The same with one word. -/
theorem append_version_inj {s t : JsString} {n m : ℕ}
    (h : s ++ (js "__v" ++ decimal n) = t ++ (js "__v" ++ decimal m)) : s = t ∧ n = m := by
  obtain ⟨hst, hnm⟩ := @append_number_inj s t (js "v") (js "v") n m (by decide) (by decide) h
  exact ⟨hst, decimal_injective (List.append_cancel_left hnm)⟩

/-- A number is read up to the next separator. -/
theorem number_append_inj {n m : ℕ} {s t : JsString}
    (h : decimal n ++ (js "__" ++ s) = decimal m ++ (js "__" ++ t)) : n = m ∧ s = t := by
  have hsplit : ∀ u : JsString, js "__" ++ u = 0x5F :: 0x5F :: u := fun u => rfl
  rw [hsplit, hsplit] at h
  obtain ⟨hnm, hst⟩ := first_inj (not_mem_decimal (by decide) n) (not_mem_decimal (by decide) m) h
  exact ⟨decimal_injective hnm, (List.cons.inj hst).2⟩

/-- A recovery of a message has its word where a stage has its version. -/
theorem stage_ne_recoverParse {stageName : JsString} {id other : Uuid} {version v attempt : ℕ}
    {queue : StageQueue} : (Mark.stage queue stageName id version).text ≠
      (Mark.recoverParse other v attempt).text := by
  intro h
  have hleft : (Mark.stage queue stageName id version).text =
      (stageName ++ (js "__" ++ id.text)) ++ (js "__" ++ (js "v" ++ decimal version)) := by
    simp only [Mark.text, List.append_assoc]
    rfl
  have hright : (Mark.recoverParse other v attempt).text =
      (js "parse__" ++ (other.text ++ (js "__v" ++ decimal v))) ++
        (js "__" ++ (js "recover" ++ decimal attempt)) := by
    simp only [Mark.text, List.append_assoc]
    rfl
  rw [hleft, hright] at h
  obtain ⟨-, hword⟩ := append_number_inj (by decide) (by decide) h
  exact absurd (List.cons.inj hword).1 (by decide)

/-- **In one queue, a job id is that of one mark only.** -/
theorem Mark.text_injective {mark other : Mark} (htopic : mark.topic = other.topic)
    (h : mark.text = other.text) : mark = other := by
  cases mark with
  | discover collectionId =>
    cases other with
    | discover other => rw [Uuid.ext_text (List.append_cancel_left h)]
    | stage queue => cases queue <;> cases htopic
    | _ => cases htopic
  | page collectionId custodianId source scopeAndCursor =>
    cases other with
    | page collectionId' custodianId' source' scopeAndCursor' =>
      obtain ⟨rfl, h₁⟩ := uuid_append_inj (List.append_cancel_left h)
      obtain ⟨rfl, h₂⟩ := uuid_append_inj (List.append_cancel_left h₁)
      obtain ⟨rfl, rfl⟩ := source_append_inj (List.append_cancel_left h₂)
      rfl
    | stage queue => cases queue <;> cases htopic
    | _ => cases htopic
  | item collectionId custodianId source providerItemId attempts =>
    cases other with
    | item collectionId' custodianId' source' providerItemId' attempts' =>
      obtain ⟨rfl, h₁⟩ := uuid_append_inj (List.append_cancel_left h)
      obtain ⟨rfl, h₂⟩ := uuid_append_inj (List.append_cancel_left h₁)
      obtain ⟨rfl, h₃⟩ := source_append_inj (List.append_cancel_left h₂)
      obtain ⟨rfl, h₄⟩ := @append_number_inj _ _ (js "a") (js "a") _ _ (by decide) (by decide) h₃
      rw [decimal_injective (List.append_cancel_left h₄)]
    | stage queue => cases queue <;> cases htopic
    | _ => cases htopic
  | finalize collectionId =>
    cases other with
    | finalize other => rw [Uuid.ext_text (List.append_cancel_left h)]
    | stage queue => cases queue <;> cases htopic
    | _ => cases htopic
  | pst collectionId evidenceItemId =>
    cases other with
    | pst collectionId' evidenceItemId' =>
      obtain ⟨rfl, h₁⟩ := uuid_append_inj (List.append_cancel_left h)
      rw [Uuid.ext_text (List.append_cancel_left h₁)]
    | stage queue => cases queue <;> cases htopic
    | _ => cases htopic
  | «import» importId attemptToken =>
    cases other with
    | «import» importId' attemptToken' =>
      obtain ⟨rfl, h₁⟩ := uuid_append_inj (List.append_cancel_left h)
      rw [List.append_cancel_left h₁]
    | stage queue => cases queue <;> cases htopic
    | _ => cases htopic
  | stage queue stageName evidenceItemId version =>
    cases other with
    | stage queue' stageName' evidenceItemId' version' =>
      obtain rfl : queue = queue' := by
        cases queue <;> cases queue' <;> first | rfl | cases htopic
      have hsplit : ∀ (t : JsString) (id : Uuid) (n : ℕ), (Mark.stage queue t id n).text =
          ((t ++ js "__") ++ id.text) ++ (js "__v" ++ decimal n) := by
        intro t id n
        simp only [Mark.text, List.append_assoc]
      rw [hsplit, hsplit] at h
      obtain ⟨h₁, rfl⟩ := append_version_inj h
      obtain ⟨h₂, rfl⟩ := append_uuid_inj h₁
      rw [List.append_cancel_right h₂]
    | recoverParse evidenceItemId' version' attempt => exact absurd h stage_ne_recoverParse
    | _ => cases queue <;> cases htopic
  | recoverParse evidenceItemId version attempt =>
    cases other with
    | recoverParse evidenceItemId' version' attempt' =>
      obtain ⟨rfl, h₁⟩ := uuid_append_inj (List.append_cancel_left (List.append_cancel_left h))
      -- the separator before the word is that of the number
      obtain ⟨rfl, h₂⟩ := @number_append_inj _ _ (js "recover" ++ decimal attempt)
        (js "recover" ++ decimal attempt') (List.append_cancel_left h₁)
      rw [decimal_injective (List.append_cancel_left h₂)]
    | stage queue => exact absurd h.symm stage_ne_recoverParse
    | _ => cases htopic
  | index evidenceItemId version stageName =>
    cases other with
    | index evidenceItemId' version' stageName' =>
      obtain ⟨rfl, h₁⟩ := uuid_append_inj (List.append_cancel_left h)
      obtain ⟨rfl, rfl⟩ := number_append_inj (List.append_cancel_left h₁)
      rfl
    | indexMessage other => exact absurd (List.cons.inj h).1 (by decide)
    | stage queue => cases queue <;> cases htopic
    | _ => cases htopic
  | indexMessage evidenceItemId =>
    cases other with
    | indexMessage other =>
      obtain ⟨rfl, -⟩ := uuid_append_inj (List.append_cancel_left h)
      rfl
    | index other => exact absurd (List.cons.inj h).1 (by decide)
    | stage queue => cases queue <;> cases htopic
    | _ => cases htopic
  | caseImport importId caseId =>
    cases other with
    | caseImport importId' caseId' =>
      obtain ⟨rfl, h₁⟩ := uuid_append_inj (List.append_cancel_left h)
      rw [Uuid.ext_text (List.append_cancel_left h₁)]
    | stage queue => cases queue <;> cases htopic
    | _ => cases htopic
  | «export» exportId =>
    cases other with
    | «export» other => rw [Uuid.ext_text (List.append_cancel_left h)]
    | stage queue => cases queue <;> cases htopic
    | _ => cases htopic
  | production productionRunId =>
    cases other with
    | production other => rw [Uuid.ext_text (List.append_cancel_left h)]
    | stage queue => cases queue <;> cases htopic
    | _ => cases htopic
  | deletion deletionRequestId =>
    cases other with
    | deletion other => rw [Uuid.ext_text (List.append_cancel_left h)]
    | stage queue => cases queue <;> cases htopic
    | _ => cases htopic

/-- **What a job id leaves of a job** is its mark. -/
theorem jobId_eq_iff {job other : LogicalJob} (htopic : job.topic = other.topic) :
    underscored job.key = underscored other.key ↔ job.mark = other.mark := by
  rw [underscored_key, underscored_key]
  refine ⟨fun h => Mark.text_injective ?_ h, congrArg Mark.text⟩
  rw [topic_mark, topic_mark, htopic]

/-! ### Lengths -/

theorem key_ne_nil (job : LogicalJob) : job.key ≠ [] := by
  cases job <;>
    simp [LogicalJob.key, dedupKeys.collectionFetchPage, dedupKeys.collectionFetchItem,
      dedupKeys.processStage, js]

theorem sanitizeJobId_eq_ok {key id : JsString} :
    sanitizeJobId key = .ok id ↔ (key ≠ [] ∧ key.length ≤ 512) ∧ underscored key = id := by
  rw [sanitizeJobId]
  split_ifs with h
  · refine iff_of_false (by rintro ⟨⟩) fun hid => ?_
    rcases h with h | h
    · exact hid.1.1 h
    · exact absurd hid.1.2 (Nat.not_le.mpr h)
  · rw [Except.ok.injEq]
    rw [not_or, Nat.not_lt] at h
    exact ⟨fun hid => ⟨h, hid⟩, fun hid => hid.2⟩

/-- **A key is accepted** exactly if the texts of its job are short. -/
theorem short_iff (job : LogicalJob) : (∃ id, sanitizeJobId job.key = .ok id) ↔ job.Short := by
  have hlength : (∃ id, sanitizeJobId job.key = .ok id) ↔ job.key.length ≤ 512 := by
    simp only [sanitizeJobId_eq_ok, key_ne_nil, ne_eq, not_false_eq_true, true_and]
    exact ⟨fun h => h.choose_spec.1, fun h => ⟨_, h, rfl⟩⟩
  have hwords : (js "discover:").length = 9 ∧ (js "page:").length = 5 ∧ (js "item:").length = 5 ∧
      (js "finalize:").length = 9 ∧ (js "pst:").length = 4 ∧ (js "import:").length = 7 ∧
      (js "index:").length = 6 ∧ (js "case-import:").length = 12 ∧ (js "export:").length = 7 ∧
      (js "production-run:").length = 15 ∧ (js "deletion:").length = 9 ∧ (js ":").length = 1 ∧
      (js ":v").length = 2 ∧ (js ":a").length = 2 ∧ (js "recover").length = 7 ∧
      (js "parse").length = 5 ∧ (js "extract").length = 7 ∧ (decimal 1).length = 1 := by
    decide
  obtain ⟨h₁, h₂, h₃, h₄, h₅, h₆, h₇, h₈, h₉, h₁₀, h₁₁, h₁₂, h₁₃, h₁₄, h₁₅, h₁₆, h₁₇, h₁₈⟩ := hwords
  rw [hlength]
  cases job <;>
    simp only [LogicalJob.key, LogicalJob.Short, dedupKeys.collectionFetchPage,
      dedupKeys.collectionFetchItem, dedupKeys.processStage, List.length_append, List.length_nil,
      Uuid.length_text, h₁, h₂, h₃, h₄, h₅, h₆, h₇, h₈, h₉, h₁₀, h₁₁, h₁₂, h₁₃, h₁₄, h₁₅, h₁₆, h₁₇,
      h₁₈, iff_true] <;>
    omega

/-! ### Searches -/

/-- Where a key goes on with a text without colons, a search for a longer text looks at what is
before. -/
theorem colon_prefix_iff {s t w : JsString} (hw : colon ∉ w) :
    s ++ js ":" <+: t ++ (js ":" ++ w) ↔ s = t ∨ s ++ js ":" <+: t := by
  have hcolon : ∀ u : JsString, js ":" ++ u = colon :: u := fun u => rfl
  refine ⟨?_, ?_⟩
  · rintro ⟨rest, h⟩
    rw [List.append_assoc, hcolon, hcolon] at h
    rcases List.append_eq_append_iff.mp h with ⟨r, rfl, hr⟩ | ⟨r, rfl, hr⟩
    · cases r with
      | nil => exact .inl (List.append_nil s).symm
      | cons c r =>
        obtain ⟨rfl, -⟩ := List.cons.inj hr
        exact .inr ⟨r, by rw [List.append_assoc]; rfl⟩
    · cases r with
      | nil => exact .inl (List.append_nil t)
      | cons c r =>
        obtain ⟨-, rfl⟩ := List.cons.inj hr
        exact absurd (List.mem_append_right r List.mem_cons_self) hw
  · rintro (rfl | ⟨rest, rfl⟩)
    · exact ⟨w, List.append_assoc _ _ _⟩
    · exact ⟨rest ++ (js ":" ++ w), by simp only [List.append_assoc]⟩

theorem source_colon_inj {source other : Source} {s t : JsString}
    (h : source.text ++ (js ":" ++ s) = other.text ++ (js ":" ++ t)) : source = other ∧ s = t := by
  obtain ⟨hsource, hst⟩ := first_inj source.colon_not_mem other.colon_not_mem h
  exact ⟨Source.text_injective hsource, hst⟩

/-- What comes before the texts of providers is compared as a whole. -/
theorem scope_prefix_iff {c c' cu cu' : Uuid} {source source' : Source} {word s t : JsString} :
    word ++ (c.text ++ (js ":" ++ (cu.text ++ (js ":" ++ (source.text ++ (js ":" ++ s)))))) <+:
        word ++ (c'.text ++ (js ":" ++ (cu'.text ++ (js ":" ++ (source'.text ++ (js ":" ++ t)))))) ↔
      c = c' ∧ cu = cu' ∧ source = source' ∧ s <+: t := by
  refine ⟨?_, ?_⟩
  · rintro ⟨rest, h⟩
    simp only [List.append_assoc] at h
    obtain ⟨rfl, h₁⟩ := uuid_append_inj (List.append_cancel_left h)
    obtain ⟨rfl, h₂⟩ := uuid_append_inj (List.append_cancel_left h₁)
    obtain ⟨rfl, h₃⟩ := source_colon_inj (List.append_cancel_left h₂)
    exact ⟨rfl, rfl, rfl, rest, h₃⟩
  · rintro ⟨rfl, rfl, rfl, rest, rfl⟩
    exact ⟨rest, by simp only [List.append_assoc]⟩

/-- **Which attempts are found for an item.** -/
theorem foundForItem_iff {c cu c' cu' : Uuid} {source source' : Source} {id id' : JsString}
    {n : ℕ} :
    FoundForItem c cu source id (.fetchItem c' cu' source' id' n) ↔
      c = c' ∧ cu = cu' ∧ source = source' ∧ (id = id' ∨ id ++ js ":" <+: id') := by
  have hword : colon ∉ js "a" ++ decimal n := by
    rw [List.mem_append, not_or]
    exact ⟨by decide, not_mem_decimal (by decide) n⟩
  have hkey : (LogicalJob.fetchItem c' cu' source' id' n).key = js "item:" ++ (c'.text ++ (js ":" ++
      (cu'.text ++ (js ":" ++ (source'.text ++ (js ":" ++
        (id' ++ (js ":" ++ (js "a" ++ decimal n)))))))))  := by
    simp only [LogicalJob.key, dedupKeys.collectionFetchItem, List.append_assoc]
    rfl
  have hstart : priorFetchItemKeyPrefix c cu source id = js "item:" ++ (c.text ++ (js ":" ++
      (cu.text ++ (js ":" ++ (source.text ++ (js ":" ++ (id ++ js ":"))))))) := by
    simp only [priorFetchItemKeyPrefix, dedupKeys.collectionFetchItem, List.append_assoc]
  rw [FoundForItem, hkey, hstart, scope_prefix_iff, colon_prefix_iff hword]
  exact and_iff_right rfl

/-! The letter `o` of the word is in nothing but the texts of providers. -/

theorem not_recover_infix {s : JsString} (h : unitOf 'o' ∉ s) : ¬ js "recover" <:+: s :=
  fun hfound => h (hfound.subset (by decide))

theorem recover_infix_iff {s t : JsString} :
    js "recover" <:+: s ++ (js ":" ++ t) ↔ js "recover" <:+: s ∨ js "recover" <:+: t :=
  infix_separated (by decide) (by decide)

theorem not_recover_uuid (id : Uuid) : ¬ js "recover" <:+: id.text :=
  not_recover_infix (id.not_mem (by decide))

theorem not_recover_version (n : ℕ) : ¬ js "recover" <:+: js "v" ++ decimal n := by
  refine not_recover_infix ?_
  rw [List.mem_append, not_or]
  exact ⟨by decide, not_mem_decimal (by decide) n⟩

theorem not_recover_source (source : Source) : ¬ js "recover" <:+: source.text :=
  not_recover_infix (by cases source <;> decide)

/-- What the key of a page looks like. -/
theorem pageKey_eq (c cu : Uuid) (source : Source) (scopeKey cursorHash : JsString) :
    dedupKeys.collectionFetchPage c cu source scopeKey cursorHash = js "page:" ++ (c.text ++
      (js ":" ++ (cu.text ++ (js ":" ++ (source.text ++ (js ":" ++
        (scopeKey ++ (js ":" ++ cursorHash)))))))) := by
  simp only [dedupKeys.collectionFetchPage, List.append_assoc]

/-- **Which pages are found for a scope.** -/
theorem found_page_iff {c cu c' cu' : Uuid} {source source' : Source}
    {scopeKey other cursorHash : JsString} :
    dedupKeys.collectionFetchPage c cu source scopeKey [] <+:
        dedupKeys.collectionFetchPage c' cu' source' other cursorHash ∧
      js "recover" <:+: dedupKeys.collectionFetchPage c' cu' source' other cursorHash ↔
    (c = c' ∧ cu = cu' ∧ source = source' ∧ scopeKey ++ js ":" <+: other ++ js ":" ++ cursorHash) ∧
      (js "recover" <:+: other ∨ js "recover" <:+: cursorHash) := by
  have hword : js "page:" ++ (c'.text ++ (js ":" ++ (cu'.text ++ (js ":" ++ (source'.text ++
      (js ":" ++ (other ++ (js ":" ++ cursorHash)))))))) = js "page" ++ (js ":" ++ (c'.text ++
        (js ":" ++ (cu'.text ++ (js ":" ++ (source'.text ++ (js ":" ++ (other ++ (js ":" ++
          cursorHash))))))))) := rfl
  rw [pageKey_eq, pageKey_eq, scope_prefix_iff, List.append_nil, hword]
  simp only [recover_infix_iff, not_recover_uuid, not_recover_source, false_or,
    not_recover_infix (show unitOf 'o' ∉ js "page" by decide), List.append_assoc]

/-- The key of a recovery is that of a page with this word. -/
theorem recoverKey_eq (c cu : Uuid) (source : Source) (scopeKey : JsString) (attempt : ℕ) :
    (LogicalJob.recoverPage c cu source scopeKey attempt).key =
      dedupKeys.collectionFetchPage c cu source scopeKey (js "recover" ++ decimal attempt) := by
  simp only [LogicalJob.key, dedupKeys.collectionFetchPage, List.append_assoc, List.nil_append]

theorem colon_not_mem_recover (n : ℕ) : colon ∉ js "recover" ++ decimal n := by
  rw [List.mem_append, not_or]
  exact ⟨by decide, not_mem_decimal (by decide) n⟩

/-- **Which recoveries are found for a scope.** -/
theorem foundForScope_recoverPage {c cu c' cu' : Uuid} {source source' : Source}
    {scopeKey other : JsString} {n : ℕ} :
    FoundForScope c cu source scopeKey (.recoverPage c' cu' source' other n) ↔
      c = c' ∧ cu = cu' ∧ source = source' ∧ (scopeKey = other ∨ scopeKey ++ js ":" <+: other) := by
  rw [FoundForScope, recoverKey_eq, found_page_iff, List.append_assoc,
    colon_prefix_iff (colon_not_mem_recover n)]
  refine (and_iff_right rfl).trans ?_
  exact and_iff_left (.inr (List.infix_append' [] (js "recover") (decimal n)))

/-- **Which stages are found for a message.** -/
theorem foundForParent_processStage {e other : Uuid} {version version' : ℕ} {stage : JsString} :
    FoundForParent e version (.processStage .parse stage other version') ↔
      dedupKeys.processStage (js "parse") e version ++ js ":" <+: stage ∧
        js "recover" <:+: stage := by
  have hsplit : ∀ (word : JsString) (id : Uuid) (n : ℕ), dedupKeys.processStage word id n =
      word ++ (js ":" ++ (id.text ++ (js ":" ++ (js "v" ++ decimal n)))) := by
    intro word id n
    simp only [dedupKeys.processStage, List.append_assoc]
    rfl
  have hkey : js "recover" <:+: dedupKeys.processStage stage other version' ↔
      js "recover" <:+: stage := by
    rw [hsplit]
    simp only [recover_infix_iff, not_recover_uuid, not_recover_version, or_false]
  rw [FoundForParent, LogicalJob.key, hkey]
  refine (and_iff_right rfl).trans ?_
  refine and_congr_left fun hrecover => ⟨?_, fun h => ?_⟩
  · rintro ⟨rest, h⟩
    rw [hsplit stage] at h
    rcases List.append_eq_append_iff.mp h with ⟨r, rfl, -⟩ | ⟨r, hstage, -⟩
    · exact ⟨r, rfl⟩
    -- the text that is looked for does not have the word in it
    · have hfound : js "recover" <:+:
          dedupKeys.processStage (js "parse") e version ++ (js ":" ++ []) := by
        rw [List.append_nil, hstage]
        exact hrecover.trans (List.infix_append' [] stage r)
      rw [recover_infix_iff, hsplit] at hfound
      simp only [recover_infix_iff, not_recover_uuid, not_recover_version, or_false,
        not_recover_infix (show unitOf 'o' ∉ js "parse" by decide),
        not_recover_infix List.not_mem_nil] at hfound
  · exact h.trans (by rw [hsplit]; exact List.prefix_append _ _)

/-- **Which recoveries are found for a message.** -/
theorem foundForParent_recoverParse {e other : Uuid} {version version' n : ℕ} :
    FoundForParent e version (.recoverParse other version' n) ↔ e = other ∧ version = version' := by
  have hcolon : ∀ u : JsString, js ":" ++ u = colon :: u := fun u => rfl
  rw [FoundForParent, LogicalJob.key]
  refine (and_iff_right rfl).trans ⟨?_, ?_⟩
  · rintro ⟨⟨rest, h⟩, -⟩
    simp only [dedupKeys.processStage, List.append_assoc] at h
    obtain ⟨rfl, h₁⟩ := uuid_append_inj (List.append_cancel_left (List.append_cancel_left h))
    have h₂ := List.append_cancel_left h₁
    rw [hcolon, hcolon] at h₂
    obtain ⟨hversion, -⟩ := first_inj (not_mem_decimal (by decide) version)
      (not_mem_decimal (by decide) version') h₂
    exact ⟨rfl, decimal_injective hversion⟩
  · rintro ⟨rfl, rfl⟩
    refine ⟨⟨js "recover" ++ decimal n, by simp only [List.append_assoc]⟩, ?_⟩
    exact ⟨_, decimal n, rfl⟩

/-! ## All jobs -/

section Assembled

variable {jobs : List LogicalJob}

/-- Jobs with one mark are in one queue. -/
theorem topic_eq_of_mark {job other : LogicalJob} (h : job.mark = other.mark) :
    job.topic = other.topic := by
  rw [← topic_mark, ← topic_mark, h]

/-- Keys and ids tell jobs apart exactly if marks do. -/
theorem marks_iff (hshort : ∀ job ∈ jobs, job.Short) :
    ((∀ job ∈ jobs, ∀ other ∈ jobs, job.topic = other.topic → job.key = other.key → job = other) ∧
      ∀ job ∈ jobs, ∀ other ∈ jobs, job.topic = other.topic → ∀ id,
        sanitizeJobId job.key = .ok id → sanitizeJobId other.key = .ok id → job = other) ↔
    ∀ job ∈ jobs, ∀ other ∈ jobs, job.mark = other.mark → job = other := by
  refine ⟨?_, ?_⟩
  · rintro ⟨-, hids⟩ job hjob other hother hmark
    have htopic := topic_eq_of_mark hmark
    obtain ⟨id, hid⟩ := (short_iff job).mpr (hshort job hjob)
    obtain ⟨id', hid'⟩ := (short_iff other).mpr (hshort other hother)
    obtain rfl : id = id' := by
      rw [← (sanitizeJobId_eq_ok.mp hid).2, ← (sanitizeJobId_eq_ok.mp hid').2]
      exact (jobId_eq_iff htopic).mpr hmark
    exact hids job hjob other hother htopic id hid hid'
  · intro hmarks
    refine ⟨fun job hjob other hother htopic hkey => ?_,
      fun job hjob other hother htopic id hid hid' => ?_⟩
    · exact hmarks job hjob other hother ((jobId_eq_iff htopic).mp (congrArg underscored hkey))
    · refine hmarks job hjob other hother ((jobId_eq_iff htopic).mp ?_)
      rw [(sanitizeJobId_eq_ok.mp hid).2, (sanitizeJobId_eq_ok.mp hid').2]

/-- The search for an item is exact exactly if no longer id begins with its own and a colon. -/
theorem items_iff {c cu : Uuid} {source : Source} {id : JsString} :
    (∀ job ∈ jobs, (FoundForItem c cu source id job ↔ ∃ n, job = .fetchItem c cu source id n)) ↔
      ∀ longer n, .fetchItem c cu source longer n ∈ jobs → ¬ id ++ js ":" <+: longer := by
  have hself : ¬ id ++ js ":" <+: id := by
    intro h
    have hlength := h.length_le
    rw [List.length_append, show (js ":").length = 1 from rfl] at hlength
    omega
  refine ⟨?_, ?_⟩
  · intro h longer n hmem hstart
    obtain ⟨m, hm⟩ := (h _ hmem).mp (foundForItem_iff.mpr ⟨rfl, rfl, rfl, .inr hstart⟩)
    cases hm
    exact hself hstart
  · intro h job hjob
    refine ⟨?_, ?_⟩
    · intro hfound
      cases job with
      | fetchItem c' cu' source' id' n =>
        obtain ⟨rfl, rfl, rfl, rfl | hstart⟩ := foundForItem_iff.mp hfound
        · exact ⟨n, rfl⟩
        · exact absurd hstart (h _ n hjob)
      | processStage queue => cases queue <;> cases hfound.1
      | _ => cases hfound.1
    · rintro ⟨n, rfl⟩
      exact foundForItem_iff.mpr ⟨rfl, rfl, rfl, .inl rfl⟩

/-- The search for a scope is exact exactly if no other page is taken for a recovery of it. -/
theorem scopes_iff {c cu : Uuid} {source : Source} {scopeKey : JsString} :
    (∀ job ∈ jobs, (FoundForScope c cu source scopeKey job ↔
        ∃ n, job = .recoverPage c cu source scopeKey n)) ↔
      (∀ other cursorHash, .fetchPage c cu source other cursorHash ∈ jobs →
        scopeKey ++ js ":" <+: other ++ js ":" ++ cursorHash →
          ¬ js "recover" <:+: other ∧ ¬ js "recover" <:+: cursorHash) ∧
      ∀ longer n, .recoverPage c cu source longer n ∈ jobs → ¬ scopeKey ++ js ":" <+: longer := by
  have hself : ¬ scopeKey ++ js ":" <+: scopeKey := by
    intro h
    have hlength := h.length_le
    rw [List.length_append, show (js ":").length = 1 from rfl] at hlength
    omega
  refine ⟨?_, ?_⟩
  · intro h
    refine ⟨fun other cursorHash hmem hstart => ?_, fun longer n hmem hstart => ?_⟩
    · rw [← not_or]
      intro hrecover
      obtain ⟨m, hm⟩ := (h _ hmem).mp
        ⟨rfl, found_page_iff.mpr ⟨⟨rfl, rfl, rfl, hstart⟩, hrecover⟩⟩
      cases hm
    · obtain ⟨m, hm⟩ := (h _ hmem).mp
        (foundForScope_recoverPage.mpr ⟨rfl, rfl, rfl, .inr hstart⟩)
      cases hm
      exact hself hstart
  · rintro ⟨hpages, hrecoveries⟩ job hjob
    refine ⟨?_, ?_⟩
    · intro hfound
      cases job with
      | fetchPage c' cu' source' other cursorHash =>
        obtain ⟨⟨rfl, rfl, rfl, hstart⟩, hrecover⟩ := found_page_iff.mp hfound.2
        obtain ⟨hother, hcursor⟩ := hpages other cursorHash hjob hstart
        exact absurd hrecover (not_or.mpr ⟨hother, hcursor⟩)
      | recoverPage c' cu' source' other n =>
        obtain ⟨rfl, rfl, rfl, rfl | hstart⟩ := foundForScope_recoverPage.mp hfound
        · exact ⟨n, rfl⟩
        · exact absurd hstart (hrecoveries other n hjob)
      | processStage queue => cases queue <;> cases hfound.1
      | _ => cases hfound.1
    · rintro ⟨n, rfl⟩
      exact foundForScope_recoverPage.mpr ⟨rfl, rfl, rfl, .inl rfl⟩

/-- The search for a message is exact exactly if no stage is taken for a recovery of it. -/
theorem parents_iff {e : Uuid} {version : ℕ} :
    (∀ job ∈ jobs, (FoundForParent e version job ↔ ∃ n, job = .recoverParse e version n)) ↔
      ∀ stage other version', .processStage .parse stage other version' ∈ jobs →
        dedupKeys.processStage (js "parse") e version ++ js ":" <+: stage →
          ¬ js "recover" <:+: stage := by
  refine ⟨?_, ?_⟩
  · intro h stage other version' hmem hstart hrecover
    obtain ⟨n, hn⟩ := (h _ hmem).mp (foundForParent_processStage.mpr ⟨hstart, hrecover⟩)
    cases hn
  · intro h job hjob
    refine ⟨?_, ?_⟩
    · intro hfound
      cases job with
      | processStage queue stage other version' =>
        cases queue with
        | parse =>
          obtain ⟨hstart, hrecover⟩ := foundForParent_processStage.mp hfound
          exact absurd hrecover (h stage other version' hjob hstart)
        | _ => cases hfound.1
      | recoverParse other version' n =>
        obtain ⟨rfl, rfl⟩ := foundForParent_recoverParse.mp hfound
        exact ⟨n, rfl⟩
      | _ => cases hfound.1
    · rintro ⟨n, rfl⟩
      exact foundForParent_recoverParse.mpr ⟨rfl, rfl⟩

/-- **Keys, job ids and searches tell jobs apart** exactly if their texts do, with colons as
underscores and never one text going on where another ends. -/
theorem told_apart_iff (jobs : List LogicalJob) : ToldApart jobs ↔ Distinct jobs := by
  refine ⟨?_, ?_⟩
  · intro h
    have hshort : ∀ job ∈ jobs, job.Short := fun job hjob => (short_iff job).mp (h.lengths job hjob)
    exact
      { marks := (marks_iff hshort).mp ⟨h.keys, h.jobIds⟩
        short := hshort
        items := fun c cu source id n longer m hid hlonger =>
          items_iff.mp (h.items c cu source id n hid) longer m hlonger
        scopes := fun c cu source scopeKey other cursorHash hscope hmem =>
          (scopes_iff.mp (h.scopes c cu source scopeKey hscope)).1 other cursorHash hmem
        recoveries := fun c cu source scopeKey longer n hscope hmem =>
          (scopes_iff.mp (h.scopes c cu source scopeKey hscope)).2 longer n hmem
        parents := fun e version stage other version' hmem =>
          parents_iff.mp (h.parents e version) stage other version' hmem }
  · intro h
    obtain ⟨hkeys, hids⟩ := (marks_iff h.short).mpr h.marks
    exact
      { keys := hkeys
        jobIds := hids
        lengths := fun job hjob => (short_iff job).mpr (h.short job hjob)
        items := fun c cu source id n hid => items_iff.mpr fun longer m hlonger =>
          h.items c cu source id n longer m hid hlonger
        scopes := fun c cu source scopeKey hscope => scopes_iff.mpr
          ⟨fun other cursorHash hmem => h.scopes c cu source scopeKey other cursorHash hscope hmem,
            fun longer n hmem => h.recoveries c cu source scopeKey longer n hscope hmem⟩
        parents := fun e version => parents_iff.mpr fun stage other version' hmem =>
          h.parents e version stage other version' hmem }

end Assembled

/-! ### Two scopes with one job id -/

/-- The digit zero is a letter of UUIDs. -/
theorem isHex_of_mem_zeros {c : CodeUnit} (hc : c ∈ List.replicate 36 (unitOf '0')) :
    IsHex c ∨ c = unitOf '-' := by
  rw [List.eq_of_mem_replicate hc]
  decide

/-- A UUID. -/
def zeroUuid : Uuid :=
  ⟨List.replicate 36 (unitOf '0'), List.length_replicate, fun _ => isHex_of_mem_zeros⟩

/-- The first page of a folder. -/
def folderStart (folder : JsString) : LogicalJob :=
  .fetchPage zeroUuid zeroUuid .email folder (js "start")

/-- **Two folders of a mailbox have one job id**, one with a colon where the other has two
underscores, so the job of the second is not added while there is one for the first. -/
theorem folders_not_told_apart :
    ¬ ToldApart [folderStart (js "Archive:2024"), folderStart (js "Archive__2024")] := by
  intro h
  have hshort : ∀ folder : JsString, folder.length ≤ 100 → ∃ id,
      sanitizeJobId (folderStart folder).key = .ok id := by
    intro folder hfolder
    have hwords : Source.email.text.length = 5 ∧ (js "start").length = 5 := by decide
    refine (short_iff _).mpr ?_
    rw [folderStart, LogicalJob.Short, hwords.1, hwords.2]
    omega
  obtain ⟨id, hid⟩ := hshort (js "Archive:2024") (by decide)
  obtain ⟨id', hid'⟩ := hshort (js "Archive__2024") (by decide)
  obtain rfl : id = id' := by
    rw [← (sanitizeJobId_eq_ok.mp hid).2, ← (sanitizeJobId_eq_ok.mp hid').2, underscored_key,
      underscored_key]
    rfl
  have heq := h.jobIds (folderStart (js "Archive:2024")) List.mem_cons_self
    (folderStart (js "Archive__2024")) (List.mem_cons_of_mem _ List.mem_cons_self) rfl id hid hid'
  have hfolder : js "Archive:2024" = js "Archive__2024" := by
    injection heq
  exact absurd hfolder (by decide)

end AegCloudDfir.Dispatch.JobKeys
