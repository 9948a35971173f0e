import AegCloudDfir.Processing.Mime

/-!
# What the adapter makes of a parsed email

`normalizeFullResult` of `apps/worker/src/processors/parse-adapter.ts` takes what the parser
returns as a value of which it knows nothing, and asks for every property whether it is there and
of which type it is. What is not as expected becomes a default, and nothing is said about it.
`processParse` stores what it is given by the adapter.

* `normalizeFullResult_toUnknown` — what the adapter makes of a record of the parser.
* `losesNothing_iff` — it keeps the record, and the record is what is stored, exactly if the email
  has no date, and all its addresses are in lower case already. The parser returns a date as a
  `Date` where the adapter asks for a string, and the adapter takes the normalized address where
  there is one.
-/

namespace AegCloudDfir.Processing.ParseAdapter

open Evidence (Buffer)
open Search (trim)
open Mime (Environment JsDate ParticipantRole)

/-! ## Probes -/

/-- What `typeof`, `instanceof` and `Array.isArray` tell of a value. -/
inductive Unknown : Type where
  | undefined
  | null
  | bool (value : Bool)
  | number (value : ℕ)
  | string (value : JsString)
  | date (value : JsDate)
  /-- a `Uint8Array` -/
  | bytes (value : Buffer)
  | array (values : List Unknown)
  | object (fields : List (JsString × Unknown))

namespace Unknown

/-- `typeof value !== 'object' || value === null` fails. -/
def isObject : Unknown → Bool
  | .date _ | .bytes _ | .array _ | .object _ => true
  | _ => false

/-- `value[name]`. Only plain objects have properties of the names that are asked for. -/
def property (name : JsString) : Unknown → Unknown
  | .object fields => ((fields.find? fun field => field.1 = name).map Prod.snd).getD .undefined
  | _ => .undefined

/-- `typeof value === 'string' ? value : undefined` -/
def string? : Unknown → Option JsString
  | .string value => some value
  | _ => none

/-- `Array.isArray(value) ? value : undefined` -/
def array? : Unknown → Option (List Unknown)
  | .array values => some values
  | _ => none

/-- `value instanceof Uint8Array ? value : undefined` -/
def bytes? : Unknown → Option Buffer
  | .bytes value => some value
  | _ => none

/-- `value === true` -/
def isTrue : Unknown → Bool
  | .bool value => value
  | _ => false

/-- `str` -/
def str (value : Unknown) : JsString := value.string?.getD []

end Unknown

/-! ## The result -/

/-- `ParsedAddress` -/
structure ParsedAddress where
  address : Option JsString
  name : Option JsString

/-- A header, with its original casing. -/
structure Header where
  name : JsString
  value : JsString

/-- `ParsedAttachment` -/
structure ParsedAttachment where
  filename : JsString
  contentType : JsString
  content : Buffer
  contentId : Option JsString
  isInline : Bool

/-- `ParsedEmail` -/
structure ParsedEmail where
  subject : JsString
  messageId : JsString
  inReplyTo : JsString
  references : List JsString
  rawDateHeader : JsString
  /-- a date as `toISOString` writes it -/
  date : Option JsString
  headers : List Header
  /-- `from`, `sender`, `to`, `cc`, `bcc` and `replyTo` -/
  addresses : ParticipantRole → List ParsedAddress
  bodyPlain : JsString
  bodyHtml : Option JsString
  attachments : List ParsedAttachment
  isEncrypted : Bool
  smimeType : JsString
  parserName : JsString
  parserVersion : JsString

/-! ## Normalizing -/

/-- An address, unless neither part is a string. -/
def parsedAddress (address name : Option JsString) : Option ParsedAddress :=
  if address = none ∧ name = none then none else some ⟨address, name⟩

/-- `normalizeAddressList` -/
def normalizeAddressList (value : Unknown) : List ParsedAddress :=
  (value.array?.getD []).filterMap fun entry =>
    if entry.isObject then
      parsedAddress (entry.property (js "address")).string? (entry.property (js "name")).string?
    else none

/-- An entry of `headers`. -/
def normalizeHeader (h : Unknown) : Option Header :=
  if h.isObject then
    match (h.property (js "rawName")).string?.or (h.property (js "name")).string?,
      (h.property (js "value")).string? with
    | some name, some value => some ⟨name, value⟩
    | _, _ => none
  else none

/-- A string that is not empty. -/
def nonEmpty? (value : Unknown) : Option JsString := value.string?.filter fun s => s ≠ []

/-- An entry of `participants`, if it has the role. -/
def normalizeParticipant (role : ParticipantRole) (p : Unknown) : Option ParsedAddress :=
  if p.isObject ∧ (p.property (js "role")).string? = some role.text then
    parsedAddress
      ((nonEmpty? (p.property (js "normalizedAddress"))).or
        (p.property (js "rawAddress")).string?)
      (nonEmpty? (p.property (js "rawName")))
  else none

/-- `participantsByRole` -/
def participantsByRole (r : Unknown) (role : ParticipantRole) : List ParsedAddress :=
  match (r.property (js "participants")).array? with
  | none => normalizeAddressList (r.property role.text)
  | some participants => participants.filterMap (normalizeParticipant role)

/-- An entry of `attachments`. -/
def normalizeAttachment (a : Unknown) : Option ParsedAttachment :=
  if a.isObject then
    (a.property (js "content")).bytes?.map fun content =>
      { filename := (nonEmpty? (a.property (js "filename"))).getD (js "attachment")
        contentType :=
          (nonEmpty? (a.property (js "contentType"))).getD (js "application/octet-stream")
        content
        contentId := (a.property (js "contentId")).string?
        isInline := (a.property (js "isInline")).isTrue }
  else none

/-- `normalizeFullResult` -/
def normalizeFullResult (raw : Unknown) : Except JsError ParsedEmail :=
  if raw.isObject then
    let headerSource := ((raw.property (js "rawHeaders")).array?.or
      (raw.property (js "headers")).array?).getD []
    .ok
      { subject := (raw.property (js "subject")).str
        messageId := (raw.property (js "messageId")).str
        inReplyTo := (raw.property (js "inReplyTo")).str
        references := ((raw.property (js "references")).array?.getD []).filterMap Unknown.string?
        rawDateHeader := (raw.property (js "rawDateHeader")).str
        date := (raw.property (js "date")).string?
        headers := headerSource.filterMap normalizeHeader
        addresses := participantsByRole raw
        bodyPlain := (raw.property (js "bodyPlain")).str
        bodyHtml := (raw.property (js "bodyHtml")).string?
        attachments :=
          ((raw.property (js "attachments")).array?.getD []).filterMap normalizeAttachment
        isEncrypted := (raw.property (js "isEncrypted")).isTrue
        smimeType := (raw.property (js "smimeType")).str
        parserName := (nonEmpty? (raw.property (js "parserName"))).getD (js "evidence-parser")
        parserVersion := (nonEmpty? (raw.property (js "parserVersion"))).getD (js "1") }
  else .error (.typeError (js "full parser returned a non-object result"))

/-! ## Storing -/

/-- `pgText`: a text column cannot hold the unit 0. -/
def pgText (value : JsString) : JsString := value.filter fun c => c ≠ 0

/-- A row of `headers`. -/
structure HeaderRow where
  name : JsString
  rawName : JsString
  value : JsString
  position : ℕ

/-- A row of `email_participants`. -/
structure ParticipantRow where
  role : ParticipantRole
  rawName : JsString
  rawAddress : JsString
  normalizedAddress : JsString
  domain : JsString
  position : ℕ

/-- The rows of the headers, of which there are at most 1000. -/
def headerRows (env : Environment) (parsed : ParsedEmail) : List HeaderRow :=
  (parsed.headers.take 1000).mapIdx fun position h =>
    ⟨pgText (env.toLowerCase h.name), pgText h.name, pgText (h.value.take 4000), position⟩

/-- `participantRows` of a role. -/
def participantRows (env : Environment) (role : ParticipantRole)
    (addresses : List ParsedAddress) : List ParticipantRow :=
  addresses.mapIdx fun position addr =>
    let raw := pgText (addr.address.getD [])
    let normalized := env.toLowerCase (trim raw)
    ⟨role, pgText (addr.name.getD []), raw, normalized, Mime.domainOf normalized, position⟩

/-- The rows of all participants, role by role. -/
def allParticipantRows (env : Environment) (parsed : ParsedEmail) : List ParticipantRow :=
  Mime.roles.flatMap fun role => participantRows env role (parsed.addresses role)

/-- The `sentAt` that is written, where `new Date` is `dateOf` and the email's metadata has the
`sentAt` of `emailMetadata`, if there is any metadata yet. -/
def sentAtWritten (dateOf : JsString → JsDate) (emailMetadata : Option (Option JsDate))
    (parsed : ParsedEmail) : Option JsDate :=
  match emailMetadata with
  | some none => parsed.date.map dateOf
  -- a missing row is `undefined`, which is not `null`
  | _ => none

/-! ## Records as values -/

def headerToUnknown (h : Mime.RawHeader) : Unknown :=
  .object [(js "name", .string h.name), (js "rawName", .string h.rawName),
    (js "value", .string h.value), (js "position", .number h.position)]

def participantToUnknown (p : Mime.EmailParticipant) : Unknown :=
  .object [(js "role", .string p.role.text), (js "rawName", .string p.rawName),
    (js "rawAddress", .string p.rawAddress),
    (js "normalizedAddress", .string p.normalizedAddress), (js "domain", .string p.domain),
    (js "position", .number p.position)]

def attachmentToUnknown (a : Mime.ParsedAttachment) : Unknown :=
  .object (([(js "filename", .string a.filename), (js "contentType", .string a.contentType),
    (js "size", .number a.size), (js "content", .bytes a.content),
    (js "isInline", .bool a.isInline), (js "isNestedMessage", .bool a.isNestedMessage)] :
      List (JsString × Unknown)) ++
    (a.contentId.map fun id => (js "contentId", Unknown.string id)).toList)

/-- The object that `parseEmail` returns. -/
def toUnknown (email : Mime.ParsedEmail) : Unknown :=
  .object (([(js "rawHeaders", .array (email.rawHeaders.map headerToUnknown)),
    (js "subject", .string email.subject), (js "messageId", .string email.messageId),
    (js "inReplyTo", .string email.inReplyTo),
    (js "references", .array (email.references.map .string)),
    (js "rawDateHeader", .string email.rawDateHeader),
    (js "participants", .array (email.participants.map participantToUnknown)),
    (js "bccPresent", .bool email.bccPresent), (js "bodyPlain", .string email.bodyPlain),
    (js "bodyHtml", match email.bodyHtml with | some html => .string html | none => .null),
    (js "attachments", .array (email.attachments.map attachmentToUnknown)),
    (js "isEncrypted", .bool email.isEncrypted), (js "smimeType", .string email.smimeType),
    (js "headersMalformed", .bool email.headersMalformed)] : List (JsString × Unknown)) ++
    (email.date.map fun date => (js "date", Unknown.date date)).toList)

/-! ## What comes of a record -/

/-- A string that is not empty. -/
def nonEmpty (s : JsString) : Option JsString := if s = [] then none else some s

theorem nonEmpty?_string {s : JsString} : nonEmpty? (.string s) = nonEmpty s := by
  rw [nonEmpty?, Unknown.string?, nonEmpty, Option.filter_some]
  by_cases h : s = [] <;> simp [h]

theorem normalizeHeader_toUnknown (h : Mime.RawHeader) :
    normalizeHeader (headerToUnknown h) = some ⟨h.rawName, h.value⟩ := rfl

/-- What the adapter makes of a participant. -/
def adaptedAddress (p : Mime.EmailParticipant) : ParsedAddress :=
  ⟨some (if p.normalizedAddress = [] then p.rawAddress else p.normalizedAddress),
    nonEmpty p.rawName⟩

theorem text_injective : Function.Injective ParticipantRole.text := by
  intro role role'
  cases role <;> cases role' <;> decide

theorem normalizeParticipant_toUnknown (role : ParticipantRole) (p : Mime.EmailParticipant) :
    normalizeParticipant role (participantToUnknown p) =
      if p.role = role then some (adaptedAddress p) else none := by
  have hrole : ((participantToUnknown p).property (js "role")).string? = some p.role.text := rfl
  have haddress : ((nonEmpty? ((participantToUnknown p).property (js "normalizedAddress"))).or
      ((participantToUnknown p).property (js "rawAddress")).string?) =
      (nonEmpty p.normalizedAddress).or (some p.rawAddress) :=
    congrArg (fun o : Option JsString => o.or (some p.rawAddress)) nonEmpty?_string
  have hname : nonEmpty? ((participantToUnknown p).property (js "rawName")) = nonEmpty p.rawName :=
    nonEmpty?_string
  have hchosen : (nonEmpty p.normalizedAddress).or (some p.rawAddress) =
      some (if p.normalizedAddress = [] then p.rawAddress else p.normalizedAddress) := by
    rw [nonEmpty]
    split_ifs <;> rfl
  have hobject : (participantToUnknown p).isObject = true := rfl
  rw [normalizeParticipant, hrole, haddress, hname, hchosen, hobject]
  simp only [true_and, Option.some.injEq, text_injective.eq_iff, parsedAddress, reduceCtorEq,
    false_and, if_false, adaptedAddress]

/-- What the adapter makes of an attachment. -/
def adaptedAttachment (a : Mime.ParsedAttachment) : ParsedAttachment where
  filename := (nonEmpty a.filename).getD (js "attachment")
  contentType := (nonEmpty a.contentType).getD (js "application/octet-stream")
  content := a.content
  contentId := a.contentId
  isInline := a.isInline

theorem normalizeAttachment_toUnknown (a : Mime.ParsedAttachment) :
    normalizeAttachment (attachmentToUnknown a) = some (adaptedAttachment a) := by
  have hcontent : ((attachmentToUnknown a).property (js "content")).bytes? = some a.content := rfl
  have hfilename : nonEmpty? ((attachmentToUnknown a).property (js "filename")) =
      nonEmpty a.filename := nonEmpty?_string
  have htype : nonEmpty? ((attachmentToUnknown a).property (js "contentType")) =
      nonEmpty a.contentType := nonEmpty?_string
  have hid : ((attachmentToUnknown a).property (js "contentId")).string? = a.contentId := by
    rcases a with ⟨_, _, _, _, contentId, _, _⟩
    cases contentId <;> rfl
  have hobject : (attachmentToUnknown a).isObject = true := rfl
  have hinline : ((attachmentToUnknown a).property (js "isInline")).isTrue = a.isInline := rfl
  rw [normalizeAttachment, hcontent, hfilename, htype, hid, hobject, hinline]
  rfl

/-- What the adapter makes of a record: the date is lost. -/
def adapted (email : Mime.ParsedEmail) : ParsedEmail where
  subject := email.subject
  messageId := email.messageId
  inReplyTo := email.inReplyTo
  references := email.references
  rawDateHeader := email.rawDateHeader
  date := none
  headers := email.rawHeaders.map fun h => ⟨h.rawName, h.value⟩
  addresses role := (email.participants.filter fun p => p.role = role).map adaptedAddress
  bodyPlain := email.bodyPlain
  bodyHtml := email.bodyHtml
  attachments := email.attachments.map adaptedAttachment
  isEncrypted := email.isEncrypted
  smimeType := email.smimeType
  parserName := js "evidence-parser"
  parserVersion := js "1"

theorem filterMap_ite {α β : Type} (q : α → Prop) [DecidablePred q] (f : α → β) (l : List α) :
    (l.filterMap fun a => if q a then some (f a) else none) = (l.filter fun a => q a).map f := by
  induction l with
  | nil => rfl
  | cons a l ih => by_cases ha : q a <;> simp [ha, ih]

theorem participantsByRole_toUnknown (email : Mime.ParsedEmail) (role : ParticipantRole) :
    participantsByRole (toUnknown email) role =
      (email.participants.filter fun p => p.role = role).map adaptedAddress := by
  have hlist : ((toUnknown email).property (js "participants")).array? =
      some (email.participants.map participantToUnknown) := rfl
  have hone : normalizeParticipant role ∘ participantToUnknown =
      fun p => if p.role = role then some (adaptedAddress p) else none :=
    funext (normalizeParticipant_toUnknown role)
  simp only [participantsByRole, hlist]
  rw [List.filterMap_map, hone, filterMap_ite]

/-- **The adapter's result**, for a record of the parser. -/
theorem normalizeFullResult_toUnknown (email : Mime.ParsedEmail) :
    normalizeFullResult (toUnknown email) = .ok (adapted email) := by
  have hheaders : ((toUnknown email).property (js "rawHeaders")).array? =
      some (email.rawHeaders.map headerToUnknown) := rfl
  have hreferences : ((toUnknown email).property (js "references")).array? =
      some (email.references.map .string) := rfl
  have hattachments : ((toUnknown email).property (js "attachments")).array? =
      some (email.attachments.map attachmentToUnknown) := rfl
  have hdate : ((toUnknown email).property (js "date")).string? = none := by
    rcases email with ⟨_, _, _, _, _, date, _, _, _, _, _, _, _, _, _⟩
    cases date <;> rfl
  have hhtml : ((toUnknown email).property (js "bodyHtml")).string? = email.bodyHtml := by
    rcases email with ⟨_, _, _, _, _, _, _, _, _, _, html, _, _, _, _⟩
    cases html <;> rfl
  have hname : ((toUnknown email).property (js "parserName")).string? = none := by
    rcases email with ⟨_, _, _, _, _, date, _, _, _, _, _, _, _, _, _⟩
    cases date <;> rfl
  have hversion : ((toUnknown email).property (js "parserVersion")).string? = none := by
    rcases email with ⟨_, _, _, _, _, date, _, _, _, _, _, _, _, _, _⟩
    cases date <;> rfl
  have hallHeaders : (email.rawHeaders.map headerToUnknown).filterMap normalizeHeader =
      email.rawHeaders.map fun h => ⟨h.rawName, h.value⟩ := by
    rw [List.filterMap_map, show normalizeHeader ∘ headerToUnknown =
      some ∘ fun h => ⟨h.rawName, h.value⟩ from funext normalizeHeader_toUnknown]
    exact congrFun List.filterMap_eq_map _
  have hallReferences : (email.references.map Unknown.string).filterMap Unknown.string? =
      email.references := by
    rw [List.filterMap_map]
    exact List.filterMap_some
  have hallAttachments : (email.attachments.map attachmentToUnknown).filterMap
      normalizeAttachment = email.attachments.map adaptedAttachment := by
    rw [List.filterMap_map, show normalizeAttachment ∘ attachmentToUnknown =
      some ∘ adaptedAttachment from funext normalizeAttachment_toUnknown]
    exact congrFun List.filterMap_eq_map _
  have haddresses : participantsByRole (toUnknown email) =
      fun role => (email.participants.filter fun p => p.role = role).map adaptedAddress :=
    funext (participantsByRole_toUnknown email)
  have hobject : (toUnknown email).isObject = true := rfl
  simp only [normalizeFullResult, hobject, if_true, hheaders, hreferences, hattachments, hdate,
    hhtml, nonEmpty?, hname, hversion, haddresses, Option.some_or, Option.getD_some, hallHeaders,
    hallReferences, hallAttachments]
  rfl

/-! ## Nothing lost -/

/-- A result has what a record has. -/
structure Kept (dateOf : JsString → JsDate) (email : Mime.ParsedEmail) (result : ParsedEmail) :
    Prop where
  subject : result.subject = email.subject
  messageId : result.messageId = email.messageId
  inReplyTo : result.inReplyTo = email.inReplyTo
  references : result.references = email.references
  date : result.date.map dateOf = email.date
  rawDateHeader : result.rawDateHeader = email.rawDateHeader
  headers : result.headers.map (fun h => (h.name, h.value)) =
    email.rawHeaders.map fun h => (h.rawName, h.value)
  bodyPlain : result.bodyPlain = email.bodyPlain
  bodyHtml : result.bodyHtml = email.bodyHtml
  attachments : result.attachments.map (fun a => (a.content, a.filename, a.isInline)) =
    email.attachments.map fun a => (a.content, a.filename, a.isInline)
  /-- an absent text is an empty one -/
  participants : ∀ role,
    (result.addresses role).map (fun addr => (addr.name.getD [], addr.address.getD [])) =
      (email.participants.filter fun p => p.role = role).map fun p => (p.rawName, p.rawAddress)

/-- What is stored of a result is what a record says, as far as the columns hold it. -/
structure Written (env : Environment) (dateOf : JsString → JsDate) (email : Mime.ParsedEmail)
    (result : ParsedEmail) : Prop where
  /-- where no date is stored yet -/
  sentAt : ∀ emailMetadata, emailMetadata = none ∨ emailMetadata = some none →
    sentAtWritten dateOf emailMetadata result = email.date
  rawDateHeader : pgText result.rawDateHeader = pgText email.rawDateHeader
  headers : (headerRows env result).map (fun row => (row.rawName, row.value, row.position)) =
    (email.rawHeaders.take 1000).map fun h => (pgText h.rawName, pgText (h.value.take 4000),
      h.position)
  participants : (allParticipantRows env result).map
      (fun row => (row.role, row.rawName, row.rawAddress, row.position)) =
    email.participants.map fun p => (p.role, pgText p.rawName, pgText p.rawAddress, p.position)

/-- **The adapter keeps the record, and it is what is stored.** -/
def LosesNothing (env : Environment) (dateOf : JsString → JsDate) (email : Mime.ParsedEmail) :
    Prop :=
  ∃ result, normalizeFullResult (toUnknown email) = .ok result ∧ Kept dateOf email result ∧
    Written env dateOf email result

/-- An email without a date, whose addresses are in lower case and without blanks around them. -/
structure Undated (env : Environment) (email : Mime.ParsedEmail) : Prop where
  date : email.date = none
  addresses : ∀ p ∈ email.participants, env.toLowerCase (trim p.rawAddress) = p.rawAddress ∨
    env.toLowerCase (trim p.rawAddress) = []

section Proofs

variable {env : Environment} {dateOf : JsString → JsDate} {email : Mime.ParsedEmail}

/-- An empty text is made of nothing. -/
theorem getD_nonEmpty {s : JsString} : (nonEmpty s).getD [] = s := by
  rw [nonEmpty]
  split_ifs with h
  · exact h.symm
  · rfl

theorem nonEmpty_getD_of_ne {s t : JsString} (h : s ≠ []) : (nonEmpty s).getD t = s := by
  rw [nonEmpty, if_neg h, Option.getD_some]

/-- The adapter takes the address that was there exactly if it is normalized, or if nothing of it
is left when it is. -/
theorem address_adaptedAddress_iff {p : Mime.EmailParticipant} :
    (adaptedAddress p).address.getD [] = p.rawAddress ↔
      p.normalizedAddress = p.rawAddress ∨ p.normalizedAddress = [] := by
  rw [adaptedAddress, Option.getD_some]
  split_ifs with h
  · simp [h]
  · simp [h]

/-- The result keeps the record exactly if there is no date, and every address is as the adapter
takes it. -/
theorem kept_iff (h : Mime.OfParser env email) :
    Kept dateOf email (adapted email) ↔ Undated env email := by
  refine ⟨?_, ?_⟩
  · intro hkept
    refine ⟨hkept.date.symm, fun p hp => ?_⟩
    have hmem : p ∈ email.participants.filter fun q => q.role = p.role :=
      List.mem_filter.mpr ⟨hp, decide_eq_true rfl⟩
    have hrole := hkept.participants p.role
    rw [adapted, List.map_map] at hrole
    have hone := List.map_inj_left.mp hrole p hmem
    rw [← h.normalizedAddress hp]
    exact address_adaptedAddress_iff.mp (Prod.mk.inj hone).2
  · intro hundated
    refine ⟨rfl, rfl, rfl, rfl, hundated.date.symm, rfl, ?_, rfl, rfl, ?_, fun role => ?_⟩
    · rw [adapted, List.map_map]
      rfl
    · rw [adapted, List.map_map]
      refine List.map_congr_left fun a ha => ?_
      rw [Function.comp_apply, adaptedAttachment, nonEmpty_getD_of_ne (h.attachments a ha)]
    · rw [adapted, List.map_map]
      refine List.map_congr_left fun p hp => ?_
      have hp := (List.mem_filter.mp hp).1
      have haddress := hundated.addresses p hp
      rw [← h.normalizedAddress hp] at haddress
      exact Prod.ext getD_nonEmpty (address_adaptedAddress_iff.mpr haddress)

/-- The rows of a role whose addresses the adapter has kept. -/
theorem participantRows_adapted {role : ParticipantRole}
    {addresses : List (Option JsString × Option JsString)}
    (h : ∀ p ∈ Mime.toParticipants env role addresses,
      (adaptedAddress p).address.getD [] = p.rawAddress) :
    (participantRows env role ((Mime.toParticipants env role addresses).map adaptedAddress)).map
        (fun row => (row.role, row.rawName, row.rawAddress, row.position)) =
      (Mime.toParticipants env role addresses).map fun p =>
        (p.role, pgText p.rawName, pgText p.rawAddress, p.position) := by
  refine List.ext_getElem (by simp [participantRows]) fun i hi hi' => ?_
  rw [List.length_map] at hi'
  obtain ⟨hrole, hposition⟩ := Mime.getElem_toParticipants hi'
  have haddress := h _ (List.getElem_mem hi')
  simp only [participantRows, List.getElem_map, List.getElem_mapIdx, hrole, hposition, haddress]
  rw [adaptedAddress, getD_nonEmpty]

/-- What is kept is stored. -/
theorem written_of_undated (h : Mime.OfParser env email) (hundated : Undated env email) :
    Written env dateOf email (adapted email) := by
  refine ⟨?_, rfl, ?_, ?_⟩
  · rintro emailMetadata (rfl | rfl)
    · exact hundated.date.symm
    · exact hundated.date.symm
  · refine List.ext_getElem (by simp [headerRows, adapted]) fun i hi hi' => ?_
    have hlength : i < email.rawHeaders.length := by
      rw [List.length_map, List.length_take] at hi'
      exact lt_of_lt_of_le hi' (Nat.min_le_right _ _)
    have hposition : email.rawHeaders[i].position = i := by
      have hget := congrArg (fun l : List ℕ => l[i]?) h.headers
      simpa [hlength] using hget
    simp [headerRows, adapted, hposition]
  · obtain ⟨addresses, hparticipants⟩ := h.participants
    have hfilter : ∀ role, (email.participants.filter fun p => p.role = role) =
        Mime.toParticipants env role (addresses role) := by
      intro role
      rw [hparticipants, Mime.filter_participants]
    have hrole : ∀ role, (adapted email).addresses role =
        (Mime.toParticipants env role (addresses role)).map adaptedAddress :=
      fun role => congrArg (List.map adaptedAddress) (hfilter role)
    have hkept : ∀ role, ∀ p ∈ Mime.toParticipants env role (addresses role),
        (adaptedAddress p).address.getD [] = p.rawAddress := by
      intro role p hp
      have hmem : p ∈ email.participants := List.mem_of_mem_filter (hfilter role ▸ hp)
      have haddress := hundated.addresses p hmem
      rw [← h.normalizedAddress hmem] at haddress
      exact address_adaptedAddress_iff.mpr haddress
    rw [allParticipantRows, List.map_flatMap, hparticipants, List.map_flatMap]
    refine congrArg (fun f => Mime.roles.flatMap f) (funext fun role => ?_)
    rw [hrole, participantRows_adapted (hkept role)]

/-- **The adapter loses nothing** of an email exactly if the email has no date, and its addresses
are in lower case, without blanks around them, or nothing but blanks. -/
theorem losesNothing_iff {result : Except JsString Mime.ParsedMail}
    (h : Mime.parseEmail env result = some email) :
    LosesNothing env dateOf email ↔ Undated env email := by
  have hparser := Mime.ofParser h
  refine ⟨?_, ?_⟩
  · rintro ⟨adaptedEmail, hresult, hkept, -⟩
    rw [normalizeFullResult_toUnknown] at hresult
    obtain rfl := Except.ok.inj hresult
    exact (kept_iff hparser).mp hkept
  · intro hundated
    exact ⟨_, normalizeFullResult_toUnknown email, (kept_iff hparser).mpr hundated,
      written_of_undated hparser hundated⟩

end Proofs

/-! ### Two emails -/

/-- An environment for emails in ASCII, without encoded words and without HTML. -/
def asciiEnvironment : Environment where
  toLowerCase s := s.map fun c => if 0x41 ≤ c ∧ c ≤ 0x5A then c + 0x20 else c
  decodeText _ _ := none
  fromBase64 _ := []
  htmlToText html := html

/-- An email with a sender, a body and an attachment. -/
def mail (headerLines : List Mime.HeaderLine) (address : JsString) (date : Option JsDate) :
    Mime.ParsedMail where
  headerLines
  senderHeader := none
  contentTypeHeader := some (.structured (js "multipart/mixed"))
  «from» := some (.one [.mailbox (some address) (some (js "Ann"))])
  «to» := none
  cc := none
  bcc := none
  replyTo := none
  subject := some (js "Report")
  messageId := none
  inReplyTo := none
  references := none
  date
  html := none
  text := some (js "see attachment")
  attachments := [⟨some (js "report.pdf"), js "application/pdf", js "attachment", false, none, 3,
    [1, 2, 3]⟩]

/-- With a date, and an address with capital letters. -/
def datedMail : Mime.ParsedMail :=
  mail [⟨js "from", js "From: Ann <Ann@Example.com>"⟩,
    ⟨js "date", js "Date: Tue, 10 Mar 2026 12:00:00 +0000"⟩] (js "Ann@Example.com")
    (some (some 1773144000000))

/-- Without. -/
def undatedMail : Mime.ParsedMail :=
  mail [⟨js "from", js "From: Ann <ann@example.com>"⟩] (js "ann@example.com") none

/-- **The date is lost**, whatever texts of dates mean. -/
theorem datedMail_losesDate : ∃ email, Mime.parseEmail asciiEnvironment (.ok datedMail) = some email ∧
    ¬ ∃ dateOf, LosesNothing asciiEnvironment dateOf email := by
  refine ⟨_, rfl, ?_⟩
  rintro ⟨dateOf, result, hresult, hkept, -⟩
  rw [normalizeFullResult_toUnknown] at hresult
  obtain rfl := Except.ok.inj hresult
  cases hkept.date

theorem undatedMail_losesNothing :
    ∃ email, Mime.parseEmail asciiEnvironment (.ok undatedMail) = some email ∧
      email.participants.length = 1 ∧ email.attachments.length = 1 ∧
      LosesNothing asciiEnvironment (fun _ => none) email := by
  have haddresses : ∀ email, Mime.parseEmail asciiEnvironment (.ok undatedMail) = some email →
      email.participants.map (fun p => asciiEnvironment.toLowerCase (trim p.rawAddress)) =
        email.participants.map Mime.EmailParticipant.rawAddress := by
    rintro _ ⟨⟩
    decide +kernel
  obtain ⟨email, hemail, hdate, hparticipants, hattachments⟩ :
      ∃ email, Mime.parseEmail asciiEnvironment (.ok undatedMail) = some email ∧
        email.date = none ∧ email.participants.length = 1 ∧ email.attachments.length = 1 :=
    ⟨_, rfl, rfl, rfl, rfl⟩
  refine ⟨email, hemail, hparticipants, hattachments, (losesNothing_iff hemail).mpr ⟨hdate, ?_⟩⟩
  exact fun p hp => .inl (List.map_inj_left.mp (haddresses email hemail) p hp)

end AegCloudDfir.Processing.ParseAdapter
