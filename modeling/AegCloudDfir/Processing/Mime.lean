import AegCloudDfir.Evidence.Merkle
import AegCloudDfir.Search.Validate

/-!
# What the parser says about an email

`parseEmail` of `packages/evidence/src/processing/mime.ts`, from what mailparser's `simpleParser`
returns to the record it makes of that. The result of `simpleParser` is arbitrary within its
types. Lower case, text decoders and base64 are JavaScript's, and `htmlToText` is only ever handed
on, so these are parameters.
-/

namespace AegCloudDfir.Processing.Mime

open Evidence (Buffer)
open Search (isSpace trim)

/-! ## Text -/

/-- What the parser is given by its environment. -/
structure Environment where
  /-- `s.toLowerCase()` -/
  toLowerCase : JsString → JsString
  /-- `new TextDecoder(charset, { fatal: false }).decode(bytes)`; `none` if it throws -/
  decodeText : JsString → Buffer → Option JsString
  /-- `Buffer.from(data, 'base64')` -/
  fromBase64 : JsString → Buffer
  /-- of `html-to-text.ts` -/
  htmlToText : JsString → JsString

/-- Replaces whatever `match?` recognizes at the beginning of the rest, from left to right. The
number bounds how often it is asked. -/
def replaceAll (match? : JsString → Option (JsString × JsString)) : ℕ → JsString → JsString
  | 0, s => s
  | n + 1, s =>
    match match? s with
    | some (replacement, rest) => replacement ++ replaceAll match? n rest
    | none =>
      match s with
      | [] => []
      | c :: rest => c :: replaceAll match? n rest

/-- A blank or a tab. -/
def IsBlank (c : CodeUnit) : Prop := c = 0x20 ∨ c = 0x09

instance (c : CodeUnit) : Decidable (IsBlank c) := inferInstanceAs (Decidable (_ ∨ _))

/-- `/[ \t]+/` at the beginning. -/
def skipBlanks (s : JsString) : Option JsString :=
  match s with
  | c :: rest => if IsBlank c then some (rest.dropWhile fun c => IsBlank c) else none
  | [] => none

/-- `/\r?\n[ \t]+/` at the beginning. -/
def matchFold : JsString → Option (JsString × JsString)
  | 0x0D :: 0x0A :: rest => (skipBlanks rest).map fun rest => (js " ", rest)
  | 0x0A :: rest => (skipBlanks rest).map fun rest => (js " ", rest)
  | _ => none

/-- `unfold` -/
def unfoldText (value : JsString) : JsString := trim (replaceAll matchFold value.length value)

/-! ## Encoded words -/

/-- The parts of `=?charset?B|Q?data?=`. -/
structure EncodedWord where
  charset : JsString
  encoding : CodeUnit
  data : JsString

/-- `[^?\s]` -/
def IsPlain (c : CodeUnit) : Prop := c ≠ unitOf '?' ∧ isSpace c = false

instance (c : CodeUnit) : Decidable (IsPlain c) := inferInstanceAs (Decidable (_ ∧ _))

/-- An encoded word at the beginning, and what follows it. -/
def matchEncodedWord (s : JsString) : Option (EncodedWord × JsString) :=
  match s with
  | 0x3D :: 0x3F :: rest =>
    let charset := rest.takeWhile fun c => IsPlain c
    match rest.dropWhile fun c => IsPlain c with
    | 0x3F :: encoding :: 0x3F :: rest =>
      let data := rest.takeWhile fun c => IsPlain c
      match rest.dropWhile fun c => IsPlain c with
      | 0x3F :: 0x3D :: rest =>
        if charset ≠ [] ∧ encoding ∈ js "bBqQ" then some (⟨charset, encoding, data⟩, rest)
        else none
      | _ => none
    | _ => none
  | _ => none

/-- `/[0-9a-fA-F]/` with its value. -/
def hexOf (c : CodeUnit) : Option ℕ :=
  if 0x30 ≤ c ∧ c ≤ 0x39 then some (c.val - 0x30)
  else if 0x41 ≤ c ∧ c ≤ 0x46 then some (c.val - 0x37)
  else if 0x61 ≤ c ∧ c ≤ 0x66 then some (c.val - 0x57)
  else none

/-- The bytes of a text in the `Q` encoding, in which blanks have been put for underscores. -/
def qBytes : JsString → Buffer
  | [] => []
  | 0x3D :: a :: b :: rest =>
    match hexOf a, hexOf b with
    | some high, some low => Fin.ofNat 0x100 (high * 16 + low) :: qBytes rest
    | _, _ => 0x3D :: qBytes (a :: b :: rest)
  | c :: rest => Fin.ofNat 0x100 c.val :: qBytes rest

/-- What an encoded word is replaced by. -/
def decodeWord (env : Environment) (whole : JsString) (word : EncodedWord) : JsString :=
  -- a language suffix is left out
  let charset := word.charset.takeWhile fun c => c ≠ unitOf '*'
  let bytes :=
    if word.encoding ∈ js "bB" then env.fromBase64 word.data
    else qBytes (word.data.map fun c => if c = unitOf '_' then 0x20 else c)
  match env.decodeText charset bytes with
  | some text => text
  | none => (env.decodeText (js "utf-8") bytes).getD whole

/-- `decodeEncodedWords` -/
def decodeEncodedWords (env : Environment) (input : JsString) : JsString :=
  let between (s : JsString) : Option (JsString × JsString) :=
    match matchEncodedWord s with
    | some (_, rest) =>
      match skipBlanks rest with
      | some next =>
        if (js "=?").isPrefixOf next then some (s.take (s.length - rest.length), next) else none
      | none => none
    | none => none
  let joined := replaceAll between input.length input
  let decoded (s : JsString) : Option (JsString × JsString) :=
    (matchEncodedWord s).map fun (word, rest) =>
      (decodeWord env (s.take (s.length - rest.length)) word, rest)
  replaceAll decoded joined.length joined

/-! ## What `simpleParser` returns -/

/-- The time value of a `Date`; `none` if it is invalid. -/
abbrev JsDate : Type := Option ℤ

/-- A value, or several. -/
inductive OneOrMany (α : Type) : Type where
  | one (value : α)
  | many (values : List α)

/-- `EmailAddress`. What a group is called is not used. -/
inductive EmailAddress : Type where
  | mailbox (address name : Option JsString)
  | group (members : List EmailAddress)

/-- `HeaderValue` -/
inductive HeaderValue : Type where
  | text (value : JsString)
  | texts (values : List JsString)
  | addresses (value : List EmailAddress)
  | date (value : JsDate)
  | structured (value : JsString)

/-- An entry of `headerLines`. -/
structure HeaderLine where
  key : JsString
  line : JsString

/-- `Attachment` of mailparser. -/
structure MailAttachment where
  filename : Option JsString
  contentType : JsString
  contentDisposition : JsString
  related : Bool
  cid : Option JsString
  size : ℕ
  content : Buffer

/-- `ParsedMail` -/
structure ParsedMail where
  headerLines : List HeaderLine
  /-- `headers.get('sender')` -/
  senderHeader : Option HeaderValue
  /-- `headers.get('content-type')` -/
  contentTypeHeader : Option HeaderValue
  /-- the `value` of an `AddressObject` is the list of its addresses -/
  «from» : Option (OneOrMany (List EmailAddress))
  «to» : Option (OneOrMany (List EmailAddress))
  cc : Option (OneOrMany (List EmailAddress))
  bcc : Option (OneOrMany (List EmailAddress))
  replyTo : Option (OneOrMany (List EmailAddress))
  subject : Option JsString
  messageId : Option JsString
  inReplyTo : Option JsString
  references : Option (OneOrMany JsString)
  date : Option JsDate
  /-- `none` for `false`, and where there is none -/
  html : Option JsString
  text : Option JsString
  attachments : List MailAttachment

/-! ## The record -/

/-- `ParticipantRole` -/
inductive ParticipantRole : Type where
  | «from»
  | sender
  | «to»
  | cc
  | bcc
  | replyTo
  deriving DecidableEq

/-- The text of a role. -/
def ParticipantRole.text : ParticipantRole → JsString
  | .«from» => js "from"
  | .sender => js "sender"
  | .«to» => js "to"
  | .cc => js "cc"
  | .bcc => js "bcc"
  | .replyTo => js "reply_to"

/-- `RawHeader` -/
structure RawHeader where
  name : JsString
  rawName : JsString
  value : JsString
  position : ℕ

/-- `EmailParticipant` -/
structure EmailParticipant where
  role : ParticipantRole
  rawName : JsString
  rawAddress : JsString
  normalizedAddress : JsString
  domain : JsString
  position : ℕ

/-- `ParsedAttachment` -/
structure ParsedAttachment where
  filename : JsString
  contentType : JsString
  size : ℕ
  content : Buffer
  contentId : Option JsString
  isInline : Bool
  isNestedMessage : Bool

/-- `ParsedEmail` -/
structure ParsedEmail where
  rawHeaders : List RawHeader
  subject : JsString
  messageId : JsString
  inReplyTo : JsString
  references : List JsString
  date : Option JsDate
  rawDateHeader : JsString
  participants : List EmailParticipant
  bccPresent : Bool
  bodyPlain : JsString
  bodyHtml : Option JsString
  attachments : List ParsedAttachment
  isEncrypted : Bool
  smimeType : JsString
  headersMalformed : Bool

/-! ## Parsing -/

section Parsing

variable (env : Environment)

/-- `/[!-9;-~]/` -/
def IsHeaderNameUnit (c : CodeUnit) : Prop := (0x21 ≤ c ∧ c ≤ 0x39) ∨ (0x3B ≤ c ∧ c ≤ 0x7E)

instance (c : CodeUnit) : Decidable (IsHeaderNameUnit c) := inferInstanceAs (Decidable (_ ∨ _))

/-- `HEADER_NAME_RE` -/
def headerName (line : JsString) : Option JsString :=
  let name := line.takeWhile fun c => IsHeaderNameUnit c
  match line.dropWhile fun c => IsHeaderNameUnit c with
  | 0x3A :: _ => if name = [] then none else some name
  | _ => none

/-- An entry of `rawHeaders`. A line without a name is kept. -/
def rawHeader (position : ℕ) (entry : HeaderLine) : RawHeader :=
  match headerName entry.line with
  | none => ⟨env.toLowerCase entry.key, unfoldText entry.line, [], position⟩
  | some rawName =>
    ⟨env.toLowerCase rawName, rawName,
      decodeEncodedWords env (unfoldText (entry.line.drop (rawName.length + 1))), position⟩

/-- `buildRawHeaders` -/
def buildRawHeaders (headerLines : List HeaderLine) : List RawHeader × Bool :=
  (headerLines.mapIdx (rawHeader env), headerLines.any fun entry => (headerName entry.line).isNone)

mutual

/-- The addresses an entry stands for. -/
def EmailAddress.flatten : EmailAddress → List (Option JsString × Option JsString)
  | .mailbox address name => [(address, name)]
  | .group members => flattenAddresses members

/-- `flattenAddresses` -/
def flattenAddresses : List EmailAddress → List (Option JsString × Option JsString)
  | [] => []
  | entry :: entries => entry.flatten ++ flattenAddresses entries

end

/-- `addressObjects` -/
def addressObjects :
    Option (OneOrMany (List EmailAddress)) → List (Option JsString × Option JsString)
  | none => []
  | some (.one value) => flattenAddresses value
  | some (.many values) => flattenAddresses values.flatten

/-- The roles, in their order. -/
def roles : List ParticipantRole := [.«from», .sender, .«to», .cc, .bcc, .replyTo]

/-- The addresses of a role. Nothing is made of a `sender` that is not a list of addresses, and
nothing of blind copies without a header. -/
def addressesOf (parsed : ParsedMail) (bccPresent : Bool) :
    ParticipantRole → List (Option JsString × Option JsString)
  | .«from» => addressObjects parsed.«from»
  | .sender =>
    match parsed.senderHeader with
    | some (.addresses value) => addressObjects (some (.one value))
    | _ => []
  | .«to» => addressObjects parsed.«to»
  | .cc => addressObjects parsed.cc
  | .bcc => if bccPresent then addressObjects parsed.bcc else []
  | .replyTo => addressObjects parsed.replyTo

/-- What follows the last `@`, unless that is the first unit. -/
def domainOf (normalizedAddress : JsString) : JsString :=
  let domain := (normalizedAddress.reverse.takeWhile fun c => c ≠ unitOf '@').reverse
  if domain.length + 1 < normalizedAddress.length then domain else []

/-- `toParticipants` -/
def toParticipants (role : ParticipantRole)
    (addresses : List (Option JsString × Option JsString)) : List EmailParticipant :=
  addresses.mapIdx fun position addr =>
    let rawAddress := addr.1.getD []
    let normalizedAddress := env.toLowerCase (trim rawAddress)
    { role
      rawName := addr.2.getD []
      rawAddress
      normalizedAddress
      domain := domainOf normalizedAddress
      position }

/-- `detectSmime`; `none` if it throws. -/
def detectSmime (parsed : ParsedMail) : Option (Bool × JsString) :=
  let topType : Option JsString :=
    match parsed.contentTypeHeader with
    | some (.structured value) => some (env.toLowerCase value)
    -- the `value` of addresses is a list, which has no `toLowerCase`
    | some (.addresses _) => none
    | _ => some (env.toLowerCase [])
  topType.map fun topType =>
    if topType = js "multipart/encrypted" then (true, js "multipart/encrypted")
    else if topType = js "application/pkcs7-mime" ∨ topType = js "application/x-pkcs7-mime" then
      (true, js "application/pkcs7-mime")
    else if topType = js "multipart/signed" then (false, js "multipart/signed")
    else if parsed.attachments.any fun att =>
        env.toLowerCase att.contentType = js "application/pkcs7-mime" ∨
          env.toLowerCase att.contentType = js "application/x-pkcs7-mime" then
      (true, js "application/pkcs7-mime")
    else (false, [])

/-- `/\.{2,}/` replaced by a single dot. -/
def collapseDots : JsString → JsString
  | 0x2E :: 0x2E :: rest => collapseDots (0x2E :: rest)
  | c :: rest => c :: collapseDots rest
  | [] => []

/-- A filename without control characters, separators, and dots that it may not have. -/
def stripFilename (filename : JsString) : JsString :=
  let printable := filename.filter fun c => ¬ (c ≤ 0x1F ∨ c = 0x7F)
  let single := printable.filter fun c => c ≠ unitOf '/' ∧ c ≠ unitOf '\\'
  trim ((collapseDots single).dropWhile fun c => c = unitOf '.')

/-- The extension of a filename with its dot, unless the dot is the first unit. -/
def extensionOf (name : JsString) : JsString :=
  let afterDot := (name.reverse.takeWhile fun c => c ≠ unitOf '.').reverse
  if afterDot.length + 1 < name.length then unitOf '.' :: afterDot else []

/-- A long filename is cut off before its extension. -/
def truncateFilename (name : JsString) : JsString :=
  let ext := extensionOf name
  (if ext.length ≤ 255 then name.take (255 - ext.length)
    else name.take (name.length - (ext.length - 255))) ++ ext

/-- `sanitizeFilename` of `objectKeys.ts` -/
def sanitizeFilename (filename : JsString) : JsString :=
  let name := stripFilename filename
  if name = [] then js "file"
  else if 255 < name.length then truncateFilename name
  else name

/-- An entry of `attachments`. -/
def parsedAttachment (bodyHtml : Option JsString) (index : ℕ) (att : MailAttachment) :
    ParsedAttachment :=
  let cid := att.cid.getD []
  let referencedInHtml : Bool :=
    cid ≠ [] ∧ ∃ html ∈ bodyHtml, (js "cid:" ++ cid) <:+: html
  let fallback := js "attachment-" ++ decimal (index + 1) ++ js ".bin"
  let filename :=
    match att.filename with
    | some filename =>
      if trim filename = [] then fallback
      else if sanitizeFilename filename = js "file" then fallback
      else sanitizeFilename filename
    | none => fallback
  let contentType := env.toLowerCase att.contentType
  { filename
    contentType
    size := att.size
    content := att.content
    contentId := if cid = [] then none else some cid
    isInline := att.contentDisposition = js "inline" ∨ att.related ∨ referencedInHtml
    isNestedMessage := contentType = js "message/rfc822" }

/-- `degradedResult` -/
def degradedResult : ParsedEmail where
  rawHeaders := []
  subject := []
  messageId := []
  inReplyTo := []
  references := []
  date := none
  rawDateHeader := []
  participants := []
  bccPresent := false
  bodyPlain := []
  bodyHtml := none
  attachments := []
  isEncrypted := false
  smimeType := []
  headersMalformed := true

/-- `parseEmail`, from what `simpleParser` returns or throws; `none` if it throws itself. -/
def parseEmail : Except JsString ParsedMail → Option ParsedEmail
  | .error _ => some degradedResult
  | .ok parsed => do
    let (rawHeaders, malformed) := buildRawHeaders env parsed.headerLines
    let bccPresent := parsed.headerLines.any fun entry => env.toLowerCase entry.key = js "bcc"
    let participants := roles.flatMap fun role =>
      toParticipants env role (addressesOf parsed bccPresent role)
    let bodyPlain :=
      match parsed.text with
      | some (c :: rest) => c :: rest
      | _ => (parsed.html.map env.htmlToText).getD []
    let references :=
      match parsed.references with
      | none => []
      | some (.one reference) => [reference]
      | some (.many references) => references
    let rawDateHeader := ((rawHeaders.find? fun h => h.name = js "date").map RawHeader.value).getD []
    let (isEncrypted, smimeType) ← detectSmime env parsed
    some
      { rawHeaders
        subject := parsed.subject.getD []
        messageId := parsed.messageId.getD []
        inReplyTo := parsed.inReplyTo.getD []
        references
        date := parsed.date
        rawDateHeader
        participants
        bccPresent
        bodyPlain
        bodyHtml := parsed.html
        attachments := parsed.attachments.mapIdx (parsedAttachment env parsed.html)
        isEncrypted
        smimeType
        headersMalformed := malformed }

/-! ## What is known of the record -/

/-- **What a record of the parser is like**: headers are numbered, participants come role by role,
and attachments have names. -/
structure OfParser (email : ParsedEmail) : Prop where
  headers : email.rawHeaders.map RawHeader.position = List.range email.rawHeaders.length
  participants : ∃ addresses : ParticipantRole → List (Option JsString × Option JsString),
    email.participants = roles.flatMap fun role => toParticipants env role (addresses role)
  attachments : ∀ a ∈ email.attachments, a.filename ≠ []

end Parsing

section Proofs

variable {env : Environment}

theorem truncateFilename_ne_nil {name : JsString} (h : name ≠ []) : truncateFilename name ≠ [] := by
  intro hnil
  simp only [truncateFilename] at hnil
  obtain ⟨hname, hext⟩ := List.append_eq_nil_iff.mp hnil
  rw [hext, List.length_nil, if_pos (Nat.zero_le 255), List.take_eq_nil_iff] at hname
  exact hname.elim (by omega) h

theorem sanitizeFilename_ne_nil (filename : JsString) : sanitizeFilename filename ≠ [] := by
  simp only [sanitizeFilename]
  split_ifs with hempty
  · decide
  · exact truncateFilename_ne_nil hempty
  · exact hempty

theorem filename_ne_nil {bodyHtml : Option JsString} {index : ℕ} {att : MailAttachment} :
    (parsedAttachment env bodyHtml index att).filename ≠ [] := by
  have hfallback : js "attachment-" ++ decimal (index + 1) ++ js ".bin" ≠ [] :=
    List.append_ne_nil_of_right_ne_nil _ (by decide)
  simp only [parsedAttachment]
  split
  · split_ifs
    · exact hfallback
    · exact hfallback
    · exact sanitizeFilename_ne_nil _
  · exact hfallback

theorem getElem_toParticipants {role : ParticipantRole}
    {addresses : List (Option JsString × Option JsString)} {i : ℕ}
    (hi : i < (toParticipants env role addresses).length) :
    (toParticipants env role addresses)[i].role = role ∧
      (toParticipants env role addresses)[i].position = i := by
  simp [toParticipants]

theorem role_of_mem_toParticipants {role : ParticipantRole}
    {addresses : List (Option JsString × Option JsString)} {p : EmailParticipant}
    (h : p ∈ toParticipants env role addresses) :
    p.role = role ∧ p.normalizedAddress = env.toLowerCase (trim p.rawAddress) := by
  obtain ⟨i, hi, rfl⟩ := List.mem_mapIdx.mp h
  exact ⟨rfl, rfl⟩

/-- The participants of a role are those that were made for it. -/
theorem filter_participants (addresses : ParticipantRole → List (Option JsString × Option JsString))
    (role : ParticipantRole) :
    ((roles.flatMap fun role => toParticipants env role (addresses role)).filter
      fun p => p.role = role) = toParticipants env role (addresses role) := by
  have hself : (toParticipants env role (addresses role)).filter (fun p => p.role = role) =
      toParticipants env role (addresses role) :=
    List.filter_eq_self.mpr fun p hp => decide_eq_true (role_of_mem_toParticipants hp).1
  have hother : ∀ role', role' ≠ role →
      (toParticipants env role' (addresses role')).filter (fun p => p.role = role) = [] := by
    intro role' hne
    refine List.filter_eq_nil_iff.mpr fun p hp heq => hne ?_
    exact (role_of_mem_toParticipants hp).1.symm.trans (of_decide_eq_true heq)
  cases role <;>
    simp only [roles, List.flatMap_cons, List.flatMap_nil, List.filter_append,
      hself, hother, ne_eq, reduceCtorEq, not_false_eq_true, List.nil_append, List.append_nil]

theorem position_rawHeader {position : ℕ} {entry : HeaderLine} :
    (rawHeader env position entry).position = position := by
  rw [rawHeader]
  split <;> rfl

theorem ofParser {result : Except JsString ParsedMail} {email : ParsedEmail}
    (h : parseEmail env result = some email) : OfParser env email := by
  cases result with
  | error reason =>
    cases h
    refine ⟨rfl, ⟨fun _ => [], rfl⟩, fun _ h => absurd h List.not_mem_nil⟩
  | ok parsed =>
    obtain ⟨⟨isEncrypted, smimeType⟩, -, h⟩ := Option.bind_eq_some_iff.mp h
    obtain rfl := Option.some.inj h
    refine ⟨?_, ?_, ?_⟩
    · refine List.ext_getElem (by simp) fun i _ _ => ?_
      simp [position_rawHeader]
    · exact ⟨addressesOf parsed _, rfl⟩
    · intro a ha
      obtain ⟨index, hindex, rfl⟩ := List.mem_mapIdx.mp ha
      exact filename_ne_nil

theorem OfParser.normalizedAddress {email : ParsedEmail} (h : OfParser env email)
    {p : EmailParticipant} (hp : p ∈ email.participants) :
    p.normalizedAddress = env.toLowerCase (trim p.rawAddress) := by
  obtain ⟨addresses, heq⟩ := h.participants
  rw [heq] at hp
  obtain ⟨role, -, hp⟩ := List.mem_flatMap.mp hp
  exact (role_of_mem_toParticipants hp).2

end Proofs

end AegCloudDfir.Processing.Mime
