import AegCloudDfir.CanonicalForm
import AegCloudDfir.Evidence.Merkle
import AegCloudDfir.Lib.Base64

/-!
# Sealed cookies

`apps/api/src/auth/session.ts` seals three kinds of payloads under one key: sessions, login flows
and connector flows. What tells them apart when they are opened are three schemas that ignore
properties they do not know. A connector flow has every property of a session.

The cipher, `JSON.parse` and the formats of the schema library are a parameter, `Runtime`. What the
cipher is assumed to do is about the history of what was sealed (`Secure`).

* `openSession`, `openAuthFlow`, `openConnectorFlow` — what is opened, at some time.
* `Separate` — each opens what was sealed as its kind, and nothing else.
* `separate_iff` — when that is so, for any string.
-/

namespace AegCloudDfir.Auth

open AegCloudDfir.Evidence (Buffer)

/-! ## Payloads -/

/-- `SessionPayload` -/
structure SessionPayload where
  userId : JsString
  tenantId : Option JsString
  iat : ℤ
  exp : ℤ
  deriving DecidableEq

/-- `AuthFlowPayload` -/
structure AuthFlowPayload where
  state : JsString
  nonce : JsString
  verifier : JsString
  redirectTo : JsString
  iat : ℤ
  exp : ℤ
  deriving DecidableEq

/-- The `provider` of a connector flow. -/
inductive Provider : Type where
  | microsoft
  | google
  | dropbox
  | slack
  deriving DecidableEq

/-- The name of a provider. -/
def Provider.name : Provider → JsString
  | .microsoft => js "microsoft"
  | .google => js "google"
  | .dropbox => js "dropbox"
  | .slack => js "slack"

/-- `ConnectorFlowPayload` -/
structure ConnectorFlowPayload where
  connectorId : JsString
  tenantId : JsString
  userId : JsString
  provider : Provider
  verifier : JsString
  iat : ℤ
  exp : ℤ
  deriving DecidableEq

/-- What is sealed. -/
inductive Payload : Type where
  | session (payload : SessionPayload)
  | authFlow (payload : AuthFlowPayload)
  | connectorFlow (payload : ConnectorFlowPayload)
  deriving DecidableEq

/-- The properties of a session. -/
def SessionPayload.json (p : SessionPayload) : Json ℤ :=
  .obj (([(js "v", .num 1), (js "userId", .str p.userId)] : List (JsString × Json ℤ)) ++
    p.tenantId.toList.map (fun tenantId => (js "tenantId", Json.str tenantId)) ++
    ([(js "iat", .num p.iat), (js "exp", .num p.exp)] : List (JsString × Json ℤ)))

/-- The properties of a login flow. -/
def AuthFlowPayload.json (p : AuthFlowPayload) : Json ℤ :=
  .obj [(js "v", .num 1), (js "kind", .str (js "authflow")), (js "state", .str p.state),
    (js "nonce", .str p.nonce), (js "verifier", .str p.verifier),
    (js "redirectTo", .str p.redirectTo), (js "iat", .num p.iat), (js "exp", .num p.exp)]

/-- The properties of a connector flow. -/
def ConnectorFlowPayload.json (p : ConnectorFlowPayload) : Json ℤ :=
  .obj [(js "v", .num 1), (js "kind", .str (js "connectorflow")),
    (js "connectorId", .str p.connectorId), (js "tenantId", .str p.tenantId),
    (js "userId", .str p.userId), (js "provider", .str p.provider.name),
    (js "verifier", .str p.verifier), (js "iat", .num p.iat), (js "exp", .num p.exp)]

namespace Payload

/-- The properties of a payload. -/
def json : Payload → Json ℤ
  | session p => p.json
  | authFlow p => p.json
  | connectorFlow p => p.json

/-- `JSON.stringify(payload)` -/
def text (payload : Payload) : JsString := payload.json.render

/-- When it expires. -/
def exp : Payload → ℤ
  | session p => p.exp
  | authFlow p => p.exp
  | connectorFlow p => p.exp

end Payload

/-! ## Sealing and opening -/

/-- What is not in the repository: AES-256-GCM under the key, of the UTF-8 of a text; `JSON.parse`;
and the formats of `z.string().uuid()` and `z.number().int()`. -/
structure Runtime where
  /-- the tag and the ciphertext -/
  encrypt : Buffer → JsString → Buffer × Buffer
  decrypt : Buffer → Buffer → Buffer → Option JsString
  parse : JsString → Option (Json ℤ)
  uuid : JsString → Bool
  int : ℤ → Bool

/-- A digit of `base64url`. -/
def base64urlDigit (n : ℕ) : CodeUnit :=
  Fin.ofNat 0x10000 (if n < 26 then 0x41 + n else if n < 52 then 0x61 + (n - 26)
    else if n < 62 then 0x30 + (n - 52) else if n = 62 then 0x2d else 0x5f)

/-- What a character stands for, in `base64url` or `base64`. -/
def base64urlValue (c : CodeUnit) : Option ℕ :=
  if 0x41 ≤ c ∧ c ≤ 0x5a then some (c.val - 0x41)
  else if 0x61 ≤ c ∧ c ≤ 0x7a then some (c.val - 0x61 + 26)
  else if 0x30 ≤ c ∧ c ≤ 0x39 then some (c.val - 0x30 + 52)
  else if c = 0x2d ∨ c = 0x2b then some 62
  else if c = 0x5f ∨ c = 0x2f then some 63
  else none

/-- `buffer.toString('base64url')` -/
def toBase64url (buffer : Buffer) : JsString := Base64.toText base64urlDigit buffer

/-- `Buffer.from(text, 'base64url')` -/
def fromBase64url (text : JsString) : Buffer := Base64.ofText base64urlValue text

/-- `IV_LENGTH` -/
def ivLength : ℕ := 12

/-- `TAG_LENGTH` -/
def tagLength : ℕ := 16

section Opening

variable (rt : Runtime)

/-- The bytes of a sealed payload. -/
def sealedBytes (iv : Buffer) (payload : Payload) : Buffer :=
  iv ++ (rt.encrypt iv payload.text).1 ++ (rt.encrypt iv payload.text).2

/-- `sealSession`, `sealAuthFlow` and `sealConnectorFlow`, with the `iv` that is drawn. -/
def sealPayload (iv : Buffer) (payload : Payload) : JsString :=
  toBase64url (sealedBytes rt iv payload)

/-- `open` -/
def openSealed (sealed : JsString) : Option (Json ℤ) :=
  let buf := fromBase64url sealed
  if buf.length < ivLength + tagLength + 1 then none
  else
    let iv := buf.take ivLength
    let tag := (buf.drop ivLength).take tagLength
    let ciphertext := buf.drop (ivLength + tagLength)
    (rt.decrypt iv tag ciphertext).bind rt.parse

/-- A property of what was opened; what is not an object has none. -/
def property (key : String) : Json ℤ → Option (Json ℤ)
  | .obj properties => properties.lookup (js key)
  | _ => none

/-- `z.literal(1)` -/
def literalOne : Option (Json ℤ) → Option Unit
  | some (.num 1) => some ()
  | _ => none

/-- `z.string()`, with a format. -/
def string (format : JsString → Bool) : Option (Json ℤ) → Option JsString
  | some (.str s) => if format s then some s else none
  | _ => none

/-- `z.string().optional()`, with a format. -/
def optionalString (format : JsString → Bool) : Option (Json ℤ) → Option (Option JsString)
  | none => some none
  | value => (string format value).map some

/-- `z.number().int()` -/
def integer (int : ℤ → Bool) : Option (Json ℤ) → Option ℤ
  | some (.num n) => if int n then some n else none
  | _ => none

/-- The length of a string is at least one. -/
def nonempty (s : JsString) : Bool := !s.isEmpty

/-- The provider with a name. -/
def provider (name : JsString) : Option Provider :=
  [Provider.microsoft, .google, .dropbox, .slack].find? fun provider => provider.name = name

/-- `sessionSchema` -/
def sessionSchema (j : Json ℤ) : Option SessionPayload := do
  literalOne (property "v" j)
  let userId ← string rt.uuid (property "userId" j)
  let tenantId ← optionalString rt.uuid (property "tenantId" j)
  let iat ← integer rt.int (property "iat" j)
  let exp ← integer rt.int (property "exp" j)
  pure ⟨userId, tenantId, iat, exp⟩

/-- `authFlowSchema` -/
def authFlowSchema (j : Json ℤ) : Option AuthFlowPayload := do
  literalOne (property "v" j)
  let _ ← string (fun s => s = js "authflow") (property "kind" j)
  let state ← string nonempty (property "state" j)
  let nonce ← string nonempty (property "nonce" j)
  let verifier ← string nonempty (property "verifier" j)
  let redirectTo ← string (fun _ => true) (property "redirectTo" j)
  let iat ← integer rt.int (property "iat" j)
  let exp ← integer rt.int (property "exp" j)
  pure ⟨state, nonce, verifier, redirectTo, iat, exp⟩

/-- `connectorFlowSchema` -/
def connectorFlowSchema (j : Json ℤ) : Option ConnectorFlowPayload := do
  literalOne (property "v" j)
  let _ ← string (fun s => s = js "connectorflow") (property "kind" j)
  let connectorId ← string rt.uuid (property "connectorId" j)
  let tenantId ← string rt.uuid (property "tenantId" j)
  let userId ← string rt.uuid (property "userId" j)
  let provider ← (string (fun _ => true) (property "provider" j)).bind provider
  let verifier ← optionalString (fun _ => true) (property "verifier" j)
  let iat ← integer rt.int (property "iat" j)
  let exp ← integer rt.int (property "exp" j)
  pure ⟨connectorId, tenantId, userId, provider, verifier.getD [], iat, exp⟩

/-- What a schema reads of a sealed string, unless it has expired. -/
def openWith {α : Type} (schema : Json ℤ → Option α) (exp : α → ℤ) (sealed : JsString)
    (nowMs : ℤ) : Option α :=
  ((openSealed rt sealed).bind schema).bind fun payload =>
    if exp payload * 1000 ≤ nowMs then none else some payload

/-- `openSession` -/
def openSession (sealed : JsString) (nowMs : ℤ) : Option SessionPayload :=
  openWith rt (sessionSchema rt) SessionPayload.exp sealed nowMs

/-- `openAuthFlow` -/
def openAuthFlow (sealed : JsString) (nowMs : ℤ) : Option AuthFlowPayload :=
  openWith rt (authFlowSchema rt) AuthFlowPayload.exp sealed nowMs

/-- `openConnectorFlow` -/
def openConnectorFlow (sealed : JsString) (nowMs : ℤ) : Option ConnectorFlowPayload :=
  openWith rt (connectorFlowSchema rt) ConnectorFlowPayload.exp sealed nowMs

end Opening

/-! ## What is asked for -/

section Asked

variable (rt : Runtime)

/-- A payload is one of its kind. -/
def Payload.Valid : Payload → Prop
  | session p => rt.uuid p.userId ∧ (∀ tenantId ∈ p.tenantId, rt.uuid tenantId) ∧
    rt.int p.iat ∧ rt.int p.exp
  | authFlow p => p.state ≠ [] ∧ p.nonce ≠ [] ∧ p.verifier ≠ [] ∧ rt.int p.iat ∧ rt.int p.exp
  | connectorFlow p => rt.uuid p.connectorId ∧ rt.uuid p.tenantId ∧ rt.uuid p.userId ∧
    rt.int p.iat ∧ rt.int p.exp

/-- What was sealed under the key, each with its `iv`. -/
abbrev History : Type := List (Buffer × Payload)

/-- **The cipher decrypts what was sealed under the key**, and rejects everything else. -/
structure Secure (history : History) : Prop where
  iv : ∀ e ∈ history, e.1.length = ivLength
  valid : ∀ e ∈ history, e.2.Valid rt
  tag : ∀ iv text, (rt.encrypt iv text).1.length = tagLength
  ciphertext : ∀ iv text, text ≠ [] → (rt.encrypt iv text).2 ≠ []
  decrypt : ∀ iv tag ciphertext text, rt.decrypt iv tag ciphertext = some text ↔
    rt.encrypt iv text = (tag, ciphertext) ∧ ∃ e ∈ history, e.1 = iv ∧ e.2.text = text
  parse : ∀ e ∈ history, rt.parse e.2.text = some e.2.json

variable (history : History) (sealed : JsString) (nowMs : ℤ)

/-- A payload was sealed as this string, and has not expired. -/
def SealedAs (payload : Payload) : Prop :=
  (∃ iv, (iv, payload) ∈ history ∧ sealed = sealPayload rt iv payload) ∧
    nowMs < payload.exp * 1000

/-- **Each kind opens what was sealed as that kind**, and nothing else. -/
structure Separate : Prop where
  session : ∀ p, openSession rt sealed nowMs = some p ↔
    SealedAs rt history sealed nowMs (.session p)
  authFlow : ∀ p, openAuthFlow rt sealed nowMs = some p ↔
    SealedAs rt history sealed nowMs (.authFlow p)
  connectorFlow : ∀ p, openConnectorFlow rt sealed nowMs = some p ↔
    SealedAs rt history sealed nowMs (.connectorFlow p)
  /-- what was sealed as something else is no session -/
  other : ∀ e ∈ history, sealed = sealPayload rt e.1 e.2 → (∀ p, e.2 ≠ .session p) →
    openSession rt sealed nowMs = none

/-- **What it takes**: a string that decodes to what was sealed, and has not expired, is the string
that it was sealed as, and no connector flow. -/
def Unmistakable : Prop :=
  ∀ e ∈ history, fromBase64url sealed = sealedBytes rt e.1 e.2 → nowMs < e.2.exp * 1000 →
    sealed = sealPayload rt e.1 e.2 ∧ ∀ p, e.2 ≠ .connectorFlow p

end Asked

/-! ## What was sealed is found -/

theorem fromBase64url_toBase64url (buffer : Buffer) :
    fromBase64url (toBase64url buffer) = buffer :=
  Base64.ofText_toText (by decide) buffer

section Found

variable {rt : Runtime} {history : History} {sealed : JsString} {nowMs : ℤ}

theorem text_ne_nil (payload : Payload) : payload.text ≠ [] := by
  intro h
  obtain ⟨c, t, hrender, -⟩ := Json.render_cons payload.json
  rw [Payload.text, hrender] at h
  cases h

theorem json_of_text {p q : Payload} (h : p.text = q.text) : p.json = q.json :=
  Json.render_injective h

/-- The bytes of a sealed payload determine the `iv` and the text. -/
theorem sealedBytes_inj (hs : Secure rt history) {e e' : Buffer × Payload} (he : e ∈ history)
    (he' : e' ∈ history) (h : sealedBytes rt e.1 e.2 = sealedBytes rt e'.1 e'.2) :
    e.1 = e'.1 ∧ e.2.text = e'.2.text := by
  have hiv : e.1.length = e'.1.length := (hs.iv e he).trans (hs.iv e' he').symm
  rw [sealedBytes, sealedBytes, List.append_assoc, List.append_assoc] at h
  obtain ⟨hivs, hrest⟩ := List.append_inj h hiv
  have htag := (hs.tag e.1 e.2.text).trans (hs.tag e'.1 e'.2.text).symm
  obtain ⟨htags, hciphertexts⟩ := List.append_inj hrest htag
  have hencrypt : rt.encrypt e.1 e.2.text = rt.encrypt e'.1 e'.2.text :=
    Prod.ext htags hciphertexts
  have hencrypt' : rt.encrypt e.1 e'.2.text = rt.encrypt e'.1 e'.2.text := by rw [hivs]
  have hdecrypt := (hs.decrypt e.1 _ _ e.2.text).mpr ⟨hencrypt, e, he, rfl, rfl⟩
  have hdecrypt' := (hs.decrypt e.1 _ _ e'.2.text).mpr ⟨hencrypt', e', he', hivs.symm, rfl⟩
  exact ⟨hivs, Option.some.inj (hdecrypt.symm.trans hdecrypt')⟩

/-- What decodes to sealed bytes is opened. -/
theorem openSealed_of_bytes (hs : Secure rt history) {e : Buffer × Payload} (he : e ∈ history)
    (h : fromBase64url sealed = sealedBytes rt e.1 e.2) :
    openSealed rt sealed = some e.2.json := by
  have hiv := hs.iv e he
  have htag := hs.tag e.1 e.2.text
  have hciphertext := List.length_pos_iff.mpr (hs.ciphertext e.1 e.2.text (text_ne_nil e.2))
  have hlength : ¬ (sealedBytes rt e.1 e.2).length < ivLength + tagLength + 1 := by
    rw [sealedBytes, List.length_append, List.length_append, hiv, htag]
    omega
  -- the three parts are cut where they were put together
  have hcutIv : (sealedBytes rt e.1 e.2).take ivLength = e.1 := by
    rw [sealedBytes, List.append_assoc, ← hiv, List.take_left]
  have hcutTag : ((sealedBytes rt e.1 e.2).drop ivLength).take tagLength =
      (rt.encrypt e.1 e.2.text).1 := by
    rw [sealedBytes, List.append_assoc, ← hiv, List.drop_left, ← htag, List.take_left]
  have hcutCiphertext : (sealedBytes rt e.1 e.2).drop (ivLength + tagLength) =
      (rt.encrypt e.1 e.2.text).2 := by
    rw [sealedBytes, ← hiv, ← htag, ← List.length_append, List.drop_left]
  have hdecrypt := (hs.decrypt e.1 _ _ e.2.text).mpr ⟨rfl, e, he, rfl, rfl⟩
  simp only [openSealed, h, if_neg hlength, hcutIv, hcutTag, hcutCiphertext, hdecrypt,
    Option.bind_some]
  exact hs.parse e he

/-- **What is opened was sealed**: the bytes are those of something in the history. -/
theorem bytes_of_openSealed (hs : Secure rt history) {j : Json ℤ}
    (h : openSealed rt sealed = some j) :
    ∃ e ∈ history, fromBase64url sealed = sealedBytes rt e.1 e.2 ∧ j = e.2.json := by
  simp only [openSealed] at h
  split at h
  · cases h
  · obtain ⟨text, hdecrypt, hparse⟩ := Option.bind_eq_some_iff.mp h
    obtain ⟨hencrypt, e, he, hiv, rfl⟩ := (hs.decrypt _ _ _ _).mp hdecrypt
    refine ⟨e, he, ?_, Option.some.inj (hparse.symm.trans (hs.parse e he))⟩
    rw [sealedBytes, hiv, hencrypt, List.append_assoc, ← List.drop_drop, List.take_append_drop,
      List.take_append_drop]

theorem fromBase64url_sealPayload (iv : Buffer) (payload : Payload) :
    fromBase64url (sealPayload rt iv payload) = sealedBytes rt iv payload :=
  fromBase64url_toBase64url _

/-! ## What the schemas make of it -/

theorem literalOne_one : literalOne (some (.num 1)) = some () := rfl

theorem string_str {format : JsString → Bool} {s : JsString} (h : format s = true) :
    string format (some (.str s)) = some s := by
  rw [string, if_pos h]

theorem integer_num {int : ℤ → Bool} {n : ℤ} (h : int n = true) :
    integer int (some (.num n)) = some n := by
  rw [integer, if_pos h]

theorem nonempty_of_ne_nil {s : JsString} (h : s ≠ []) : nonempty s = true := by
  cases s with
  | nil => exact absurd rfl h
  | cons => rfl

theorem provider_name (p : Provider) : provider p.name = some p := by
  cases p <;> decide

/-- A session is read as itself. -/
theorem sessionSchema_session {p : SessionPayload} (h : (Payload.session p).Valid rt) :
    sessionSchema rt p.json = some p := by
  obtain ⟨huserId, htenantId, hiat, hexp⟩ := h
  obtain ⟨userId, tenantId, iat, exp⟩ := p
  have hv : property "v" (SessionPayload.json ⟨userId, tenantId, iat, exp⟩) = some (.num 1) := rfl
  have hu : property "userId" (SessionPayload.json ⟨userId, tenantId, iat, exp⟩) =
    some (.str userId) := by rfl
  have ht : property "tenantId" (SessionPayload.json ⟨userId, tenantId, iat, exp⟩) =
    tenantId.map .str := by cases tenantId <;> rfl
  have hi : property "iat" (SessionPayload.json ⟨userId, tenantId, iat, exp⟩) =
    some (.num iat) := by cases tenantId <;> rfl
  have he : property "exp" (SessionPayload.json ⟨userId, tenantId, iat, exp⟩) =
    some (.num exp) := by cases tenantId <;> rfl
  have htenant : optionalString rt.uuid (tenantId.map .str) = some tenantId := by
    cases tenantId with
    | none => rfl
    | some tenantId => exact congrArg (Option.map some) (string_str (htenantId _ rfl))
  rw [sessionSchema, hv, hu, ht, hi, he, htenant, literalOne_one, string_str huserId,
    integer_num hiat, integer_num hexp]
  rfl

/-- A login flow is read as itself. -/
theorem authFlowSchema_authFlow {p : AuthFlowPayload} (h : (Payload.authFlow p).Valid rt) :
    authFlowSchema rt p.json = some p := by
  obtain ⟨hstate, hnonce, hverifier, hiat, hexp⟩ := h
  have hv : property "v" p.json = some (.num 1) := rfl
  have hk : property "kind" p.json = some (.str (js "authflow")) := rfl
  have hs : property "state" p.json = some (.str p.state) := rfl
  have hn : property "nonce" p.json = some (.str p.nonce) := rfl
  have hc : property "verifier" p.json = some (.str p.verifier) := rfl
  have hr : property "redirectTo" p.json = some (.str p.redirectTo) := rfl
  have hi : property "iat" p.json = some (.num p.iat) := rfl
  have he : property "exp" p.json = some (.num p.exp) := rfl
  rw [authFlowSchema, hv, hk, hs, hn, hc, hr, hi, he, literalOne_one, string_str (by decide),
    string_str (nonempty_of_ne_nil hstate), string_str (nonempty_of_ne_nil hnonce),
    string_str (nonempty_of_ne_nil hverifier), string_str rfl, integer_num hiat, integer_num hexp]
  rfl

/-- A connector flow is read as itself. -/
theorem connectorFlowSchema_connectorFlow {p : ConnectorFlowPayload}
    (h : (Payload.connectorFlow p).Valid rt) : connectorFlowSchema rt p.json = some p := by
  obtain ⟨hconnectorId, htenantId, huserId, hiat, hexp⟩ := h
  have hv : property "v" p.json = some (.num 1) := rfl
  have hk : property "kind" p.json = some (.str (js "connectorflow")) := rfl
  have hc : property "connectorId" p.json = some (.str p.connectorId) := rfl
  have ht : property "tenantId" p.json = some (.str p.tenantId) := rfl
  have hu : property "userId" p.json = some (.str p.userId) := rfl
  have hp : property "provider" p.json = some (.str p.provider.name) := rfl
  have hr : property "verifier" p.json = some (.str p.verifier) := rfl
  have hi : property "iat" p.json = some (.num p.iat) := rfl
  have he : property "exp" p.json = some (.num p.exp) := rfl
  rw [connectorFlowSchema, hv, hk, hc, ht, hu, hp, hr, hi, he, literalOne_one,
    string_str (by decide), string_str hconnectorId, string_str htenantId, string_str huserId,
    string_str rfl, integer_num hiat, integer_num hexp, Option.bind_some, provider_name]
  rfl

/-- **A connector flow is read as a session too**: no property is missing, and `kind` is not looked
at. -/
theorem sessionSchema_connectorFlow {p : ConnectorFlowPayload}
    (h : (Payload.connectorFlow p).Valid rt) :
    sessionSchema rt p.json = some ⟨p.userId, some p.tenantId, p.iat, p.exp⟩ := by
  obtain ⟨-, htenantId, huserId, hiat, hexp⟩ := h
  have hv : property "v" p.json = some (.num 1) := rfl
  have hu : property "userId" p.json = some (.str p.userId) := rfl
  have ht : property "tenantId" p.json = some (.str p.tenantId) := rfl
  have hi : property "iat" p.json = some (.num p.iat) := rfl
  have he : property "exp" p.json = some (.num p.exp) := rfl
  have htenant : optionalString rt.uuid (some (.str p.tenantId)) = some (some p.tenantId) :=
    congrArg (Option.map some) (string_str htenantId)
  rw [sessionSchema, hv, hu, ht, hi, he, htenant, literalOne_one, string_str huserId,
    integer_num hiat, integer_num hexp]
  rfl

/-- A login flow has no user. -/
theorem sessionSchema_authFlow (p : AuthFlowPayload) : sessionSchema rt p.json = none := rfl

/-- A session has no kind. -/
theorem authFlowSchema_session (p : SessionPayload) : authFlowSchema rt p.json = none := by
  obtain ⟨userId, tenantId, iat, exp⟩ := p
  cases tenantId <;> rfl

theorem connectorFlowSchema_session (p : SessionPayload) :
    connectorFlowSchema rt p.json = none := by
  obtain ⟨userId, tenantId, iat, exp⟩ := p
  cases tenantId <;> rfl

/-- The two flows differ in their kind. -/
theorem authFlowSchema_connectorFlow (p : ConnectorFlowPayload) :
    authFlowSchema rt p.json = none := rfl

theorem connectorFlowSchema_authFlow (p : AuthFlowPayload) :
    connectorFlowSchema rt p.json = none := rfl

/-! ## Each kind for itself -/

/-- What is opened, in terms of what was sealed. -/
theorem openWith_eq_some {α : Type} {schema : Json ℤ → Option α} {exp : α → ℤ}
    (hs : Secure rt history) {p : α} :
    openWith rt schema exp sealed nowMs = some p ↔
      (∃ e ∈ history, fromBase64url sealed = sealedBytes rt e.1 e.2 ∧
        schema e.2.json = some p) ∧ nowMs < exp p * 1000 := by
  rw [openWith, Option.bind_eq_some_iff]
  refine ⟨?_, ?_⟩
  · rintro ⟨q, hq, h⟩
    obtain ⟨j, hj, hschema⟩ := Option.bind_eq_some_iff.mp hq
    obtain ⟨e, he, hbytes, rfl⟩ := bytes_of_openSealed hs hj
    split at h
    · cases h
    · rename_i hexpired
      obtain rfl := Option.some.inj h
      exact ⟨⟨e, he, hbytes, hschema⟩, not_le.mp hexpired⟩
  · rintro ⟨⟨e, he, hbytes, hschema⟩, hexp⟩
    refine ⟨p, ?_, if_neg (not_le.mpr hexp)⟩
    rw [openSealed_of_bytes hs he hbytes]
    exact hschema

/-- Of what is in the history, a schema reads its own kind as it is, and otherwise at most
connector flows. -/
structure Reads {α : Type} (rt : Runtime) (history : History) (schema : Json ℤ → Option α)
    (exp : α → ℤ) (kind : α → Payload) : Prop where
  exp_kind : ∀ p, (kind p).exp = exp p
  self : ∀ p, (kind p).Valid rt → schema (kind p).json = some p
  of_reads : ∀ e ∈ history, ∀ p, schema e.2.json = some p →
    e.2 = kind p ∨ ∃ q, e.2 = .connectorFlow q ∧ q.exp = exp p

/-- Such a schema opens its own kind, of strings that are unmistakable. -/
theorem openWith_iff {α : Type} {schema : Json ℤ → Option α} {exp : α → ℤ} {kind : α → Payload}
    (hs : Secure rt history) (hr : Reads rt history schema exp kind)
    (hu : Unmistakable rt history sealed nowMs) (p : α) :
    openWith rt schema exp sealed nowMs = some p ↔ SealedAs rt history sealed nowMs (kind p) := by
  rw [openWith_eq_some hs]
  refine ⟨?_, ?_⟩
  · rintro ⟨⟨e, he, hbytes, hschema⟩, hunexpired⟩
    rcases hr.of_reads e he p hschema with hkind | ⟨q, hq, hexp⟩
    · have hunexpired' : nowMs < e.2.exp * 1000 := by rwa [hkind, hr.exp_kind]
      obtain ⟨hsealed, -⟩ := hu e he hbytes hunexpired'
      rw [hkind] at hsealed hunexpired'
      refine ⟨⟨e.1, ?_, hsealed⟩, hunexpired'⟩
      rw [← hkind]
      exact he
    · have hunexpired' : nowMs < e.2.exp * 1000 := by
        rw [hq, Payload.exp, hexp]
        exact hunexpired
      exact absurd hq ((hu e he hbytes hunexpired').2 q)
  · rintro ⟨⟨iv, hmem, rfl⟩, hunexpired⟩
    refine ⟨⟨_, hmem, fromBase64url_sealPayload iv _, hr.self p (hs.valid _ hmem)⟩, ?_⟩
    rwa [← hr.exp_kind]

theorem reads_session (hs : Secure rt history) :
    Reads rt history (sessionSchema rt) SessionPayload.exp .session := by
  refine ⟨fun _ => rfl, fun _ => sessionSchema_session, ?_⟩
  rintro ⟨iv, payload⟩ he p h
  have hvalid := hs.valid _ he
  cases payload with
  | session q =>
    obtain rfl := Option.some.inj ((sessionSchema_session hvalid).symm.trans h)
    exact .inl rfl
  | authFlow q => cases (@sessionSchema_authFlow rt q).symm.trans h
  | connectorFlow q =>
    obtain rfl := Option.some.inj ((sessionSchema_connectorFlow hvalid).symm.trans h)
    exact .inr ⟨q, rfl, rfl⟩

theorem reads_authFlow (hs : Secure rt history) :
    Reads rt history (authFlowSchema rt) AuthFlowPayload.exp .authFlow := by
  refine ⟨fun _ => rfl, fun _ => authFlowSchema_authFlow, ?_⟩
  rintro ⟨iv, payload⟩ he p h
  have hvalid := hs.valid _ he
  cases payload with
  | session q => cases (@authFlowSchema_session rt q).symm.trans h
  | authFlow q =>
    obtain rfl := Option.some.inj ((authFlowSchema_authFlow hvalid).symm.trans h)
    exact .inl rfl
  | connectorFlow q => cases (@authFlowSchema_connectorFlow rt q).symm.trans h

theorem reads_connectorFlow (hs : Secure rt history) :
    Reads rt history (connectorFlowSchema rt) ConnectorFlowPayload.exp .connectorFlow := by
  refine ⟨fun _ => rfl, fun _ => connectorFlowSchema_connectorFlow, ?_⟩
  rintro ⟨iv, payload⟩ he p h
  have hvalid := hs.valid _ he
  cases payload with
  | session q => cases (@connectorFlowSchema_session rt q).symm.trans h
  | authFlow q => cases (@connectorFlowSchema_authFlow rt q).symm.trans h
  | connectorFlow q =>
    obtain rfl := Option.some.inj ((connectorFlowSchema_connectorFlow hvalid).symm.trans h)
    exact .inl rfl

/-- What was sealed as one payload was not sealed as another text. -/
theorem json_eq_of_sealedAs (hs : Secure rt history) {payload : Payload} {e : Buffer × Payload}
    (he : e ∈ history) (hbytes : fromBase64url sealed = sealedBytes rt e.1 e.2)
    (h : SealedAs rt history sealed nowMs payload) :
    sealed = sealPayload rt e.1 payload ∧ payload.json = e.2.json := by
  obtain ⟨⟨iv, hmem, rfl⟩, -⟩ := h
  rw [fromBase64url_sealPayload] at hbytes
  obtain ⟨hiv, htext⟩ := sealedBytes_inj hs hmem he hbytes
  simp only at hiv htext
  exact ⟨by rw [hiv], json_of_text htext⟩

theorem json_session_ne_authFlow (p : SessionPayload) (q : AuthFlowPayload) :
    p.json ≠ q.json := by
  obtain ⟨userId, tenantId, iat, exp⟩ := p
  intro h
  cases tenantId <;> cases (congrArg (property "kind") h)

theorem json_session_ne_connectorFlow (p : SessionPayload) (q : ConnectorFlowPayload) :
    p.json ≠ q.json := by
  obtain ⟨userId, tenantId, iat, exp⟩ := p
  intro h
  cases tenantId <;> cases (congrArg (property "kind") h)

/-- **Each kind opens what was sealed as that kind, and nothing else, if and only if** the string is
unmistakable: a string whose bytes were sealed, and have not expired, is the string that was handed
out, and no connector flow. -/
theorem separate_iff (hs : Secure rt history) :
    Separate rt history sealed nowMs ↔ Unmistakable rt history sealed nowMs := by
  refine ⟨?_, ?_⟩
  · rintro h ⟨iv, payload⟩ he hbytes hunexpired
    have hvalid := hs.valid _ he
    cases payload with
    | session p =>
      have hopen : openSession rt sealed nowMs = some p :=
        (openWith_eq_some hs).mpr ⟨⟨_, he, hbytes, sessionSchema_session hvalid⟩, hunexpired⟩
      refine ⟨(json_eq_of_sealedAs hs he hbytes ((h.session p).mp hopen)).1, ?_⟩
      rintro q ⟨⟩
    | authFlow p =>
      have hopen : openAuthFlow rt sealed nowMs = some p :=
        (openWith_eq_some hs).mpr ⟨⟨_, he, hbytes, authFlowSchema_authFlow hvalid⟩, hunexpired⟩
      refine ⟨(json_eq_of_sealedAs hs he hbytes ((h.authFlow p).mp hopen)).1, ?_⟩
      rintro q ⟨⟩
    | connectorFlow p =>
      -- it is opened as a session, and no session was sealed with these bytes
      have hopen : openSession rt sealed nowMs =
          some ⟨p.userId, some p.tenantId, p.iat, p.exp⟩ :=
        (openWith_eq_some hs).mpr
          ⟨⟨_, he, hbytes, sessionSchema_connectorFlow hvalid⟩, hunexpired⟩
      have hjson := (json_eq_of_sealedAs hs he hbytes ((h.session _).mp hopen)).2
      exact absurd hjson (json_session_ne_connectorFlow _ p)
  · intro hu
    refine ⟨openWith_iff hs (reads_session hs) hu, openWith_iff hs (reads_authFlow hs) hu,
      openWith_iff hs (reads_connectorFlow hs) hu, ?_⟩
    rintro e he rfl hother
    cases hopen : openSession rt (sealPayload rt e.1 e.2) nowMs with
    | none => rfl
    | some p =>
      have hsealed := (openWith_iff hs (reads_session hs) hu p).mp hopen
      have hjson := (json_eq_of_sealedAs hs he (fromBase64url_sealPayload e.1 e.2) hsealed).2
      obtain ⟨iv, payload⟩ := e
      cases payload with
      | session q => exact absurd rfl (hother q)
      | authFlow q => exact absurd hjson (json_session_ne_authFlow p q)
      | connectorFlow q => exact absurd hjson (json_session_ne_connectorFlow p q)

end Found

/-! ## A flow that is opened as a session -/

/-- The bytes of a text, two a unit. -/
def textBytes : JsString → Buffer
  | [] => []
  | c :: text => Base64.byte (c.val / 0x100) :: Base64.byte c.val :: textBytes text

theorem textBytes_injective : Function.Injective textBytes := by
  intro s
  induction s with
  | nil =>
    intro t h
    cases t with
    | nil => rfl
    | cons d t => cases h
  | cons c s ih =>
    intro t h
    cases t with
    | nil => cases h
    | cons d t =>
      obtain ⟨hhigh, hlow, hrest⟩ : _ ∧ _ ∧ _ := by
        simpa only [textBytes, List.cons.injEq, Base64.byte, Fin.mk.injEq] using h
      have hcd : c = d := by
        have hc := c.isLt
        have hd := d.isLt
        apply Fin.ext
        omega
      rw [hcd, ih hrest]

/-- Something is found where there is something to find. -/
theorem exists_find? {α : Type} {p : α → Prop} [DecidablePred p] {l : List α} {a : α}
    (ha : a ∈ l) (hp : p a) : ∃ b, l.find? (fun a => p a) = some b ∧ p b := by
  have hfound : (l.find? fun a => p a).isSome :=
    List.find?_isSome.mpr ⟨a, ha, decide_eq_true hp⟩
  obtain ⟨b, hb⟩ := Option.isSome_iff_exists.mp hfound
  exact ⟨b, hb, by simpa using List.find?_some hb⟩

/-- A cipher that looks up what was sealed, for identifiers of some length. -/
def lookingUp (history : History) : Runtime where
  encrypt _ text := (List.replicate tagLength 0, textBytes text)
  decrypt iv tag ciphertext :=
    (history.find? fun e => e.1 = iv ∧ List.replicate tagLength 0 = tag ∧
      textBytes e.2.text = ciphertext).map fun e => e.2.text
  parse text := (history.find? fun e => e.2.text = text).map fun e => e.2.json
  uuid s := s.length = 36
  int n := n.natAbs ≤ 9007199254740991

theorem secure_lookingUp {history : History} (hiv : ∀ e ∈ history, e.1.length = ivLength)
    (hvalid : ∀ e ∈ history, e.2.Valid (lookingUp history)) :
    Secure (lookingUp history) history where
  iv := hiv
  valid := hvalid
  tag _ _ := List.length_replicate
  ciphertext _ text h := by
    cases text with
    | nil => exact absurd rfl h
    | cons => rintro ⟨⟩
  decrypt iv tag ciphertext text := by
    refine ⟨?_, ?_⟩
    · intro h
      obtain ⟨e, he, rfl⟩ := Option.map_eq_some_iff.mp h
      obtain ⟨rfl, rfl, rfl⟩ : e.1 = iv ∧ List.replicate tagLength 0 = tag ∧
          textBytes e.2.text = ciphertext := by simpa using List.find?_some he
      exact ⟨rfl, e, List.mem_of_find?_eq_some he, rfl, rfl⟩
    · rintro ⟨hencrypt, e, he, rfl, rfl⟩
      obtain ⟨rfl, rfl⟩ := Prod.mk.inj hencrypt
      obtain ⟨e', he', -, -, htext⟩ := exists_find? (p := fun e' => e'.1 = e.1 ∧
        List.replicate tagLength (0 : Fin 0x100) = List.replicate tagLength 0 ∧
        textBytes e'.2.text = textBytes e.2.text) he ⟨rfl, rfl, rfl⟩
      exact Option.map_eq_some_iff.mpr ⟨e', he', textBytes_injective htext⟩
  parse e he := by
    obtain ⟨e', he', htext⟩ := exists_find? (p := fun e' => e'.2.text = e.2.text) he rfl
    exact Option.map_eq_some_iff.mpr ⟨e', he', json_of_text htext⟩

/-- The user, the tenant and the connector of the examples. -/
def uuidA : JsString := js "11111111-1111-4111-8111-111111111111"

/-- A connection that was started at the time `1000`. -/
def startedFlow : ConnectorFlowPayload :=
  ⟨uuidA, uuidA, uuidA, .google, [], 1000, 1600⟩

/-- The flow is all that was sealed. -/
def startedHistory : History := [(List.replicate ivLength 0, .connectorFlow startedFlow)]

theorem secure_started : Secure (lookingUp startedHistory) startedHistory := by
  apply secure_lookingUp
  · rintro e he
    obtain rfl := List.mem_singleton.mp he
    rfl
  · rintro e he
    obtain rfl := List.mem_singleton.mp he
    exact ⟨rfl, rfl, rfl, rfl, rfl⟩

/-- **The state of a connection that was started is a session of its user.** -/
theorem started_opens_session :
    Secure (lookingUp startedHistory) startedHistory ∧
    openSession (lookingUp startedHistory)
      (sealPayload (lookingUp startedHistory) (List.replicate ivLength 0)
        (.connectorFlow startedFlow)) 1000000 = some ⟨uuidA, some uuidA, 1000, 1600⟩ ∧
    ¬ Separate (lookingUp startedHistory) startedHistory
      (sealPayload (lookingUp startedHistory) (List.replicate ivLength 0)
        (.connectorFlow startedFlow)) 1000000 := by
  have hmem := List.mem_singleton_self (List.replicate ivLength (0 : Fin 0x100),
    Payload.connectorFlow startedFlow)
  have hopen : openSession (lookingUp startedHistory)
      (sealPayload (lookingUp startedHistory) (List.replicate ivLength 0)
        (.connectorFlow startedFlow)) 1000000 = some ⟨uuidA, some uuidA, 1000, 1600⟩ :=
    (openWith_eq_some secure_started).mpr ⟨⟨_, hmem, fromBase64url_sealPayload _ _,
      sessionSchema_connectorFlow (secure_started.valid _ hmem)⟩, by decide⟩
  refine ⟨secure_started, hopen, ?_⟩
  intro h
  obtain ⟨⟨iv, hsession, -⟩, -⟩ := (h.session _).mp hopen
  cases List.mem_singleton.mp hsession

/-- A session of the same user. -/
def sessionHistory : History :=
  [(List.replicate ivLength 0, .session ⟨uuidA, some uuidA, 1000, 1600⟩)]

theorem secure_session : Secure (lookingUp sessionHistory) sessionHistory := by
  apply secure_lookingUp
  · rintro e he
    obtain rfl := List.mem_singleton.mp he
    rfl
  · rintro e he
    obtain rfl := List.mem_singleton.mp he
    refine ⟨rfl, ?_, rfl, rfl⟩
    rintro tenantId ⟨⟩
    rfl

/-- The string that was handed out for a session is unmistakable. -/
theorem separate_session :
    Separate (lookingUp sessionHistory) sessionHistory
      (sealPayload (lookingUp sessionHistory) (List.replicate ivLength 0)
        (.session ⟨uuidA, some uuidA, 1000, 1600⟩)) 1000000 := by
  refine (separate_iff secure_session).mpr ?_
  rintro e he - -
  obtain rfl := List.mem_singleton.mp he
  refine ⟨rfl, ?_⟩
  rintro q ⟨⟩

end AegCloudDfir.Auth
