import AegCloudDfir.Auth.Session
import AegCloudDfir.Lib.RowLocks
import AegCloudDfir.Lib.Transition

/-!
# Connectors that were revoked

`ConnectorsService` (`apps/api/src/connectors/connectors.service.ts`) revokes a connector by
deleting its secrets and setting its status. Most other operations ask a provider something first,
and write the status afterwards, whatever it is by then.

Of a tenant stand here the connectors and their secrets, and the flows that were handed out; of a
provider, what it answers. A transaction reads at its statements, and what it writes is there at its
commit.

* `step` — the operations, statement by statement, in any order.
* `Final` — who was revoked is revoked, and has no secret.
* `throughout_final_iff` — which runs keep it, exactly.
-/

namespace AegCloudDfir.Connectors.Revocation

open Transition
open AegCloudDfir.Auth (ConnectorFlowPayload Provider)

/-! ## Rows -/

/-- `ConnectorStatus` -/
inductive ConnectorStatus : Type where
  | pendingAuth
  | connected
  | error
  | revoked
  deriving DecidableEq

/-- `SecretKind`, of what is stored here -/
inductive SecretKind : Type where
  | oauthRefreshToken
  | oauthAccessToken
  | serviceAccountKey
  deriving DecidableEq

/-- A row of `connector_accounts` -/
structure ConnectorAccount where
  id : JsString
  provider : Provider
  /-- `mode`: `organization`, or else `delegated` -/
  organization : Bool
  externalIdentity : JsString
  status : ConnectorStatus
  createdAt : ℤ
  deriving DecidableEq

/-- A row of `connector_secrets` -/
structure ConnectorSecret where
  id : JsString
  connectorAccountId : JsString
  kind : SecretKind
  value : JsString
  deriving DecidableEq

/-! ## Operations under way -/

/-- A credential to be stored, and the identity it is for. -/
structure Credential where
  connectorId : JsString
  kind : SecretKind
  value : JsString
  externalIdentity : JsString
  deriving DecidableEq

/-- What a provider makes of an authorization code. -/
structure Exchanged where
  accessToken : JsString
  refreshToken : Option JsString
  /-- `profile.email`, unless the profile could not be read -/
  email : Option JsString
  /-- `userId` and `teamName`, of Slack -/
  userId : JsString
  teamName : JsString

/-- An operation with what it has read so far. -/
inductive Execution : Type where
  /-- the callback is that of a flow, and has a code -/
  | exchanging (flow : ConnectorFlowPayload)
  /-- `markError` is next -/
  | failing (connectorId : JsString)
  /-- the transaction with the credential is next -/
  | storing (credential : Credential)
  /-- its `deleteMany` has found these secrets -/
  | granting (credential : Credential) (stale : List JsString)
  /-- `test` asks the provider -/
  | testing (connectorId : JsString)
  /-- the `deleteMany` of `revoke` has found these secrets -/
  | revoking (connectorId : JsString) (stale : List JsString)
  deriving DecidableEq

/-- The rows, the flows that were handed out, the operations under way, and the connectors that were
set to `revoked`. -/
structure State where
  accounts : List ConnectorAccount
  secrets : List ConnectorSecret
  flows : List ConnectorFlowPayload
  executions : List Execution
  revoked : List JsString

/-- Nothing is there. -/
def State.initial : State := ⟨[], [], [], [], []⟩

/-- What can happen next. -/
inductive Event : Type where
  /-- `create`, with the row's identifier, the verifier, and the limit of the tenant -/
  | create (id tenantId userId : JsString) (provider : Provider) (organization : Bool)
    (verifier : JsString) (limit : ℕ) (now : ℤ)
  | retireAbandonedFlows (now : ℤ)
  | completeCallback (flow : ConnectorFlowPayload) (code : JsString) (now : ℤ)
  /-- the provider answers a callback -/
  | exchanged (i : ℕ) (answer : Option Exchanged)
  | test (connectorId : JsString)
  /-- the provider answers a test -/
  | tested (i : ℕ) (ok : Bool)
  | configureOrg (connectorId serviceAccountJson adminEmail : JsString)
  | revoke (connectorId : JsString)
  /-- the next statement of an operation, with the identifier for a row -/
  | proceed (i : ℕ) (id : JsString)
  | persistRotatedSecret (secretId value : JsString)
  | crash (i : ℕ)

/-! ## Statements -/

/-- `CONNECT_FLOW_TTL_SECONDS` -/
def connectFlowTtlSeconds : ℤ := 600

/-- The `where` of `retireAbandonedFlows` -/
def abandoned (now : ℤ) (account : ConnectorAccount) : Bool :=
  (account.provider = .microsoft ∨ account.provider = .google) ∧ account.organization = false ∧
    (account.status = .pendingAuth ∨ account.status = .error) ∧ account.externalIdentity = [] ∧
    account.createdAt < now - connectFlowTtlSeconds * 2 * 1000

/-- What a callback does with the answer of the provider. -/
def afterExchange (flow : ConnectorFlowPayload) : Option Exchanged → Execution
  | none => .failing flow.connectorId
  | some granted =>
    if flow.provider = .slack then
      .storing ⟨flow.connectorId, .oauthAccessToken, granted.accessToken,
        if granted.teamName = [] then granted.userId
        else granted.userId ++ js "@" ++ granted.teamName⟩
    else match granted.refreshToken with
      | none => .failing flow.connectorId
      | some refreshToken =>
        if refreshToken = [] then .failing flow.connectorId
        else
          let email := granted.email.getD []
          .storing ⟨flow.connectorId, .oauthRefreshToken, refreshToken,
            if email = [] then js "connected account" else email⟩

namespace State

variable (s : State)

/-- The secrets of a connector, of some kinds. -/
def secretIds (connectorId : JsString) (kinds : SecretKind → Bool) : List JsString :=
  (s.secrets.filter fun secret =>
    secret.connectorAccountId = connectorId ∧ kinds secret.kind).map ConnectorSecret.id

/-- The rows with another status for a connector. -/
def setStatus (connectorId : JsString) (status : ConnectorStatus) : State :=
  { s with accounts := s.accounts.map fun account =>
      if account.id = connectorId then { account with status } else account }

/-- The commit of a credential: of a callback, or of `configureOrg`. -/
def store (credential : Credential) (stale : List JsString) (id : JsString) : Option State :=
  if s.secrets.any fun secret => secret.id = id then none
  else some { s with
    secrets := (s.secrets.filter fun secret => secret.id ∉ stale) ++
      [⟨id, credential.connectorId, credential.kind, credential.value⟩]
    accounts := s.accounts.map fun account =>
      if account.id = credential.connectorId then
        { account with
          status := .connected
          externalIdentity := credential.externalIdentity }
      else account }

/-- The commit of `revoke` -/
def finishRevoke (connectorId : JsString) (stale : List JsString) : State :=
  { s.setStatus connectorId .revoked with
    secrets := s.secrets.filter fun secret => secret.id ∉ stale
    revoked := s.revoked ++ [connectorId] }

/-- One more operation is under way. -/
def start (x : Execution) : State := { s with executions := s.executions ++ [x] }

/-- An operation has come further. -/
def resume (i : ℕ) (x : Execution) : State := { s with executions := s.executions.set i x }

/-- An operation has ended. -/
def finish (i : ℕ) : State := { s with executions := s.executions.eraseIdx i }

end State

/-- The next statement of an operation that does not wait for a provider. -/
def proceed (s : State) (i : ℕ) (id : JsString) : Execution → Option State
  | .failing connectorId => some ((s.setStatus connectorId .error).finish i)
  | .storing credential =>
    if s.accounts.any fun account => account.id = credential.connectorId then
      some (s.resume i (.granting credential
        (s.secretIds credential.connectorId fun kind => kind = credential.kind)))
    else some (s.finish i)
  | .granting credential stale => some (((s.store credential stale id).getD s).finish i)
  | .revoking connectorId stale => some ((s.finishRevoke connectorId stale).finish i)
  | .exchanging _ | .testing _ => none

/-- The state after an event; a request that is refused changes nothing. -/
def step (s : State) : Event → Option State
  | .create id tenantId userId provider organization verifier limit now =>
    if (s.accounts.countP fun account => account.status ≠ .revoked) ≥ limit ∨
        s.accounts.any (fun account => account.id = id) then some s
    else
      let iat := now / 1000
      some { s with
        accounts := s.accounts ++ [⟨id, provider, organization, [], .pendingAuth, now⟩]
        flows := s.flows ++ (if organization then []
          else [⟨id, tenantId, userId, provider, verifier, iat, iat + connectFlowTtlSeconds⟩]) }
  | .retireAbandonedFlows now =>
    some { s with
      accounts := s.accounts.map fun account =>
        if abandoned now account then { account with status := .revoked } else account
      revoked := s.revoked ++ (s.accounts.filter (abandoned now)).map ConnectorAccount.id }
  | .completeCallback flow code now =>
    if flow ∈ s.flows ∧ now < flow.exp * 1000 then
      some (s.start (if code = [] then .failing flow.connectorId else .exchanging flow))
    else some s
  | .exchanged i answer =>
    match s.executions[i]? with
    | some (.exchanging flow) => some (s.resume i (afterExchange flow answer))
    | _ => none
  | .test connectorId =>
    match s.accounts.find? fun account => account.id = connectorId with
    | none => some s
    | some account => some (if account.status = .revoked then s else s.start (.testing connectorId))
  | .tested i ok =>
    match s.executions[i]? with
    | some (.testing connectorId) =>
      some ((s.setStatus connectorId (if ok then .connected else .error)).finish i)
    | _ => none
  | .configureOrg connectorId serviceAccountJson adminEmail =>
    match s.accounts.find? fun account => account.id = connectorId with
    | none => some s
    | some account =>
      -- of what is set up for Microsoft, nothing stands here
      if account.organization = false ∨ account.provider = .microsoft then some s
      else
        let credential : Credential :=
          ⟨connectorId, .serviceAccountKey, serviceAccountJson, adminEmail⟩
        some (s.start (.granting credential
          (s.secretIds connectorId fun kind => kind = .serviceAccountKey)))
  | .revoke connectorId =>
    if s.accounts.any fun account => account.id = connectorId then
      some (s.start (.revoking connectorId (s.secretIds connectorId fun _ => true)))
    else some s
  | .proceed i id => s.executions[i]?.bind (proceed s i id)
  | .persistRotatedSecret secretId value =>
    some { s with secrets := s.secrets.map fun secret =>
      if secret.id = secretId then { secret with value } else secret }
  | .crash i => some (s.finish i)

/-! ## What is asked for -/

/-- **Revocation is final**: who was revoked is revoked, and has no secret. -/
def Final (s : State) : Prop :=
  ∀ id ∈ s.revoked, (∀ account ∈ s.accounts, account.id = id → account.status = .revoked) ∧
    ∀ secret ∈ s.secrets, secret.connectorAccountId ≠ id

/-- The connector is not revoked. -/
def Alive (s : State) (connectorId : JsString) : Prop :=
  ∀ account ∈ s.accounts, account.id = connectorId → account.status ≠ .revoked

/-- **What it takes**: whatever writes another status finds the connector alive, and a revocation
finds no secret but those that it deletes. -/
def Careful (s : State) : Event → Prop
  | .tested i _ =>
    match s.executions[i]? with
    | some (.testing connectorId) => Alive s connectorId
    | _ => True
  | .proceed i id =>
    match s.executions[i]? with
    | some (.failing connectorId) => Alive s connectorId
    | some (.granting credential _) =>
      (∀ secret ∈ s.secrets, secret.id ≠ id) → Alive s credential.connectorId
    | some (.revoking connectorId stale) =>
      ∀ secret ∈ s.secrets, secret.connectorAccountId = connectorId → secret.id ∈ stale
    | _ => True
  | _ => True

instance (s : State) (connectorId : JsString) : Decidable (Alive s connectorId) := by
  unfold Alive
  infer_instance

instance (s : State) (e : Event) : Decidable (Careful s e) := by
  unfold Careful
  split
  · split <;> infer_instance
  · split <;> infer_instance
  · exact inferInstance

/-! ## What always holds -/

/-- There is such a connector. -/
def Known (s : State) (connectorId : JsString) : Prop :=
  ∃ account ∈ s.accounts, account.id = connectorId

/-- A connector that `retireAbandonedFlows` may take, if it has no identity. -/
def SignsIn (account : ConnectorAccount) : Prop :=
  (account.provider = .microsoft ∨ account.provider = .google) ∧ account.organization = false

/-- Where someone has to sign in, there is an identity. -/
def Identified (s : State) (credential : Credential) : Prop :=
  ∀ account ∈ s.accounts, account.id = credential.connectorId → SignsIn account →
    credential.externalIdentity ≠ []

/-- What an operation goes by. -/
def Execution.Sound (s : State) : Execution → Prop
  | .exchanging flow => Known s flow.connectorId ∧
    ∀ account ∈ s.accounts, account.id = flow.connectorId → account.provider = flow.provider
  | .failing connectorId | .testing connectorId | .revoking connectorId _ => Known s connectorId
  | .storing credential | .granting credential _ =>
    Known s credential.connectorId ∧ Identified s credential

/-- **What holds after every run.** -/
structure Inv (s : State) : Prop where
  ids : (s.accounts.map ConnectorAccount.id).Nodup
  held : ∀ secret ∈ s.secrets, Known s secret.connectorAccountId
  marked : ∀ id ∈ s.revoked, Known s id
  recorded : ∀ account ∈ s.accounts, account.status = .revoked → account.id ∈ s.revoked
  /-- who has not signed in has no secret -/
  idle : ∀ account ∈ s.accounts, SignsIn account → account.externalIdentity = [] →
    ∀ secret ∈ s.secrets, secret.connectorAccountId ≠ account.id
  flows : ∀ flow ∈ s.flows, (Execution.exchanging flow).Sound s
  executions : ∀ x ∈ s.executions, x.Sound s

/-- A connector keeps its identifier, its provider and its mode. -/
structure ConnectorAccount.Keeps (a a' : ConnectorAccount) : Prop where
  id : a'.id = a.id
  provider : a'.provider = a.provider
  organization : a'.organization = a.organization

/-- The connectors stay, and those that are new have new identifiers. -/
structure Extends (s s' : State) : Prop where
  forth : ∀ account ∈ s.accounts, ∃ account' ∈ s'.accounts, account.Keeps account'
  back : ∀ account' ∈ s'.accounts,
    (∃ account ∈ s.accounts, account.Keeps account') ∨ ¬ Known s account'.id

theorem ConnectorAccount.Keeps.refl (a : ConnectorAccount) : a.Keeps a := ⟨rfl, rfl, rfl⟩

theorem ConnectorAccount.Keeps.signsIn {a a' : ConnectorAccount} (h : a.Keeps a') :
    SignsIn a' ↔ SignsIn a := by
  rw [SignsIn, SignsIn, h.provider, h.organization]

section Kept

variable {s s' : State}

/-- The connectors are written one by one. -/
theorem Extends.of_map {f : ConnectorAccount → ConnectorAccount}
    (h : ∀ a : ConnectorAccount, a.Keeps (f a)) (haccounts : s'.accounts = s.accounts.map f) :
    Extends s s' := by
  refine ⟨fun a ha => ⟨f a, ?_, h a⟩, fun a' ha' => ?_⟩
  · rw [haccounts]
    exact List.mem_map_of_mem ha
  · rw [haccounts] at ha'
    obtain ⟨a, ha, rfl⟩ := List.mem_map.mp ha'
    exact .inl ⟨a, ha, h a⟩

theorem map_id_map {f : ConnectorAccount → ConnectorAccount}
    (h : ∀ a : ConnectorAccount, a.Keeps (f a)) (accounts : List ConnectorAccount) :
    (accounts.map f).map ConnectorAccount.id = accounts.map ConnectorAccount.id := by
  rw [List.map_map]
  exact List.map_congr_left fun a _ => (h a).id

theorem Extends.known (h : Extends s s') {id : JsString} (hid : Known s id) : Known s' id := by
  obtain ⟨a, ha, rfl⟩ := hid
  obtain ⟨a', ha', hkeeps⟩ := h.forth a ha
  exact ⟨a', ha', hkeeps.id⟩

/-- What holds of every connector with a known identifier holds later. -/
theorem Extends.forall_of_known (h : Extends s s') {P : ConnectorAccount → Prop}
    (hP : ∀ a a' : ConnectorAccount, a.Keeps a' → P a → P a') {id : JsString} (hid : Known s id)
    (hall : ∀ a ∈ s.accounts, a.id = id → P a) : ∀ a' ∈ s'.accounts, a'.id = id → P a' := by
  intro a' ha' hid'
  rcases h.back a' ha' with ⟨a, ha, hkeeps⟩ | hnew
  · exact hP a a' hkeeps (hall a ha (hkeeps.id.symm.trans hid'))
  · exact absurd (hid' ▸ hid) hnew

/-- What an operation goes by stays so. -/
theorem Execution.Sound.mono (h : Extends s s') {x : Execution} (hx : x.Sound s) :
    x.Sound s' := by
  cases x with
  | exchanging flow =>
    refine ⟨h.known hx.1, h.forall_of_known ?_ hx.1 hx.2⟩
    intro a a' hkeeps ha
    exact hkeeps.provider.trans ha
  | failing | testing | revoking => exact h.known hx
  | storing | granting =>
    refine ⟨h.known hx.1, h.forall_of_known ?_ hx.1 hx.2⟩
    intro a a' hkeeps ha hsigns
    exact ha (hkeeps.signsIn.mp hsigns)

end Kept

/-- Whether a connector is alive is whether it was revoked, while revocation is final. -/
theorem alive_iff {s : State} (hs : Inv s) (hfinal : Final s) {id : JsString} (hid : Known s id) :
    Alive s id ↔ id ∉ s.revoked := by
  refine ⟨fun halive hmem => ?_, fun hnot account haccount hsame hstatus => ?_⟩
  · obtain ⟨account, haccount, rfl⟩ := hid
    exact halive account haccount rfl ((hfinal _ hmem).1 account haccount rfl)
  · exact hnot (hsame ▸ hs.recorded account haccount hstatus)

/-! ## What is written -/

section Writes

variable {s : State}

/-- Another status of a connector. -/
def withStatus (connectorId : JsString) (status : ConnectorStatus) (account : ConnectorAccount) :
    ConnectorAccount :=
  if account.id = connectorId then { account with status } else account

theorem keeps_withStatus (connectorId : JsString) (status : ConnectorStatus)
    (a : ConnectorAccount) : a.Keeps (withStatus connectorId status a) := by
  rw [withStatus]
  split
  · exact ⟨rfl, rfl, rfl⟩
  · exact .refl a

theorem externalIdentity_withStatus (connectorId : JsString) (status : ConnectorStatus)
    (a : ConnectorAccount) : (withStatus connectorId status a).externalIdentity =
      a.externalIdentity := by
  rw [withStatus]
  split <;> rfl

/-- **A status other than `revoked`** is written of a connector. -/
theorem setStatus_spec (hs : Inv s) {connectorId : JsString} (hid : Known s connectorId)
    {status : ConnectorStatus} (hstatus : status ≠ .revoked) (i : ℕ) :
    Inv ((s.setStatus connectorId status).finish i) ∧
      (Final s → (Final ((s.setStatus connectorId status).finish i) ↔ Alive s connectorId)) := by
  have hextends : Extends s ((s.setStatus connectorId status).finish i) :=
    .of_map (keeps_withStatus connectorId status) rfl
  refine ⟨⟨?_, ?_, ?_, ?_, ?_, ?_, ?_⟩, fun hfinal => ?_⟩
  · exact (map_id_map (keeps_withStatus connectorId status) s.accounts).symm ▸ hs.ids
  · exact fun secret hsecret => hextends.known (hs.held secret hsecret)
  · exact fun id hmem => hextends.known (hs.marked id hmem)
  · intro a' ha' hrevoked
    obtain ⟨a, ha, rfl⟩ := List.mem_map.mp ha'
    split at hrevoked
    · exact absurd hrevoked hstatus
    · rename_i hother
      rw [if_neg hother]
      exact hs.recorded a ha hrevoked
  · intro a' ha' hsigns hnone secret hsecret
    obtain ⟨a, ha, rfl⟩ := List.mem_map.mp ha'
    have hkeeps := keeps_withStatus connectorId status a
    have hidentity := externalIdentity_withStatus connectorId status a
    have hold := hs.idle a ha (hkeeps.signsIn.mp hsigns) (hidentity.symm.trans hnone) secret hsecret
    exact fun hsame => hold (hsame.trans hkeeps.id)
  · exact fun flow hflow => (hs.flows flow hflow).mono hextends
  · exact fun x hx => (hs.executions x (List.mem_of_mem_eraseIdx hx)).mono hextends
  · rw [alive_iff hs hfinal hid]
    refine ⟨fun hfinal' hmem => ?_, fun hnot id hmem => ⟨?_, (hfinal id hmem).2⟩⟩
    · obtain ⟨a, ha, hsame⟩ := hid
      have hset := (hfinal' connectorId hmem).1 _ (List.mem_map_of_mem ha)
        ((keeps_withStatus connectorId status a).id.trans hsame)
      rw [if_pos hsame] at hset
      exact hstatus hset
    · intro a' ha' hsame
      obtain ⟨a, ha, rfl⟩ := List.mem_map.mp ha'
      have hother : a.id ≠ connectorId := by
        rintro rfl
        exact hnot ((keeps_withStatus a.id status a).id.symm.trans hsame ▸ hmem)
      rw [if_neg hother] at hsame ⊢
      exact (hfinal id hmem).1 a ha hsame

/-- What is written of a connector with a credential. -/
def withCredential (credential : Credential) (account : ConnectorAccount) : ConnectorAccount :=
  if account.id = credential.connectorId then
    { account with
      status := .connected
      externalIdentity := credential.externalIdentity }
  else account

theorem keeps_withCredential (credential : Credential) (a : ConnectorAccount) :
    a.Keeps (withCredential credential a) := by
  rw [withCredential]
  split
  · exact ⟨rfl, rfl, rfl⟩
  · exact .refl a

/-- **A credential is stored.** -/
theorem store_spec (hs : Inv s) {credential : Credential}
    (hid : Known s credential.connectorId) (hidentified : Identified s credential)
    {stale : List JsString} {id : JsString} (i : ℕ) :
    Inv (((s.store credential stale id).getD s).finish i) ∧
      (Final s → (Final (((s.store credential stale id).getD s).finish i) ↔
        ((∀ secret ∈ s.secrets, secret.id ≠ id) → Alive s credential.connectorId))) := by
  have hfree : (s.secrets.any fun secret => decide (secret.id = id)) = true ↔
      ¬ ∀ secret ∈ s.secrets, secret.id ≠ id := by
    simp only [List.any_eq_true, decide_eq_true_eq, ne_eq, not_forall, not_not, exists_prop]
  rw [State.store]
  split
  · rename_i htaken
    rw [Option.getD_none]
    refine ⟨⟨hs.ids, hs.held, hs.marked, hs.recorded, hs.idle, hs.flows,
      fun x hx => hs.executions x (List.mem_of_mem_eraseIdx hx)⟩, fun hfinal => ?_⟩
    exact iff_of_true hfinal fun hall => absurd hall (hfree.mp htaken)
  · rename_i hnew
    rw [Option.getD_some]
    have hall : ∀ secret ∈ s.secrets, secret.id ≠ id := by
      rw [hfree, not_not] at hnew
      exact hnew
    have hextends : Extends s (({ s with
        secrets := (s.secrets.filter fun secret => secret.id ∉ stale) ++
          [⟨id, credential.connectorId, credential.kind, credential.value⟩]
        accounts := s.accounts.map (withCredential credential) } : State).finish i) :=
      .of_map (keeps_withCredential credential) rfl
    have hsecrets : ∀ secret ∈ (s.secrets.filter fun secret => secret.id ∉ stale) ++
        [(⟨id, credential.connectorId, credential.kind, credential.value⟩ : ConnectorSecret)],
        secret ∈ s.secrets ∨ secret.connectorAccountId = credential.connectorId := by
      intro secret hsecret
      rcases List.mem_append.mp hsecret with h | h
      · exact .inl (List.mem_filter.mp h).1
      · obtain rfl := List.mem_singleton.mp h
        exact .inr rfl
    refine ⟨⟨?_, ?_, ?_, ?_, ?_, ?_, ?_⟩, fun hfinal => ?_⟩
    · exact (map_id_map (keeps_withCredential credential) s.accounts).symm ▸ hs.ids
    · intro secret hsecret
      rcases hsecrets secret hsecret with hold | hsame
      · exact hextends.known (hs.held secret hold)
      · rw [hsame]
        exact hextends.known hid
    · exact fun id hmem => hextends.known (hs.marked id hmem)
    · intro a' ha' hrevoked
      obtain ⟨a, ha, rfl⟩ := List.mem_map.mp ha'
      split at hrevoked
      · cases hrevoked
      · rename_i hother
        rw [if_neg hother]
        exact hs.recorded a ha hrevoked
    · intro a' ha' hsigns hnone secret hsecret hsame
      obtain ⟨a, ha, rfl⟩ := List.mem_map.mp ha'
      have hkeeps := keeps_withCredential credential a
      split at hnone
      · rename_i hthis
        exact hidentified a ha hthis (hkeeps.signsIn.mp hsigns) hnone
      · rename_i hother
        rw [if_neg hother] at hsigns hsame
        rcases hsecrets secret hsecret with hold | hcredential
        · exact hs.idle a ha hsigns hnone secret hold hsame
        · exact hother (hsame.symm.trans hcredential)
    · exact fun flow hflow => (hs.flows flow hflow).mono hextends
    · exact fun x hx => (hs.executions x (List.mem_of_mem_eraseIdx hx)).mono hextends
    · rw [forall_prop_of_true hall, alive_iff hs hfinal hid]
      refine ⟨fun hfinal' hmem => ?_, fun hnot id' hmem => ⟨?_, ?_⟩⟩
      · -- the secret that is new
        exact (hfinal' _ hmem).2 _ (List.mem_append_right _ (List.mem_singleton_self _)) rfl
      · intro a' ha' hsame
        obtain ⟨a, ha, rfl⟩ := List.mem_map.mp ha'
        have hother : a.id ≠ credential.connectorId := by
          intro heq
          exact hnot (heq ▸ (keeps_withCredential credential a).id.symm.trans hsame ▸ hmem)
        rw [if_neg hother] at hsame ⊢
        exact (hfinal id' hmem).1 a ha hsame
      · intro secret hsecret hsame
        rcases hsecrets secret hsecret with hold | hcredential
        · exact (hfinal id' hmem).2 secret hold hsame
        · exact hnot (hcredential.symm.trans hsame ▸ hmem)

/-- **A connector is revoked.** -/
theorem finishRevoke_spec (hs : Inv s) {connectorId : JsString} (hid : Known s connectorId)
    (stale : List JsString) (i : ℕ) :
    Inv ((s.finishRevoke connectorId stale).finish i) ∧
      (Final s → (Final ((s.finishRevoke connectorId stale).finish i) ↔
        ∀ secret ∈ s.secrets, secret.connectorAccountId = connectorId → secret.id ∈ stale)) := by
  have hextends : Extends s ((s.finishRevoke connectorId stale).finish i) :=
    .of_map (keeps_withStatus connectorId .revoked) rfl
  have hrevoked : ∀ a ∈ s.accounts,
      a.status = .revoked ∨ a.id = connectorId → (withStatus connectorId .revoked a).status =
        .revoked := by
    intro a ha h
    rw [withStatus]
    split
    · rfl
    · rename_i hother
      exact h.resolve_right hother
  refine ⟨⟨?_, ?_, ?_, ?_, ?_, ?_, ?_⟩, fun hfinal => ⟨fun hfinal' => ?_, fun hall => ?_⟩⟩
  · exact (map_id_map (keeps_withStatus connectorId .revoked) s.accounts).symm ▸ hs.ids
  · exact fun secret hsecret => hextends.known (hs.held secret (List.mem_filter.mp hsecret).1)
  · intro id hmem
    rcases List.mem_append.mp hmem with hmem | hmem
    · exact hextends.known (hs.marked id hmem)
    · rw [List.mem_singleton.mp hmem]
      exact hextends.known hid
  · intro a' ha' hstatus
    obtain ⟨a, ha, rfl⟩ := List.mem_map.mp ha'
    change (withStatus connectorId .revoked a).id ∈ _
    rw [(keeps_withStatus connectorId .revoked a).id]
    split at hstatus
    · rename_i hthis
      exact List.mem_append_right _ (List.mem_singleton.mpr hthis)
    · exact List.mem_append_left _ (hs.recorded a ha hstatus)
  · intro a' ha' hsigns hnone secret hsecret hsame
    obtain ⟨a, ha, rfl⟩ := List.mem_map.mp ha'
    have hkeeps := keeps_withStatus connectorId .revoked a
    have hidentity := externalIdentity_withStatus connectorId .revoked a
    exact hs.idle a ha (hkeeps.signsIn.mp hsigns) (hidentity.symm.trans hnone) secret
      (List.mem_filter.mp hsecret).1 (hsame.trans hkeeps.id)
  · exact fun flow hflow => (hs.flows flow hflow).mono hextends
  · exact fun x hx => (hs.executions x (List.mem_of_mem_eraseIdx hx)).mono hextends
  · intro secret hsecret hsame
    by_contra hkept
    have hlast : connectorId ∈ s.revoked ++ [connectorId] :=
      List.mem_append_right _ (List.mem_singleton_self _)
    exact (hfinal' connectorId hlast).2 secret
      (List.mem_filter.mpr ⟨hsecret, decide_eq_true hkept⟩) hsame
  · intro id hmem
    have hcases : id ∈ s.revoked ∨ id = connectorId :=
      (List.mem_append.mp hmem).imp_right List.mem_singleton.mp
    refine ⟨?_, fun secret hsecret hsame => ?_⟩
    · intro a' ha' hsame
      obtain ⟨a, ha, rfl⟩ := List.mem_map.mp ha'
      have hsame' : a.id = id := (keeps_withStatus connectorId .revoked a).id.symm.trans hsame
      refine hrevoked a ha (hcases.imp (fun hold => ?_) fun hthis => hsame'.trans hthis)
      exact (hfinal id hold).1 a ha hsame'
    · obtain ⟨hold, hkept⟩ := List.mem_filter.mp hsecret
      rcases hcases with hmem | rfl
      · exact (hfinal id hmem).2 secret hold hsame
      · exact of_decide_eq_true hkept (hall secret hold hsame)

/-- Flows that were never completed are retired. -/
def retired (now : ℤ) (account : ConnectorAccount) : ConnectorAccount :=
  if abandoned now account then { account with status := .revoked } else account

theorem keeps_retired (now : ℤ) (a : ConnectorAccount) : a.Keeps (retired now a) := by
  rw [retired]
  split
  · exact ⟨rfl, rfl, rfl⟩
  · exact .refl a

/-- **What is retired has no secret.** -/
theorem retireAbandonedFlows_spec (hs : Inv s) {now : ℤ} {s' : State}
    (h : step s (.retireAbandonedFlows now) = some s') : Inv s' ∧ (Final s → Final s') := by
  obtain rfl := Option.some.inj h
  have hextends : Extends s { s with
      accounts := s.accounts.map (retired now)
      revoked := s.revoked ++ (s.accounts.filter (abandoned now)).map ConnectorAccount.id } :=
    .of_map (keeps_retired now) rfl
  have habandoned : ∀ a, abandoned now a = true → SignsIn a ∧ a.externalIdentity = [] := by
    intro a ha
    obtain ⟨hprovider, hmode, -, hnone, -⟩ := of_decide_eq_true ha
    exact ⟨⟨hprovider, hmode⟩, hnone⟩
  refine ⟨⟨?_, ?_, ?_, ?_, ?_, ?_, ?_⟩, fun hfinal => ?_⟩
  · exact (map_id_map (keeps_retired now) s.accounts).symm ▸ hs.ids
  · exact fun secret hsecret => hextends.known (hs.held secret hsecret)
  · intro id hmem
    rcases List.mem_append.mp hmem with hmem | hmem
    · exact hextends.known (hs.marked id hmem)
    · obtain ⟨a, ha, rfl⟩ := List.mem_map.mp hmem
      exact hextends.known ⟨a, (List.mem_filter.mp ha).1, rfl⟩
  · intro a' ha' hstatus
    obtain ⟨a, ha, rfl⟩ := List.mem_map.mp ha'
    change (retired now a).id ∈ _
    rw [(keeps_retired now a).id]
    split at hstatus
    · rename_i hthis
      exact List.mem_append_right _ (List.mem_map_of_mem (List.mem_filter.mpr ⟨ha, hthis⟩))
    · exact List.mem_append_left _ (hs.recorded a ha hstatus)
  · intro a' ha' hsigns hnone secret hsecret hsame
    obtain ⟨a, ha, rfl⟩ := List.mem_map.mp ha'
    have hkeeps := keeps_retired now a
    have hidentity : (retired now a).externalIdentity = a.externalIdentity := by
      rw [retired]
      split <;> rfl
    exact hs.idle a ha (hkeeps.signsIn.mp hsigns) (hidentity.symm.trans hnone) secret hsecret
      (hsame.trans hkeeps.id)
  · exact fun flow hflow => (hs.flows flow hflow).mono hextends
  · exact fun x hx => (hs.executions x hx).mono hextends
  · intro id hmem
    refine ⟨?_, ?_⟩
    · intro a' ha' hsame
      obtain ⟨a, ha, rfl⟩ := List.mem_map.mp ha'
      have hsame' : a.id = id := (keeps_retired now a).id.symm.trans hsame
      split
      · rfl
      · rename_i hother
        rcases List.mem_append.mp hmem with hmem | hmem
        · exact (hfinal id hmem).1 a ha hsame'
        · -- only one connector has the identifier
          obtain ⟨b, hb, hbid⟩ := List.mem_map.mp hmem
          obtain ⟨hb, hthis⟩ := List.mem_filter.mp hb
          obtain rfl := List.inj_on_of_nodup_map hs.ids hb ha (hbid.trans hsame'.symm)
          exact absurd hthis hother
    · intro secret hsecret hsame
      rcases List.mem_append.mp hmem with hmem | hmem
      · exact (hfinal id hmem).2 secret hsecret hsame
      · obtain ⟨a, ha, rfl⟩ := List.mem_map.mp hmem
        obtain ⟨ha, hthis⟩ := List.mem_filter.mp ha
        obtain ⟨hsigns, hnone⟩ := habandoned a hthis
        exact hs.idle a ha hsigns hnone secret hsecret hsame

/-- A connector is created under a new identifier. -/
theorem create_spec (hs : Inv s) {id tenantId userId verifier : JsString} {provider : Provider}
    {organization : Bool} {limit : ℕ} {now : ℤ} {s' : State}
    (h : step s (.create id tenantId userId provider organization verifier limit now) = some s') :
    Inv s' ∧ (Final s → Final s') := by
  rw [step] at h
  split at h
  · obtain rfl := Option.some.inj h
    exact ⟨hs, fun hfinal => hfinal⟩
  · rename_i hallowed
    obtain rfl := Option.some.inj h
    have hnew : ¬ Known s id := by
      rintro ⟨a, ha, hsame⟩
      exact hallowed (.inr (List.any_eq_true.mpr ⟨a, ha, decide_eq_true hsame⟩))
    have hmem : ∀ a ∈ s.accounts ++ [(⟨id, provider, organization, [], .pendingAuth, now⟩ :
        ConnectorAccount)],
        a ∈ s.accounts ∨ a = ⟨id, provider, organization, [], .pendingAuth, now⟩ :=
      fun a ha => (List.mem_append.mp ha).imp_right List.mem_singleton.mp
    have hextends : Extends s { s with
        accounts := s.accounts ++ [⟨id, provider, organization, [], .pendingAuth, now⟩]
        flows := s.flows ++ (if organization then [] else
          [⟨id, tenantId, userId, provider, verifier, now / 1000,
            now / 1000 + connectFlowTtlSeconds⟩]) } := by
      refine ⟨fun a ha => ⟨a, List.mem_append_left _ ha, .refl a⟩, fun a ha => ?_⟩
      rcases hmem a ha with ha | rfl
      · exact .inl ⟨a, ha, .refl a⟩
      · exact .inr hnew
    refine ⟨⟨?_, ?_, ?_, ?_, ?_, ?_, ?_⟩, fun hfinal id' hrevoked => ⟨?_, (hfinal id' hrevoked).2⟩⟩
    · rw [List.map_append]
      refine hs.ids.append (List.nodup_singleton _) (List.disjoint_singleton.mpr ?_)
      intro htaken
      obtain ⟨a, ha, hsame⟩ := List.mem_map.mp htaken
      exact hnew ⟨a, ha, hsame⟩
    · exact fun secret hsecret => hextends.known (hs.held secret hsecret)
    · exact fun id' hrevoked => hextends.known (hs.marked id' hrevoked)
    · intro a ha hstatus
      rcases hmem a ha with ha | rfl
      · exact hs.recorded a ha hstatus
      · cases hstatus
    · intro a ha hsigns hnone secret hsecret hsame
      rcases hmem a ha with ha | rfl
      · exact hs.idle a ha hsigns hnone secret hsecret hsame
      · have hheld := hs.held secret hsecret
        rw [hsame] at hheld
        exact hnew hheld
    · intro flow hflow
      rcases List.mem_append.mp hflow with hflow | hflow
      · exact (hs.flows flow hflow).mono hextends
      · split at hflow
        · cases hflow
        · obtain rfl := List.mem_singleton.mp hflow
          refine ⟨⟨_, List.mem_append_right _ (List.mem_singleton_self _), rfl⟩, ?_⟩
          intro a ha hsame
          rcases hmem a ha with ha | rfl
          · exact absurd ⟨a, ha, hsame⟩ hnew
          · rfl
    · exact fun x hx => (hs.executions x hx).mono hextends
    · intro a ha hsame
      rcases hmem a ha with ha | rfl
      · exact (hfinal id' hrevoked).1 a ha hsame
      · have hmarked := hs.marked id' hrevoked
        rw [← hsame] at hmarked
        exact absurd hmarked hnew

/-- A token that is replaced is one that is there. -/
theorem persistRotatedSecret_spec (hs : Inv s) {secretId value : JsString} {s' : State}
    (h : step s (.persistRotatedSecret secretId value) = some s') :
    Inv s' ∧ (Final s → Final s') := by
  obtain rfl := Option.some.inj h
  have hmem : ∀ secret' ∈ s.secrets.map (fun secret =>
      if secret.id = secretId then { secret with value } else secret),
      ∃ secret ∈ s.secrets, secret'.connectorAccountId = secret.connectorAccountId := by
    intro secret' hsecret'
    obtain ⟨secret, hsecret, rfl⟩ := List.mem_map.mp hsecret'
    refine ⟨secret, hsecret, ?_⟩
    split <;> rfl
  refine ⟨{ hs with held := ?_, idle := ?_ },
    fun hfinal id hrevoked => ⟨(hfinal id hrevoked).1, ?_⟩⟩
  · intro secret' hsecret'
    obtain ⟨secret, hsecret, hsame⟩ := hmem secret' hsecret'
    rw [hsame]
    exact hs.held secret hsecret
  · intro a ha hsigns hnone secret' hsecret'
    obtain ⟨secret, hsecret, hsame⟩ := hmem secret' hsecret'
    rw [hsame]
    exact hs.idle a ha hsigns hnone secret hsecret
  · intro secret' hsecret'
    obtain ⟨secret, hsecret, hsame⟩ := hmem secret' hsecret'
    rw [hsame]
    exact (hfinal id hrevoked).2 secret hsecret

/-! ## What is under way -/

/-- Only the operations under way change. -/
theorem Inv.underWay (hs : Inv s) {executions : List Execution}
    (h : ∀ x ∈ executions, x ∈ s.executions ∨ x.Sound s) :
    Inv { s with executions := executions } :=
  ⟨hs.ids, hs.held, hs.marked, hs.recorded, hs.idle, hs.flows,
    fun x hx => (h x hx).elim (hs.executions x) fun hsound => hsound⟩

theorem Inv.start (hs : Inv s) {x : Execution} (hx : x.Sound s) : Inv (s.start x) := by
  refine hs.underWay fun y hy => ?_
  rcases List.mem_append.mp hy with hy | hy
  · exact .inl hy
  · obtain rfl := List.mem_singleton.mp hy
    exact .inr hx

theorem Inv.resume (hs : Inv s) {x : Execution} (hx : x.Sound s) (i : ℕ) :
    Inv (s.resume i x) := by
  refine hs.underWay fun y hy => ?_
  rcases List.mem_or_eq_of_mem_set hy with hy | rfl
  · exact .inl hy
  · exact .inr hx

theorem Inv.finish (hs : Inv s) (i : ℕ) : Inv (s.finish i) :=
  hs.underWay fun _ hy => .inl (List.mem_of_mem_eraseIdx hy)

/-- **What a callback stores has an identity**, where someone has signed in. -/
theorem sound_afterExchange {flow : ConnectorFlowPayload}
    (hflow : (Execution.exchanging flow).Sound s) (answer : Option Exchanged) :
    (afterExchange flow answer).Sound s := by
  obtain ⟨hknown, hprovider⟩ := hflow
  cases answer with
  | none => exact hknown
  | some granted =>
    rw [afterExchange]
    split
    · rename_i hslack
      refine ⟨hknown, fun a ha hsame hsigns => ?_⟩
      rw [SignsIn, hprovider a ha hsame, hslack] at hsigns
      rcases hsigns.1 with h | h <;> cases h
    · split
      · exact hknown
      · split
        · exact hknown
        · refine ⟨hknown, fun a ha hsame hsigns => ?_⟩
          dsimp only
          split
          · decide
          · assumption

/-- **Every event keeps the invariant**, and finality exactly if it is careful. -/
theorem step_spec {s' : State} {e : Event} (hs : Inv s) (h : step s e = some s') :
    Inv s' ∧ (Final s → (Final s' ↔ Careful s e)) := by
  cases e with
  | create id tenantId userId provider organization verifier limit now =>
    obtain ⟨hinv, hkept⟩ := create_spec hs h
    exact ⟨hinv, fun hfinal => iff_of_true (hkept hfinal) trivial⟩
  | retireAbandonedFlows now =>
    obtain ⟨hinv, hkept⟩ := retireAbandonedFlows_spec hs h
    exact ⟨hinv, fun hfinal => iff_of_true (hkept hfinal) trivial⟩
  | persistRotatedSecret secretId value =>
    obtain ⟨hinv, hkept⟩ := persistRotatedSecret_spec hs h
    exact ⟨hinv, fun hfinal => iff_of_true (hkept hfinal) trivial⟩
  | crash i =>
    obtain rfl := Option.some.inj h
    exact ⟨hs.finish i, fun hfinal => iff_of_true hfinal trivial⟩
  | completeCallback flow code now =>
    rw [step] at h
    split at h
    · rename_i hvalid
      obtain rfl := Option.some.inj h
      have hflow := hs.flows flow hvalid.1
      refine ⟨hs.start ?_, fun hfinal => iff_of_true hfinal trivial⟩
      split
      · exact hflow.1
      · exact hflow
    · obtain rfl := Option.some.inj h
      exact ⟨hs, fun hfinal => iff_of_true hfinal trivial⟩
  | exchanged i answer =>
    rw [step] at h
    split at h
    · rename_i flow hx
      obtain rfl := Option.some.inj h
      have hflow := hs.executions _ (List.mem_of_getElem? hx)
      exact ⟨hs.resume (sound_afterExchange hflow answer) i,
        fun hfinal => iff_of_true hfinal trivial⟩
    · cases h
  | test connectorId =>
    rw [step] at h
    split at h
    · obtain rfl := Option.some.inj h
      exact ⟨hs, fun hfinal => iff_of_true hfinal trivial⟩
    · rename_i account hfind
      obtain rfl := Option.some.inj h
      split
      · exact ⟨hs, fun hfinal => iff_of_true hfinal trivial⟩
      · have hsame : account.id = connectorId := by simpa using List.find?_some hfind
        exact ⟨hs.start ⟨account, List.mem_of_find?_eq_some hfind, hsame⟩,
          fun hfinal => iff_of_true hfinal trivial⟩
  | tested i ok =>
    rw [step] at h
    split at h
    · rename_i connectorId hx
      obtain rfl := Option.some.inj h
      have hknown : Known s connectorId := hs.executions _ (List.mem_of_getElem? hx)
      have hstatus : (if ok then ConnectorStatus.connected else .error) ≠ .revoked := by
        cases ok <;> decide
      obtain ⟨hinv, hiff⟩ := setStatus_spec hs hknown hstatus i
      refine ⟨hinv, fun hfinal => (hiff hfinal).trans ?_⟩
      simp only [Careful, hx]
    · cases h
  | configureOrg connectorId serviceAccountJson adminEmail =>
    rw [step] at h
    split at h
    · obtain rfl := Option.some.inj h
      exact ⟨hs, fun hfinal => iff_of_true hfinal trivial⟩
    · rename_i account hfind
      split at h
      · obtain rfl := Option.some.inj h
        exact ⟨hs, fun hfinal => iff_of_true hfinal trivial⟩
      · rename_i hmode
        obtain rfl := Option.some.inj h
        have hsame : account.id = connectorId := by simpa using List.find?_some hfind
        have haccount := List.mem_of_find?_eq_some hfind
        refine ⟨hs.start ⟨⟨account, haccount, hsame⟩, ?_⟩,
          fun hfinal => iff_of_true hfinal trivial⟩
        intro a ha hsame' hsigns
        -- only one connector has the identifier, and nobody signs in to it
        obtain rfl := List.inj_on_of_nodup_map hs.ids ha haccount (hsame'.trans hsame.symm)
        exact absurd (.inl hsigns.2) hmode
  | revoke connectorId =>
    rw [step] at h
    split at h
    · rename_i hany
      obtain rfl := Option.some.inj h
      obtain ⟨account, haccount, hsame⟩ := List.any_eq_true.mp hany
      exact ⟨hs.start ⟨account, haccount, of_decide_eq_true hsame⟩,
        fun hfinal => iff_of_true hfinal trivial⟩
    · obtain rfl := Option.some.inj h
      exact ⟨hs, fun hfinal => iff_of_true hfinal trivial⟩
  | proceed i id =>
    obtain ⟨x, hx, hproceed⟩ := Option.bind_eq_some_iff.mp h
    have hsound := hs.executions x (List.mem_of_getElem? hx)
    simp only [Careful, hx]
    cases x with
    | exchanging | testing => cases hproceed
    | failing connectorId =>
      obtain rfl := Option.some.inj hproceed
      exact setStatus_spec hs hsound (by decide) i
    | storing credential =>
      rw [proceed] at hproceed
      split at hproceed
      · obtain rfl := Option.some.inj hproceed
        refine ⟨hs.resume ?_ i, fun hfinal => iff_of_true hfinal trivial⟩
        exact hsound
      · obtain rfl := Option.some.inj hproceed
        exact ⟨hs.finish i, fun hfinal => iff_of_true hfinal trivial⟩
    | granting credential stale =>
      obtain rfl := Option.some.inj hproceed
      exact store_spec hs hsound.1 hsound.2 i
    | revoking connectorId stale =>
      obtain rfl := Option.some.inj hproceed
      exact finishRevoke_spec hs hsound stale i

end Writes

theorem inv_initial : Inv .initial := by
  refine ⟨.nil, ?_, ?_, ?_, ?_, ?_, ?_⟩ <;> intro _ h <;> cases h

/-- **Revocation is final throughout a run, if and only if** whatever writes another status or a
secret in it finds the connector alive, and every revocation deletes all secrets there are when it
commits. -/
theorem throughout_final_iff {es : List Event} {t : State}
    (h : run step .initial es = some t) :
    Throughout step Final .initial es ↔ Always step Careful .initial es :=
  throughout_iff_always (fun _ _ _ hs hstep => (step_spec hs hstep).1)
    (fun _ _ _ hs hfinal hstep => (step_spec hs hstep).2 hfinal) inv_initial
    (by rintro id ⟨⟩) h

/-! ## Connectors that come back -/

/-- The flow of the examples. -/
def plainFlow : ConnectorFlowPayload :=
  ⟨js "connector", js "tenant", js "user", .google, [], 0, 600⟩

/-- A connector is created, and its user signs in. -/
def connected : List Event :=
  [.create (js "connector") (js "tenant") (js "user") .google false [] 5 0,
    .completeCallback plainFlow (js "code") 1, .exchanged 0 (some ⟨js "access", some (js "refresh"),
      some (js "user@example.org"), [], []⟩), .proceed 0 [], .proceed 0 (js "secret")]

/-- It is revoked. -/
def thenRevoked : List Event :=
  connected ++ [.revoke (js "connector"), .proceed 0 []]

/-- The address of the callback is opened once more, where nothing was granted; and once more, where
something was. -/
def replayed : List Event :=
  thenRevoked ++ [.completeCallback plainFlow [] 2, .proceed 0 []]

/-- Two flows of a connector are completed while it is revoked. -/
def storedMeanwhile : List Event :=
  connected ++ ([.completeCallback plainFlow (js "code") 1,
    .exchanged 0 (some ⟨js "access", some (js "again"), some (js "user@example.org"), [], []⟩),
    .proceed 0 [], .revoke (js "connector"), .proceed 0 (js "secret2"), .proceed 0 []] : List Event)

/-- **A callback that is opened again brings a connector back, and one that is under way leaves a
secret.** -/
theorem not_final :
    (∃ t, run step .initial replayed = some t ∧ ¬ Final t) ∧
    ∃ t, run step .initial storedMeanwhile = some t ∧ ¬ Final t := by
  refine ⟨?_, ?_⟩
  · obtain ⟨t, hrun, hrevoked, haccounts⟩ : ∃ t, run step .initial replayed = some t ∧
        t.revoked = [js "connector"] ∧ t.accounts =
          [⟨js "connector", .google, false, js "user@example.org", .error, 0⟩] :=
      ⟨_, rfl, rfl, rfl⟩
    refine ⟨t, hrun, fun h => ?_⟩
    have hstatus := (h (js "connector") (hrevoked ▸ List.mem_singleton_self _)).1 _
      (haccounts ▸ List.mem_singleton_self _) rfl
    cases hstatus
  · obtain ⟨t, hrun, hrevoked, hsecrets⟩ : ∃ t, run step .initial storedMeanwhile = some t ∧
        t.revoked = [js "connector"] ∧ t.secrets =
          [⟨js "secret2", js "connector", .oauthRefreshToken, js "again"⟩] :=
      ⟨_, rfl, rfl, rfl⟩
    refine ⟨t, hrun, fun h => ?_⟩
    exact (h (js "connector") (hrevoked ▸ List.mem_singleton_self _)).2 _
      (hsecrets ▸ List.mem_singleton_self _) rfl

/-- A connector that is left alone stays revoked. -/
theorem final_thenRevoked : Throughout step Final .initial thenRevoked := by
  obtain ⟨t, hrun, -⟩ : ∃ t, run step .initial thenRevoked = some t ∧ t.secrets = [] :=
    ⟨_, rfl, rfl⟩
  exact (throughout_final_iff hrun).mpr (by decide +kernel)

end AegCloudDfir.Connectors.Revocation
