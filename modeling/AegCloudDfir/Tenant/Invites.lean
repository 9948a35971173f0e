import AegCloudDfir.Js.Text
import AegCloudDfir.Lib.Places
import AegCloudDfir.Lib.RowLocks
import AegCloudDfir.Lib.Transition

/-!
# Invites, join links and roles

`TenantsService` (`apps/api/src/tenants/tenants.service.ts`) gives local roles: to who creates a
tenant, to who redeems an invite, and to who opens a join link. `AuthService.syncOidcGroupRoles`
(`apps/api/src/auth/auth.service.ts`) adds the roles of the groups of a user where the user is a
local administrator, and takes them away elsewhere.

An operation is a chain of statements. What one reads is kept in its `Execution`; what its
transaction writes is there at the commit, unless a unique key is taken by then. So whatever commits
in between comes between a look and what was decided on it.

* `step` — the statements, one after another, of any number of operations.
* `Granted` — nobody holds a role that nobody granted.
* `throughout_granted_iff` — which runs keep it, exactly.
-/

namespace AegCloudDfir.Tenant.Invites

open Transition
open RowLocks (Continues)

/-! ## Rows -/

/-- `TenantRole` -/
inductive TenantRole : Type where
  | orgAdmin
  | caseManager
  | reviewer
  | readOnly
  | productionManager
  | auditor
  deriving DecidableEq

/-- `LOCAL_SOURCE` and `OIDC_GROUP_SOURCE` -/
inductive Source : Type where
  | «local»
  | oidcGroup
  deriving DecidableEq

/-- A row of `users` -/
structure User where
  id : JsString
  email : JsString

/-- A row of `tenants` -/
structure TenantRow where
  id : JsString
  slug : JsString
  /-- `status === 'active'` -/
  active : Bool
  joinToken : Option JsString
  createdAt : ℤ
  deriving DecidableEq

/-- A row of `tenant_invites` -/
structure TenantInvite where
  id : JsString
  tenantId : JsString
  email : JsString
  role : TenantRole
  tokenHash : JsString
  expiresAt : ℤ
  usedAt : Option ℤ
  deriving DecidableEq

/-- A row of `memberships` -/
structure Membership where
  id : JsString
  tenantId : JsString
  userId : JsString
  /-- `status === MembershipStatus.active` -/
  active : Bool
  invited : Bool
  deriving DecidableEq

/-- A row of `role_assignments` -/
structure RoleAssignment where
  membershipId : JsString
  role : TenantRole
  source : Source
  deriving DecidableEq

/-- An invite that was redeemed, when and by whom. -/
structure Redemption where
  inviteId : JsString
  userId : JsString
  usedAt : ℤ
  deriving DecidableEq

/-- A join link that was used up to its commit, with the membership and its roles before and
after. -/
structure Join where
  tenantId : JsString
  userId : JsString
  token : JsString
  before : Option (Membership × List RoleAssignment)
  after : Option (Membership × List RoleAssignment)
  deriving DecidableEq

/-- The tables, and what happened. -/
structure Db where
  tenants : List TenantRow
  invites : List TenantInvite
  memberships : List Membership
  roles : List RoleAssignment
  /-- tenants with who created them -/
  creators : List (JsString × JsString)
  /-- tenants with every join token they had -/
  tokens : List (JsString × JsString)
  redemptions : List Redemption
  joins : List Join

/-- Nothing is there, and nothing happened. -/
def Db.empty : Db := ⟨[], [], [], [], [], [], [], []⟩

/-! ## Transactions -/

/-- `email.trim().toLowerCase()` and `hashInviteToken`. -/
structure Runtime where
  normalizeEmail : JsString → JsString
  hashInviteToken : JsString → JsString

/-- What is drawn for a statement, and when it runs. -/
structure Draw where
  tenantId : JsString
  membershipId : JsString
  token : JsString
  now : ℤ

/-- `TENANT_CREATE_COOLDOWN_MS` -/
def tenantCreateCooldownMs : ℤ := 15 * 60 * 1000

/-- `INVITE_TTL_MS` -/
def inviteTtlMs : ℤ := 7 * 24 * 60 * 60 * 1000

/-- `STANDING_JOIN_ROLE` -/
def standingJoinRole : TenantRole := .reviewer

/-- `membership.create`, unless a unique key is taken. -/
def createMembership (rows : List Membership) (row : Membership) : Option (List Membership) :=
  if rows.any fun other =>
      other.id = row.id ∨ other.tenantId = row.tenantId ∧ other.userId = row.userId then none
  else some (rows ++ [row])

/-- `roleAssignment.create`, unless the unique key is taken. -/
def createRole (rows : List RoleAssignment) (row : RoleAssignment) :
    Option (List RoleAssignment) :=
  if rows.any fun other => other.membershipId = row.membershipId ∧ other.role = row.role then none
  else some (rows ++ [row])

/-- What `redeemInvite` goes by. -/
inductive Via : Type where
  | oneTime (invite : TenantInvite)
  | joinLink (token : JsString)
  deriving DecidableEq

/-- The role it is for. -/
def Via.role : Via → TenantRole
  | .oneTime invite => invite.role
  | .joinLink _ => standingJoinRole

/-- What `ensureMembership` updates of a membership that it found. -/
def updateFound (existing row : Membership) : Membership :=
  if existing.active = false ∨ existing.invited = false then
    { row with active := !existing.active || row.active, invited := true }
  else row

namespace Db

variable (db : Db)

/-- The membership of a user in a tenant. -/
def membership (tenantId userId : JsString) : Option Membership :=
  db.memberships.find? fun m => m.tenantId = tenantId ∧ m.userId = userId

/-- The membership and its roles. -/
def seat (tenantId userId : JsString) : Option (Membership × List RoleAssignment) :=
  (db.membership tenantId userId).map fun m =>
    (m, db.roles.filter fun a => a.membershipId = m.id)

/-- `membership.count` of `createSelfServe` -/
def recentCreates (userId : JsString) (cutoff : ℤ) : ℕ :=
  db.memberships.countP fun m => m.userId = userId ∧
    (db.roles.any fun a => a.membershipId = m.id ∧ a.role = .orgAdmin) ∧
    db.tenants.any fun t => t.id = m.tenantId ∧ cutoff ≤ t.createdAt

/-- The transaction of `createSelfServe` -/
def createSelfServe (userId slug : JsString) (draw : Draw) : Option Db :=
  if db.tenants.any fun t =>
      t.id = draw.tenantId ∨ t.slug = slug ∨ t.joinToken = some draw.token then none
  else do
    let memberships ←
      createMembership db.memberships ⟨draw.membershipId, draw.tenantId, userId, true, false⟩
    let roles ← createRole db.roles ⟨draw.membershipId, .orgAdmin, .local⟩
    some { db with
      tenants := db.tenants ++ [⟨draw.tenantId, slug, true, some draw.token, draw.now⟩]
      memberships := memberships
      roles := roles
      creators := db.creators ++ [(draw.tenantId, userId)]
      tokens := db.tokens ++ [(draw.tenantId, draw.token)] }

/-- `createInvite`, with the id that is drawn. -/
def createInvite (rt : Runtime) (id tenantId email : JsString) (role : TenantRole)
    (draw : Draw) : Option Db :=
  let tokenHash := rt.hashInviteToken draw.token
  if db.invites.any fun v => v.id = id ∨ v.tokenHash = tokenHash then none
  else if db.tenants.any fun t => t.id = tenantId then
    some { db with
      invites := db.invites ++ [⟨id, tenantId, rt.normalizeEmail email, role, tokenHash,
        draw.now + inviteTtlMs, none⟩] }
  else none

/-- `rotateJoinLink` -/
def rotateJoinLink (tenantId : JsString) (draw : Draw) : Option Db :=
  if db.tenants.any fun t => t.joinToken = some draw.token then none
  else if db.tenants.any fun t => t.id = tenantId then
    some { db with
      tenants := db.tenants.map fun t =>
        if t.id = tenantId then { t with joinToken := some draw.token } else t
      tokens := db.tokens ++ [(tenantId, draw.token)] }
  else none

/-- `ensureMembership` updates the membership that it found, or creates one. -/
def writeMembership (tenantId userId : JsString) (existing : Option Membership) (draw : Draw) :
    Option (List Membership) :=
  match existing with
  | some m => some (db.memberships.map fun row => if row.id = m.id then updateFound m row else row)
  | none => createMembership db.memberships ⟨draw.membershipId, tenantId, userId, true, true⟩

/-- It creates the role if it was not present. -/
def writeRole (membershipId : JsString) (role : TenantRole) (rolePresent : Bool) :
    Option (List RoleAssignment) :=
  if rolePresent then some db.roles else createRole db.roles ⟨membershipId, role, .local⟩

/-- What `ensureMembership` writes. -/
def ensureMembership (tenantId userId : JsString) (role : TenantRole)
    (existing : Option Membership) (rolePresent : Bool) (draw : Draw) :
    Option (List Membership × List RoleAssignment) := do
  let memberships ← db.writeMembership tenantId userId existing draw
  let membershipId := existing.elim draw.membershipId Membership.id
  let roles ← db.writeRole membershipId role rolePresent
  some (memberships, roles)

/-- The commit of `redeemOneTimeInvite` or `redeemStandingJoin`. -/
def grant (tenantId userId : JsString) (via : Via) (existing : Option Membership)
    (rolePresent : Bool) (draw : Draw) : Option Db :=
  (db.ensureMembership tenantId userId via.role existing rolePresent draw).map fun written =>
    let next := { db with memberships := written.1, roles := written.2 }
    match via with
    | .oneTime invite => { next with
        invites := db.invites.map fun v =>
          if v.id = invite.id then { v with usedAt := some draw.now } else v
        redemptions := db.redemptions ++ [⟨invite.id, userId, draw.now⟩] }
    | .joinLink token => { next with
        joins := db.joins ++
          [⟨tenantId, userId, token, db.seat tenantId userId, next.seat tenantId userId⟩] }

/-- The membership has the role of an administrator, given in the tenant. -/
def locallyAdministers (membershipId : JsString) : Bool :=
  db.roles.any fun a => a.membershipId = membershipId ∧ a.role = .orgAdmin ∧ a.source = .local

/-- The transaction of `syncOidcGroupRoles` for a guest -/
def strip (membershipId : JsString) : Db :=
  { db with roles := db.roles.filter fun a =>
      ¬ (a.membershipId = membershipId ∧ a.source = .oidcGroup) }

/-- The rows that `deleteMany` takes away of an administrator -/
def stale (membershipId : JsString) (mapped : List TenantRole) : List RoleAssignment :=
  db.roles.filter fun a =>
    a.membershipId = membershipId ∧ a.source = .oidcGroup ∧ a.role ∉ mapped

/-- The commit of `syncOidcGroupRoles` for an administrator -/
def replaceRoles (membershipId : JsString) (stale : List RoleAssignment)
    (adding : List TenantRole) : Option Db :=
  (adding.foldlM (fun rows role => createRole rows ⟨membershipId, role, .oidcGroup⟩)
    (db.roles.filter (· ∉ stale))).map fun roles => { db with roles := roles }

end Db

/-! ## Statements -/

/-- A membership of the user, as `listMemberships` read it. -/
structure Target where
  membershipId : JsString
  locallyAdministers : Bool
  deriving DecidableEq

/-- An operation with what it has read so far. -/
inductive Execution : Type where
  /-- no tenant was created lately -/
  | creating (userId slug : JsString)
  /-- no invite has the token -/
  | lookingUp (userId token : JsString)
  /-- the invite is valid, or the token is that of the tenant -/
  | redeeming (userId tenantId : JsString) (via : Via)
  /-- the tenant is active, or the user is no member of it -/
  | admitted (userId tenantId : JsString) (via : Via)
  /-- `ensureMembership` has read the membership -/
  | ensuring (userId tenantId : JsString) (via : Via) (existing : Option Membership)
  /-- and the role -/
  | granting (userId tenantId : JsString) (via : Via) (existing : Option Membership)
    (rolePresent : Bool)
  | syncing (mapped : List TenantRole) (targets : List Target)
  /-- the roles of a membership are looked for -/
  | adding (mapped : List TenantRole) (targets : List Target) (membershipId : JsString)
    (stale : List RoleAssignment) (todo adding : List TenantRole)
  deriving DecidableEq

/-- What can happen next. -/
inductive Event : Type where
  | createSelfServe (userId slug : JsString) (draw : Draw)
  | createInvite (id tenantId email : JsString) (role : TenantRole) (draw : Draw)
  | rotateJoinLink (tenantId : JsString) (draw : Draw)
  | redeemInvite (userId token : JsString) (draw : Draw)
  | syncOidcGroupRoles (userId : JsString) (mappedRoles : List TenantRole)
  /-- the next statement of an operation -/
  | proceed (i : ℕ) (draw : Draw)
  | crash (i : ℕ)

/-- The tables and the operations under way. -/
structure State where
  db : Db
  executions : List Execution

/-- The state before anything happened. -/
def State.initial : State := ⟨.empty, []⟩

section Step

variable (rt : Runtime) (users : List User)

/-- What `redeemInvite` finds for a token. -/
def redeemInvite (db : Db) (userId token : JsString) (draw : Draw) : Option Execution :=
  match db.invites.find? fun v => v.tokenHash = rt.hashInviteToken token with
  | some invite =>
    if invite.usedAt.isSome ∨ invite.expiresAt ≤ draw.now then none
    else match users.find? fun u => u.id = userId with
      | none => none
      | some user =>
        if rt.normalizeEmail user.email ≠ invite.email then none
        else some (.redeeming userId invite.tenantId (.oneTime invite))
  | none => some (.lookingUp userId token)

/-- What the next statement of an operation leaves to do, and the tables after it. -/
def proceed (db : Db) (draw : Draw) : Execution → Option Execution × Db
  | .creating userId slug => (none, (db.createSelfServe userId slug draw).getD db)
  | .lookingUp userId token =>
    match db.tenants.find? fun t => t.joinToken = some token with
    | none => (none, db)
    | some found =>
      if found.active ∧ users.any fun u => u.id = userId then
        (some (.redeeming userId found.id (.joinLink token)), db)
      else (none, db)
  | .redeeming userId tenantId via =>
    match via with
    | .oneTime _ =>
      if db.tenants.any fun t => t.id = tenantId ∧ t.active then
        (some (.admitted userId tenantId via), db)
      else (none, db)
    | .joinLink _ =>
      match db.membership tenantId userId with
      | some _ => (none, db)
      | none => (some (.admitted userId tenantId via), db)
  | .admitted userId tenantId via =>
    (some (.ensuring userId tenantId via (db.membership tenantId userId)), db)
  | .ensuring userId tenantId via existing =>
    let rolePresent := existing.any fun m =>
      db.roles.any fun a => a.membershipId = m.id ∧ a.role = via.role
    (some (.granting userId tenantId via existing rolePresent), db)
  | .granting userId tenantId via existing rolePresent =>
    (none, (db.grant tenantId userId via existing rolePresent draw).getD db)
  | .syncing _ [] => (none, db)
  | .syncing mapped (target :: targets) =>
    if target.locallyAdministers then
      (some (.adding mapped targets target.membershipId
        (db.stale target.membershipId mapped) mapped []), db)
    else (some (.syncing mapped targets), db.strip target.membershipId)
  | .adding mapped targets membershipId stale (role :: todo) adding =>
    let existing := db.roles.any fun a => a.membershipId = membershipId ∧ a.role = role
    (some (.adding mapped targets membershipId stale todo
      (if existing ∨ role ∈ adding then adding else adding ++ [role])), db)
  | .adding mapped targets membershipId stale [] adding =>
    match db.replaceRoles membershipId stale adding with
    | some db' => (some (.syncing mapped targets), db')
    | none => (none, db)

/-- The operations under way, when one has come further. -/
def put (executions : List Execution) (i : ℕ) : Option Execution → List Execution
  | some x => executions.set i x
  | none => executions.eraseIdx i

/-- The state after an event. -/
def step (s : State) : Event → Option State
  | .createSelfServe userId slug draw =>
    if s.db.recentCreates userId (draw.now - tenantCreateCooldownMs) > 0 then some s
    else some { s with executions := s.executions ++ [.creating userId slug] }
  | .createInvite id tenantId email role draw =>
    some { s with db := (s.db.createInvite rt id tenantId email role draw).getD s.db }
  | .rotateJoinLink tenantId draw =>
    some { s with db := (s.db.rotateJoinLink tenantId draw).getD s.db }
  | .redeemInvite userId token draw =>
    some { s with
      executions := s.executions ++ (redeemInvite rt users s.db userId token draw).toList }
  | .syncOidcGroupRoles userId mappedRoles =>
    let targets := (s.db.memberships.filter fun m => m.userId = userId).map fun m =>
      ⟨m.id, s.db.locallyAdministers m.id⟩
    some { s with executions := s.executions ++ [.syncing mappedRoles targets] }
  | .proceed i draw =>
    s.executions[i]?.map fun x =>
      let (next, db) := proceed users s.db draw x
      ⟨db, put s.executions i next⟩
  | .crash i => some { s with executions := s.executions.eraseIdx i }

end Step

/-! ## What is asked for -/

section Asked

variable (rt : Runtime) (users : List User)

/-- An invite to the e-mail of a user. -/
def SentTo (invite : TenantInvite) (userId : JsString) : Prop :=
  ∃ user ∈ users, user.id = userId ∧ rt.normalizeEmail user.email = invite.email

/-- Where a local role comes from. -/
inductive Stems (db : Db) (m : Membership) : TenantRole → Prop
  /-- the user created the tenant -/
  | created (h : (m.tenantId, m.userId) ∈ db.creators) : Stems db m .orgAdmin
  /-- the user redeemed an invite to exactly this role -/
  | invited {r : Redemption} {invite : TenantInvite} (hr : r ∈ db.redemptions)
    (huser : r.userId = m.userId) (hinvite : invite ∈ db.invites) (hid : invite.id = r.inviteId)
    (htenant : invite.tenantId = m.tenantId) (hsent : SentTo rt users invite m.userId) :
    Stems db m invite.role
  /-- the user joined for the first time, by a token that the tenant had -/
  | joined {j : Join} (hj : j ∈ db.joins) (htenant : j.tenantId = m.tenantId)
    (huser : j.userId = m.userId) (hfirst : j.before = none)
    (htoken : (m.tenantId, j.token) ∈ db.tokens) : Stems db m standingJoinRole

/-- **Nobody holds a role that nobody granted.** -/
structure Granted (db : Db) : Prop where
  /-- an invite is redeemed once -/
  once : (db.redemptions.map Redemption.inviteId).Nodup
  /-- and before it expires -/
  inTime : ∀ r ∈ db.redemptions, ∀ invite ∈ db.invites, invite.id = r.inviteId →
    r.usedAt < invite.expiresAt
  stems : ∀ a ∈ db.roles, a.source = .local → ∀ m ∈ db.memberships, m.id = a.membershipId →
    Stems rt users db m a.role
  /-- a join link changes no membership -/
  joins : ∀ j ∈ db.joins, ∀ seat ∈ j.before, j.after = some seat
  oidc : ∀ a ∈ db.roles, a.source = .oidcGroup → db.locallyAdministers a.membershipId

end Asked

/-- The commit of a redemption writes what it should: an invite that is not used and has not
expired, or a membership that the user did not have, and otherwise nothing new. -/
def Timely (db : Db) (existing : Option Membership) (rolePresent : Bool) (draw : Draw) : Via → Prop
  | .oneTime invite => ∀ row ∈ db.invites, row.id = invite.id →
    row.usedAt = none ∧ draw.now < row.expiresAt
  | .joinLink _ => ∀ m ∈ existing, rolePresent = true ∧
    ∀ row ∈ db.memberships, row.id = m.id → row.invited = true

/-- **What it takes**: a redemption that commits does so in time. -/
def Careful (s : State) : Event → Prop
  | .proceed i draw =>
    match s.executions[i]? with
    | some (.granting userId tenantId via existing rolePresent) =>
      s.db.ensureMembership tenantId userId via.role existing rolePresent draw ≠ none →
        Timely s.db existing rolePresent draw via
    | _ => True
  | _ => True

instance (db : Db) (existing : Option Membership) (rolePresent : Bool) (draw : Draw) (via : Via) :
    Decidable (Timely db existing rolePresent draw via) := by
  cases via <;> unfold Timely <;> infer_instance

instance (s : State) (e : Event) : Decidable (Careful s e) := by
  unfold Careful
  split
  · split <;> infer_instance
  · exact inferInstance

/-! ## What goes on -/

/-- A membership stays, and so does that it was invited. -/
structure Membership.Keeps (m m' : Membership) : Prop where
  id : m'.id = m.id
  tenantId : m'.tenantId = m.tenantId
  userId : m'.userId = m.userId
  invited : m.invited = true → m'.invited = true

/-- Of an invite changes only whether it is used. -/
structure TenantInvite.Keeps (v v' : TenantInvite) : Prop where
  id : v'.id = v.id
  tenantId : v'.tenantId = v.tenantId
  email : v'.email = v.email
  role : v'.role = v.role

/-- What is never lost. -/
structure Extends (db db' : Db) : Prop where
  memberships : Continues Membership.Keeps db.memberships db'.memberships
  invites : Continues TenantInvite.Keeps db.invites db'.invites
  roles : ∀ a ∈ db.roles, a.source = .local → a ∈ db'.roles
  creators : db.creators ⊆ db'.creators
  tokens : db.tokens ⊆ db'.tokens
  redemptions : db.redemptions ⊆ db'.redemptions
  joins : db.joins ⊆ db'.joins

theorem Membership.Keeps.refl (m : Membership) : m.Keeps m := ⟨rfl, rfl, rfl, fun h => h⟩

theorem TenantInvite.Keeps.refl (v : TenantInvite) : v.Keeps v := ⟨rfl, rfl, rfl, rfl⟩

theorem Extends.refl (db : Db) : Extends db db where
  memberships := .refl Membership.Keeps.refl _
  invites := .refl TenantInvite.Keeps.refl _
  roles _ ha _ := ha
  creators := List.Subset.refl _
  tokens := List.Subset.refl _
  redemptions := List.Subset.refl _
  joins := List.Subset.refl _

theorem locallyAdministers_iff {db : Db} {membershipId : JsString} :
    db.locallyAdministers membershipId = true ↔
      ⟨membershipId, .orgAdmin, .local⟩ ∈ db.roles := by
  rw [Db.locallyAdministers, List.any_eq_true]
  refine ⟨?_, ?_⟩
  · rintro ⟨⟨_, _, _⟩, ha, h⟩
    obtain ⟨rfl, rfl, rfl⟩ := of_decide_eq_true h
    exact ha
  · intro h
    exact ⟨_, h, decide_eq_true ⟨rfl, rfl, rfl⟩⟩

section Kept

variable {rt : Runtime} {users : List User} {db db' : Db}

theorem Extends.locallyAdministers (h : Extends db db') {membershipId : JsString}
    (hadmin : db.locallyAdministers membershipId = true) :
    db'.locallyAdministers membershipId = true :=
  locallyAdministers_iff.mpr (h.roles _ (locallyAdministers_iff.mp hadmin) rfl)

/-- Where a role comes from is not forgotten. -/
theorem Extends.stems (h : Extends db db') {m m' : Membership} (hm : m.Keeps m')
    {role : TenantRole} (hstems : Stems rt users db m role) : Stems rt users db' m' role := by
  cases hstems with
  | created hcreated =>
    refine .created ?_
    rw [hm.tenantId, hm.userId]
    exact h.creators hcreated
  | invited hr huser hinvite hid htenant hsent =>
    obtain ⟨invite', hinvite', hkeeps⟩ := h.invites _ hinvite
    rw [← hkeeps.role]
    refine .invited (h.redemptions hr) (huser.trans hm.userId.symm) hinvite'
      (hkeeps.id.trans hid) ?_ ?_
    · rw [hkeeps.tenantId, htenant, hm.tenantId]
    · rw [SentTo, hkeeps.email, hm.userId]
      exact hsent
  | joined hj htenant huser hfirst htoken =>
    refine .joined (h.joins hj) (htenant.trans hm.tenantId.symm) (huser.trans hm.userId.symm)
      hfirst ?_
    rw [hm.tenantId]
    exact h.tokens htoken

end Kept

/-! ## What the rows and the operations always have -/

section Always

variable (rt : Runtime) (users : List User)

/-- What holds of the tables however the operations interleave. -/
structure Rows (db : Db) : Prop where
  memberIds : (db.memberships.map Membership.id).Nodup
  seats : (db.memberships.map fun m => (m.tenantId, m.userId)).Nodup
  inviteIds : (db.invites.map TenantInvite.id).Nodup
  active : ∀ m ∈ db.memberships, m.active = true
  holders : ∀ a ∈ db.roles, ∃ m ∈ db.memberships, m.id = a.membershipId
  used : ∀ invite ∈ db.invites,
    (invite.usedAt = none ↔ invite.id ∉ db.redemptions.map Redemption.inviteId)
  redeemed : ∀ r ∈ db.redemptions, ∃ invite ∈ db.invites, invite.id = r.inviteId
  joinTokens : ∀ t ∈ db.tenants, ∀ token ∈ t.joinToken, (t.id, token) ∈ db.tokens

/-- What an operation goes by was there. -/
def Via.Sound (db : Db) (userId tenantId : JsString) : Via → Prop
  | .oneTime invite => invite.tenantId = tenantId ∧ SentTo rt users invite userId ∧
    ∃ row ∈ db.invites, invite.Keeps row
  | .joinLink token => (tenantId, token) ∈ db.tokens

/-- The membership that was found is still there. -/
def Found (db : Db) (userId tenantId : JsString) (existing : Option Membership) : Prop :=
  ∀ m ∈ existing, m.tenantId = tenantId ∧ m.userId = userId ∧ m.active = true ∧
    ∃ row ∈ db.memberships, m.Keeps row

/-- The targets that were administrators still are. -/
def Administered (db : Db) (targets : List Target) : Prop :=
  ∀ t ∈ targets, t.locallyAdministers = true → db.locallyAdministers t.membershipId = true

/-- What an operation has read was so. -/
def Execution.Sound (db : Db) : Execution → Prop
  | .creating _ _ | .lookingUp _ _ => True
  | .redeeming userId tenantId via | .admitted userId tenantId via =>
    via.Sound rt users db userId tenantId
  | .ensuring userId tenantId via existing | .granting userId tenantId via existing _ =>
    via.Sound rt users db userId tenantId ∧ Found db userId tenantId existing
  | .syncing _ targets => Administered db targets
  | .adding _ targets membershipId stale _ _ =>
    Administered db targets ∧ db.locallyAdministers membershipId = true ∧
      ∀ a ∈ stale, a.source = .oidcGroup

/-- **What holds after every run.** -/
structure Inv (s : State) : Prop where
  rows : Rows s.db
  executions : ∀ x ∈ s.executions, x.Sound rt users s.db

end Always

/-! ## Rows that are created -/

theorem createMembership_eq_some {rows rows' : List Membership} {row : Membership} :
    createMembership rows row = some rows' ↔
      (∀ other ∈ rows, other.id ≠ row.id ∧
        (other.tenantId, other.userId) ≠ (row.tenantId, row.userId)) ∧ rows' = rows ++ [row] := by
  rw [createMembership]
  split
  · rename_i htaken
    obtain ⟨other, hother, h⟩ := List.any_eq_true.mp htaken
    refine iff_of_false (by rintro ⟨⟩) ?_
    rintro ⟨hfree, -⟩
    obtain ⟨hid, hseat⟩ := hfree other hother
    rcases of_decide_eq_true h with h | ⟨htenant, huser⟩
    · exact hid h
    · exact hseat (Prod.ext htenant huser)
  · rename_i hfree
    refine ⟨?_, ?_⟩
    · rintro ⟨⟩
      refine ⟨fun other hother => ?_, rfl⟩
      have hnot : ¬ (other.id = row.id ∨
          other.tenantId = row.tenantId ∧ other.userId = row.userId) :=
        fun h => hfree (List.any_eq_true.mpr ⟨other, hother, decide_eq_true h⟩)
      refine ⟨fun h => hnot (.inl h), fun h => hnot (.inr ?_)⟩
      exact Prod.mk.inj h
    · rintro ⟨-, rfl⟩
      rfl

theorem createRole_eq_some {rows rows' : List RoleAssignment} {row : RoleAssignment}
    (h : createRole rows row = some rows') : rows' = rows ++ [row] := by
  rw [createRole] at h
  split at h
  · cases h
  · exact (Option.some.inj h).symm

theorem mem_of_createRoles {membershipId : JsString} {source : Source} {adding : List TenantRole}
    {rows rows' : List RoleAssignment}
    (h : adding.foldlM (fun rows role => createRole rows ⟨membershipId, role, source⟩) rows =
      some rows') :
    rows ⊆ rows' ∧ ∀ a ∈ rows', a ∈ rows ∨ a.membershipId = membershipId ∧ a.source = source := by
  induction adding generalizing rows with
  | nil =>
    obtain rfl := Option.some.inj h
    exact ⟨List.Subset.refl _, fun a ha => .inl ha⟩
  | cons role adding ih =>
    rw [List.foldlM_cons] at h
    obtain ⟨rows₁, hcreate, hrest⟩ := Option.bind_eq_some_iff.mp h
    obtain rfl := createRole_eq_some hcreate
    obtain ⟨hsubset, hmem⟩ := ih hrest
    refine ⟨List.Subset.trans (List.subset_append_left _ _) hsubset, fun a ha => ?_⟩
    rcases hmem a ha with h | h
    · rcases List.mem_append.mp h with h | h
      · exact .inl h
      · obtain rfl := List.mem_singleton.mp h
        exact .inr ⟨rfl, rfl⟩
    · exact .inr h

/-- The memberships and roles after a role was given to a user of a tenant. -/
structure Ensured (db : Db) (tenantId userId : JsString) (role : TenantRole)
    (membershipId : JsString) (memberships : List Membership) (roles : List RoleAssignment) :
    Prop where
  keeps : Continues Membership.Keeps db.memberships memberships
  /-- a membership is one from before, or is new -/
  back : ∀ m' ∈ memberships,
    (∃ m ∈ db.memberships, m.Keeps m') ∨ ∀ m ∈ db.memberships, m.id ≠ m'.id
  seat : ∀ m ∈ memberships, m.id = membershipId → m.tenantId = tenantId ∧ m.userId = userId
  holder : ∃ m ∈ memberships, m.id = membershipId
  memberIds : (memberships.map Membership.id).Nodup
  seats : (memberships.map fun m => (m.tenantId, m.userId)).Nodup
  active : ∀ m ∈ memberships, m.active = true
  kept : db.roles ⊆ roles
  given : ∀ a ∈ roles, a ∈ db.roles ∨ a = ⟨membershipId, role, .local⟩

section Ensuring

variable {db : Db} {tenantId userId membershipId : JsString} {role : TenantRole}
  {memberships : List Membership} {roles : List RoleAssignment}

theorem ensured_create (hrows : Rows db) {invited : Bool}
    (hmembership : createMembership db.memberships
      ⟨membershipId, tenantId, userId, true, invited⟩ = some memberships)
    (hkept : db.roles ⊆ roles)
    (hgiven : ∀ a ∈ roles, a ∈ db.roles ∨ a = ⟨membershipId, role, .local⟩) :
    Ensured db tenantId userId role membershipId memberships roles := by
  obtain ⟨hfree, rfl⟩ := createMembership_eq_some.mp hmembership
  refine ⟨.append Membership.Keeps.refl _, ?_, ?_, ?_, ?_, ?_, ?_, hkept, hgiven⟩
  · intro m hm
    rcases List.mem_append.mp hm with hm | hm
    · exact .inl ⟨m, hm, .refl m⟩
    · obtain rfl := List.mem_singleton.mp hm
      exact .inr fun other hother => (hfree other hother).1
  · intro m hm hid
    rcases List.mem_append.mp hm with hm | hm
    · exact absurd hid (hfree m hm).1
    · obtain rfl := List.mem_singleton.mp hm
      exact ⟨rfl, rfl⟩
  · exact ⟨_, List.mem_append_right _ (List.mem_singleton_self _), rfl⟩
  · rw [List.map_append]
    refine hrows.memberIds.append (List.nodup_singleton _) (List.disjoint_singleton.mpr ?_)
    rintro hmem
    obtain ⟨other, hother, hid⟩ := List.mem_map.mp hmem
    exact (hfree other hother).1 hid
  · rw [List.map_append]
    refine hrows.seats.append (List.nodup_singleton _) (List.disjoint_singleton.mpr ?_)
    rintro hmem
    obtain ⟨other, hother, hseat⟩ := List.mem_map.mp hmem
    exact (hfree other hother).2 hseat
  · intro m hm
    rcases List.mem_append.mp hm with hm | hm
    · exact hrows.active m hm
    · obtain rfl := List.mem_singleton.mp hm
      rfl

theorem keeps_updateFound (existing row : Membership) : row.Keeps (updateFound existing row) := by
  rw [updateFound]
  split
  · exact ⟨rfl, rfl, rfl, fun _ => rfl⟩
  · exact .refl row

theorem active_updateFound {existing row : Membership} (h : row.active = true) :
    (updateFound existing row).active = true := by
  rw [updateFound]
  split
  · rw [h, Bool.or_true]
  · exact h

/-- What is written of a membership that was found. -/
def touched (existing row : Membership) : Membership :=
  if row.id = existing.id then updateFound existing row else row

theorem keeps_touched (existing row : Membership) : row.Keeps (touched existing row) := by
  rw [touched]
  split
  · exact keeps_updateFound existing row
  · exact .refl row

theorem ensured_found (hrows : Rows db) {existing : Membership}
    (hfound : Found db userId tenantId (some existing)) (hkept : db.roles ⊆ roles)
    (hgiven : ∀ a ∈ roles, a ∈ db.roles ∨ a = ⟨existing.id, role, .local⟩) :
    Ensured db tenantId userId role existing.id (db.memberships.map (touched existing)) roles := by
  obtain ⟨htenant, huser, hactive, row, hrow, hkeeps⟩ := hfound existing rfl
  have hids : (db.memberships.map (touched existing)).map Membership.id =
      db.memberships.map Membership.id := by
    rw [List.map_map]
    exact List.map_congr_left fun m _ => (keeps_touched existing m).id
  have hseats : (db.memberships.map (touched existing)).map (fun m => (m.tenantId, m.userId)) =
      db.memberships.map fun m => (m.tenantId, m.userId) := by
    rw [List.map_map]
    refine List.map_congr_left fun m _ => ?_
    have hm := keeps_touched existing m
    exact Prod.ext hm.tenantId hm.userId
  refine ⟨.map fun m _ => keeps_touched existing m, ?_, ?_, ?_, ?_, ?_, ?_, hkept, hgiven⟩
  · intro m' hm'
    obtain ⟨m, hm, rfl⟩ := List.mem_map.mp hm'
    exact .inl ⟨m, hm, keeps_touched existing m⟩
  · intro m' hm' hid
    obtain ⟨m, hm, rfl⟩ := List.mem_map.mp hm'
    have hm₁ := keeps_touched existing m
    -- only one membership has the identifier
    have hsame : m.id = row.id := hm₁.id.symm.trans (hid.trans hkeeps.id.symm)
    obtain rfl := List.inj_on_of_nodup_map hrows.memberIds hm hrow hsame
    exact ⟨hm₁.tenantId.trans (hkeeps.tenantId.trans htenant),
      hm₁.userId.trans (hkeeps.userId.trans huser)⟩
  · exact ⟨_, List.mem_map_of_mem hrow, (keeps_touched existing row).id.trans hkeeps.id⟩
  · rw [hids]
    exact hrows.memberIds
  · rw [hseats]
    exact hrows.seats
  · intro m' hm'
    obtain ⟨m, hm, rfl⟩ := List.mem_map.mp hm'
    rw [touched]
    split
    · exact active_updateFound (hrows.active m hm)
    · exact hrows.active m hm

/-- **What `ensureMembership` writes.** -/
theorem ensured_of_ensureMembership (hrows : Rows db) {existing : Option Membership}
    (hfound : Found db userId tenantId existing) {rolePresent : Bool} {draw : Draw}
    (h : db.ensureMembership tenantId userId role existing rolePresent draw =
      some (memberships, roles)) :
    Ensured db tenantId userId role (existing.elim draw.membershipId Membership.id)
      memberships roles ∧
    (existing = none → createMembership db.memberships
      ⟨draw.membershipId, tenantId, userId, true, true⟩ = some memberships) ∧
    (∀ m ∈ existing, memberships = db.memberships.map (touched m)) ∧
    roles = if rolePresent then db.roles
      else db.roles ++ [⟨existing.elim draw.membershipId Membership.id, role, .local⟩] := by
  rw [Db.ensureMembership] at h
  obtain ⟨memberships₁, hmemberships, h⟩ := Option.bind_eq_some_iff.mp h
  obtain ⟨roles₁, hroles, h⟩ := Option.bind_eq_some_iff.mp h
  obtain ⟨rfl, rfl⟩ := Prod.mk.inj (Option.some.inj h)
  have hwritten : roles₁ = if rolePresent then db.roles
      else db.roles ++ [⟨existing.elim draw.membershipId Membership.id, role, .local⟩] := by
    rw [Db.writeRole] at hroles
    split at hroles
    · rename_i hpresent
      rw [if_pos hpresent]
      exact (Option.some.inj hroles).symm
    · rename_i hpresent
      rw [if_neg hpresent]
      exact createRole_eq_some hroles
  have hkept : db.roles ⊆ roles₁ := by
    rw [hwritten]
    split
    · exact List.Subset.refl _
    · exact List.subset_append_left _ _
  have hgiven : ∀ a ∈ roles₁, a ∈ db.roles ∨
      a = ⟨existing.elim draw.membershipId Membership.id, role, .local⟩ := by
    intro a ha
    rw [hwritten] at ha
    split at ha
    · exact .inl ha
    · exact (List.mem_append.mp ha).imp_right List.mem_singleton.mp
  cases existing with
  | none =>
    refine ⟨ensured_create hrows hmemberships hkept hgiven, fun _ => hmemberships, ?_, hwritten⟩
    rintro m ⟨⟩
  | some m =>
    obtain rfl := Option.some.inj hmemberships
    refine ⟨ensured_found hrows hfound hkept hgiven, ?_, ?_, hwritten⟩
    · rintro ⟨⟩
    · rintro m' ⟨⟩
      rfl

end Ensuring

/-! ## One transaction after another -/

section Transactions

variable {rt : Runtime} {users : List User} {db db' : Db}

theorem Ensured.holders {tenantId userId membershipId : JsString} {role : TenantRole}
    {memberships : List Membership} {roles : List RoleAssignment}
    (h : Ensured db tenantId userId role membershipId memberships roles) (hrows : Rows db) :
    ∀ a ∈ roles, ∃ m ∈ memberships, m.id = a.membershipId := by
  intro a ha
  rcases h.given a ha with hold | rfl
  · obtain ⟨m, hm, hid⟩ := hrows.holders a hold
    obtain ⟨m', hm', hkeeps⟩ := h.keeps m hm
    exact ⟨m', hm', hkeeps.id.trans hid⟩
  · exact h.holder

/-- Every local role has an origin if the one that was given has. -/
theorem Ensured.stems {tenantId userId membershipId : JsString} {role : TenantRole}
    (h : Ensured db tenantId userId role membershipId db'.memberships db'.roles)
    (hrows : Rows db) (hextends : Extends db db') (hgranted : Granted rt users db)
    (hnew : ⟨membershipId, role, .local⟩ ∈ db.roles ∨ ⟨membershipId, role, .local⟩ ∉ db'.roles ∨
      ∀ m : Membership, m.tenantId = tenantId → m.userId = userId → Stems rt users db' m role) :
    ∀ a ∈ db'.roles, a.source = .local → ∀ m ∈ db'.memberships, m.id = a.membershipId →
      Stems rt users db' m a.role := by
  intro a ha hsource m hm hid
  have hold : a ∈ db.roles → Stems rt users db' m a.role := by
    intro haold
    rcases h.back m hm with ⟨m₀, hm₀, hkeeps⟩ | hfresh
    · exact hextends.stems hkeeps
        (hgranted.stems a haold hsource m₀ hm₀ (hkeeps.id.symm.trans hid))
    · obtain ⟨m₀, hm₀, hid₀⟩ := hrows.holders a haold
      exact absurd (hid₀.trans hid.symm) (hfresh m₀ hm₀)
  rcases h.given a ha with haold | rfl
  · exact hold haold
  · rcases hnew with hpresent | habsent | hstems
    · exact hold hpresent
    · exact absurd ha habsent
    · obtain ⟨htenant, huser⟩ := h.seat m hm hid
      exact hstems m htenant huser

theorem Ensured.oidc {tenantId userId membershipId : JsString} {role : TenantRole}
    (h : Ensured db tenantId userId role membershipId db'.memberships db'.roles)
    (hextends : Extends db db') (hgranted : Granted rt users db) :
    ∀ a ∈ db'.roles, a.source = .oidcGroup → db'.locallyAdministers a.membershipId = true := by
  intro a ha hsource
  rcases h.given a ha with hold | rfl
  · exact hextends.locallyAdministers (hgranted.oidc a hold hsource)
  · cases hsource

/-- A tenant is created. -/
theorem createSelfServe_spec (hrows : Rows db) {userId slug : JsString} {draw : Draw}
    (h : db.createSelfServe userId slug draw = some db') :
    Extends db db' ∧ Rows db' ∧ (Granted rt users db → Granted rt users db') := by
  rw [Db.createSelfServe] at h
  split at h
  · cases h
  · obtain ⟨memberships, hmembership, h⟩ := Option.bind_eq_some_iff.mp h
    obtain ⟨roles, hrole, h⟩ := Option.bind_eq_some_iff.mp h
    obtain rfl := Option.some.inj h
    obtain rfl := createRole_eq_some hrole
    have hensured : Ensured db draw.tenantId userId .orgAdmin draw.membershipId memberships
        (db.roles ++ [⟨draw.membershipId, .orgAdmin, .local⟩]) :=
      ensured_create hrows hmembership (List.subset_append_left _ _)
        fun a ha => (List.mem_append.mp ha).imp_right List.mem_singleton.mp
    have hextends : Extends db { db with
        tenants := db.tenants ++ [⟨draw.tenantId, slug, true, some draw.token, draw.now⟩]
        memberships := memberships
        roles := db.roles ++ [⟨draw.membershipId, .orgAdmin, .local⟩]
        creators := db.creators ++ [(draw.tenantId, userId)]
        tokens := db.tokens ++ [(draw.tenantId, draw.token)] } :=
      ⟨hensured.keeps, .refl TenantInvite.Keeps.refl _, fun a ha _ => hensured.kept ha,
        List.subset_append_left _ _, List.subset_append_left _ _, List.Subset.refl _,
        List.Subset.refl _⟩
    refine ⟨hextends, ?_, fun hgranted => ?_⟩
    · refine ⟨hensured.memberIds, hensured.seats, hrows.inviteIds, hensured.active,
        hensured.holders hrows, hrows.used, hrows.redeemed, ?_⟩
      intro t ht token htoken
      rcases List.mem_append.mp ht with ht | ht
      · exact List.mem_append_left _ (hrows.joinTokens t ht token htoken)
      · obtain rfl := List.mem_singleton.mp ht
        obtain rfl := Option.mem_some_iff.mp htoken
        exact List.mem_append_right _ (List.mem_singleton_self _)
    · refine ⟨hgranted.once, hgranted.inTime, ?_, hgranted.joins,
        hensured.oidc hextends hgranted⟩
      refine hensured.stems hrows hextends hgranted (.inr (.inr ?_))
      intro m htenant huser
      refine .created (List.mem_append_right _ ?_)
      rw [htenant, huser]
      exact List.mem_singleton_self _

/-- An invite is made. -/
theorem createInvite_spec (hrows : Rows db) {id tenantId email : JsString} {role : TenantRole}
    {draw : Draw} (h : db.createInvite rt id tenantId email role draw = some db') :
    Extends db db' ∧ Rows db' ∧ (Granted rt users db → Granted rt users db') := by
  rw [Db.createInvite] at h
  split at h
  · cases h
  · rename_i hfree
    split at h
    · obtain rfl := Option.some.inj h
      have hfresh : ∀ v ∈ db.invites, v.id ≠ id := by
        rintro v hv rfl
        exact hfree (List.any_eq_true.mpr ⟨v, hv, decide_eq_true (.inl rfl)⟩)
      have hunredeemed : ∀ r ∈ db.redemptions, r.inviteId ≠ id := by
        intro r hr hid
        obtain ⟨v, hv, hvid⟩ := hrows.redeemed r hr
        exact hfresh v hv (hvid.trans hid)
      have hextends : Extends db { db with
          invites := db.invites ++ [⟨id, tenantId, rt.normalizeEmail email, role,
            rt.hashInviteToken draw.token, draw.now + inviteTtlMs, none⟩] } :=
        { Extends.refl db with invites := .append TenantInvite.Keeps.refl _ }
      refine ⟨hextends, { hrows with inviteIds := ?_, used := ?_, redeemed := ?_ },
        fun hgranted => { hgranted with inTime := ?_, stems := ?_, oidc := hgranted.oidc }⟩
      · rw [List.map_append]
        refine hrows.inviteIds.append (List.nodup_singleton _) (List.disjoint_singleton.mpr ?_)
        intro hmem
        obtain ⟨v, hv, hvid⟩ := List.mem_map.mp hmem
        exact hfresh v hv hvid
      · intro v hv
        rcases List.mem_append.mp hv with hv | hv
        · exact hrows.used v hv
        · obtain rfl := List.mem_singleton.mp hv
          refine iff_of_true rfl ?_
          intro hmem
          obtain ⟨r, hr, hid⟩ := List.mem_map.mp hmem
          exact hunredeemed r hr hid
      · intro r hr
        obtain ⟨v, hv, hvid⟩ := hrows.redeemed r hr
        exact ⟨v, List.mem_append_left _ hv, hvid⟩
      · intro r hr v hv hid
        rcases List.mem_append.mp hv with hv | hv
        · exact hgranted.inTime r hr v hv hid
        · obtain rfl := List.mem_singleton.mp hv
          exact absurd hid.symm (hunredeemed r hr)
      · intro a ha hsource m hm hid
        exact hextends.stems (.refl m) (hgranted.stems a ha hsource m hm hid)
    · cases h

/-- A join link is replaced. -/
theorem rotateJoinLink_spec (hrows : Rows db) {tenantId : JsString} {draw : Draw}
    (h : db.rotateJoinLink tenantId draw = some db') :
    Extends db db' ∧ Rows db' ∧ (Granted rt users db → Granted rt users db') := by
  rw [Db.rotateJoinLink] at h
  split at h
  · cases h
  · split at h
    · obtain rfl := Option.some.inj h
      have hextends : Extends db { db with
          tenants := db.tenants.map fun t =>
            if t.id = tenantId then { t with joinToken := some draw.token } else t
          tokens := db.tokens ++ [(tenantId, draw.token)] } :=
        { Extends.refl db with tokens := List.subset_append_left _ _ }
      refine ⟨hextends, { hrows with joinTokens := ?_ },
        fun hgranted => { hgranted with stems := ?_, oidc := hgranted.oidc }⟩
      · intro t' ht' token htoken
        obtain ⟨t, ht, rfl⟩ := List.mem_map.mp ht'
        split at htoken
        · rename_i hid
          obtain rfl := Option.mem_some_iff.mp htoken
          rw [if_pos hid, ← hid]
          exact List.mem_append_right _ (List.mem_singleton_self _)
        · rename_i hid
          rw [if_neg hid]
          exact List.mem_append_left _ (hrows.joinTokens t ht token htoken)
      · intro a ha hsource m hm hid
        exact hextends.stems (.refl m) (hgranted.stems a ha hsource m hm hid)
    · cases h

/-- Only roles change, and no local one is lost. -/
theorem roles_spec (hrows : Rows db) {roles : List RoleAssignment} (membershipId : JsString)
    (hkept : ∀ a ∈ db.roles, a.source = .local → a ∈ roles)
    (hmem : ∀ a ∈ roles, a ∈ db.roles ∨ a.membershipId = membershipId ∧ a.source = .oidcGroup ∧
      db.locallyAdministers membershipId = true) :
    Extends db { db with roles := roles } ∧ Rows { db with roles := roles } ∧
      (Granted rt users db → Granted rt users { db with roles := roles }) := by
  have hextends : Extends db { db with roles := roles } :=
    { Extends.refl db with roles := hkept }
  refine ⟨hextends, { hrows with holders := ?_ },
    fun hgranted => { hgranted with stems := ?_, oidc := ?_ }⟩
  · intro a ha
    rcases hmem a ha with hold | ⟨hid, -, hadmin⟩
    · exact hrows.holders a hold
    · obtain ⟨m, hm, hmid⟩ := hrows.holders _ (locallyAdministers_iff.mp hadmin)
      exact ⟨m, hm, hmid.trans hid.symm⟩
  · intro a ha hsource m hm hid
    rcases hmem a ha with hold | ⟨-, hoidc, -⟩
    · exact hextends.stems (.refl m) (hgranted.stems a hold hsource m hm hid)
    · cases hsource.symm.trans hoidc
  · intro a ha hsource
    rcases hmem a ha with hold | ⟨hid, -, hadmin⟩
    · exact hextends.locallyAdministers (hgranted.oidc a hold hsource)
    · rw [hid]
      exact hextends.locallyAdministers hadmin

theorem strip_spec (hrows : Rows db) (membershipId : JsString) :
    Extends db (db.strip membershipId) ∧ Rows (db.strip membershipId) ∧
      (Granted rt users db → Granted rt users (db.strip membershipId)) := by
  refine roles_spec hrows membershipId ?_ ?_
  · intro a ha hsource
    refine List.mem_filter.mpr ⟨ha, decide_eq_true ?_⟩
    rintro ⟨-, hoidc⟩
    cases hsource.symm.trans hoidc
  · exact fun a ha => .inl (List.mem_filter.mp ha).1

theorem replaceRoles_spec (hrows : Rows db) {membershipId : JsString}
    (hadmin : db.locallyAdministers membershipId = true) {stale : List RoleAssignment}
    (hstale : ∀ a ∈ stale, a.source = .oidcGroup) {adding : List TenantRole}
    (h : db.replaceRoles membershipId stale adding = some db') :
    Extends db db' ∧ Rows db' ∧ (Granted rt users db → Granted rt users db') := by
  obtain ⟨roles, hroles, rfl⟩ := Option.map_eq_some_iff.mp h
  obtain ⟨hsubset, hmem⟩ := mem_of_createRoles hroles
  refine roles_spec hrows membershipId ?_ ?_
  · intro a ha hsource
    refine hsubset (List.mem_filter.mpr ⟨ha, decide_eq_true ?_⟩)
    intro hastale
    cases hsource.symm.trans (hstale a hastale)
  · intro a ha
    rcases hmem a ha with hold | ⟨hid, hoidc⟩
    · exact .inl (List.mem_filter.mp hold).1
    · exact .inr ⟨hid, hoidc, hadmin⟩

end Transactions

/-! ## Redemptions -/

section Redemptions

variable {rt : Runtime} {users : List User} {db : Db} {tenantId userId : JsString}
  {existing : Option Membership} {rolePresent : Bool} {draw : Draw}
  {memberships : List Membership} {roles : List RoleAssignment}

/-- An invite, marked if it is the one that was redeemed. -/
def marked (id : JsString) (now : ℤ) (v : TenantInvite) : TenantInvite :=
  if v.id = id then { v with usedAt := some now } else v

theorem keeps_marked (id : JsString) (now : ℤ) (v : TenantInvite) : v.Keeps (marked id now v) := by
  rw [marked]
  split
  · exact ⟨rfl, rfl, rfl, rfl⟩
  · exact .refl v

theorem expiresAt_marked (id : JsString) (now : ℤ) (v : TenantInvite) :
    (marked id now v).expiresAt = v.expiresAt := by
  rw [marked]
  split <;> rfl

/-- The tables after an invite was redeemed. -/
def afterOneTime (db : Db) (userId : JsString) (invite : TenantInvite) (draw : Draw)
    (memberships : List Membership) (roles : List RoleAssignment) : Db :=
  { db with
    memberships := memberships
    roles := roles
    invites := db.invites.map (marked invite.id draw.now)
    redemptions := db.redemptions ++ [⟨invite.id, userId, draw.now⟩] }

theorem oneTime_spec (hrows : Rows db) {invite : TenantInvite}
    (hvia : (Via.oneTime invite).Sound rt users db userId tenantId) {membershipId : JsString}
    (h : Ensured db tenantId userId invite.role membershipId memberships roles) :
    Extends db (afterOneTime db userId invite draw memberships roles) ∧
      Rows (afterOneTime db userId invite draw memberships roles) ∧
      (Granted rt users db →
        (Granted rt users (afterOneTime db userId invite draw memberships roles) ↔
          Timely db existing rolePresent draw (.oneTime invite))) := by
  obtain ⟨htenant, hsent, row, hrow, hkeeps⟩ := hvia
  have hextends : Extends db (afterOneTime db userId invite draw memberships roles) :=
    ⟨h.keeps, .map fun v _ => keeps_marked invite.id draw.now v, fun a ha _ => h.kept ha,
      List.Subset.refl _, List.Subset.refl _, List.subset_append_left _ _, List.Subset.refl _⟩
  have hids : (db.invites.map (marked invite.id draw.now)).map TenantInvite.id =
      db.invites.map TenantInvite.id := by
    rw [List.map_map]
    exact List.map_congr_left fun v _ => (keeps_marked invite.id draw.now v).id
  refine ⟨hextends, ?_, fun hgranted => ⟨fun hgranted' => ?_, fun htimely => ?_⟩⟩
  · refine ⟨h.memberIds, h.seats, ?_, h.active, h.holders hrows, ?_, ?_, hrows.joinTokens⟩
    · exact hids.symm ▸ hrows.inviteIds
    · intro v' hv'
      obtain ⟨v, hv, rfl⟩ := List.mem_map.mp hv'
      have hmap : (afterOneTime db userId invite draw memberships roles).redemptions.map
          Redemption.inviteId = db.redemptions.map Redemption.inviteId ++ [invite.id] :=
        List.map_append
      rw [hmap, List.mem_append, List.mem_singleton, not_or, (keeps_marked _ _ v).id, marked]
      split
      · rename_i hid
        exact iff_of_false (by rintro ⟨⟩) fun hnot => hnot.2 hid
      · rename_i hid
        rw [and_iff_left hid]
        exact hrows.used v hv
    · intro r hr
      have hmarked : ∀ v ∈ db.invites, v.id = r.inviteId →
          ∃ v' ∈ db.invites.map (marked invite.id draw.now), v'.id = r.inviteId :=
        fun v hv hid => ⟨_, List.mem_map_of_mem hv, (keeps_marked _ _ v).id.trans hid⟩
      rcases List.mem_append.mp hr with hr | hr
      · obtain ⟨v, hv, hid⟩ := hrows.redeemed r hr
        exact hmarked v hv hid
      · obtain rfl := List.mem_singleton.mp hr
        exact hmarked row hrow hkeeps.id
  · intro v hv hid
    have honce := hgranted'.once
    refine ⟨(hrows.used v hv).mpr ?_, ?_⟩
    · intro hmem
      rw [afterOneTime, List.map_append] at honce
      refine (List.nodup_append.mp honce).2.2 _ hmem _ (List.mem_singleton_self _) hid
    · have hlast : (⟨invite.id, userId, draw.now⟩ : Redemption) ∈
          db.redemptions ++ [⟨invite.id, userId, draw.now⟩] :=
        List.mem_append_right _ (List.mem_singleton_self _)
      have hlate := hgranted'.inTime _ hlast _
        (List.mem_map_of_mem (f := marked invite.id draw.now) hv)
        ((keeps_marked _ _ v).id.trans hid)
      rwa [expiresAt_marked] at hlate
  · obtain ⟨hunused, -⟩ := htimely row hrow hkeeps.id
    refine ⟨?_, ?_, ?_, hgranted.joins, h.oidc hextends hgranted⟩
    · rw [afterOneTime, List.map_append]
      refine hgranted.once.append (List.nodup_singleton _) (List.disjoint_singleton.mpr ?_)
      have hnot := (hrows.used row hrow).mp hunused
      rwa [hkeeps.id] at hnot
    · intro r hr v' hv' hid
      obtain ⟨v, hv, rfl⟩ := List.mem_map.mp hv'
      rw [expiresAt_marked]
      rw [(keeps_marked _ _ v).id] at hid
      rcases List.mem_append.mp hr with hr | hr
      · exact hgranted.inTime r hr v hv hid
      · obtain rfl := List.mem_singleton.mp hr
        exact (htimely v hv hid).2
    · refine h.stems hrows hextends hgranted (.inr (.inr ?_))
      rintro m hmtenant hmuser
      obtain ⟨row', hrow', hkeeps'⟩ := hextends.invites row hrow
      have hrole : row'.role = invite.role := hkeeps'.role.trans hkeeps.role
      rw [← hrole]
      refine .invited (List.mem_append_right _ (List.mem_singleton_self _)) hmuser.symm hrow'
        (hkeeps'.id.trans hkeeps.id) ?_ ?_
      · rw [hkeeps'.tenantId, hkeeps.tenantId, htenant, hmtenant]
      · rw [SentTo, hkeeps'.email, hkeeps.email, hmuser]
        exact hsent

/-- A membership is found by its tenant and its user. -/
theorem membership_eq_some (hseats : (db.memberships.map fun m => (m.tenantId, m.userId)).Nodup)
    {m : Membership} (hm : m ∈ db.memberships) (htenant : m.tenantId = tenantId)
    (huser : m.userId = userId) : db.membership tenantId userId = some m := by
  have hfound : (db.membership tenantId userId).isSome :=
    List.find?_isSome.mpr ⟨m, hm, decide_eq_true ⟨htenant, huser⟩⟩
  obtain ⟨other, hother⟩ := Option.isSome_iff_exists.mp hfound
  obtain ⟨htenant', huser'⟩ : other.tenantId = tenantId ∧ other.userId = userId := by
    simpa using List.find?_some hother
  have hsame : (other.tenantId, other.userId) = (m.tenantId, m.userId) :=
    Prod.ext (htenant'.trans htenant.symm) (huser'.trans huser.symm)
  rw [hother, List.inj_on_of_nodup_map hseats (List.mem_of_find?_eq_some hother) hm hsame]

theorem membership_eq_none
    (h : ∀ m ∈ db.memberships, (m.tenantId, m.userId) ≠ (tenantId, userId)) :
    db.membership tenantId userId = none := by
  refine List.find?_eq_none.mpr fun m hm hmatch => ?_
  obtain ⟨htenant, huser⟩ : m.tenantId = tenantId ∧ m.userId = userId := by simpa using hmatch
  exact h m hm (Prod.ext htenant huser)

/-- Nothing is written of a membership exactly if it was invited. -/
theorem updateFound_eq_self {m row : Membership} (hactive : row.active = true)
    (hm : m.active = true) (hkeeps : m.Keeps row) :
    updateFound m row = row ↔ row.invited = true := by
  rw [updateFound]
  split
  · refine ⟨fun h => ?_, fun h => ?_⟩
    · rw [← h]
    · obtain ⟨id, tenantId, userId, active, invited⟩ := row
      obtain rfl : active = true := hactive
      obtain rfl : invited = true := h
      rw [hm]
      rfl
  · rename_i hnone
    rw [not_or, Bool.not_eq_false, Bool.not_eq_false] at hnone
    exact iff_of_true rfl (hkeeps.invited hnone.2)

/-- The tables after a join link was used. -/
def afterJoinLink (db : Db) (tenantId userId token : JsString) (memberships : List Membership)
    (roles : List RoleAssignment) : Db :=
  { db with
    memberships := memberships
    roles := roles
    joins := db.joins ++ [⟨tenantId, userId, token, db.seat tenantId userId,
      Db.seat { db with memberships := memberships, roles := roles } tenantId userId⟩] }

/-- The membership and its roles are what they were exactly if nothing was to be written. -/
theorem seat_unchanged_iff (hrows : Rows db) (hfound : Found db userId tenantId existing)
    {role : TenantRole}
    (h : db.ensureMembership tenantId userId role existing rolePresent draw =
      some (memberships, roles)) :
    (∀ seat ∈ db.seat tenantId userId,
      Db.seat { db with memberships := memberships, roles := roles } tenantId userId =
        some seat) ↔
      ∀ m ∈ existing, rolePresent = true ∧
        ∀ row ∈ db.memberships, row.id = m.id → row.invited = true := by
  obtain ⟨hensured, hcreate, hupdate, hwritten⟩ := ensured_of_ensureMembership hrows hfound h
  cases existing with
  | none =>
    obtain ⟨hfree, -⟩ := createMembership_eq_some.mp (hcreate rfl)
    have hnone : db.seat tenantId userId = none := by
      rw [Db.seat, membership_eq_none fun m hm => (hfree m hm).2]
      rfl
    rw [hnone]
    exact iff_of_true (by rintro seat ⟨⟩) (by rintro m ⟨⟩)
  | some m =>
    obtain ⟨htenant, huser, hmactive, row, hrow, hkeeps⟩ := hfound m rfl
    obtain rfl := hupdate m rfl
    have hrowTenant := hkeeps.tenantId.trans htenant
    have hrowUser := hkeeps.userId.trans huser
    have hbefore : db.seat tenantId userId =
        some (row, db.roles.filter fun a => a.membershipId = row.id) := by
      rw [Db.seat, membership_eq_some hrows.seats hrow hrowTenant hrowUser]
      rfl
    have htouched := keeps_touched m row
    have hafter : Db.seat { db with
        memberships := db.memberships.map (touched m)
        roles := roles } tenantId userId =
        some (touched m row, roles.filter fun a => a.membershipId = (touched m row).id) := by
      have hmembership := @membership_eq_some
        { db with memberships := db.memberships.map (touched m), roles := roles }
        tenantId userId hensured.seats (touched m row) (List.mem_map_of_mem hrow)
        (htouched.tenantId.trans hrowTenant) (htouched.userId.trans hrowUser)
      rw [Db.seat, hmembership]
      rfl
    have hupdated : touched m row = updateFound m row := if_pos hkeeps.id
    have hinvited : touched m row = row ↔ row.invited = true := by
      rw [hupdated]
      exact updateFound_eq_self (hrows.active row hrow) hmactive hkeeps
    have hrolesSame : (roles.filter fun a => a.membershipId = row.id) =
        (db.roles.filter fun a => a.membershipId = row.id) ↔ rolePresent = true := by
      rw [hwritten]
      split
      · rename_i hpresent
        exact iff_of_true rfl hpresent
      · rename_i hpresent
        refine iff_of_false (fun heq => ?_) hpresent
        -- the new role is one more
        have hone : ([⟨m.id, role, .local⟩] : List RoleAssignment).filter
            (fun a => a.membershipId = row.id) = [⟨m.id, role, .local⟩] :=
          List.filter_cons_of_pos (decide_eq_true hkeeps.id.symm)
        rw [List.filter_append] at heq
        cases hone.symm.trans (List.append_right_eq_self.mp heq)
    rw [hbefore, hafter]
    refine ⟨fun hsame => ?_, fun htimely => ?_⟩
    · obtain ⟨hm, hr⟩ := Prod.mk.inj (Option.some.inj (hsame _ rfl))
      rw [htouched.id] at hr
      rintro m' ⟨⟩
      refine ⟨hrolesSame.mp hr, fun row' hrow' hid => ?_⟩
      obtain rfl := List.inj_on_of_nodup_map hrows.memberIds hrow' hrow (hid.trans hkeeps.id.symm)
      exact hinvited.mp hm
    · rintro seat ⟨⟩
      obtain ⟨hpresent, hall⟩ := htimely m rfl
      rw [htouched.id, hrolesSame.mpr hpresent, hinvited.mpr (hall row hrow hkeeps.id)]

theorem joinLink_spec (hrows : Rows db) {token : JsString}
    (hvia : (tenantId, token) ∈ db.tokens) (hfound : Found db userId tenantId existing)
    (h : db.ensureMembership tenantId userId standingJoinRole existing rolePresent draw =
      some (memberships, roles)) :
    Extends db (afterJoinLink db tenantId userId token memberships roles) ∧
      Rows (afterJoinLink db tenantId userId token memberships roles) ∧
      (Granted rt users db →
        (Granted rt users (afterJoinLink db tenantId userId token memberships roles) ↔
          Timely db existing rolePresent draw (.joinLink token))) := by
  obtain ⟨hensured, hcreate, -, hwritten⟩ := ensured_of_ensureMembership hrows hfound h
  have hextends : Extends db (afterJoinLink db tenantId userId token memberships roles) :=
    ⟨hensured.keeps, .refl TenantInvite.Keeps.refl _, fun a ha _ => hensured.kept ha,
      List.Subset.refl _, List.Subset.refl _, List.Subset.refl _, List.subset_append_left _ _⟩
  have hlast : (⟨tenantId, userId, token, db.seat tenantId userId,
      Db.seat { db with memberships := memberships, roles := roles } tenantId userId⟩ : Join) ∈
      (afterJoinLink db tenantId userId token memberships roles).joins :=
    List.mem_append_right _ (List.mem_singleton_self _)
  refine ⟨hextends, ?_, fun hgranted => ⟨fun hgranted' => ?_, fun htimely => ?_⟩⟩
  · exact ⟨hensured.memberIds, hensured.seats, hrows.inviteIds, hensured.active,
      hensured.holders hrows, hrows.used, hrows.redeemed, hrows.joinTokens⟩
  · exact (seat_unchanged_iff hrows hfound h).mp (hgranted'.joins _ hlast)
  · refine ⟨hgranted.once, hgranted.inTime, ?_, ?_, hensured.oidc hextends hgranted⟩
    · refine hensured.stems hrows hextends hgranted ?_
      cases existing with
      | none =>
        -- the user joins for the first time
        obtain ⟨hfree, -⟩ := createMembership_eq_some.mp (hcreate rfl)
        have hfirst : db.seat tenantId userId = none := by
          rw [Db.seat, membership_eq_none fun m hm => (hfree m hm).2]
          rfl
        refine .inr (.inr fun m hmtenant hmuser => ?_)
        refine .joined hlast hmtenant.symm hmuser.symm hfirst ?_
        rw [hmtenant]
        exact hvia
      | some m =>
        have hsame : roles = db.roles := by
          rw [hwritten, if_pos (htimely m rfl).1]
        by_cases hmem : (⟨m.id, standingJoinRole, .local⟩ : RoleAssignment) ∈ db.roles
        · exact .inl hmem
        · refine .inr (.inl ?_)
          rw [afterJoinLink, hsame]
          exact hmem
    · intro j hj
      rcases List.mem_append.mp hj with hj | hj
      · exact hgranted.joins j hj
      · obtain rfl := List.mem_singleton.mp hj
        exact (seat_unchanged_iff hrows hfound h).mpr htimely

/-- **What a redemption commits** keeps everything in order exactly if it does so in time. -/
theorem grant_spec (hrows : Rows db) {via : Via} (hvia : via.Sound rt users db userId tenantId)
    (hfound : Found db userId tenantId existing) :
    Extends db ((db.grant tenantId userId via existing rolePresent draw).getD db) ∧
      Rows ((db.grant tenantId userId via existing rolePresent draw).getD db) ∧
      (Granted rt users db →
        (Granted rt users ((db.grant tenantId userId via existing rolePresent draw).getD db) ↔
          (db.ensureMembership tenantId userId via.role existing rolePresent draw ≠ none →
            Timely db existing rolePresent draw via))) := by
  cases hwritten : db.ensureMembership tenantId userId via.role existing rolePresent draw with
  | none =>
    rw [Db.grant, hwritten]
    exact ⟨.refl db, hrows, fun hgranted => iff_of_true hgranted fun hnot => absurd rfl hnot⟩
  | some written =>
    obtain ⟨memberships, roles⟩ := written
    have hcommits : some (memberships, roles) ≠ none := by rintro ⟨⟩
    rw [Db.grant, hwritten]
    cases via with
    | oneTime invite =>
      obtain ⟨hextends, hrows', hiff⟩ :=
        oneTime_spec hrows hvia (ensured_of_ensureMembership hrows hfound hwritten).1
      exact ⟨hextends, hrows', fun hgranted => (hiff hgranted).trans
        ⟨fun htimely _ => htimely, fun htimely => htimely hcommits⟩⟩
    | joinLink token =>
      obtain ⟨hextends, hrows', hiff⟩ := joinLink_spec hrows hvia hfound hwritten
      exact ⟨hextends, hrows', fun hgranted => (hiff hgranted).trans
        ⟨fun htimely _ => htimely, fun htimely => htimely hcommits⟩⟩

end Redemptions

/-! ## Statement by statement -/

section Statements

variable {rt : Runtime} {users : List User} {db db' : Db} {userId tenantId : JsString}

theorem Via.Sound.mono (h : Extends db db') {via : Via}
    (hvia : via.Sound rt users db userId tenantId) : via.Sound rt users db' userId tenantId := by
  cases via with
  | oneTime invite =>
    obtain ⟨htenant, hsent, row, hrow, hkeeps⟩ := hvia
    obtain ⟨row', hrow', hkeeps'⟩ := h.invites row hrow
    exact ⟨htenant, hsent, row', hrow', hkeeps'.id.trans hkeeps.id,
      hkeeps'.tenantId.trans hkeeps.tenantId, hkeeps'.email.trans hkeeps.email,
      hkeeps'.role.trans hkeeps.role⟩
  | joinLink token => exact h.tokens hvia

theorem Found.mono (h : Extends db db') {existing : Option Membership}
    (hfound : Found db userId tenantId existing) : Found db' userId tenantId existing := by
  intro m hm
  obtain ⟨htenant, huser, hactive, row, hrow, hkeeps⟩ := hfound m hm
  obtain ⟨row', hrow', hkeeps'⟩ := h.memberships row hrow
  exact ⟨htenant, huser, hactive, row', hrow', hkeeps'.id.trans hkeeps.id,
    hkeeps'.tenantId.trans hkeeps.tenantId, hkeeps'.userId.trans hkeeps.userId,
    fun hinvited => hkeeps'.invited (hkeeps.invited hinvited)⟩

theorem Administered.mono (h : Extends db db') {targets : List Target}
    (htargets : Administered db targets) : Administered db' targets :=
  fun t ht hadmin => h.locallyAdministers (htargets t ht hadmin)

/-- What an operation has read stays true in the sense that matters. -/
theorem Execution.Sound.mono (h : Extends db db') {x : Execution}
    (hx : x.Sound rt users db) : x.Sound rt users db' := by
  cases x with
  | creating | lookingUp => trivial
  | redeeming | admitted => exact Via.Sound.mono h hx
  | ensuring | granting => exact ⟨hx.1.mono h, hx.2.mono h⟩
  | syncing => exact Administered.mono h hx
  | adding => exact ⟨hx.1.mono h, h.locallyAdministers hx.2.1, hx.2.2⟩

theorem found_membership (hrows : Rows db) :
    Found db userId tenantId (db.membership tenantId userId) := by
  intro m hm
  obtain ⟨htenant, huser⟩ : m.tenantId = tenantId ∧ m.userId = userId := by
    simpa using List.find?_some hm
  have hmem := List.mem_of_find?_eq_some hm
  exact ⟨htenant, huser, hrows.active m hmem, m, hmem, .refl m⟩

/-- A redemption that is let in goes by an invite to the user. -/
theorem sound_redeemInvite {token : JsString} {draw : Draw} {x : Execution}
    (h : redeemInvite rt users db userId token draw = some x) : x.Sound rt users db := by
  rw [redeemInvite] at h
  split at h
  · rename_i invite hinvite
    split at h
    · cases h
    · split at h
      · cases h
      · rename_i user huser
        split at h
        · cases h
        · rename_i hemail
          obtain rfl := Option.some.inj h
          have hid : user.id = userId := by simpa using List.find?_some huser
          exact ⟨rfl, ⟨user, List.mem_of_find?_eq_some huser, hid, not_ne_iff.mp hemail⟩, invite,
            List.mem_of_find?_eq_some hinvite, .refl invite⟩
  · obtain rfl := Option.some.inj h
    trivial

variable (users) in
/-- What a statement keeps, and what the execution goes by afterwards. -/
theorem proceed_sound (hrows : Rows db) {x : Execution} (hx : x.Sound rt users db) (draw : Draw) :
    Extends db (proceed users db draw x).2 ∧ Rows (proceed users db draw x).2 ∧
      ∀ y ∈ (proceed users db draw x).1, y.Sound rt users (proceed users db draw x).2 := by
  have hidle : Extends db db ∧ Rows db ∧
      ∀ y ∈ (none : Option Execution), y.Sound rt users db :=
    ⟨.refl db, hrows, by rintro y ⟨⟩⟩
  cases x with
  | creating userId slug =>
    rw [proceed]
    cases hcreate : db.createSelfServe userId slug draw with
    | none => exact hidle
    | some db' =>
      obtain ⟨hextends, hrows', -⟩ := @createSelfServe_spec rt users _ _ hrows _ _ _ hcreate
      exact ⟨hextends, hrows', by rintro y ⟨⟩⟩
  | lookingUp userId token =>
    rw [proceed]
    split
    · exact hidle
    · rename_i found hfound
      split
      · refine ⟨.refl db, hrows, ?_⟩
        rintro y ⟨⟩
        have htoken : found.joinToken = some token := by simpa using List.find?_some hfound
        exact hrows.joinTokens found (List.mem_of_find?_eq_some hfound) token htoken
      · exact hidle
  | redeeming userId tenantId via =>
    have hadmitted : Extends db db ∧ Rows db ∧ ∀ y ∈ some (Execution.admitted userId tenantId via),
        y.Sound rt users db := by
      refine ⟨.refl db, hrows, ?_⟩
      rintro y ⟨⟩
      exact hx
    cases via with
    | oneTime invite =>
      rw [proceed]
      split
      · exact hadmitted
      · exact hidle
    | joinLink token =>
      rw [proceed]
      split
      · exact hidle
      · exact hadmitted
  | admitted userId tenantId via =>
    refine ⟨.refl db, hrows, ?_⟩
    rintro y ⟨⟩
    exact ⟨hx, found_membership hrows⟩
  | ensuring userId tenantId via existing =>
    refine ⟨.refl db, hrows, ?_⟩
    rintro y ⟨⟩
    exact hx
  | granting userId tenantId via existing rolePresent =>
    obtain ⟨hextends, hrows', -⟩ :=
      @grant_spec rt users db tenantId userId existing rolePresent draw hrows via hx.1 hx.2
    exact ⟨hextends, hrows', by rintro y ⟨⟩⟩
  | syncing mapped targets =>
    cases targets with
    | nil => exact hidle
    | cons target targets =>
      have htargets : Administered db targets :=
        fun t ht => hx t (List.mem_cons_of_mem _ ht)
      rw [proceed]
      split
      · rename_i hadmin
        refine ⟨.refl db, hrows, ?_⟩
        rintro y ⟨⟩
        refine ⟨htargets, hx target (List.mem_cons_self ..) hadmin, fun a ha => ?_⟩
        exact (of_decide_eq_true (List.mem_filter.mp ha).2).2.1
      · obtain ⟨hextends, hrows', -⟩ := @strip_spec rt users _ hrows target.membershipId
        refine ⟨hextends, hrows', ?_⟩
        rintro y ⟨⟩
        exact htargets.mono hextends
  | adding mapped targets membershipId stale todo adding =>
    cases todo with
    | nil =>
      rw [proceed]
      split
      · rename_i db' hreplace
        obtain ⟨hextends, hrows', -⟩ :=
          @replaceRoles_spec rt users _ _ hrows _ hx.2.1 _ hx.2.2 _ hreplace
        refine ⟨hextends, hrows', ?_⟩
        rintro y ⟨⟩
        exact hx.1.mono hextends
      · exact hidle
    | cons role todo =>
      refine ⟨.refl db, hrows, ?_⟩
      rintro y ⟨⟩
      exact hx

/-- The statement is not one that commits what it should not. -/
theorem granted_proceed_iff (hrows : Rows db) {x : Execution} (hx : x.Sound rt users db)
    (hgranted : Granted rt users db) (draw : Draw) :
    Granted rt users (proceed users db draw x).2 ↔
      ∀ userId tenantId via existing rolePresent,
        x = .granting userId tenantId via existing rolePresent →
        db.ensureMembership tenantId userId via.role existing rolePresent draw ≠ none →
          Timely db existing rolePresent draw via := by
  have hother : (∀ userId tenantId via existing rolePresent,
      x ≠ .granting userId tenantId via existing rolePresent) →
      Granted rt users (proceed users db draw x).2 →
      (Granted rt users (proceed users db draw x).2 ↔
        ∀ userId tenantId via existing rolePresent,
          x = .granting userId tenantId via existing rolePresent →
          db.ensureMembership tenantId userId via.role existing rolePresent draw ≠ none →
            Timely db existing rolePresent draw via) :=
    fun hne h => iff_of_true h fun userId tenantId via existing rolePresent heq =>
      absurd heq (hne userId tenantId via existing rolePresent)
  cases x with
  | granting userId tenantId via existing rolePresent =>
    rw [proceed, (grant_spec hrows hx.1 hx.2).2.2 hgranted]
    refine ⟨fun h => ?_, fun h => h _ _ _ _ _ rfl⟩
    rintro _ _ _ _ _ ⟨⟩
    exact h
  | creating userId slug =>
    refine hother (by rintro _ _ _ _ _ ⟨⟩) ?_
    rw [proceed]
    cases hcreate : db.createSelfServe userId slug draw with
    | none => exact hgranted
    | some db' => exact (createSelfServe_spec hrows hcreate).2.2 hgranted
  | lookingUp userId token =>
    refine hother (by rintro _ _ _ _ _ ⟨⟩) ?_
    rw [proceed]
    split
    · exact hgranted
    · split <;> exact hgranted
  | redeeming userId tenantId via =>
    refine hother (by rintro _ _ _ _ _ ⟨⟩) ?_
    cases via with
    | oneTime invite | joinLink token =>
      rw [proceed]
      split <;> exact hgranted
  | admitted | ensuring => exact hother (by rintro _ _ _ _ _ ⟨⟩) hgranted
  | syncing mapped targets =>
    refine hother (by rintro _ _ _ _ _ ⟨⟩) ?_
    cases targets with
    | nil => exact hgranted
    | cons target targets =>
      rw [proceed]
      split
      · exact hgranted
      · exact (strip_spec hrows target.membershipId).2.2 hgranted
  | adding mapped targets membershipId stale todo adding =>
    refine hother (by rintro _ _ _ _ _ ⟨⟩) ?_
    cases todo with
    | nil =>
      rw [proceed]
      split
      · rename_i db' hreplace
        exact (replaceRoles_spec hrows hx.2.1 hx.2.2 hreplace).2.2 hgranted
      · exact hgranted
    | cons role todo => exact hgranted

end Statements

/-! ## Any order of statements -/

section Runs

variable {rt : Runtime} {users : List User}

theorem mem_put {executions : List Execution} {i : ℕ} {next : Option Execution} {x : Execution}
    (h : x ∈ put executions i next) : x ∈ executions ∨ x ∈ next := by
  cases next with
  | none => exact .inl (List.mem_of_mem_eraseIdx h)
  | some y =>
    rcases List.mem_or_eq_of_mem_set h with h | rfl
    · exact .inl h
    · exact .inr rfl

theorem inv_initial : Inv rt users .initial where
  rows := by
    refine ⟨.nil, .nil, .nil, ?_, ?_, ?_, ?_, ?_⟩ <;> intro _ h <;> cases h
  executions _ h := by cases h

theorem granted_initial : Granted rt users Db.empty := by
  refine ⟨.nil, ?_, ?_, ?_, ?_⟩ <;> intro _ h <;> cases h

/-- A transaction that is one statement leaves the operations under way as they are. -/
theorem Inv.extend {s : State} (hs : Inv rt users s) {db : Db} (hextends : Extends s.db db)
    (hrows : Rows db) : Inv rt users { s with db := db } :=
  ⟨hrows, fun x hx => (hs.executions x hx).mono hextends⟩

/-- One more operation is under way. -/
theorem Inv.add {s : State} (hs : Inv rt users s) {more : List Execution}
    (hmore : ∀ x ∈ more, x.Sound rt users s.db) :
    Inv rt users { s with executions := s.executions ++ more } := by
  refine ⟨hs.rows, fun x hx => ?_⟩
  rcases List.mem_append.mp hx with hx | hx
  · exact hs.executions x hx
  · exact hmore x hx

theorem sound_targets (db : Db) (userId : JsString) :
    Administered db ((db.memberships.filter fun m => m.userId = userId).map fun m =>
      ⟨m.id, db.locallyAdministers m.id⟩) := by
  intro t ht hadmin
  obtain ⟨m, -, rfl⟩ := List.mem_map.mp ht
  exact hadmin

/-- **Every event keeps the invariant**, and what is granted exactly if it is careful. -/
theorem step_spec {s s' : State} {e : Event} (hs : Inv rt users s)
    (h : step rt users s e = some s') :
    Inv rt users s' ∧
      (Granted rt users s.db → (Granted rt users s'.db ↔ Careful s e)) := by
  cases e with
  | createSelfServe userId slug draw =>
    rw [step] at h
    split at h
    · obtain rfl := Option.some.inj h
      exact ⟨hs, fun hgranted => iff_of_true hgranted trivial⟩
    · obtain rfl := Option.some.inj h
      refine ⟨hs.add ?_, fun hgranted => iff_of_true hgranted trivial⟩
      intro x hx
      obtain rfl := List.mem_singleton.mp hx
      trivial
  | createInvite id tenantId email role draw =>
    obtain rfl := Option.some.inj h
    cases hcreate : s.db.createInvite rt id tenantId email role draw with
    | none =>
      rw [Option.getD_none]
      exact ⟨hs, fun hgranted => iff_of_true hgranted trivial⟩
    | some db =>
      rw [Option.getD_some]
      obtain ⟨hextends, hrows, hkept⟩ := @createInvite_spec rt users _ _ hs.rows _ _ _ _ _ hcreate
      exact ⟨hs.extend hextends hrows, fun hgranted => iff_of_true (hkept hgranted) trivial⟩
  | rotateJoinLink tenantId draw =>
    obtain rfl := Option.some.inj h
    cases hrotate : s.db.rotateJoinLink tenantId draw with
    | none =>
      rw [Option.getD_none]
      exact ⟨hs, fun hgranted => iff_of_true hgranted trivial⟩
    | some db =>
      rw [Option.getD_some]
      obtain ⟨hextends, hrows, hkept⟩ := @rotateJoinLink_spec rt users _ _ hs.rows _ _ hrotate
      exact ⟨hs.extend hextends hrows, fun hgranted => iff_of_true (hkept hgranted) trivial⟩
  | redeemInvite userId token draw =>
    obtain rfl := Option.some.inj h
    refine ⟨hs.add ?_, fun hgranted => iff_of_true hgranted trivial⟩
    intro x hx
    exact sound_redeemInvite (Option.mem_toList.mp hx)
  | syncOidcGroupRoles userId mappedRoles =>
    obtain rfl := Option.some.inj h
    refine ⟨hs.add ?_, fun hgranted => iff_of_true hgranted trivial⟩
    intro x hx
    obtain rfl := List.mem_singleton.mp hx
    exact sound_targets s.db userId
  | proceed i draw =>
    obtain ⟨x, hx, rfl⟩ := Option.map_eq_some_iff.mp h
    have hsound := hs.executions x (List.mem_of_getElem? hx)
    obtain ⟨hextends, hrows, hnext⟩ := proceed_sound users hs.rows hsound draw
    refine ⟨⟨hrows, fun y hy => ?_⟩, fun hgranted => ?_⟩
    · rcases mem_put hy with hy | hy
      · exact (hs.executions y hy).mono hextends
      · exact hnext y hy
    · refine (granted_proceed_iff hs.rows hsound hgranted draw).trans ?_
      simp only [Careful, hx]
      cases x with
      | granting userId tenantId via existing rolePresent =>
        refine ⟨fun hall => hall _ _ _ _ _ rfl, fun htimely => ?_⟩
        rintro _ _ _ _ _ ⟨⟩
        exact htimely
      | _ => exact iff_of_true (by rintro _ _ _ _ _ ⟨⟩) trivial
  | crash i =>
    obtain rfl := Option.some.inj h
    refine ⟨⟨hs.rows, fun x hx => ?_⟩, fun hgranted => iff_of_true hgranted trivial⟩
    exact hs.executions x (List.mem_of_mem_eraseIdx hx)

/-- **Nobody ever holds a role that nobody granted, if and only if** every redemption that commits
finds its invite unused and not expired, or no membership that its join link would change. -/
theorem throughout_granted_iff {es : List Event} {t : State}
    (h : run (step rt users) .initial es = some t) :
    Throughout (step rt users) (fun s => Granted rt users s.db) .initial es ↔
      Always (step rt users) Careful .initial es :=
  throughout_iff_always (fun _ _ _ hs hstep => (step_spec hs hstep).1)
    (fun _ _ _ hs hgranted hstep => (step_spec hs hstep).2 hgranted) inv_initial
    granted_initial h

end Runs

/-! ## Redemptions that overlap -/

/-- Addresses in lower case, and a digest. -/
def plainRuntime : Runtime := ⟨fun email => email, fun token => js "sha256:" ++ token⟩

/-- An administrator, and two users with one address. -/
def plainUsers : List User :=
  [⟨js "admin", js "admin@example.org"⟩, ⟨js "ann", js "team@example.org"⟩,
    ⟨js "bob", js "team@example.org"⟩]

/-- What is drawn at some time. -/
def drawn (membershipId : String) (now : ℤ) : Draw :=
  ⟨js "tenant", js membershipId, js "join", now⟩

/-- A tenant is created, and an invite to it. -/
def started : List Event :=
  [.createSelfServe (js "admin") (js "slug") (drawn "m0" 0), .proceed 0 (drawn "m0" 0),
    .createInvite (js "invite") (js "tenant") (js "team@example.org") .caseManager
      ⟨[], [], js "once", 0⟩]

/-- The statements of a redemption that are left once it is let in. -/
def redeeming (i : ℕ) (membershipId : String) (now : ℤ) : List Event :=
  List.replicate 4 (.proceed i (drawn membershipId now))

/-- Two users redeem one invite, each before the other has. -/
def redeemedTwice : List Event :=
  started ++ [.redeemInvite (js "ann") (js "once") (drawn "" 1),
    .redeemInvite (js "bob") (js "once") (drawn "" 1)] ++
    redeeming 0 "m1" 2 ++ redeeming 0 "m2" 3

/-- An invite is redeemed while the same user opens the join link. -/
def joinedMeanwhile : List Event :=
  started ++ ([.redeemInvite (js "ann") (js "join") (drawn "" 1), .proceed 0 (drawn "" 1),
    .proceed 0 (drawn "" 1), .redeemInvite (js "ann") (js "once") (drawn "" 2)] : List Event) ++
    redeeming 1 "m1" 2 ++ List.replicate 3 (.proceed 0 (drawn "m2" 3))

/-- **An invite is redeemed by two users, and a join link changes a membership.** -/
theorem not_granted :
    (∃ t, run (step plainRuntime plainUsers) .initial redeemedTwice = some t ∧
      ¬ Granted plainRuntime plainUsers t.db) ∧
    ∃ t, run (step plainRuntime plainUsers) .initial joinedMeanwhile = some t ∧
      ¬ Granted plainRuntime plainUsers t.db := by
  refine ⟨?_, ?_⟩
  · obtain ⟨t, hrun, htwice⟩ : ∃ t,
        run (step plainRuntime plainUsers) .initial redeemedTwice = some t ∧
        t.db.redemptions.map Redemption.inviteId = [js "invite", js "invite"] :=
      ⟨_, rfl, rfl⟩
    refine ⟨t, hrun, fun h => ?_⟩
    have honce := h.once
    rw [htwice] at honce
    exact absurd honce (by decide)
  · obtain ⟨t, hrun, hjoins⟩ : ∃ t,
        run (step plainRuntime plainUsers) .initial joinedMeanwhile = some t ∧
        t.db.joins.map (fun j => (j.before.map fun seat => seat.2.length,
          j.after.map fun seat => seat.2.length)) = [(some 1, some 2)] :=
      ⟨_, rfl, rfl⟩
    refine ⟨t, hrun, fun h => ?_⟩
    obtain ⟨j, hj, hlengths⟩ := List.mem_map.mp (hjoins ▸ List.mem_singleton_self _)
    obtain ⟨hbefore, hafter⟩ := Prod.mk.inj hlengths
    obtain ⟨seat, hseat, hone⟩ := Option.map_eq_some_iff.mp hbefore
    rw [h.joins j hj seat hseat, Option.map_some, hone] at hafter
    cases hafter

/-- One user redeems the invite, and another one the join link. -/
def oneByOne : List Event :=
  started ++ ([.redeemInvite (js "ann") (js "once") (drawn "" 1)] : List Event) ++
    redeeming 0 "m1" 2 ++
    ([.redeemInvite (js "bob") (js "join") (drawn "" 3), .proceed 0 (drawn "" 3)] : List Event) ++
    redeeming 0 "m2" 4 ++
    ([.syncOidcGroupRoles (js "ann") [.orgAdmin], .proceed 0 (drawn "" 5)] : List Event)

/-- What happens one by one is careful. -/
theorem granted_oneByOne :
    Throughout (step plainRuntime plainUsers) (fun s => Granted plainRuntime plainUsers s.db)
      .initial oneByOne := by
  obtain ⟨t, hrun, -⟩ : ∃ t, run (step plainRuntime plainUsers) .initial oneByOne = some t ∧
      t.db.memberships.length = 3 := ⟨_, rfl, rfl⟩
  exact (throughout_granted_iff hrun).mpr (by decide +kernel)

end AegCloudDfir.Tenant.Invites
