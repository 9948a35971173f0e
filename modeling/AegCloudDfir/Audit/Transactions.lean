import AegCloudDfir.Audit.Chain
import AegCloudDfir.Lib.Transition

/-!
# The chain under concurrent transactions

Any number of transactions append audit events, each any number of times and for
any tenants, and commit or roll back. `appendAuditEvent` first takes a
transaction-scoped advisory lock for the tenant; a transaction that would have to
wait for it has no step. It then reads the committed rows and its own.

The invariant (`ChainInv`) is that for every transaction the rows it can see of a
tenant are a chain from the genesis hash on. What makes it survive a commit of
another transaction is that a transaction with uncommitted rows of a tenant holds
the tenant's lock, so there is never more than one of them.
-/

namespace AegCloudDfir

open Transition

variable {N : Type}

/-- What the database and the platform are to the audit chain. -/
structure Platform (N : Type) where
  /-- `createHash('sha256').update(text, 'utf8').digest('hex')` -/
  sha256 : JsString → JsString
  /-- the column `summary` -/
  column : JsonColumn N
  /-- `hashtextextended('audit:' || tenantId, 0)` -/
  lockKey : JsString → ℤ

/-- The table `audit_events` with what is going on around it. -/
structure AuditDb (N : Type) where
  /-- the committed rows -/
  committed : List (AuditRow N)
  /-- the uncommitted rows of a transaction -/
  pending : ℕ → List (AuditRow N)
  /-- the transaction that holds an advisory lock -/
  locks : ℤ → Option ℕ
  /-- a primary key that was never given out -/
  nextId : ℕ

namespace AuditDb

/-- No events, no transactions. -/
def empty : AuditDb N where
  committed := []
  pending := fun _ => []
  locks := fun _ => none
  nextId := 0

/-- What a transaction reads: committed rows and its own. -/
def visible (s : AuditDb N) (tx : ℕ) : List (AuditRow N) := s.committed ++ s.pending tx

/-- `pg_advisory_xact_lock(key)`, granted. -/
def lock (s : AuditDb N) (tx : ℕ) (key : ℤ) : AuditDb N :=
  { s with locks := Function.update s.locks key (some tx) }

/-- `tx` creates a row, under the next primary key. -/
def create (s : AuditDb N) (tx : ℕ) (row : AuditRow N) : AuditDb N :=
  { s with
    pending := Function.update s.pending tx (s.pending tx ++ [row])
    nextId := s.nextId + 1 }

/-- `tx` ends, leaving `rows` behind, and its locks are released. -/
def finish (s : AuditDb N) (tx : ℕ) (rows : List (AuditRow N)) : AuditDb N :=
  { s with
    committed := s.committed ++ rows
    pending := Function.update s.pending tx []
    locks := fun key => if s.locks key = some tx then none else s.locks key }

variable {s : AuditDb N} {tx tx' : ℕ}

@[simp] theorem locks_lock (key : ℤ) : (s.lock tx key).locks key = some tx :=
  Function.update_self ..

theorem locks_lock_of_ne {key key' : ℤ} (h : key' ≠ key) :
    (s.lock tx key).locks key' = s.locks key' :=
  Function.update_of_ne h ..

@[simp] theorem pending_create (row : AuditRow N) :
    (s.create tx row).pending tx = s.pending tx ++ [row] :=
  Function.update_self ..

theorem pending_create_of_ne (row : AuditRow N) (h : tx' ≠ tx) :
    (s.create tx row).pending tx' = s.pending tx' :=
  Function.update_of_ne h ..

@[simp] theorem visible_create (row : AuditRow N) :
    (s.create tx row).visible tx = s.visible tx ++ [row] := by
  rw [visible, pending_create, visible, List.append_assoc]
  rfl

theorem visible_create_of_ne (row : AuditRow N) (h : tx' ≠ tx) :
    (s.create tx row).visible tx' = s.visible tx' := by
  rw [visible, pending_create_of_ne row h]
  rfl

@[simp] theorem pending_finish (rows : List (AuditRow N)) :
    (s.finish tx rows).pending tx = [] :=
  Function.update_self ..

theorem pending_finish_of_ne (rows : List (AuditRow N)) (h : tx' ≠ tx) :
    (s.finish tx rows).pending tx' = s.pending tx' :=
  Function.update_of_ne h ..

@[simp] theorem visible_finish (rows : List (AuditRow N)) :
    (s.finish tx rows).visible tx = s.committed ++ rows := by
  rw [visible, pending_finish, List.append_nil]
  rfl

theorem visible_finish_of_ne (rows : List (AuditRow N)) (h : tx' ≠ tx) :
    (s.finish tx rows).visible tx' = s.committed ++ rows ++ s.pending tx' := by
  rw [visible, pending_finish_of_ne rows h]
  rfl

end AuditDb

/-- What a transaction does next. -/
inductive AuditAction (N : Type) : Type where
  /-- it calls `appendAuditEvent` -/
  | append (tx : ℕ) (input : AuditEventInput N) (now : ℤ)
  /-- it commits -/
  | commit (tx : ℕ)
  /-- it rolls back -/
  | rollback (tx : ℕ)

variable [JsNumber N]

/-- One step of one transaction. An `append` that throws keeps the lock. -/
def auditStep (p : Platform N) (s : AuditDb N) : AuditAction N → Option (AuditDb N)
  | .append tx input now =>
    let key := p.lockKey input.tenantId
    if s.locks key = none ∨ s.locks key = some tx then
      match appendAuditEvent p.sha256 p.column (s.visible tx) input now s.nextId with
      | .error _ => some (s.lock tx key)
      | .ok row => some ((s.lock tx key).create tx row)
    else none
  | .commit tx => some (s.finish tx (s.pending tx))
  | .rollback tx => some (s.finish tx [])

/-! ## What an append creates -/

omit [JsNumber N] in
theorem SameJson.eq_obj {es : List (JsString × JsVal N)} {w : JsVal N}
    (h : SameJson (.obj es) w) : ∃ fs, w = .obj fs := by
  cases h with
  | obj => exact ⟨_, rfl⟩

theorem serializable_summary {e : HashableEvent (JsVal N)} {sha256 : JsString → JsString}
    {prevEventHash eventHash : JsString}
    (h : computeEventHash sha256 prevEventHash e = .ok eventHash)
    (hu : e.summary.isUndefined = false) : Serializable e.summary := by
  rw [computeEventHash] at h
  rcases htext : Database.canonicalJson (.obj e.entries) with err | text
  · rw [htext] at h
    cases h
  · cases Database.serializable_of_ok htext with
    | obj hes =>
      refine hes (js "summary", e.summary) ?_ hu
      simp [HashableEvent.entries]

/-- The row that is created verifies against the head that was read. -/
theorem appendAuditEvent_eq_ok {p : Platform N} {visible : List (AuditRow N)}
    {input : AuditEventInput N} {now : ℤ} {id : ℕ} {row : AuditRow N}
    (h : appendAuditEvent p.sha256 p.column visible input now id = .ok row) :
    row.id = id ∧ row.event.tenantId = input.tenantId ∧
      row.event.sequence =
        ((findHead visible input.tenantId).map fun r => r.event.sequence).getD 0 + 1 ∧
      row.prevEventHash =
        ((findHead visible input.tenantId).map AuditRow.eventHash).getD genesisHash ∧
      computeEventHash p.sha256 row.prevEventHash row.rehashed = .ok row.eventHash := by
  rw [appendAuditEvent] at h
  set head := findHead visible input.tenantId
  set prev := (head.map AuditRow.eventHash).getD genesisHash
  set event := hashable head input now with hevent
  rcases hhash : computeEventHash p.sha256 prev event with e | eventHash
  · simp only [hhash] at h
    cases h
  · rcases hstore : p.column.store event.summary with _ | stored
    · simp only [hhash, hstore] at h
      cases h
    · simp only [hhash, hstore] at h
      cases h
      have hser : Serializable event.summary := serializable_summary hhash rfl
      have hkeyed : WellKeyed event.summary := by
        rw [hevent, hashable]
        rcases input.summary with _ | summary
        · exact .obj List.nodup_nil (by simp)
        · exact summary.wellKeyed
      have htree := p.column.canonical_store hstore hkeyed hser
      -- an object is stored as an object, which `?? {}` leaves alone
      obtain ⟨es, hes⟩ := SameJson.eq_obj (p.column.same _ _ hstore)
      have hnull : stored.val.isNullish = false := by
        rw [hes]
        rfl
      refine ⟨rfl, rfl, rfl, rfl, ?_⟩
      have hrehashed : ∀ r : AuditRow N, r.event = event.withSummary stored →
          r.rehashed = event.withSummary stored.val := by
        intro r hr
        rw [AuditRow.rehashed, hr]
        simp only [HashableEvent.withSummary, hnull]
        rfl
      rw [hrehashed _ rfl, computeEventHash_eq prev (e := event.withSummary stored.val)
        stored.tree.serializable (congrArg JsVal.isUndefined hes), HashableEvent.trees_withSummary htree, ← hhash,
        computeEventHash_eq prev hser rfl]
      rfl

/-! ## The invariant -/

/-- What holds between any two steps. -/
structure ChainInv (p : Platform N) (s : AuditDb N) : Prop where
  /-- every transaction sees a chain of every tenant -/
  chained : ∀ tx tenantId,
    Chained p.sha256 genesisHash 1 (ofTenant tenantId (s.visible tx))
  /-- uncommitted rows are behind the lock of their tenant -/
  locked : ∀ tx, ∀ r ∈ s.pending tx, s.locks (p.lockKey r.event.tenantId) = some tx
  /-- primary keys come from below `nextId` -/
  fresh : ∀ tx, ∀ r ∈ s.visible tx, r.id < s.nextId
  /-- the primary keys a transaction sees are distinct -/
  distinct : ∀ tx, ((s.visible tx).map AuditRow.id).Nodup
  /-- two transactions never have one primary key -/
  apart : ∀ tx tx', tx ≠ tx' → ∀ r ∈ s.pending tx, ∀ r' ∈ s.pending tx', r.id ≠ r'.id

variable {p : Platform N} {s : AuditDb N} {tx : ℕ}

theorem chainInv_empty (p : Platform N) : ChainInv p AuditDb.empty where
  chained _ _ := trivial
  locked _ r hr := by cases hr
  fresh _ r hr := by cases hr
  distinct _ := List.nodup_nil
  apart _ _ _ r hr := by cases hr

/-- Taking a lock that is free, or held already. -/
theorem ChainInv.lock (h : ChainInv p s) {key : ℤ}
    (hkey : s.locks key = none ∨ s.locks key = some tx) : ChainInv p (s.lock tx key) where
  chained := h.chained
  fresh := h.fresh
  distinct := h.distinct
  apart := h.apart
  locked := by
    intro tx' r hr
    have hheld := h.locked tx' r hr
    by_cases hk : p.lockKey r.event.tenantId = key
    · rw [hk] at hheld ⊢
      rw [AuditDb.locks_lock]
      rcases hkey with hfree | hmine
      · rw [hfree] at hheld
        cases hheld
      · rw [← hmine, hheld]
    · rw [AuditDb.locks_lock_of_ne hk]
      exact hheld

omit [JsNumber N] in
theorem ofTenant_singleton_ne {tenantId : JsString} {row : AuditRow N}
    (h : row.event.tenantId ≠ tenantId) : ofTenant tenantId [row] = [] := by
  simp [ofTenant, h]

omit [JsNumber N] in
theorem ofTenant_singleton (row : AuditRow N) :
    ofTenant row.event.tenantId [row] = [row] := by
  simp [ofTenant]

/-- Creating a row at the end of a chain, with the lock of its tenant held. -/
theorem ChainInv.create (h : ChainInv p s) {row : AuditRow N}
    (hlock : s.locks (p.lockKey row.event.tenantId) = some tx) (hid : row.id = s.nextId)
    (hchain : Chained p.sha256 genesisHash 1
      (ofTenant row.event.tenantId (s.visible tx) ++ [row])) :
    ChainInv p (s.create tx row) where
  chained := by
    intro tx' tenantId
    by_cases htx : tx' = tx
    · subst htx
      rw [AuditDb.visible_create, ofTenant_append]
      by_cases ht : row.event.tenantId = tenantId
      · subst ht
        rw [ofTenant_singleton]
        exact hchain
      · rw [ofTenant_singleton_ne ht, List.append_nil]
        exact h.chained tx' tenantId
    · rw [AuditDb.visible_create_of_ne row htx]
      exact h.chained tx' tenantId
  locked := by
    intro tx' r hr
    by_cases htx : tx' = tx
    · subst htx
      rw [AuditDb.pending_create] at hr
      rcases List.mem_append.mp hr with hr | hr
      · exact h.locked tx' r hr
      · rw [List.mem_singleton.mp hr]
        exact hlock
    · rw [AuditDb.pending_create_of_ne row htx] at hr
      exact h.locked tx' r hr
  fresh := by
    intro tx' r hr
    by_cases htx : tx' = tx
    · subst htx
      rw [AuditDb.visible_create] at hr
      rcases List.mem_append.mp hr with hr | hr
      · exact Nat.lt_succ_of_lt (h.fresh tx' r hr)
      · rw [List.mem_singleton.mp hr, hid]
        exact Nat.lt_succ_self _
    · rw [AuditDb.visible_create_of_ne row htx] at hr
      exact Nat.lt_succ_of_lt (h.fresh tx' r hr)
  distinct := by
    intro tx'
    by_cases htx : tx' = tx
    · subst htx
      rw [AuditDb.visible_create, List.map_append]
      refine List.nodup_append.mpr ⟨h.distinct tx', List.nodup_singleton _, ?_⟩
      intro i hi j hj
      obtain ⟨r, hr, rfl⟩ := List.mem_map.mp hi
      have hlt := h.fresh tx' r hr
      rw [List.mem_singleton.mp hj, hid]
      exact hlt.ne
    · rw [AuditDb.visible_create_of_ne row htx]
      exact h.distinct tx'
  apart := by
    have hnew : ∀ tx', ∀ r ∈ s.pending tx', r.id ≠ row.id := by
      intro tx' r hr
      rw [hid]
      exact (h.fresh tx' r (List.mem_append_right _ hr)).ne
    intro tx₁ tx₂ hne r₁ hr₁ r₂ hr₂
    by_cases h₁ : tx₁ = tx
    · subst h₁
      rw [AuditDb.pending_create] at hr₁
      rw [AuditDb.pending_create_of_ne row (Ne.symm hne)] at hr₂
      rcases List.mem_append.mp hr₁ with hr₁ | hr₁
      · exact h.apart tx₁ tx₂ hne r₁ hr₁ r₂ hr₂
      · rw [List.mem_singleton.mp hr₁]
        exact (hnew tx₂ r₂ hr₂).symm
    · rw [AuditDb.pending_create_of_ne row h₁] at hr₁
      by_cases h₂ : tx₂ = tx
      · subst h₂
        rw [AuditDb.pending_create] at hr₂
        rcases List.mem_append.mp hr₂ with hr₂ | hr₂
        · exact h.apart tx₁ tx₂ hne r₁ hr₁ r₂ hr₂
        · rw [List.mem_singleton.mp hr₂]
          exact hnew tx₁ r₁ hr₁
      · rw [AuditDb.pending_create_of_ne row h₂] at hr₂
        exact h.apart tx₁ tx₂ hne r₁ hr₁ r₂ hr₂

/-- Only one transaction has uncommitted rows of a tenant. -/
theorem ChainInv.ofTenant_pending (h : ChainInv p s) {tx' : ℕ} (hne : tx ≠ tx')
    {tenantId : JsString} (htx : ofTenant tenantId (s.pending tx) ≠ []) :
    ofTenant tenantId (s.pending tx') = [] := by
  obtain ⟨r, hr⟩ := List.exists_mem_of_ne_nil _ htx
  obtain ⟨hr, hrt⟩ := List.mem_filter.mp hr
  refine List.filter_eq_nil_iff.mpr fun r' hr' hr't => hne ?_
  have hlock := h.locked tx r hr
  have hlock' := h.locked tx' r' hr'
  rw [of_decide_eq_true hrt] at hlock
  rw [of_decide_eq_true hr't, hlock] at hlock'
  exact Option.some.inj hlock'

/-- Ending a transaction, with its rows or without. -/
theorem ChainInv.finish (h : ChainInv p s) {rows : List (AuditRow N)}
    (hrows : rows = s.pending tx ∨ rows = []) : ChainInv p (s.finish tx rows) := by
  have hsub : rows.Sublist (s.pending tx) := by
    rcases hrows with rfl | rfl
    · exact .refl _
    · exact List.nil_sublist _
  refine { chained := ?_, locked := ?_, fresh := ?_, distinct := ?_, apart := ?_ }
  · intro tx' tenantId
    have hown : Chained p.sha256 genesisHash 1 (ofTenant tenantId (s.committed ++ rows)) := by
      rcases hrows with rfl | rfl
      · exact h.chained tx tenantId
      · have hall := h.chained tx tenantId
        rw [AuditDb.visible, ofTenant_append] at hall
        rw [List.append_nil]
        exact (Chained.append.mp hall).1
    by_cases htx : tx' = tx
    · subst htx
      rw [AuditDb.visible_finish]
      exact hown
    · rw [AuditDb.visible_finish_of_ne rows htx]
      by_cases hnone : ofTenant tenantId rows = []
      · rw [ofTenant_append, ofTenant_append, hnone, List.append_nil, ← ofTenant_append]
        exact h.chained tx' tenantId
      · -- `tx` has rows of the tenant, so `tx'` has none
        obtain rfl : rows = s.pending tx := by
          rcases hrows with hrows | rfl
          · exact hrows
          · exact absurd rfl hnone
        rw [ofTenant_append, h.ofTenant_pending (Ne.symm htx) hnone, List.append_nil]
        exact hown
  · intro tx' r hr
    by_cases htx : tx' = tx
    · subst htx
      rw [AuditDb.pending_finish] at hr
      cases hr
    · rw [AuditDb.pending_finish_of_ne rows htx] at hr
      have hheld := h.locked tx' r hr
      simp only [AuditDb.finish]
      rw [hheld, if_neg fun heq => htx (Option.some.inj heq)]
  · have hcommitted : ∀ r ∈ s.committed ++ rows, r.id < s.nextId := by
      intro r hr
      exact h.fresh tx r (((List.Sublist.refl _).append hsub).subset hr)
    intro tx' r hr
    by_cases htx : tx' = tx
    · subst htx
      rw [AuditDb.visible_finish] at hr
      exact hcommitted r hr
    · rw [AuditDb.visible_finish_of_ne rows htx] at hr
      rcases List.mem_append.mp hr with hr | hr
      · exact hcommitted r hr
      · exact h.fresh tx' r (List.mem_append_right _ hr)
  · have hcommitted : ((s.committed ++ rows).map AuditRow.id).Nodup :=
      (h.distinct tx).sublist (((List.Sublist.refl _).append hsub).map _)
    intro tx'
    by_cases htx : tx' = tx
    · subst htx
      rw [AuditDb.visible_finish]
      exact hcommitted
    · rw [AuditDb.visible_finish_of_ne rows htx, List.map_append]
      have hother := h.distinct tx'
      rw [AuditDb.visible, List.map_append] at hother
      obtain ⟨-, hpending, hdisjoint⟩ := List.nodup_append.mp hother
      refine List.nodup_append.mpr ⟨hcommitted, hpending, ?_⟩
      intro i hi j hj
      rw [List.map_append] at hi
      rcases List.mem_append.mp hi with hi | hi
      · exact hdisjoint i hi j hj
      · obtain ⟨r, hr, rfl⟩ := List.mem_map.mp hi
        obtain ⟨r', hr', rfl⟩ := List.mem_map.mp hj
        exact h.apart tx tx' (Ne.symm htx) r (hsub.subset hr) r' hr'
  · intro tx₁ tx₂ hne r₁ hr₁ r₂ hr₂
    have hstill : ∀ {tx' r}, r ∈ (s.finish tx rows).pending tx' → r ∈ s.pending tx' := by
      intro tx' r hr
      by_cases htx : tx' = tx
      · subst htx
        rw [AuditDb.pending_finish] at hr
        cases hr
      · rwa [AuditDb.pending_finish_of_ne rows htx] at hr
    exact h.apart tx₁ tx₂ hne r₁ (hstill hr₁) r₂ (hstill hr₂)

/-- The row that was created continues the chain. -/
theorem chained_created {visible : List (AuditRow N)} {row : AuditRow N}
    (h : Chained p.sha256 genesisHash 1 (ofTenant row.event.tenantId visible))
    (hseq : row.event.sequence =
      ((findHead visible row.event.tenantId).map fun r => r.event.sequence).getD 0 + 1)
    (hprev : row.prevEventHash =
      ((findHead visible row.event.tenantId).map AuditRow.eventHash).getD genesisHash)
    (hhash : computeEventHash p.sha256 row.prevEventHash row.rehashed = .ok row.eventHash) :
    Chained p.sha256 genesisHash 1 (ofTenant row.event.tenantId visible ++ [row]) := by
  rw [h.findHead_eq] at hseq hprev
  rw [h.last_sequence] at hseq
  rw [hprev] at hhash
  exact Chained.append.mpr ⟨h, hseq.trans (Int.add_comm _ _), hprev, hhash, trivial⟩

theorem chainInv_step {s' : AuditDb N} {a : AuditAction N} (h : ChainInv p s)
    (hs : auditStep p s a = some s') : ChainInv p s' := by
  cases a with
  | append tx input now =>
    rw [auditStep] at hs
    by_cases hkey : s.locks (p.lockKey input.tenantId) = none ∨
        s.locks (p.lockKey input.tenantId) = some tx
    · rw [if_pos hkey] at hs
      rcases happ : appendAuditEvent p.sha256 p.column (s.visible tx) input now s.nextId
        with e | row
      · simp only [happ] at hs
        cases hs
        exact h.lock hkey
      · simp only [happ] at hs
        cases hs
        obtain ⟨hid, htenant, hseq, hprev, hhash⟩ := appendAuditEvent_eq_ok happ
        rw [← htenant] at hseq hprev hkey
        rw [← htenant]
        exact (h.lock hkey).create (AuditDb.locks_lock _) hid
          (chained_created (h.chained tx _) hseq hprev hhash)
    · rw [if_neg hkey] at hs
      cases hs
  | commit tx =>
    cases hs
    exact h.finish (.inl rfl)
  | rollback tx =>
    cases hs
    exact h.finish (.inr rfl)

/-! ## The chain is complete -/

/-- A chain verifies, whatever the page size. -/
theorem Chained.verify {sha256 : JsString → JsString} {table : List (AuditRow N)}
    {tenantId : JsString} (h : Chained sha256 genesisHash 1 (ofTenant tenantId table))
    (hid : (table.map AuditRow.id).Nodup) {pageSize : ℕ} (hsize : 1 ≤ pageSize) :
    verifyAuditChain sha256 table tenantId pageSize =
      some (.ok ⟨true, (tenantEvents table tenantId).length, none, []⟩) := by
  have hevents := h.tenantEvents_eq
  have hnodup : ((tenantEvents table tenantId).map AuditRow.id).Nodup := by
    rw [hevents]
    exact hid.sublist (List.filter_sublist.map AuditRow.id)
  refine ((verifyAuditChain_valid_iff hsize hnodup).mpr ⟨?_, rfl⟩).1
  rw [hevents]
  exact h

/-- **The chain is complete after every run**: the committed events of a tenant are
numbered from 1 without gaps, each holds the hash of the one before it, and
`verifyAuditChain` finds them valid and counts them all. -/
theorem auditChain_complete {p : Platform N} {actions : List (AuditAction N)} {s : AuditDb N}
    (h : run (auditStep p) .empty actions = some s) (tenantId : JsString) :
    (tenantEvents s.committed tenantId).map (fun r => r.event.sequence) =
        (List.range (tenantEvents s.committed tenantId).length).map (fun i : ℕ => 1 + (i : ℤ)) ∧
      (tenantEvents s.committed tenantId).map AuditRow.prevEventHash =
        (genesisHash :: (tenantEvents s.committed tenantId).map AuditRow.eventHash).dropLast ∧
      ∀ pageSize, 1 ≤ pageSize →
        verifyAuditChain p.sha256 s.committed tenantId pageSize =
          some (.ok ⟨true, (tenantEvents s.committed tenantId).length, none, []⟩) := by
  have hinv : ChainInv p s :=
    run_induction (fun _ _ _ hs hstep => chainInv_step hs hstep) (chainInv_empty p) h
  have hchain : Chained p.sha256 genesisHash 1 (ofTenant tenantId s.committed) := by
    have hall := hinv.chained 0 tenantId
    rw [AuditDb.visible, ofTenant_append] at hall
    exact (Chained.append.mp hall).1
  have hid : (s.committed.map AuditRow.id).Nodup :=
    (hinv.distinct 0).sublist ((List.sublist_append_left _ _).map AuditRow.id)
  refine ⟨?_, ?_, fun pageSize hsize => hchain.verify hid hsize⟩
  · rw [hchain.tenantEvents_eq]
    exact hchain.sequence
  · rw [hchain.tenantEvents_eq]
    exact hchain.prevEventHash

/-! One event committed, a second one rolled back. -/

/-- An event without details. -/
def exampleInput : AuditEventInput ℤ where
  tenantId := js "t1"
  actorUserId := none
  actorDisplay := none
  effectiveRoles := none
  action := js "case.create"
  targetType := none
  targetId := none
  requestId := none
  ipAddress := none
  userAgent := none
  summary := none

/-- The text of `exampleInput` with a sequence number, at time 0. -/
def exampleText (sequence : String) : JsString :=
  js "\x7b\"action\":\"case.create\",\"actorDisplay\":\"\",\"actorUserId\":\"\"," ++
    js "\"effectiveRoles\":[],\"ipAddress\":\"\",\"occurredAt\":\"1970-01-01T00:00:00.000Z\"," ++
    js "\"requestId\":\"\",\"sequence\":\"" ++ js sequence ++
    js "\",\"summary\":\x7b\x7d,\"targetId\":\"\",\"targetType\":\"\"," ++
    js "\"tenantId\":\"t1\",\"userAgent\":\"\"\x7d"

/-- The SHA-256 digest of the first event. -/
def exampleHash : JsString :=
  js "8d39289656cd9029b4164e270dbdb428d09094034e28b04ae74370c4214c78b4"

/-- A platform that knows the digests of the two texts that are hashed, and stores
the empty object. -/
def examplePlatform : Platform ℤ where
  sha256 text :=
    if text = genesisHash ++ exampleText "1" then exampleHash
    else if text = exampleHash ++ exampleText "2" then
      js "77ce289638683407ca41557b2cdc458d4808102785ce2dad5ec80543dd21b51e"
    else []
  column :=
    { store := fun v =>
        match v with
        | .obj [] => some ⟨.obj [], .obj List.nodup_nil (by simp), rfl⟩
        | _ => none
      same := by
        intro v w h
        split at h
        · cases h
          exact .obj (by simp [stringifiedEntries]) (by simp [stringifiedEntries])
        · cases h }
  lockKey _ := 0

theorem canonicalJson_exampleInput :
    Database.canonicalJson (.obj (hashable none exampleInput 0).entries) =
      .ok (exampleText "1") := by
  rw [exampleText, hashable, exampleInput, HashableEvent.entries]
  repeat rw [js_ofList]
  decide +kernel

/-- The first event is stored with the digest of the text that starts the chain. -/
theorem appendAuditEvent_example : ∃ row,
    appendAuditEvent examplePlatform.sha256 examplePlatform.column [] exampleInput 0 0 = .ok row ∧
      row.eventHash = exampleHash ∧ row.event.tenantId = js "t1" := by
  have hsha256 : examplePlatform.sha256 (genesisHash ++ exampleText "1") = exampleHash := by
    simp only [examplePlatform, if_true]
  have hcompute : computeEventHash examplePlatform.sha256 genesisHash
      (hashable none exampleInput 0) = .ok exampleHash := by
    rw [computeEventHash, canonicalJson_exampleInput]
    exact congrArg Except.ok hsha256
  have hhead : findHead ([] : List (AuditRow ℤ)) exampleInput.tenantId = none := rfl
  rw [appendAuditEvent, hhead, Option.map_none, Option.getD_none, hcompute]
  exact ⟨_, rfl, rfl, rfl⟩

/-- An append that does not wait leaves what is committed alone. -/
theorem auditStep_append_committed (s : AuditDb ℤ) (tx : ℕ) (hfree : s.locks 0 = none) :
    ∃ s', auditStep examplePlatform s (.append tx exampleInput 0) = some s' ∧
      s'.committed = s.committed := by
  have hkey : examplePlatform.lockKey exampleInput.tenantId = 0 := rfl
  simp only [auditStep, hkey]
  rw [if_pos (.inl hfree)]
  cases appendAuditEvent examplePlatform.sha256 examplePlatform.column (s.visible tx) exampleInput 0
      s.nextId with
  | error e => exact ⟨_, rfl, rfl⟩
  | ok row => exact ⟨_, rfl, rfl⟩

theorem auditChain_complete_example :
    ∃ s, run (auditStep examplePlatform) .empty
        [.append 1 exampleInput 0, .commit 1, .append 2 exampleInput 0, .rollback 2] = some s ∧
      (tenantEvents s.committed (js "t1")).map AuditRow.eventHash = [exampleHash] ∧
      (tenantEvents s.committed (js "t1")).map (fun r => r.event.sequence) =
        (List.range (tenantEvents s.committed (js "t1")).length).map
          (fun i : ℕ => 1 + (i : ℤ)) ∧
      (tenantEvents s.committed (js "t1")).map AuditRow.prevEventHash =
        (genesisHash :: (tenantEvents s.committed (js "t1")).map AuditRow.eventHash).dropLast ∧
      ∀ pageSize, 1 ≤ pageSize →
        verifyAuditChain examplePlatform.sha256 s.committed (js "t1") pageSize =
          some (.ok ⟨true, (tenantEvents s.committed (js "t1")).length, none, []⟩) := by
  obtain ⟨row, happend, hhash, htenant⟩ := appendAuditEvent_example
  have hfirst : auditStep examplePlatform .empty (.append 1 exampleInput 0) =
      some ((AuditDb.empty.lock 1 0).create 1 row) := by
    have hvisible : (AuditDb.empty : AuditDb ℤ).visible 1 = [] := rfl
    have hnext : (AuditDb.empty : AuditDb ℤ).nextId = 0 := rfl
    have hkey : examplePlatform.lockKey exampleInput.tenantId = 0 := rfl
    simp only [auditStep, hvisible, hnext, happend, hkey]
    exact if_pos (.inl rfl)
  have hcommit : auditStep examplePlatform ((AuditDb.empty.lock 1 0).create 1 row) (.commit 1) =
      some (((AuditDb.empty.lock 1 0).create 1 row).finish 1 [row]) := by
    have hpending : ((AuditDb.empty.lock 1 0).create 1 row).pending 1 = [row] :=
      AuditDb.pending_create row
    rw [auditStep, hpending]
  obtain ⟨s, hsecond, hcommitted⟩ := auditStep_append_committed
    (((AuditDb.empty.lock 1 0).create 1 row).finish 1 [row]) 2 rfl
  have hrun : run (auditStep examplePlatform) .empty
      [.append 1 exampleInput 0, .commit 1, .append 2 exampleInput 0, .rollback 2] =
        some (s.finish 2 []) := by
    rw [run, hfirst, Option.bind_some, run, hcommit, Option.bind_some, run, hsecond]
    rfl
  have hrows : (s.finish 2 []).committed = [row] := by
    show s.committed ++ [] = [row]
    rw [hcommitted]
    rfl
  have hevents : (tenantEvents (s.finish 2 []).committed (js "t1")).map AuditRow.eventHash =
      [exampleHash] := by
    have hone : tenantEvents [row] (js "t1") = [row] := by simp [tenantEvents, ofTenant, htenant]
    rw [hrows, hone, List.map_singleton, hhash]
  exact ⟨s.finish 2 [], hrun, hevents, auditChain_complete hrun (js "t1")⟩

end AegCloudDfir
