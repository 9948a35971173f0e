import AegCloudDfir.Dispatch.Dispatcher

/-!
# Delivery through the outbox

What the outbox promises, whatever the replicas, the queue and the crashes do (`Delivered`):
a dispatched row has a job that the queue stored, a failed row has had all its attempts, and
every job that was ever sent for a row is the job of that row. And no row is lost: a pending
row stays in the outbox, and a row that is through stays as it is (`Kept`).

The locks carry the proof. What a claim has read is still stored as long as its transaction
lives, so a claim only counts up the attempts that it finds (`RowLocks.Table.Sound`). Jobs and
rows outlive a claim that crashes; `ClaimSound` says what a running claim may already rely on.
-/

namespace AegCloudDfir.Dispatch

open Transition RowLocks

variable {ρ N : Type} {options : DispatcherOptions}

/-! ## Rows over time -/

/-- The rows are of one event: nothing but its progress differs. -/
structure SameEvent (row row' : OutboxEvent N) : Prop where
  id : row'.id = row.id
  tenantId : row'.tenantId = row.tenantId
  topic : row'.topic = row.topic
  dedupKey : row'.dedupKey = row.dedupKey
  payload : row'.payload = row.payload

theorem SameEvent.refl (row : OutboxEvent N) : SameEvent row row := ⟨rfl, rfl, rfl, rfl, rfl⟩

theorem SameEvent.trans {a b c : OutboxEvent N} (h : SameEvent a b) (h' : SameEvent b c) :
    SameEvent a c :=
  ⟨h'.id.trans h.id, h'.tenantId.trans h.tenantId, h'.topic.trans h.topic,
    h'.dedupKey.trans h.dedupKey, h'.payload.trans h.payload⟩

/-- Rows of one event have one job. -/
theorem SameEvent.job_eq {row row' : OutboxEvent N} (h : SameEvent row row') :
    row'.job = row.job := by
  simp only [OutboxEvent.job, OutboxEvent.data, h.id, h.tenantId, h.topic, h.dedupKey, h.payload]

/-- A row goes on as the event it is, and once it is through nothing happens to it. -/
structure Kept (row row' : OutboxEvent N) : Prop where
  same : SameEvent row row'
  final : row.status ≠ .pending → row' = row

theorem Kept.refl (row : OutboxEvent N) : Kept row row := ⟨.refl row, fun _ => rfl⟩

theorem Kept.trans {a b c : OutboxEvent N} (h : Kept a b) (h' : Kept b c) : Kept a c := by
  refine ⟨h.same.trans h'.same, fun hfinal => ?_⟩
  obtain rfl := h.final hfinal
  exact h'.final hfinal

/-! ## The invariant -/

/-- What a claim has read and done. -/
structure ClaimSound (options : DispatcherOptions) (s : State ρ N) (claim : Claim N) : Prop where
  pending : ∀ row ∈ claim.rows, row.status = .pending
  known : Continues SameEvent claim.rows s.rows
  todo : ∀ row ∈ claim.todo, row ∈ claim.rows
  nodup : (claim.failed.map FailedAttempt.id ++ claim.todo.map OutboxEvent.id).Nodup
  failed : ∀ update ∈ claim.failed, ∃ row ∈ claim.rows, ∃ message,
    update = failedAttempt options row message
  dispatched : ∀ id ∈ claim.dispatched, (∃ row ∈ claim.rows, row.id = id) ∧
    ∃ sent ∈ s.sent, sent.eventId = id ∧ sent.stored

/-- A row knows its attempts, and is what they make of it. -/
structure RowSound (options : DispatcherOptions) (s : State ρ N) (row : OutboxEvent N) :
    Prop where
  attempts : row.attempts = s.failures.count row.id
  pending : row.status = .pending → row.attempts < max options.maxAttempts 1
  failed : row.status = .failed → row.attempts = max options.maxAttempts 1
  dispatched : row.status = .dispatched → ∃ sent ∈ s.sent, sent.eventId = row.id ∧ sent.stored

/-- **The invariant.** -/
structure Sound (options : DispatcherOptions) (s : State ρ N) : Prop where
  table : s.table.Sound OutboxEvent.id
  claims : ∀ replica claim, s.running replica = some claim → ClaimSound options s claim
  rows : ∀ row ∈ s.rows, RowSound options s row
  sent : ∀ sent ∈ s.sent, ∃ row ∈ s.rows, row.id = sent.eventId ∧ row.job = .ok sent.job
  failures : ∀ id ∈ s.failures, id ∈ s.rows.map OutboxEvent.id

theorem Sound.empty : Sound options (State.empty : State ρ N) where
  table := Table.Sound.empty
  claims _ _ h := by cases h
  rows _ hrow := absurd hrow List.not_mem_nil
  sent _ hsent := absurd hsent List.not_mem_nil
  failures _ hid := absurd hid List.not_mem_nil

/-! ## Claims -/

section Claims

variable {s s' : State ρ N} {claim : Claim N} {row : OutboxEvent N} {todo : List (OutboxEvent N)}

/-- A claim stays sound while others work. -/
theorem ClaimSound.mono (h : ClaimSound options s claim)
    (hrows : Continues SameEvent s.rows s'.rows) (hsent : s.sent ⊆ s'.sent) :
    ClaimSound options s' claim :=
  { h with
    known := h.known.trans (fun _ _ _ => SameEvent.trans) hrows
    dispatched := fun id hid => by
      obtain ⟨hrow, sent, hmem, hstored⟩ := h.dispatched id hid
      exact ⟨hrow, sent, hsent hmem, hstored⟩ }

theorem ClaimSound.expire (h : ClaimSound options s claim) :
    ClaimSound options s { claim with live := false } :=
  ⟨h.pending, h.known, h.todo, h.nodup, h.failed, h.dispatched⟩

/-- A job has been stored. -/
theorem ClaimSound.enqueued (h : ClaimSound options s claim) (htodo : claim.todo = row :: todo)
    (hsent : ∃ sent ∈ s.sent, sent.eventId = row.id ∧ sent.stored) :
    ClaimSound options s
      { claim with todo, dispatched := claim.dispatched ++ [row.id] } where
  pending := h.pending
  known := h.known
  todo r hr := h.todo r (htodo ▸ List.mem_cons_of_mem _ hr)
  nodup := by
    have hnodup := h.nodup
    rw [htodo, List.map_cons] at hnodup
    exact hnodup.sublist ((List.sublist_cons_self ..).append_left _)
  failed := h.failed
  dispatched id hid := by
    rcases List.mem_append.mp hid with hid | hid
    · exact h.dispatched id hid
    · obtain rfl := List.mem_singleton.mp hid
      exact ⟨⟨row, h.todo row (htodo ▸ List.mem_cons_self ..), rfl⟩, hsent⟩

/-- An attempt has failed. -/
theorem ClaimSound.notEnqueued (h : ClaimSound options s claim)
    (htodo : claim.todo = row :: todo) (message : JsString) :
    ClaimSound options s
      { claim with todo, failed := claim.failed ++ [failedAttempt options row message] } where
  pending := h.pending
  known := h.known
  todo r hr := h.todo r (htodo ▸ List.mem_cons_of_mem _ hr)
  nodup := by
    have hnodup := h.nodup
    rw [htodo, List.map_cons] at hnodup
    rw [List.map_append, List.append_assoc]
    exact hnodup
  failed update hupdate := by
    rcases List.mem_append.mp hupdate with hupdate | hupdate
    · exact h.failed update hupdate
    · exact ⟨row, h.todo row (htodo ▸ List.mem_cons_self ..), message,
        List.mem_singleton.mp hupdate⟩
  dispatched := h.dispatched

/-- Updates are of claimed rows. -/
theorem ClaimSound.mem_of_failed (h : ClaimSound options s claim) {update : FailedAttempt}
    (hupdate : update ∈ claim.failed) : update.id ∈ claim.rows.map OutboxEvent.id := by
  obtain ⟨row, hrow, message, rfl⟩ := h.failed update hupdate
  exact List.mem_map.mpr ⟨row, hrow, rfl⟩

end Claims

/-! ## What a commit writes -/

section Writes

variable {s : State ρ N} {claim : Claim N} {row : OutboxEvent N}

theorem sameEvent_writeFailed (claim : Claim N) (row : OutboxEvent N) :
    SameEvent row (claim.writeFailed row) := by
  rw [Claim.writeFailed]
  split
  · exact ⟨rfl, rfl, rfl, rfl, rfl⟩
  · exact .refl row

theorem sameEvent_write (claim : Claim N) (row : OutboxEvent N) :
    SameEvent row (claim.write row) := by
  obtain ⟨hid, htenantId, htopic, hdedupKey, hpayload⟩ := sameEvent_writeFailed claim row
  rw [Claim.write]
  split_ifs
  · exact ⟨hid, htenantId, htopic, hdedupKey, hpayload⟩
  · exact ⟨hid, htenantId, htopic, hdedupKey, hpayload⟩

theorem find?_failed_eq_none {id : JsString} (h : id ∉ claim.failed.map FailedAttempt.id) :
    claim.failed.find? (fun update => update.id = id) = none := by
  apply List.find?_eq_none.mpr
  intro update hupdate hid
  exact h (List.mem_map.mpr ⟨update, hupdate, of_decide_eq_true hid⟩)

/-- Rows that are not claimed stay as they are. -/
theorem ClaimSound.write_eq (h : ClaimSound options s claim)
    (hrow : row.id ∉ claim.rows.map OutboxEvent.id) : claim.write row = row := by
  have hfailed : row.id ∉ claim.failed.map FailedAttempt.id := by
    intro hmem
    obtain ⟨update, hupdate, hid⟩ := List.mem_map.mp hmem
    exact hrow (hid ▸ h.mem_of_failed hupdate)
  have hdispatched : row.id ∉ claim.dispatched := by
    intro hmem
    obtain ⟨⟨r, hr, hid⟩, -⟩ := h.dispatched row.id hmem
    exact hrow (List.mem_map.mpr ⟨r, hr, hid⟩)
  rw [Claim.write, if_neg hdispatched, Claim.writeFailed, find?_failed_eq_none hfailed]

variable {s' : State ρ N}

/-- **A claimed row after the updates of failed attempts** has one attempt more, if there is
an update of it. -/
theorem ClaimSound.rowSound_writeFailed (h : ClaimSound options s claim)
    (hrow : RowSound options s row) (hclaimed : row ∈ claim.rows)
    (hone : ∀ row' ∈ claim.rows, row'.id = row.id → row' = row)
    (hfailures : s'.failures = s.failures ++ claim.failed.map FailedAttempt.id) :
    RowSound options s' (claim.writeFailed row) := by
  have hpending := h.pending row hclaimed
  have hcount : s'.failures.count row.id =
      row.attempts + (claim.failed.map FailedAttempt.id).count row.id := by
    rw [hfailures, List.count_append, ← hrow.attempts]
  by_cases hmem : row.id ∈ claim.failed.map FailedAttempt.id
  · obtain ⟨update, hfind⟩ : ∃ update,
        claim.failed.find? (fun update => update.id = row.id) = some update := by
      obtain ⟨update, hupdate, hid⟩ := List.mem_map.mp hmem
      exact Option.isSome_iff_exists.mp
        (List.find?_isSome.mpr ⟨update, hupdate, decide_eq_true hid⟩)
    rw [List.count_eq_one_of_mem (List.nodup_append.mp h.nodup).1 hmem] at hcount
    -- the update is made from the row as the claim has read it, and that is the row
    obtain ⟨row', hrow', message, rfl⟩ := h.failed update (List.mem_of_find?_eq_some hfind)
    have hid : row'.id = row.id := by simpa [failedAttempt] using List.find?_some hfind
    obtain rfl := hone row' hrow' hid
    have hlimit := hrow.pending hpending
    rw [Claim.writeFailed, hfind]
    refine ⟨hcount.symm, ?_, ?_, ?_⟩
    · intro hstatus
      simp only [failedAttempt] at hstatus ⊢
      split_ifs at hstatus with hmax
      exact lt_max_of_lt_left (not_le.mp hmax)
    · intro hstatus
      simp only [failedAttempt] at hstatus ⊢
      split_ifs at hstatus with hmax
      omega
    · intro hstatus
      simp only [failedAttempt] at hstatus
      split_ifs at hstatus
  · rw [List.count_eq_zero_of_not_mem hmem] at hcount
    rw [Claim.writeFailed, find?_failed_eq_none hmem]
    refine ⟨hcount.symm, hrow.pending, hrow.failed, fun hstatus => ?_⟩
    rw [hpending] at hstatus
    cases hstatus

/-- **A claimed row after the commit.** -/
theorem ClaimSound.rowSound_write (h : ClaimSound options s claim) (hrow : RowSound options s row)
    (hclaimed : row ∈ claim.rows)
    (hone : ∀ row' ∈ claim.rows, row'.id = row.id → row' = row) (hsent : s'.sent = s.sent)
    (hfailures : s'.failures = s.failures ++ claim.failed.map FailedAttempt.id) :
    RowSound options s' (claim.write row) := by
  have hfailed := h.rowSound_writeFailed hrow hclaimed hone hfailures
  rw [Claim.write]
  split_ifs with hdispatched
  · -- its job has been stored
    obtain ⟨-, hjob⟩ := h.dispatched row.id hdispatched
    rw [← hsent, ← (sameEvent_writeFailed claim row).id] at hjob
    exact ⟨hfailed.attempts, fun hstatus => (by cases hstatus), fun hstatus => (by cases hstatus),
      fun _ => hjob⟩
  · exact hfailed

end Writes

/-! ## Steps -/

section Steps

variable [DecidableEq ρ] {s s' : State ρ N} {replica : ρ} {claim : Claim N}
  {row : OutboxEvent N} {todo : List (OutboxEvent N)}

/-- Only what the replica holds changes. -/
theorem table_goesOn (s : State ρ N) (replica : ρ) (claim : Option (Claim N)) :
    (s.goesOn replica claim).table = s.table.hold replica ((claim.map Claim.held).getD []) := by
  rw [State.table, State.table, Table.hold]
  congr 1
  funext r
  by_cases hr : r = replica
  · subst hr
    simp [State.held, State.goesOn]
  · simp [State.held, State.goesOn, hr]

@[simp] theorem running_goesOn_self (s : State ρ N) (replica : ρ) (claim : Option (Claim N)) :
    (s.goesOn replica claim).running replica = claim :=
  Function.update_self ..

theorem running_goesOn_of_ne {r : ρ} (h : r ≠ replica) (claim : Option (Claim N)) :
    (s.goesOn replica claim).running r = s.running r :=
  Function.update_of_ne h ..

/-- A replica goes on. -/
theorem Sound.goesOn (hs : Sound options s) {claim : Option (Claim N)}
    (htable : (s.table.hold replica ((claim.map Claim.held).getD [])).Sound OutboxEvent.id)
    (hclaim : ∀ c, claim = some c → ClaimSound options s c) :
    Sound options (s.goesOn replica claim) where
  table := by
    rw [table_goesOn]
    exact htable
  claims r c hc := by
    have hsound : ClaimSound options s c := by
      by_cases hr : r = replica
      · subst hr
        rw [running_goesOn_self] at hc
        exact hclaim c hc
      · rw [running_goesOn_of_ne hr] at hc
        exact hs.claims r c hc
    exact hsound.mono (.refl SameEvent.refl _) (List.Subset.refl _)
  rows r hr := by
    obtain ⟨hattempts, hpending, hfailed, hdispatched⟩ := hs.rows r hr
    exact ⟨hattempts, hpending, hfailed, hdispatched⟩
  sent := hs.sent
  failures := hs.failures

/-- A replica goes on and keeps its locks. -/
theorem Sound.keepsLocks (hs : Sound options s) {claim' : Claim N}
    (hrunning : s.running replica = some claim) (hheld : claim'.held = claim.held)
    (hclaim : ClaimSound options s claim') : Sound options (s.goesOn replica (some claim')) := by
  apply hs.goesOn
  · have hsame : claim'.held = s.table.held replica := by
      change claim'.held = s.held replica
      rw [State.held, hrunning, hheld]
      rfl
    change (s.table.hold replica claim'.held).Sound OutboxEvent.id
    rw [hsame, Table.hold, Function.update_eq_self]
    exact hs.table
  · rintro _ ⟨⟩
    exact hclaim

/-- A replica ends without a commit. -/
theorem Sound.ends (hs : Sound options s) (replica : ρ) : Sound options (s.goesOn replica none) :=
  hs.goesOn (hs.table.unlock replica) fun _ h => (by cases h)

omit [DecidableEq ρ] in
/-- A job of a row is sent to the queue. -/
theorem Sound.send (hs : Sound options s) {job : Job N} (stored : Bool)
    (hrow : ∃ row' ∈ s.rows, SameEvent row row') (hjob : row.job = .ok job) :
    Sound options (s.send row job stored) where
  table := hs.table
  claims r c hc := (hs.claims r c hc).mono (.refl SameEvent.refl _) (List.subset_append_left ..)
  rows r hr := by
    obtain ⟨hattempts, hpending, hfailed, hdispatched⟩ := hs.rows r hr
    refine ⟨hattempts, hpending, hfailed, fun hstatus => ?_⟩
    obtain ⟨sent, hsent, hstored⟩ := hdispatched hstatus
    exact ⟨sent, List.mem_append_left _ hsent, hstored⟩
  sent x hx := by
    rcases List.mem_append.mp hx with hx | hx
    · exact hs.sent x hx
    · obtain rfl := List.mem_singleton.mp hx
      obtain ⟨row', hrow', hsame⟩ := hrow
      exact ⟨row', hrow', hsame.id, hsame.job_eq.trans hjob⟩
  failures := hs.failures

/-- An attempt on a row has failed. -/
theorem Sound.fail (hs : Sound options s) (hrunning : s.running replica = some claim)
    (htodo : claim.todo = row :: todo) (message : JsString) :
    Sound options (s.fail options replica { claim with todo } row message) := by
  rw [State.fail]
  split_ifs
  · exact hs.keepsLocks hrunning rfl ((hs.claims replica claim hrunning).notEnqueued htodo message)
  · exact hs.ends replica

/-- One round of the loop. -/
theorem Sound.enqueue (hs : Sound options s) (hrunning : s.running replica = some claim)
    (htodo : claim.todo = row :: todo) (result : AddResult) :
    Sound options (s.enqueue options replica { claim with todo } row result) := by
  have hclaim := hs.claims replica claim hrunning
  have hknown : ∃ row' ∈ s.rows, SameEvent row row' :=
    hclaim.known row (hclaim.todo row (htodo ▸ List.mem_cons_self ..))
  rcases enqueue_cases s options replica { claim with todo } row result with
    ⟨job, hjob, heq⟩ | ⟨job, stored, message, hjob, heq⟩ | ⟨message, heq⟩
  · have hsent := hs.send true hknown hjob
    rw [heq]
    exact hsent.keepsLocks hrunning rfl ((hsent.claims replica claim hrunning).enqueued htodo
      ⟨_, List.mem_append_right _ (List.mem_cons_self ..), rfl, rfl⟩)
  · rw [heq]
    exact (hs.send stored hknown hjob).fail hrunning htodo message
  · rw [heq]
    exact hs.fail hrunning htodo message

omit [DecidableEq ρ] in
/-- What a living claim has locked. -/
theorem held_of_running (hrunning : s.running replica = some claim) (hlive : claim.live) :
    s.table.held replica = claim.rows := by
  change s.held replica = claim.rows
  rw [State.held, hrunning]
  simp [Claim.held, hlive]

omit [DecidableEq ρ] in
/-- A claimed row is the row that is stored. -/
theorem Sound.claimed_eq (hs : Sound options s) (hrunning : s.running replica = some claim)
    (hlive : claim.live) {stored read : OutboxEvent N} (hstored : stored ∈ s.rows)
    (hread : read ∈ claim.rows) (hid : read.id = stored.id) : read = stored := by
  rw [← held_of_running hrunning hlive] at hread
  exact hs.table.eq_of_key_eq (hs.table.held replica read hread) hstored hid

omit [DecidableEq ρ] in
/-- A commit keeps what is through. -/
theorem Sound.kept_write (hs : Sound options s) (hrunning : s.running replica = some claim)
    (hlive : claim.live) : Continues Kept s.rows (s.rows.map claim.write) := by
  apply Continues.map
  intro row hrow
  refine ⟨sameEvent_write claim row, fun hfinal => ?_⟩
  have hclaim := hs.claims replica claim hrunning
  apply hclaim.write_eq
  intro hmem
  obtain ⟨read, hread, hid⟩ := List.mem_map.mp hmem
  obtain rfl := hs.claimed_eq hrunning hlive hrow hread hid
  exact hfinal (hclaim.pending read hread)

/-- **A commit.** -/
theorem Sound.commit (hs : Sound options s) (hrunning : s.running replica = some claim) :
    Sound options (s.commit replica claim) := by
  rw [State.commit]
  split_ifs with hlive
  swap
  · exact hs.ends replica
  have hclaim := hs.claims replica claim hrunning
  have hends := hs.ends replica
  have hsame : Continues SameEvent s.rows (s.rows.map claim.write) :=
    Continues.map fun row _ => sameEvent_write claim row
  have hids : (s.rows.map claim.write).map OutboxEvent.id = s.rows.map OutboxEvent.id := by
    rw [List.map_map]
    exact List.map_congr_left fun row _ => (sameEvent_write claim row).id
  refine ⟨?_, fun r c hc => ?_, fun row hrow => ?_, fun x hx => ?_, fun id hid => ?_⟩
  · -- for the table a commit writes what is held
    have hwrite : s.rows.map claim.write = (s.table.commit OutboxEvent.id replica claim.write).rows := by
      rw [Table.commit, held_of_running hrunning hlive]
      apply List.map_congr_left
      intro row _
      split_ifs with hmem
      · rfl
      · exact hclaim.write_eq hmem
    have htable := hs.table.commit replica fun row => (sameEvent_write claim row).id
    have hheld : (s.goesOn replica none).held =
        (s.table.commit OutboxEvent.id replica claim.write).held :=
      congrArg Table.held (table_goesOn s replica none)
    rw [State.table, hwrite]
    change (⟨_, (s.goesOn replica none).held⟩ : Table ρ (OutboxEvent N)).Sound OutboxEvent.id
    rw [hheld]
    exact htable
  · exact (hends.claims r c hc).mono hsame (List.Subset.refl _)
  · obtain ⟨stored, hstored, rfl⟩ := List.mem_map.mp hrow
    by_cases hmem : stored.id ∈ claim.rows.map OutboxEvent.id
    · obtain ⟨read, hread, hid⟩ := List.mem_map.mp hmem
      obtain rfl := hs.claimed_eq hrunning hlive hstored hread hid
      exact hclaim.rowSound_write (hs.rows read hstored) hread
        (fun r hr hrid => hs.claimed_eq hrunning hlive hstored hr hrid) rfl rfl
    · -- no attempt on a row of others
      have hzero : stored.id ∉ claim.failed.map FailedAttempt.id := by
        intro hfailed
        obtain ⟨update, hupdate, hid⟩ := List.mem_map.mp hfailed
        exact hmem (hid ▸ hclaim.mem_of_failed hupdate)
      rw [hclaim.write_eq hmem]
      obtain ⟨hattempts, hpending, hfailed, hdispatched⟩ := hs.rows stored hstored
      refine ⟨?_, hpending, hfailed, hdispatched⟩
      rw [List.count_append, List.count_eq_zero_of_not_mem hzero]
      exact hattempts
  · obtain ⟨row, hrow, hid, hjob⟩ := hs.sent x hx
    obtain ⟨row', hrow', hrel⟩ := hsame row hrow
    exact ⟨row', hrow', hrel.id.trans hid, hrel.job_eq.trans hjob⟩
  · change id ∈ (s.rows.map claim.write).map OutboxEvent.id
    rw [hids]
    rcases List.mem_append.mp hid with hid | hid
    · exact hs.failures id hid
    · obtain ⟨update, hupdate, rfl⟩ := List.mem_map.mp hid
      obtain ⟨read, hread, hid'⟩ := List.mem_map.mp (hclaim.mem_of_failed hupdate)
      rw [← held_of_running hrunning hlive] at hread
      exact hid' ▸ List.mem_map_of_mem (hs.table.held replica read hread)

omit [DecidableEq ρ] in
/-- A new row. -/
theorem Sound.insert (hs : Sound options s) (id tenantId topic dedupKey : JsString)
    (payload : JsVal N) (createdAt : ℕ) :
    Sound options (s.insert id tenantId topic dedupKey payload createdAt) := by
  rcases insert_cases s id tenantId topic dedupKey payload createdAt with heq | ⟨hnew, heq⟩
  · rw [heq]
    exact hs
  · rw [heq]
    refine ⟨hs.table.insert hnew, fun r c hc => ?_, fun row hrow => ?_, fun x hx => ?_,
      fun i hi => ?_⟩
    · exact (hs.claims r c hc).mono (.append SameEvent.refl _) (List.Subset.refl _)
    · rcases List.mem_append.mp hrow with hrow | hrow
      · obtain ⟨hattempts, hpending, hfailed, hdispatched⟩ := hs.rows row hrow
        exact ⟨hattempts, hpending, hfailed, hdispatched⟩
      · obtain rfl := List.mem_singleton.mp hrow
        refine ⟨?_, fun _ => by simp, fun hstatus => (by cases hstatus),
          fun hstatus => (by cases hstatus)⟩
        exact (List.count_eq_zero_of_not_mem fun hmem => hnew (hs.failures id hmem)).symm
    · obtain ⟨row, hrow, hid, hjob⟩ := hs.sent x hx
      exact ⟨row, List.mem_append_left _ hrow, hid, hjob⟩
    · rw [List.map_append]
      exact List.mem_append_left _ (hs.failures i hi)

/-- A batch is claimed. -/
theorem Sound.claimBatch [Fintype ρ] (hs : Sound options s) (replica : ρ) :
    Sound options (s.goesOn replica
      (some ⟨true, s.claimable options, s.claimable options, [], []⟩)) := by
  have hrows : ∀ row ∈ s.claimable options, row ∈ s.rows := fun row hrow => (mem_claimable hrow).1
  apply hs.goesOn
  · exact hs.table.lock hrows fun row hrow => (mem_claimable hrow).2.2
  · rintro _ ⟨⟩
    refine ⟨fun row hrow => (mem_claimable hrow).2.1, fun row hrow => ⟨row, hrows row hrow, .refl row⟩,
      fun _ h => h, ?_, fun _ h => absurd h List.not_mem_nil, fun _ h => absurd h List.not_mem_nil⟩
    -- the rows of a table have different keys, and so have those of a batch
    have hbatch : ((s.claimable options).map OutboxEvent.id).Nodup := by
      apply List.Nodup.sublist ((List.take_sublist _ _).map _)
      refine (((sortedBy_perm _ _).map OutboxEvent.id).nodup_iff).mpr ?_
      exact hs.table.nodup.sublist (List.filter_sublist.map _)
    exact hbatch

variable [Fintype ρ]

/-- **What every step keeps.** -/
theorem sound_step (s : State ρ N) (e : Event ρ N) (s' : State ρ N) (hs : Sound options s)
    (h : step options s e = some s') : Sound options s' := by
  cases e with
  | insert id tenantId topic dedupKey payload createdAt =>
    cases h
    exact hs.insert id tenantId topic dedupKey payload createdAt
  | claim replica =>
    rcases step_claim h with rfl | ⟨-, rfl⟩
    · exact hs
    · exact hs.claimBatch replica
  | enqueue replica result =>
    obtain ⟨claim, row, todo, hrunning, htodo, rfl⟩ := step_enqueue h
    exact hs.enqueue hrunning htodo result
  | commit replica =>
    obtain ⟨claim, hrunning, -, rfl⟩ := step_commit h
    exact hs.commit hrunning
  | crash replica =>
    cases h
    exact hs.ends replica
  | expire replica =>
    obtain ⟨claim, hrunning, rfl⟩ := step_expire h
    apply hs.goesOn
    · exact hs.table.unlock replica
    · rintro _ ⟨⟩
      exact (hs.claims replica claim hrunning).expire

/-- **No row is lost by a step.** -/
theorem kept_step (hs : Sound options s) {e : Event ρ N} (h : step options s e = some s') :
    Continues Kept s.rows s'.rows := by
  have hsame : s'.rows = s.rows → Continues Kept s.rows s'.rows :=
    fun hrows => hrows ▸ Continues.refl Kept.refl _
  cases e with
  | insert id tenantId topic dedupKey payload createdAt =>
    cases h
    rcases insert_cases s id tenantId topic dedupKey payload createdAt with heq | ⟨-, heq⟩
    · rw [heq]
      exact .refl Kept.refl _
    · rw [heq]
      exact .append Kept.refl _
  | claim replica =>
    rcases step_claim h with rfl | ⟨-, rfl⟩
    · exact hsame rfl
    · exact hsame rfl
  | enqueue replica result =>
    obtain ⟨claim, row, todo, -, -, rfl⟩ := step_enqueue h
    apply hsame
    have hfail : ∀ (t : State ρ N) c message, (t.fail options replica c row message).rows = t.rows := by
      intro t c message
      rw [State.fail]
      split_ifs <;> rfl
    rcases enqueue_cases s options replica { claim with todo } row result with
      ⟨job, -, heq⟩ | ⟨job, stored, message, -, heq⟩ | ⟨message, heq⟩
    · rw [heq]
      rfl
    · rw [heq, hfail]
      rfl
    · rw [heq, hfail]
  | commit replica =>
    obtain ⟨claim, hrunning, -, rfl⟩ := step_commit h
    rw [State.commit]
    split_ifs with hlive
    · exact hs.kept_write hrunning hlive
    · exact .refl Kept.refl _
  | crash replica =>
    cases h
    exact hsame rfl
  | expire replica =>
    obtain ⟨claim, -, rfl⟩ := step_expire h
    exact hsame rfl

end Steps

/-! ## Delivery -/

/-- **What the outbox promises.** -/
structure Delivered (options : DispatcherOptions) (s : State ρ N) : Prop where
  /-- a dispatched row has a job that the queue stored -/
  dispatched : ∀ row ∈ s.rows, row.status = .dispatched →
    ∃ sent ∈ s.sent, sent.eventId = row.id ∧ sent.stored
  /-- a failed row has had all its attempts -/
  failed : ∀ row ∈ s.rows, row.status = .failed →
    s.failures.count row.id = options.maxAttempts
  /-- what is sent for a row is its job -/
  job : ∀ sent ∈ s.sent, ∃ row ∈ s.rows, row.id = sent.eventId ∧ row.job = .ok sent.job
  /-- so all that is sent for a row goes to one queue under one `jobId` -/
  same : ∀ a ∈ s.sent, ∀ b ∈ s.sent, a.eventId = b.eventId →
    a.job.queue = b.job.queue ∧ a.job.jobId = b.job.jobId

theorem Sound.delivered {s : State ρ N} (hs : Sound options s) (hmax : 0 < options.maxAttempts) :
    Delivered options s where
  dispatched row hrow := (hs.rows row hrow).dispatched
  failed row hrow hstatus := by
    have hrowSound := hs.rows row hrow
    rw [← hrowSound.attempts, hrowSound.failed hstatus]
    exact max_eq_left hmax
  job := hs.sent
  same a ha b hb hid := by
    obtain ⟨row, hrow, hrowId, hjob⟩ := hs.sent a ha
    obtain ⟨row', hrow', hrowId', hjob'⟩ := hs.sent b hb
    obtain rfl := hs.table.eq_of_key_eq hrow hrow' (hrowId.trans (hid.trans hrowId'.symm))
    have hsame : a.job = b.job := Except.ok.inj (hjob.symm.trans hjob')
    rw [hsame]
    exact ⟨rfl, rfl⟩

section Runs

variable [DecidableEq ρ] [Fintype ρ]

/-- **The invariant holds in every run.** -/
theorem sound_run {events : List (Event ρ N)} {s : State ρ N}
    (h : run (step options) State.empty events = some s) : Sound options s :=
  run_induction sound_step Sound.empty h

/-- **No row is lost.** -/
theorem kept_run {s t : State ρ N} {events : List (Event ρ N)} (hs : Sound options s)
    (h : run (step options) s events = some t) : Continues Kept s.rows t.rows := by
  induction events generalizing s with
  | nil =>
    cases h
    exact .refl Kept.refl _
  | cons e events ih =>
    obtain ⟨s', hstep, h⟩ := run_cons.mp h
    exact (kept_step hs hstep).trans (fun _ _ _ => Kept.trans) (ih (sound_step s e s' hs hstep) h)

/-- **Delivery through the outbox**: after every run the outbox keeps its promises, and all
its rows are still there after every run that follows, those that are through unchanged. -/
theorem outbox_delivers (options : DispatcherOptions) (hmax : 0 < options.maxAttempts)
    {events more : List (Event ρ N)} {s t : State ρ N}
    (h : run (step options) State.empty events = some s)
    (hmore : run (step options) s more = some t) :
    Delivered options s ∧ Delivered options t ∧ Continues Kept s.rows t.rows := by
  have hs : Sound options s := sound_run h
  have ht : Sound options t := run_induction sound_step hs hmore
  exact ⟨hs.delivered hmax, ht.delivered hmax, kept_run hs hmore⟩

end Runs

/-- A job whose answer is lost and that is sent again, a crash, and a delivery. -/
theorem outbox_delivers_after_crash :
    ∃ s t : State Bool ℤ, t.rows.map OutboxEvent.status = [.dispatched] ∧
      Delivered {} s ∧ Delivered {} t ∧ Continues Kept s.rows t.rows := by
  obtain ⟨s, t, h, hmore, hstatus⟩ : ∃ s t : State Bool ℤ,
      run (step {}) State.empty
        [.insert (js "1") (js "t") (js "export.run") (js "export:1") (.obj []) 0, .claim true,
          .claim false, .enqueue true (.unanswered (js "timeout")), .commit true] = some s ∧
      run (step {}) s
        [.claim false, .enqueue false .added, .crash false, .claim true, .enqueue true .added,
          .commit true] = some t ∧
      t.rows.map OutboxEvent.status = [.dispatched] := ⟨_, _, rfl, rfl, rfl⟩
  exact ⟨s, t, hstatus, outbox_delivers {} (by decide) h hmore⟩

end AegCloudDfir.Dispatch
