import AegCloudDfir.Dispatch.JobKeys
import Mathlib.Data.Fintype.Defs
import Mathlib.Data.Finset.Insert

/-!
# Giving up a stalled item

`recoveryPlan` of `apps/worker/src/stalled-items.ts` and what `StalledItemSweeper.sweepOnce` does
by it, for one item of a collection, next to everything else that writes the item or rows under its
keys: fetches, listings, retries, and other sweeps. A sweep reads the item first and writes later.

A recovery and an ordinary fetch count in the same column, `attempts`, and so the sweeper takes
fetches for recoveries of its own. The number of a recovery comes from that column too, which keeps
its keys fresh as long as nothing counts between what a sweep reads and what it writes.

* `recoveryPlan_outline` — the plan is the one of the ledger.
* `Inv.requeued` — under the invariant, a recovery is a new row of the outbox.
* `earned_iff` — in which runs the sweeper gives up only after recoveries of its own.
-/

namespace AegCloudDfir.Collection.GivingUp

open Dispatch.JobKeys
open PrefixCode (last_inj)
open Transition

/-! ## The plan -/

/-- `STALL_AFTER_MS` -/
def stallAfterMs : ℤ := 15 * 60000

/-- `stage`, where it is one of an item -/
inductive Stage : Type where
  | fetch
  | index
  | extract
  deriving DecidableEq

instance : Fintype Stage := ⟨{.fetch, .index, .extract}, fun stage => by cases stage <;> simp⟩

/-- `StalledItemInput` -/
structure StalledItemInput where
  state : ItemState
  source : Source
  attempts : ℕ
  updatedAt : ℤ
  evidenceItemId : Option Uuid
  now : ℤ
  evidenceKind : Option EvidenceKind

/-- `RecoveryAction` -/
inductive RecoveryAction : Type where
  | wait
  | requeue (topic : QueueName) (stage : Stage)
  | giveUp (reason : JsString)
  deriving DecidableEq

/-- Why the attempts are used up. -/
def usedUp : JsString :=
  js "could not recover this item after " ++ decimal maxRecoveryAttempts ++ js " attempts; " ++
    js "it was left in flight by an interrupted run and is recorded as a failure"

/-- Why nothing can be recovered. -/
def nothingToIndex : JsString :=
  js "item was marked preserved but carries no evidence row to index, " ++
    js "so it cannot be recovered and is recorded as a failure"

/-- `recoveryPlan` -/
def recoveryPlan (input : StalledItemInput) : RecoveryAction :=
  if ¬ Ledger.isInFlight input.state then .wait
  else if input.now - input.updatedAt < stallAfterMs then .wait
  else if maxRecoveryAttempts ≤ input.attempts then .giveUp usedUp
  else if input.state = .preserved then
    if input.evidenceItemId = none then .giveUp nothingToIndex
    else if input.evidenceKind = some .container then .requeue .pstExtract .extract
    else .requeue .searchIndex .index
  else .requeue .collectionFetchItem .fetch

/-- The stage an item is stalled in. -/
def stageOf (input : StalledItemInput) : Stage :=
  if input.state = .preserved then
    if input.evidenceKind = some .container then .extract else .index
  else .fetch

/-! ## Keys -/

/-- A row of the outbox. -/
structure OutboxRow where
  topic : QueueName
  dedupKey : JsString
  deriving DecidableEq

/-- An item, with what is known of evidence rows. -/
structure ItemRef where
  collectionId : Uuid
  custodianId : Uuid
  source : Source
  providerItemId : JsString
  /-- `item.id` -/
  id : Uuid
  /-- the evidence rows that are made for the item -/
  owned : Uuid → Prop
  /-- `kindById` -/
  kindOf : Uuid → Option EvidenceKind

/-- The topic of a stage. -/
def Stage.topic : Stage → QueueName
  | .fetch => .collectionFetchItem
  | .index => .searchIndex
  | .extract => .pstExtract

variable (item : ItemRef)

/-- The row of a stage with a number, for an evidence row where the stage is about one. -/
def numberedRow (stage : Stage) (extractId : Uuid) (n : ℕ) : OutboxRow where
  topic := stage.topic
  dedupKey := match stage with
    | .fetch => (LogicalJob.fetchItem item.collectionId item.custodianId item.source
        item.providerItemId n).key
    | .extract => (LogicalJob.pstExtract item.collectionId extractId).key ++ js ":recover" ++
        decimal n
    | .index => (LogicalJob.searchIndex extractId 1 (js "recover" ++ decimal n)).key

/-- A row that is written for something else: another item, another stage, a first try. -/
structure ForeignRow where
  row : OutboxRow
  foreign : ∀ stage id n, stage = .fetch ∨ item.owned id → row ≠ numberedRow item stage id n

/-! ## The machine -/

/-- A row of `collection_items`. -/
structure ItemRow where
  state : ItemState
  attempts : ℕ
  updatedAt : ℤ
  evidenceItemId : Option Uuid
  lastError : JsString

/-- A row of `collection_exceptions`, of the kind `api_error`. -/
structure ItemException where
  message : JsString
  lastState : ItemState
  attempts : ℕ

/-- What a count of `attempts` was for. -/
inductive Count : Type where
  | fetch
  | requeue (stage : Stage)
  deriving DecidableEq

/-- What the sweeper has done. -/
inductive Action : Type where
  /-- it has put the item back, and the row is new or was dropped -/
  | requeued (stage : Stage) (inserted : Bool)
  /-- it has written the item off, after some recoveries of its own for the stage -/
  | gaveUp (stage : Stage) (own : ℕ)
  deriving DecidableEq

/-- The item, the outbox and the sweeps under way; and what has been counted and done so far. -/
structure State where
  row : ItemRow
  outbox : List OutboxRow
  exceptions : List ItemException
  /-- the evidence whose `processingStatus` is `exception` -/
  excepted : List Uuid
  plans : List StalledItemInput
  history : List Count
  actions : List Action

/-- What can come next, and when. -/
inductive Event : Type where
  /-- `processCollectionFetchItem` begins -/
  | fetch (now : ℤ)
  /-- it stores what it has fetched -/
  | preserve (id : {id : Uuid // item.owned id}) (now : ℤ)
  /-- the item is settled by anything else -/
  | settle (state : {state : ItemState // ¬ Ledger.isInFlight state}) (now : ℤ)
  /-- a retry puts a failed item with evidence back to the index -/
  | reindex (now : ℤ)
  /-- a listing or a retry puts the item into the queue, with the attempts it has read -/
  | enlist (n : ℕ)
  /-- any other row of the outbox -/
  | enqueue (row : ForeignRow item)
  /-- a sweep finds the item stalled -/
  | read (now : ℤ)
  /-- a sweep does what it has planned -/
  | apply (i : ℕ) (now : ℤ)
  /-- a sweep is rolled back -/
  | abort (i : ℕ)

/-- `createMany` with `skipDuplicates` -/
def insert (outbox : List OutboxRow) (row : OutboxRow) : List OutboxRow :=
  if row ∈ outbox then outbox else outbox ++ [row]

/-- `findMany` of a sweep, and what it looks up of the evidence. -/
def readInput (row : ItemRow) (now : ℤ) : Option StalledItemInput :=
  if Ledger.isInFlight row.state ∧ row.updatedAt < now - stallAfterMs then
    some
      { state := row.state
        source := item.source
        attempts := row.attempts
        updatedAt := row.updatedAt
        evidenceItemId := row.evidenceItemId
        now
        evidenceKind := row.evidenceItemId.bind item.kindOf }
  else none

/-- Writes the item off. -/
def giveUp (s : State) (input : StalledItemInput) (reason : JsString) (now : ℤ) : State :=
  { s with
    row := { s.row with state := .failed, lastError := reason, updatedAt := now }
    exceptions := s.exceptions ++ [⟨reason, input.state, input.attempts⟩]
    excepted := s.excepted ++
      if input.evidenceKind = some .container then input.evidenceItemId.toList else []
    actions := s.actions ++
      [.gaveUp (stageOf input) (s.history.count (.requeue (stageOf input)))] }

/-- Puts the item back. -/
def requeue (s : State) (input : StalledItemInput) (stage : Stage) (now : ℤ) : State :=
  let attempt := input.attempts + 1
  let row := numberedRow item stage (input.evidenceItemId.getD item.id) attempt
  { s with
    row := { s.row with attempts := attempt, updatedAt := now }
    outbox := insert s.outbox row
    history := s.history ++ [.requeue stage]
    actions := s.actions ++ [.requeued stage (row ∉ s.outbox)] }

/-- What an event does to the item. -/
def step (s : State) : Event item → Option State
  | .fetch now =>
    some { s with
      row := { s.row with state := .fetching, attempts := s.row.attempts + 1, updatedAt := now }
      history := s.history ++ [.fetch] }
  | .preserve id now =>
    some { s with
      row := { s.row with
        state := .preserved, evidenceItemId := some id, lastError := [], updatedAt := now } }
  | .settle state now => some { s with row := { s.row with state := state, updatedAt := now } }
  | .reindex now =>
    if s.row.state = .failed ∧ s.row.evidenceItemId ≠ none then
      some { s with row := { s.row with state := .preserved, updatedAt := now } }
    else none
  | .enlist n =>
    if n ≤ s.row.attempts then
      some { s with outbox := insert s.outbox (numberedRow item .fetch item.id n) }
    else none
  | .enqueue row => some { s with outbox := insert s.outbox row.row }
  | .read now => (readInput item s.row now).map fun input =>
      { s with plans := s.plans ++ [input] }
  | .apply i now =>
    s.plans[i]?.map fun input =>
      let s := { s with plans := s.plans.eraseIdx i }
      match recoveryPlan input with
      | .wait => s
      | .giveUp reason => giveUp s input reason now
      | .requeue _ stage => requeue item s input stage now
  | .abort i => s.plans[i]?.map fun _ => { s with plans := s.plans.eraseIdx i }

/-- An item as it comes into a collection: discovered, or preserved from an upload. -/
def created (evidence : Option {id : Uuid // item.owned id}) (now : ℤ) : State where
  row :=
    { state := if evidence.isSome then .preserved else .discovered
      attempts := 0
      updatedAt := now
      evidenceItemId := evidence.map Subtype.val
      lastError := [] }
  outbox := []
  exceptions := []
  excepted := []
  plans := []
  history := []
  actions := []

/-! ## What is to hold -/

/-- A recovery is a new row, and the item is written off only after `MAX_RECOVERY_ATTEMPTS` of them
for its stage. -/
def Action.Right : Action → Prop
  | .requeued _ inserted => inserted = true
  | .gaveUp _ own => maxRecoveryAttempts ≤ own

/-- All that the sweeper has done was right. -/
def Right (s : State) : Prop := ∀ action ∈ s.actions, action.Right

/-- Nothing is counted between what a sweep reads and the recovery it writes. -/
def UpToDate (s : State) : Event item → Prop
  | .apply i _ => ∀ input ∈ s.plans[i]?, ∀ stage, recoveryPlan input = .requeue stage.topic stage →
      input.attempts = s.row.attempts
  | _ => True

instance (s : State) (e : Event item) : Decidable (UpToDate item s e) := by
  cases e <;> (unfold UpToDate; infer_instance)

/-- An item is given up when the first attempts that were counted were recoveries of its stage. -/
def Earned (s : State) : Event item → Prop
  | .apply i _ => ∀ input ∈ s.plans[i]?, ∀ reason, recoveryPlan input = .giveUp reason →
      s.history.take maxRecoveryAttempts =
        List.replicate maxRecoveryAttempts (.requeue (stageOf input))
  | _ => True

/-! ## Plans -/

/-- What a ledger without times and keys says of a plan. -/
def RecoveryAction.outline : RecoveryAction → Ledger.RecoveryAction
  | .wait => .wait
  | .requeue .. => .requeue
  | .giveUp _ => .giveUp

/-- Of an item that has been idle, the plan is the one of the ledger. -/
theorem recoveryPlan_outline {row : Collection.Item Uuid} {input : StalledItemInput}
    (hstate : input.state = row.state) (hattempts : input.attempts = row.attempts)
    (hevidence : input.evidenceItemId = row.evidenceItemId)
    (hidle : stallAfterMs ≤ input.now - input.updatedAt) :
    (recoveryPlan input).outline = Ledger.recoveryPlan row := by
  rw [recoveryPlan, Ledger.recoveryPlan, ← hstate, ← hattempts, ← hevidence,
    if_neg (not_lt.mpr hidle)]
  split_ifs <;> first | rfl | tauto

/-- An item is put back for the stage it is stalled in, and only so often. -/
theorem recoveryPlan_requeue {input : StalledItemInput} {topic : QueueName} {stage : Stage}
    (h : recoveryPlan input = .requeue topic stage) :
    topic = stage.topic ∧ stage = stageOf input ∧ input.attempts < maxRecoveryAttempts ∧
      (stage = .fetch ∨ input.evidenceItemId ≠ none) := by
  rw [recoveryPlan] at h
  split_ifs at h with hwait hidle hused hpreserved hnone hcontainer
  · obtain ⟨rfl, rfl⟩ := RecoveryAction.requeue.inj h
    refine ⟨rfl, ?_, not_le.mp hused, .inr hnone⟩
    rw [stageOf, if_pos hpreserved, if_pos hcontainer]
  · obtain ⟨rfl, rfl⟩ := RecoveryAction.requeue.inj h
    refine ⟨rfl, ?_, not_le.mp hused, .inr hnone⟩
    rw [stageOf, if_pos hpreserved, if_neg hcontainer]
  · obtain ⟨rfl, rfl⟩ := RecoveryAction.requeue.inj h
    refine ⟨rfl, ?_, not_le.mp hused, .inl rfl⟩
    rw [stageOf, if_neg hpreserved]

/-- An item that has its evidence is given up for its attempts. -/
theorem recoveryPlan_giveUp {input : StalledItemInput} {reason : JsString}
    (h : recoveryPlan input = .giveUp reason)
    (hstored : input.state = .preserved → input.evidenceItemId ≠ none) :
    maxRecoveryAttempts ≤ input.attempts := by
  rw [recoveryPlan] at h
  split_ifs at h with hwait hidle hused hpreserved hnone hcontainer
  · exact hused
  · exact absurd hnone (hstored hpreserved)

/-! ## Numbers -/

variable {item}

/-- A key ends in its number, behind something that is no digit. -/
theorem numberedRow_ends (stage : Stage) :
    ∃ c : CodeUnit, ¬ IsDigit c ∧ ∀ id n, ∃ front,
      (numberedRow item stage id n).dedupKey = front ++ c :: decimal n := by
  cases stage with
  | fetch =>
    refine ⟨unitOf 'a', by decide, fun id n => ⟨dedupKeys.collectionFetchItem item.collectionId
      item.custodianId item.source item.providerItemId ++ js ":", ?_⟩⟩
    simp [numberedRow, LogicalJob.key, js, unitOf]
  | index =>
    refine ⟨unitOf 'r', by decide, fun id n => ⟨js "index:" ++ id.text ++ js ":v" ++ decimal 1 ++
      js ":" ++ js "recove", ?_⟩⟩
    simp [numberedRow, LogicalJob.key, js, unitOf]
  | extract =>
    refine ⟨unitOf 'r', by decide, fun id n => ⟨(LogicalJob.pstExtract item.collectionId id).key ++
      js ":recove", ?_⟩⟩
    simp [numberedRow, js, unitOf]

/-- **A row has one number.** -/
theorem number_unique {stage stage' : Stage} {id id' : Uuid} {n n' : ℕ}
    (h : numberedRow item stage id n = numberedRow item stage' id' n') : n = n' := by
  have htopic : stage.topic = stage'.topic := congrArg OutboxRow.topic h
  obtain rfl : stage = stage' := by
    cases stage <;> cases stage' <;> first | rfl | cases htopic
  obtain ⟨c, hc, hends⟩ := @numberedRow_ends item stage
  obtain ⟨front, hfront⟩ := hends id n
  obtain ⟨front', hfront'⟩ := hends id' n'
  have hkey := congrArg OutboxRow.dedupKey h
  rw [hfront, hfront'] at hkey
  have hnone : ∀ n, c ∉ decimal n := fun n hmem => hc (isDigit_of_mem_decimal hmem)
  exact decimal_injective (last_inj (hnone n) (hnone n') hkey).2

theorem mem_insert {outbox : List OutboxRow} {row other : OutboxRow} :
    other ∈ insert outbox row ↔ other ∈ outbox ∨ other = row := by
  rw [insert]
  split_ifs with h
  · exact ⟨.inl, fun hother => hother.elim id fun heq => heq ▸ h⟩
  · simp

/-! ## The invariant -/

/-- What holds of an item as long as the sweeps are up to date. -/
structure Inv (item : ItemRef) (s : State) : Prop where
  /-- the column counts everything -/
  counted : s.row.attempts = s.history.length
  stored : s.row.state = .preserved → s.row.evidenceItemId ≠ none
  owned : ∀ id ∈ s.row.evidenceItemId, item.owned id
  /-- the numbers of the item's rows have been counted -/
  numbered : ∀ row ∈ s.outbox, ∀ stage id n, stage = .fetch ∨ item.owned id →
    row = numberedRow item stage id n → n ≤ s.row.attempts
  /-- what is counted later is a fetch -/
  late : ∀ count ∈ s.history.drop maxRecoveryAttempts, count = .fetch
  plans : ∀ input ∈ s.plans, input.attempts ≤ s.row.attempts ∧
    (input.state = .preserved → input.evidenceItemId ≠ none) ∧
    ∀ id ∈ input.evidenceItemId, item.owned id

theorem inv_created (evidence : Option {id : Uuid // item.owned id}) (now : ℤ) :
    Inv item (created item evidence now) where
  counted := rfl
  stored h := by
    cases evidence with
    | none => cases h
    | some id => exact Option.some_ne_none _
  owned id h := by
    cases evidence with
    | none => cases h
    | some own => exact Option.some.inj h ▸ own.2
  numbered _ h := nomatch h
  late _ h := nomatch h
  plans _ h := nomatch h

/-- Only the state, the times and the evidence of the row change. -/
theorem Inv.of_row {s s' : State} (h : Inv item s)
    (hattempts : s'.row.attempts = s.row.attempts)
    (hstored : s'.row.state = .preserved → s'.row.evidenceItemId ≠ none)
    (howned : ∀ id ∈ s'.row.evidenceItemId, item.owned id) (houtbox : s'.outbox = s.outbox)
    (hhistory : s'.history = s.history) (hplans : s'.plans ⊆ s.plans) : Inv item s' where
  counted := by rw [hattempts, hhistory, h.counted]
  stored := hstored
  owned := howned
  numbered := by
    rw [houtbox, hattempts]
    exact h.numbered
  late := by
    rw [hhistory]
    exact h.late
  plans input hinput := by
    rw [hattempts]
    exact h.plans input (hplans hinput)

/-- A row with a number that has been counted, or of something else, is put into the outbox. -/
theorem Inv.insert_row {s : State} {row : OutboxRow} (h : Inv item s)
    (hrow : ∀ stage id n, stage = .fetch ∨ item.owned id → row = numberedRow item stage id n →
      n ≤ s.row.attempts) : Inv item { s with outbox := insert s.outbox row } :=
  { h with
    numbered := by
      intro other hother stage id n hstage heq
      rcases mem_insert.mp hother with hold | rfl
      · exact h.numbered other hold stage id n hstage heq
      · exact hrow stage id n hstage heq }

/-- A recovery that is up to date is counted, under a number that no row has yet. -/
theorem Inv.requeued {s : State} {input : StalledItemInput} {topic : QueueName} {stage : Stage}
    (h : Inv item s) (hplan : recoveryPlan input = .requeue topic stage)
    (howned : ∀ id ∈ input.evidenceItemId, item.owned id)
    (hfresh : input.attempts = s.row.attempts) (now : ℤ) :
    numberedRow item stage (input.evidenceItemId.getD item.id) (input.attempts + 1) ∉ s.outbox ∧
      Inv item (requeue item s input stage now) := by
  obtain ⟨-, -, hfew, hevidence⟩ := recoveryPlan_requeue hplan
  have hstage : stage = .fetch ∨ item.owned (input.evidenceItemId.getD item.id) := by
    refine hevidence.imp_right fun hsome => ?_
    obtain ⟨id, hid⟩ := Option.ne_none_iff_exists'.mp hsome
    rw [hid]
    exact howned id hid
  have hshort : s.history.length < maxRecoveryAttempts := by
    rw [← h.counted, ← hfresh]
    exact hfew
  refine ⟨fun hmem => ?_, ?_⟩
  · have := h.numbered _ hmem stage _ _ hstage rfl
    omega
  · refine
      { counted := ?_
        stored := h.stored
        owned := h.owned
        numbered := ?_
        late := ?_
        plans := ?_ }
    · rw [requeue, List.length_append, ← h.counted, hfresh]
      rfl
    · intro row hrow stage' id n hstage' heq
      change n ≤ input.attempts + 1
      rcases mem_insert.mp hrow with hold | rfl
      · have := h.numbered row hold stage' id n hstage' heq
        omega
      · exact (number_unique heq).ge
    · -- what is counted up to the bound is not late
      intro count hcount
      have hall : (s.history ++ [Count.requeue stage]).drop maxRecoveryAttempts = [] := by
        rw [List.drop_eq_nil_iff, List.length_append]
        exact hshort
      change count ∈ (s.history ++ [Count.requeue stage]).drop maxRecoveryAttempts at hcount
      rw [hall] at hcount
      cases hcount
    · intro other hother
      obtain ⟨hle, hrest⟩ := h.plans other hother
      exact ⟨hle.trans (by rw [← hfresh]; exact Nat.le_succ _), hrest⟩

/-- What a sweep reads is what the row says. -/
theorem readInput_spec {row : ItemRow} {now : ℤ} {input : StalledItemInput}
    (h : readInput item row now = some input) :
    input.state = row.state ∧ input.attempts = row.attempts ∧
      input.evidenceItemId = row.evidenceItemId := by
  rw [readInput] at h
  split_ifs at h with hstalled
  obtain rfl := Option.some.inj h
  exact ⟨rfl, rfl, rfl⟩

/-- **Every event keeps the invariant**, if the sweeps are up to date. -/
theorem inv_step (s : State) (e : Event item) (s' : State) (h : Inv item s)
    (hfresh : UpToDate item s e) (hstep : step item s e = some s') : Inv item s' := by
  cases e with
  | fetch now =>
    obtain rfl := Option.some.inj hstep
    refine
      { counted := ?_
        stored := fun hpreserved => nomatch hpreserved
        owned := h.owned
        numbered := fun row hrow stage id n hstage heq =>
          (h.numbered row hrow stage id n hstage heq).trans (Nat.le_succ _)
        late := ?_
        plans := fun input hinput =>
          ⟨(h.plans input hinput).1.trans (Nat.le_succ _), (h.plans input hinput).2⟩ }
    · rw [List.length_append, ← h.counted]
      rfl
    · intro count hcount
      rw [List.drop_append] at hcount
      rcases List.mem_append.mp hcount with hold | hnew
      · exact h.late count hold
      · exact List.mem_singleton.mp (List.mem_of_mem_drop hnew)
  | preserve id now =>
    obtain rfl := Option.some.inj hstep
    refine h.of_row rfl (fun _ => Option.some_ne_none _) ?_ rfl rfl (List.Subset.refl _)
    intro other hother
    exact Option.some.inj hother ▸ id.2
  | settle state now =>
    obtain rfl := Option.some.inj hstep
    refine h.of_row rfl (fun hpreserved => ?_) h.owned rfl rfl (List.Subset.refl _)
    have hstate : state.1 = .preserved := hpreserved
    exact absurd (hstate ▸ state.2) (by decide)
  | reindex now =>
    rw [step] at hstep
    split_ifs at hstep with hfailed
    obtain rfl := Option.some.inj hstep
    exact h.of_row rfl (fun _ => hfailed.2) h.owned rfl rfl (List.Subset.refl _)
  | enlist n =>
    rw [step] at hstep
    split_ifs at hstep with hle
    obtain rfl := Option.some.inj hstep
    refine h.insert_row fun stage id m _ heq => ?_
    rw [← number_unique heq]
    exact hle
  | enqueue row =>
    obtain rfl := Option.some.inj hstep
    exact h.insert_row fun stage id n hstage heq => absurd heq (row.foreign stage id n hstage)
  | read now =>
    obtain ⟨input, hinput, rfl⟩ := Option.map_eq_some_iff.mp hstep
    obtain ⟨hstate, hattempts, hevidence⟩ := readInput_spec hinput
    refine { h with plans := fun other hother => ?_ }
    rcases List.mem_append.mp hother with hold | hnew
    · exact h.plans other hold
    · obtain rfl := List.mem_singleton.mp hnew
      rw [hstate, hattempts, hevidence]
      exact ⟨Nat.le_refl _, h.stored, h.owned⟩
  | apply i now =>
    obtain ⟨input, hinput, rfl⟩ := Option.map_eq_some_iff.mp hstep
    have hread := h.plans input (List.mem_of_getElem? hinput)
    have hrest : Inv item { s with plans := s.plans.eraseIdx i } :=
      h.of_row rfl h.stored h.owned rfl rfl (List.eraseIdx_subset ..)
    dsimp only
    rcases hplan : recoveryPlan input with _ | ⟨topic, stage⟩ | reason
    · exact hrest
    · obtain ⟨rfl, -⟩ := recoveryPlan_requeue hplan
      exact (hrest.requeued hplan hread.2.2 (hfresh input hinput stage hplan) now).2
    · exact hrest.of_row rfl (fun hpreserved => nomatch hpreserved) hrest.owned rfl rfl
        (List.Subset.refl _)
  | abort i =>
    obtain ⟨input, -, rfl⟩ := Option.map_eq_some_iff.mp hstep
    exact h.of_row rfl h.stored h.owned rfl rfl (List.eraseIdx_subset ..)

/-! ## What has been earned -/

/-- Where only fetches are counted late, there are as many recoveries for a stage as the bound
exactly if the first counts are. -/
theorem le_count_iff {history : List Count} {stage : Stage}
    (hlate : ∀ count ∈ history.drop maxRecoveryAttempts, count = .fetch)
    (hlong : maxRecoveryAttempts ≤ history.length) :
    maxRecoveryAttempts ≤ history.count (Count.requeue stage) ↔
      history.take maxRecoveryAttempts = List.replicate maxRecoveryAttempts (.requeue stage) := by
  have hlength : (history.take maxRecoveryAttempts).length = maxRecoveryAttempts := by
    rw [List.length_take]
    omega
  have hnone : (history.drop maxRecoveryAttempts).count (Count.requeue stage) = 0 := by
    rw [List.count_eq_zero]
    exact fun hmem => nomatch hlate _ hmem
  have hsplit : history.count (Count.requeue stage) =
      (history.take maxRecoveryAttempts).count (Count.requeue stage) := by
    rw [← Nat.add_zero ((history.take maxRecoveryAttempts).count _), ← hnone, ← List.count_append,
      List.take_append_drop]
  have hmost := List.count_le_length (a := Count.requeue stage)
    (l := history.take maxRecoveryAttempts)
  rw [hsplit, List.eq_replicate_iff, and_iff_right hlength]
  refine ⟨fun h count hcount => ?_, fun h => ?_⟩
  · exact (List.count_eq_length.mp (by omega) count hcount).symm
  · rw [List.count_eq_length.mpr fun count hcount => (h count hcount).symm, hlength]

theorem right_append {s : State} {actions : List Action} {action : Action} (hright : Right s)
    (hactions : actions = s.actions ++ [action]) :
    (∀ other ∈ actions, other.Right) ↔ action.Right := by
  rw [hactions, List.forall_mem_append, List.forall_mem_singleton]
  exact and_iff_right hright

/-- **An event leaves everything right** exactly if it gives nothing up that is not earned. -/
theorem right_step (s : State) (e : Event item) (s' : State) (h : Inv item s)
    (hfresh : UpToDate item s e) (hright : Right s) (hstep : step item s e = some s') :
    Right s' ↔ Earned item s e := by
  have hsame : s'.actions = s.actions → (∀ i now, e ≠ .apply i now) →
      (Right s' ↔ Earned item s e) := by
    intro hactions hother
    refine iff_of_true ?_ ?_
    · rw [Right, hactions]
      exact hright
    · cases e with
      | apply i now => exact absurd rfl (hother i now)
      | _ => exact trivial
  cases e with
  | apply i now =>
    obtain ⟨input, hinput, rfl⟩ := Option.map_eq_some_iff.mp hstep
    have hread := h.plans input (List.mem_of_getElem? hinput)
    have hrest : Inv item { s with plans := s.plans.eraseIdx i } :=
      h.of_row rfl h.stored h.owned rfl rfl (List.eraseIdx_subset ..)
    have hearned : Earned item s (.apply i now) ↔ ∀ reason, recoveryPlan input = .giveUp reason →
        s.history.take maxRecoveryAttempts =
          List.replicate maxRecoveryAttempts (.requeue (stageOf input)) := by
      refine ⟨fun h => h input hinput, fun h other hother => ?_⟩
      obtain rfl := Option.some.inj (hinput.symm.trans hother)
      exact h
    rw [hearned]
    dsimp only
    rcases hplan : recoveryPlan input with _ | ⟨topic, stage⟩ | reason
    · exact iff_of_true hright fun _ hgiven => nomatch hgiven
    · obtain ⟨rfl, -⟩ := recoveryPlan_requeue hplan
      have hnew := (hrest.requeued hplan hread.2.2 (hfresh input hinput stage hplan) now).1
      refine iff_of_true ((right_append hright rfl).mpr ?_) fun _ hgiven => nomatch hgiven
      exact decide_eq_true hnew
    · have hmany := recoveryPlan_giveUp hplan hread.2.1
      have hlong : maxRecoveryAttempts ≤ s.history.length := by
        rw [← h.counted]
        exact hmany.trans hread.1
      refine (right_append hright rfl).trans ((le_count_iff h.late hlong).trans ?_)
      exact ⟨fun hfirst _ _ => hfirst, fun hall => hall reason rfl⟩
  | fetch now | preserve id now | settle state now | enqueue row =>
    obtain rfl := Option.some.inj hstep
    exact hsame rfl fun _ _ => nofun
  | reindex now | enlist n =>
    rw [step] at hstep
    split_ifs at hstep
    obtain rfl := Option.some.inj hstep
    exact hsame rfl fun _ _ => nofun
  | read now | abort i =>
    obtain ⟨input, -, rfl⟩ := Option.map_eq_some_iff.mp hstep
    exact hsame rfl fun _ _ => nofun

/-- **Earned give-ups.** In a run whose sweeps are up to date every recovery is a new row of the
outbox, and the item is written off only after `MAX_RECOVERY_ATTEMPTS` of them for its stage
exactly if it is written off only when the first attempts that were counted were these. -/
theorem earned_iff (item : ItemRef) (evidence : Option {id : Uuid // item.owned id}) (now : ℤ)
    (es : List (Event item)) (t : State)
    (h : run (step item) (created item evidence now) es = some t)
    (hfresh : Always (step item) (UpToDate item) (created item evidence now) es) :
    Throughout (step item) Right (created item evidence now) es ↔
      Always (step item) (Earned item) (created item evidence now) es :=
  hfresh.throughout_iff inv_step right_step (inv_created evidence now)
    (fun _ h => nomatch h) h

/-! ### A mail that was fetched three times -/

/-- A mail. -/
def mail : ItemRef where
  collectionId := zeroUuid
  custodianId := zeroUuid
  source := .email
  providerItemId := js "AAMk"
  id := zeroUuid
  owned _ := True
  kindOf _ := some .email

/-- A sweep, so many times the time after which an item counts as stalled. -/
def sweepAt (n : ℕ) : List (Event mail) :=
  [.read (n * (stallAfterMs + 1)), .apply 0 (n * (stallAfterMs + 1))]

/-- A mail is stalled again and again. -/
def recoveries : List (Event mail) := sweepAt 1 ++ sweepAt 2 ++ sweepAt 3 ++ sweepAt 4

/-- The mail is written off after three recoveries, with an equivalence to read. -/
theorem earned_iff_recoveries : ∃ t, run (step mail) (created mail none 0) recoveries = some t ∧
    .gaveUp .fetch 3 ∈ t.actions ∧
    (Throughout (step mail) Right (created mail none 0) recoveries ↔
      Always (step mail) (Earned mail) (created mail none 0) recoveries) := by
  have hrun : (run (step mail) (created mail none 0) recoveries).any fun t =>
      .gaveUp .fetch 3 ∈ t.actions := by decide +kernel
  obtain ⟨t, ht, hactions⟩ := (Option.any_eq_true _ _).mp hrun
  exact ⟨t, ht, of_decide_eq_true hactions,
    earned_iff mail none 0 recoveries t ht (by decide +kernel)⟩

/-- Three attempts to fetch the mail, and one that does not come to its end. -/
def fetches : List (Event mail) := ([.fetch 1, .fetch 2, .fetch 3] : List (Event mail)) ++ sweepAt 2

/-- **The sweeper writes off what it never put back**: three attempts to fetch the mail are taken
for three recoveries. -/
theorem fetches_taken_for_recoveries :
    ∃ t, run (step mail) (created mail none 0) fetches = some t ∧
      Always (step mail) (UpToDate mail) (created mail none 0) fetches ∧
      t.actions = [.gaveUp .fetch 0] ∧
      ¬ Throughout (step mail) Right (created mail none 0) fetches := by
  have hrun : (run (step mail) (created mail none 0) fetches).any fun t =>
      t.actions = [.gaveUp .fetch 0] := by decide +kernel
  obtain ⟨t, ht, hactions⟩ := (Option.any_eq_true _ _).mp hrun
  have hgiven := of_decide_eq_true hactions
  refine ⟨t, ht, by decide +kernel, hgiven, fun h => ?_⟩
  have hright : Action.Right (.gaveUp .fetch 0) :=
    h.run ht _ (hgiven ▸ List.mem_singleton_self _)
  exact absurd hright (Nat.not_succ_le_zero 2)

end AegCloudDfir.Collection.GivingUp
