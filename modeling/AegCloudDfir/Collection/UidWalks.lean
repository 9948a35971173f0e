import AegCloudDfir.Collection.MailQueries
import AegCloudDfir.Collection.PageKey
import AegCloudDfir.Js.Collections
import AegCloudDfir.Lib.Transition

/-!
# Walks through a mailbox

A mailbox is walked by UID: `packages/connectors/src/imap/uid.ts` and `listMessages` of
`packages/connectors/src/imap/connector.ts`, page after page, with the cursor that
`collection-fetch-page.ts` stores in the checkpoint of the folder. The cursor knows which
generation of the mailbox its UID is of, and a walk begins again in a new one; so no window of
UIDs is skipped (`skipsNothing`). The items know nothing of generations. An item is the folder
and the UID, and a UID that two generations have listed is one item, for the message that had it
first (`items_run`).
-/

namespace AegCloudDfir.Collection

universe u

/-! ## UIDs -/

/-- `UID_PAGE_SIZE` -/
def UID_PAGE_SIZE : ℕ := 500

/-- `UidCursor` -/
structure UidCursor where
  /-- The mailbox generation these UIDs belong to. -/
  uidValidity : JsString
  /-- Highest UID already collected and checkpointed. -/
  lastUid : ℕ
  deriving DecidableEq

/-- `encodeUidCursor` -/
def encodeUidCursor (cursor : UidCursor) : JsString :=
  js "v1" ++ js ":" ++ cursor.uidValidity ++ js ":" ++ decimal cursor.lastUid

/-- `/^\d+$/` -/
def isDigits (s : JsString) : Bool := s ≠ [] ∧ ∀ c ∈ s, IsDigit c

/-- `decodeUidCursor` -/
def decodeUidCursor (raw : JsString) : Option UidCursor :=
  match raw.splitOn colon with
  | [version, uidValidity, lastUidRaw] =>
    if version = js "v1" ∧ isDigits uidValidity ∧ isDigits lastUidRaw then
      some ⟨uidValidity, parseDecimal lastUidRaw⟩
    else none
  | _ => none

/-- `UidRange` -/
structure UidRange where
  first : ℕ
  sequence : JsString
  /-- True when a UIDVALIDITY change forced the walk back to the start. -/
  restarted : Bool

/-- An open-ended sequence of UIDs. -/
def openEnded (first : ℕ) : JsString := decimal first ++ js ":*"

/-- `nextUidRange` -/
def nextUidRange (uidValidity : JsString) (cursor : Option UidCursor) : UidRange :=
  match cursor with
  | none => ⟨1, openEnded 1, false⟩
  | some cursor =>
    if cursor.uidValidity ≠ uidValidity then ⟨1, openEnded 1, true⟩
    else ⟨cursor.lastUid + 1, openEnded (cursor.lastUid + 1), false⟩

/-- `UidPage` -/
structure UidPage where
  uids : List ℕ
  cursor : Option UidCursor

/-- `takeUidPage` -/
def takeUidPage (uidValidity : JsString) (found : List ℕ) : UidPage :=
  let uids := (sorted found).take UID_PAGE_SIZE
  let exhausted := (sorted found).length ≤ UID_PAGE_SIZE
  { uids
    cursor := if exhausted then none else uids.getLast?.map fun last => ⟨uidValidity, last⟩ }

/-- A UID is one of the lowest that were found, as many as a page has. -/
def InPage (found : List ℕ) (uid : ℕ) : Prop :=
  uid ∈ found ∧ (found.filter fun v => v < uid).length < UID_PAGE_SIZE

instance (found : List ℕ) (uid : ℕ) : Decidable (InPage found uid) :=
  inferInstanceAs (Decidable (_ ∧ _))

/-! ### Cursors -/

theorem isDigits_decimal (n : ℕ) : isDigits (decimal n) = true := by
  simpa [isDigits, decimal_ne_nil] using fun c => isDigit_of_mem_decimal

theorem colon_not_mem_decimal (n : ℕ) : colon ∉ decimal n :=
  fun hc => isDigit_ne_colon (isDigit_of_mem_decimal hc) rfl

/-- A stored cursor is read back. -/
theorem decode_encode (uidValidity lastUid : ℕ) :
    decodeUidCursor (encodeUidCursor ⟨decimal uidValidity, lastUid⟩) =
      some ⟨decimal uidValidity, lastUid⟩ := by
  have hsplit : (encodeUidCursor ⟨decimal uidValidity, lastUid⟩).splitOn colon =
      [js "v1", decimal uidValidity, decimal lastUid] := by
    have hcolons : encodeUidCursor ⟨decimal uidValidity, lastUid⟩ =
        js "v1" ++ colon :: (decimal uidValidity ++ colon :: decimal lastUid) := by
      simp [encodeUidCursor, show js ":" = [colon] from rfl]
    rw [hcolons, List.splitOn_append_cons_self, List.splitOn_append_cons_self,
      List.splitOn_eq_singleton (by decide),
      List.splitOn_eq_singleton (colon_not_mem_decimal uidValidity),
      List.splitOn_eq_singleton (colon_not_mem_decimal lastUid)]
    rfl
  simp [decodeUidCursor, hsplit, isDigits_decimal]

theorem sequence_nextUidRange (uidValidity : JsString) (cursor : Option UidCursor) :
    (nextUidRange uidValidity cursor).sequence =
      openEnded (nextUidRange uidValidity cursor).first := by
  unfold nextUidRange
  split
  · rfl
  · split_ifs <;> rfl

/-! ### Pages -/

/-- Of numbers in ascending order, the first `n` are those with fewer than `n` below them. -/
theorem mem_take_iff {xs : List ℕ} (h : xs.Pairwise (· < ·)) (n : ℕ) {x : ℕ} :
    x ∈ xs.take n ↔ x ∈ xs ∧ (xs.filter fun y => y < x).length < n := by
  induction xs generalizing n with
  | nil => simp
  | cons y ys ih =>
    obtain ⟨hy, hys⟩ := List.pairwise_cons.mp h
    cases n with
    | zero => simp
    | succ n =>
      rw [List.take_succ_cons, List.mem_cons, ih hys n, List.mem_cons, List.filter_cons]
      by_cases hx : x = y
      · subst hx
        have hnone : (ys.filter fun z => z < x) = [] := by
          rw [List.filter_eq_nil_iff]
          intro z hz
          simpa using (hy z hz).le
        simp [hnone]
      · simp only [hx, false_or]
        refine and_congr_right fun hmem => ?_
        simp [hy x hmem]

section Pages

variable {uidValidity : JsString} {found : List ℕ}

theorem pairwise_sorted (hfound : found.Nodup) : (sorted found).Pairwise (· < ·) := by
  have hle : (sorted found).Pairwise (· ≤ ·) := List.pairwise_insertionSort _ found
  have hne : (sorted found).Pairwise (· ≠ ·) := (sorted_perm found).nodup_iff.mpr hfound
  exact (hle.and hne).imp fun h => lt_of_le_of_ne h.1 h.2

/-- **What a page takes.** -/
theorem mem_uids_iff (uidValidity : JsString) (hfound : found.Nodup) {uid : ℕ} :
    uid ∈ (takeUidPage uidValidity found).uids ↔ InPage found uid := by
  have hlength : ((sorted found).filter fun v => v < uid).length =
      (found.filter fun v => v < uid).length := ((sorted_perm found).filter _).length_eq
  rw [takeUidPage, mem_take_iff (pairwise_sorted hfound), hlength, mem_sorted]
  rfl

/-- A page without a cursor has taken everything. -/
theorem inPage_of_exhausted (h : (takeUidPage uidValidity found).cursor = none)
    (hfound : found.Nodup) {uid : ℕ} (huid : uid ∈ found) : InPage found uid := by
  have hshort : (sorted found).length ≤ UID_PAGE_SIZE := by
    by_contra hlong
    simp only [takeUidPage, if_neg hlong, Option.map_eq_none_iff, List.getLast?_eq_none_iff,
      List.take_eq_nil_iff] at h
    rcases h with h | h
    · cases h
    · exact hlong (by simp [h])
  rw [← mem_uids_iff uidValidity hfound, takeUidPage, List.take_of_length_le hshort]
  exact mem_sorted.mpr huid

/-- A cursor stands at a UID of the page, and the page has taken everything up to it. -/
theorem inPage_of_le {cursor : UidCursor}
    (h : (takeUidPage uidValidity found).cursor = some cursor) (hfound : found.Nodup) :
    cursor.uidValidity = uidValidity ∧ cursor.lastUid ∈ found ∧
      ∀ uid ∈ found, uid ≤ cursor.lastUid → InPage found uid := by
  have hlast : ∃ last, ((sorted found).take UID_PAGE_SIZE).getLast? = some last ∧
      cursor = ⟨uidValidity, last⟩ := by
    simp only [takeUidPage] at h
    split_ifs at h
    obtain ⟨last, hlast, rfl⟩ := Option.map_eq_some_iff.mp h
    exact ⟨last, hlast, rfl⟩
  obtain ⟨last, hlast, rfl⟩ := hlast
  have hmem : last ∈ (takeUidPage uidValidity found).uids := List.mem_of_getLast? hlast
  refine ⟨rfl, ((mem_uids_iff uidValidity hfound).mp hmem).1, fun uid huid hle => ?_⟩
  -- what the page has not taken comes after its last UID
  rw [← mem_uids_iff uidValidity hfound]
  have hpairwise := pairwise_sorted hfound
  rw [← List.take_append_drop UID_PAGE_SIZE (sorted found), List.pairwise_append] at hpairwise
  have hsplit : uid ∈ (sorted found).take UID_PAGE_SIZE ++ (sorted found).drop UID_PAGE_SIZE := by
    rw [List.take_append_drop]
    exact mem_sorted.mpr huid
  rcases List.mem_append.mp hsplit with htaken | hleft
  · exact htaken
  · exact absurd (hpairwise.2.2 last hmem uid hleft) (not_lt.mpr hle)

end Pages

/-! ## Mailboxes -/

section Walks

variable {Id : Type u}

/-- A message in a mailbox, with the date a server compares with. -/
structure ImapMessage (Id : Type u) where
  id : Id
  internalDate : ℤ
  offset : ℤ
  deriving DecidableEq

/-- A message matches the criteria of a search. -/
def ImapMessage.Matches (criteria : ImapSearchCriteria) (message : ImapMessage Id) : Prop :=
  ImapMatches criteria message.offset message.internalDate

/-- A mailbox while it is selected: its generation, and its messages with their UIDs. -/
structure Mailbox (Id : Type u) where
  uidValidity : ℕ
  messages : JsMap ℕ (ImapMessage Id)
  uid_pos : ∀ e ∈ messages, 0 < e.1
  uid_nodup : (messages.map Prod.fst).Nodup

/-- Why a page cannot be listed. -/
inductive Refusal : Type where
  /-- `client.mailbox` is a boolean -/
  | notOpened
  /-- `client.search` returns `false` -/
  | notSearched
  deriving DecidableEq

/-- What the job of a page meets. -/
structure Visit (Id : Type u) where
  mailbox : Mailbox Id
  reply : Except Refusal (List ℕ)

/-- The UIDs a search has found. -/
def Visit.found (visit : Visit Id) : List ℕ :=
  match visit.reply with
  | .error _ => []
  | .ok found => found

/-- The item of a message: the folder and the UID. -/
def providerItemId (folderId : JsString) (uid : ℕ) : JsString :=
  folderId ++ js ":" ++ decimal uid

/-- `listMessages`; `search` is what the server answers in the selected mailbox. -/
def listMessages (folderId : JsString) (mailbox : Mailbox Id)
    (search : JsString → ImapSearchCriteria → Except Refusal (List ℕ)) (instants : ScopeInstants)
    (cursor : Option JsString) : Except JsString (List JsString × Option JsString) :=
  let uidValidity := decimal mailbox.uidValidity
  let range := nextUidRange uidValidity (cursor.bind decodeUidCursor)
  match search range.sequence (searchCriteria instants) with
  | .error .notOpened => .error (js "mailbox " ++ folderId ++ js " could not be opened")
  | .error .notSearched => .error (js "search failed in mailbox " ++ folderId)
  | .ok found =>
    let taken := takeUidPage uidValidity found
    .ok (taken.uids.map (providerItemId folderId), taken.cursor.map encodeUidCursor)

/-- What an item was recorded for: the message that had the UID, and the generation of the mailbox
it had it in. -/
structure Provenance (Id : Type u) where
  uidValidity : ℕ
  message : Option (ImapMessage Id)

/-- What an item of the mailbox is for. -/
def Mailbox.provenance (folderId : JsString) (mailbox : Mailbox Id) (itemId : JsString) :
    Provenance Id where
  uidValidity := mailbox.uidValidity
  message := (mailbox.messages.find? fun e => providerItemId folderId e.1 = itemId).map Prod.snd

/-- The checkpoint of a folder, and the items of the custodian's mail. What an item was recorded
for is not stored; it is what one would like to find there. -/
structure Walk (Id : Type u) where
  cursor : JsString
  finished : Bool
  items : JsMap JsString (Provenance Id)

/-- Before the first page of a folder. -/
def startWalk (items : JsMap JsString (Provenance Id)) : Walk Id := ⟨[], false, items⟩

/-- The cursor of the checkpoint; at the start of a folder it is empty. -/
def Walk.storedCursor (walk : Walk Id) : Option JsString :=
  if walk.cursor = [] then none else some walk.cursor

/-- `processCollectionFetchPage`: records the items of a page unless they are there, and stores the
cursor for the next. A job that fails is tried again. -/
def fetchPage (folderId : JsString) (instants : ScopeInstants) (walk : Walk Id)
    (visit : Visit Id) : Option (Walk Id) :=
  if walk.finished then none
  else
    match listMessages folderId visit.mailbox (fun _ _ => visit.reply) instants
      walk.storedCursor with
    | .error _ => some walk
    | .ok (itemIds, nextCursor) =>
      some { cursor := nextCursor.getD []
             finished := nextCursor.isNone
             items := itemIds.foldl
               (fun items itemId => items.setNew itemId (visit.mailbox.provenance folderId itemId))
               walk.items }

/-! ### What a server promises -/

/-- A server answers a search with what matches in the range. It may find more: a range that begins
above the last UID is read backwards, and holds the last message. -/
structure Answers (mailbox : Mailbox Id) (sequence : JsString) (criteria : ImapSearchCriteria)
    (found : List ℕ) : Prop where
  nodup : found.Nodup
  complete : ∀ first, sequence = openEnded first → ∀ e ∈ mailbox.messages, first ≤ e.1 →
    e.2.Matches criteria → e.1 ∈ found
  sound : ∀ uid ∈ found, ∃ message, (uid, message) ∈ mailbox.messages

/-- Between two visits of one generation a message keeps its UID, and a new message gets a UID
above all others. -/
def Follows (mailbox later : Mailbox Id) : Prop :=
  mailbox.uidValidity = later.uidValidity → ∀ e ∈ later.messages,
    e ∈ mailbox.messages ∨ ∀ d ∈ mailbox.messages, d.1 < e.1

/-- Where a walk stands. -/
def Walk.position (walk : Walk Id) : Option UidCursor := walk.storedCursor.bind decodeUidCursor

/-- The range that a page of the walk searches. -/
def Walk.range (walk : Walk Id) (visit : Visit Id) : UidRange :=
  nextUidRange (decimal visit.mailbox.uidValidity) walk.position

/-- The visits of a walk are answered as the protocol says. -/
structure Lawful (folderId : JsString) (instants : ScopeInstants) (start : Walk Id)
    (visits : List (Visit Id)) : Prop where
  answers : Transition.Always (fetchPage folderId instants) (fun walk visit =>
    ∀ found, visit.reply = .ok found →
      Answers visit.mailbox (walk.range visit).sequence (searchCriteria instants) found)
    start visits
  follows : visits.Pairwise fun visit later => Follows visit.mailbox later.mailbox
/-! ### What is claimed -/

/-- One of the visits has listed the message, in this generation of the mailbox. -/
def ListedIn (visits : List (Visit Id)) (uidValidity : ℕ) (e : ℕ × ImapMessage Id) : Prop :=
  ∃ visit ∈ visits, visit.mailbox.uidValidity = uidValidity ∧ InPage visit.found e.1 ∧
    e ∈ visit.mailbox.messages

/-- A walk misses nothing, whatever happens to the mailbox between its pages. -/
structure WalksCompletely (folderId : JsString) (instants : ScopeInstants) (start : Walk Id)
    (visits : List (Visit Id)) : Prop where
  /-- after the last page there is an item for every message that has been there all the time -/
  complete : ∀ walk, Transition.run (fetchPage folderId instants) start visits = some walk →
    walk.finished → ∀ message : ImapMessage Id, message.Matches (searchCriteria instants) →
      (∀ visit ∈ visits, ∃ uid, (uid, message) ∈ visit.mailbox.messages) →
        ∃ uid item, JsMap.get? walk.items (providerItemId folderId uid) = some item ∧
          item.message = some message
  /-- what is below the range of a page has been listed, in the same generation -/
  skipsNothing : ∀ earlier visit later walk, visits = earlier ++ visit :: later →
    Transition.run (fetchPage folderId instants) start earlier = some walk →
      ∀ e ∈ visit.mailbox.messages, e.1 < (walk.range visit).first →
        e.2.Matches (searchCriteria instants) → ListedIn earlier visit.mailbox.uidValidity e
  /-- the items of a page are of its generation -/
  generations : ∀ earlier visit later walk next itemIds nextCursor,
    visits = earlier ++ visit :: later →
    Transition.run (fetchPage folderId instants) start earlier = some walk →
    fetchPage folderId instants walk visit = some next →
    listMessages folderId visit.mailbox (fun _ _ => visit.reply) instants walk.storedCursor =
      .ok (itemIds, nextCursor) →
      ∀ itemId ∈ itemIds, ∀ item, JsMap.get? next.items itemId = some item →
        item.uidValidity = visit.mailbox.uidValidity

/-- Pages of different generations have no UID in common. -/
def SharesNoUid (visits : List (Visit Id)) : Prop :=
  visits.Pairwise fun visit later => visit.mailbox.uidValidity = later.mailbox.uidValidity ∨
    ∀ uid, InPage visit.found uid → ¬ InPage later.found uid

/-! ### Steps -/

variable {folderId : JsString} {instants : ScopeInstants}

/-- The items after a page. -/
theorem get?_recorded (f : JsString → Provenance Id) (itemIds : List JsString)
    (items : JsMap JsString (Provenance Id)) (k : JsString) :
    JsMap.get? (itemIds.foldl (fun items itemId => items.setNew itemId (f itemId)) items) k =
      (JsMap.get? items k).or (if k ∈ itemIds then some (f k) else none) := by
  induction itemIds generalizing items with
  | nil => simp
  | cons itemId itemIds ih =>
    rw [List.foldl_cons, ih, JsMap.get?_setNew]
    by_cases hk : itemId = k
    · subst hk
      cases JsMap.get? items itemId <;> simp
    · simp [hk, Ne.symm hk]

/-- The cursor that a page has stored is where the next one begins. -/
theorem position_encode (uidValidity lastUid : ℕ) (items : JsMap JsString (Provenance Id)) :
    Walk.position ⟨encodeUidCursor ⟨decimal uidValidity, lastUid⟩, false, items⟩ =
      some ⟨decimal uidValidity, lastUid⟩ := by
  have hne : encodeUidCursor ⟨decimal uidValidity, lastUid⟩ ≠ [] := by
    simp [encodeUidCursor, show js ":" = [colon] from rfl]
  rw [Walk.position, Walk.storedCursor, if_neg hne]
  exact decode_encode uidValidity lastUid

/-- What a page job does. -/
theorem fetchPage_cases {walk next : Walk Id} {visit : Visit Id}
    (h : fetchPage folderId instants walk visit = some next) :
    walk.finished = false ∧ ((∃ refusal, visit.reply = .error refusal ∧ next = walk) ∨
      ∃ found, visit.reply = .ok found ∧
        let taken := takeUidPage (decimal visit.mailbox.uidValidity) found
        next.finished = taken.cursor.isNone ∧ next.position = taken.cursor ∧
          ∀ k, JsMap.get? next.items k = (JsMap.get? walk.items k).or
            (if k ∈ taken.uids.map (providerItemId folderId) then
              some (visit.mailbox.provenance folderId k) else none)) := by
  rw [fetchPage] at h
  split_ifs at h with hfinished
  refine ⟨Bool.eq_false_iff.mpr hfinished, ?_⟩
  rw [listMessages] at h
  rcases hreply : visit.reply with refusal | found
  · rw [hreply] at h
    refine .inl ⟨refusal, rfl, ?_⟩
    cases refusal <;> exact (Option.some.inj h).symm
  · rw [hreply] at h
    obtain rfl := (Option.some.inj h).symm
    refine .inr ⟨found, rfl, ?_, ?_, fun k => get?_recorded _ _ _ k⟩
    · simp
    · rcases hcursor : (takeUidPage (decimal visit.mailbox.uidValidity) found).cursor with
        _ | ⟨uidValidity, lastUid⟩
      · rfl
      · have hgeneration : uidValidity = decimal visit.mailbox.uidValidity := by
          simp only [takeUidPage] at hcursor
          split_ifs at hcursor
          obtain ⟨last, -, hlast⟩ := Option.map_eq_some_iff.mp hcursor
          exact (congrArg UidCursor.uidValidity hlast).symm
        subst hgeneration
        exact position_encode visit.mailbox.uidValidity lastUid _

/-! ### Windows -/

theorem ListedIn.mono {visits more : List (Visit Id)} {uidValidity : ℕ} {e : ℕ × ImapMessage Id}
    (h : ListedIn visits uidValidity e) (hmore : visits ⊆ more) : ListedIn more uidValidity e := by
  obtain ⟨visit, hvisit, hlisted⟩ := h
  exact ⟨visit, hmore hvisit, hlisted⟩

/-- How far the visits have taken a walk. -/
structure Reached (instants : ScopeInstants) (visits : List (Visit Id)) (walk : Walk Id) :
    Prop where
  /-- a walk that is finished has listed all that its last visit has seen -/
  finished : walk.finished → ∃ visit ∈ visits, ∀ e ∈ visit.mailbox.messages,
    e.2.Matches (searchCriteria instants) → ListedIn visits visit.mailbox.uidValidity e
  /-- one that is not has listed all up to its cursor -/
  position : ∀ cursor, walk.position = some cursor → ∃ visit ∈ visits,
    cursor.uidValidity = decimal visit.mailbox.uidValidity ∧
      (∃ message, (cursor.lastUid, message) ∈ visit.mailbox.messages) ∧
        ∀ e ∈ visit.mailbox.messages, e.1 ≤ cursor.lastUid →
          e.2.Matches (searchCriteria instants) → ListedIn visits visit.mailbox.uidValidity e

/-- What is below the next range has been listed, in the generation that is walked. -/
theorem Reached.listed {visits : List (Visit Id)} {walk : Walk Id} {visit : Visit Id}
    (h : Reached instants visits walk)
    (hfollows : ∀ earlier ∈ visits, Follows earlier.mailbox visit.mailbox) :
    ∀ e ∈ visit.mailbox.messages, e.1 < (walk.range visit).first →
      e.2.Matches (searchCriteria instants) → ListedIn visits visit.mailbox.uidValidity e := by
  intro e he hbelow hmatches
  have hpos := visit.mailbox.uid_pos e he
  rcases hposition : walk.position with _ | cursor
  · simp only [Walk.range, hposition, nextUidRange] at hbelow
    omega
  · obtain ⟨earlier, hearlier, hgeneration, ⟨message, hlast⟩, hlisted⟩ := h.position cursor hposition
    simp only [Walk.range, hposition, nextUidRange] at hbelow
    split_ifs at hbelow with hstale
    · have hfirst : e.1 < 1 := hbelow
      omega
    · -- the message has been there already, because those after the cursor have larger UIDs
      have heq : earlier.mailbox.uidValidity = visit.mailbox.uidValidity := by
        apply decimal_injective
        rw [← hgeneration]
        exact not_not.mp hstale
      have hle : e.1 ≤ cursor.lastUid := Nat.lt_succ_iff.mp hbelow
      rcases hfollows earlier hearlier heq e he with hthere | hnew
      · rw [← heq]
        exact hlisted e hthere hle hmatches
      · exact absurd (hnew _ hlast) (not_lt.mpr hle)

theorem Lawful.left {start : Walk Id} {visits more : List (Visit Id)}
    (h : Lawful folderId instants start (visits ++ more)) :
    Lawful folderId instants start visits :=
  ⟨(Transition.Always.append.mp h.answers).1, (List.pairwise_append.mp h.follows).1⟩

theorem Lawful.concat {start : Walk Id} {visits : List (Visit Id)} {visit : Visit Id}
    (h : Lawful folderId instants start (visits ++ [visit])) :
    (∀ earlier ∈ visits, Follows earlier.mailbox visit.mailbox) ∧
      ∀ walk, Transition.run (fetchPage folderId instants) start visits = some walk →
        ∀ found, visit.reply = .ok found → Answers visit.mailbox (walk.range visit).sequence
          (searchCriteria instants) found := by
  obtain ⟨hanswers, hfollows⟩ := h
  obtain ⟨-, hlast⟩ := Transition.Always.append.mp hanswers
  obtain ⟨-, -, hcross⟩ := List.pairwise_append.mp hfollows
  refine ⟨?_, fun walk hwalk => (hlast walk hwalk).1⟩
  exact fun earlier hearlier => hcross earlier hearlier visit (List.mem_singleton_self visit)

/-- A run up to one of its pages, and that page. -/
theorem run_split {start walk : Walk Id} {earlier later : List (Visit Id)} {visit : Visit Id}
    (h : Transition.run (fetchPage folderId instants) start (earlier ++ visit :: later) =
      some walk) :
    ∃ middle next, Transition.run (fetchPage folderId instants) start earlier = some middle ∧
      fetchPage folderId instants middle visit = some next ∧
        Transition.run (fetchPage folderId instants) start (earlier ++ [visit]) = some next := by
  obtain ⟨middle, hmiddle, hrest⟩ := Transition.run_append.mp h
  obtain ⟨next, hnext, -⟩ := Transition.run_cons.mp hrest
  refine ⟨middle, next, hmiddle, hnext, Transition.run_append.mpr ⟨middle, hmiddle, ?_⟩⟩
  exact Transition.run_cons.mpr ⟨next, hnext, rfl⟩

/-- **A page reaches as far as its cursor says.** -/
theorem Reached.fetchPage {visits : List (Visit Id)} {walk next : Walk Id} {visit : Visit Id}
    (h : Reached instants visits walk)
    (hfollows : ∀ earlier ∈ visits, Follows earlier.mailbox visit.mailbox)
    (hanswers : ∀ found, visit.reply = .ok found → Answers visit.mailbox
      (walk.range visit).sequence (searchCriteria instants) found)
    (hstep : fetchPage folderId instants walk visit = some next) :
    Reached instants (visits ++ [visit]) next := by
  have hsub : visits ⊆ visits ++ [visit] := List.subset_append_left visits [visit]
  have hself : visit ∈ visits ++ [visit] := List.mem_append_right _ (List.mem_singleton_self visit)
  obtain ⟨hfinished, ⟨refusal, hreply, rfl⟩ | ⟨found, hreply, hnext, hposition, -⟩⟩ :=
    fetchPage_cases hstep
  · refine ⟨fun hnext => absurd hnext (by simp [hfinished]), fun cursor hcursor => ?_⟩
    obtain ⟨earlier, hearlier, hgeneration, hlast, hlisted⟩ := h.position cursor hcursor
    exact ⟨earlier, hsub hearlier, hgeneration, hlast, fun e he hle hmatches =>
      (hlisted e he hle hmatches).mono hsub⟩
  · have hanswer := hanswers found hreply
    have hfound : visit.found = found := by rw [Visit.found, hreply]
    -- a message of the mailbox is below the range, or it has been found
    have hcovered : ∀ e ∈ visit.mailbox.messages, e.2.Matches (searchCriteria instants) →
        (e.1 ∈ found → InPage found e.1) →
          ListedIn (visits ++ [visit]) visit.mailbox.uidValidity e := by
      intro e he hmatches hpage
      rcases lt_or_ge e.1 (walk.range visit).first with hbelow | hrange
      · exact (h.listed hfollows e he hbelow hmatches).mono hsub
      · have hmem := hanswer.complete _ (sequence_nextUidRange _ _) e he hrange hmatches
        exact ⟨visit, hself, rfl, by rw [hfound]; exact hpage hmem, he⟩
    refine ⟨fun hfin => ⟨visit, hself, fun e he hmatches => hcovered e he hmatches ?_⟩,
      fun cursor hcursor => ⟨visit, hself, ?_⟩⟩
    · rw [hnext, Option.isNone_iff_eq_none] at hfin
      exact inPage_of_exhausted hfin hanswer.nodup
    · rw [hposition] at hcursor
      obtain ⟨hgeneration, hlast, hle⟩ := inPage_of_le hcursor hanswer.nodup
      refine ⟨hgeneration, hanswer.sound _ hlast, fun e he hbelow hmatches => ?_⟩
      exact hcovered e he hmatches fun hmem => hle _ hmem hbelow

theorem reached_run {items : JsMap JsString (Provenance Id)} {visits : List (Visit Id)}
    {walk : Walk Id} (hlawful : Lawful folderId instants (startWalk items) visits)
    (h : Transition.run (fetchPage folderId instants) (startWalk items) visits = some walk) :
    Reached instants visits walk := by
  induction visits using List.reverseRecOn generalizing walk with
  | nil =>
    cases h
    exact ⟨by rintro ⟨⟩, by rintro cursor ⟨⟩⟩
  | append_singleton visits visit ih =>
    obtain ⟨hfollows, hanswers⟩ := hlawful.concat
    obtain ⟨middle, next, hmiddle, hstep, hnext⟩ := run_split h
    obtain rfl := Option.some.inj (hnext.symm.trans h)
    exact (ih hlawful.left hmiddle).fetchPage hfollows (hanswers middle hmiddle) hstep

/-! ### Generations -/

theorem providerItemId_inj {uid v : ℕ} :
    providerItemId folderId uid = providerItemId folderId v ↔ uid = v := by
  refine ⟨fun h => decimal_injective (List.append_cancel_left h), ?_⟩
  rintro rfl
  rfl

/-- The items of a page that was answered. -/
theorem itemId_mem_page {visit : Visit Id} {found : List ℕ} (hreply : visit.reply = .ok found)
    (hnodup : found.Nodup) {uid : ℕ} :
    providerItemId folderId uid ∈
      (takeUidPage (decimal visit.mailbox.uidValidity) found).uids.map (providerItemId folderId) ↔
      InPage visit.found uid := by
  rw [Visit.found, hreply, ← mem_uids_iff (decimal visit.mailbox.uidValidity) hnodup]
  simp [providerItemId_inj]

/-- **An item is for the first visit that has listed its UID.** -/
theorem items_run {items : JsMap JsString (Provenance Id)}
    (hitems : ∀ uid, providerItemId folderId uid ∉ items.map Prod.fst) {visits : List (Visit Id)}
    {walk : Walk Id} (hlawful : Lawful folderId instants (startWalk items) visits)
    (h : Transition.run (fetchPage folderId instants) (startWalk items) visits = some walk)
    (uid : ℕ) : JsMap.get? walk.items (providerItemId folderId uid) =
      (visits.find? fun visit => InPage visit.found uid).map fun visit =>
        visit.mailbox.provenance folderId (providerItemId folderId uid) := by
  induction visits using List.reverseRecOn generalizing walk with
  | nil =>
    cases h
    exact JsMap.get?_eq_none (hitems uid)
  | append_singleton visits visit ih =>
    obtain ⟨-, hanswers⟩ := hlawful.concat
    obtain ⟨middle, next, hmiddle, hstep, hnext⟩ := run_split h
    obtain rfl := Option.some.inj (hnext.symm.trans h)
    have hih := ih hlawful.left hmiddle
    obtain ⟨-, ⟨refusal, hreply, rfl⟩ | ⟨found, hreply, -, -, hget⟩⟩ := fetchPage_cases hstep
    · have hnot : ¬ InPage visit.found uid := by simp [Visit.found, hreply, InPage]
      rw [hih, List.find?_append]
      simp [hnot]
    · rw [hget, hih, List.find?_append]
      simp only [itemId_mem_page hreply (hanswers middle hmiddle found hreply).nodup]
      cases visits.find? fun visit => InPage visit.found uid with
      | some earlier => simp
      | none =>
        by_cases hpage : InPage visit.found uid <;> simp [hpage]

/-- Visits that have listed a UID are of one generation. -/
theorem sharesNoUid_iff {visits : List (Visit Id)} :
    SharesNoUid visits ↔ ∀ visit ∈ visits, ∀ other ∈ visits, ∀ uid, InPage visit.found uid →
      InPage other.found uid → visit.mailbox.uidValidity = other.mailbox.uidValidity := by
  refine ⟨?_, ?_⟩
  · intro h visit hvisit other hother uid hpage hpage'
    have hsymm : Std.Symm fun visit other : Visit Id =>
        visit.mailbox.uidValidity = other.mailbox.uidValidity ∨
          ∀ uid, InPage visit.found uid → ¬ InPage other.found uid :=
      ⟨fun _ _ h => h.imp Eq.symm fun h uid hpage hpage' => h uid hpage' hpage⟩
    by_cases heq : visit = other
    · rw [heq]
    · rcases List.Pairwise.forall h hvisit hother heq with hsame | hdisjoint
      · exact hsame
      · exact absurd hpage' (hdisjoint uid hpage)
  · intro h
    refine List.pairwise_of_forall_mem_list fun visit hvisit other hother => ?_
    by_cases hsame : visit.mailbox.uidValidity = other.mailbox.uidValidity
    · exact .inl hsame
    · exact .inr fun uid hpage hpage' => hsame (h visit hvisit other hother uid hpage hpage')

/-- The first visit that has listed a UID. -/
theorem exists_first {visits : List (Visit Id)} {visit : Visit Id} {uid : ℕ}
    (hvisit : visit ∈ visits) (hpage : InPage visit.found uid) :
    ∃ first ∈ visits, (visits.find? fun visit => InPage visit.found uid) = some first ∧
      InPage first.found uid := by
  have hsome : (visits.find? fun visit => InPage visit.found uid).isSome := by
    rw [List.find?_isSome]
    exact ⟨visit, hvisit, by simpa using hpage⟩
  obtain ⟨first, hfirst⟩ := Option.isSome_iff_exists.mp hsome
  exact ⟨first, List.mem_of_find?_eq_some hfirst, hfirst, by simpa using List.find?_some hfirst⟩

/-- The message of a UID in a mailbox. -/
theorem provenance_message {mailbox : Mailbox Id} {e : ℕ × ImapMessage Id}
    (he : e ∈ mailbox.messages) :
    (mailbox.provenance folderId (providerItemId folderId e.1)).message = some e.2 := by
  have hget := (JsMap.mem_iff_get? mailbox.uid_nodup).mp he
  simp only [Mailbox.provenance, providerItemId_inj]
  exact hget

/-- In a mailbox a UID is of one message, -/
theorem Mailbox.message_unique {mailbox : Mailbox Id} {uid : ℕ} {message message' : ImapMessage Id}
    (h : (uid, message) ∈ mailbox.messages) (h' : (uid, message') ∈ mailbox.messages) :
    message = message' := by
  rw [JsMap.mem_iff_get? mailbox.uid_nodup] at h h'
  exact Option.some.inj (h.symm.trans h')

/-- and so it is in all of a generation. -/
theorem mem_of_follows {visits : List (Visit Id)}
    (hfollows : visits.Pairwise fun visit later => Follows visit.mailbox later.mailbox)
    {visit other : Visit Id} (hvisit : visit ∈ visits) (hother : other ∈ visits)
    (hsame : visit.mailbox.uidValidity = other.mailbox.uidValidity) {uid : ℕ}
    {message message' : ImapMessage Id} (h : (uid, message) ∈ visit.mailbox.messages)
    (h' : (uid, message') ∈ other.mailbox.messages) : message = message' := by
  have hpairwise : visits.Pairwise fun visit other =>
      visit.mailbox.uidValidity = other.mailbox.uidValidity → ∀ message message',
        (uid, message) ∈ visit.mailbox.messages → (uid, message') ∈ other.mailbox.messages →
          message = message' := by
    refine hfollows.imp fun {visit other} hfollows hsame message message' h h' => ?_
    rcases hfollows hsame _ h' with hthere | hnew
    · exact visit.mailbox.message_unique h hthere
    · exact absurd (hnew _ h) (lt_irrefl uid)
  have hsymm : Std.Symm fun visit other : Visit Id =>
      visit.mailbox.uidValidity = other.mailbox.uidValidity → ∀ message message',
        (uid, message) ∈ visit.mailbox.messages → (uid, message') ∈ other.mailbox.messages →
          message = message' :=
    ⟨fun _ _ hunique hsame _ _ h h' => (hunique hsame.symm _ _ h' h).symm⟩
  by_cases heq : visit = other
  · subst heq
    exact visit.mailbox.message_unique h h'
  · exact hpairwise.forall hvisit hother heq hsame message message' h h'

/-- What `listMessages` gives a page of a walk. -/
theorem listMessages_eq_ok {visit : Visit Id} {cursor : Option JsString}
    {itemIds : List JsString} {nextCursor : Option JsString} :
    listMessages folderId visit.mailbox (fun _ _ => visit.reply) instants cursor =
        .ok (itemIds, nextCursor) ↔
      ∃ found, visit.reply = .ok found ∧
        itemIds = (takeUidPage (decimal visit.mailbox.uidValidity) found).uids.map
          (providerItemId folderId) ∧
        nextCursor = (takeUidPage (decimal visit.mailbox.uidValidity) found).cursor.map
          encodeUidCursor := by
  rw [listMessages]
  rcases visit.reply with refusal | found
  · cases refusal <;> simp
  · simp [eq_comm]

/-- What is known of the answer to a visit of a walk. -/
theorem found_of_mem {start walk : Walk Id} {visits : List (Visit Id)}
    (hlawful : Lawful folderId instants start visits)
    (h : Transition.run (fetchPage folderId instants) start visits = some walk) {visit : Visit Id}
    (hvisit : visit ∈ visits) :
    visit.found.Nodup ∧ ∀ uid ∈ visit.found, ∃ message, (uid, message) ∈ visit.mailbox.messages := by
  obtain ⟨earlier, later, rfl⟩ := List.append_of_mem hvisit
  obtain ⟨middle, next, hmiddle, -, -⟩ := run_split h
  rw [← List.singleton_append, ← List.append_assoc] at hlawful
  have hanswers := hlawful.left.concat.2 middle hmiddle
  rcases hreply : visit.reply with refusal | found
  · simp [Visit.found, hreply]
  · rw [Visit.found, hreply]
    exact ⟨(hanswers found hreply).nodup, (hanswers found hreply).sound⟩

section Complete

variable {items : JsMap JsString (Provenance Id)} {visits : List (Visit Id)} {walk : Walk Id}

/-- If the items of every page are of its generation, then the first visit that has listed a UID is
of the generation of every other. -/
theorem first_generation (hitems : ∀ uid, providerItemId folderId uid ∉ items.map Prod.fst)
    (hlawful : Lawful folderId instants (startWalk items) visits)
    (h : Transition.run (fetchPage folderId instants) (startWalk items) visits = some walk)
    (hcomplete : WalksCompletely folderId instants (startWalk items) visits) {visit : Visit Id}
    (hvisit : visit ∈ visits) {uid : ℕ} (hpage : InPage visit.found uid) {first : Visit Id}
    (hfirst : (visits.find? fun visit => InPage visit.found uid) = some first) :
    first.mailbox.uidValidity = visit.mailbox.uidValidity := by
  have hnodup := (found_of_mem hlawful h hvisit).1
  obtain ⟨earlier, later, rfl⟩ := List.append_of_mem hvisit
  obtain ⟨middle, next, hmiddle, hstep, hnext⟩ := run_split h
  rw [← List.singleton_append, ← List.append_assoc] at hlawful hfirst
  -- up to the visit it is the same
  obtain ⟨first', -, hfirst', -⟩ := exists_first
    (List.mem_append_right earlier (List.mem_singleton_self visit)) hpage
  obtain rfl : first' = first := by
    rw [List.find?_append, hfirst', Option.some_or] at hfirst
    exact Option.some.inj hfirst
  have hitem := items_run hitems hlawful.left hnext uid
  rw [hfirst', Option.map_some] at hitem
  rcases hreply : visit.reply with refusal | found
  · simp [Visit.found, hreply, InPage] at hpage
  · rw [Visit.found, hreply] at hnodup
    exact hcomplete.generations earlier visit later middle next _ _ rfl hmiddle hstep
      (listMessages_eq_ok.mpr ⟨found, hreply, rfl, rfl⟩) _
      ((itemId_mem_page hreply hnodup).mpr hpage) _ hitem

/-- Then no two generations have listed the same UID. -/
theorem sharesNoUid_of_complete (hitems : ∀ uid, providerItemId folderId uid ∉ items.map Prod.fst)
    (hlawful : Lawful folderId instants (startWalk items) visits)
    (h : Transition.run (fetchPage folderId instants) (startWalk items) visits = some walk)
    (hcomplete : WalksCompletely folderId instants (startWalk items) visits) :
    SharesNoUid visits := by
  rw [sharesNoUid_iff]
  intro visit hvisit other hother uid hpage hpage'
  obtain ⟨first, -, hfirst, -⟩ := exists_first hvisit hpage
  rw [← first_generation hitems hlawful h hcomplete hvisit hpage hfirst,
    first_generation hitems hlawful h hcomplete hother hpage' hfirst]

/-- If they have not, every message of a finished walk has an item. -/
theorem recorded_of_finished (hitems : ∀ uid, providerItemId folderId uid ∉ items.map Prod.fst)
    (hlawful : Lawful folderId instants (startWalk items) visits)
    (h : Transition.run (fetchPage folderId instants) (startWalk items) visits = some walk)
    (hshares : SharesNoUid visits) (hfinished : walk.finished) :
    ∃ last ∈ visits, ∀ e ∈ last.mailbox.messages, e.2.Matches (searchCriteria instants) →
      ∃ item, JsMap.get? walk.items (providerItemId folderId e.1) = some item ∧
        item.message = some e.2 := by
  obtain ⟨last, hlast, hlisted⟩ := (reached_run hlawful h).finished hfinished
  refine ⟨last, hlast, fun e he hmatches => ?_⟩
  obtain ⟨visit, hvisit, -, hpage, hmem⟩ := hlisted e he hmatches
  -- the first visit that has listed the UID is of the same generation
  obtain ⟨first, hfirst, hfind, hpage'⟩ := exists_first hvisit hpage
  have hsame := sharesNoUid_iff.mp hshares first hfirst visit hvisit e.1 hpage' hpage
  obtain ⟨message, hmessage⟩ := (found_of_mem hlawful h hfirst).2 e.1 hpage'.1
  obtain rfl := mem_of_follows hlawful.follows hfirst hvisit hsame hmessage hmem
  have hitem := items_run hitems hlawful h e.1
  rw [hfind, Option.map_some] at hitem
  exact ⟨_, hitem, provenance_message hmessage⟩

/-- And the items of a page are of its generation. -/
theorem generation_of_page (hitems : ∀ uid, providerItemId folderId uid ∉ items.map Prod.fst)
    {earlier later : List (Visit Id)} {visit : Visit Id} {middle next : Walk Id}
    (hlawful : Lawful folderId instants (startWalk items) (earlier ++ visit :: later))
    (hmiddle : Transition.run (fetchPage folderId instants) (startWalk items) earlier = some middle)
    (hstep : fetchPage folderId instants middle visit = some next)
    (hshares : SharesNoUid (earlier ++ visit :: later)) {uid : ℕ} (hpage : InPage visit.found uid)
    {item : Provenance Id}
    (hitem : JsMap.get? next.items (providerItemId folderId uid) = some item) :
    item.uidValidity = visit.mailbox.uidValidity := by
  rw [← List.singleton_append, ← List.append_assoc] at hlawful hshares
  have hnext : Transition.run (fetchPage folderId instants) (startWalk items)
      (earlier ++ [visit]) = some next :=
    Transition.run_append.mpr ⟨middle, hmiddle, Transition.run_cons.mpr ⟨next, hstep, rfl⟩⟩
  rw [items_run hitems hlawful.left hnext uid] at hitem
  obtain ⟨first, hfirst, rfl⟩ := Option.map_eq_some_iff.mp hitem
  have hpage' : InPage first.found uid := by simpa using List.find?_some hfirst
  exact sharesNoUid_iff.mp hshares first
    (List.mem_append_left _ (List.mem_of_find?_eq_some hfirst)) visit
    (List.mem_append_left _ (List.mem_append_right _ (List.mem_singleton_self visit)))
    uid hpage' hpage

/-- **A walk through a mailbox is complete** exactly if the UIDs that its pages list in different
generations of the mailbox are different. -/
theorem walksCompletely_iff (hitems : ∀ uid, providerItemId folderId uid ∉ items.map Prod.fst)
    (hlawful : Lawful folderId instants (startWalk items) visits)
    (h : Transition.run (fetchPage folderId instants) (startWalk items) visits = some walk) :
    WalksCompletely folderId instants (startWalk items) visits ↔ SharesNoUid visits := by
  refine ⟨sharesNoUid_of_complete hitems hlawful h, fun hshares => ⟨?_, ?_, ?_⟩⟩
  · intro walk' hwalk' hfinished message hmatches hpresent
    obtain rfl := Option.some.inj (h.symm.trans hwalk')
    obtain ⟨last, hlast, hrecorded⟩ := recorded_of_finished hitems hlawful h hshares hfinished
    obtain ⟨uid, huid⟩ := hpresent last hlast
    exact ⟨uid, hrecorded (uid, message) huid hmatches⟩
  · intro earlier visit later middle hsplit hmiddle
    subst hsplit
    refine (reached_run hlawful.left hmiddle).listed fun before hbefore => ?_
    exact (List.pairwise_append.mp hlawful.follows).2.2 before hbefore visit
      (List.mem_cons_self ..)
  · intro earlier visit later middle next itemIds nextCursor hsplit hmiddle hstep hlist itemId
      hitemId item hitem
    subst hsplit
    have hnodup := (found_of_mem hlawful h (List.mem_append_right _ (List.mem_cons_self ..))).1
    obtain ⟨found, hreply, rfl, -⟩ := listMessages_eq_ok.mp hlist
    obtain ⟨uid, -, rfl⟩ := List.mem_map.mp hitemId
    rw [Visit.found, hreply] at hnodup
    have hpage := (itemId_mem_page hreply hnodup).mp hitemId
    exact generation_of_page hitems hlawful hmiddle hstep hshares hpage hitem

end Complete

/-- The walk can go on until it is finished. -/
theorem exists_fetchPage (folderId : JsString) (instants : ScopeInstants) (walk : Walk Id)
    (visit : Visit Id) {found : List ℕ} (hreply : visit.reply = .ok found) (hfinished : walk.finished = false) :
    ∃ next, fetchPage folderId instants walk visit = some next ∧ next.finished =
      (takeUidPage (decimal visit.mailbox.uidValidity) found).cursor.isNone := by
  rw [fetchPage, if_neg (Bool.eq_false_iff.mp hfinished), listMessages, hreply]
  exact ⟨_, rfl, by simp⟩

/-- A visit of which all messages are found. -/
def Mailbox.visited (mailbox : Mailbox Id) : Visit Id :=
  ⟨mailbox, .ok (mailbox.messages.map Prod.fst)⟩

theorem reply_visited (mailbox : Mailbox Id) :
    mailbox.visited.reply = .ok (mailbox.messages.map Prod.fst) := rfl

theorem lawful_visited {start : Walk Id} {mailboxes : List (Mailbox Id)}
    (h : mailboxes.Pairwise Follows) :
    Lawful folderId instants start (mailboxes.map Mailbox.visited) := by
  refine ⟨Transition.Always.of_forall_mem ?_, List.pairwise_map.mpr h⟩
  intro visit hvisit walk found hfound
  obtain ⟨mailbox, -, rfl⟩ := List.mem_map.mp hvisit
  cases hfound
  refine ⟨mailbox.uid_nodup, ?_, ?_⟩
  · rintro first - e he - -
    exact List.mem_map_of_mem he
  · intro uid huid
    obtain ⟨e, he, rfl⟩ := List.mem_map.mp huid
    exact ⟨e.2, he⟩

end Walks

/-! ### A new generation -/

/-- Consecutive UIDs, beginning above `least`. -/
def numbers (least count : ℕ) : JsMap ℕ (ImapMessage ℕ) :=
  (List.range count).map fun i => (least + i + 1, ⟨i, 0, 0⟩)

theorem numbers_pos {least count : ℕ} : ∀ e ∈ numbers least count, 0 < e.1 := by
  intro e he
  obtain ⟨i, -, rfl⟩ := List.mem_map.mp he
  exact Nat.succ_pos _

theorem nodup_numbers (least count : ℕ) : ((numbers least count).map Prod.fst).Nodup := by
  rw [numbers, List.map_map]
  exact List.nodup_range.map fun i j h => Nat.add_left_cancel (Nat.succ.inj h)

/-- A mailbox with these messages. -/
def numbered (uidValidity least count : ℕ) : Mailbox ℕ where
  uidValidity := uidValidity
  messages := numbers least count
  uid_pos := numbers_pos
  uid_nodup := nodup_numbers least count

/-- The mailbox has 501 messages when its first page is listed. Then the server renumbers it, and
one is left. -/
def renumbered (least : ℕ) : List (Mailbox ℕ) := [numbered 1 0 501, numbered 2 least 1]

theorem follows_renumbered (least : ℕ) : (renumbered least).Pairwise Follows := by
  refine List.pairwise_pair.mpr fun h => ?_
  have hne : (1 : ℕ) ≠ 2 := by decide
  exact absurd h hne

/-- The second page is the last. -/
theorem run_renumbered (least : ℕ) : ∃ walk : Walk ℕ,
    Transition.run (fetchPage (js "INBOX") ⟨none, none⟩) (startWalk [])
      ((renumbered least).map Mailbox.visited) = some walk ∧ walk.finished := by
  obtain ⟨middle, hstep, hmiddle⟩ := exists_fetchPage (js "INBOX") ⟨none, none⟩ (startWalk [])
    (numbered 1 0 501).visited (reply_visited _) rfl
  have hpage : middle.finished = false := by
    rw [hmiddle]
    decide +kernel
  obtain ⟨walk, hstep', hwalk⟩ := exists_fetchPage (js "INBOX") ⟨none, none⟩ middle
    (numbered 2 least 1).visited (reply_visited _) hpage
  refine ⟨walk, Transition.run_cons.mpr ⟨middle, hstep, ?_⟩, hwalk.trans rfl⟩
  exact Transition.run_cons.mpr ⟨walk, hstep', rfl⟩

theorem mem_found_numbered {uidValidity least count uid : ℕ} :
    uid ∈ (numbered uidValidity least count).visited.found ↔ uid ≤ least + count ∧ least < uid := by
  rw [Visit.found, reply_visited]
  simp only [numbered, numbers, List.map_map, List.mem_map, List.mem_range, Function.comp_apply]
  refine ⟨?_, ?_⟩
  · rintro ⟨i, hi, rfl⟩
    omega
  · rintro ⟨hle, hlt⟩
    exact ⟨uid - least - 1, by omega, by omega⟩

theorem sharesNoUid_renumbered {least : ℕ} :
    SharesNoUid ((renumbered least).map Mailbox.visited) ↔
      ∀ uid, InPage (numbered 1 0 501).visited.found uid →
        ¬ InPage (numbered 2 least 1).visited.found uid := by
  have hne : (numbered 1 0 501).visited.mailbox.uidValidity ≠
      (numbered 2 least 1).visited.mailbox.uidValidity := Nat.succ_ne_self 1 ∘ Eq.symm
  rw [SharesNoUid, renumbered, List.map_cons, List.map_singleton, List.pairwise_pair,
    or_iff_right hne]

/-- **A UID of two generations is one item.** The message that has UID 1 now is taken for the one
that had it before. -/
theorem renumbered_incomplete : ∃ visits : List (Visit ℕ),
    Lawful (js "INBOX") ⟨none, none⟩ (startWalk []) visits ∧
      (∃ walk, Transition.run (fetchPage (js "INBOX") ⟨none, none⟩) (startWalk []) visits =
        some walk ∧ walk.finished) ∧
      ¬ WalksCompletely (js "INBOX") ⟨none, none⟩ (startWalk []) visits := by
  have hlawful : Lawful (js "INBOX") ⟨none, none⟩ (startWalk [])
      ((renumbered 0).map Mailbox.visited) := lawful_visited (follows_renumbered 0)
  obtain ⟨walk, hrun, hfinished⟩ := run_renumbered 0
  refine ⟨_, hlawful, ⟨walk, hrun, hfinished⟩, fun hcomplete => ?_⟩
  have hshares := sharesNoUid_renumbered.mp
    (sharesNoUid_of_complete (by simp) hlawful hrun hcomplete)
  have hfirst : InPage (numbered 1 0 501).visited.found 1 := by decide +kernel
  have hsecond : InPage (numbered 2 0 1).visited.found 1 := by decide
  exact hshares 1 hfirst hsecond

/-- With a UID that is new, nothing is lost. -/
theorem walksCompletely_renumbered :
    Lawful (js "INBOX") ⟨none, none⟩ (startWalk []) ((renumbered 501).map Mailbox.visited) ∧
      WalksCompletely (js "INBOX") ⟨none, none⟩ (startWalk [])
        ((renumbered 501).map Mailbox.visited) := by
  obtain ⟨walk, hrun, -⟩ := run_renumbered 501
  have hlawful : Lawful (js "INBOX") ⟨none, none⟩ (startWalk [])
      ((renumbered 501).map Mailbox.visited) := lawful_visited (follows_renumbered 501)
  refine ⟨hlawful, (walksCompletely_iff (by simp) hlawful hrun).mpr ?_⟩
  refine sharesNoUid_renumbered.mpr fun uid hfirst hsecond => ?_
  obtain ⟨hlt, -⟩ := mem_found_numbered.mp hfirst.1
  obtain ⟨-, hlt'⟩ := mem_found_numbered.mp hsecond.1
  omega

end AegCloudDfir.Collection
