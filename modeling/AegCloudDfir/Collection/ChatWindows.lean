import AegCloudDfir.Collection.DateWindows
import AegCloudDfir.Js.Collections

/-!
# The window of a chat collection

Slack asks for the top-level messages of a window, `fetchMessagePage` of
`packages/connectors/src/slack/connector.ts`, and fetches the whole thread of every one that has
a thread; `collection-fetch-page.ts` records what comes back. So a reply is recorded with its
parent, whenever it was written itself, and the bounds of Slack include both ends.

A timestamp of Slack, `ts`, is a number of microseconds here.
-/

namespace AegCloudDfir.Collection

/-! ## Messages -/

/-- `RawSlackMessage`, as far as it decides what is fetched. -/
structure RawSlackMessage where
  ts : ℕ
  threadTs : Option ℕ
  replyCount : Option ℕ
  deriving DecidableEq

/-- `hasUnfetchedThread` -/
def hasUnfetchedThread (message : RawSlackMessage) : Bool :=
  match message.threadTs with
  | none => false
  | some threadTs => threadTs = message.ts ∧ message.replyCount.getD 0 > 0

/-- A `ts` as Slack writes it: seconds, with six digits behind the point. -/
def tsText (ts : ℕ) : JsString :=
  decimal (ts / 1000000) ++ js "." ++ paddedDecimal 6 (ts % 1000000)

/-- `messageId` -/
def messageId (channelId : JsString) (ts : ℕ) : JsString := channelId ++ js ":" ++ tsText ts

/-- `isoToSlackTs`, in microseconds: exact for whole seconds, and the instants of a window are
whole seconds (`zonedMidnightUtc_seconds`). -/
def isoToSlackTs (t : ℤ) : ℤ := t * 1000

/-! ## Slack -/

/-- A conversation: its top-level messages, and the replies to each. -/
structure Conversation where
  topLevel : List RawSlackMessage
  replies : RawSlackMessage → List RawSlackMessage
  /-- a `ts` is unique in a conversation -/
  distinct : ((topLevel.flatMap fun m => m :: replies m).map RawSlackMessage.ts).Nodup
  /-- a parent says that it is one -/
  threads : ∀ m ∈ topLevel, hasUnfetchedThread m ↔ replies m ≠ []

/-- All messages of a conversation. -/
def Conversation.messages (conversation : Conversation) : List RawSlackMessage :=
  conversation.topLevel.flatMap fun m => m :: conversation.replies m

/-- `oldest` and `latest` of a request, both inclusive. -/
def InBounds (oldest latest : Option ℤ) (ts : ℕ) : Prop :=
  (∀ t ∈ oldest, t ≤ ts) ∧ ∀ t ∈ latest, (ts : ℤ) ≤ t

instance (oldest latest : Option ℤ) (ts : ℕ) : Decidable (InBounds oldest latest ts) :=
  inferInstanceAs (Decidable (_ ∧ _))

/-- How Slack answers, with pages of any size. -/
structure SlackServer (conversation : Conversation) where
  /-- the pages of `conversations.history` -/
  pages : Option ℤ → Option ℤ → List (List RawSlackMessage)
  pages_ne_nil : ∀ oldest latest, pages oldest latest ≠ []
  pages_perm : ∀ oldest latest, (pages oldest latest).flatten.Perm
    (conversation.topLevel.filter fun m => InBounds oldest latest m.ts)
  /-- the pages of `conversations.replies`, which begin with the parent -/
  replyPages : ℕ → List (List RawSlackMessage)
  replyPages_perm : ∀ m ∈ conversation.topLevel,
    (replyPages m.ts).flatten.Perm (m :: conversation.replies m)

section Fetching

variable {conversation : Conversation} (server : SlackServer conversation)

/-- The answer of `conversations.history`: a page, and `next_cursor`. Which page a cursor is of
is for Slack to know; here it is the number of the page. -/
def SlackServer.history (oldest latest : Option ℤ) (cursor : Option JsString) :
    List RawSlackMessage × Option JsString :=
  let i := (cursor.map parseDecimal).getD 0
  (((server.pages oldest latest)[i]?).getD [],
    if i + 1 < (server.pages oldest latest).length then some (decimal (i + 1)) else some [])

/-- The replies that `fetchMessagePage` adds for a message: the thread without its parent. -/
def unfetchedReplies (message : RawSlackMessage) : List RawSlackMessage :=
  if hasUnfetchedThread message then
    (server.replyPages message.ts).flatten.filter fun reply => reply.ts ≠ message.ts
  else []

/-- `fetchMessagePage` -/
def fetchMessagePage (oldest latest : Option ℤ) (cursor : Option JsString) :
    List RawSlackMessage × Option JsString :=
  let (messages, nextCursor) := server.history oldest latest cursor
  (messages ++ messages.flatMap (unfetchedReplies server), nextCursor.filter fun c => c ≠ [])

/-- The jobs of a scope: each records the items of its page, unless they are recorded, and
enqueues the job for the next page if there is one. -/
def fetchPages (channelId : JsString) (instants : ScopeInstants) :
    ℕ → Option JsString → List JsString → Option (List JsString)
  | 0, _, _ => none
  | jobs + 1, cursor, items =>
    let (messages, nextCursor) := fetchMessagePage server (instants.since.map isoToSlackTs)
      (instants.untilExclusive.map isoToSlackTs) cursor
    let items := addAll items (messages.map fun m => messageId channelId m.ts)
    match nextCursor with
    | none => some items
    | some cursor => fetchPages channelId instants jobs (some cursor) items

/-- A message is in the window. -/
def InWindow (instants : ScopeInstants) (ts : ℕ) : Prop :=
  (∀ since ∈ instants.since, since * 1000 ≤ ts) ∧
    ∀ bound ∈ instants.untilExclusive, (ts : ℤ) < bound * 1000

/-- The jobs come to an end, and what they have recorded are the messages of the window. -/
def CollectsWindow (channelId : JsString) (instants : ScopeInstants) : Prop :=
  ∃ jobs items, fetchPages server channelId instants jobs none [] = some items ∧ items.Nodup ∧
    ∀ id, id ∈ items ↔
      ∃ m ∈ conversation.messages, InWindow instants m.ts ∧ id = messageId channelId m.ts

end Fetching

/-- The bounds of a scope hold a message. -/
def Listed (instants : ScopeInstants) (ts : ℕ) : Prop :=
  InBounds (instants.since.map isoToSlackTs) (instants.untilExclusive.map isoToSlackTs) ts

/-- The bounds hold no top-level message that the window does not hold, and the window holds a
reply exactly if the bounds hold its parent. -/
def ThreadsInWindow (conversation : Conversation) (instants : ScopeInstants) : Prop :=
  ∀ m ∈ conversation.topLevel, (Listed instants m.ts → InWindow instants m.ts) ∧
    ∀ reply ∈ conversation.replies m, Listed instants m.ts ↔ InWindow instants reply.ts

/-! ## Identifiers -/

theorem tsText_injective : Function.Injective tsText := by
  intro a b h
  have hpoint : js "." = [0x2E] := rfl
  have hdecimal : ∀ n, decimal n = paddedDecimal 0 n := fun n => by simp [paddedDecimal, padStartZero]
  rw [tsText, tsText, hpoint, hdecimal, hdecimal, List.append_assoc, List.append_assoc,
    List.singleton_append, List.singleton_append] at h
  obtain ⟨hseconds, hrest⟩ := paddedDecimal_sep_inj (by decide) h
  have hmicros := paddedDecimal_injective 6 hrest
  omega

theorem messageId_injective (channelId : JsString) : Function.Injective (messageId channelId) := by
  intro a b h
  exact tsText_injective (List.append_cancel_left h)

/-! ## What the jobs record -/

section Recording

variable {conversation : Conversation} {server : SlackServer conversation}
  {oldest latest : Option ℤ} {channelId : JsString} {instants : ScopeInstants}

/-- The cursor that the job for a page gets. -/
def pageCursor (i : ℕ) : Option JsString := if i = 0 then none else some (decimal i)

/-- The identifiers that the job for a page records. -/
def pageIds (server : SlackServer conversation) (channelId : JsString)
    (page : List RawSlackMessage) : List JsString :=
  (page ++ page.flatMap (unfetchedReplies server)).map fun m => messageId channelId m.ts

theorem fetchMessagePage_eq {i : ℕ} {page : List RawSlackMessage}
    (hpage : (server.pages oldest latest)[i]? = some page) :
    fetchMessagePage server oldest latest (pageCursor i) =
      (page ++ page.flatMap (unfetchedReplies server),
        if i + 1 < (server.pages oldest latest).length then pageCursor (i + 1) else none) := by
  have hindex : ((pageCursor i).map parseDecimal).getD 0 = i := by
    rw [pageCursor]
    split_ifs with hzero
    · exact hzero.symm
    · simp
  rw [fetchMessagePage, SlackServer.history]
  dsimp only
  rw [hindex, hpage, Option.getD_some]
  congr 1
  split_ifs
  · rw [pageCursor, if_neg (Nat.succ_ne_zero i)]
    exact Option.filter_some_pos (by simpa using decimal_ne_nil (i + 1))
  · rfl

/-- **The jobs read one page after another**, to the last one. -/
theorem fetchPages_eq {pages : List (List RawSlackMessage)}
    (hpages : server.pages (instants.since.map isoToSlackTs)
      (instants.untilExclusive.map isoToSlackTs) = pages) (items : List JsString) {i : ℕ}
    (hi : i < pages.length) :
    fetchPages server channelId instants (pages.length - i) (pageCursor i) items =
      some ((pages.drop i).foldl (fun items page => addAll items (pageIds server channelId page))
        items) := by
  induction hn : pages.length - i generalizing i items with
  | zero => omega
  | succ n ih =>
    have hpage : pages[i]? = some pages[i] := List.getElem?_eq_getElem hi
    rw [List.drop_eq_getElem_cons hi, List.foldl_cons, fetchPages,
      fetchMessagePage_eq (by rw [hpages]; exact hpage), hpages]
    by_cases hnext : i + 1 < pages.length
    · have hcursor : pageCursor (i + 1) = some (decimal (i + 1)) := if_neg (Nat.succ_ne_zero i)
      simp only [if_pos hnext, hcursor]
      rw [← hcursor]
      exact ih _ hnext (by omega)
    · simp only [if_neg hnext]
      rw [List.drop_eq_nil_of_le (by omega), List.foldl_nil]
      rfl

/-- Messages of one conversation with one `ts` are one message, in one thread. -/
theorem Conversation.eq_of_ts {m m' a a' : RawSlackMessage} (hm : m ∈ conversation.topLevel)
    (hm' : m' ∈ conversation.topLevel) (ha : a ∈ m :: conversation.replies m)
    (ha' : a' ∈ m' :: conversation.replies m') (hts : a.ts = a'.ts) : a = a' ∧ m = m' := by
  have hnodup := conversation.distinct
  have heq : a = a' := List.inj_on_of_nodup_map hnodup (List.mem_flatMap.mpr ⟨m, hm, ha⟩)
    (List.mem_flatMap.mpr ⟨m', hm', ha'⟩) hts
  refine ⟨heq, ?_⟩
  by_contra hne
  obtain ⟨-, hdisjoint⟩ := List.nodup_flatMap.mp (List.Nodup.of_map _ hnodup)
  have : Std.Symm (Function.onFun List.Disjoint fun m => m :: conversation.replies m) :=
    ⟨fun _ _ h => h.symm⟩
  have happart := hdisjoint.forall hm hm' hne
  exact happart ha (heq ▸ ha')

/-- A parent is not among its replies. -/
theorem Conversation.ts_ne {m reply : RawSlackMessage} (hm : m ∈ conversation.topLevel)
    (hreply : reply ∈ conversation.replies m) : reply.ts ≠ m.ts := by
  intro hts
  obtain ⟨rfl, -⟩ := conversation.eq_of_ts hm hm (List.mem_cons_of_mem _ hreply)
    (List.mem_cons_self ..) hts
  obtain ⟨hnodup, -⟩ := List.nodup_flatMap.mp (List.Nodup.of_map _ conversation.distinct)
  exact (List.nodup_cons.mp (hnodup reply hm)).1 hreply

/-- The thread of a message is fetched if there is one. -/
theorem mem_unfetchedReplies {m a : RawSlackMessage} (hm : m ∈ conversation.topLevel) :
    a ∈ unfetchedReplies server m ↔ a ∈ conversation.replies m := by
  rw [unfetchedReplies]
  split_ifs with hthread
  · rw [List.mem_filter, (server.replyPages_perm m hm).mem_iff, decide_eq_true_iff]
    refine ⟨?_, ?_⟩
    · rintro ⟨hmem, hts⟩
      rcases List.mem_cons.mp hmem with rfl | hmem
      · exact absurd rfl hts
      · exact hmem
    · intro hmem
      exact ⟨List.mem_cons_of_mem _ hmem, conversation.ts_ne hm hmem⟩
  · have hnil : conversation.replies m = [] := by
      by_contra hne
      exact hthread ((conversation.threads m hm).mpr hne)
    rw [hnil]

/-- The bounds hold what the window holds. -/
theorem listed_of_inWindow {ts : ℕ} (h : InWindow instants ts) : Listed instants ts := by
  refine ⟨?_, ?_⟩
  · intro t ht
    obtain ⟨since, hsince, rfl⟩ := Option.mem_map.mp ht
    exact h.1 since hsince
  · intro t ht
    obtain ⟨bound, hbound, rfl⟩ := Option.mem_map.mp ht
    exact (h.2 bound hbound).le

/-- **What is recorded**: the messages in the bounds, and their threads. -/
theorem mem_recorded {pages : List (List RawSlackMessage)}
    (hpages : pages.flatten.Perm
      (conversation.topLevel.filter fun m => InBounds oldest latest m.ts)) {id : JsString} :
    id ∈ pages.foldl (fun items page => addAll items (pageIds server channelId page)) [] ↔
      ∃ m ∈ conversation.topLevel, InBounds oldest latest m.ts ∧
        ∃ a ∈ m :: conversation.replies m, id = messageId channelId a.ts := by
  have hlisted : ∀ m, (∃ page ∈ pages, m ∈ page) ↔
      m ∈ conversation.topLevel ∧ InBounds oldest latest m.ts := by
    intro m
    rw [← List.mem_flatten, hpages.mem_iff, List.mem_filter, decide_eq_true_iff]
  rw [mem_foldl_addAll]
  simp only [List.not_mem_nil, false_or, pageIds, List.mem_map, List.mem_append, List.mem_flatMap]
  refine ⟨?_, ?_⟩
  · rintro ⟨page, hpage, a, ha | ⟨m, hm, ha⟩, rfl⟩
    · obtain ⟨htop, hbounds⟩ := (hlisted a).mp ⟨page, hpage, ha⟩
      exact ⟨a, htop, hbounds, a, List.mem_cons_self .., rfl⟩
    · obtain ⟨htop, hbounds⟩ := (hlisted m).mp ⟨page, hpage, hm⟩
      exact ⟨m, htop, hbounds, a, List.mem_cons_of_mem _ ((mem_unfetchedReplies htop).mp ha), rfl⟩
  · rintro ⟨m, htop, hbounds, a, ha, rfl⟩
    obtain ⟨page, hpage, hm⟩ := (hlisted m).mpr ⟨htop, hbounds⟩
    rcases List.mem_cons.mp ha with rfl | ha
    · exact ⟨page, hpage, a, .inl hm, rfl⟩
    · exact ⟨page, hpage, a, .inr ⟨m, hm, (mem_unfetchedReplies htop).mpr ha⟩, rfl⟩

/-- What the jobs record does not depend on how many there may be. -/
theorem fetchPages_unique {n k : ℕ} {cursor : Option JsString} {items result result' : List JsString}
    (h : fetchPages server channelId instants n cursor items = some result)
    (h' : fetchPages server channelId instants k cursor items = some result') :
    result = result' := by
  induction n generalizing k cursor items with
  | zero => cases h
  | succ n ih =>
    cases k with
    | zero => cases h'
    | succ k =>
      rw [fetchPages] at h h'
      dsimp only at h h'
      split at h
      · rename_i hlast
        rw [hlast] at h'
        exact Option.some.inj (h.symm.trans h')
      · rename_i cursor' hnext
        rw [hnext] at h'
        exact ih h h'

/-- **A window of a conversation is collected exactly** if and only if threads do not cross its
ends. -/
theorem collectsWindow_iff (server : SlackServer conversation) (channelId : JsString)
    (instants : ScopeInstants) :
    CollectsWindow server channelId instants ↔ ThreadsInWindow conversation instants := by
  obtain ⟨pages, hpages⟩ : ∃ pages, server.pages (instants.since.map isoToSlackTs)
      (instants.untilExclusive.map isoToSlackTs) = pages := ⟨_, rfl⟩
  have hne : pages ≠ [] := hpages ▸ server.pages_ne_nil _ _
  have hperm := hpages ▸ server.pages_perm (instants.since.map isoToSlackTs)
    (instants.untilExclusive.map isoToSlackTs)
  have hrun : fetchPages server channelId instants pages.length none [] =
      some (pages.foldl (fun items page => addAll items (pageIds server channelId page)) []) :=
    fetchPages_eq hpages [] (List.length_pos_of_ne_nil hne)
  have hrecorded : ∀ ts : ℕ, messageId channelId ts ∈
      pages.foldl (fun items page => addAll items (pageIds server channelId page)) [] ↔
        ∃ m ∈ conversation.topLevel, Listed instants m.ts ∧
          ∃ a ∈ m :: conversation.replies m, ts = a.ts := by
    intro ts
    rw [mem_recorded hperm]
    simp only [(messageId_injective channelId).eq_iff]
    rfl
  refine ⟨?_, ?_⟩
  · rintro ⟨jobs, items, hitems, -, hexact⟩
    obtain rfl := fetchPages_unique hitems hrun
    -- a message of the conversation is recorded exactly if the window holds it
    have hwindow : ∀ m ∈ conversation.topLevel, ∀ a ∈ m :: conversation.replies m,
        (Listed instants m.ts ↔ InWindow instants a.ts) := by
      intro m hm a ha
      refine ⟨?_, ?_⟩
      · intro hlisted
        obtain ⟨b, -, hb, hid⟩ :=
          (hexact _).mp ((hrecorded a.ts).mpr ⟨m, hm, hlisted, a, ha, rfl⟩)
        rwa [messageId_injective channelId hid]
      · intro hin
        have hmem := (hexact _).mpr ⟨a, List.mem_flatMap.mpr ⟨m, hm, ha⟩, hin, rfl⟩
        obtain ⟨m', hm', hlisted, a', ha', hts⟩ := (hrecorded a.ts).mp hmem
        obtain ⟨-, rfl⟩ := conversation.eq_of_ts hm hm' ha ha' hts
        exact hlisted
    intro m hm
    exact ⟨(hwindow m hm m (List.mem_cons_self ..)).mp,
      fun reply hreply => hwindow m hm reply (List.mem_cons_of_mem _ hreply)⟩
  · intro hthreads
    refine ⟨pages.length, _, hrun, nodup_foldl_addAll _ _ List.nodup_nil, fun id => ?_⟩
    rw [mem_recorded hperm]
    refine ⟨?_, ?_⟩
    · rintro ⟨m, hm, hlisted, a, ha, rfl⟩
      refine ⟨a, List.mem_flatMap.mpr ⟨m, hm, ha⟩, ?_, rfl⟩
      rcases List.mem_cons.mp ha with rfl | ha
      · exact (hthreads a hm).1 hlisted
      · exact ((hthreads m hm).2 a ha).mp hlisted
    · rintro ⟨a, ha, hin, rfl⟩
      obtain ⟨m, hm, ha⟩ := List.mem_flatMap.mp ha
      refine ⟨m, hm, ?_, a, ha, rfl⟩
      rcases List.mem_cons.mp ha with rfl | ha
      · exact listed_of_inWindow hin
      · exact ((hthreads m hm).2 a ha).mpr hin

end Recording

/-! ## A reply to an older message -/

/-- A message. -/
def olderMessage : RawSlackMessage := ⟨1000000, some 1000000, some 1⟩

/-- A reply to it, two seconds later. -/
def lateReply : RawSlackMessage := ⟨3000000, some 1000000, none⟩

theorem distinct_olderMessage :
    (([olderMessage].flatMap fun m => m :: [lateReply]).map RawSlackMessage.ts).Nodup := by
  decide

theorem threads_olderMessage :
    ∀ m ∈ [olderMessage], hasUnfetchedThread m ↔ [lateReply] ≠ [] := by
  decide

/-- The two. -/
def olderThread : Conversation where
  topLevel := [olderMessage]
  replies _ := [lateReply]
  distinct := distinct_olderMessage
  threads := threads_olderMessage

/-- A page for everything, and a page for the thread. -/
def olderThreadServer : SlackServer olderThread where
  pages oldest latest := [olderThread.topLevel.filter fun m => InBounds oldest latest m.ts]
  pages_ne_nil _ _ := List.cons_ne_nil _ _
  pages_perm _ _ := by rw [List.flatten_singleton]
  replyPages _ := [[olderMessage, lateReply]]
  replyPages_perm m hm := by rw [List.mem_singleton.mp hm]; rfl

/-- The window of the reply does not hold the message, so the reply is not recorded. -/
theorem lateReply_not_collected :
    ¬ CollectsWindow olderThreadServer (js "C1") ⟨some 2000, some 10000⟩ := by
  rintro ⟨jobs, items, hitems, -, hexact⟩
  have hone : fetchPages olderThreadServer (js "C1") ⟨some 2000, some 10000⟩ 1 none [] =
      some [] := by
    decide +kernel
  obtain rfl := fetchPages_unique hitems hone
  have hmem := (hexact (messageId (js "C1") 3000000)).mpr
    ⟨lateReply, by simp [Conversation.messages, olderThread], by simp [InWindow, lateReply], rfl⟩
  cases hmem

end AegCloudDfir.Collection
