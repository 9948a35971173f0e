import AegCloudDfir.Collection.Paging

/-!
# Exhausted scopes

`finalize` waits for the checkpoints whose cursor is of the kind `page`, and the sweeper
resumes them and in the end gives them up. So the kind has to say whether the walk through the
pages of a scope is finished, and it is `exhaustedCursorKind` that says so.

Here the machine of `AegCloudDfir.Collection.Paging` remembers, for every checkpoint, what the
last page said that was committed to it (`Walked`). The kind and what the page said agree in
exactly the runs that commit no last page of an IMAP folder and no page with a successor to a
checkpoint that has a delta already (`recognised_iff`).
-/

namespace AegCloudDfir.Collection.Paging

open Transition

/-! ## Walks -/

/-- The page jobs, and whose walk is unfinished: no page was committed since the walk began or
began again, or the last one had a next cursor. -/
structure Walked where
  state : State
  unfinished : ℕ → Bool

/-- No walk has begun. -/
def Walked.created : Walked := ⟨.created, fun _ => true⟩

/-- A walk that moves, unless the guard fails, and whether it has to go on. -/
def State.walk (s : State) (checkpoint : Position) (more : Bool) : Option (ℕ × Bool) :=
  if s.holds checkpoint then some (checkpoint.id, more) else none

/-- The walk that an event moves. An expired cursor starts it again, and a scope that is not
available has no more pages. -/
def State.walks (s : State) : Event → Option (ℕ × Bool)
  | .commit i nextCursor _ =>
    s.executions[i]?.bind fun x => s.walk x.checkpoint nextCursor.isSome
  | .expire i => s.executions[i]?.bind fun x => s.walk x.checkpoint true
  | .exhaust i => s.executions[i]?.bind fun x => s.walk x.checkpoint false
  | _ => none

/-- What is remembered then. -/
def remember (unfinished : ℕ → Bool) : Option (ℕ × Bool) → ℕ → Bool
  | some (id, more) => Function.update unfinished id more
  | none => unfinished

section Machine

variable (collectionId : JsString) (provider : Provider) (sha256 : JsString → JsString)

/-- One transaction of a page job, and what is remembered of it. -/
def walkedStep (w : Walked) (e : Event) : Option Walked :=
  (step collectionId provider sha256 w.state e).map fun state =>
    ⟨state, remember w.unfinished (w.state.walks e)⟩

/-- **Exhausted scopes are recognised.** -/
structure Recognised (w : Walked) : Prop where
  /-- the kind says whether the walk is unfinished -/
  kind : ∀ cp ∈ w.state.checkpoints, cp.cursorKind = .page ↔ w.unfinished cp.id
  /-- `finalize` waits for nothing but unfinished walks -/
  waits : ∀ l : Ledger JsString, Agrees w.state l →
    l.pageCheckpoints = w.state.checkpoints.countP fun cp => w.unfinished cp.id
  /-- and the sweeper finds nothing else: neither to resume nor to give up -/
  sweeps : ∀ scope, (step collectionId provider sha256 w.state (.sweep scope)).isSome →
    ∃ cp ∈ w.state.checkpoints, cp.scope = scope ∧ w.unfinished cp.id

/-- The kind that is stored tells a last page from the others: the provider has another kind
for exhausted scopes than for pages, and the checkpoint is not past its walk already. -/
def TellsLastPage (w : Walked) : Event → Prop
  | .commit i nextCursor _ => ∀ x, w.state.executions[i]? = some x →
    w.state.holds x.checkpoint → x.checkpoint.scope.source ≠ .audit →
      match nextCursor with
      | none => provider ≠ .imap
      | some _ => x.checkpoint.cursorKind = .page ∨ x.checkpoint.cursorKind = .none
  | _ => True

end Machine

variable {collectionId : JsString} {provider : Provider} {sha256 : JsString → JsString}

/-! ## The kinds -/

theorem exhaustedCursorKind_eq_page_iff {source : Source} {hasDelta : Bool} :
    exhaustedCursorKind provider source hasDelta = .page ↔ provider = .imap := by
  cases provider <;> cases source <;> cases hasDelta <;> decide

theorem nextKind_more_eq_page_iff {source : Source} {kind : CursorKind} :
    nextKind provider source kind .more = .page ↔ kind = .page ∨ kind = .none := by
  cases kind <;> simp [nextKind]

/-- Where a page leaves the checkpoint, its kind is `page` exactly if there are more pages, or
else the kind does not tell. -/
theorem landing_kind_iff {checkpoint : Position} {nextCursor deltaCursor : Option JsString} :
    ((landing provider checkpoint nextCursor deltaCursor).2 = .page ↔ nextCursor.isSome) ↔
      (checkpoint.scope.source ≠ .audit →
        match nextCursor with
        | none => provider ≠ .imap
        | some _ => checkpoint.cursorKind = .page ∨ checkpoint.cursorKind = .none) := by
  rcases nextCursor with _ | cursor
  · by_cases haudit : checkpoint.scope.source = .audit
    · simp [landing, haudit]
    · simp [landing, haudit, nextKind, exhaustedCursorKind_eq_page_iff]
  · by_cases haudit : checkpoint.scope.source = .audit
    · simp [landing, haudit]
    · simp [landing, haudit, nextKind_more_eq_page_iff]

theorem Recognised.of_kind {w : Walked}
    (h : ∀ cp ∈ w.state.checkpoints, cp.cursorKind = .page ↔ w.unfinished cp.id) :
    Recognised collectionId provider sha256 w where
  kind := h
  waits l hl := by
    rw [Ledger.pageCheckpoints, hl.checkpoints, List.countP_map]
    refine List.countP_congr fun cp hcp => ?_
    rw [Function.comp_apply, decide_eq_true_iff]
    exact h cp hcp
  sweeps scope hsweep := by
    rw [step] at hsweep
    split at hsweep
    · rename_i hfound
      obtain ⟨cp, hcp, hpage⟩ := List.any_eq_true.mp hfound.2
      obtain ⟨hscope, hkind⟩ := of_decide_eq_true hpage
      exact ⟨cp, hcp, hscope, (h cp hcp).mp hkind⟩
    · cases hsweep

theorem recognised_created : Recognised collectionId provider sha256 .created :=
  .of_kind fun _ hcp => absurd hcp List.not_mem_nil

/-! ## The identity of checkpoints -/

/-- Checkpoints have different ids, and the walk of a new one is unfinished. -/
structure Identified (w : Walked) : Prop where
  nodup : (w.state.checkpoints.map (·.id)).Nodup
  used : ∀ cp ∈ w.state.checkpoints, cp.id < w.state.nextCheckpoint
  fresh : ∀ n, w.state.nextCheckpoint ≤ n → w.unfinished n

/-- The kinds tell which walks are unfinished. -/
def Told (w : Walked) : Prop :=
  ∀ cp ∈ w.state.checkpoints, cp.cursorKind = .page ↔ w.unfinished cp.id

theorem recognised_iff_told {w : Walked} : Recognised collectionId provider sha256 w ↔ Told w :=
  ⟨Recognised.kind, Recognised.of_kind⟩

theorem identified_created : Identified .created where
  nodup := List.nodup_nil
  used _ hcp := absurd hcp List.not_mem_nil
  fresh _ _ := rfl

section Operations

variable {unfinished : ℕ → Bool} {s s' : State}

/-- Checkpoints disappear. -/
theorem Identified.of_sublist (h : Identified ⟨s, unfinished⟩)
    (hcheckpoints : s'.checkpoints.Sublist s.checkpoints)
    (hnext : s'.nextCheckpoint = s.nextCheckpoint) : Identified ⟨s', unfinished⟩ where
  nodup := h.nodup.sublist (hcheckpoints.map _)
  used cp hcp := by
    change cp.id < s'.nextCheckpoint
    rw [hnext]
    exact h.used cp (hcheckpoints.subset hcp)
  fresh n hn := by
    change s'.nextCheckpoint ≤ n at hn
    rw [hnext] at hn
    exact h.fresh n hn

theorem Told.of_sublist (h : Told ⟨s, unfinished⟩)
    (hcheckpoints : s'.checkpoints.Sublist s.checkpoints) : Told ⟨s', unfinished⟩ :=
  fun cp hcp => h cp (hcheckpoints.subset hcp)

/-- A new checkpoint has a new id. -/
theorem Identified.seed (h : Identified ⟨s, unfinished⟩) (scope : Scope) :
    Identified ⟨s.seed scope, unfinished⟩ := by
  rw [State.seed]
  split
  · exact h
  · refine ⟨?_, fun cp hcp => ?_, fun n hn => h.fresh n (Nat.le_of_succ_le hn)⟩
    · rw [List.map_append, List.map_singleton]
      rw [← List.concat_eq_append]
      refine List.Nodup.concat (fun hmem => ?_) h.nodup
      obtain ⟨cp, hcp, hid⟩ := List.mem_map.mp hmem
      exact absurd (h.used cp hcp) (Nat.not_lt.mpr (Nat.le_of_eq hid.symm))
    · rcases List.mem_append.mp hcp with hold | hnew
      · exact Nat.lt_succ_of_lt (h.used cp hold)
      · obtain rfl := List.mem_singleton.mp hnew
        exact Nat.lt_succ_self _

theorem Told.seed (h : Told ⟨s, unfinished⟩) (hs : Identified ⟨s, unfinished⟩) (scope : Scope) :
    Told ⟨s.seed scope, unfinished⟩ := by
  rw [State.seed]
  split
  · exact h
  · intro cp hcp
    rcases List.mem_append.mp hcp with hold | hnew
    · exact h cp hold
    · obtain rfl := List.mem_singleton.mp hnew
      exact iff_of_true rfl (hs.fresh _ (Nat.le_refl _))

theorem identified_discover (scopes : List Scope) {s : State} (h : Identified ⟨s, unfinished⟩) :
    Identified ⟨s.discover collectionId scopes, unfinished⟩ := by
  induction scopes generalizing s with
  | nil => exact h
  | cons scope scopes ih => exact ih ((h.seed scope).of_sublist (List.Sublist.refl _) rfl)

theorem told_discover (scopes : List Scope) {s : State} (h : Told ⟨s, unfinished⟩)
    (hs : Identified ⟨s, unfinished⟩) : Told ⟨s.discover collectionId scopes, unfinished⟩ := by
  induction scopes generalizing s with
  | nil => exact h
  | cons scope scopes ih =>
    exact ih ((h.seed hs scope).of_sublist (List.Sublist.refl _))
      ((hs.seed scope).of_sublist (List.Sublist.refl _) rfl)

variable {checkpoint : Position} {cursor : JsString} {kind : CursorKind} {more : Bool}

theorem ids_advance : (s.advance checkpoint cursor kind).checkpoints.map (·.id) =
    s.checkpoints.map (·.id) := by
  rw [State.advance, List.map_map]
  refine List.map_congr_left fun cp _ => ?_
  by_cases hcp : cp.id = checkpoint.id ∧ cp.version = checkpoint.version <;> simp [hcp]

theorem Identified.advance (h : Identified ⟨s, unfinished⟩) (hheld : s.holds checkpoint) :
    Identified ⟨s.advance checkpoint cursor kind,
      Function.update unfinished checkpoint.id more⟩ where
  nodup := by
    change ((s.advance checkpoint cursor kind).checkpoints.map (·.id)).Nodup
    rw [ids_advance]
    exact h.nodup
  used cp hcp := by
    have hid : cp.id ∈ s.checkpoints.map (·.id) := by
      rw [← ids_advance]
      exact List.mem_map_of_mem hcp
    obtain ⟨old, hold, heq⟩ := List.mem_map.mp hid
    exact heq ▸ h.used old hold
  fresh n hn := by
    -- the id of the checkpoint was used
    obtain ⟨cp, hcp, heq⟩ := List.any_eq_true.mp hheld
    have hused : checkpoint.id < s.nextCheckpoint := (of_decide_eq_true heq).1 ▸ h.used cp hcp
    change Function.update unfinished checkpoint.id more n
    rw [Function.update_of_ne (Nat.ne_of_gt (Nat.lt_of_lt_of_le hused hn))]
    exact h.fresh n hn

/-- The kind that is stored tells exactly if it says that there are more pages. -/
theorem Told.advance_iff (h : Told ⟨s, unfinished⟩) (hs : Identified ⟨s, unfinished⟩)
    (hheld : s.holds checkpoint) :
    Told ⟨s.advance checkpoint cursor kind, Function.update unfinished checkpoint.id more⟩ ↔
      (kind = .page ↔ more) := by
  obtain ⟨cp, hcp, heq⟩ := List.any_eq_true.mp hheld
  obtain ⟨hid, hversion⟩ := of_decide_eq_true heq
  refine ⟨?_, ?_⟩
  · intro htold
    have hmoved := htold { cp with cursor, cursorKind := kind, version := checkpoint.version + 1 }
      (List.mem_map.mpr ⟨cp, hcp, if_pos ⟨hid, hversion⟩⟩)
    simpa [hid] using hmoved
  · intro hkind x hx
    obtain ⟨old, hold, rfl⟩ := List.mem_map.mp hx
    by_cases hmoved : old.id = checkpoint.id ∧ old.version = checkpoint.version
    · simpa [hmoved] using hkind
    · -- no other checkpoint has this id
      have hne : old.id ≠ checkpoint.id := by
        intro heq
        have hsame : old = cp := List.inj_on_of_nodup_map hs.nodup hold hcp (heq.trans hid.symm)
        exact hmoved ⟨heq, hsame ▸ hversion⟩
      simpa [hmoved, hne] using h old hold

end Operations

/-! ## What an event does -/

section Events

variable {w w' : Walked}

theorem walkedStep_eq_some {e : Event} (h : walkedStep collectionId provider sha256 w e = some w') :
    ∃ s', step collectionId provider sha256 w.state e = some s' ∧ w' = ⟨s', remember w.unfinished (w.state.walks e)⟩ := by
  obtain ⟨s', hs', rfl⟩ := Option.map_eq_some_iff.mp h
  exact ⟨s', hs', rfl⟩

/-- Where the guard holds, the checkpoint is advanced, and nothing else happens to
checkpoints. -/
theorem moveOn_eq_some {s s' : State} {checkpoint : Position} {landing : JsString × CursorKind}
    {next : Option Continuation} (h : s.moveOn collectionId checkpoint landing next = some s') :
    s.holds checkpoint = false ∧ s' = s ∨
      s.holds checkpoint = true ∧ s'.checkpoints =
        (s.advance checkpoint landing.1 landing.2).checkpoints ∧
          s'.nextCheckpoint = s.nextCheckpoint := by
  rw [State.moveOn] at h
  split at h
  · rename_i hstale
    cases h
    exact .inl ⟨Bool.eq_false_iff.mpr hstale, rfl⟩
  · rename_i hheld
    split at h
    · cases h
    · cases next with
      | none | some continuation =>
        cases h
        exact .inr ⟨not_not.mp hheld, rfl, rfl⟩

/-- Where an execution moves on, the kind tells exactly if it says whether there are more
pages. -/
theorem moved {i : ℕ} {s' : State} {checkpoint : Position} {landing : JsString × CursorKind}
    {next : Option Continuation} {more : Bool} (hw : Identified w)
    (h : (w.state.endExecution i).moveOn collectionId checkpoint landing next = some s') :
    Identified ⟨s', remember w.unfinished (w.state.walk checkpoint more)⟩ ∧
      (Told w → (Told ⟨s', remember w.unfinished (w.state.walk checkpoint more)⟩ ↔
        (w.state.holds checkpoint → (landing.2 = .page ↔ more)))) := by
  have hended : Identified ⟨w.state.endExecution i, w.unfinished⟩ :=
    hw.of_sublist (List.Sublist.refl _) rfl
  rcases moveOn_eq_some h with ⟨hstale, rfl⟩ | ⟨hheld, hcheckpoints, hnext⟩
  · have hwalk : w.state.walk checkpoint more = none := if_neg (Bool.eq_false_iff.mp hstale)
    rw [hwalk]
    refine ⟨hended, fun ht => iff_of_true ht fun hheld => ?_⟩
    exact absurd hheld (Bool.eq_false_iff.mp hstale)
  · have hwalk : w.state.walk checkpoint more = some (checkpoint.id, more) := if_pos hheld
    have hadvanced : s'.checkpoints.Sublist
        ((w.state.endExecution i).advance checkpoint landing.1 landing.2).checkpoints :=
      hcheckpoints ▸ List.Sublist.refl _
    rw [hwalk]
    refine ⟨(hended.advance hheld).of_sublist hadvanced hnext, fun ht => ?_⟩
    have htold : Told ⟨w.state.endExecution i, w.unfinished⟩ := ht
    have hmoved : Told ⟨(w.state.endExecution i).advance checkpoint landing.1 landing.2,
        Function.update w.unfinished checkpoint.id more⟩ ↔ (landing.2 = .page ↔ more) :=
      htold.advance_iff hended hheld
    rw [imp_iff_right (show w.state.holds checkpoint from hheld), ← hmoved]
    simp only [Told, hcheckpoints, remember]

/-- What moves no walk. -/
theorem unmoved {s' : State} (hw : Identified w)
    (hcheckpoints : s'.checkpoints.Sublist w.state.checkpoints)
    (hnext : s'.nextCheckpoint = w.state.nextCheckpoint) :
    Identified ⟨s', w.unfinished⟩ ∧ (Told w → (Told ⟨s', w.unfinished⟩ ↔ True)) := by
  have hs : Identified ⟨w.state, w.unfinished⟩ := hw
  refine ⟨hs.of_sublist hcheckpoints hnext, fun ht => iff_of_true ?_ trivial⟩
  exact fun cp hcp => ht cp (hcheckpoints.subset hcp)

/-- **What an event does to the kinds.** -/
theorem told_step {e : Event} (hw : Identified w)
    (h : walkedStep collectionId provider sha256 w e = some w') :
    Identified w' ∧ (Told w → (Told w' ↔ TellsLastPage provider w e)) := by
  obtain ⟨s', hs, rfl⟩ := walkedStep_eq_some h
  cases e with
  | setStatus status | abandon i | redeliver dedupKey =>
    cases hs
    exact unmoved hw (List.Sublist.refl _) rfl
  | discover scopes =>
    cases hs
    have hdiscovered : Identified ⟨w.state.discover collectionId scopes, w.unfinished⟩ :=
      identified_discover scopes hw
    exact ⟨hdiscovered.of_sublist (List.Sublist.refl _) rfl,
      fun ht => iff_of_true (told_discover scopes ht hw) trivial⟩
  | take dedupKey =>
    rw [step] at hs
    split at hs <;> cases hs
    rw [State.load]
    split
    · exact unmoved hw (List.Sublist.refl _) rfl
    · split <;> exact unmoved hw (List.Sublist.refl _) rfl
  | commit i nextCursor deltaCursor =>
    rcases hi : w.state.executions[i]? with _ | x <;> simp only [step, hi] at hs
    · cases hs
    · obtain ⟨hidentified, htold⟩ := moved hw hs
      have hwalks : w.state.walks (.commit i nextCursor deltaCursor) =
          w.state.walk x.checkpoint nextCursor.isSome := by
        rw [State.walks, hi]
        rfl
      rw [hwalks]
      refine ⟨hidentified, fun ht => (htold ht).trans ?_⟩
      rw [landing_kind_iff]
      simp only [TellsLastPage, hi, Option.some.injEq, forall_eq']
  | expire i =>
    rcases hi : w.state.executions[i]? with _ | x <;> simp only [step, hi] at hs
    · cases hs
    · obtain ⟨hidentified, htold⟩ := moved hw hs
      have hwalks : w.state.walks (.expire i) = w.state.walk x.checkpoint true := by
        rw [State.walks, hi]
        rfl
      rw [hwalks]
      refine ⟨hidentified, fun ht => (htold ht).trans ?_⟩
      exact iff_of_true (fun _ => iff_of_true rfl rfl) trivial
  | refuse i =>
    obtain ⟨x, -, rfl⟩ := Option.map_eq_some_iff.mp hs
    exact unmoved hw List.filter_sublist rfl
  | exhaust i =>
    rcases hi : w.state.executions[i]? with _ | x <;> simp only [step, hi] at hs
    · cases hs
    · obtain ⟨hidentified, htold⟩ := moved hw hs
      have hwalks : w.state.walks (.exhaust i) = w.state.walk x.checkpoint false := by
        rw [State.walks, hi]
        rfl
      rw [hwalks]
      refine ⟨hidentified, fun ht => (htold ht).trans ?_⟩
      exact iff_of_true (fun _ => iff_of_false (by simp) (by simp)) trivial
  | crash i =>
    obtain ⟨x, -, rfl⟩ := Option.map_eq_some_iff.mp hs
    exact unmoved hw (List.Sublist.refl _) rfl
  | sweep scope =>
    rw [step] at hs
    split at hs <;> cases hs
    rw [State.sweep]
    split
    · exact unmoved hw List.filter_sublist rfl
    · exact unmoved hw (List.Sublist.refl _) rfl

end Events

/-- **Exhausted scopes are recognised** throughout exactly the runs whose pages tell: for every
provider, every chain of pages, and however the page jobs interleave, crash and are delivered
again. -/
theorem recognised_iff {events : List Event} {w : Walked}
    (h : run (walkedStep collectionId provider sha256) .created events = some w) :
    Throughout (walkedStep collectionId provider sha256)
        (Recognised collectionId provider sha256) .created events ↔
      Always (walkedStep collectionId provider sha256) (TellsLastPage provider) .created events := by
  have htold : Recognised collectionId provider sha256 = Told :=
    funext fun w => propext recognised_iff_told
  have hcreated : Recognised collectionId provider sha256 .created := recognised_created
  rw [htold] at hcreated ⊢
  exact throughout_iff_always (fun w e w' hw hs => (told_step hw hs).1)
    (fun w e w' hw ht hs => (told_step hw hs).2 ht) identified_created hcreated h

/-! ## A folder of one page -/

/-- The inbox has one page. -/
def onlyPage : List Event := [.discover [inbox], .take (inboxKey .start), .commit 0 none none]

theorem recognised_iff_example :
    ∃ w, run (walkedStep (js "c1") .google digest) .created onlyPage = some w ∧
      Throughout (walkedStep (js "c1") .google digest) (Recognised (js "c1") .google digest)
        .created onlyPage := by
  obtain ⟨w, hw⟩ := Option.isSome_iff_exists.mp
    (show (run (walkedStep (js "c1") .google digest) .created onlyPage).isSome by decide +kernel)
  refine ⟨w, hw, (recognised_iff hw).mpr ?_⟩
  refine ⟨trivial, ?_⟩
  rintro _ ⟨⟩
  refine ⟨trivial, ?_⟩
  rintro _ ⟨⟩
  refine ⟨?_, fun _ _ => trivial⟩
  rintro x - - -
  simp

/-- After the only page of an IMAP folder there is a checkpoint of the kind `page`. -/
theorem onlyPage_imap :
    ∃ w, run (walkedStep (js "c1") .imap digest) .created onlyPage = some w ∧
      ∃ cp ∈ w.state.checkpoints, cp.cursorKind = .page ∧ w.unfinished cp.id = false := by
  have hvalue : ((run (walkedStep (js "c1") .imap digest) .created onlyPage).map fun w =>
      w.state.checkpoints.any fun cp => cp.cursorKind = .page ∧ w.unfinished cp.id = false) =
        some true := by
    decide +kernel
  obtain ⟨w, hrun, hany⟩ := Option.map_eq_some_iff.mp hvalue
  obtain ⟨cp, hcp, hkind⟩ := List.any_eq_true.mp hany
  exact ⟨w, hrun, cp, hcp, of_decide_eq_true hkind⟩

/-- Not in every run exhausted scopes are recognised. -/
theorem onlyPage_not_recognised :
    ¬ ∀ (provider : Provider) (events : List Event),
      Throughout (walkedStep (js "c1") provider digest) (Recognised (js "c1") provider digest)
        .created events := by
  intro h
  obtain ⟨w, hrun, cp, hcp, hpage, hfinished⟩ := onlyPage_imap
  have hunfinished := (((h .imap onlyPage).run hrun).kind cp hcp).mp hpage
  rw [hfinished] at hunfinished
  cases hunfinished

end AegCloudDfir.Collection.Paging
