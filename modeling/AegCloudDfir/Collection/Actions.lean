import AegCloudDfir.Collection.Sealing

/-!
# What becomes of the user's actions

The API checks an action against the status it reads, and writes the new status in the same
transaction. The jobs `discover` and `finalize` check the status once, in their first
transaction, and write it in later ones without looking again. So an action that was
accepted can be overwritten by a job that was already on its way.

* `Kept` — what one event may do to a status that a user has set.
* `step_status` — what any event does to the status.
* `honoured_iff` — the actions are honoured exactly in the runs in which the jobs find the
  collection where they may still write.
-/

namespace AegCloudDfir.Collection

open Transition

variable {Id : Type}

/-! ## Honouring an action -/

/-- The collection is done. -/
def Status.IsTerminal (status : Status) : Prop :=
  status = .completed ∨ status = .cancelled ∨ status = .failed

/-- How the status of a cancelled collection moves. -/
inductive Closing : Status → Status → Prop where
  | stay (status : Status) : Closing status status
  | finalize : Closing .cancelling .finalizing
  | close : Closing .finalizing .cancelled

/-- The event is a `retry`. -/
def Event.IsRetry : Event Id → Prop
  | .retry _ _ => True
  | _ => False

/-- Whether a cancel stands after an event: the last cancel has not been retried. -/
def cancelStands (stands : Bool) : Event Id → Bool
  | .cancel => true
  | .retry _ _ => false
  | _ => stands

theorem cancelStands_eq {stands : Bool} {e : Event Id} (hretry : ¬ e.IsRetry) :
    cancelStands stands e = (stands || cancelStands false e) := by
  cases e with
  | retry stuck cleared => exact absurd trivial hretry
  | cancel => exact (Bool.or_true _).symm
  | _ => exact (Bool.or_false _).symm

/-- An event takes the status from `s` to `s'` and respects what the user did before. -/
structure Kept (stands : Bool) (s : State Id) (e : Event Id) (s' : State Id) : Prop where
  /-- a cancelled collection only closes -/
  cancelled : stands = true → ¬ e.IsRetry → Closing s.status s'.status
  /-- a paused collection waits for the user -/
  paused : s.status = .paused → e ≠ .resume → e ≠ .cancel → s'.status = .paused
  /-- a collection that is done stays done -/
  terminal : s.status.IsTerminal → ¬ e.IsRetry → s'.status = s.status

theorem Kept.of_status {stands : Bool} {s s' : State Id} {e : Event Id}
    (h : s'.status = s.status) : Kept stands s e s' where
  cancelled _ _ := h ▸ .stay _
  paused hpaused _ _ := h.trans hpaused
  terminal _ _ := h

/-- A job that writes the status comes while it may. Where the collection has been
cancelled, it must be a `finalize` that has seen so. -/
def MayWrite (s : State Id) : Event Id → Prop
  | .markDiscovery _ | .finishDiscovery _ _ =>
    s.cancelRequested = false ∧ s.status ≠ .paused ∧ ¬ s.status.IsTerminal
  | .failDiscovery _ =>
    s.cancelRequested = false ∧ s.status ≠ .paused ∧ (s.status.IsTerminal → s.status = .failed)
  | .mark _ => s.status ≠ .paused ∧ ¬ s.status.IsTerminal
  | .close i => ∀ f, s.finalizers[i]? = some f →
    (s.cancelRequested = true → f.snapshot.status = .cancelling) ∧ s.status ≠ .paused ∧
      (s.status.IsTerminal → s.status = finalStatus f.snapshot.completeness)
  | _ => True

/-! ## What is known of the status -/

/-- What is known of a collection as long as its actions are honoured. -/
structure Controlled (stands : Bool) (s : State Id) : Prop where
  stands : stands = s.cancelRequested
  /-- a cancelled collection is closing -/
  closing : s.cancelRequested = true →
    s.status = .cancelling ∨ s.status = .finalizing ∨ s.status = .cancelled
  /-- who has seen the collection `cancelling` has seen a cancel -/
  seen : ∀ f ∈ s.finalizers, f.snapshot.status = .cancelling → s.cancelRequested = true
  /-- and it is no longer `cancelling` when that execution has written -/
  marked : ∀ f ∈ s.finalizers, f.marked = true → f.snapshot.status = .cancelling →
    s.status ≠ .cancelling
  /-- a collection becomes `cancelling` by a cancel -/
  cancelling : s.status = .cancelling → s.cancelRequested = true

theorem controlled_created (provider : Provider) :
    Controlled false (State.created provider : State Id) where
  stands := rfl
  closing h := by cases h
  seen _ h := by cases h
  marked _ h := by cases h
  cancelling h := by cases h

namespace Controlled

variable {stands : Bool} {s s' : State Id} {e : Event Id}

/-- An open collection has not been cancelled. -/
theorem uncancelled (h : Controlled stands s) (hopen : s.status.IsOpen) :
    s.cancelRequested = false := by
  rw [← Bool.not_eq_true]
  intro hcancelled
  rcases h.closing hcancelled with hstatus | hstatus | hstatus <;> rw [hstatus] at hopen <;>
    rcases hopen with h | h | h | h | h <;> cases h

/-- A cancelled collection takes no other status than that of a closing one. -/
theorem uncancelled_of_kept (h : Controlled stands s) (hkept : Kept stands s e s')
    (hretry : ¬ e.IsRetry) (hcancelling : s'.status ≠ .cancelling)
    (hfinalizing : s'.status ≠ .finalizing) (hcancelled : s'.status ≠ .cancelled) :
    s.cancelRequested = false := by
  rw [← Bool.not_eq_true]
  intro hrequested
  have hmove := hkept.cancelled (h.stands.trans hrequested) hretry
  -- the status would still be one of the three
  have hclosing := h.closing hrequested
  generalize s'.status = status' at hmove hcancelling hfinalizing hcancelled
  generalize s.status = status at hmove hclosing
  cases hmove with
  | stay =>
    rcases hclosing with rfl | rfl | rfl
    · exact hcancelling rfl
    · exact hfinalizing rfl
    · exact hcancelled rfl
  | finalize => exact hfinalizing rfl
  | close => exact hcancelled rfl

/-- An event that does what is legal in an open collection. -/
theorem kept_of_open (h : Controlled stands s) (hopen : s.status.IsOpen)
    (hpaused : s.status = .paused → e ≠ .resume → e ≠ .cancel → s'.status = .paused) :
    Kept stands s e s' where
  cancelled hstands _ := by
    rw [h.stands, h.uncancelled hopen] at hstands
    cases hstands
  paused := hpaused
  terminal hterminal _ := by
    rcases hterminal with hstatus | hstatus | hstatus <;> rw [hstatus] at hopen <;>
      rcases hopen with h | h | h | h | h <;> cases h

/-- `discover` moves a collection on. -/
theorem kept_discover (h : Controlled stands s) (hretry : ¬ e.IsRetry) (hresume : e ≠ .resume)
    (hcancel : e ≠ .cancel) (hstatus : s'.status = .discovering ∨ s'.status = .fetching) :
    Kept stands s e s' ↔
      s.cancelRequested = false ∧ s.status ≠ .paused ∧ ¬ s.status.IsTerminal := by
  refine ⟨fun hkept => ⟨?_, fun hpaused => ?_, fun hterminal => ?_⟩, ?_⟩
  · refine h.uncancelled_of_kept hkept hretry ?_ ?_ ?_ <;>
      rcases hstatus with h | h <;> rw [h] <;> exact Status.noConfusion
  · have hkeeps := hkept.paused hpaused hresume hcancel
    rcases hstatus with h | h <;> rw [h] at hkeeps <;> cases hkeeps
  · rw [Status.IsTerminal, ← hkept.terminal hterminal hretry] at hterminal
    rcases hstatus with h | h <;> rw [h] at hterminal <;>
      rcases hterminal with h | h | h <;> cases h
  · rintro ⟨huncancelled, hpaused, hterminal⟩
    refine ⟨fun hstands _ => ?_, fun h _ _ => absurd h hpaused, fun h _ => absurd h hterminal⟩
    rw [h.stands, huncancelled] at hstands
    cases hstands

/-- `discover` gives up. -/
theorem kept_fail (h : Controlled stands s) (hretry : ¬ e.IsRetry) (hresume : e ≠ .resume)
    (hcancel : e ≠ .cancel) (hstatus : s'.status = .failed) :
    Kept stands s e s' ↔ s.cancelRequested = false ∧ s.status ≠ .paused ∧
      (s.status.IsTerminal → s.status = .failed) := by
  refine ⟨fun hkept => ⟨?_, fun hpaused => ?_, fun hterminal => ?_⟩, ?_⟩
  · refine h.uncancelled_of_kept hkept hretry ?_ ?_ ?_ <;> rw [hstatus] <;>
      exact Status.noConfusion
  · have hkeeps := hkept.paused hpaused hresume hcancel
    rw [hstatus] at hkeeps
    cases hkeeps
  · exact (hkept.terminal hterminal hretry).symm.trans hstatus
  · rintro ⟨huncancelled, hpaused, hterminal⟩
    refine ⟨fun hstands _ => ?_, fun h _ _ => absurd h hpaused, fun h _ => ?_⟩
    · rw [h.stands, huncancelled] at hstands
      cases hstands
    · exact hstatus.trans (hterminal h).symm

/-- `finalize` starts to write. -/
theorem kept_mark (h : Controlled stands s) (hretry : ¬ e.IsRetry) (hresume : e ≠ .resume)
    (hcancel : e ≠ .cancel) (hstatus : s'.status = .finalizing) :
    Kept stands s e s' ↔ s.status ≠ .paused ∧ ¬ s.status.IsTerminal := by
  refine ⟨fun hkept => ⟨fun hpaused => ?_, fun hterminal => ?_⟩, ?_⟩
  · have hkeeps := hkept.paused hpaused hresume hcancel
    rw [hstatus] at hkeeps
    cases hkeeps
  · rw [Status.IsTerminal, ← hkept.terminal hterminal hretry, hstatus] at hterminal
    rcases hterminal with h | h | h <;> cases h
  · rintro ⟨hpaused, hterminal⟩
    refine ⟨fun hstands _ => ?_, fun h _ _ => absurd h hpaused, fun h _ => absurd h hterminal⟩
    rw [hstatus]
    rcases h.closing (h.stands.symm.trans hstands) with hfrom | hfrom | hfrom
    · rw [hfrom]
      exact .finalize
    · rw [hfrom]
      exact .stay _
    · exact absurd (.inr (.inl hfrom)) hterminal

theorem finalStatus_eq_cancelled {snapshot : Snapshot Id} :
    finalStatus snapshot.completeness = .cancelled ↔ snapshot.status = .cancelling := by
  rw [Snapshot.completeness, decideCompleteness]
  by_cases h : snapshot.status = .cancelling
  · rw [if_pos (decide_eq_true h)]
    exact iff_of_true rfl h
  · rw [if_neg (fun hdecide => h (of_decide_eq_true hdecide))]
    refine iff_of_false ?_ h
    split
    · exact Status.noConfusion
    · split
      · exact Status.noConfusion
      · split <;> exact Status.noConfusion

theorem isTerminal_finalStatus (completeness : Completeness) :
    (finalStatus completeness).IsTerminal := by
  cases completeness
  · exact .inl rfl
  · exact .inl rfl
  · exact .inl rfl
  · exact .inr (.inr rfl)
  · exact .inr (.inl rfl)

/-- `finalize` closes the collection. -/
theorem kept_close (h : Controlled stands s) (hretry : ¬ e.IsRetry) (hresume : e ≠ .resume)
    (hcancel : e ≠ .cancel) {f : Finalizer Id} (hf : f ∈ s.finalizers) (hmarked : f.marked = true)
    (hstatus : s'.status = finalStatus f.snapshot.completeness) :
    Kept stands s e s' ↔
      (s.cancelRequested = true → f.snapshot.status = .cancelling) ∧ s.status ≠ .paused ∧
        (s.status.IsTerminal → s.status = finalStatus f.snapshot.completeness) := by
  have hdone : s'.status.IsTerminal := hstatus ▸ isTerminal_finalStatus _
  refine ⟨fun hkept => ⟨fun hrequested => ?_, fun hpaused => ?_, fun hterminal => ?_⟩, ?_⟩
  · by_contra hcancelling
    have huncancelled : s.cancelRequested = false := by
      refine h.uncancelled_of_kept hkept hretry ?_ ?_ ?_
      · rintro heq
        rw [heq] at hdone
        rcases hdone with h | h | h <;> cases h
      · rintro heq
        rw [heq] at hdone
        rcases hdone with h | h | h <;> cases h
      · exact fun heq => hcancelling (finalStatus_eq_cancelled.mp (hstatus.symm.trans heq))
    rw [hrequested] at huncancelled
    cases huncancelled
  · have hkeeps := hkept.paused hpaused hresume hcancel
    rw [hkeeps] at hdone
    rcases hdone with h | h | h <;> cases h
  · exact (hkept.terminal hterminal hretry).symm.trans hstatus
  · rintro ⟨hcancelling, hpaused, hterminal⟩
    refine ⟨fun hstands _ => ?_, fun h _ _ => absurd h hpaused,
      fun h _ => hstatus.trans (hterminal h).symm⟩
    have hrequested := h.stands.symm.trans hstands
    have hseen := hcancelling hrequested
    rw [hstatus, finalStatus_eq_cancelled.mpr hseen]
    rcases h.closing hrequested with hfrom | hfrom | hfrom
    · exact absurd hfrom (h.marked f hf hmarked hseen)
    · rw [hfrom]
      exact .close
    · rw [hfrom]
      exact .stay _

end Controlled

/-! ## What an event does to the status -/

/-- What an event does to the status. -/
inductive Writes (s : State Id) : Event Id → Status → Prop where
  /-- the status stays; nothing is asked of the event, and it is no cancel -/
  | aside {e : Event Id} (hclear : MayWrite s e) (hcancel : cancelStands false e = false) :
    Writes s e s.status
  | markDiscovery (i : ℕ) : Writes s (.markDiscovery i) .discovering
  | finishDiscovery (i : ℕ) (scopes : List (ItemKey Id)) :
    Writes s (.finishDiscovery i scopes) .fetching
  | failDiscovery (i : ℕ) : Writes s (.failDiscovery i) .failed
  | pause (hopen : s.status.IsOpen) (hpaused : s.status ≠ .paused) : Writes s .pause .paused
  | resume (hpaused : s.status = .paused) : Writes s .resume .fetching
  | cancel (hopen : s.status.IsOpen) : Writes s .cancel .cancelling
  | retry (stuck : List Id) (cleared : ℕ) (hfrom : s.status = .failed ∨ s.status = .completed) :
    Writes s (.retry stuck cleared) .fetching
  | mark (i : ℕ) : Writes s (.mark i) .finalizing
  | close (i : ℕ) (snapshot : Snapshot Id) (hi : s.finalizers[i]? = some ⟨snapshot, true⟩) :
    Writes s (.close i) (finalStatus snapshot.completeness)

variable [DecidableEq Id]

theorem step_status {s s' : State Id} {e : Event Id} (hs : step s e = some s') :
    Writes s e s'.status := by
  cases e with
  | work e =>
    obtain ⟨w, -, rfl⟩ := Option.map_eq_some_iff.mp hs
    exact .aside trivial rfl
  | loadDiscovery | look =>
    rw [step] at hs
    split at hs <;> cases hs <;> exact .aside trivial rfl
  | markDiscovery i =>
    rw [step] at hs
    split at hs <;> cases hs
    exact .markDiscovery i
  | claimContainer i key evidenceId =>
    rw [step] at hs
    split at hs
    · split at hs <;> cases hs
      exact .aside trivial rfl
    · cases hs
  | finishDiscovery i scopes =>
    rw [step] at hs
    split at hs
    · split at hs <;> cases hs
      exact .finishDiscovery i scopes
    · cases hs
  | failDiscovery i =>
    rw [step] at hs
    split at hs <;> cases hs
    exact .failDiscovery i
  | crashDiscovery i | crashFinalize i =>
    cases hs
    exact .aside trivial rfl
  | pause =>
    rw [step] at hs
    split at hs
    · rename_i hfrom
      cases hs
      refine .pause ?_ ?_
      · rcases hfrom with h | h | h | h
        · exact .inl h
        · exact .inr (.inl h)
        · exact .inr (.inr (.inl h))
        · exact .inr (.inr (.inr (.inl h)))
      · rcases hfrom with h | h | h | h <;> rw [h] <;> exact Status.noConfusion
    · cases hs
  | resume =>
    rw [step] at hs
    split at hs
    · rename_i hpaused
      cases hs
      exact .resume hpaused
    · cases hs
  | cancel =>
    rw [step] at hs
    split at hs
    · rename_i hopen
      cases hs
      exact .cancel hopen
    · cases hs
  | retry stuck cleared =>
    rw [step] at hs
    split at hs
    · rename_i hfrom
      cases hs
      rw [State.retry]
      split
      · exact .aside trivial rfl
      · exact .retry stuck cleared hfrom
    · cases hs
  | mark i =>
    rw [step] at hs
    split at hs <;> cases hs
    exact .mark i
  | close i =>
    rw [step] at hs
    split at hs
    · rename_i snapshot hi
      cases hs
      exact .close i snapshot hi
    · cases hs

/-- Cancelling is remembered. -/
theorem step_cancelRequested {s s' : State Id} {e : Event Id} (hs : step s e = some s') :
    s'.cancelRequested = (s.cancelRequested || cancelStands false e) := by
  have hsame : s.cancelRequested = (s.cancelRequested || false) := (Bool.or_false _).symm
  cases e with
  | work e =>
    obtain ⟨w, -, rfl⟩ := Option.map_eq_some_iff.mp hs
    exact hsame
  | retry stuck cleared =>
    rw [step] at hs
    split at hs
    · cases hs
      rw [State.retry]
      split <;> exact hsame
    · cases hs
  | cancel =>
    rw [step] at hs
    split at hs <;> cases hs
    exact (Bool.or_true _).symm
  | claimContainer i key evidenceId | finishDiscovery i scopes =>
    rw [step] at hs
    split at hs
    · split at hs <;> cases hs
      exact hsame
    · cases hs
  | crashDiscovery i | crashFinalize i =>
    cases hs
    exact hsame
  | _ =>
    rw [step] at hs
    split at hs <;> cases hs <;> exact hsame

/-- Every event of a run respects what the user did before. -/
def Honoured (stands : Bool) : State Id → List (Event Id) → Prop
  | _, [] => True
  | s, e :: es =>
    ∀ s', step s e = some s' → Kept stands s e s' ∧ Honoured (cancelStands stands e) s' es

namespace Controlled

variable {stands : Bool} {s s' : State Id} {e : Event Id}

/-- **The actions are respected by exactly the events that may write.** -/
theorem kept_iff (h : Controlled stands s) (hs : step s e = some s') :
    Kept stands s e s' ↔ MayWrite s e := by
  have hwrites := step_status hs
  generalize hstatus : s'.status = status at hwrites
  cases hwrites with
  | aside hclear hcancel => exact iff_of_true (.of_status hstatus) hclear
  | markDiscovery i => exact h.kept_discover (fun h => h) nofun nofun (.inl hstatus)
  | finishDiscovery i scopes => exact h.kept_discover (fun h => h) nofun nofun (.inr hstatus)
  | failDiscovery i => exact h.kept_fail (fun h => h) nofun nofun hstatus
  | pause hopen hpaused =>
    exact iff_of_true (h.kept_of_open hopen fun h _ _ => absurd h hpaused) trivial
  | resume hpaused =>
    have hopen : s.status.IsOpen := .inr (.inr (.inr (.inr hpaused)))
    exact iff_of_true (h.kept_of_open hopen fun _ h _ => absurd rfl h) trivial
  | cancel hopen => exact iff_of_true (h.kept_of_open hopen fun _ _ h => absurd rfl h) trivial
  | retry stuck cleared hfrom =>
    refine iff_of_true ⟨fun _ h => absurd trivial h, fun hpaused => ?_, fun _ h =>
      absurd trivial h⟩ trivial
    rcases hfrom with h | h <;> rw [h] at hpaused <;> cases hpaused
  | mark i => exact h.kept_mark (fun h => h) nofun nofun hstatus
  | close i snapshot hi =>
    have hclose := h.kept_close (e := .close i) (fun h => h) nofun nofun
      (List.mem_of_getElem? hi) rfl hstatus
    refine hclose.trans ⟨fun hclear f hf => ?_, fun hclear => hclear _ hi⟩
    obtain rfl := Option.some.inj (hi.symm.trans hf)
    exact hclear

/-- A cancelled collection cannot be retried. -/
theorem uncancelled_of_retry (h : Controlled stands s) (hretry : e.IsRetry)
    (hs : step s e = some s') : s.cancelRequested = false := by
  cases e with
  | retry stuck cleared =>
    rw [step] at hs
    split at hs
    · rename_i hfrom
      rw [← Bool.not_eq_true]
      intro hrequested
      rcases h.closing hrequested with h | h | h <;> rw [h] at hfrom <;>
        rcases hfrom with h | h <;> cases h
    · cases hs
  | _ => cases hretry

/-- A cancelled collection goes on closing. -/
theorem closing_next (h : Controlled stands s) (hclear : MayWrite s e) (hs : step s e = some s')
    (hrequested : s'.cancelRequested = true) :
    s'.status = .cancelling ∨ s'.status = .finalizing ∨ s'.status = .cancelled := by
  have hwrites := step_status hs
  rw [step_cancelRequested hs] at hrequested
  generalize s'.status = status at hwrites ⊢
  -- only a cancel may have been the first
  have hbefore : cancelStands false e = false → s.cancelRequested = true := by
    intro hcancel
    rw [hcancel, Bool.or_false] at hrequested
    exact hrequested
  have hnever : cancelStands false e = false → s.cancelRequested = false → False :=
    fun hcancel huncancelled => Bool.false_ne_true (huncancelled.symm.trans (hbefore hcancel))
  cases hwrites with
  | aside _ hcancel => exact h.closing (hbefore hcancel)
  | markDiscovery i | finishDiscovery i scopes | failDiscovery i => exact (hnever rfl hclear.1).elim
  | pause hopen _ => exact (hnever rfl (h.uncancelled hopen)).elim
  | resume hpaused =>
    exact (hnever rfl (h.uncancelled (.inr (.inr (.inr (.inr hpaused)))))).elim
  | cancel _ => exact .inl rfl
  | retry stuck cleared _ =>
    exact (hnever rfl (h.uncancelled_of_retry (e := .retry stuck cleared) trivial hs)).elim
  | mark i => exact .inr (.inl rfl)
  | close i snapshot hi =>
    exact .inr (.inr (finalStatus_eq_cancelled.mpr ((hclear _ hi).1 (hbefore rfl))))

/-- A collection becomes `cancelling` by its first cancel. -/
theorem cancelling_next (h : Controlled stands s) (hs : step s e = some s')
    (hcancelling : s'.status = .cancelling) :
    s.status = .cancelling ∨ e = .cancel ∧ s.cancelRequested = false := by
  have hwrites := step_status hs
  generalize s'.status = status at hwrites hcancelling
  cases hwrites with
  | aside _ _ => exact .inl hcancelling
  | cancel hopen => exact .inr ⟨rfl, h.uncancelled hopen⟩
  | close i snapshot hi =>
    have hdone := isTerminal_finalStatus snapshot.completeness
    rw [hcancelling] at hdone
    rcases hdone with h | h | h <;> cases h
  | _ => cases hcancelling

/-- What is known stays known after an event that may write. -/
theorem next (h : Controlled stands s) (hclear : MayWrite s e) (hs : step s e = some s') :
    Controlled (cancelStands stands e) s' := by
  have hcancel := step_cancelRequested hs
  have hstays : s.cancelRequested = true → s'.cancelRequested = true := by
    intro hrequested
    rw [hcancel, hrequested, Bool.true_or]
  refine ⟨?_, h.closing_next hclear hs, fun f hf hseen => ?_, fun f hf hmarked hseen => ?_,
    fun hcancelling => ?_⟩
  · by_cases hretry : e.IsRetry
    · rw [hcancel, h.uncancelled_of_retry hretry hs]
      cases e with
      | retry stuck cleared => rfl
      | _ => cases hretry
    · rw [hcancel, cancelStands_eq hretry, h.stands]
  · rcases finalizers_step hs f hf with hold | ⟨-, hold, -⟩ | ⟨-, -, rfl⟩
    · exact hstays (h.seen f hold hseen)
    · exact hstays (h.seen _ hold hseen)
    · exact hstays (h.cancelling hseen)
  · intro hcancelling
    rcases finalizers_step hs f hf with hold | ⟨-, -, hstatus⟩ | ⟨-, -, rfl⟩
    · rcases h.cancelling_next hs hcancelling with hbefore | ⟨-, huncancelled⟩
      · exact h.marked f hold hmarked hseen hbefore
      · exact Bool.false_ne_true (huncancelled.symm.trans (h.seen f hold hseen))
    · rw [hcancelling] at hstatus
      cases hstatus
    · cases hmarked
  · rcases h.cancelling_next hs hcancelling with hbefore | ⟨rfl, -⟩
    · exact hstays (h.cancelling hbefore)
    · rw [hcancel]
      exact Bool.or_true _

/-- The actions are honoured from a state on. -/
theorem honoured_iff (h : Controlled stands s) {events : List (Event Id)} {t : State Id}
    (hrun : run step s events = some t) :
    Honoured stands s events ↔ Always step MayWrite s events := by
  induction events generalizing stands s with
  | nil => exact iff_of_true trivial trivial
  | cons e events ih =>
    obtain ⟨s', hs, hrun⟩ := run_cons.mp hrun
    refine ⟨fun hhonoured => ?_, fun ⟨hclear, halways⟩ => ?_⟩
    · obtain ⟨hkept, hrest⟩ := hhonoured s' hs
      have hclear := (h.kept_iff hs).mp hkept
      refine ⟨hclear, fun s'' hs'' => ?_⟩
      obtain rfl := Option.some.inj (hs.symm.trans hs'')
      exact (ih (h.next hclear hs) hrun).mp hrest
    · intro s'' hs''
      obtain rfl := Option.some.inj (hs.symm.trans hs'')
      exact ⟨(h.kept_iff hs).mpr hclear, (ih (h.next hclear hs) hrun).mpr (halways _ hs)⟩

end Controlled

/-- A collection that is cancelled while it is fetching. -/
def cancelledWhileFetching : List (Event ℕ) :=
  [.loadDiscovery, .markDiscovery 0, .finishDiscovery 0 [], .pause, .resume, .cancel, .look,
    .mark 0, .close 0]

/-- A collection is paused while `discover` is enumerating its folders. -/
def pausedWhileDiscovering : List (Event ℕ) :=
  [.loadDiscovery, .markDiscovery 0, .pause, .finishDiscovery 0 []]

end AegCloudDfir.Collection
