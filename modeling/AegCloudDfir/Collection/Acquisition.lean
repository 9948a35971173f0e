import AegCloudDfir.Collection.Steps

/-!
# Acquiring every item once

`fetch-item` reads an item, downloads it, and in its last transaction creates the evidence
and links it to the item. That transaction asks nothing about the item any more. So two
executions that overlap both create evidence, and so does an execution of an item that
failed after it had been preserved.

* `Linked` — whatever is acquired is linked to its item, and linked evidence stays.
* `exactlyOnce_iff` — every item is acquired at most once exactly if no last transaction
  finds that evidence was linked before it.
-/

namespace AegCloudDfir.Collection

open Transition

variable {Id : Type} [DecidableEq Id] {provider : Provider}

/-- No item was acquired twice, or counted twice. -/
def ExactlyOnce (l : Ledger Id) : Prop := ∀ key, l.acquired key ≤ 1 ∧ l.counted key ≤ 1

/-- An execution of `fetch-item` that reaches its last transaction has read an item without
evidence, and nobody has linked evidence to the item since. -/
def NotOvertaken (s : State Id) : Event Id → Prop
  | .work (.preserveItem i _ _) =>
    ∀ job, s.work.started? i = some job →
      job.evidenceItemId = none ∧ s.work.ledger.evidenceOf job.key = job.evidenceItemId
  | _ => True

/-! ## Evidence is linked -/

/-- What `fetch-item` creates is linked to its item, and the other way round. -/
structure Linked (provider : Provider) (w : Work Id) : Prop where
  acquired : ∀ key, 0 < w.ledger.acquired key →
    Fetchable provider key ∧ (w.ledger.evidenceOf key).isSome
  linked : ∀ key, Fetchable provider key → (w.ledger.evidenceOf key).isSome →
    0 < w.ledger.acquired key
  counted : ∀ key, w.ledger.counted key = w.ledger.acquired key
  /-- evidence that an execution has seen is still there -/
  fetches : ∀ job ∈ w.fetches, Fetchable provider job.key ∧
    (w.ledger.findItem job.key).isSome ∧
      (job.evidenceItemId.isSome → (w.ledger.evidenceOf job.key).isSome)

theorem linked_created (provider : Provider) :
    Linked provider (State.created provider : State Id).work where
  acquired _ h := absurd h (Nat.lt_irrefl 0)
  linked _ _ h := by cases h
  counted _ := rfl
  fetches _ h := by cases h

variable {w w' : Work Id}

theorem Linked.sameEvidence (h : Linked provider w)
    (hledger : w.ledger.SameEvidence provider w'.ledger) (hfetches : w.FetchesFrom provider w') :
    Linked provider w' where
  acquired key hpos := by
    rw [hledger.acquired] at hpos
    obtain ⟨hkey, hsome⟩ := h.acquired key hpos
    rw [hledger.evidenceOf key hkey]
    exact ⟨hkey, hsome⟩
  linked key hkey hsome := by
    rw [hledger.evidenceOf key hkey] at hsome
    rw [hledger.acquired]
    exact h.linked key hkey hsome
  counted key := by rw [hledger.counted, hledger.acquired, h.counted]
  fetches job hjob := by
    rcases hfetches job hjob with ⟨old, hold, hkey, hevidence⟩ | ⟨hkey, hpresent, hevidence⟩
    · obtain ⟨hfetchable, hpresent, hseen⟩ := h.fetches old hold
      rw [hkey] at hfetchable hpresent hseen
      rw [hledger.evidenceOf job.key hfetchable, ← hevidence]
      exact ⟨hfetchable, hledger.present job.key hpresent, hseen⟩
    · rw [hledger.evidenceOf job.key hkey, hevidence]
      exact ⟨hkey, hledger.present job.key hpresent, id⟩

theorem Linked.preserve {i : ℕ} {job : Fetch Id} {evidenceId : Id} {derivative : Bool}
    (h : Linked provider w) (hjob : w.started? i = some job) :
    Linked provider (w.endFetch i (w.ledger.preserveItem job.key evidenceId derivative)) := by
  obtain ⟨hfetchable, hpresent, -⟩ := h.fetches job (Work.started?_eq_some hjob)
  -- the item of the execution, and then every other item
  have hown : (w.ledger.preserveItem job.key evidenceId derivative).evidenceOf job.key =
      some evidenceId := Ledger.evidenceOf_preserveItem hpresent
  refine ⟨fun key hpos => ?_, fun key hkey hsome => ?_, fun key => ?_, fun x hx => ?_⟩
  · by_cases hk : key = job.key
    · subst hk
      refine ⟨hfetchable, ?_⟩
      rw [Work.endFetch, hown]
      rfl
    · rw [Work.endFetch, Ledger.acquired_preserveItem, if_neg (Ne.symm hk)] at hpos
      rw [Work.endFetch, Ledger.evidenceOf_preserveItem_of_ne hk]
      exact h.acquired key hpos
  · rw [Work.endFetch, Ledger.acquired_preserveItem]
    by_cases hk : key = job.key
    · rw [if_pos hk.symm]
      exact Nat.succ_pos _
    · rw [Work.endFetch, Ledger.evidenceOf_preserveItem_of_ne hk] at hsome
      exact Nat.add_pos_left (h.linked key hkey hsome) _
  · rw [Work.endFetch, Ledger.acquired_preserveItem, Ledger.counted_preserveItem, h.counted]
  · obtain ⟨hx₁, hx₂, hx₃⟩ := h.fetches x (List.eraseIdx_subset hx)
    refine ⟨hx₁, Ledger.present_preserveItem hx₂, fun hseen => ?_⟩
    by_cases hk : x.key = job.key
    · rw [Work.endFetch, hk, hown]
      rfl
    · rw [Work.endFetch, Ledger.evidenceOf_preserveItem_of_ne hk]
      exact hx₃ hseen

theorem linked_step {s s' : State Id} {e : Event Id} (h : Linked s.provider s.work)
    (hs : step s e = some s') : Linked s'.provider s'.work := by
  obtain ⟨hprovider, hwork⟩ := step_work hs
  rw [hprovider]
  rcases hwork with ⟨e, -, he⟩ | ⟨hfetches, hledger⟩
  · revert he
    generalize s'.work = w'
    intro he
    cases Work.step_cases he with
    | preserve hjob => exact h.preserve hjob
    | fail hjob => exact h.sameEvidence Ledger.sameEvidence_failItem Work.fetchesFrom_endFetch
    | inert hledger hfetches => exact h.sameEvidence hledger.toSameEvidence hfetches
  · exact h.sameEvidence hledger.toSameEvidence
      (Work.fetchesFrom_of_subset fun _ hjob => hfetches ▸ hjob)

/-! ## At most once -/

/-- Only the last transaction of `fetch-item` acquires anything. -/
theorem acquired_step {s s' : State Id} {e : Event Id} (hs : step s e = some s') :
    (∀ key, s'.work.ledger.acquired key = s.work.ledger.acquired key) ∨
      ∃ i evidenceId derivative job, e = .work (.preserveItem i evidenceId derivative) ∧
        s.work.started? i = some job ∧ ∀ key, s'.work.ledger.acquired key =
          s.work.ledger.acquired key + if job.key = key then 1 else 0 := by
  obtain ⟨-, hwork⟩ := step_work hs
  rcases hwork with ⟨e, rfl, he⟩ | ⟨-, hledger⟩
  · revert he
    generalize s'.work = w'
    intro he
    cases Work.step_cases he with
    | preserve hjob => exact .inr ⟨_, _, _, _, rfl, hjob, Ledger.acquired_preserveItem⟩
    | @fail i job hjob =>
      have hsame : s.work.ledger.SameEvidence s.provider
          (s.work.ledger.failItem job.key (job.attempts + 1)) := Ledger.sameEvidence_failItem
      exact .inl hsame.acquired
    | inert hledger hfetches => exact .inl hledger.acquired
  · exact .inl hledger.acquired

theorem acquired_mono {s s' : State Id} {e : Event Id} (hs : step s e = some s')
    (key : ItemKey Id) : s.work.ledger.acquired key ≤ s'.work.ledger.acquired key := by
  rcases acquired_step hs with hsame | ⟨i, evidenceId, derivative, job, -, -, hmore⟩
  · exact Nat.le_of_eq (hsame key).symm
  · rw [hmore]
    exact Nat.le_add_right _ _

theorem acquired_mono_run {s t : State Id} {events : List (Event Id)}
    (hrun : run step s events = some t) (key : ItemKey Id) :
    s.work.ledger.acquired key ≤ t.work.ledger.acquired key := by
  have hstep : ∀ (t : State Id) (e : Event Id) (t' : State Id),
      s.work.ledger.acquired key ≤ t.work.ledger.acquired key → step t e = some t' →
        s.work.ledger.acquired key ≤ t'.work.ledger.acquired key :=
    fun _ _ _ hle hs => Nat.le_trans hle (acquired_mono hs key)
  exact run_induction hstep (Nat.le_refl _) hrun

/-- While nothing is counted without being acquired, it is enough to look at the evidence. -/
theorem Linked.exactlyOnce_iff_acquired (h : Linked provider w) :
    ExactlyOnce w.ledger ↔ ∀ key, w.ledger.acquired key ≤ 1 := by
  refine ⟨fun honce key => (honce key).1, fun honce key => ⟨honce key, ?_⟩⟩
  rw [h.counted]
  exact honce key

/-- An execution is not overtaken exactly if its item was never acquired. -/
theorem Linked.notOvertaken_iff {job : Fetch Id} (h : Linked provider w) (hjob : job ∈ w.fetches) :
    job.evidenceItemId = none ∧ w.ledger.evidenceOf job.key = job.evidenceItemId ↔
      w.ledger.acquired job.key = 0 := by
  obtain ⟨hfetchable, -, hseen⟩ := h.fetches job hjob
  have hlink := h.linked job.key hfetchable
  refine ⟨?_, ?_⟩
  · rintro ⟨hnone, hevidence⟩
    -- evidence that exists would be linked
    by_contra hne
    obtain ⟨-, hsome⟩ := h.acquired job.key (Nat.pos_of_ne_zero hne)
    rw [hevidence, hnone] at hsome
    cases hsome
  · intro hzero
    have hunlinked : ¬ (w.ledger.evidenceOf job.key).isSome := fun hsome =>
      absurd hzero (Nat.ne_of_gt (hlink hsome))
    have hnone : w.ledger.evidenceOf job.key = none := Option.not_isSome_iff_eq_none.mp hunlinked
    have hread : job.evidenceItemId = none :=
      Option.not_isSome_iff_eq_none.mp fun hsome => hunlinked (hseen hsome)
    exact ⟨hread, hnone.trans hread.symm⟩

theorem Linked.exactlyOnce_step {s s' : State Id} {e : Event Id} (h : Linked s.provider s.work)
    (honce : ExactlyOnce s.work.ledger) (hclear : NotOvertaken s e) (hs : step s e = some s') :
    ExactlyOnce s'.work.ledger := by
  rw [(linked_step h hs).exactlyOnce_iff_acquired]
  intro key
  rcases acquired_step hs with hsame | ⟨i, evidenceId, derivative, job, rfl, hjob, hmore⟩
  · rw [hsame]
    exact (honce key).1
  · rw [hmore]
    by_cases hkey : job.key = key
    · -- the first evidence of this item
      subst hkey
      have hzero := (h.notOvertaken_iff (Work.started?_eq_some hjob)).mp (hclear job hjob)
      simp [hzero]
    · rw [if_neg hkey]
      exact (honce key).1

/-- A state that is never left by acquiring anything twice was not reached by it either. -/
theorem Linked.notOvertaken {s s' t : State Id} {e : Event Id} {events : List (Event Id)}
    (h : Linked s.provider s.work) (hs : step s e = some s')
    (hrun : run step s' events = some t) (honce : ExactlyOnce t.work.ledger) :
    NotOvertaken s e := by
  rcases acquired_step hs with hsame | ⟨i, evidenceId, derivative, job, rfl, hjob, hmore⟩
  · cases e with
    | work e =>
      cases e with
      | preserveItem i evidenceId derivative =>
        intro job hjob
        -- the item was acquired, which this event is not supposed to do
        obtain ⟨w', hw', rfl⟩ := Option.map_eq_some_iff.mp hs
        obtain ⟨x, hx, rfl⟩ := Option.map_eq_some_iff.mp hw'
        have hmore : (s.work.ledger.preserveItem x.key evidenceId derivative).acquired x.key =
            s.work.ledger.acquired x.key + if x.key = x.key then 1 else 0 :=
          Ledger.acquired_preserveItem x.key
        rw [if_pos rfl] at hmore
        exact absurd ((hsame x.key).symm.trans hmore) (Nat.succ_ne_self _).symm
      | _ => trivial
    | _ => trivial
  · intro x hx
    obtain rfl : job = x := Option.some.inj (hjob.symm.trans hx)
    rw [h.notOvertaken_iff (Work.started?_eq_some hjob)]
    have hle := Nat.le_trans (acquired_mono_run hrun job.key) (honce job.key).1
    rw [hmore, if_pos rfl] at hle
    exact Nat.le_zero.mp (Nat.le_of_succ_le_succ hle)

theorem Linked.always_notOvertaken {s t : State Id} {events : List (Event Id)}
    (h : Linked s.provider s.work) (hrun : run step s events = some t)
    (honce : ExactlyOnce t.work.ledger) : Always step NotOvertaken s events := by
  induction events generalizing s with
  | nil => trivial
  | cons e events ih =>
    obtain ⟨s', hs, hrun⟩ := run_cons.mp hrun
    refine ⟨h.notOvertaken hs hrun honce, fun s'' hs'' => ?_⟩
    obtain rfl : s' = s'' := Option.some.inj (hs.symm.trans hs'')
    exact ih (linked_step h hs) hrun

/-- **Exactly-once acquisition.** However the jobs of a collection interleave, crash and
are redelivered: every item is acquired and counted at most once if and only if no
execution of `fetch-item` that reached its last transaction was overtaken. -/
theorem exactlyOnce_iff {s : State Id} {events : List (Event Id)}
    (hrun : run step (State.created provider) events = some s) :
    ExactlyOnce s.work.ledger ↔ Always step NotOvertaken (State.created provider) events := by
  have hlinked : Linked provider (State.created provider : State Id).work :=
    linked_created provider
  have hempty : ExactlyOnce (State.created provider : State Id).work.ledger :=
    fun _ => ⟨Nat.zero_le 1, Nat.zero_le 1⟩
  refine ⟨?_, ?_⟩
  · intro honce
    apply Linked.always_notOvertaken hlinked hrun honce
  · intro hclear
    have hstep : ∀ (s : State Id) (e : Event Id) (s' : State Id),
        Linked s.provider s.work ∧ ExactlyOnce s.work.ledger → NotOvertaken s e →
          step s e = some s' → Linked s'.provider s'.work ∧ ExactlyOnce s'.work.ledger :=
      fun _ _ _ h hclear hs => ⟨linked_step h.1 hs, h.1.exactlyOnce_step h.2 hclear hs⟩
    exact (Always.run_induction hstep ⟨hlinked, hempty⟩ hclear hrun).2

/-! ## One execution and two -/

/-- The message is fetched. -/
def oneFetch : List (Event ℕ) :=
  onePage ++ ([.work (.loadItem (mailboxKey 7)), .work (.startItem 0),
    .work (.preserveItem 0 100 false)] : List (Event ℕ))

theorem exactlyOnce_iff_example :
    ∃ s, run step (State.created .google) oneFetch = some s ∧ ExactlyOnce s.work.ledger := by
  have hclear : Always step NotOvertaken (State.created .google) oneFetch := by
    iterate 7
      refine ⟨trivial, ?_⟩
      rintro _ ⟨⟩
    refine ⟨?_, fun _ _ => trivial⟩
    rintro _ ⟨⟩
    exact ⟨rfl, rfl⟩
  exact ⟨_, rfl, (exactlyOnce_iff rfl).mpr hclear⟩

/-- The download takes so long that the sweeper finds the item stalled and enqueues it once
more. Both executions reach their last transaction. -/
def twoFetches : List (Event ℕ) :=
  onePage ++ ([.work (.loadItem (mailboxKey 7)), .work (.startItem 0),
    .work (.sweepItem (mailboxKey 7)), .work (.loadItem (mailboxKey 7)), .work (.startItem 1),
    .work (.preserveItem 0 100 false), .work (.preserveItem 0 101 false)] : List (Event ℕ))

/-- The message is evidence twice, and is counted twice. -/
theorem twoFetches_acquire :
    ∃ s, run step (State.created .google) twoFetches = some s ∧
      s.work.ledger.acquired (mailboxKey 7) = 2 ∧ s.work.ledger.counted (mailboxKey 7) = 2 :=
  ⟨_, rfl, rfl, rfl⟩

/-- Not every run of the system acquires every item once. -/
theorem twoFetches_not_exactlyOnce :
    ¬ ∀ (events : List (Event ℕ)) (s : State ℕ),
      run step (State.created .google) events = some s → ExactlyOnce s.work.ledger := by
  intro h
  obtain ⟨s, hrun, htwice, -⟩ := twoFetches_acquire
  have honce := (h twoFetches s hrun (mailboxKey 7)).1
  rw [htwice] at honce
  exact absurd honce (by decide)

end AegCloudDfir.Collection
