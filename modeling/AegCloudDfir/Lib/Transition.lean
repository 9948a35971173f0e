import Mathlib.Data.List.Basic
import Mathlib.Data.List.Induction
import Mathlib.Data.Option.Basic

/-!
# Machines that take events

A system of concurrent jobs over one database is a machine: a state, and for
every event that can come next what it does to the state. An event that cannot
happen in a state (a transaction waiting for a lock, a job that was never
enqueued) has no successor. Interleavings, crashes and redeliveries are then
nothing but the order in which events appear in a run.

* `run` — the state after a list of events, if they can happen in that order.
* `run_induction` — what every event preserves holds after every run.
* `Always` — a property of every event of a run together with the state it
  happens in; `Always.run_induction` uses it as a hypothesis of the induction,
  and `Always.imp` trades one such property for another under an invariant.
* `Throughout` — a property of every state of a run; where an event keeps it
  exactly if it has some property itself, the two go together
  (`Always.throughout_iff`, `throughout_iff_always`).
* `foldl_iff` — the same for a loop, where every event has a successor.
-/

namespace Transition

universe u v

variable {σ : Type u} {ε : Type v} {step : σ → ε → Option σ}

/-- The state after the events `es`, one after another. -/
def run (step : σ → ε → Option σ) : σ → List ε → Option σ
  | s, [] => some s
  | s, e :: es => (step s e).bind fun s' => run step s' es

@[simp] theorem run_nil (s : σ) : run step s [] = some s := rfl

theorem run_cons {s t : σ} {e : ε} {es : List ε} :
    run step s (e :: es) = some t ↔ ∃ s', step s e = some s' ∧ run step s' es = some t :=
  Option.bind_eq_some_iff

theorem run_append {s t : σ} {es fs : List ε} :
    run step s (es ++ fs) = some t ↔ ∃ s', run step s es = some s' ∧ run step s' fs = some t := by
  induction es generalizing s with
  | nil => simp
  | cons e es ih =>
    rw [List.cons_append, run_cons]
    refine ⟨?_, ?_⟩
    · rintro ⟨s₁, h₁, h⟩
      obtain ⟨s₂, h₂, h⟩ := ih.mp h
      exact ⟨s₂, run_cons.mpr ⟨s₁, h₁, h₂⟩, h⟩
    · rintro ⟨s₂, h₂, h⟩
      obtain ⟨s₁, h₁, h₂⟩ := run_cons.mp h₂
      exact ⟨s₁, h₁, ih.mpr ⟨s₂, h₂, h⟩⟩

/-! ## Invariants -/

/-- **What every event preserves holds after every run.** -/
theorem run_induction {Inv : σ → Prop}
    (hstep : ∀ s e s', Inv s → step s e = some s' → Inv s') {s t : σ} {es : List ε}
    (hs : Inv s) (h : run step s es = some t) : Inv t := by
  induction es generalizing s with
  | nil =>
    cases h
    exact hs
  | cons e es ih =>
    obtain ⟨s', hse, h⟩ := run_cons.mp h
    exact ih (hstep s e s' hs hse) h

/-- `P` holds of every event of the run and the state it happens in. -/
def Always (step : σ → ε → Option σ) (P : σ → ε → Prop) : σ → List ε → Prop
  | _, [] => True
  | s, e :: es => P s e ∧ ∀ s', step s e = some s' → Always step P s' es

/-- A run can be checked event by event. -/
instance Always.decidable {P : σ → ε → Prop} [∀ s e, Decidable (P s e)] :
    ∀ (s : σ) (es : List ε), Decidable (Always step P s es)
  | _, [] => isTrue trivial
  | s, e :: es =>
    match h : step s e with
    | none => decidable_of_iff (P s e) (by simp [Always, h])
    | some s' =>
      have : Decidable (Always step P s' es) := Always.decidable s' es
      decidable_of_iff (P s e ∧ Always step P s' es) (by simp [Always, h])

theorem Always.append {P : σ → ε → Prop} {s : σ} {es fs : List ε} :
    Always step P s (es ++ fs) ↔
      Always step P s es ∧ ∀ t, run step s es = some t → Always step P t fs := by
  induction es generalizing s with
  | nil => simp [Always]
  | cons e es ih =>
    rw [List.cons_append, Always, Always]
    refine ⟨?_, ?_⟩
    · rintro ⟨hp, h⟩
      refine ⟨⟨hp, fun s' hs' => (ih.mp (h s' hs')).1⟩, fun t ht => ?_⟩
      obtain ⟨s', hs', ht⟩ := run_cons.mp ht
      exact (ih.mp (h s' hs')).2 t ht
    · rintro ⟨⟨hp, h⟩, hfs⟩
      exact ⟨hp, fun s' hs' =>
        ih.mpr ⟨h s' hs', fun t ht => hfs t (run_cons.mpr ⟨s', hs', ht⟩)⟩⟩

theorem Always.of_forall_mem {P : σ → ε → Prop} {es : List ε} (h : ∀ e ∈ es, ∀ s, P s e) {s : σ} :
    Always step P s es := by
  induction es generalizing s with
  | nil => trivial
  | cons e es ih =>
    obtain ⟨he, hes⟩ := List.forall_mem_cons.mp h
    exact ⟨he s, fun _ _ => ih hes⟩

theorem Always.and {P Q : σ → ε → Prop} {s : σ} {es : List ε} (hP : Always step P s es)
    (hQ : Always step Q s es) : Always step (fun s e => P s e ∧ Q s e) s es := by
  induction es generalizing s with
  | nil => trivial
  | cons e es ih => exact ⟨⟨hP.1, hQ.1⟩, fun s' hs' => ih (hP.2 s' hs') (hQ.2 s' hs')⟩

/-- **What every event allowed by `P` preserves holds after every run that `P`
allows.** -/
theorem Always.run_induction {P : σ → ε → Prop} {Inv : σ → Prop}
    (hstep : ∀ s e s', Inv s → P s e → step s e = some s' → Inv s') {s t : σ} {es : List ε}
    (hs : Inv s) (hP : Always step P s es) (h : run step s es = some t) : Inv t := by
  induction es generalizing s with
  | nil =>
    cases h
    exact hs
  | cons e es ih =>
    obtain ⟨s', hse, h⟩ := run_cons.mp h
    exact ih (hstep s e s' hs hP.1 hse) (hP.2 s' hse) h

/-- Under an invariant, one property of every event gives another. -/
theorem Always.imp {P Q : σ → ε → Prop} {Inv : σ → Prop}
    (hstep : ∀ s e s', Inv s → P s e → step s e = some s' → Inv s')
    (hPQ : ∀ s e, Inv s → P s e → Q s e) {s : σ} {es : List ε}
    (hs : Inv s) (hP : Always step P s es) : Always step Q s es := by
  induction es generalizing s with
  | nil => trivial
  | cons e es ih =>
    refine ⟨hPQ s e hs hP.1, fun s' hse => ?_⟩
    exact ih (hstep s e s' hs hP.1 hse) (hP.2 s' hse)

/-- `P` holds of every state of the run. -/
def Throughout (step : σ → ε → Option σ) (P : σ → Prop) : σ → List ε → Prop
  | s, [] => P s
  | s, e :: es => P s ∧ ∀ s', step s e = some s' → Throughout step P s' es

theorem Throughout.start {P : σ → Prop} {s : σ} {es : List ε} (h : Throughout step P s es) :
    P s := by
  cases es with
  | nil => exact h
  | cons e es => exact h.1

/-- What holds throughout a run holds after it. -/
theorem Throughout.run {P : σ → Prop} {s t : σ} {es : List ε} (h : Throughout step P s es)
    (hrun : run step s es = some t) : P t := by
  induction es generalizing s with
  | nil =>
    cases hrun
    exact h
  | cons e es ih =>
    obtain ⟨s', hse, hrun⟩ := run_cons.mp hrun
    exact ih (h.2 s' hse) hrun

/-- **A property that exactly the events with `P` keep**, among those with `U`, holds throughout
exactly the runs of such events. -/
theorem Always.throughout_iff {Inv Good : σ → Prop} {U P : σ → ε → Prop}
    (hinv : ∀ s e s', Inv s → U s e → step s e = some s' → Inv s')
    (hstep : ∀ s e s', Inv s → U s e → Good s → step s e = some s' → (Good s' ↔ P s e))
    {s t : σ} {es : List ε} (hU : Always step U s es) (hs : Inv s) (hgood : Good s)
    (h : Transition.run step s es = some t) : Throughout step Good s es ↔ Always step P s es := by
  induction es generalizing s with
  | nil => exact iff_of_true hgood trivial
  | cons e es ih =>
    obtain ⟨s', hse, h⟩ := run_cons.mp h
    have hs' := hinv s e s' hs hU.1 hse
    -- the event has one successor
    have hnext : ∀ Q : σ → Prop, (∀ s'', step s e = some s'' → Q s'') ↔ Q s' := by
      intro Q
      refine ⟨?_, ?_⟩
      · exact fun hQ => hQ s' hse
      · rintro hQ s'' hs''
        exact Option.some.inj (hse.symm.trans hs'') ▸ hQ
    rw [Throughout, Always, hnext, hnext, and_iff_right hgood, ← hstep s e s' hs hU.1 hgood hse]
    refine ⟨?_, ?_⟩
    · intro hthroughout
      exact ⟨hthroughout.start, (ih (hU.2 s' hse) hs' hthroughout.start h).mp hthroughout⟩
    · rintro ⟨hgood', halways⟩
      exact (ih (hU.2 s' hse) hs' hgood' h).mpr halways

/-- The same where no event is ruled out. -/
theorem throughout_iff_always {Inv Good : σ → Prop} {P : σ → ε → Prop}
    (hinv : ∀ s e s', Inv s → step s e = some s' → Inv s')
    (hstep : ∀ s e s', Inv s → Good s → step s e = some s' → (Good s' ↔ P s e)) {s t : σ}
    {es : List ε} (hs : Inv s) (hgood : Good s) (h : run step s es = some t) :
    Throughout step Good s es ↔ Always step P s es :=
  Always.throughout_iff (fun s e s' hs _ => hinv s e s' hs) (fun s e s' hs _ => hstep s e s' hs)
    (Always.of_forall_mem fun _ _ _ => trivial) hs hgood h

/-! ## Loops -/

/-- **What every round of a fold asks for** is asked for altogether: a property of the result
that a round keeps exactly if it is clear. -/
theorem foldl_iff (f : σ → ε → σ) (Inv Good : σ → Prop) (Clear : σ → ε → Prop)
    {s : σ} (es : List ε) (hs : Inv s) (hinv : ∀ s, ∀ e ∈ es, Inv s → Inv (f s e))
    (hstep : ∀ s, ∀ e ∈ es, Inv s → (Good (f s e) ↔ Good s ∧ Clear s e)) :
    Inv (es.foldl f s) ∧ (Good (es.foldl f s) ↔ Good s ∧
      ∀ before e after, es = before ++ e :: after → Clear (before.foldl f s) e) := by
  induction es using List.reverseRecOn with
  | nil => simpa using hs
  | append_singleton es last ih =>
    have hlast : last ∈ es ++ [last] := List.mem_append_right _ (List.mem_singleton_self last)
    obtain ⟨hend, hgood⟩ := ih (fun s e he => hinv s e (List.mem_append_left _ he))
      fun s e he => hstep s e (List.mem_append_left _ he)
    rw [List.foldl_append, List.foldl_cons, List.foldl_nil]
    refine ⟨hinv _ last hlast hend, ?_⟩
    rw [hstep _ last hlast hend, hgood, and_assoc]
    refine and_congr_right fun _ => ?_
    refine ⟨?_, ?_⟩
    · rintro ⟨hbefore, hclear⟩ before e after hsplit
      rcases List.eq_nil_or_concat after with rfl | ⟨after, last', rfl⟩
      · obtain ⟨rfl, heq⟩ := List.append_inj' hsplit rfl
        obtain rfl := List.singleton_inj.mp heq
        exact hclear
      · rw [List.concat_eq_append, ← List.cons_append, ← List.append_assoc] at hsplit
        obtain ⟨rfl, -⟩ := List.append_inj' hsplit rfl
        exact hbefore before e after rfl
    · intro hall
      refine ⟨fun before e after hsplit => hall before e (after ++ [last]) ?_, hall es last [] rfl⟩
      rw [hsplit, List.append_assoc, List.cons_append]

end Transition
