import AegCloudDfir.Lib.Transition

/-!
# The last word

Some events of a machine settle a property of its states, whatever it was before: those with `Q`
make it true, those with `P` make it false, and no other event changes it. So after a run it is what
the last of them has left.

* `Eventually` — some event of the run has a property, in the state it happens in.
* `Followed` — every event with one property is followed by one with another.
* `holds_iff_followed` — the property holds after a run exactly if what makes it false is followed
  by what makes it true, and it was true before or is made so (`holds_iff_eventually`: if nothing
  makes it false).
-/

namespace Transition

universe u v

variable {σ : Type u} {ε : Type v} {step : σ → ε → Option σ}

/-- Some event of the run has `P`, in the state it happens in. -/
def Eventually (step : σ → ε → Option σ) (P : σ → ε → Prop) : σ → List ε → Prop
  | _, [] => False
  | s, e :: es => P s e ∨ ∃ s', step s e = some s' ∧ Eventually step P s' es

/-- Every event of the run with `P` is followed by one with `Q`. -/
def Followed (step : σ → ε → Option σ) (P Q : σ → ε → Prop) : σ → List ε → Prop
  | _, [] => True
  | s, e :: es => ∀ s', step s e = some s' →
    (P s e → Eventually step Q s' es) ∧ Followed step P Q s' es

variable {P Q : σ → ε → Prop} {s s' t : σ} {e : ε} {es : List ε}

theorem Eventually.imp (h : Eventually step P s es) (hPQ : ∀ s e, P s e → Q s e) :
    Eventually step Q s es := by
  induction es generalizing s with
  | nil => exact h
  | cons e es ih =>
    rcases h with h | ⟨s', hstep, h⟩
    · exact .inl (hPQ s e h)
    · exact .inr ⟨s', hstep, ih h⟩

theorem eventually_cons (hstep : step s e = some s') :
    Eventually step P s (e :: es) ↔ P s e ∨ Eventually step P s' es := by
  refine or_congr_right ⟨?_, fun h => ⟨s', hstep, h⟩⟩
  rintro ⟨s'', hs'', h⟩
  exact Option.some.inj (hstep.symm.trans hs'') ▸ h

theorem followed_cons (hstep : step s e = some s') :
    Followed step P Q s (e :: es) ↔
      (P s e → Eventually step Q s' es) ∧ Followed step P Q s' es := by
  refine ⟨fun h => h s' hstep, fun h s'' hs'' => ?_⟩
  exact Option.some.inj (hstep.symm.trans hs'') ▸ h

/-- **What is true in the end** is true exactly if what makes it false is followed by what makes it
true, and it was true before or is made so. -/
theorem holds_iff_followed {Inv Good : σ → Prop}
    (hinv : ∀ s e s', Inv s → step s e = some s' → Inv s')
    (hQ : ∀ s e s', Inv s → step s e = some s' → Q s e → Good s')
    (hP : ∀ s e s', Inv s → step s e = some s' → P s e → ¬ Good s')
    (hother : ∀ s e s', Inv s → step s e = some s' → ¬ P s e → ¬ Q s e → (Good s' ↔ Good s))
    (hs : Inv s) (h : run step s es = some t) :
    Good t ↔ Followed step P Q s es ∧ (Good s ∨ Eventually step Q s es) := by
  induction es generalizing s with
  | nil =>
    cases h
    exact ⟨fun h => ⟨trivial, .inl h⟩, fun h => h.2.resolve_right id⟩
  | cons e es ih =>
    obtain ⟨s', hstep, h⟩ := run_cons.mp h
    rw [ih (hinv s e s' hs hstep) h, followed_cons hstep, eventually_cons hstep]
    by_cases hPe : P s e
    · have hnot := hP s e s' hs hstep hPe
      have hQe : ¬ Q s e := fun hQe => hnot (hQ s e s' hs hstep hQe)
      refine ⟨fun ⟨hfollowed, h⟩ => ?_, fun ⟨⟨heventually, hfollowed⟩, _⟩ => ?_⟩
      · exact ⟨⟨fun _ => h.resolve_left hnot, hfollowed⟩, .inr (.inr (h.resolve_left hnot))⟩
      · exact ⟨hfollowed, .inr (heventually hPe)⟩
    · by_cases hQe : Q s e
      · have hgood := hQ s e s' hs hstep hQe
        exact ⟨fun ⟨hfollowed, _⟩ => ⟨⟨fun h => absurd h hPe, hfollowed⟩, .inr (.inl hQe)⟩,
          fun ⟨⟨_, hfollowed⟩, _⟩ => ⟨hfollowed, .inl hgood⟩⟩
      · rw [hother s e s' hs hstep hPe hQe, or_iff_right hQe]
        exact and_congr_left fun _ => ⟨fun h => ⟨fun hP => absurd hP hPe, h⟩, And.right⟩

/-- What nothing makes false is true in the end exactly if it was true before or is made so. -/
theorem holds_iff_eventually {Inv Good : σ → Prop}
    (hinv : ∀ s e s', Inv s → step s e = some s' → Inv s')
    (hQ : ∀ s e s', Inv s → step s e = some s' → Q s e → Good s')
    (hother : ∀ s e s', Inv s → step s e = some s' → ¬ Q s e → (Good s' ↔ Good s))
    (hs : Inv s) (h : run step s es = some t) : Good t ↔ Good s ∨ Eventually step Q s es := by
  rw [holds_iff_followed (P := fun _ _ => False) hinv hQ (fun _ _ _ _ _ => False.elim)
    (fun s e s' hs hstep _ => hother s e s' hs hstep) hs h]
  refine and_iff_right ?_
  clear h
  induction es generalizing s with
  | nil => trivial
  | cons e es ih =>
    intro s' hstep
    exact ⟨False.elim, ih (hinv s e s' hs hstep)⟩

end Transition
