import Mathlib.Algebra.Order.Group.Unbundled.Int
import Mathlib.Data.Finset.Card
import Mathlib.Data.Int.LeastGreatest
import Mathlib.Order.Bounds.Basic

/-!
# Local clocks

A local clock runs ahead of or behind the clock that instants are counted by, by an offset that
changes at finitely many instants (`Zone`). It may be put forward over a local time or put back
behind it, so a local time can be shown at no instant or at several; what it always has is a first
instant at which it is reached (`Zone.exists_isLeast_reached`).

A guess at that instant is corrected by the offset that is in force at the guess (`Zone.correct`).
How far this gets in four corrections, beginning with the local time itself, depends on where the
changes are. With no change within a day of it they always arrive, and with one they arrive but
for a local time that is repeated too early or skipped (`Zone.isLeast_corrected_iff`).
-/

namespace LocalClock

/-- A local clock: its offset at every instant, less than a day, and the instants it changes at.
From each of these on the new offset is in force. -/
structure Zone (day : ℤ) where
  offset : ℤ → ℤ
  changes : Finset ℤ
  steady : ∀ s t, (∀ c ∈ changes, c ≤ s ↔ c ≤ t) → offset s = offset t
  bounded : ∀ t, -day < offset t ∧ offset t < day

namespace Zone

variable {day : ℤ} (z : Zone day) (m : ℤ)

/-- What the local clock shows. -/
def wall (t : ℤ) : ℤ := t + z.offset t

/-- The instants at which the clock shows a local time or a later one. -/
def Reached : Set ℤ := {t | m ≤ z.wall t}

/-- The instant at which a clock with the offset that is in force at `t` shows `m`. -/
def correct (t : ℤ) : ℤ := m - z.offset t

/-- Four corrections. -/
def corrected : ℤ := z.correct m (z.correct m (z.correct m (z.correct m m)))

/-- The changes within a day. -/
def nearby : Finset ℤ := z.changes.filter fun c => m - day < c ∧ c < m + day

/-- A change puts the clock back from `m` or a later time to `m` or an earlier one. -/
def Repeats (c : ℤ) : Prop := m - z.offset (c - 1) < c ∧ c ≤ m - z.offset c

/-- A change puts the clock forward from `m` or an earlier time to a later one. -/
def Skips (c : ℤ) : Prop := m - z.offset c < c ∧ c ≤ m - z.offset (c - 1)

/-- Four corrections are enough. A change that is alone within a day and repeats the local time
comes later than the local time itself; one that skips it comes no later, and at the local time
to the instant. Where there are more changes within a day, the fourth correction is made with the
offset that the first instant has. -/
structure Settles : Prop where
  alone : ∀ c, z.nearby m = {c} →
    (z.Repeats m c → m < c) ∧ (z.Skips m c → c ≤ m ∧ c = m - z.offset (c - 1))
  several : 2 ≤ (z.nearby m).card → ∀ t, IsLeast (z.Reached m) t →
    z.offset (z.correct m (z.correct m (z.correct m m))) = m - t

/-- Some instant shows a time from `m` on, before the clock shows `next`. -/
def Comes (next : ℤ) : Prop := ∃ t, m ≤ z.wall t ∧ ∀ s ≤ t, z.wall s < next

/-- A correction stays within a day. -/
theorem correct_mem (t : ℤ) : m - day < z.correct m t ∧ z.correct m t < m + day := by
  have := z.bounded t
  rw [correct]
  omega

variable {z m}

/-- What has reached the local time is no more than a day before it. -/
theorem lt_of_mem_reached {t : ℤ} (h : t ∈ z.Reached m) : m - day < t := by
  have hreached : m ≤ t + z.offset t := h
  have := z.bounded t
  omega

/-- **There is a first instant.** -/
theorem exists_isLeast_reached : ∃ t, IsLeast (z.Reached m) t := by
  have hsome : ∃ t, t ∈ z.Reached m := by
    refine ⟨m + day, ?_⟩
    have := z.bounded (m + day)
    change m ≤ m + day + z.offset (m + day)
    omega
  obtain ⟨t, ht, hleast⟩ := Int.exists_least_of_bdd
    ⟨m - day, fun _ h => (lt_of_mem_reached h).le⟩ hsome
  exact ⟨t, ht, fun s hs => hleast s hs⟩

/-- The first instant is within a day. -/
theorem isLeast_mem {t : ℤ} (h : IsLeast (z.Reached m) t) : m - day < t ∧ t ≤ m + day := by
  refine ⟨lt_of_mem_reached h.1, h.2 ?_⟩
  have := z.bounded (m + day)
  change m ≤ m + day + z.offset (m + day)
  omega

/-- Between the changes the offset stays. -/
theorem offset_eq {s t : ℤ} (hs : m - day ≤ s) (hs' : s < m + day) (ht : m - day ≤ t)
    (ht' : t < m + day) (h : ∀ c ∈ z.nearby m, c ≤ s ↔ c ≤ t) : z.offset s = z.offset t := by
  apply z.steady
  intro c hc
  by_cases hnear : m - day < c ∧ c < m + day
  · exact h c (Finset.mem_filter.mpr ⟨hc, hnear⟩)
  · omega

section Offsets

variable {a b c : ℤ} (hc : m - day < c ∧ c < m + day) (ha : -day < a ∧ a < day)
  (h : ∀ t, m - day < t → t < m + day → z.offset t = if t < c then a else b)

include hc ha h

/-- With one offset before a change and one from it on, the first instant is the one at which the
first offset shows `m`, or else the change, or else the one at which the second does. -/
theorem isLeast_reached_of_offsets :
    IsLeast (z.Reached m) (if m - a < c then m - a else max c (m - b)) := by
  have hb : z.offset c = b := by rw [h c hc.1 hc.2, if_neg (lt_irrefl c)]
  have hbound := z.bounded c
  have hbefore : ∀ t ∈ z.Reached m, t < c → m - a ≤ t := by
    intro t ht htc
    have hwall : m ≤ t + z.offset t := ht
    rw [h t (lt_of_mem_reached ht) (htc.trans hc.2), if_pos htc] at hwall
    omega
  split_ifs with hold
  · refine ⟨?_, fun t ht => ?_⟩
    · change m ≤ m - a + z.offset (m - a)
      rw [h (m - a) (by omega) (by omega), if_pos hold]
      omega
    · rcases lt_or_ge t c with htc | htc
      · exact hbefore t ht htc
      · omega
  · refine ⟨?_, fun t ht => ?_⟩
    · change m ≤ max c (m - b) + z.offset (max c (m - b))
      rw [h (max c (m - b)) (by omega) (by omega), if_neg (by omega)]
      omega
    · rcases lt_or_ge t c with htc | htc
      · have := hbefore t ht htc
        omega
      · by_contra hlt
        have hwall : m ≤ t + z.offset t := ht
        rw [h t (lt_of_mem_reached ht) (by omega), if_neg (by omega)] at hwall
        omega

/-- **One change.** The corrections go back and forth between the two instants at which the two
offsets show `m`, unless they come to one that has the offset it was made with. -/
theorem isLeast_corrected_of_offsets :
    IsLeast (z.Reached m) (z.corrected m) ↔
      (m - a < c → c ≤ m - b → m < c) ∧ (m - b < c → c ≤ m - a → c ≤ m ∧ c = m - a) := by
  have hfirst := isLeast_reached_of_offsets hc ha h
  have hstep : ∀ t, m - day < t → t < m + day →
      z.correct m t = if t < c then m - a else m - b := by
    intro t ht ht'
    rw [correct, h t ht ht']
    split_ifs <;> rfl
  have hone := hstep m (by omega) (by omega)
  have htwo := hstep (z.correct m m) (correct_mem z m _).1 (correct_mem z m _).2
  have hthree := hstep (z.correct m (z.correct m m)) (correct_mem z m _).1 (correct_mem z m _).2
  have hfour := hstep (z.correct m (z.correct m (z.correct m m))) (correct_mem z m _).1
    (correct_mem z m _).2
  have hiff : IsLeast (z.Reached m) (z.corrected m) ↔
      z.corrected m = if m - a < c then m - a else max c (m - b) :=
    ⟨fun hleast => hleast.unique hfirst, fun heq => heq ▸ hfirst⟩
  rw [hiff, corrected, hfour, hthree, htwo, hone]
  clear hfirst hstep hone htwo hthree hfour hiff h
  split_ifs <;> omega

end Offsets

/-- What a change that is alone within a day says of the offsets there. -/
theorem offset_of_nearby_eq {c : ℤ} (h : z.nearby m = {c}) :
    (m - day < c ∧ c < m + day) ∧ ∀ t, m - day < t → t < m + day →
      z.offset t = if t < c then z.offset (c - 1) else z.offset c := by
  have hmem : c ∈ z.nearby m := h ▸ Finset.mem_singleton_self c
  have hc := (Finset.mem_filter.mp hmem).2
  refine ⟨hc, fun t ht ht' => ?_⟩
  split_ifs with htc
  · refine offset_eq ht.le ht' (by omega) (by omega) fun d hd => ?_
    obtain rfl := Finset.mem_singleton.mp (h ▸ hd)
    omega
  · refine offset_eq ht.le ht' hc.1.le hc.2 fun d hd => ?_
    obtain rfl := Finset.mem_singleton.mp (h ▸ hd)
    omega

/-- **Four corrections.** They arrive at the first instant exactly if they settle. -/
theorem isLeast_corrected_iff : IsLeast (z.Reached m) (z.corrected m) ↔ z.Settles m := by
  have hday := z.bounded m
  rcases Nat.lt_or_ge (z.nearby m).card 2 with hfew | hmany
  · rcases Finset.eq_empty_or_nonempty (z.nearby m) with hnone | hsome
    · have hoffset : ∀ t, m - day < t → t < m + day →
          z.offset t = if t < m then z.offset m else z.offset m := by
        intro t ht ht'
        rw [ite_self]
        refine offset_eq ht.le ht' (by omega) (by omega) fun c hc => ?_
        rw [hnone] at hc
        cases hc
      rw [isLeast_corrected_of_offsets (by omega) hday hoffset]
      refine iff_of_true ⟨by omega, by omega⟩
        ⟨fun c hc => ?_, fun hmany => absurd hmany (not_le.mpr hfew)⟩
      rw [hnone] at hc
      exact absurd hc.symm (Finset.singleton_ne_empty c)
    · obtain ⟨c, hc⟩ := Finset.card_eq_one.mp
        (le_antisymm (Nat.lt_succ_iff.mp hfew) hsome.card_pos)
      obtain ⟨hnear, hoffset⟩ := offset_of_nearby_eq hc
      rw [isLeast_corrected_of_offsets hnear (z.bounded _) hoffset]
      refine ⟨fun h => ⟨?_, fun hmany => absurd hmany (not_le.mpr hfew)⟩, fun h => ?_⟩
      · intro d hd
        obtain rfl := Finset.singleton_injective (hc.symm.trans hd)
        exact ⟨fun hr => h.1 hr.1 hr.2, fun hs => h.2 hs.1 hs.2⟩
      · exact ⟨fun hold hnew => (h.alone c hc).1 ⟨hold, hnew⟩,
          fun hnew hold => (h.alone c hc).2 ⟨hnew, hold⟩⟩
  · obtain ⟨t, ht⟩ := exists_isLeast_reached (z := z) (m := m)
    refine ⟨fun h => ⟨fun c hc => ?_, fun _ s hs => ?_⟩, fun h => ?_⟩
    · rw [hc, Finset.card_singleton] at hmany
      exact absurd hmany (by decide)
    · have heq : z.corrected m = s := h.unique hs
      rw [corrected, correct] at heq
      omega
    · have hsettled := h.several hmany t ht
      have heq : z.corrected m = t := by
        rw [corrected, correct]
        omega
      rwa [heq]

/-- What begins first and what begins next are apart exactly if something comes between. -/
theorem lt_iff_comes {next first bound : ℤ} (hfirst : IsLeast (z.Reached m) first)
    (hbound : IsLeast (z.Reached next) bound) : first < bound ↔ z.Comes m next := by
  refine ⟨fun hlt => ⟨first, hfirst.1, fun s hs => ?_⟩, ?_⟩
  · by_contra hnext
    have : bound ≤ s := hbound.2 (not_lt.mp hnext)
    omega
  · rintro ⟨t, ht, hbefore⟩
    by_contra hle
    have hft : first ≤ t := hfirst.2 ht
    have hnext : next ≤ z.wall bound := hbound.1
    have := hbefore bound (by omega)
    omega

end Zone

end LocalClock
