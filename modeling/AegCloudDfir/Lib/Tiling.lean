import Mathlib.Algebra.Order.Group.Nat
import Mathlib.Data.List.Chain
import Mathlib.Order.Defs.LinearOrder
import Mathlib.Tactic.Ring

/-!
# Tilings of an interval

A long stretch (of bytes, of time) is asked for in pieces, each with where it starts and
where it stops. The pieces are a tiling if they are non-empty and each starts where the
one before it stops.

* `Tiles a b pieces` — the pieces `[start, stop)` lead from `a` to `b`.
* `Tiles.mem_iff` — together they have what lies between `a` and `b`;
  `Tiles.pairwise` — no two of them have anything in common.
* `steps` — the pieces of a loop that goes on by a fixed width; it makes a tiling
  (`tiles_steps`), whose length is known (`length_steps_le`).
-/

namespace Tiling

universe u

/-- The pieces `[start, stop)` lead from one point to another. -/
inductive Tiles {α : Type u} [LT α] : α → α → List (α × α) → Prop where
  | nil (a : α) : Tiles a a []
  | cons {a m b : α} {pieces : List (α × α)} :
    a < m → Tiles m b pieces → Tiles a b ((a, m) :: pieces)

section Order

variable {α : Type u} [LinearOrder α] {a m b : α} {pieces more : List (α × α)} {p : α × α}

theorem Tiles.le (h : Tiles a b pieces) : a ≤ b := by
  induction h with
  | nil a => exact le_refl a
  | cons hlt _ ih => exact hlt.le.trans ih

/-- A piece lies between the ends, and something is in it. -/
theorem Tiles.bounds (h : Tiles a b pieces) (hp : p ∈ pieces) : a ≤ p.1 ∧ p.1 < p.2 ∧ p.2 ≤ b := by
  induction h with
  | nil a => cases hp
  | cons hlt htail ih =>
    rcases List.mem_cons.mp hp with rfl | hp
    · exact ⟨le_refl _, hlt, htail.le⟩
    · obtain ⟨hle, hp⟩ := ih hp
      exact ⟨hlt.le.trans hle, hp⟩

/-- **The pieces cover what lies between the ends, and nothing else.** -/
theorem Tiles.mem_iff (h : Tiles a b pieces) {x : α} :
    (∃ p ∈ pieces, p.1 ≤ x ∧ x < p.2) ↔ a ≤ x ∧ x < b := by
  refine ⟨?_, ?_⟩
  · rintro ⟨p, hp, hle, hlt⟩
    obtain ⟨ha, -, hb⟩ := h.bounds hp
    exact ⟨ha.trans hle, hlt.trans_le hb⟩
  · rintro ⟨ha, hb⟩
    induction h with
    | nil a => exact absurd (ha.trans_lt hb) (lt_irrefl a)
    | @cons a m b pieces hlt _ ih =>
      rcases lt_or_ge x m with hx | hx
      · exact ⟨_, List.mem_cons_self .., ha, hx⟩
      · obtain ⟨p, hp, hin⟩ := ih hx hb
        exact ⟨p, List.mem_cons_of_mem _ hp, hin⟩

/-- **The pieces lie one behind the other.** -/
theorem Tiles.pairwise (h : Tiles a b pieces) : pieces.Pairwise fun p q => p.2 ≤ q.1 := by
  induction h with
  | nil a => exact .nil
  | cons _ htail ih => exact .cons (fun q hq => (htail.bounds hq).1) ih

/-- Each starts where the one before it stops. -/
theorem Tiles.next (h : Tiles a b pieces) {i : ℕ} {q : α × α} (hp : pieces[i]? = some p)
    (hq : pieces[i + 1]? = some q) : q.1 = p.2 := by
  induction h generalizing i with
  | nil a => cases hp
  | @cons a m b pieces _ htail ih =>
    cases i with
    | succ i => exact ih hp hq
    | zero =>
      cases hp
      cases htail with
      | nil a => cases hq
      | cons _ _ =>
        cases hq
        rfl

/-- The first one starts where the stretch starts, the last one stops where it stops. -/
theorem Tiles.ends (h : Tiles a b pieces) (hlt : a < b) :
    pieces.head?.map Prod.fst = some a ∧ pieces.getLast?.map Prod.snd = some b := by
  refine ⟨?_, ?_⟩
  · cases h with
    | nil a => exact absurd hlt (lt_irrefl a)
    | cons _ _ => rfl
  · induction h with
    | nil a => exact absurd hlt (lt_irrefl a)
    | @cons a m b pieces hm htail ih =>
      cases htail with
      | nil a => rfl
      | cons hm' htail =>
        rw [List.getLast?_cons_cons]
        exact ih (hm'.trans_le htail.le)

end Order

/-! ## Loops -/

/-- The pieces of a loop from `a` to `b` that goes on by a fixed width; the last piece may
be shorter. -/
def steps (width : ℕ) (hwidth : 0 < width) (a b : ℕ) : List (ℕ × ℕ) :=
  if a < b then (a, min (a + width) b) :: steps width hwidth (a + width) b else []
termination_by b - a

section Loops

variable {width : ℕ} {hwidth : 0 < width} {a b : ℕ}

theorem steps_of_lt (h : a < b) :
    steps width hwidth a b = (a, min (a + width) b) :: steps width hwidth (a + width) b := by
  rw [steps, if_pos h]

theorem steps_of_le (h : b ≤ a) : steps width hwidth a b = [] := by
  rw [steps, if_neg (Nat.not_lt.mpr h)]

/-- **A loop makes a tiling.** -/
theorem tiles_steps (hle : a ≤ b) : Tiles a b (steps width hwidth a b) := by
  induction a using steps.induct width hwidth b with
  | case1 a hlt ih =>
    rw [steps_of_lt hlt]
    rcases Nat.le_total (a + width) b with hmore | hlast
    · rw [Nat.min_eq_left hmore]
      exact .cons (Nat.lt_add_of_pos_right hwidth) (ih hmore)
    · rw [Nat.min_eq_right hlast, steps_of_le hlast]
      exact .cons hlt (.nil b)
  | case2 a hnot =>
    rw [steps_of_le (Nat.le_of_not_lt hnot), Nat.le_antisymm hle (Nat.le_of_not_lt hnot)]
    exact .nil b

/-- A loop over a stretch of at most `n` widths has at most `n` pieces. -/
theorem length_steps_le {n : ℕ} (h : b ≤ a + n * width) : (steps width hwidth a b).length ≤ n := by
  induction n generalizing a with
  | zero =>
    rw [steps_of_le (by omega)]
    exact Nat.zero_le _
  | succ n ih =>
    rcases Nat.lt_or_ge a b with hlt | hle
    · rw [steps_of_lt hlt, List.length_cons]
      refine Nat.succ_le_succ (ih ?_)
      calc b ≤ a + (n + 1) * width := h
        _ = a + width + n * width := by ring
    · rw [steps_of_le hle]
      exact Nat.zero_le _

end Loops

end Tiling
