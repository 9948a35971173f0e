import Mathlib.Data.List.Chain
import Mathlib.Data.List.DropRight

/-!
# Runs in lists

A run of elements of one kind is put into one element. What comes out has no such element beside
another of the kind, and a list without neighbours of the kind is left as long as it is.

* `replaceRuns` — every run of elements that satisfy `p` is replaced by `sep`.
* `replaceRuns_eq_self_iff` — which lists are left as they are, when `sep` itself satisfies `p`.
* `trimEnds` — the elements of a kind are taken off both ends.
-/

namespace Runs

universe u

variable {α : Type u} (p : α → Bool) (sep : α)

/-- Every run of elements that satisfy `p` becomes one `sep`, put where the run ends. -/
def replaceRuns : List α → List α
  | [] => []
  | c :: rest =>
    if p c then
      if rest.head?.any p then replaceRuns rest else sep :: replaceRuns rest
    else c :: replaceRuns rest

/-- Without the elements at both ends that satisfy `p`. -/
def trimEnds (s : List α) : List α := (s.dropWhile p).rdropWhile p

variable {p sep} {s : List α}

/-! ## Replacing -/

theorem replaceRuns_cons {c : α} {rest : List α} : replaceRuns p sep (c :: rest) =
    if p c then
      if rest.head?.any p then replaceRuns p sep rest else sep :: replaceRuns p sep rest
    else c :: replaceRuns p sep rest := rfl

theorem mem_replaceRuns {c : α} (h : c ∈ replaceRuns p sep s) : c = sep ∨ c ∈ s ∧ p c = false := by
  induction s with
  | nil => exact absurd h List.not_mem_nil
  | cons d rest ih =>
    rw [replaceRuns_cons] at h
    have hrest : c ∈ replaceRuns p sep rest → c = sep ∨ c ∈ d :: rest ∧ p c = false := fun hc =>
      (ih hc).imp_right fun ⟨hmem, hp⟩ => ⟨.tail _ hmem, hp⟩
    split_ifs at h with hd hnext
    · exact hrest h
    · rcases List.mem_cons.mp h with rfl | h
      · exact .inl rfl
      · exact hrest h
    · rcases List.mem_cons.mp h with rfl | h
      · exact .inr ⟨.head _, by simpa using hd⟩
      · exact hrest h

/-- Where nothing is of the kind, nothing is replaced. -/
theorem replaceRuns_eq_self (h : ∀ c ∈ s, p c = false) : replaceRuns p sep s = s := by
  induction s with
  | nil => rfl
  | cons c rest ih =>
    obtain ⟨hc, hrest⟩ := List.forall_mem_cons.mp h
    rw [replaceRuns_cons, if_neg (by simp [hc]), ih hrest]

theorem length_replaceRuns_le (s : List α) : (replaceRuns p sep s).length ≤ s.length := by
  induction s with
  | nil => exact le_refl _
  | cons c rest ih =>
    rw [replaceRuns_cons]
    split_ifs
    · exact ih.trans (Nat.le_succ _)
    · exact Nat.succ_le_succ ih
    · exact Nat.succ_le_succ ih

/-- What comes out begins with `sep` exactly if what goes in begins with the kind, but for a `sep`
that is not of the kind. -/
theorem head?_replaceRuns_any (hsep : p sep) :
    (replaceRuns p sep s).head?.any p = s.head?.any p := by
  induction s with
  | nil => rfl
  | cons c rest ih =>
    rw [replaceRuns_cons]
    split_ifs with hc hnext
    · rw [ih, hnext]
      simp [hc]
    · simp [hsep, hc]
    · rfl

/-- No two neighbours are of the kind. -/
def Apart (p : α → Bool) : List α → Prop := List.IsChain fun a b => ¬ (p a ∧ p b)

instance (p : α → Bool) (s : List α) : Decidable (Apart p s) :=
  inferInstanceAs (Decidable (List.IsChain _ s))

theorem apart_cons {c : α} : Apart p (c :: s) ↔ (p c → s.head?.any p = false) ∧ Apart p s := by
  cases s with
  | nil => simp [Apart]
  | cons d rest => simp [Apart, List.isChain_cons_cons]

theorem apart_of_none (h : ∀ c ∈ s, p c = false) : Apart p s := by
  induction s with
  | nil => exact .nil
  | cons c rest ih =>
    obtain ⟨hc, hrest⟩ := List.forall_mem_cons.mp h
    exact apart_cons.mpr ⟨fun hp => absurd hp (by simp [hc]), ih hrest⟩

theorem apart_replaceRuns (hsep : p sep) (s : List α) : Apart p (replaceRuns p sep s) := by
  induction s with
  | nil => exact .nil
  | cons c rest ih =>
    rw [replaceRuns_cons]
    split_ifs with hc hnext
    · exact ih
    · refine apart_cons.mpr ⟨fun _ => ?_, ih⟩
      rw [head?_replaceRuns_any hsep]
      simpa using hnext
    · exact apart_cons.mpr ⟨fun h => absurd h hc, ih⟩

/-- A list with neighbours of the kind becomes shorter. -/
theorem length_replaceRuns_lt (h : ¬ Apart p s) : (replaceRuns p sep s).length < s.length := by
  induction s with
  | nil => exact absurd .nil h
  | cons c rest ih =>
    rw [replaceRuns_cons]
    split_ifs with hc hnext
    · exact Nat.lt_succ_of_le (length_replaceRuns_le rest)
    · refine Nat.succ_lt_succ (ih fun hrest => h (apart_cons.mpr ⟨fun _ => ?_, hrest⟩))
      simpa using hnext
    · exact Nat.succ_lt_succ (ih fun hrest => h (apart_cons.mpr ⟨fun hp => absurd hp hc, hrest⟩))

/-- **What is left as it is**, when only `sep` is of the kind. -/
theorem replaceRuns_eq_self_iff (hsep : ∀ c, p c ↔ c = sep) :
    replaceRuns p sep s = s ↔ Apart p s := by
  constructor
  · intro h
    by_contra hapart
    exact absurd (congrArg List.length h) (length_replaceRuns_lt hapart).ne
  · intro h
    induction s with
    | nil => rfl
    | cons c rest ih =>
      obtain ⟨hhead, hrest⟩ := apart_cons.mp h
      rw [replaceRuns_cons, ih hrest]
      split_ifs with hc hnext
      · exact absurd hnext (by simp [hhead hc])
      · rw [(hsep c).mp hc]
      · rfl

/-! ## Trimming -/

theorem head?_trimEnds {c : α} (h : c ∈ (trimEnds p s).head?) : p c = false := by
  obtain ⟨after, hafter⟩ : trimEnds p s <+: s.dropWhile p := List.rdropWhile_prefix p _
  rcases htrim : trimEnds p s with _ | ⟨d, rest⟩
  · rw [htrim] at h
    cases h
  · rw [htrim, List.head?_cons, Option.mem_some_iff] at h
    subst h
    rw [htrim, List.cons_append] at hafter
    have hdrop := List.head?_dropWhile_not p s
    rw [← hafter] at hdrop
    exact hdrop

theorem getLast_trimEnds (h : trimEnds p s ≠ []) : p ((trimEnds p s).getLast h) = false := by
  have hlast := List.rdropWhile_last_not p (s.dropWhile p) h
  exact Bool.eq_false_iff.mpr hlast

theorem trimEnds_sublist (s : List α) : (trimEnds p s).Sublist s :=
  (List.rdropWhile_prefix p _).sublist.trans (List.dropWhile_suffix _).sublist

/-- A list that neither begins nor ends with the kind is left as it is. -/
theorem trimEnds_eq_self (hne : s ≠ []) (hhead : ∀ c ∈ s.head?, p c = false)
    (hlast : p (s.getLast hne) = false) : trimEnds p s = s := by
  have hdrop : s.dropWhile p = s := by
    cases s with
    | nil => exact absurd rfl hne
    | cons c rest => exact List.dropWhile_cons_of_neg (by simpa using hhead c rfl)
  rw [trimEnds, hdrop, List.rdropWhile_eq_self_iff]
  intro _
  simpa using hlast

/-- What is cut out of a list without neighbours of the kind has none either. -/
theorem Apart.of_isInfix {s t : List α} (h : Apart p t) (hst : s <:+: t) : Apart p s :=
  List.IsChain.infix h hst

end Runs
