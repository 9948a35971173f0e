import AegCloudDfir.Lib.Traversal
import Mathlib

/-!
# Searching a graph with a stack

The loop that takes a thing off a stack, stops if it is what is looked for, and otherwise
puts the children of the thing on the stack. It does not remember where it has been, so it
may run forever; `walk` is given a number of rounds and says `none` if they do not suffice.

* `walk_eq_some` — an answer is right: something reachable is a hit or nothing is.
* `walk_mono` — more rounds change no answer.
* `ends_of_wellFounded` — without cycles there is an answer.
* `Acyclic.wellFounded` — a relation into a finite list has no infinite descent unless it
  has a cycle.

The other direction has one way to go from everything. `ascend` follows it and does
remember where it has been, so that it always ends (`ascend_ends`); it finds what lies above
without passing where it started (`ascend_eq_some`).
-/

namespace Walk

open Relation

universe u v w

variable {α : Type u} {β : Type v}

/-- The loop, for at most so many rounds; the head of the list is the top of the stack. -/
def walk (children : α → List α) (hit : α → Bool) : ℕ → List α → Option Bool
  | _, [] => some false
  | 0, _ :: _ => none
  | n + 1, a :: stack =>
    if hit a then some true else walk children hit n ((children a).reverse ++ stack)

/-- `c` is `a`, a child of `a`, a child of a child and so on. -/
abbrev Below (children : α → List α) (a c : α) : Prop :=
  ReflTransGen (fun x y => y ∈ children x) a c

/-- The loop ends. -/
def Ends (children : α → List α) (hit : α → Bool) (stack : List α) : Prop :=
  ∃ n b, walk children hit n stack = some b

variable {children : α → List α} {hit : α → Bool}

@[simp] theorem walk_nil (n : ℕ) : walk children hit n [] = some false := by
  cases n <;> rfl

/-! ## Answers -/

/-- **An answer is right.** -/
theorem walk_eq_some {n : ℕ} {stack : List α} {b : Bool}
    (h : walk children hit n stack = some b) :
    b = true ↔ ∃ a ∈ stack, ∃ c, Below children a c ∧ hit c := by
  induction n generalizing stack with
  | zero =>
    cases stack with
    | nil => simp_all [walk]
    | cons a stack => simp [walk] at h
  | succ n ih =>
    cases stack with
    | nil => simp_all [walk]
    | cons a stack =>
      rw [walk] at h
      split_ifs at h with ha
      · obtain rfl := Option.some.inj h
        exact ⟨fun _ => ⟨a, List.mem_cons_self .., a, .refl, ha⟩, fun _ => rfl⟩
      · rw [ih h]
        refine ⟨?_, ?_⟩
        · rintro ⟨x, hx, c, hc, hhit⟩
          rcases List.mem_append.mp hx with hx | hx
          · -- a child of `a` is on the stack in place of `a`
            exact ⟨a, List.mem_cons_self .., c, .head (List.mem_reverse.mp hx) hc, hhit⟩
          · exact ⟨x, List.mem_cons_of_mem _ hx, c, hc, hhit⟩
        · rintro ⟨x, hx, c, hc, hhit⟩
          rcases List.mem_cons.mp hx with rfl | hx
          · rcases hc.cases_head with rfl | ⟨d, hd, hc⟩
            · exact absurd hhit ha
            · exact ⟨d, List.mem_append_left _ (List.mem_reverse.mpr hd), c, hc, hhit⟩
          · exact ⟨x, List.mem_append_right _ hx, c, hc, hhit⟩

/-- More rounds change no answer. -/
theorem walk_mono {n m : ℕ} {stack : List α} {b : Bool} (h : walk children hit n stack = some b)
    (hnm : n ≤ m) : walk children hit m stack = some b := by
  induction n generalizing stack m with
  | zero =>
    cases stack with
    | nil => simpa using h
    | cons a stack => simp [walk] at h
  | succ n ih =>
    cases stack with
    | nil => simpa using h
    | cons a stack =>
      obtain ⟨m, rfl⟩ : ∃ k, m = k + 1 := ⟨m - 1, by omega⟩
      rw [walk] at h ⊢
      split_ifs at h ⊢ with ha
      · exact h
      · exact ih h (by omega)

/-- The loop over the image of a stack is the loop over the stack. -/
theorem walk_map {children' : β → List β} {hit' : β → Bool} {f : α → β}
    (hchildren : ∀ a, children' (f a) = (children a).map f) (hhit : ∀ a, hit' (f a) = hit a)
    (n : ℕ) (stack : List α) :
    walk children' hit' n (stack.map f) = walk children hit n stack := by
  induction n generalizing stack with
  | zero => cases stack <;> rfl
  | succ n ih =>
    cases stack with
    | nil => rfl
    | cons a stack =>
      rw [List.map_cons, walk, walk, hhit, hchildren, ← List.map_reverse, ← List.map_append, ih]

/-! ## Ending -/

theorem ends_nil : Ends children hit [] := ⟨0, false, rfl⟩

theorem Ends.push {a : α} {stack : List α}
    (h : Ends children hit ((children a).reverse ++ stack)) : Ends children hit (a :: stack) := by
  obtain ⟨n, b, hn⟩ := h
  by_cases ha : hit a
  · exact ⟨1, true, by simp [walk, ha]⟩
  · exact ⟨n + 1, b, by simpa [walk, ha] using hn⟩

/-- **Without infinite descent the loop ends.** -/
theorem ends_of_wellFounded (hwf : WellFounded fun y x => y ∈ children x) (stack : List α) :
    Ends children hit stack := by
  have hpush : ∀ a stack, Ends children hit stack → Ends children hit (a :: stack) := by
    intro a
    induction a using hwf.induction with
    | _ a ih =>
      intro stack hstack
      apply Ends.push
      -- the children are pushed one after another, and every one of them ends
      have hall : ∀ l : List α, (∀ c ∈ l, c ∈ children a) → Ends children hit (l ++ stack) := by
        intro l hl
        induction l with
        | nil => exact hstack
        | cons c l ihl =>
          exact ih c (hl c (List.mem_cons_self ..)) _
            (ihl fun d hd => hl d (List.mem_cons_of_mem _ hd))
      exact hall _ fun c hc => List.mem_reverse.mp hc
  induction stack with
  | nil => exact ends_nil
  | cons a stack ih => exact hpush a stack ih

/-! ## Cycles -/

/-- No way back to where one started. -/
def Acyclic (r : α → α → Prop) : Prop := ∀ a, ¬ TransGen r a a

theorem Acyclic.of_lt {r : α → α → Prop} [Preorder β] (f : α → β)
    (h : ∀ a b, r a b → f b < f a) : Acyclic r := by
  have hlt : ∀ a b, TransGen r a b → f b < f a := by
    intro a b hab
    induction hab with
    | single hr => exact h _ _ hr
    | tail _ hr ih => exact (h _ _ hr).trans ih
  exact fun a ha => lt_irrefl _ (hlt a a ha)

theorem Acyclic.mono {r s : α → α → Prop} (h : Acyclic r) (hrs : ∀ a b, s a b → r a b) :
    Acyclic s :=
  fun a ha => h a (TransGen.mono hrs a a ha)

/-- Followed backwards there is no cycle either. -/
theorem Acyclic.swap {r : α → α → Prop} (h : Acyclic r) : Acyclic (Function.swap r) :=
  fun a ha => h a (transGen_swap.mp ha)

/-- **Into a finite list there is no infinite descent without a cycle.** -/
theorem Acyclic.wellFounded {r : α → α → Prop} {l : List α} (hr : Acyclic r)
    (hl : ∀ a b, r a b → a ∈ l) : WellFounded r := by
  have hstrict : IsStrictOrder α (TransGen r) :=
    { irrefl := hr
      trans := fun _ _ _ => TransGen.trans }
  have hon : {a | a ∈ l}.WellFoundedOn (TransGen r) := l.finite_toSet.wellFoundedOn
  have hacc : ∀ a ∈ l, Acc r a := fun a ha =>
    hon.induction ha fun b _ ih => ⟨b, fun c hcb => ih c (hl c b hcb) (.single hcb)⟩
  exact ⟨fun a => ⟨a, fun b hba => hacc b (hl b a hba)⟩⟩

/-! ## Many loops -/

theorem mapM_eq_some_iff {f : α → Option β} {xs : List α} {ys : List β} :
    xs.mapM f = some ys ↔ xs.map f = ys.map some := by
  rw [Traversal.mapM_eq_some_iff_forall₂, ← List.forall₂_eq_eq_eq, List.forall₂_map_left_iff,
    List.forall₂_map_right_iff]

theorem mapM_congr {f g : α → Option β} {xs : List α} (h : ∀ x ∈ xs, f x = g x) :
    xs.mapM f = xs.mapM g := by
  induction xs with
  | nil => rfl
  | cons x xs ih =>
    rw [List.mapM_cons, List.mapM_cons, h x (List.mem_cons_self ..),
      ih fun y hy => h y (List.mem_cons_of_mem _ hy)]

/-- What the loops of a list return, all of them. -/
theorem mem_of_mapM {f : α → Option β} {xs : List α} {ys : List β} (h : xs.mapM f = some ys) {y : β} :
    y ∈ ys ↔ ∃ x ∈ xs, f x = some y := by
  have hmap := mapM_eq_some_iff.mp h
  have hy : y ∈ ys ↔ some y ∈ ys.map some := by simp
  rw [hy, ← hmap, List.mem_map]

theorem isSome_mapM {f : α → Option β} {xs : List α} :
    (∃ ys, xs.mapM f = some ys) ↔ ∀ x ∈ xs, ∃ y, f x = some y := by
  induction xs with
  | nil => simp
  | cons x xs ih =>
    rw [List.forall_mem_cons, ← ih, List.mapM_cons]
    rcases f x with _ | y
    · simp
    · rcases xs.mapM f with _ | ys <;> simp

/-- **If each of finitely many loops ends, they end together.** -/
theorem exists_rounds {f : ℕ → α → Option β} {xs : List α}
    (hmono : ∀ n m x y, f n x = some y → n ≤ m → f m x = some y)
    (h : ∀ x ∈ xs, ∃ n y, f n x = some y) : ∃ n, ∀ x ∈ xs, ∃ y, f n x = some y := by
  induction xs with
  | nil => exact ⟨0, by simp⟩
  | cons x xs ih =>
    obtain ⟨n, y, hx⟩ := h x (List.mem_cons_self ..)
    obtain ⟨m, hxs⟩ := ih fun z hz => h z (List.mem_cons_of_mem _ hz)
    refine ⟨max n m, List.forall_mem_cons.mpr ⟨⟨y, hmono _ _ _ _ hx (le_max_left ..)⟩, ?_⟩⟩
    intro z hz
    obtain ⟨w, hw⟩ := hxs z hz
    exact ⟨w, hmono _ _ _ _ hw (le_max_right ..)⟩

/-! ## Going up -/

section Ascend

variable {κ : Type w} [DecidableEq κ] {find : κ → Option α} {next : α → Option κ}

/-- The loop that goes up from a key, for at most so many rounds, until it comes to a key it
has seen or to one that leads nowhere. -/
def ascend (find : κ → Option α) (next : α → Option κ) (hit : α → Bool) :
    ℕ → List κ → Option κ → Option Bool
  | _, _, none => some false
  | 0, seen, some k => if k ∈ seen then some false else none
  | n + 1, seen, some k =>
    if k ∈ seen then some false
    else
      match find k with
      | none => some false
      | some a => if hit a then some true else ascend find next hit n (k :: seen) (next a)

/-- What lies above a key, reached without the keys in `seen`. -/
inductive Above (find : κ → Option α) (next : α → Option κ) (seen : List κ) : κ → α → Prop where
  | here {k : κ} {a : α} : k ∉ seen → find k = some a → Above find next seen k a
  | up {k k' : κ} {a b : α} : k ∉ seen → find k = some b → next b = some k' →
      Above find next seen k' a → Above find next seen k a

omit [DecidableEq κ] in
theorem Above.mono {seen seen' : List κ} (hseen : ∀ k ∈ seen', k ∈ seen) {k : κ} {a : α}
    (h : Above find next seen k a) : Above find next seen' k a := by
  induction h with
  | here hk hfind => exact .here (fun hk' => hk (hseen _ hk')) hfind
  | up hk hfind hnext _ ih => exact .up (fun hk' => hk (hseen _ hk')) hfind hnext ih

/-- A way up that comes back to a key goes on as from there. -/
theorem Above.avoid {seen : List κ} {j k k' : κ} {a b : α} (hfind : find k = some b)
    (hnext : next b = some k') (h : Above find next seen j a) :
    a = b ∨ Above find next (k :: seen) j a ∨ Above find next (k :: seen) k' a := by
  induction h with
  | @here j a hj hfindj =>
    by_cases hjk : j = k
    · subst hjk
      exact .inl (Option.some.inj (hfindj.symm.trans hfind))
    · exact .inr (.inl (.here (by simp [hjk, hj]) hfindj))
  | @up j j' a c hj hfindj hnextj _ ih =>
    by_cases hjk : j = k
    · subst hjk
      obtain rfl : c = b := Option.some.inj (hfindj.symm.trans hfind)
      obtain rfl : j' = k' := Option.some.inj (hnextj.symm.trans hnext)
      exact ih.imp_right fun h => .inr (h.elim id id)
    · rcases ih with h | h | h
      · exact .inl h
      · exact .inr (.inl (.up (by simp [hjk, hj]) hfindj hnextj h))
      · exact .inr (.inr h)

/-- **An answer is right.** -/
theorem ascend_eq_some {n : ℕ} {seen : List κ} {k : κ} {b : Bool}
    (h : ascend find next hit n seen (some k) = some b) :
    b = true ↔ ∃ a, Above find next seen k a ∧ hit a := by
  induction n generalizing seen k with
  | zero =>
    rw [ascend] at h
    split_ifs at h with hk
    obtain rfl := Option.some.inj h
    refine ⟨by simp, ?_⟩
    rintro ⟨a, ⟨hk', -⟩ | ⟨hk', -, -, -⟩, -⟩
    · exact absurd hk hk'
    · exact absurd hk hk'
  | succ n ih =>
    rw [ascend] at h
    split_ifs at h with hk
    · obtain rfl := Option.some.inj h
      refine ⟨by simp, ?_⟩
      rintro ⟨a, ⟨hk', -⟩ | ⟨hk', -, -, -⟩, -⟩
      · exact absurd hk hk'
      · exact absurd hk hk'
    · rcases hfind : find k with _ | c
      · simp only [hfind] at h
        obtain rfl := Option.some.inj h
        refine ⟨by simp, ?_⟩
        rintro ⟨a, ⟨-, hf⟩ | ⟨-, hf, -, -⟩, -⟩
        · simp [hfind] at hf
        · simp [hfind] at hf
      · simp only [hfind] at h
        split_ifs at h with hc
        · obtain rfl := Option.some.inj h
          exact ⟨fun _ => ⟨c, .here hk hfind, hc⟩, fun _ => rfl⟩
        · rcases hnext : next c with _ | k'
          · have hfalse : b = false := by simpa [hnext, ascend] using h.symm
            subst hfalse
            refine ⟨by simp, ?_⟩
            rintro ⟨a, ⟨-, hf⟩ | ⟨-, hf, hn, -⟩, ha⟩
            · obtain rfl := Option.some.inj (hfind.symm.trans hf)
              exact absurd ha hc
            · obtain rfl := Option.some.inj (hfind.symm.trans hf)
              simp [hnext] at hn
          · rw [hnext] at h
            rw [ih h]
            refine ⟨?_, ?_⟩
            · rintro ⟨a, habove, ha⟩
              exact ⟨a, .up hk hfind hnext (habove.mono fun _ => List.mem_cons_of_mem _), ha⟩
            · rintro ⟨a, ⟨-, hf⟩ | ⟨-, hf, hn, habove⟩, ha⟩
              · obtain rfl := Option.some.inj (hfind.symm.trans hf)
                exact absurd ha hc
              · obtain rfl := Option.some.inj (hfind.symm.trans hf)
                obtain rfl := Option.some.inj (hnext.symm.trans hn)
                rcases habove.avoid hfind hnext with rfl | h | h
                · exact absurd ha hc
                · exact ⟨a, h, ha⟩
                · exact ⟨a, h, ha⟩

/-- **Going up ends**: every round sees another of the keys. -/
theorem ascend_ends {keys : List κ} (hkeys : ∀ k a, find k = some a → k ∈ keys) {n : ℕ}
    {seen : List κ} (hn : (keys.filter (· ∉ seen)).length < n) (k : Option κ) :
    ∃ b, ascend find next hit n seen k = some b := by
  induction n generalizing seen k with
  | zero => omega
  | succ n ih =>
    rcases k with _ | k
    · exact ⟨false, rfl⟩
    · rw [ascend]
      split_ifs with hk
      · exact ⟨false, rfl⟩
      · rcases hfind : find k with _ | a
        · exact ⟨false, rfl⟩
        · by_cases ha : hit a
          · exact ⟨true, by simp [ha]⟩
          · simp only [ha, Bool.false_eq_true, if_false]
            apply ih
            have hmem : k ∈ keys.filter (· ∉ seen) := by simpa [hk] using hkeys k a hfind
            have hsub : (keys.filter (· ∉ k :: seen)) = (keys.filter (· ∉ seen)).filter (· ≠ k) := by
              rw [List.filter_filter]
              apply List.filter_congr
              simp
            have hlt : ((keys.filter (· ∉ seen)).filter (· ≠ k)).length <
                (keys.filter (· ∉ seen)).length := by
              apply List.length_filter_lt_length_iff_exists.mpr
              exact ⟨k, hmem, by simp⟩
            rw [hsub]
            omega

/-- The loop over the image of what is found is the loop. -/
theorem ascend_map {find' : κ → Option β} {next' : β → Option κ} {hit' : β → Bool} {f : α → β}
    (hfind : ∀ k, find' k = (find k).map f) (hnext : ∀ a, next' (f a) = next a)
    (hhit : ∀ a, hit' (f a) = hit a) (n : ℕ) (seen : List κ) (k : Option κ) :
    ascend find' next' hit' n seen k = ascend find next hit n seen k := by
  induction n generalizing seen k with
  | zero => cases k <;> rfl
  | succ n ih =>
    cases k with
    | none => rfl
    | some k =>
      rw [ascend, ascend, hfind]
      cases find k with
      | none => rfl
      | some a => simp only [Option.map_some, hhit, hnext, ih]

end Ascend

end Walk
