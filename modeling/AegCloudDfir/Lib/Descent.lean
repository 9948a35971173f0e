import AegCloudDfir.Lib.Walk

/-!
# When a search with a stack ends

The loop `walk` does not remember where it has been. From a thing it goes on to the last child that
is not through with at once, and so on; so it does not end exactly if there is no end to that.

* `Clean` — the loop is through with a thing at once: nothing below it is a hit, and it has an end.
* `Onward` — from a thing the loop goes on to one of its children.
* `Circles` — going on, it comes to a thing it goes on to again.
* `ends_singleton_iff` — the loop ends exactly if going on does.
* `ends_children_iff_not_circles` — among finitely many things the loop from the children of a thing
  ends exactly if going on from the thing does not come to a circle.
-/

namespace Walk

open Relation

universe u

variable {α : Type u}

section Loop

variable {children : α → List α} {hit : α → Bool}

/-- Neither a thing nor anything below it is a hit, and there is an end to what is below it. -/
inductive Clean (children : α → List α) (hit : α → Bool) : α → Prop
  | intro {a : α} : hit a = false → (∀ c ∈ children a, Clean children hit c) →
      Clean children hit a

/-- The loop goes on from a thing to one of its children: it has been through with those that come
after it, which are taken first. -/
def Onward (children : α → List α) (hit : α → Bool) (a c : α) : Prop :=
  hit a = false ∧ ∃ before after, children a = before ++ c :: after ∧
    ∀ d ∈ after, Clean children hit d

theorem Onward.mem {a c : α} (h : Onward children hit a c) : c ∈ children a := by
  obtain ⟨-, before, after, heq, -⟩ := h
  rw [heq]
  exact List.mem_append_right _ List.mem_cons_self

/-! ## Going on without end -/

theorem walk_none_mono {n m : ℕ} {stack : List α} (h : walk children hit n stack = none)
    (hmn : m ≤ n) : walk children hit m stack = none := by
  by_contra hsome
  obtain ⟨b, hb⟩ := Option.ne_none_iff_exists'.mp hsome
  rw [walk_mono hb hmn] at h
  cases h

/-- What the loop is through with at once does not make it end. -/
theorem Clean.walk_none {d : α} (hd : Clean children hit d) :
    ∀ {n : ℕ} {stack : List α}, walk children hit n stack = none →
      walk children hit n (d :: stack) = none := by
  induction hd with
  | @intro a ha _ ih =>
    intro n stack h
    cases n with
    | zero => rfl
    | succ n =>
      rw [walk, ha, if_neg Bool.false_ne_true]
      have hall : ∀ l : List α, (∀ c ∈ l, c ∈ children a) →
          walk children hit n (l ++ stack) = none := by
        intro l hl
        induction l with
        | nil => exact walk_none_mono h (Nat.le_succ n)
        | cons c l ihl =>
          exact ih c (hl c List.mem_cons_self) (ihl fun d hd => hl d (List.mem_cons_of_mem _ hd))
      exact hall _ fun c hc => List.mem_reverse.mp hc

theorem walk_none_of_clean {l : List α} (hl : ∀ d ∈ l, Clean children hit d) {n : ℕ}
    {stack : List α} (h : walk children hit n stack = none) :
    walk children hit n (l ++ stack) = none := by
  induction l with
  | nil => exact h
  | cons d l ih =>
    obtain ⟨hd, hl⟩ := List.forall_mem_cons.mp hl
    exact hd.walk_none (ih hl)

/-- Where there is no end to going on, the loop does not end. -/
theorem walk_none_of_not_acc {a : α} (ha : ¬ Acc (fun c a => Onward children hit a c) a) (n : ℕ)
    (stack : List α) : walk children hit n (a :: stack) = none := by
  induction n generalizing a stack with
  | zero => rfl
  | succ n ih =>
    obtain ⟨c, ⟨hnot, before, after, heq, hclean⟩, hc⟩ :
        ∃ c, Onward children hit a c ∧ ¬ Acc (fun c a => Onward children hit a c) c := by
      by_contra hnone
      exact ha ⟨a, fun c hc => by_contra fun hacc => hnone ⟨c, hc, hacc⟩⟩
    rw [walk, hnot, if_neg Bool.false_ne_true, heq, List.reverse_append, List.reverse_cons,
      List.append_assoc, List.append_assoc]
    exact walk_none_of_clean (fun d hd => hclean d (List.mem_reverse.mp hd)) (ih hc _)

/-! ## Going on to an end -/

/-- The loop is through with it after some rounds, and goes on with the stack. -/
theorem Clean.walk_some {d : α} (hd : Clean children hit d) :
    ∃ k, ∀ n stack b, walk children hit n stack = some b →
      walk children hit (n + k) (d :: stack) = some b := by
  induction hd with
  | @intro a ha _ ih =>
    have hall : ∀ l : List α, (∀ c ∈ l, c ∈ children a) → ∃ k, ∀ n stack b,
        walk children hit n stack = some b → walk children hit (n + k) (l ++ stack) = some b := by
      intro l hl
      induction l with
      | nil => exact ⟨0, fun _ _ _ h => h⟩
      | cons c l ihl =>
        obtain ⟨k, hk⟩ := ih c (hl c List.mem_cons_self)
        obtain ⟨m, hm⟩ := ihl fun d hd => hl d (List.mem_cons_of_mem _ hd)
        refine ⟨m + k, fun n stack b h => ?_⟩
        rw [← Nat.add_assoc]
        exact hk _ _ _ (hm _ _ _ h)
    obtain ⟨k, hk⟩ := hall (children a).reverse fun c hc => List.mem_reverse.mp hc
    refine ⟨k + 1, fun n stack b h => ?_⟩
    rw [← Nat.add_assoc, walk, ha, if_neg Bool.false_ne_true]
    exact hk n stack b h

theorem walk_some_of_clean {l : List α} (hl : ∀ d ∈ l, Clean children hit d) :
    ∃ k, ∀ n stack b, walk children hit n stack = some b →
      walk children hit (n + k) (l ++ stack) = some b := by
  induction l with
  | nil => exact ⟨0, fun _ _ _ h => h⟩
  | cons c l ih =>
    obtain ⟨hc, hl⟩ := List.forall_mem_cons.mp hl
    obtain ⟨k, hk⟩ := hc.walk_some
    obtain ⟨m, hm⟩ := ih hl
    refine ⟨m + k, fun n stack b h => ?_⟩
    rw [← Nat.add_assoc]
    exact hk _ _ _ (hm _ _ _ h)

/-- The last of some things the loop is not through with at once. -/
theorem exists_last_not_clean (l : List α) :
    (∀ d ∈ l, Clean children hit d) ∨ ∃ before c after, l = before ++ c :: after ∧
      ¬ Clean children hit c ∧ ∀ d ∈ after, Clean children hit d := by
  induction l with
  | nil => exact .inl fun d hd => absurd hd List.not_mem_nil
  | cons a l ih =>
    rcases ih with hall | ⟨before, c, after, rfl, hc, hafter⟩
    · by_cases ha : Clean children hit a
      · exact .inl (List.forall_mem_cons.mpr ⟨ha, hall⟩)
      · exact .inr ⟨[], a, l, rfl, ha, hall⟩
    · exact .inr ⟨a :: before, c, after, rfl, hc, hafter⟩

/-- Where there is an end to going on, the loop is through with the thing, or comes to a hit. -/
theorem clean_or_hit {a : α} (ha : Acc (fun c a => Onward children hit a c) a) :
    Clean children hit a ∨ ∃ n, ∀ stack, walk children hit n (a :: stack) = some true := by
  induction ha with
  | intro a _ ih =>
    cases hhit : hit a with
    | true => exact .inr ⟨1, fun stack => by rw [walk, hhit, if_pos rfl]⟩
    | false =>
      rcases exists_last_not_clean (children a) with hall | ⟨before, c, after, heq, hc, hafter⟩
      · exact .inl (.intro hhit hall)
      · obtain ⟨n, hn⟩ := (ih c ⟨hhit, before, after, heq, hafter⟩).resolve_left hc
        obtain ⟨k, hk⟩ := walk_some_of_clean (l := after.reverse)
          fun d hd => hafter d (List.mem_reverse.mp hd)
        refine .inr ⟨n + k + 1, fun stack => ?_⟩
        rw [walk, hhit, if_neg Bool.false_ne_true, heq, List.reverse_append, List.reverse_cons,
          List.append_assoc, List.append_assoc]
        exact hk n _ true (hn _)

/-- **The loop ends exactly if going on does.** -/
theorem ends_singleton_iff {a : α} :
    Ends children hit [a] ↔ Acc (fun c a => Onward children hit a c) a := by
  refine ⟨?_, fun ha => ?_⟩
  · rintro ⟨n, b, h⟩
    by_contra hnot
    rw [walk_none_of_not_acc hnot] at h
    cases h
  · rcases clean_or_hit ha with hclean | ⟨n, hn⟩
    · obtain ⟨k, hk⟩ := hclean.walk_some
      exact ⟨0 + k, false, hk 0 [] false rfl⟩
    · exact ⟨n, true, hn []⟩

/-- From the children of a thing that is no hit. -/
theorem ends_children_iff {a : α} (ha : hit a = false) :
    Ends children hit (children a).reverse ↔ Acc (fun c a => Onward children hit a c) a := by
  rw [← ends_singleton_iff]
  refine ⟨fun h => Ends.push (by rwa [List.append_nil]), ?_⟩
  rintro ⟨n, b, h⟩
  cases n with
  | zero => cases h
  | succ n =>
    rw [walk, ha, if_neg Bool.false_ne_true, List.append_nil] at h
    exact ⟨n, b, h⟩

end Loop

/-! ## Circles -/

section Circles

variable {r : α → α → Prop} {l : List α}

/-- **Into a finite list a way ends** exactly if it does not come to a circle. -/
theorem acc_iff_no_cycle (hl : ∀ a c, r a c → c ∈ l) {a : α} :
    Acc (fun c a => r a c) a ↔ ¬ ∃ b, ReflTransGen r a b ∧ TransGen r b b := by
  constructor
  · rintro ha ⟨b, hab, hbb⟩
    -- what ends from `a` ends from `b`, which is on the circle
    have hb : Acc (fun c a => r a c) b := by
      clear hbb
      induction hab with
      | refl => exact ha
      | tail _ hstep ih => exact ih.inv hstep
    have hirrefl : ∀ {x}, Acc (TransGen fun c a => r a c) x → ¬ TransGen r x x := by
      intro x hx
      induction hx with
      | intro x _ ih =>
        intro hxx
        exact ih x (transGen_swap.mpr hxx) hxx
    exact hirrefl hb.transGen hbb
  · intro hnone
    -- kept to what one comes to from `a`, the relation has no cycle
    let below : α → α → Prop := fun c x => r x c ∧ ReflTransGen r a x
    have hof : ∀ {c x}, TransGen below c x → TransGen r x c ∧ ReflTransGen r a x := by
      intro c x h
      induction h with
      | single h => exact ⟨.single h.1, h.2⟩
      | tail _ h ih => exact ⟨ih.1.head h.1, h.2⟩
    have hacyclic : Acyclic below := fun x hx => hnone ⟨x, (hof hx).2, (hof hx).1⟩
    have hwf : WellFounded below := hacyclic.wellFounded fun c x h => hl x c h.1
    have hacc : ∀ x, ReflTransGen r a x → Acc (fun c a => r a c) x := by
      intro x
      induction x using hwf.induction with
      | _ x ih =>
        intro hx
        exact ⟨x, fun c hc => ih c ⟨hc, hx⟩ (hx.tail hc)⟩
    exact hacc a .refl

end Circles

variable {children : α → List α} {hit : α → Bool}

/-- Going on from a thing the loop comes to one from which it comes back to it. -/
def Circles (children : α → List α) (hit : α → Bool) (a : α) : Prop :=
  ∃ b, ReflTransGen (Onward children hit) a b ∧ TransGen (Onward children hit) b b

/-- **Among finitely many things the loop ends exactly if it does not come to a circle.** -/
theorem ends_children_iff_not_circles {l : List α} (hl : ∀ a, ∀ c ∈ children a, c ∈ l) {a : α}
    (ha : hit a = false) :
    Ends children hit (children a).reverse ↔ ¬ Circles children hit a := by
  rw [ends_children_iff ha]
  exact acc_iff_no_cycle fun a c h => hl a c h.mem

end Walk
