import Mathlib

/-!
# Merkle trees built level by level

A list of digests is hashed to one digest in rounds: every round hashes the
neighbours of a level in pairs, and an odd one at the end moves up unchanged.
What matters about such a root is the tree the rounds build, so the rounds are
defined over any way to join two things, and joining trees gives the tree.

* `climb` — the rounds; `climb_map` says they commute with whatever commutes
  with joining, so that the root is the digest of the tree (`climb_eq_digest`).
* `Tree.eq_of_shape_eq` — of two trees of one shape the digest tells the leaves.
* `Tree.eq_or_mixed` — of two trees of any shape it tells the leaves, unless a
  leaf of one is the digest of an inner node of the other.

The only thing assumed about the hash is that it has no collision among the
pairs the two trees hash.
-/

namespace Merkle

universe u v

variable {α : Type u} {β : Type v}

/-! ## The rounds -/

/-- One round: neighbours are joined, an odd one at the end stays as it is. -/
def pairUp (join : α → α → α) : List α → List α
  | [] => []
  | [a] => [a]
  | a :: b :: rest => join a b :: pairUp join rest

theorem length_pairUp (join : α → α → α) (level : List α) :
    (pairUp join level).length = (level.length + 1) / 2 := by
  fun_induction pairUp join level with
  | case1 => simp
  | case2 a => simp
  | case3 a b rest ih =>
    simp only [List.length_cons, ih]
    omega

/-- All rounds, until at most one is left. -/
def climb (join : α → α → α) (level : List α) : Option α :=
  if 1 < level.length then climb join (pairUp join level) else level.head?
termination_by level.length
decreasing_by
  rw [length_pairUp]
  omega

theorem climb_nil (join : α → α → α) : climb join [] = none := by
  rw [climb]
  rfl

theorem climb_singleton (join : α → α → α) (a : α) : climb join [a] = some a := by
  rw [climb]
  rfl

theorem climb_of_two_le (join : α → α → α) {level : List α} (h : 2 ≤ level.length) :
    climb join level = climb join (pairUp join level) := by
  rw [climb, if_pos (by omega)]

/-- The rounds as an induction: a property of short levels that a round carries back. -/
theorem climb_induction {P : List α → Prop} (join : α → α → α) (nil : P [])
    (singleton : ∀ a, P [a])
    (round : ∀ level, 2 ≤ level.length → P (pairUp join level) → P level) (level : List α) :
    P level := by
  fun_induction climb join level with
  | case1 level h ih => exact round level h ih
  | case2 level h =>
    rcases level with _ | ⟨a, _ | ⟨b, rest⟩⟩
    · exact nil
    · exact singleton a
    · simp at h

theorem climb_isSome (join : α → α → α) {level : List α} (h : level ≠ []) :
    (climb join level).isSome := by
  induction level using climb_induction join with
  | nil => exact absurd rfl h
  | singleton a => simp [climb_singleton]
  | round level hlen ih =>
    rw [climb_of_two_le join hlen]
    apply ih
    intro hnil
    have := length_pairUp join level
    simp only [hnil, List.length_nil] at this
    omega

section Map

variable {join : α → α → α} {join' : β → β → β} {f : α → β}

theorem pairUp_map (hf : ∀ a b, f (join a b) = join' (f a) (f b)) (level : List α) :
    pairUp join' (level.map f) = (pairUp join level).map f := by
  fun_induction pairUp join level with
  | case1 => rfl
  | case2 a => rfl
  | case3 a b rest ih => simp [pairUp, ih, hf]

variable (join') in
/-- **The rounds commute with what commutes with joining.** -/
theorem climb_map (hf : ∀ a b, f (join a b) = join' (f a) (f b)) (level : List α) :
    climb join' (level.map f) = (climb join level).map f := by
  induction level using climb_induction join with
  | nil => simp [climb_nil]
  | singleton a => simp [climb_singleton]
  | round level h ih =>
    rw [climb_of_two_le join h, ← ih, climb_of_two_le join' (by simpa using h), pairUp_map hf]

end Map

/-! ## Trees -/

/-- A tree with digests at its leaves. -/
inductive Tree (α : Type u) : Type u where
  | leaf (a : α)
  | node (l r : Tree α)

namespace Tree

/-- The leaves from left to right. -/
def leaves : Tree α → List α
  | leaf a => [a]
  | node l r => l.leaves ++ r.leaves

/-- The tree without its digests. -/
def shape : Tree α → Tree Unit
  | leaf _ => leaf ()
  | node l r => node l.shape r.shape

/-- The digest of a tree. -/
def digest (hash : α → α → α) : Tree α → α
  | leaf a => a
  | node l r => hash (l.digest hash) (r.digest hash)

/-- The pairs of digests that are hashed. -/
def pairs (hash : α → α → α) : Tree α → List (α × α)
  | leaf _ => []
  | node l r => (l.digest hash, r.digest hash) :: (l.pairs hash ++ r.pairs hash)

/-- The digests of the inner nodes. -/
def inner (hash : α → α → α) (t : Tree α) : List α := (t.pairs hash).map fun p => hash p.1 p.2

end Tree

/-- The tree the rounds build over a list. -/
def tree (level : List α) : Option (Tree α) := climb Tree.node (level.map Tree.leaf)

/-- **The root is the digest of the tree.** -/
theorem climb_eq_digest (hash : α → α → α) (level : List α) :
    climb hash level = (tree level).map (Tree.digest hash) := by
  rw [tree, ← climb_map hash (fun _ _ => rfl), List.map_map]
  congr
  exact (List.map_id level).symm

@[simp] theorem tree_singleton (a : α) : tree [a] = some (.leaf a) :=
  climb_singleton Tree.node (Tree.leaf a)

@[simp] theorem tree_pair (a b : α) : tree [a, b] = some (.node (.leaf a) (.leaf b)) := by
  rw [tree, climb_of_two_le _ (by simp)]
  exact climb_singleton Tree.node _

theorem tree_isSome {level : List α} (h : level ≠ []) : ∃ t, tree level = some t :=
  Option.isSome_iff_exists.mp (climb_isSome Tree.node (by simpa using h))

theorem flatMap_leaves_pairUp (level : List (Tree α)) :
    (pairUp Tree.node level).flatMap Tree.leaves = level.flatMap Tree.leaves := by
  fun_induction pairUp Tree.node level with
  | case1 => rfl
  | case2 a => rfl
  | case3 a b rest ih => simp [ih, Tree.leaves]

theorem leaves_climb {level : List (Tree α)} {t : Tree α} (h : climb Tree.node level = some t) :
    t.leaves = level.flatMap Tree.leaves := by
  induction level using climb_induction Tree.node with
  | nil => simp [climb_nil] at h
  | singleton a =>
    obtain rfl : a = t := by simpa [climb_singleton] using h
    simp
  | round level hlen ih =>
    rw [climb_of_two_le _ hlen] at h
    rw [ih h, flatMap_leaves_pairUp]

/-- **The leaves of the tree are the list.** -/
theorem leaves_tree {level : List α} {t : Tree α} (h : tree level = some t) :
    t.leaves = level := by
  rw [leaves_climb h, List.flatMap_map]
  exact List.flatMap_singleton' level

/-- The shape of the tree depends on the length of the list only. -/
theorem shape_tree (level : List α) :
    (tree level).map Tree.shape = tree (List.replicate level.length ()) := by
  rw [tree, ← climb_map Tree.node (fun _ _ => rfl), tree, List.map_map,
    List.map_replicate]
  congr
  exact List.map_const'

/-! ## What a digest tells -/

section Digest

variable {hash : α → α → α}

/-- No two pairs that the trees hash have one hash. -/
def CollisionFree (hash : α → α → α) (s t : Tree α) : Prop :=
  Set.InjOn (fun p : α × α => hash p.1 p.2) {p | p ∈ s.pairs hash ∨ p ∈ t.pairs hash}

theorem CollisionFree.left {l r l' r' : Tree α}
    (h : CollisionFree hash (.node l r) (.node l' r')) : CollisionFree hash l l' := by
  apply h.mono
  rintro p (hp | hp)
  · exact .inl (List.mem_cons_of_mem _ (List.mem_append_left _ hp))
  · exact .inr (List.mem_cons_of_mem _ (List.mem_append_left _ hp))

theorem CollisionFree.right {l r l' r' : Tree α}
    (h : CollisionFree hash (.node l r) (.node l' r')) : CollisionFree hash r r' := by
  apply h.mono
  rintro p (hp | hp)
  · exact .inl (List.mem_cons_of_mem _ (List.mem_append_right _ hp))
  · exact .inr (List.mem_cons_of_mem _ (List.mem_append_right _ hp))

/-- Nodes of one digest have children of the same digests. -/
theorem CollisionFree.children {l r l' r' : Tree α}
    (h : CollisionFree hash (.node l r) (.node l' r'))
    (heq : (Tree.node l r).digest hash = (Tree.node l' r').digest hash) :
    l.digest hash = l'.digest hash ∧ r.digest hash = r'.digest hash := by
  have hpair := h (.inl (List.mem_cons_self ..)) (.inr (List.mem_cons_self ..)) heq
  exact ⟨congrArg Prod.fst hpair, congrArg Prod.snd hpair⟩

namespace Tree

/-- **Of two trees of one shape the digest tells the leaves.** -/
theorem eq_of_shape_eq {s t : Tree α} (hshape : s.shape = t.shape)
    (hcol : CollisionFree hash s t) (heq : s.digest hash = t.digest hash) : s = t := by
  induction s generalizing t with
  | leaf a =>
    cases t with
    | leaf b => exact congrArg leaf heq
    | node l r => simp [shape] at hshape
  | node l r ihl ihr =>
    cases t with
    | leaf b => simp [shape] at hshape
    | node l' r' =>
      obtain ⟨hl, hr⟩ := Tree.node.inj hshape
      obtain ⟨heql, heqr⟩ := hcol.children heq
      rw [ihl hl hcol.left heql, ihr hr hcol.right heqr]

/-- A leaf of the first tree is the digest of an inner node of the second. -/
def Meets (hash : α → α → α) (s t : Tree α) : Prop := ∃ a ∈ s.leaves, a ∈ t.inner hash

theorem Meets.left {l r l' r' : Tree α} (h : l.Meets hash l') :
    (node l r).Meets hash (node l' r') := by
  obtain ⟨a, hs, ht⟩ := h
  refine ⟨a, List.mem_append_left _ hs, ?_⟩
  simp only [inner, pairs, List.map_cons, List.map_append]
  exact List.mem_cons_of_mem _ (List.mem_append_left _ ht)

theorem Meets.right {l r l' r' : Tree α} (h : r.Meets hash r') :
    (node l r).Meets hash (node l' r') := by
  obtain ⟨a, hs, ht⟩ := h
  refine ⟨a, List.mem_append_right _ hs, ?_⟩
  simp only [inner, pairs, List.map_cons, List.map_append]
  exact List.mem_cons_of_mem _ (List.mem_append_right _ ht)

theorem meets_of_digest_eq {a : α} {l r : Tree α} (h : a = (node l r).digest hash) :
    (leaf a).Meets hash (node l r) :=
  ⟨a, List.mem_singleton_self a, h ▸ List.mem_cons_self ..⟩

/-- **Of two trees of any shape the digest tells the leaves**, unless a leaf of one is
the digest of an inner node of the other. -/
theorem eq_or_mixed {s t : Tree α} (hcol : CollisionFree hash s t)
    (heq : s.digest hash = t.digest hash) : s = t ∨ s.Meets hash t ∨ t.Meets hash s := by
  induction s generalizing t with
  | leaf a =>
    cases t with
    | leaf b => exact .inl (congrArg leaf heq)
    | node l r => exact .inr (.inl (meets_of_digest_eq heq))
  | node l r ihl ihr =>
    cases t with
    | leaf b => exact .inr (.inr (meets_of_digest_eq heq.symm))
    | node l' r' =>
      obtain ⟨heql, heqr⟩ := hcol.children heq
      -- a leaf that meets a node on either side does so in the whole trees
      rcases ihl hcol.left heql with rfl | hm | hm
      · rcases ihr hcol.right heqr with rfl | hm | hm
        · exact .inl rfl
        · exact .inr (.inl hm.right)
        · exact .inr (.inr hm.right)
      · exact .inr (.inl hm.left)
      · exact .inr (.inr hm.left)

end Tree

end Digest

end Merkle
