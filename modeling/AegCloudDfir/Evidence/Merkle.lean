import AegCloudDfir.Lib.MerkleTree
import AegCloudDfir.Js.Collections
import AegCloudDfir.CanonicalJson

/-!
# The Merkle root of a manifest

`merkleRoot` and `sortedMerkleRoot` of `packages/evidence/src/merkle.ts`, and what
`buildManifest` (`packages/evidence/src/manifest.ts`) does with them. Leaves are the
SHA-256 digests of the collected items. A leaf goes into the tree as it is, and so does
an odd node, so nothing tells a leaf from an inner node: the list of one leaf that is the
digest of a pair has the root of that pair (`pair_and_digest`), and the list of one leaf
that is the digest of the empty string has the root of the empty list.

Apart from that the root does commit to the leaves. Two lists of one length have one root
only if they are equal, and so have two lists of any lengths when no leaf of one list is a
digest computed for the other (`merkleRoot_commits`).
-/

namespace AegCloudDfir.Evidence

/-- A byte. -/
abbrev Byte : Type := Fin 0x100

instance Byte.neZero : NeZero 256 := ⟨by decide⟩

/-- A `Buffer`. -/
abbrev Buffer : Type := List Byte

/-- A character of `[0-9a-f]`. -/
def IsHexDigit (c : CodeUnit) : Prop := IsDigit c ∨ 0x61 ≤ c ∧ c ≤ 0x66

instance (c : CodeUnit) : Decidable (IsHexDigit c) := inferInstanceAs (Decidable (_ ∨ _))

/-- `SHA256_HEX_RE` -/
def IsSha256Hex (h : JsString) : Prop := h.length = 64 ∧ ∀ c ∈ h, IsHexDigit c

instance (h : JsString) : Decidable (IsSha256Hex h) := inferInstanceAs (Decidable (_ ∧ _))

/-- `Buffer.from(h, 'hex')` for a string of hexadecimal digits. -/
def fromHex : JsString → Buffer
  | a :: b :: rest => Fin.ofNat 0x100 (hexValue a * 16 + hexValue b) :: fromHex rest
  | _ => []

/-- `buffer.toString('hex')` -/
def toHex (buffer : Buffer) : JsString :=
  buffer.flatMap fun x => [hexDigit (x.val / 16), hexDigit (x.val % 16)]

section Root

variable (sha256 : Buffer → Buffer)

/-- `sha256Pair` -/
def sha256Pair (a b : Buffer) : Buffer := sha256 (a ++ b)

/-- `merkleRoot`. The loop over the levels is `Merkle.climb`. -/
def merkleRoot (hashesHex : List JsString) : Except JsError JsString :=
  match hashesHex.find? fun h => ¬ IsSha256Hex h with
  | some h =>
    .error (.typeError
      (js "merkleRoot: every hash must be 64 lowercase hex characters, got: " ++ quote h))
  | none =>
    match Merkle.climb (sha256Pair sha256) (hashesHex.map fromHex) with
    | none => .ok (toHex (sha256 []))
    | some root => .ok (toHex root)

/-- `sortedMerkleRoot` -/
def sortedMerkleRoot (hashesHex : List JsString) : Except JsError JsString :=
  merkleRoot sha256 (sorted hashesHex)

/-! ## Manifests -/

/-- `COMPLETENESS_VALUES` -/
def completenessValues : List JsString :=
  [js "complete_within_selected_api_scope", js "complete_with_exceptions", js "partial",
    js "failed", js "cancelled"]

/-- What `buildManifest` looks at in an item of a manifest. -/
structure ManifestItem where
  evidenceItemId : JsString
  sha256 : JsString
  size : ℤ

/-- What `buildManifest` checks of an item. -/
def checkItem (item : ManifestItem) : Except JsError Unit :=
  if ¬ IsSha256Hex item.sha256 then
    .error (.typeError (js "item " ++ item.evidenceItemId ++
      js " has an invalid sha256 (must be 64 lowercase hex characters)"))
  else if item.size < 0 then
    .error (.typeError (js "item " ++ item.evidenceItemId ++ js " has an invalid size"))
  else .ok ()

/-- `buildManifest`: its checks and the root it puts into the manifest. -/
def buildManifest (completeness : JsString) (items : List ManifestItem) :
    Except JsError JsString :=
  if completeness ∉ completenessValues then
    .error (.typeError
      (js "invalid completeness value " ++ quote completeness ++ js "; allowed values are: " ++
        joinWith (js ", ") completenessValues ++
        js " (absolute claims such as \"complete\" or \"all data\" are not permitted)"))
  else do
    forM items checkItem
    sortedMerkleRoot sha256 (items.map ManifestItem.sha256)

/-! ## What is hashed -/

/-- The texts that are hashed for the root of a list. -/
def hashedTexts (hashesHex : List JsString) : List Buffer :=
  match Merkle.tree (hashesHex.map fromHex) with
  | none => [[]]
  | some t => (t.pairs (sha256Pair sha256)).map fun p => p.1 ++ p.2

/-- The digests that are computed for the root of a list, as leaves are written. -/
def computedDigests (hashesHex : List JsString) : List JsString :=
  (hashedTexts sha256 hashesHex).map fun text => toHex (sha256 text)

/-- SHA-256 has no collision among the texts hashed for two roots. -/
def CollisionFree (a b : List JsString) : Prop :=
  Set.InjOn sha256 {text | text ∈ hashedTexts sha256 a ∨ text ∈ hashedTexts sha256 b}

/-- No leaf of one list is a digest computed for the other. -/
def Unmixed (a b : List JsString) : Prop :=
  (∀ h ∈ a, h ∉ computedDigests sha256 b) ∧ ∀ h ∈ b, h ∉ computedDigests sha256 a

end Root

/-! ## Hexadecimal -/

theorem hexDigit_hexValue {c : CodeUnit} (h : IsHexDigit c) :
    hexDigit (hexValue c) = c ∧ hexValue c < 16 := by
  have hc := c.isLt
  apply And.imp_left (Fin.ext (a := hexDigit (hexValue c)) (b := c))
  rcases h with ⟨h₁, h₂⟩ | ⟨h₁, h₂⟩
  · have h₁ : 0x30 ≤ c.val := h₁
    have h₂ : c.val ≤ 0x39 := h₂
    simp only [hexDigit, hexValue, Fin.ofNat]
    split_ifs <;> omega
  · have h₁ : 0x61 ≤ c.val := h₁
    have h₂ : c.val ≤ 0x66 := h₂
    simp only [hexDigit, hexValue, Fin.ofNat]
    split_ifs <;> omega

theorem toHex_fromHex {h : JsString} (hhex : ∀ c ∈ h, IsHexDigit c) (heven : Even h.length) :
    toHex (fromHex h) = h := by
  fun_induction fromHex h with
  | case1 a b rest ih =>
    obtain ⟨ha, hra⟩ := hexDigit_hexValue (hhex a (by simp))
    obtain ⟨hb, hrb⟩ := hexDigit_hexValue (hhex b (by simp))
    have hrest : toHex (fromHex rest) = rest := by
      apply ih (fun c hc => hhex c (by simp [hc]))
      simpa [Nat.even_add] using heven
    have hval : (Fin.ofNat 0x100 (hexValue a * 16 + hexValue b)).val =
        hexValue a * 16 + hexValue b := Nat.mod_eq_of_lt (by omega)
    rw [toHex, List.flatMap_cons, ← toHex, hrest, hval]
    have hhi : (hexValue a * 16 + hexValue b) / 16 = hexValue a := by omega
    have hlo : (hexValue a * 16 + hexValue b) % 16 = hexValue b := by omega
    rw [hhi, hlo, ha, hb]
    rfl
  | case2 h hne =>
    rcases h with _ | ⟨a, _ | ⟨b, rest⟩⟩
    · rfl
    · simp at heven
    · exact absurd rfl (hne a b rest)

/-- Two digits are one byte. -/
theorem hexValue_hexDigits (x : Byte) :
    Fin.ofNat 0x100 (hexValue (hexDigit (x.val / 16)) * 16 + hexValue (hexDigit (x.val % 16))) =
      x := by
  have hx := x.isLt
  rw [hexValue_hexDigit (by omega), hexValue_hexDigit (by omega)]
  apply Fin.ext
  simp only [Fin.ofNat]
  omega

theorem fromHex_toHex (buffer : Buffer) : fromHex (toHex buffer) = buffer := by
  induction buffer with
  | nil => rfl
  | cons x rest ih =>
    rw [toHex, List.flatMap_cons, ← toHex, List.cons_append, List.cons_append, List.nil_append,
      fromHex, ih, hexValue_hexDigits]

theorem toHex_injective : Function.Injective toHex :=
  Function.LeftInverse.injective fromHex_toHex

theorem IsSha256Hex.toHex_fromHex {h : JsString} (hh : IsSha256Hex h) : toHex (fromHex h) = h :=
  Evidence.toHex_fromHex hh.2 (hh.1 ▸ by decide)

theorem isHexDigit_hexDigit : ∀ {n : ℕ}, n < 16 → IsHexDigit (hexDigit n) := by
  decide

theorem isSha256Hex_toHex {buffer : Buffer} (h : buffer.length = 32) :
    IsSha256Hex (toHex buffer) := by
  refine ⟨?_, ?_⟩
  · simp [toHex, h]
  · intro c hc
    obtain ⟨x, -, hx⟩ := List.mem_flatMap.mp hc
    have hlt := x.isLt
    rcases List.mem_pair.mp hx with rfl | rfl
    · exact isHexDigit_hexDigit (by omega)
    · exact isHexDigit_hexDigit (by omega)

theorem length_fromHex (h : JsString) : (fromHex h).length = h.length / 2 := by
  fun_induction fromHex h with
  | case1 a b rest ih =>
    simp only [List.length_cons, ih]
    omega
  | case2 h hne =>
    rcases h with _ | ⟨a, _ | ⟨b, rest⟩⟩
    · simp
    · simp
    · exact absurd rfl (hne a b rest)

theorem map_fromHex_inj {a b : List JsString} (ha : ∀ h ∈ a, IsSha256Hex h)
    (hb : ∀ h ∈ b, IsSha256Hex h) (heq : a.map fromHex = b.map fromHex) : a = b := by
  have hcancel : ∀ l : List JsString, (∀ h ∈ l, IsSha256Hex h) →
      (l.map fromHex).map toHex = l := by
    intro l hl
    rw [List.map_map]
    exact (List.map_congr_left fun h hh => (hl h hh).toHex_fromHex).trans (List.map_id l)
  rw [← hcancel a ha, heq, hcancel b hb]

/-! ## Roots -/

section Root

variable {sha256 : Buffer → Buffer}

/-- What `merkleRoot` returns for well-formed leaves. -/
theorem merkleRoot_ok {hashesHex : List JsString} (h : ∀ x ∈ hashesHex, IsSha256Hex x) :
    merkleRoot sha256 hashesHex =
      .ok (match Merkle.tree (hashesHex.map fromHex) with
        | none => toHex (sha256 [])
        | some t => toHex (t.digest (sha256Pair sha256))) := by
  have hfind : hashesHex.find? (fun h => ¬ IsSha256Hex h) = none := by
    simpa using h
  rw [merkleRoot, hfind]
  simp only [Merkle.climb_eq_digest]
  cases Merkle.tree (hashesHex.map fromHex) <;> rfl

/-- A tree whose nodes are all 32 bytes long. -/
theorem length_digest (hsha : ∀ text, (sha256 text).length = 32) {t : Merkle.Tree Buffer}
    (ht : ∀ x ∈ t.leaves, x.length = 32) : (t.digest (sha256Pair sha256)).length = 32 := by
  cases t with
  | leaf x => exact ht x (List.mem_singleton_self x)
  | node l r => exact hsha _

theorem length_of_mem_pairs (hsha : ∀ text, (sha256 text).length = 32) {t : Merkle.Tree Buffer}
    (ht : ∀ x ∈ t.leaves, x.length = 32) {p : Buffer × Buffer}
    (hp : p ∈ t.pairs (sha256Pair sha256)) : p.1.length = 32 ∧ p.2.length = 32 := by
  induction t with
  | leaf x => simp [Merkle.Tree.pairs] at hp
  | node l r ihl ihr =>
    have hl : ∀ x ∈ l.leaves, x.length = 32 := fun x hx => ht x (List.mem_append_left _ hx)
    have hr : ∀ x ∈ r.leaves, x.length = 32 := fun x hx => ht x (List.mem_append_right _ hx)
    rcases List.mem_cons.mp hp with rfl | hp
    · exact ⟨length_digest hsha hl, length_digest hsha hr⟩
    · rcases List.mem_append.mp hp with hp | hp
      · exact ihl hl hp
      · exact ihr hr hp

theorem tree_eq_none {level : List Buffer} (h : Merkle.tree level = none) : level = [] := by
  by_contra hne
  obtain ⟨t, ht⟩ := Merkle.tree_isSome hne
  simp [ht] at h

@[simp] theorem hashedTexts_nil : hashedTexts sha256 [] = [[]] := by
  have hnil : Merkle.tree ([] : List Buffer) = none := Merkle.climb_nil _
  simp [hashedTexts, hnil]

@[simp] theorem hashedTexts_singleton (x : JsString) : hashedTexts sha256 [x] = [] := by
  simp [hashedTexts, Merkle.Tree.pairs]

@[simp] theorem hashedTexts_pair (x y : JsString) :
    hashedTexts sha256 [x, y] = [fromHex x ++ fromHex y] := by
  simp [hashedTexts, Merkle.Tree.pairs, Merkle.Tree.digest]

variable {a b : List JsString}

/-- The leaves of the tree of well-formed leaves. -/
theorem mem_leaves {t : Merkle.Tree Buffer} (ha : ∀ h ∈ a, IsSha256Hex h)
    (ht : Merkle.tree (a.map fromHex) = some t) {x : Buffer} (hx : x ∈ t.leaves) :
    toHex x ∈ a ∧ x.length = 32 := by
  rw [Merkle.leaves_tree ht, List.mem_map] at hx
  obtain ⟨h, hmem, rfl⟩ := hx
  rw [(ha h hmem).toHex_fromHex, length_fromHex, (ha h hmem).1]
  exact ⟨hmem, rfl⟩

theorem computedDigests_of_inner {t : Merkle.Tree Buffer}
    (ht : Merkle.tree (a.map fromHex) = some t) {x : Buffer}
    (hx : x ∈ t.inner (sha256Pair sha256)) : toHex x ∈ computedDigests sha256 a := by
  obtain ⟨p, hp, rfl⟩ := List.mem_map.mp hx
  simp only [computedDigests, hashedTexts, ht, List.map_map]
  exact List.mem_map.mpr ⟨p, hp, rfl⟩

/-- No collision among the texts is none among the pairs of digests. -/
theorem CollisionFree.trees (hsha : ∀ text, (sha256 text).length = 32)
    (hcol : CollisionFree sha256 a b) {s t : Merkle.Tree Buffer}
    (hs : Merkle.tree (a.map fromHex) = some s) (ht : Merkle.tree (b.map fromHex) = some t)
    (hsl : ∀ x ∈ s.leaves, x.length = 32) (htl : ∀ x ∈ t.leaves, x.length = 32) :
    Merkle.CollisionFree (sha256Pair sha256) s t := by
  have hpair : ∀ p, p ∈ s.pairs (sha256Pair sha256) ∨ p ∈ t.pairs (sha256Pair sha256) →
      p.1.length = 32 ∧ (p.1 ++ p.2 ∈ hashedTexts sha256 a ∨ p.1 ++ p.2 ∈ hashedTexts sha256 b) := by
    rintro p (hp | hp)
    · refine ⟨(length_of_mem_pairs hsha hsl hp).1, .inl ?_⟩
      simp only [hashedTexts, hs]
      exact List.mem_map.mpr ⟨p, hp, rfl⟩
    · refine ⟨(length_of_mem_pairs hsha htl hp).1, .inr ?_⟩
      simp only [hashedTexts, ht]
      exact List.mem_map.mpr ⟨p, hp, rfl⟩
  intro p hp q hq heq
  obtain ⟨hlp, hmp⟩ := hpair p hp
  obtain ⟨hlq, hmq⟩ := hpair q hq
  -- the first digest is as long in both texts
  obtain ⟨h₁, h₂⟩ := List.append_inj (hcol hmp hmq heq) (hlp.trans hlq.symm)
  exact Prod.ext h₁ h₂

/-- The root of the empty list is the root of no other list, unless a leaf is the digest
of the empty string. -/
theorem root_ne_empty (hsha : ∀ text, (sha256 text).length = 32) (ha : ∀ h ∈ a, IsSha256Hex h)
    (hcol : CollisionFree sha256 [] a) (hmix : ∀ h ∈ a, h ∉ computedDigests sha256 [])
    {t : Merkle.Tree Buffer} (ht : Merkle.tree (a.map fromHex) = some t) :
    t.digest (sha256Pair sha256) ≠ sha256 [] := by
  intro heq
  cases t with
  | leaf x =>
    obtain rfl : x = sha256 [] := heq
    refine hmix _ (mem_leaves ha ht (List.mem_singleton_self _)).1 ?_
    simp [computedDigests]
  | node l r =>
    have htext : l.digest (sha256Pair sha256) ++ r.digest (sha256Pair sha256) = [] := by
      apply hcol (.inr ?_) (.inl ?_) heq
      · simp [hashedTexts, ht, Merkle.Tree.pairs]
      · simp
    have hlen : (l.digest (sha256Pair sha256)).length = 32 :=
      length_digest hsha fun x hx => (mem_leaves ha ht (List.mem_append_left _ hx)).2
    simp [(List.append_eq_nil_iff.mp htext).1] at hlen

/-- Trees of one root are equal. -/
theorem tree_eq (hsha : ∀ text, (sha256 text).length = 32)
    (ha : ∀ h ∈ a, IsSha256Hex h) (hb : ∀ h ∈ b, IsSha256Hex h) (hcol : CollisionFree sha256 a b)
    (h : a.length = b.length ∨ Unmixed sha256 a b) {s t : Merkle.Tree Buffer}
    (hs : Merkle.tree (a.map fromHex) = some s) (ht : Merkle.tree (b.map fromHex) = some t)
    (heq : s.digest (sha256Pair sha256) = t.digest (sha256Pair sha256)) : s = t := by
  have hfree := hcol.trees hsha hs ht (fun x hx => (mem_leaves ha hs hx).2)
    (fun x hx => (mem_leaves hb ht hx).2)
  rcases h with hlen | ⟨hab, hba⟩
  · -- lists of one length build trees of one shape
    have hshape : some s.shape = some t.shape := by
      have h₁ := Merkle.shape_tree (a.map fromHex)
      have h₂ := Merkle.shape_tree (b.map fromHex)
      rw [hs, List.length_map, hlen] at h₁
      rw [ht, List.length_map] at h₂
      exact h₁.trans h₂.symm
    exact Merkle.Tree.eq_of_shape_eq (Option.some.inj hshape) hfree heq
  · rcases Merkle.Tree.eq_or_mixed hfree heq with hst | ⟨x, hx, hi⟩ | ⟨x, hx, hi⟩
    · exact hst
    · exact absurd (computedDigests_of_inner ht hi) (hab _ (mem_leaves ha hs hx).1)
    · exact absurd (computedDigests_of_inner hs hi) (hba _ (mem_leaves hb ht hx).1)

/-- Well-formed lists of one root are equal. -/
theorem eq_of_merkleRoot_eq (hsha : ∀ text, (sha256 text).length = 32)
    (ha : ∀ h ∈ a, IsSha256Hex h) (hb : ∀ h ∈ b, IsSha256Hex h) (hcol : CollisionFree sha256 a b)
    (h : a.length = b.length ∨ Unmixed sha256 a b)
    (hroot : merkleRoot sha256 a = merkleRoot sha256 b) : a = b := by
  rw [merkleRoot_ok ha, merkleRoot_ok hb] at hroot
  have heq := Except.ok.inj hroot
  rcases hs : Merkle.tree (a.map fromHex) with _ | s <;>
    rcases ht : Merkle.tree (b.map fromHex) with _ | t <;>
    simp only [hs, ht] at heq
  -- one list is empty, or none is
  · rw [List.map_eq_nil_iff.mp (tree_eq_none hs), List.map_eq_nil_iff.mp (tree_eq_none ht)]
  · have hdigest := toHex_injective heq
    obtain rfl : a = [] := List.map_eq_nil_iff.mp (tree_eq_none hs)
    rcases h with hlen | hmix
    · exact (List.length_eq_zero_iff.mp hlen.symm).symm
    · exact absurd hdigest.symm (root_ne_empty hsha hb hcol hmix.2 ht)
  · have hdigest := toHex_injective heq
    obtain rfl : b = [] := List.map_eq_nil_iff.mp (tree_eq_none ht)
    rcases h with hlen | hmix
    · exact List.length_eq_zero_iff.mp hlen
    · have hcol' : CollisionFree sha256 [] a := hcol.mono fun text htext => htext.symm
      exact absurd hdigest (root_ne_empty hsha ha hcol' hmix.1 hs)
  · have hst := tree_eq hsha ha hb hcol h hs ht (toHex_injective heq)
    apply map_fromHex_inj ha hb
    rw [← Merkle.leaves_tree hs, hst, Merkle.leaves_tree ht]

/-! ## Commitment -/

variable (sha256)

/-- A list of two leaves has the root of the list of their digest alone. -/
theorem merkleRoot_pair_eq_digest (hsha : ∀ text, (sha256 text).length = 32) {x y : JsString}
    (hx : IsSha256Hex x) (hy : IsSha256Hex y) :
    merkleRoot sha256 [x, y] = merkleRoot sha256 [toHex (sha256 (fromHex x ++ fromHex y))] := by
  have hdigest := isSha256Hex_toHex (hsha (fromHex x ++ fromHex y))
  rw [merkleRoot_ok (by simp [hx, hy]), merkleRoot_ok (by simpa using hdigest)]
  simp [Merkle.Tree.digest, sha256Pair, fromHex_toHex]

variable (a b)

/-- **The Merkle root commits to its leaves**: to their list, and after sorting to what
they are, however often. Lists of different lengths need leaves that are not digests
computed for the other list. -/
theorem merkleRoot_commits (hsha : ∀ text, (sha256 text).length = 32)
    (ha : ∀ h ∈ a, IsSha256Hex h) (hb : ∀ h ∈ b, IsSha256Hex h)
    (hcol : CollisionFree sha256 a b) (hcolSorted : CollisionFree sha256 (sorted a) (sorted b)) :
    (a.length = b.length ∨ Unmixed sha256 a b →
      (merkleRoot sha256 a = merkleRoot sha256 b ↔ a = b)) ∧
    (a.length = b.length ∨ Unmixed sha256 (sorted a) (sorted b) →
      (sortedMerkleRoot sha256 a = sortedMerkleRoot sha256 b ↔ a.Perm b)) := by
  refine ⟨?_, ?_⟩
  · intro h
    refine ⟨eq_of_merkleRoot_eq hsha ha hb hcol h, ?_⟩
    rintro rfl
    rfl
  · intro h
    have ha' : ∀ h ∈ sorted a, IsSha256Hex h := fun h hh => ha h (mem_sorted.mp hh)
    have hb' : ∀ h ∈ sorted b, IsSha256Hex h := fun h hh => hb h (mem_sorted.mp hh)
    rw [← sorted_eq_iff]
    refine ⟨?_, ?_⟩
    · apply eq_of_merkleRoot_eq hsha ha' hb' hcolSorted
      simpa using h
    · intro heq
      rw [sortedMerkleRoot, heq, sortedMerkleRoot]

variable {sha256}

end Root

/-- A digest of 32 equal bytes. -/
def exampleSha256 (text : Buffer) : Buffer := List.replicate 32 (text.headD 0 + 1)

/-- The digest written with one digit. -/
def exampleHash (c : CodeUnit) : JsString := List.replicate 64 c

theorem isSha256Hex_exampleHash {c : CodeUnit} (hc : IsHexDigit c) :
    IsSha256Hex (exampleHash c) := by
  refine ⟨List.length_replicate, fun d hd => ?_⟩
  obtain rfl := List.eq_of_mem_replicate hd
  exact hc

/-- The digest `11…` of the leaves below. -/
abbrev firstLeaf : JsString := exampleHash 0x31

/-- The digest `22…` of the leaves below. -/
abbrev secondLeaf : JsString := exampleHash 0x32

theorem sorted_firstLeaf_secondLeaf :
    sorted [firstLeaf, secondLeaf] = [firstLeaf, secondLeaf] := by
  decide

theorem merkleRoot_commits_example :
    merkleRoot exampleSha256 [firstLeaf, secondLeaf] ≠
      merkleRoot exampleSha256 [secondLeaf, firstLeaf] ∧
    sortedMerkleRoot exampleSha256 [firstLeaf, secondLeaf] =
      sortedMerkleRoot exampleSha256 [secondLeaf, firstLeaf] := by
  have h₁ : IsSha256Hex firstLeaf := isSha256Hex_exampleHash (by decide)
  have h₂ : IsSha256Hex secondLeaf := isSha256Hex_exampleHash (by decide)
  have hperm : [firstLeaf, secondLeaf].Perm [secondLeaf, firstLeaf] := List.Perm.swap ..
  have hcol : CollisionFree exampleSha256 [firstLeaf, secondLeaf] [secondLeaf, firstLeaf] := by
    intro p hp q hq heq
    simp only [hashedTexts_pair, List.mem_singleton, Set.mem_ofPred_eq] at hp hq
    rcases hp with rfl | rfl <;> rcases hq with rfl | rfl
    · rfl
    · exact absurd heq (by decide)
    · exact absurd heq (by decide)
    · rfl
  have hcolSorted : CollisionFree exampleSha256 (sorted [firstLeaf, secondLeaf])
      (sorted [secondLeaf, firstLeaf]) := by
    rw [← sorted_eq_iff.mpr hperm, sorted_firstLeaf_secondLeaf]
    exact hcol.mono fun p hp => .inl (or_self_iff.mp hp)
  obtain ⟨hlist, hset⟩ := merkleRoot_commits exampleSha256 [firstLeaf, secondLeaf]
    [secondLeaf, firstLeaf] (fun _ => List.length_replicate) (by simp [h₁, h₂])
    (by simp [h₁, h₂]) hcol hcolSorted
  exact ⟨(hlist (.inl rfl)).not.mpr (by decide), (hset (.inl rfl)).mpr hperm⟩

/-- The digest `1212…` of the two leaves. -/
abbrev digestOfLeaves : JsString := toHex (List.replicate 32 0x12)

/-- **Two leaves, and one leaf that is their digest, have one root**, though nothing that
is hashed collides. -/
theorem pair_and_digest :
    (∀ h ∈ [firstLeaf, secondLeaf], IsSha256Hex h) ∧ (∀ h ∈ [digestOfLeaves], IsSha256Hex h) ∧
    CollisionFree exampleSha256 [firstLeaf, secondLeaf] [digestOfLeaves] ∧
    merkleRoot exampleSha256 [firstLeaf, secondLeaf] = merkleRoot exampleSha256 [digestOfLeaves] ∧
    sortedMerkleRoot exampleSha256 [firstLeaf, secondLeaf] =
      sortedMerkleRoot exampleSha256 [digestOfLeaves] ∧
    ¬ [firstLeaf, secondLeaf].Perm [digestOfLeaves] := by
  have h₁ : IsSha256Hex firstLeaf := isSha256Hex_exampleHash (by decide)
  have h₂ : IsSha256Hex secondLeaf := isSha256Hex_exampleHash (by decide)
  have hroot := merkleRoot_pair_eq_digest exampleSha256 (fun _ => List.length_replicate)
    h₁ h₂
  refine ⟨by simp [h₁, h₂], ?_, ?_, hroot, ?_, fun hperm => ?_⟩
  · intro h hh
    rw [List.mem_singleton.mp hh]
    exact isSha256Hex_toHex List.length_replicate
  · -- only one text is hashed
    intro p hp q hq _
    simp only [hashedTexts_pair, hashedTexts_singleton, List.mem_singleton, List.not_mem_nil,
      or_false, Set.mem_ofPred_eq] at hp hq
    rw [hp, hq]
  · rw [sortedMerkleRoot, sorted_firstLeaf_secondLeaf]
    exact hroot
  · exact absurd hperm.length_eq (by decide)

end AegCloudDfir.Evidence
