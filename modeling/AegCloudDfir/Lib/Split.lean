import AegCloudDfir.Lib.PrefixCode

/-!
# Splitting at a word

A text is split at a word from left to right, as `text.split(word)` does it: each occurrence that
is found ends a piece, and the search goes on behind it. Occurrences of a word that does not begin
with an end of its own (`Unbordered`) cannot overlap, so they are found wherever they stand, and
joined pieces come back as they were exactly if none of them contains the word.

* `splitWord_append` — splitting goes piece by piece.
* `splitWord_terminated`, `splitWord_join` — lines with their ends, and joined pieces.
* `length_flatMap_splitWord` — nothing more comes back exactly if no piece contains the word.
-/

namespace Split

open PrefixCode

universe u

variable {σ : Type u} [DecidableEq σ]

/-- The pieces between the occurrences of a word. -/
def splitWord (word : List σ) : List σ → List (List σ)
  | [] => [[]]
  | c :: rest =>
    if word <+: c :: rest then [] :: splitWord word (rest.drop (word.length - 1))
    else (splitWord word rest).modifyHead (c :: ·)
termination_by text => text.length

/-- No end of the word is also a beginning of it, but for the word itself. -/
def Unbordered (word : List σ) : Prop :=
  ∀ t, t <+: word → t <:+ word → t = [] ∨ t = word

theorem splitWord_ne_nil (word text : List σ) : splitWord word text ≠ [] := by
  fun_induction splitWord word text with
  | case1 | case2 c rest _ _ => exact List.cons_ne_nil _ _
  | case3 c rest _ ih =>
    intro h
    exact ih (List.modifyHead_eq_nil_iff.mp h)

theorem length_splitWord_pos (word text : List σ) : 0 < (splitWord word text).length :=
  List.length_pos_of_ne_nil (splitWord_ne_nil word text)

omit [DecidableEq σ] in
/-- A word whose first symbol does not come again is unbordered. -/
theorem unbordered_of_not_mem {a : σ} {rest : List σ} (h : a ∉ rest) :
    Unbordered (a :: rest) := by
  intro t hprefix hsuffix
  rcases t with _ | ⟨b, t⟩
  · exact .inl rfl
  · obtain ⟨rfl, -⟩ := List.cons_prefix_cons.mp hprefix
    rcases List.suffix_cons_iff.mp hsuffix with heq | hsuffix
    · exact .inr heq
    · exact absurd (hsuffix.subset (List.mem_cons_self ..)) h

omit [DecidableEq σ] in
/-- An occurrence of an unbordered word does not reach into the next one. -/
theorem prefix_append_iff {word : List σ} (hword : Unbordered word) {c : σ} {rest text : List σ} :
    word <+: c :: rest ++ (word ++ text) ↔ word <+: c :: rest := by
  refine ⟨fun h => ?_, fun h => h.trans (List.prefix_append _ _)⟩
  rcases Nat.lt_or_ge (c :: rest).length word.length with hlt | hge
  · exfalso
    -- the end of the occurrence would be a beginning of the word
    obtain ⟨t, ht⟩ : c :: rest <+: word :=
      List.prefix_of_prefix_length_le (List.prefix_append _ _) h (Nat.le_of_lt hlt)
    have hprefix : t <+: word := by
      rw [← ht, List.prefix_append_right_inj] at h
      have hle : t.length ≤ word.length := by
        rw [← ht, List.length_append]
        omega
      refine List.prefix_of_prefix_length_le h ?_ hle
      rw [ht]
      exact List.prefix_append _ _
    rcases hword t hprefix ⟨c :: rest, ht⟩ with rfl | rfl
    · rw [List.append_nil] at ht
      exact absurd hlt (ht ▸ Nat.lt_irrefl _)
    · exact List.cons_ne_nil _ _ (List.append_left_eq_self.mp ht)
  · exact List.prefix_of_prefix_length_le h (List.prefix_append _ _) hge

/-- **Piece by piece.** What stands before an occurrence and what stands behind it are split on
their own. -/
theorem splitWord_append {word : List σ} (hword : Unbordered word) (hne : word ≠ [])
    (x y : List σ) : splitWord word (x ++ (word ++ y)) = splitWord word x ++ splitWord word y := by
  fun_induction splitWord word x with
  | case1 =>
    obtain ⟨c, rest, rfl⟩ := List.exists_cons_of_ne_nil hne
    have hstart : c :: rest <+: c :: (rest ++ y) := List.prefix_append (c :: rest) y
    rw [List.nil_append, List.cons_append, splitWord, if_pos hstart, List.length_cons,
      Nat.add_sub_cancel, List.drop_left]
    rfl
  | case2 c rest hstart ih =>
    have hle : word.length - 1 ≤ rest.length := by
      have := hstart.length_le
      rw [List.length_cons] at this
      omega
    have hlong : word <+: c :: (rest ++ (word ++ y)) :=
      hstart.trans (List.prefix_append (c :: rest) _)
    rw [List.cons_append, splitWord, if_pos hlong, List.drop_append_of_le_length hle, ih]
    rfl
  | case3 c rest hstart ih =>
    have hlong : ¬ word <+: c :: (rest ++ (word ++ y)) := mt (prefix_append_iff hword).mp hstart
    rw [List.cons_append, splitWord, if_neg hlong, ih]
    obtain ⟨first, pieces, hpieces⟩ := List.exists_cons_of_ne_nil (splitWord_ne_nil word rest)
    rw [hpieces]
    rfl

/-- A text without the word is one piece. -/
theorem splitWord_eq_singleton {word text : List σ} (h : ¬ word <:+: text) :
    splitWord word text = [text] := by
  fun_induction splitWord word text with
  | case1 => rfl
  | case2 c rest hstart _ => exact absurd hstart.isInfix h
  | case3 c rest _ ih =>
    rw [ih fun hrest => h (hrest.trans (List.suffix_cons c rest).isInfix)]
    rfl

/-- The first piece stands at the beginning. -/
theorem splitWord_head_prefix (word text : List σ) :
    ∀ first ∈ (splitWord word text).head?, first <+: text := by
  fun_induction splitWord word text with
  | case1 | case2 c rest _ _ =>
    rintro _ ⟨⟩
    exact List.nil_prefix
  | case3 c rest _ ih =>
    obtain ⟨first, pieces, hpieces⟩ := List.exists_cons_of_ne_nil (splitWord_ne_nil word rest)
    rw [hpieces] at ih ⊢
    rintro _ ⟨⟩
    exact (List.prefix_cons_inj c).mpr (ih first rfl)

/-- No piece contains the word. -/
theorem not_infix_of_mem_splitWord {word text piece : List σ} (hne : word ≠ [])
    (h : piece ∈ splitWord word text) : ¬ word <:+: piece := by
  fun_induction splitWord word text generalizing piece with
  | case1 =>
    obtain rfl := List.mem_singleton.mp h
    exact fun hnil => hne (List.eq_nil_of_infix_nil hnil)
  | case2 c rest _ ih =>
    rcases List.mem_cons.mp h with rfl | h
    · exact fun hnil => hne (List.eq_nil_of_infix_nil hnil)
    · exact ih h
  | case3 c rest hstart ih =>
    obtain ⟨first, pieces, hpieces⟩ := List.exists_cons_of_ne_nil (splitWord_ne_nil word rest)
    have hfirst : first <+: rest := by
      have := splitWord_head_prefix word rest
      rw [hpieces] at this
      exact this _ rfl
    rw [hpieces, List.modifyHead_cons] at h
    rcases List.mem_cons.mp h with rfl | h
    · rw [List.infix_cons_iff]
      rintro (hbegins | hinside)
      · exact hstart (hbegins.trans (List.prefix_cons_inj c |>.mpr hfirst))
      · exact ih (hpieces ▸ List.mem_cons_self ..) hinside
    · exact ih (hpieces ▸ List.mem_cons_of_mem _ h)

/-- A text is one piece exactly if it does not contain the word. -/
theorem length_splitWord_eq_one {word text : List σ} (hword : Unbordered word) (hne : word ≠ []) :
    (splitWord word text).length = 1 ↔ ¬ word <:+: text := by
  refine ⟨?_, fun h => by rw [splitWord_eq_singleton h]; rfl⟩
  rintro hlength ⟨x, y, rfl⟩
  rw [List.append_assoc, splitWord_append hword hne, List.length_append] at hlength
  have hx := length_splitWord_pos word x
  have hy := length_splitWord_pos word y
  omega

/-- Lines, each with the word at its end. -/
theorem splitWord_terminated {word : List σ} (hword : Unbordered word) (hne : word ≠ [])
    (lines : List (List σ)) :
    splitWord word (lines.flatMap fun line => line ++ word) =
      lines.flatMap (splitWord word) ++ [[]] := by
  induction lines with
  | nil => rw [List.flatMap_nil, List.flatMap_nil, splitWord, List.nil_append]
  | cons line lines ih =>
    rw [List.flatMap_cons, List.append_assoc, splitWord_append hword hne, ih, List.flatMap_cons,
      List.append_assoc]

/-- Pieces with the word between them. -/
theorem splitWord_join {word : List σ} (hword : Unbordered word) (hne : word ≠ [])
    {pieces : List (List σ)} (hpieces : pieces ≠ []) :
    splitWord word (join word pieces) = pieces.flatMap (splitWord word) := by
  obtain ⟨piece, rest, rfl⟩ := List.exists_cons_of_ne_nil hpieces
  clear hpieces
  induction rest generalizing piece with
  | nil => rw [join_singleton, List.flatMap_cons, List.flatMap_nil, List.append_nil]
  | cons next rest ih =>
    rw [join, List.append_assoc, splitWord_append hword hne, ih]
    rfl

omit [DecidableEq σ] in
/-- What joined pieces consist of. -/
theorem mem_of_mem_join {word : List σ} {pieces : List (List σ)} {c : σ}
    (h : c ∈ join word pieces) : c ∈ word ∨ ∃ piece ∈ pieces, c ∈ piece := by
  rcases pieces with _ | ⟨first, rest⟩
  · cases h
  rw [join_cons] at h
  rcases List.mem_append.mp h with hfirst | hrest
  · exact .inr ⟨first, List.mem_cons_self .., hfirst⟩
  · obtain ⟨piece, hpiece, hc⟩ := List.mem_flatMap.mp hrest
    rcases List.mem_append.mp hc with hword | hc
    · exact .inl hword
    · exact .inr ⟨piece, .tail _ hpiece, hc⟩

/-- Pieces without the word come back as they were. -/
theorem flatMap_splitWord_eq_self {word : List σ} {pieces : List (List σ)}
    (h : ∀ piece ∈ pieces, ¬ word <:+: piece) : pieces.flatMap (splitWord word) = pieces := by
  induction pieces with
  | nil => rfl
  | cons piece rest ih =>
    rw [List.flatMap_cons, splitWord_eq_singleton (h piece (List.mem_cons_self ..)),
      ih fun p hp => h p (.tail _ hp)]
    rfl

theorem le_length_flatMap_splitWord (word : List σ) (pieces : List (List σ)) :
    pieces.length ≤ (pieces.flatMap (splitWord word)).length := by
  induction pieces with
  | nil => exact Nat.le_refl _
  | cons piece rest ih =>
    rw [List.flatMap_cons, List.length_append, List.length_cons, Nat.add_comm]
    exact Nat.add_le_add (length_splitWord_pos word piece) ih

/-- **Exactness.** No more pieces come back than there were exactly if none contains the word. -/
theorem length_flatMap_splitWord {word : List σ} (hword : Unbordered word) (hne : word ≠ [])
    (pieces : List (List σ)) :
    (pieces.flatMap (splitWord word)).length = pieces.length ↔
      ∀ piece ∈ pieces, ¬ word <:+: piece := by
  refine ⟨fun h => ?_, fun h => by rw [flatMap_splitWord_eq_self h]⟩
  induction pieces with
  | nil =>
    intro _ hpiece
    cases hpiece
  | cons piece rest ih =>
    rw [List.flatMap_cons, List.length_append, List.length_cons] at h
    have hpiece := length_splitWord_pos word piece
    have hrest := le_length_flatMap_splitWord word rest
    intro p hp
    rcases List.mem_cons.mp hp with rfl | hp
    · exact (length_splitWord_eq_one hword hne).mp (by omega)
    · exact ih (by omega) p hp

end Split
