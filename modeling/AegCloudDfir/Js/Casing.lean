import AegCloudDfir.Js.Text

/-!
# Lower case

`s.toLowerCase()`. What it makes of letters is a table of Unicode that is left open here, together
with the one letter whose lower case depends on what stands around it. What is asked of it is what
it leaves alone: the units of ASCII that are no letters (`IsCaseless`) stand in what is returned
where they stood, and nothing else becomes one; and a slash, which is no part of a word and no mark
within one, parts what stands before it from what stands after it.

* `LowerCase` — a `toLowerCase`.
* `LowerCase.pair_infix_iff`, `LowerCase.head_iff` — where the units
  that are left alone stand.
* `asciiLowerCase` — the `toLowerCase` that knows no letters but those of ASCII.
-/

namespace AegCloudDfir

/-- A unit of ASCII that is no letter. -/
def IsCaseless (c : CodeUnit) : Prop :=
  c < 0x80 ∧ ¬ (0x41 ≤ c ∧ c ≤ 0x5A) ∧ ¬ (0x61 ≤ c ∧ c ≤ 0x7A)

instance (c : CodeUnit) : Decidable (IsCaseless c) := inferInstanceAs (Decidable (_ ∧ _))

/-- What becomes of a unit: a unit of ASCII that is no letter is left alone, and nothing else
becomes one or nothing. -/
def Lowers (c : CodeUnit) (written : JsString) : Prop :=
  if IsCaseless c then written = [c] else written ≠ [] ∧ ∀ d ∈ written, ¬ IsCaseless d

/-- A `toLowerCase`. -/
structure LowerCase where
  toLowerCase : JsString → JsString
  /-- every unit becomes something, in order -/
  units : ∀ s, ∃ blocks, List.Forall₂ Lowers s blocks ∧ toLowerCase s = blocks.flatten
  /-- a slash parts words -/
  slash : ∀ s t, toLowerCase (s ++ unitOf '/' :: t) = toLowerCase s ++ unitOf '/' :: toLowerCase t

theorem lowers_caseless {c : CodeUnit} (hc : IsCaseless c) {b : JsString} :
    Lowers c b ↔ b = [c] := by
  rw [Lowers, if_pos hc]

theorem lowers_cased {c : CodeUnit} (hc : ¬ IsCaseless c) {b : JsString} :
    Lowers c b ↔ b ≠ [] ∧ ∀ d ∈ b, ¬ IsCaseless d := by
  rw [Lowers, if_neg hc]

namespace LowerCase

variable {s : JsString} {blocks : List JsString}

theorem flatten_eq_nil (h : List.Forall₂ Lowers s blocks) : blocks.flatten = [] ↔ s = [] := by
  cases h with
  | nil => simp
  | @cons c b s blocks hc _ =>
    have hb : b ≠ [] := by
      by_cases hcase : IsCaseless c
      · rw [(lowers_caseless hcase).mp hc]
        exact List.cons_ne_nil _ _
      · exact ((lowers_cased hcase).mp hc).1
    simp [hb]

theorem filter_flatten (h : List.Forall₂ Lowers s blocks) {p : CodeUnit → Bool}
    (hp : ∀ c, p c = true → IsCaseless c) : blocks.flatten.filter p = s.filter p := by
  induction h with
  | nil => rfl
  | @cons c b s blocks hc _ ih =>
    rw [List.flatten_cons, List.filter_append, ih]
    by_cases hcase : IsCaseless c
    · rw [(lowers_caseless hcase).mp hc]
      cases hpc : p c <;> simp [hpc]
    · have hnone : b.filter p = [] := List.filter_eq_nil_iff.mpr fun d hd hpd =>
        ((lowers_cased hcase).mp hc).2 d hd (hp d hpd)
      have hpc : ¬ p c = true := fun hpc => hcase (hp c hpc)
      rw [hnone, List.filter_cons_of_neg hpc, List.nil_append]

theorem head?_flatten (h : List.Forall₂ Lowers s blocks) {p : CodeUnit} (hp : IsCaseless p) :
    blocks.flatten.head? = some p ↔ s.head? = some p := by
  cases h with
  | nil => simp
  | @cons c b s blocks hc _ =>
    by_cases hcase : IsCaseless c
    · rw [(lowers_caseless hcase).mp hc]
      rfl
    · obtain ⟨hne, hnot⟩ := (lowers_cased hcase).mp hc
      obtain ⟨d, b, rfl⟩ := List.exists_cons_of_ne_nil hne
      have hd : d ≠ p := by
        rintro rfl
        exact hnot d List.mem_cons_self hp
      have hcp : c ≠ p := by
        rintro rfl
        exact hcase hp
      simp [hd, hcp]

theorem infix_flatten (h : List.Forall₂ Lowers s blocks) {p q : CodeUnit} (hp : IsCaseless p)
    (hq : IsCaseless q) : [p, q] <:+: blocks.flatten ↔ [p, q] <:+: s := by
  have hstart : ∀ {a : CodeUnit} {t : JsString},
      [p, q] <+: a :: t ↔ a = p ∧ t.head? = some q := by
    intro a t
    rw [List.cons_prefix_cons, eq_comm]
    refine and_congr_right fun _ => ?_
    cases t with
    | nil => simp
    | cons b t => simp [List.cons_prefix_cons, eq_comm]
  induction h with
  | nil => rfl
  | @cons c b s blocks hc hrest ih =>
    have hinfix : [p, q] <:+: blocks.flatten ↔ [p, q] <:+: s := ih
    rw [List.flatten_cons, List.infix_cons_iff, hstart]
    by_cases hcase : IsCaseless c
    · rw [(lowers_caseless hcase).mp hc, List.singleton_append, List.infix_cons_iff, hstart,
        hinfix, head?_flatten hrest hq]
    · obtain ⟨-, hnot⟩ := (lowers_cased hcase).mp hc
      have hcp : c ≠ p := by
        rintro rfl
        exact hcase hp
      rw [or_iff_right fun h => hcp h.1, ← hinfix]
      clear ih hinfix hc
      induction b with
      | nil => rfl
      | cons d b ihb =>
        obtain ⟨hd, hnot⟩ := List.forall_mem_cons.mp hnot
        have hdp : d ≠ p := by
          rintro rfl
          exact hd hp
        rw [List.cons_append, List.infix_cons_iff, hstart, or_iff_right fun h => hdp h.1]
        exact ihb hnot

variable (lower : LowerCase)

/-! ## What is left alone -/

@[simp] theorem toLowerCase_eq_nil : lower.toLowerCase s = [] ↔ s = [] := by
  obtain ⟨blocks, hblocks, heq⟩ := lower.units s
  rw [heq, flatten_eq_nil hblocks]

theorem filter_toLowerCase {p : CodeUnit → Bool} (hp : ∀ c, p c = true → IsCaseless c) :
    (lower.toLowerCase s).filter p = s.filter p := by
  obtain ⟨blocks, hblocks, heq⟩ := lower.units s
  rw [heq, filter_flatten hblocks hp]

theorem head_iff {p : CodeUnit} (hp : IsCaseless p) :
    (lower.toLowerCase s).head? = some p ↔ s.head? = some p := by
  obtain ⟨blocks, hblocks, heq⟩ := lower.units s
  rw [heq, head?_flatten hblocks hp]

theorem pair_infix_iff {p q : CodeUnit} (hp : IsCaseless p) (hq : IsCaseless q) :
    [p, q] <:+: lower.toLowerCase s ↔ [p, q] <:+: s := by
  obtain ⟨blocks, hblocks, heq⟩ := lower.units s
  rw [heq, infix_flatten hblocks hp hq]

end LowerCase

/-- The lower case of a unit of ASCII. -/
def asciiLowerUnit (c : CodeUnit) : CodeUnit := if 0x41 ≤ c ∧ c ≤ 0x5A then c + 0x20 else c

theorem lowers_asciiLowerUnit (c : CodeUnit) : Lowers c [asciiLowerUnit c] := by
  by_cases hcase : IsCaseless c
  · rw [lowers_caseless hcase, asciiLowerUnit, if_neg hcase.2.1]
  · rw [lowers_cased hcase]
    refine ⟨List.cons_ne_nil _ _, fun d hd => ?_⟩
    obtain rfl := List.mem_singleton.mp hd
    rw [asciiLowerUnit]
    split_ifs with hupper
    · rintro ⟨-, -, hlower⟩
      apply hlower
      simp only [Fin.le_def, Fin.val_add] at hupper ⊢
      norm_num at hupper ⊢
      omega
    · exact hcase

theorem units_asciiLowerUnit (s : JsString) :
    ∃ blocks, List.Forall₂ Lowers s blocks ∧ s.map asciiLowerUnit = blocks.flatten := by
  refine ⟨s.map fun c => [asciiLowerUnit c], ?_, ?_⟩
  · rw [List.forall₂_map_right_iff]
    exact List.forall₂_same.mpr fun c _ => lowers_asciiLowerUnit c
  · rw [← List.flatMap_def, ← List.map_eq_flatMap]

/-- The `toLowerCase` that knows no letters but those of ASCII. -/
def asciiLowerCase : LowerCase where
  toLowerCase := List.map asciiLowerUnit
  units := units_asciiLowerUnit
  slash s t := by
    rw [List.map_append, List.map_cons]
    rfl

end AegCloudDfir
