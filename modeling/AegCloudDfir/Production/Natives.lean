import AegCloudDfir.Js.Casing
import AegCloudDfir.Lib.Naming
import AegCloudDfir.Evidence.ObjectKeys

/-!
# Names of natives

`NativeFileNameAllocator` of `packages/production/src/layout.ts` hands out the paths of the natives
of a production, by one of three schemes. Names that differ in case only are one name; the second
one gets a number. The path of a native is uploaded under the key `productionKey` makes of its
parts, which refuses more than the allocator takes out of a file name.

* `pathFor`, `pathsFor` — a path, and the paths of a run.
* `pathsFor_distinct` — the paths of a run are distinct, whatever their case.
* `Careful` — what a file name and a Bates number are to be for a scheme.
* `pathsUsable_iff` — the paths of a run are distinct and can all be uploaded exactly if every
  document of it is `Careful`.
-/

namespace AegCloudDfir.Production.Natives

open Evidence.Keys
open Search (isSpace trim)
open Processing.Mime (extensionOf)

/-- `FilenameScheme` -/
inductive FilenameScheme : Type where
  | bates
  | original
  | batesOriginal
  deriving DecidableEq

/-- What `pathFor` is given. -/
structure NativeName where
  begBates : JsString
  originalFileName : JsString
  deriving DecidableEq

/-- `splitExtension` -/
def splitExtension (fileName : JsString) : JsString × JsString :=
  let ext := extensionOf fileName
  (fileName.take (fileName.length - ext.length), ext)

/-- `/[\\/\0]/g` replaced by `_` -/
def underscore (c : CodeUnit) : CodeUnit :=
  if c = unitOf '\\' ∨ c = unitOf '/' ∨ c = 0 then unitOf '_' else c

/-- `sanitizeFileName` -/
def sanitizeFileName (fileName : JsString) : JsString :=
  let cleaned := trim (fileName.map underscore)
  if cleaned.length = 0 then js "file" else cleaned

/-- `base` -/
def baseName (scheme : FilenameScheme) (input : NativeName) : JsString :=
  let original := sanitizeFileName input.originalFileName
  let (stem, ext) := splitExtension original
  match scheme with
  | .bates => input.begBates ++ ext
  | .original => original
  | .batesOriginal => input.begBates ++ js "_" ++ stem ++ ext

/-- A base with the number of a collision before its extension. -/
def numbered (base : JsString) (i : ℕ) : JsString :=
  let (baseStem, baseExt) := splitExtension base
  baseStem ++ js "_" ++ paddedDecimal 3 i ++ baseExt

variable (lower : LowerCase) (scheme : FilenameScheme)

/-- `pathFor`, with the names that are used after it. -/
def pathFor (rounds : ℕ) (used : List JsString) (input : NativeName) :
    Option (JsString × List JsString) := do
  let candidate ← Naming.allocate lower.toLowerCase numbered rounds used (baseName scheme input)
  pure (js "NATIVES" ++ unitOf '/' :: candidate, lower.toLowerCase candidate :: used)

/-- `pathFor` for one document after another. -/
def pathsFor (rounds : ℕ) : List JsString → List NativeName → Option (List JsString)
  | _, [] => some []
  | used, input :: inputs => do
    let (path, used) ← pathFor lower scheme rounds used input
    let paths ← pathsFor rounds used inputs
    pure (path :: paths)

/-- The paths of the documents of a run. -/
def Paths (inputs : List NativeName) (paths : List JsString) : Prop :=
  ∃ rounds, pathsFor lower scheme rounds [] inputs = some paths

/-- The paths are handed out, no two differ in case only, and each is a name in the folder of the
natives that is let through when it is uploaded for any run. -/
def PathsUsable (inputs : List NativeName) : Prop :=
  ∃ paths, Paths lower scheme inputs paths ∧
    paths.Pairwise (fun p q => lower.toLowerCase p ≠ lower.toLowerCase q) ∧
    ∀ path ∈ paths, ∃ segment, path.splitOn (unitOf '/') = [js "NATIVES", segment] ∧
      ∀ tenantId productionId runId, isUuid tenantId → isUuid productionId → isUuid runId →
        ∃ key, productionKey tenantId productionId runId (path.splitOn (unitOf '/')) = .ok key

/-! ## The condition -/

/-- A name without control characters but NUL, which is taken out of it. -/
def NoControl (name : JsString) : Prop := ∀ c ∈ name, IsControl c → c = 0

/-- What a document is to be for a scheme. -/
def Careful (scheme : FilenameScheme) (input : NativeName) : Prop :=
  let name := trim input.originalFileName
  match scheme with
  | .bates => PathPart input.begBates ∧ NoControl (extensionOf name) ∧
      (extensionOf name ≠ [] → input.begBates.getLast? ≠ some (unitOf '.'))
  | .original => NoControl name ∧ ¬ js ".." <:+: name ∧ name.head? ≠ some (unitOf '.')
  | .batesOriginal => (input.begBates = [] ∨ PathPart input.begBates) ∧ NoControl name ∧
      ¬ js ".." <:+: name

/-! ## Parts of a path -/

/-- A unit that may stand in a part of a path. -/
def Fit (c : CodeUnit) : Prop := c ≠ unitOf '/' ∧ c ≠ unitOf '\\' ∧ ¬ IsControl c

instance (c : CodeUnit) : Decidable (Fit c) := inferInstanceAs (Decidable (_ ∧ _))

theorem pathPart_iff {part : JsString} :
    PathPart part ↔ part ≠ [] ∧ (∀ c ∈ part, Fit c) ∧ ¬ js ".." <:+: part ∧
      part.head? ≠ some (unitOf '.') := by
  refine ⟨fun h => ⟨h.nonempty, ?_, h.no_dots, h.no_leading_dot⟩, ?_⟩
  · intro c hc
    refine ⟨?_, ?_, h.no_control c hc⟩
    · rintro rfl
      exact h.no_slash hc
    · rintro rfl
      exact h.no_backslash hc
  · rintro ⟨hne, hfit, hdots, hhead⟩
    exact ⟨hne, fun h => (hfit _ h).1 rfl, fun h => (hfit _ h).2.1 rfl,
      fun c hc => (hfit c hc).2.2, hdots, hhead⟩

theorem fit_of_all {s : JsString} (h : (s.all fun c => decide (Fit c)) = true) :
    ∀ c ∈ s, Fit c := fun c hc => of_decide_eq_true (List.all_eq_true.mp h c hc)

theorem fit_of_isDigit {c : CodeUnit} (h : IsDigit c) : Fit c := by
  refine ⟨?_, ?_, ?_⟩
  · rintro rfl
    exact absurd h (by decide)
  · rintro rfl
    exact absurd h (by decide)
  · rintro (hlow | rfl)
    · have hdigit : (0x30 : CodeUnit) ≤ 0x1F := h.1.trans hlow
      exact absurd hdigit (by decide)
    · exact absurd h (by decide)

theorem not_dot_of_isDigit {c : CodeUnit} (h : IsDigit c) : c ≠ unitOf '.' := by
  rintro rfl
  exact absurd h (by decide)

/-- Dots come together before an extension, or where it begins. -/
theorem dots_append_ext_iff {stem after : JsString} (hafter : unitOf '.' ∉ after) :
    js ".." <:+: stem ++ unitOf '.' :: after ↔
      js ".." <:+: stem ∨ stem.getLast? = some (unitOf '.') := by
  have hdots : js ".." = [unitOf '.', unitOf '.'] := rfl
  rw [hdots]
  generalize unitOf '.' = dot at hafter ⊢
  induction stem with
  | nil =>
    have hnone : ¬ [dot, dot] <:+: dot :: after := by
      rw [List.infix_cons_iff, List.cons_prefix_cons]
      rintro (⟨-, hstart⟩ | hinside)
      · exact hafter (hstart.subset List.mem_cons_self)
      · exact hafter (hinside.subset List.mem_cons_self)
    rw [List.nil_append]
    refine iff_of_false hnone ?_
    rintro (h | h)
    · exact List.cons_ne_nil _ _ (List.eq_nil_of_infix_nil h)
    · cases h
  | cons c stem ih =>
    have hrest : [dot, dot] <:+: stem ++ dot :: after ↔
        [dot, dot] <:+: stem ∨ stem.getLast? = some dot := ih
    rw [List.cons_append, List.infix_cons_iff, hrest, List.infix_cons_iff, List.cons_prefix_cons,
      List.cons_prefix_cons]
    cases stem with
    | nil =>
      simp only [List.nil_append, List.cons_prefix_cons, List.nil_prefix, and_true,
        List.infix_nil, List.prefix_nil, reduceCtorEq, List.getLast?_nil, List.getLast?_singleton,
        Option.some.injEq, or_false, false_or, and_false]
      exact eq_comm
    | cons d stem =>
      rw [List.cons_append, List.cons_prefix_cons, List.cons_prefix_cons,
        List.getLast?_cons_cons, or_assoc]
      simp only [List.nil_prefix]

theorem numbered_eq (base : JsString) (i : ℕ) : numbered base i =
    (splitExtension base).1 ++ js "_" ++ paddedDecimal 3 i ++ (splitExtension base).2 := rfl

theorem splitExtension_spec (name : JsString) :
    (splitExtension name).1 ++ (splitExtension name).2 = name ∧
      ((splitExtension name).2 = [] ∨ (splitExtension name).1 ≠ [] ∧
        ∃ after, (splitExtension name).2 = unitOf '.' :: after ∧ unitOf '.' ∉ after) := by
  rcases extensionOf_cases name with hnone | ⟨stem, after, hname, hne, hafter, hext⟩
  · simp [splitExtension, hnone]
  · have hstem : name.take (name.length - (unitOf '.' :: after).length) = stem := by
      rw [hname, List.length_append, Nat.add_sub_cancel, List.take_left]
    rw [splitExtension, hext]
    dsimp only
    rw [hstem]
    exact ⟨hname.symm, .inr ⟨hne, after, rfl, hafter⟩⟩

/-- **A number leaves a part of a path a part of a path.** -/
theorem pathPart_numbered {base : JsString} (h : PathPart base) (i : ℕ) :
    PathPart (numbered base i) := by
  obtain ⟨hsplit, hext⟩ := splitExtension_spec base
  rw [numbered_eq]
  generalize (splitExtension base).1 = stem at hsplit hext ⊢
  generalize (splitExtension base).2 = ext at hsplit hext ⊢
  subst hsplit
  obtain ⟨hne, hfit, hdots, hhead⟩ := pathPart_iff.mp h
  obtain ⟨hfitStem, hfitExt⟩ := List.forall_mem_append.mp hfit
  have hdigits : ∀ c ∈ paddedDecimal 3 i, IsDigit c := fun c => isDigit_of_mem_paddedDecimal
  have hstem : stem ≠ [] := by
    rcases hext with rfl | ⟨hstem, -⟩
    · simpa using hne
    · exact hstem
  -- behind the line there are digits, and the extension at most
  have hbehind : ¬ js ".." <:+: paddedDecimal 3 i ++ ext := by
    have hnone : unitOf '.' ∉ paddedDecimal 3 i := fun hmem =>
      not_dot_of_isDigit (hdigits _ hmem) rfl
    rcases hext with rfl | ⟨-, after, rfl, hafter⟩
    · rw [List.append_nil]
      exact no_dots_of_not_mem hnone
    · rw [dots_append_ext_iff hafter]
      rintro (hd | hlast)
      · exact no_dots_of_not_mem hnone hd
      · exact hnone (List.mem_of_getLast? hlast)
  have heq : stem ++ js "_" ++ paddedDecimal 3 i ++ ext =
      stem ++ unitOf '_' :: (paddedDecimal 3 i ++ ext) := by
    simp [js, unitOf]
  rw [heq]
  refine pathPart_iff.mpr ⟨?_, ?_, ?_, ?_⟩
  · exact List.append_ne_nil_of_left_ne_nil hstem _
  · refine List.forall_mem_append.mpr ⟨hfitStem, List.forall_mem_cons.mpr ⟨by decide, ?_⟩⟩
    exact List.forall_mem_append.mpr ⟨fun c hc => fit_of_isDigit (hdigits c hc), hfitExt⟩
  · have hpair : [unitOf '.', unitOf '.'] <:+: stem ++ unitOf '_' :: (paddedDecimal 3 i ++ ext) ↔
        [unitOf '.', unitOf '.'] <:+: stem ∨ [unitOf '.', unitOf '.'] <:+: paddedDecimal 3 i ++ ext :=
      pair_infix_append_cons (by decide) (by decide) _ _
    have hsep : js ".." <:+: stem ++ unitOf '_' :: (paddedDecimal 3 i ++ ext) ↔
        js ".." <:+: stem ∨ js ".." <:+: paddedDecimal 3 i ++ ext := hpair
    rw [hsep]
    rintro (hd | hd)
    · exact hdots (hd.trans (List.infix_append [] stem ext))
    · exact hbehind hd
  · obtain ⟨c, stem, rfl⟩ := List.exists_cons_of_ne_nil hstem
    exact hhead

/-! ## Distinct names -/

/-- The numbered names of a base differ in more than case. -/
theorem numbered_injective (base : JsString) :
    Function.Injective fun i => lower.toLowerCase (numbered base i) := by
  intro i j h
  have hcaseless : ∀ c : CodeUnit, decide (IsDigit c) = true → IsCaseless c := by
    intro c hc
    obtain ⟨hlow, hhigh⟩ := of_decide_eq_true hc
    refine ⟨hhigh.trans_lt (by decide), fun hupper => ?_, fun hletter => ?_⟩
    · exact absurd (hupper.1.trans hhigh) (by decide)
    · exact absurd (hletter.1.trans hhigh) (by decide)
  have hdigits : ∀ k, (paddedDecimal 3 k).filter (fun c => decide (IsDigit c)) =
      paddedDecimal 3 k := fun k =>
    List.filter_eq_self.mpr fun c hc => decide_eq_true (isDigit_of_mem_paddedDecimal hc)
  have hfilter := congrArg (List.filter fun c => decide (IsDigit c)) h
  dsimp only at hfilter
  rw [lower.filter_toLowerCase hcaseless, lower.filter_toLowerCase hcaseless, numbered_eq,
    numbered_eq] at hfilter
  simp only [List.filter_append, hdigits] at hfilter
  exact paddedDecimal_injective 3 (List.append_cancel_left (List.append_cancel_right hfilter))

theorem isCaseless_of_isControl {c : CodeUnit} (h : IsControl c) : IsCaseless c := by
  rcases h with hlow | rfl
  · refine ⟨hlow.trans_lt (by decide), fun hupper => ?_, fun hletter => ?_⟩
    · exact absurd (hupper.1.trans hlow) (by decide)
    · exact absurd (hletter.1.trans hlow) (by decide)
  · decide

/-- Whether a name is a part of a path is seen from its lower case. -/
theorem pathPart_toLowerCase_iff {name : JsString} :
    PathPart (lower.toLowerCase name) ↔ PathPart name := by
  have hfit : (∀ c ∈ lower.toLowerCase name, Fit c) ↔ ∀ c ∈ name, Fit c := by
    have hcaseless : ∀ c : CodeUnit, decide (¬ Fit c) = true → IsCaseless c := by
      intro c hc
      have hnot := of_decide_eq_true hc
      by_contra hcase
      refine hnot ⟨?_, ?_, fun h => hcase (isCaseless_of_isControl h)⟩
      · rintro rfl
        exact hcase (by decide)
      · rintro rfl
        exact hcase (by decide)
    have hall : ∀ s : JsString, (∀ c ∈ s, Fit c) ↔ s.filter (fun c => decide (¬ Fit c)) = [] := by
      intro s
      simp [List.filter_eq_nil_iff]
    rw [hall, hall, lower.filter_toLowerCase hcaseless]
  have hdots : js ".." <:+: lower.toLowerCase name ↔ js ".." <:+: name :=
    lower.pair_infix_iff (p := unitOf '.') (q := unitOf '.') (by decide) (by decide)
  have hhead : (lower.toLowerCase name).head? = some (unitOf '.') ↔
      name.head? = some (unitOf '.') := lower.head_iff (by decide)
  rw [pathPart_iff, pathPart_iff, hfit, hdots, ne_eq, ne_eq, hhead, lower.toLowerCase_eq_nil]

/-- A path in the folder of the natives. -/
def nativePath (candidate : JsString) : JsString := js "NATIVES" ++ unitOf '/' :: candidate

/-- The paths of a run are those of the names that are handed out. -/
theorem pathsFor_eq (rounds : ℕ) (used : List JsString) (inputs : List NativeName) :
    pathsFor lower scheme rounds used inputs =
      (Naming.allocateAll lower.toLowerCase numbered rounds used
        (inputs.map (baseName scheme))).map (List.map nativePath) := by
  induction inputs generalizing used with
  | nil => rfl
  | cons input inputs ih =>
    rw [pathsFor, pathFor, List.map_cons, Naming.allocateAll]
    cases Naming.allocate lower.toLowerCase numbered rounds used (baseName scheme input) with
    | none => rfl
    | some name =>
      simp only [Option.bind_eq_bind, Option.bind_some, Option.pure_def, ih]
      cases Naming.allocateAll lower.toLowerCase numbered rounds (lower.toLowerCase name :: used)
        (inputs.map (baseName scheme)) <;> rfl

/-! ## What is asked of a document -/

/-- Of the units that may not stand in a part of a path, the control characters but NUL are left. -/
theorem fit_underscore_iff {c : CodeUnit} : Fit (underscore c) ↔ (IsControl c → c = 0) := by
  by_cases hc : c = unitOf '\\' ∨ c = unitOf '/' ∨ c = 0
  · rw [underscore, if_pos hc]
    refine iff_of_true (by decide) ?_
    rcases hc with rfl | rfl | rfl
    · exact fun h => absurd h (by decide)
    · exact fun h => absurd h (by decide)
    · exact fun _ => rfl
  · rw [underscore, if_neg hc]
    refine ⟨fun h hcontrol => absurd hcontrol h.2.2, fun h => ⟨?_, ?_, ?_⟩⟩
    · exact fun heq => hc (.inr (.inl heq))
    · exact fun heq => hc (.inl heq)
    · exact fun hcontrol => hc (.inr (.inr (h hcontrol)))

theorem underscore_eq_dot_iff {c : CodeUnit} : underscore c = unitOf '.' ↔ c = unitOf '.' := by
  by_cases hc : c = unitOf '\\' ∨ c = unitOf '/' ∨ c = 0
  · rw [underscore, if_pos hc]
    refine iff_of_false (by decide) ?_
    rintro rfl
    exact absurd hc (by decide)
  · rw [underscore, if_neg hc]

theorem isSpace_underscore (c : CodeUnit) : isSpace (underscore c) = isSpace c := by
  by_cases hc : c = unitOf '\\' ∨ c = unitOf '/' ∨ c = 0
  · rw [underscore, if_pos hc]
    rcases hc with rfl | rfl | rfl <;> decide
  · rw [underscore, if_neg hc]

theorem trim_map_underscore (name : JsString) :
    trim (name.map underscore) = (trim name).map underscore := by
  have hspace : isSpace ∘ underscore = isSpace := funext isSpace_underscore
  simp only [trim, List.dropWhile_map, ← List.map_reverse, hspace]

theorem sanitizeFileName_eq (name : JsString) : sanitizeFileName name =
    if trim name = [] then js "file" else (trim name).map underscore := by
  simp only [sanitizeFileName, trim_map_underscore, List.length_map, List.length_eq_zero_iff]

theorem extensionOf_map_underscore (name : JsString) :
    extensionOf (name.map underscore) = (extensionOf name).map underscore := by
  have hdot : (fun c => decide (c ≠ unitOf '.')) ∘ underscore =
      fun c => decide (c ≠ unitOf '.') := by
    funext c
    simp only [Function.comp_apply, ne_eq, underscore_eq_dot_iff]
  simp only [extensionOf, ← List.map_reverse, List.takeWhile_map, hdot, List.length_map]
  split_ifs
  · rw [List.map_cons, List.map_reverse]
    rfl
  · rfl

theorem extensionOf_sanitizeFileName (name : JsString) :
    extensionOf (sanitizeFileName name) = (extensionOf (trim name)).map underscore := by
  rw [sanitizeFileName_eq]
  split_ifs with hnil
  · rw [hnil]
    decide
  · exact extensionOf_map_underscore _

theorem fit_map_underscore_iff {name : JsString} :
    (∀ c ∈ name.map underscore, Fit c) ↔ NoControl name := by
  rw [List.forall_mem_map]
  exact forall_congr' fun c => forall_congr' fun _ => fit_underscore_iff

theorem dots_map_underscore_iff {name : JsString} :
    js ".." <:+: name.map underscore ↔ js ".." <:+: name := by
  have hdots : js ".." = [unitOf '.', unitOf '.'] := rfl
  have hdot : underscore (unitOf '.') = unitOf '.' := by decide
  refine ⟨?_, fun h => ?_⟩
  · rintro ⟨before, after, h⟩
    obtain ⟨front, back, rfl, hfront, -⟩ := List.map_eq_append_iff.mp h.symm
    obtain ⟨before, middle, rfl, -, hmiddle⟩ := List.map_eq_append_iff.mp hfront
    rw [hdots] at hmiddle
    obtain ⟨c, rest, rfl, hc, hrest⟩ := List.map_eq_cons_iff.mp hmiddle
    obtain ⟨d, rest, rfl, hd, hrest⟩ := List.map_eq_cons_iff.mp hrest
    obtain rfl := List.map_eq_nil_iff.mp hrest
    rw [underscore_eq_dot_iff] at hc hd
    rw [hc, hd]
    exact ⟨before, back, rfl⟩
  · have hmap := h.map underscore
    rwa [hdots, List.map_cons, List.map_cons, List.map_nil, hdot] at hmap

theorem head_map_underscore_iff {name : JsString} :
    (name.map underscore).head? = some (unitOf '.') ↔ name.head? = some (unitOf '.') := by
  cases name with
  | nil => rfl
  | cons c name => simp only [List.map_cons, List.head?_cons, Option.some.injEq,
      underscore_eq_dot_iff]

/-- What a file name is behind a Bates number. -/
theorem fit_sanitizeFileName_iff {name : JsString} :
    ((∀ c ∈ sanitizeFileName name, Fit c) ∧ ¬ js ".." <:+: sanitizeFileName name ↔
      NoControl (trim name) ∧ ¬ js ".." <:+: trim name) ∧
    ((sanitizeFileName name).head? = some (unitOf '.') ↔
      (trim name).head? = some (unitOf '.')) := by
  rw [sanitizeFileName_eq]
  split_ifs with hnil
  · rw [hnil]
    refine ⟨iff_of_true ⟨fit_of_all rfl, by decide⟩ ⟨?_, by decide⟩, by decide⟩
    exact fun c hc => absurd hc List.not_mem_nil
  · rw [fit_map_underscore_iff, dots_map_underscore_iff, head_map_underscore_iff]
    exact ⟨Iff.rfl, Iff.rfl⟩

theorem sanitizeFileName_ne_nil (name : JsString) : sanitizeFileName name ≠ [] := by
  rw [sanitizeFileName_eq]
  split_ifs with hnil
  · decide
  · exact fun h => hnil (List.map_eq_nil_iff.mp h)

theorem pathPart_bates_iff {begBates name : JsString} :
    PathPart (begBates ++ extensionOf (sanitizeFileName name)) ↔
      PathPart begBates ∧ NoControl (extensionOf (trim name)) ∧
        (extensionOf (trim name) ≠ [] → begBates.getLast? ≠ some (unitOf '.')) := by
  rw [extensionOf_sanitizeFileName]
  rcases extensionOf_cases (trim name) with hnone | ⟨stem, after, -, -, hafter, hext⟩
  · rw [hnone, List.map_nil, List.append_nil]
    exact (and_iff_left ⟨fun c hc => absurd hc List.not_mem_nil, fun h => absurd rfl h⟩).symm
  · have hdot : underscore (unitOf '.') = unitOf '.' := by decide
    have hafter' : unitOf '.' ∉ after.map underscore := by
      intro hmem
      obtain ⟨c, hc, hcdot⟩ := List.mem_map.mp hmem
      exact hafter (underscore_eq_dot_iff.mp hcdot ▸ hc)
    have hfit : (∀ c ∈ begBates ++ (extensionOf (trim name)).map underscore, Fit c) ↔
        (∀ c ∈ begBates, Fit c) ∧ NoControl (extensionOf (trim name)) := by
      rw [List.forall_mem_append, fit_map_underscore_iff]
    have hdots : js ".." <:+: begBates ++ (extensionOf (trim name)).map underscore ↔
        js ".." <:+: begBates ∨ begBates.getLast? = some (unitOf '.') := by
      rw [hext, List.map_cons, hdot]
      exact dots_append_ext_iff hafter'
    have hne : extensionOf (trim name) ≠ [] := by
      rw [hext]
      exact List.cons_ne_nil _ _
    rw [pathPart_iff, pathPart_iff, hfit, hdots, hext, List.map_cons, hdot]
    cases begBates with
    | nil => simp
    | cons c begBates =>
      rw [← hext]
      simp only [ne_eq, reduceCtorEq, not_false_eq_true, true_and, not_or, List.cons_append,
        List.head?_cons, hne]
      tauto

theorem pathPart_batesOriginal_iff {begBates name : JsString} :
    PathPart (begBates ++ unitOf '_' :: sanitizeFileName name) ↔
      (begBates = [] ∨ PathPart begBates) ∧ NoControl (trim name) ∧ ¬ js ".." <:+: trim name := by
  have hpair : [unitOf '.', unitOf '.'] <:+: begBates ++ unitOf '_' :: sanitizeFileName name ↔
      [unitOf '.', unitOf '.'] <:+: begBates ∨ [unitOf '.', unitOf '.'] <:+: sanitizeFileName name :=
    pair_infix_append_cons (by decide) (by decide) _ _
  have hdots : js ".." <:+: begBates ++ unitOf '_' :: sanitizeFileName name ↔
      js ".." <:+: begBates ∨ js ".." <:+: sanitizeFileName name := hpair
  rw [pathPart_iff, pathPart_iff, List.forall_mem_append, List.forall_mem_cons, hdots,
    ← fit_sanitizeFileName_iff.1]
  have hline : Fit (unitOf '_') := by decide
  cases begBates with
  | nil =>
    have hnone : ¬ js ".." <:+: ([] : JsString) := by decide
    have hhead : ([] ++ unitOf '_' :: sanitizeFileName name).head? ≠ some (unitOf '.') := by
      rw [List.nil_append, List.head?_cons]
      decide
    constructor
    · rintro ⟨-, ⟨-, -, hfit⟩, hnot, -⟩
      exact ⟨.inl rfl, hfit, fun h => hnot (.inr h)⟩
    · rintro ⟨-, hfit, hnot⟩
      exact ⟨List.cons_ne_nil _ _, ⟨fun c hc => absurd hc List.not_mem_nil, hline, hfit⟩,
        fun h => h.elim hnone hnot, hhead⟩
  | cons c begBates =>
    simp only [ne_eq, reduceCtorEq, not_false_eq_true, true_and, not_or, List.cons_append,
      List.head?_cons, false_or, hline]
    tauto

/-- **A base is a part of a path exactly if the document is careful.** -/
theorem pathPart_baseName_iff {input : NativeName} :
    PathPart (baseName scheme input) ↔ Careful scheme input := by
  cases scheme with
  | bates => exact pathPart_bates_iff
  | original =>
    have hbase : baseName .original input = sanitizeFileName input.originalFileName := rfl
    obtain ⟨hfit, hhead⟩ := @fit_sanitizeFileName_iff input.originalFileName
    rw [hbase, pathPart_iff, ← and_assoc, ← and_assoc, and_assoc (a := sanitizeFileName _ ≠ []),
      hfit, ne_eq, ne_eq, hhead]
    exact ⟨fun h => ⟨h.1.2.1, h.1.2.2, h.2⟩,
      fun h => ⟨⟨sanitizeFileName_ne_nil _, h.1, h.2.1⟩, h.2.2⟩⟩
  | batesOriginal =>
    have hbase : baseName .batesOriginal input =
        input.begBates ++ unitOf '_' :: sanitizeFileName input.originalFileName := by
      have hsplit := (splitExtension_spec (sanitizeFileName input.originalFileName)).1
      have heq : baseName .batesOriginal input = input.begBates ++ js "_" ++
        (splitExtension (sanitizeFileName input.originalFileName)).1 ++
        (splitExtension (sanitizeFileName input.originalFileName)).2 := rfl
      rw [heq, List.append_assoc, hsplit, List.append_assoc]
      rfl
    rw [hbase]
    exact pathPart_batesOriginal_iff

/-! ## The paths of a run -/

variable {lower scheme} {inputs : List NativeName} {paths : List JsString}

/-- Paths that differ in more than case are those of names that do. -/
theorem toLowerCase_nativePath (candidate : JsString) : lower.toLowerCase (nativePath candidate) =
    lower.toLowerCase (js "NATIVES") ++ unitOf '/' :: lower.toLowerCase candidate :=
  lower.slash _ _

/-- **The paths of a run are handed out.** -/
theorem exists_paths (lower : LowerCase) (scheme : FilenameScheme) (inputs : List NativeName) :
    ∃ paths, Paths lower scheme inputs paths := by
  have hrounds : ([] : List JsString).length + (inputs.map (baseName scheme)).length <
      inputs.length + 1 := by
    rw [List.length_map, List.length_nil]
    omega
  obtain ⟨names, hnames⟩ := Naming.exists_allocateAll (numbered_injective lower) hrounds
  exact ⟨_, inputs.length + 1, by rw [pathsFor_eq, hnames]; rfl⟩

theorem Paths.exists_names (h : Paths lower scheme inputs paths) :
    ∃ rounds names, Naming.allocateAll lower.toLowerCase numbered rounds []
      (inputs.map (baseName scheme)) = some names ∧ paths = names.map nativePath := by
  obtain ⟨rounds, h⟩ := h
  rw [pathsFor_eq] at h
  obtain ⟨names, hnames, rfl⟩ := Option.map_eq_some_iff.mp h
  exact ⟨rounds, names, hnames, rfl⟩

/-- **The paths of a run are distinct**, whatever their case. -/
theorem Paths.distinct (h : Paths lower scheme inputs paths) :
    paths.Pairwise fun p q => lower.toLowerCase p ≠ lower.toLowerCase q := by
  obtain ⟨rounds, names, hnames, rfl⟩ := h.exists_names
  have hnodup : names.Pairwise fun a b => lower.toLowerCase a ≠ lower.toLowerCase b :=
    List.pairwise_map.mp (Naming.allocateAll_keys hnames).1
  refine List.pairwise_map.mpr (hnodup.imp fun hab heq => hab ?_)
  rw [toLowerCase_nativePath, toLowerCase_nativePath] at heq
  exact (List.cons.inj (List.append_cancel_left heq)).2

theorem splitOn_nativePath {candidate segment : JsString} :
    (nativePath candidate).splitOn (unitOf '/') = [js "NATIVES", segment] ↔
      candidate = segment ∧ unitOf '/' ∉ candidate := by
  have hfolder : (js "NATIVES").splitOn (unitOf '/') = [js "NATIVES"] :=
    List.splitOn_eq_singleton (by decide)
  rw [nativePath, List.splitOn_append_cons_self, hfolder, List.singleton_append,
    List.cons_inj_right]
  refine ⟨fun h => ?_, ?_⟩
  · have hslash : unitOf '/' ∉ candidate := by
      intro hmem
      obtain ⟨before, after, rfl⟩ := List.append_of_mem hmem
      rw [List.splitOn_append_cons_self] at h
      have hlength := congrArg List.length h
      have hbefore := List.length_pos_of_ne_nil (List.splitOn_ne_nil (unitOf '/') before)
      have hafter := List.length_pos_of_ne_nil (List.splitOn_ne_nil (unitOf '/') after)
      rw [List.length_append, List.length_singleton] at hlength
      omega
    rw [List.splitOn_eq_singleton hslash] at h
    exact ⟨(List.cons.inj h).1, hslash⟩
  · rintro ⟨rfl, hslash⟩
    exact List.splitOn_eq_singleton hslash

/-- The path of a name can be uploaded exactly if the name is a part of a path. -/
theorem uploads_iff {candidate : JsString} :
    (∃ segment, (nativePath candidate).splitOn (unitOf '/') = [js "NATIVES", segment] ∧
      ∀ tenantId productionId runId, isUuid tenantId → isUuid productionId → isUuid runId →
        ∃ key, productionKey tenantId productionId runId
          ((nativePath candidate).splitOn (unitOf '/')) = .ok key) ↔ PathPart candidate := by
  have hfolder : PathPart (js "NATIVES") :=
    pathPart_iff.mpr ⟨by decide, fit_of_all rfl, by decide, by decide⟩
  refine ⟨?_, fun h => ⟨candidate, splitOn_nativePath.mpr ⟨rfl, h.no_slash⟩, ?_⟩⟩
  · rintro ⟨segment, hsplit, hkey⟩
    obtain ⟨rfl, -⟩ := splitOn_nativePath.mp hsplit
    have huuid : isUuid (js "00000000-0000-0000-0000-000000000000") = true := by decide
    have hparts := (exists_productionKey_iff huuid huuid huuid (List.splitOn_ne_nil _ _)).mp
      (hkey _ _ _ huuid huuid huuid)
    rw [hsplit] at hparts
    exact hparts _ (List.mem_cons_of_mem _ List.mem_cons_self)
  · intro tenantId productionId runId htenant hproduction hrun
    refine (exists_productionKey_iff htenant hproduction hrun (List.splitOn_ne_nil _ _)).mpr ?_
    rw [splitOn_nativePath.mpr ⟨rfl, h.no_slash⟩]
    exact List.forall_mem_cons.mpr ⟨hfolder, List.forall_mem_singleton.mpr h⟩

theorem usable_iff : PathsUsable lower scheme inputs ↔ ∀ input ∈ inputs, Careful scheme input := by
  have hgood : ∀ paths, Paths lower scheme inputs paths →
      ((∀ path ∈ paths, ∃ segment, path.splitOn (unitOf '/') = [js "NATIVES", segment] ∧
        ∀ tenantId productionId runId, isUuid tenantId → isUuid productionId → isUuid runId →
          ∃ key, productionKey tenantId productionId runId (path.splitOn (unitOf '/')) = .ok key) ↔
        ∀ input ∈ inputs, Careful scheme input) := by
    intro paths hpaths
    obtain ⟨rounds, names, hnames, rfl⟩ := hpaths.exists_names
    rw [List.forall_mem_map]
    simp only [uploads_iff]
    have hkey : ∀ a b, lower.toLowerCase a = lower.toLowerCase b → (PathPart a ↔ PathPart b) := by
      intro a b hab
      rw [← pathPart_toLowerCase_iff lower, hab, pathPart_toLowerCase_iff]
    have hnamed : (∀ name ∈ names, PathPart name) ↔
        ∀ base ∈ inputs.map (baseName scheme), PathPart base :=
      Naming.allocateAll_good_iff hkey (fun _ i h => pathPart_numbered h i)
        (fun _ h => absurd h List.not_mem_nil) hnames
    rw [hnamed, List.forall_mem_map]
    simp only [pathPart_baseName_iff]
  refine ⟨?_, fun h => ?_⟩
  · rintro ⟨paths, hpaths, -, hall⟩
    exact (hgood paths hpaths).mp hall
  · obtain ⟨paths, hpaths⟩ := exists_paths lower scheme inputs
    exact ⟨paths, hpaths, hpaths.distinct, (hgood paths hpaths).mpr h⟩

/-- **The paths of a run can all be uploaded exactly if its documents are careful**: they are always
handed out, and distinct. -/
theorem pathsUsable_iff (lower : LowerCase) (scheme : FilenameScheme) (inputs : List NativeName) :
    PathsUsable lower scheme inputs ↔ ∀ input ∈ inputs, Careful scheme input :=
  usable_iff

/-- **A file whose name begins with a dot cannot be uploaded under its own name.** -/
theorem dotfile_not_usable :
    ¬ ∀ (lower : LowerCase) (scheme : FilenameScheme) (inputs : List NativeName),
      PathsUsable lower scheme inputs := by
  intro h
  have hcareful := usable_iff.mp (h asciiLowerCase .original [⟨js "AEG0001", js ".env"⟩])
  have htrim : trim (js ".env") = js ".env" := by decide
  have hname := hcareful _ List.mem_cons_self
  simp only [Careful, htrim] at hname
  exact hname.2.2 rfl

end AegCloudDfir.Production.Natives
