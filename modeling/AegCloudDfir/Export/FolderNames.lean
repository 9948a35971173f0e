import AegCloudDfir.Js.Text
import AegCloudDfir.Lib.Runs

/-!
# Names of download folders

`downloadFolderName` (`exports.service.ts`) names the folder that an export is saved in, after the
export and its id. The browser saves into the folder of that name; the two scripts it offers clean
the name once more (`scriptFolderName` of `export-download.ts`), with the same steps in the same
order. In `downloadFolderName` the cleaned name is cut, and the id put behind a hyphen, after the
runs of hyphens are gone.

* `shellSafe_downloadFolderName` — the name is safe in a shell.
* `scriptFolderName_iff` — when the scripts use the same folder.
-/

namespace AegCloudDfir.Export.FolderNames

open Runs

/-- `normalize('NFKD')`, of which is known here that texts in ASCII are left as they are. -/
structure Normalizer where
  nfkd : JsString → JsString
  ascii : ∀ s, (∀ c ∈ s, c < 0x80) → nfkd s = s

/-- `[A-Za-z0-9]` -/
def isAlphanumeric (c : CodeUnit) : Bool :=
  (0x41 ≤ c ∧ c ≤ 0x5A) ∨ (0x61 ≤ c ∧ c ≤ 0x7A) ∨ (0x30 ≤ c ∧ c ≤ 0x39)

/-- `[A-Za-z0-9._-]` -/
def isSafe (c : CodeUnit) : Bool :=
  isAlphanumeric c ∨ c = unitOf '.' ∨ c = unitOf '_' ∨ c = unitOf '-'

/-- A hyphen. -/
def isHyphen (c : CodeUnit) : Bool := c = unitOf '-'

/-- `[-.]` -/
def isEdge (c : CodeUnit) : Bool := c = unitOf '-' ∨ c = unitOf '.'

variable (form : Normalizer)

/-- The steps that both functions take first. -/
def cleaned (name : JsString) : JsString :=
  trimEnds isEdge <|
    replaceRuns isHyphen (unitOf '-') <|
      replaceRuns (fun c => !isSafe c) (unitOf '-') (form.nfkd name)

/-- `downloadFolderName` -/
def downloadFolderName (name exportId : JsString) : JsString :=
  let safe := (cleaned form name).take 60
  let stem := if safe = [] then js "export" else safe
  let suffix := (exportId.filter isAlphanumeric).take 8
  stem ++ js "-" ++ (if suffix = [] then js "export" else suffix)

/-- `scriptFolderName` -/
def scriptFolderName (name : JsString) : JsString :=
  let safe := cleaned form name
  if safe = [] then js "export" else safe

/-- A name that is not empty, has letters, digits, dots, underscores and hyphens only, and begins
with neither dot nor hyphen. -/
structure ShellSafe (name : JsString) : Prop where
  ne_nil : name ≠ []
  safe : ∀ c ∈ name, isSafe c
  head : ∀ c ∈ name.head?, isEdge c = false

/-! ## Characters -/

theorem isSafe_of_isAlphanumeric {c : CodeUnit} (h : isAlphanumeric c) : isSafe c := by
  simp [isSafe, h]

theorem not_isEdge_of_isAlphanumeric {c : CodeUnit} (h : isAlphanumeric c) : isEdge c = false := by
  have hdot : isAlphanumeric (unitOf '.') = false := by decide
  have hhyphen : isAlphanumeric (unitOf '-') = false := by decide
  rw [isEdge, decide_eq_false_iff_not]
  rintro (rfl | rfl)
  · rw [hhyphen] at h
    cases h
  · rw [hdot] at h
    cases h

theorem not_isHyphen_of_not_isEdge {c : CodeUnit} (h : isEdge c = false) : isHyphen c = false := by
  rw [isEdge, decide_eq_false_iff_not] at h
  exact decide_eq_false fun hc => h (.inl hc)

theorem lt_of_isSafe {c : CodeUnit} (h : isSafe c) : c < 0x80 := by
  simp only [isSafe, isAlphanumeric, decide_eq_true_eq] at h
  rcases h with (⟨-, h⟩ | ⟨-, h⟩ | ⟨-, h⟩) | rfl | rfl | rfl
  · exact h.trans_lt (by decide)
  · exact h.trans_lt (by decide)
  · exact h.trans_lt (by decide)
  · decide
  · decide
  · decide

theorem isHyphen_iff (c : CodeUnit) : isHyphen c ↔ c = unitOf '-' := by simp [isHyphen]

/-! ## The cleaned name -/

variable {form} {name exportId : JsString}

theorem isSafe_of_mem_cleaned {c : CodeUnit} (h : c ∈ cleaned form name) : isSafe c := by
  have hhyphen : isSafe (unitOf '-') := by decide
  rcases mem_replaceRuns ((trimEnds_sublist _).subset h) with rfl | ⟨hmem, -⟩
  · exact hhyphen
  · rcases mem_replaceRuns hmem with rfl | ⟨-, hsafe⟩
    · exact hhyphen
    · simpa using hsafe

theorem apart_cleaned : Apart isHyphen (cleaned form name) := by
  have hinfix : cleaned form name <:+: _ :=
    (List.rdropWhile_prefix isEdge _).isInfix.trans (List.dropWhile_suffix isEdge).isInfix
  exact (apart_replaceRuns (by decide) _).of_isInfix hinfix

/-- Nothing is replaced in a safe name. -/
theorem replaceRuns_of_safe (hsafe : ∀ c ∈ name, isSafe c) :
    replaceRuns (fun c => !isSafe c) (unitOf '-') (form.nfkd name) = name := by
  rw [form.ascii name fun c hc => lt_of_isSafe (hsafe c hc)]
  exact replaceRuns_eq_self fun c hc => by simp [hsafe c hc]

/-- A safe name without neighbouring hyphens and without edges is clean. -/
theorem cleaned_eq_self (hsafe : ∀ c ∈ name, isSafe c) (hapart : Apart isHyphen name)
    (hne : name ≠ []) (hhead : ∀ c ∈ name.head?, isEdge c = false)
    (hlast : isEdge (name.getLast hne) = false) : cleaned form name = name := by
  rw [cleaned, replaceRuns_of_safe hsafe, (replaceRuns_eq_self_iff isHyphen_iff).mpr hapart]
  exact trimEnds_eq_self hne hhead hlast

/-- A safe name with neighbouring hyphens becomes shorter. -/
theorem length_cleaned_lt (hsafe : ∀ c ∈ name, isSafe c) (hapart : ¬ Apart isHyphen name) :
    (cleaned form name).length < name.length := by
  rw [cleaned, replaceRuns_of_safe hsafe]
  exact (trimEnds_sublist _).length_le.trans_lt (length_replaceRuns_lt hapart)

/-! ## The name of the folder -/

/-- What stands in front of the last hyphen. -/
def stem (form : Normalizer) (name : JsString) : JsString :=
  let safe := (cleaned form name).take 60
  if safe = [] then js "export" else safe

/-- What stands behind the last hyphen. -/
def suffix (exportId : JsString) : JsString :=
  let suffix := (exportId.filter isAlphanumeric).take 8
  if suffix = [] then js "export" else suffix

theorem downloadFolderName_eq :
    downloadFolderName form name exportId = stem form name ++ unitOf '-' :: suffix exportId := by
  rw [downloadFolderName, stem, suffix, List.append_assoc]
  rfl

theorem stem_ne_nil : stem form name ≠ [] := by
  rw [stem]
  split_ifs with h
  · decide
  · exact h

theorem suffix_ne_nil : suffix exportId ≠ [] := by
  rw [suffix]
  split_ifs with h
  · decide
  · exact h

theorem isAlphanumeric_of_mem_suffix {c : CodeUnit} (h : c ∈ suffix exportId) :
    isAlphanumeric c := by
  have hexport : (js "export").all isAlphanumeric := by decide
  rw [suffix] at h
  split_ifs at h
  · exact List.all_eq_true.mp hexport c h
  · exact (List.mem_filter.mp (List.mem_of_mem_take h)).2

theorem isSafe_of_mem_stem {c : CodeUnit} (h : c ∈ stem form name) : isSafe c := by
  have hexport : (js "export").all isSafe := by decide
  rw [stem] at h
  split_ifs at h
  · exact List.all_eq_true.mp hexport c h
  · exact isSafe_of_mem_cleaned (List.mem_of_mem_take h)

theorem head?_stem {c : CodeUnit} (h : c ∈ (stem form name).head?) : isEdge c = false := by
  have hexport : ((js "export").head?.all fun c => !isEdge c) := by decide
  rw [stem] at h
  split_ifs at h
  · simpa using (Option.all_eq_true _ _).mp hexport c h
  · rw [List.head?_take, if_neg (by decide)] at h
    exact head?_trimEnds h

theorem apart_stem : Apart isHyphen (stem form name) := by
  rw [stem]
  split_ifs
  · decide
  · exact apart_cleaned.of_isInfix (List.take_prefix _ _).isInfix

/-- The stem ends in a hyphen exactly if there is one where the name is cut. -/
theorem getLast_stem : isHyphen ((stem form name).getLast stem_ne_nil) ↔
    (cleaned form name)[59]? = some (unitOf '-') := by
  have hlast : (stem form name).getLast? = some ((stem form name).getLast stem_ne_nil) :=
    List.getLast?_eq_some_getLast stem_ne_nil
  rw [isHyphen_iff, ← Option.some_inj, ← hlast, stem]
  split_ifs with hnil
  · rw [List.take_eq_nil_iff, or_iff_right (by decide)] at hnil
    rw [hnil]
    decide
  by_cases hlong : 60 ≤ (cleaned form name).length
  · rw [List.getLast?_eq_getElem?, List.length_take, min_eq_left hlong,
      List.getElem?_take_of_lt (by decide)]
  · -- nothing is cut, and so the last character is no hyphen
    have hnone : (cleaned form name)[59]? = none := List.getElem?_eq_none (by omega)
    rw [List.take_of_length_le (by omega)] at hnil ⊢
    rw [hnone, List.getLast?_eq_some_getLast hnil]
    refine iff_of_false (fun h => ?_) (by simp)
    have hedge := not_isHyphen_of_not_isEdge (getLast_trimEnds hnil)
    rw [isHyphen, decide_eq_false_iff_not] at hedge
    exact hedge (Option.some.inj h)

/-- The name has neighbouring hyphens exactly if its stem ends in one. -/
theorem apart_downloadFolderName : Apart isHyphen (downloadFolderName form name exportId) ↔
    ¬ isHyphen ((stem form name).getLast stem_ne_nil) := by
  have hnone : ∀ c ∈ suffix exportId, isHyphen c = false := fun c hc =>
    not_isHyphen_of_not_isEdge (not_isEdge_of_isAlphanumeric (isAlphanumeric_of_mem_suffix hc))
  have hsuffix : Apart isHyphen (unitOf '-' :: suffix exportId) := by
    refine apart_cons.mpr ⟨fun _ => ?_, apart_of_none hnone⟩
    rcases hhead : (suffix exportId).head? with _ | c
    · rfl
    · exact hnone c (List.mem_of_mem_head? hhead)
  rw [downloadFolderName_eq, Apart, List.isChain_append]
  have hhyphen : isHyphen (unitOf '-') := by decide
  constructor
  · rintro ⟨-, -, hmeet⟩ hlast
    exact hmeet _ (List.getLast?_eq_some_getLast stem_ne_nil) _ rfl ⟨hlast, hhyphen⟩
  · intro hlast
    refine ⟨apart_stem, hsuffix, ?_⟩
    intro c hc d hd hboth
    rw [List.getLast?_eq_some_getLast stem_ne_nil, Option.mem_some_iff] at hc
    exact hlast (hc ▸ hboth.1)

/-- **The name of a folder is safe in a shell.** -/
theorem shellSafe_downloadFolderName : ShellSafe (downloadFolderName form name exportId) := by
  rw [downloadFolderName_eq]
  refine ⟨by simp, ?_, ?_⟩
  · intro c hc
    rcases List.mem_append.mp hc with hc | hc
    · exact isSafe_of_mem_stem hc
    · rcases List.mem_cons.mp hc with rfl | hc
      · decide
      · exact isSafe_of_isAlphanumeric (isAlphanumeric_of_mem_suffix hc)
  · intro c hc
    rw [List.head?_append_of_ne_nil _ stem_ne_nil] at hc
    exact head?_stem hc

/-- The scripts use the folder of the browser exactly if its name has no neighbouring hyphens. -/
theorem scriptFolderName_iff_apart :
    scriptFolderName form (downloadFolderName form name exportId) =
        downloadFolderName form name exportId ↔
      Apart isHyphen (downloadFolderName form name exportId) := by
  have hsafe := @shellSafe_downloadFolderName form name exportId
  constructor
  · intro h
    by_contra hapart
    have hlt := @length_cleaned_lt form _ hsafe.safe hapart
    rw [scriptFolderName] at h
    split_ifs at h with hnil
    · -- `export` has no hyphen
      have hmem : unitOf '-' ∈ js "export" := by
        rw [h, downloadFolderName_eq]
        simp
      exact absurd hmem (by decide)
    · exact absurd (congrArg List.length h) hlt.ne
  · intro hapart
    have hlast : isEdge ((downloadFolderName form name exportId).getLast hsafe.ne_nil) = false := by
      have hmem : (downloadFolderName form name exportId).getLast hsafe.ne_nil ∈
          suffix exportId := by
        simp only [downloadFolderName_eq, List.getLast_append_of_ne_nil _ (List.cons_ne_nil _ _),
          List.getLast_cons suffix_ne_nil]
        exact List.getLast_mem _
      exact not_isEdge_of_isAlphanumeric (isAlphanumeric_of_mem_suffix hmem)
    rw [scriptFolderName, cleaned_eq_self hsafe.safe hapart hsafe.ne_nil hsafe.head hlast]
    exact if_neg hsafe.ne_nil

/-- **One folder**: the scripts use the folder of the browser exactly if the cleaned name of the
export has no hyphen where it is cut. -/
theorem scriptFolderName_iff (form : Normalizer) (name exportId : JsString) :
    scriptFolderName form (downloadFolderName form name exportId) =
          downloadFolderName form name exportId ∧
        ShellSafe (downloadFolderName form name exportId) ↔
      (cleaned form name)[59]? ≠ some (unitOf '-') := by
  rw [and_iff_left shellSafe_downloadFolderName, scriptFolderName_iff_apart,
    apart_downloadFolderName, getLast_stem]

/-- Every text is its own normal form. -/
def asWritten : Normalizer where
  nfkd s := s
  ascii _ _ := rfl

/-- A name that is cut behind a hyphen: the scripts put its two hyphens into one. -/
theorem cut_behind_hyphen : ∃ name exportId,
    scriptFolderName asWritten (downloadFolderName asWritten name exportId) ≠
      downloadFolderName asWritten name exportId :=
  ⟨List.replicate 59 (unitOf 'a') ++ js " copy", js "5007e931", by decide +kernel⟩

end AegCloudDfir.Export.FolderNames
