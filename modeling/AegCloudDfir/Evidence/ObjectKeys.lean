import AegCloudDfir.Collection.PageKey
import AegCloudDfir.Processing.Mime
import AegCloudDfir.Lib.Split
import AegCloudDfir.Lib.Traversal

/-!
# Object keys

`packages/evidence/src/objectKeys.ts`: the keys under which objects are stored, and what is
checked of a key before it is used. Every key is `tenants/`, a tenant, the name of a class of
objects, and whatever the class makes of its arguments. Only the last segment of the key of a
derivative is free text, and `sanitizeFilename` is to make it safe.

* `derivativeKey`, `assertKeyInTenant`, `keyClass` — the keys, and what is asked of them.
* `SafeName` — what a file name may be as the last segment of a key.
* `keysValid_iff` — the names and keys are as they should be exactly for the file names that are
  `Careful`: a blank does not stand between dots at the beginning, and a long name is not cut off
  behind a dot or a blank, or in front of nothing but its extension.
-/

namespace AegCloudDfir.Evidence.Keys

open Collection (IsHex)
open Search (isSpace trim)
open Processing.Mime (collapseDots stripFilename extensionOf truncateFilename sanitizeFilename)

/-! ## The checks -/

/-- `KeyValidationError` -/
structure KeyValidationError where
  message : JsString
  deriving DecidableEq

/-- `UUID_RE` -/
def isUuid (value : JsString) : Bool :=
  value.length = 36 ∧ value.zipIdx.all fun (c, i) =>
    if i = 8 ∨ i = 13 ∨ i = 18 ∨ i = 23 then c = unitOf '-' else IsHex c

/-- `SHA256_HEX_RE` -/
def isSha256Hex (value : JsString) : Bool := value.length = 64 ∧ value.all fun c => IsHex c

/-- `[a-z0-9]` -/
def isTypeUnit (c : CodeUnit) : Bool := IsDigit c ∨ 0x61 ≤ c ∧ c ≤ 0x7A

/-- `DERIVATIVE_TYPE_RE` -/
def isDerivativeType : JsString → Bool
  | [] => false
  | c :: rest => isTypeUnit c ∧ rest.length ≤ 63 ∧
      rest.all fun c => isTypeUnit c ∨ c = unitOf '_' ∨ c = unitOf '-'

/-- `[\0-\x1f\x7f]`, of `CONTROL_CHARS_RE` -/
def IsControl (c : CodeUnit) : Prop := c ≤ 0x1F ∨ c = 0x7F

instance (c : CodeUnit) : Decidable (IsControl c) := inferInstanceAs (Decidable (_ ∨ _))

/-- The numbers a version may be, with what is asked of them. A literal is what `String(n)` is for
a finite number; it has a point at most once. -/
class VersionNumber (N : Type) extends JsNumber N where
  /-- `Number.isInteger(n)` -/
  isInteger : N → Bool
  /-- `n < 0` -/
  isNegative : N → Bool
  /-- points do not come together -/
  single_point : ∀ n, ¬ js ".." <:+: literal n

/-- `assertUuid` -/
def assertUuid (value label : JsString) : Except KeyValidationError JsString :=
  if isUuid value then .ok value
  else .error ⟨label ++ js " must be a lowercase UUID, got: " ++ quote value⟩

/-- `assertSha256Hex` -/
def assertSha256Hex (value label : JsString) : Except KeyValidationError JsString :=
  if isSha256Hex value then .ok value
  else .error ⟨label ++ js " must be 64 lowercase hex characters, got: " ++ quote value⟩

/-! ## The keys -/

/-- `tenants/{tenantId}/{name}/...` -/
def tenantKey (tenantId name : JsString) (parts : List JsString) : JsString :=
  joinWith (js "/") (js "tenants" :: tenantId :: name :: parts)

/-- `stagingKey` -/
def stagingKey (tenantId uuid : JsString) : Except KeyValidationError JsString := do
  let _ ← assertUuid tenantId (js "tenantId")
  let _ ← assertUuid uuid (js "uuid")
  pure (tenantKey tenantId (js "staging") [uuid])

/-- What `originalKey` and `quarantineKey` do. -/
def contentKey (name tenantId sha256 : JsString) : Except KeyValidationError JsString := do
  let _ ← assertUuid tenantId (js "tenantId")
  let _ ← assertSha256Hex sha256 (js "sha256")
  pure (tenantKey tenantId name [js "sha256", sha256.take 2, sha256])

/-- `originalKey` -/
def originalKey : JsString → JsString → Except KeyValidationError JsString :=
  contentKey (js "originals")

/-- `quarantineKey` -/
def quarantineKey : JsString → JsString → Except KeyValidationError JsString :=
  contentKey (js "quarantine")

/-- `derivativeKey` -/
def derivativeKey {N : Type} [VersionNumber N] (tenantId evidenceId derivativeType : JsString)
    (version : N) (filename : JsString) : Except KeyValidationError JsString := do
  let _ ← assertUuid tenantId (js "tenantId")
  let _ ← assertUuid evidenceId (js "evidenceId")
  if ¬ isDerivativeType derivativeType then
    throw ⟨js "derivativeType must be lowercase alphanumeric/_/-, got: " ++ quote derivativeType⟩
  if ¬ VersionNumber.isInteger version ∨ VersionNumber.isNegative version then
    throw ⟨js "version must be a non-negative integer, got: " ++ JsNumber.literal version⟩
  pure (tenantKey tenantId (js "derivatives")
    [evidenceId, derivativeType, JsNumber.literal version, sanitizeFilename filename])

/-- `assertPathPart` -/
def assertPathPart (part label : JsString) : Except KeyValidationError JsString := do
  if part = [] then throw ⟨label ++ js " must be a non-empty string"⟩
  if unitOf '/' ∈ part ∨ unitOf '\\' ∈ part ∨ (∃ c ∈ part, IsControl c) ∨ js ".." <:+: part then
    throw ⟨label ++ js " must not contain path separators, control characters, or '..': " ++
      quote part⟩
  if startsWith part (js ".") then throw ⟨label ++ js " must not start with '.': " ++ quote part⟩
  pure part

/-- `productionKey` -/
def productionKey (tenantId productionId runId : JsString) (parts : List JsString) :
    Except KeyValidationError JsString := do
  let _ ← assertUuid tenantId (js "tenantId")
  let _ ← assertUuid productionId (js "productionId")
  let _ ← assertUuid runId (js "runId")
  if parts = [] then throw ⟨js "productionKey requires at least one path part"⟩
  let safeParts ← parts.zipIdx.mapM fun (p, i) =>
    assertPathPart p (js "parts[" ++ decimal i ++ js "]")
  pure (tenantKey tenantId (js "productions") (productionId :: runId :: safeParts))

/-- `assertKeyInTenant` -/
def assertKeyInTenant (tenantId key : JsString) : Except KeyValidationError Unit := do
  let _ ← assertUuid tenantId (js "tenantId")
  if key = [] then throw ⟨js "key must be a non-empty string"⟩
  if ¬ startsWith key (joinWith (js "/") [js "tenants", tenantId, []]) then
    throw ⟨js "key does not belong to tenant " ++ tenantId⟩
  if js ".." <:+: key then throw ⟨js "key must not contain '..'"⟩
  if js "//" <:+: key then throw ⟨js "key must not contain '//'"⟩
  if unitOf '\\' ∈ key then throw ⟨js "key must not contain backslashes"⟩
  if (0 : CodeUnit) ∈ key then throw ⟨js "key must not contain NUL characters"⟩

/-- `KeyClass` -/
inductive KeyClass : Type where
  | original
  | derivative
  | manifest
  | production
  | export_
  | staging
  | quarantine
  | unknown
  deriving DecidableEq

/-- `keyClass` -/
def keyClass (key : JsString) : KeyClass :=
  match key.splitOn (unitOf '/') with
  | tenants :: tenantId :: name :: _ :: _ =>
    if tenants ≠ js "tenants" then .unknown
    else if ¬ isUuid tenantId then .unknown
    else if name = js "originals" then .original
    else if name = js "derivatives" then .derivative
    else if name = js "manifests" then .manifest
    else if name = js "productions" then .production
    else if name = js "exports" then .export_
    else if name = js "staging" then .staging
    else if name = js "quarantine" then .quarantine
    else .unknown
  | _ => .unknown

/-! ## Segments -/

theorem joinWith_cons_cons (first second : JsString) (rest : List JsString) :
    joinWith (js "/") (first :: second :: rest) =
      first ++ unitOf '/' :: joinWith (js "/") (second :: rest) := by
  rw [joinWith, PrefixCode.join, List.append_assoc]
  rfl

/-- `key.split('/')` undoes the joining of segments without slashes. -/
theorem splitOn_joinWith (parts : List JsString) (hne : parts ≠ [])
    (hparts : ∀ p ∈ parts, unitOf '/' ∉ p) :
    (joinWith (js "/") parts).splitOn (unitOf '/') = parts := by
  rcases parts with _ | ⟨first, rest⟩
  · exact absurd rfl hne
  clear hne
  induction rest generalizing first with
  | nil =>
    exact List.splitOn_eq_singleton fun h => hparts first (List.mem_cons_self ..) h
  | cons second rest ih =>
    rw [joinWith_cons_cons, List.splitOn_append_cons_self,
      ih second fun p hp => hparts p (.tail _ hp),
      List.splitOn_eq_singleton fun h => hparts first (List.mem_cons_self ..) h]
    rfl

/-- Two units other than the separator stand on one side of it. -/
theorem pair_infix_append_cons {a b sep : CodeUnit} (ha : a ≠ sep) (hb : b ≠ sep)
    (x y : JsString) : [a, b] <:+: x ++ sep :: y ↔ [a, b] <:+: x ∨ [a, b] <:+: y := by
  induction x with
  | nil =>
    rw [List.nil_append, List.infix_cons_iff, List.cons_prefix_cons]
    refine ⟨?_, ?_⟩
    · rintro (⟨rfl, -⟩ | hy)
      · exact absurd rfl ha
      · exact .inr hy
    · rintro (hnil | hy)
      · exact absurd (List.eq_nil_of_infix_nil hnil) (List.cons_ne_nil _ _)
      · exact .inr hy
  | cons c x ih =>
    have hhead : [a, b] <+: c :: (x ++ sep :: y) ↔ [a, b] <+: c :: x := by
      rw [List.cons_prefix_cons, List.cons_prefix_cons]
      rcases x with _ | ⟨d, x⟩
      · rw [List.nil_append, List.cons_prefix_cons]
        exact iff_of_false (fun h => hb h.2.1) (fun h => List.cons_ne_nil _ _
          (List.prefix_nil.mp h.2))
      · rw [List.cons_append, List.cons_prefix_cons, List.cons_prefix_cons]
        exact and_congr_right fun _ => and_congr_right fun _ =>
          iff_of_true (List.nil_prefix) (List.nil_prefix)
    rw [List.cons_append, List.infix_cons_iff, hhead, ih, List.infix_cons_iff, or_assoc]

/-- Two units that stand in no segment do not stand in the joined segments. -/
theorem not_pair_infix_joinWith {a b : CodeUnit} (ha : a ≠ unitOf '/') (hb : b ≠ unitOf '/')
    {parts : List JsString} (hparts : ∀ p ∈ parts, ¬ [a, b] <:+: p) :
    ¬ [a, b] <:+: joinWith (js "/") parts := by
  rcases parts with _ | ⟨first, rest⟩
  · exact fun h => List.cons_ne_nil _ _ (List.eq_nil_of_infix_nil h)
  induction rest generalizing first with
  | nil => exact hparts first (List.mem_cons_self ..)
  | cons second rest ih =>
    rw [joinWith_cons_cons, pair_infix_append_cons ha hb]
    rintro (hfirst | hrest)
    · exact hparts first (List.mem_cons_self ..) hfirst
    · exact ih second (fun p hp => hparts p (.tail _ hp)) hrest

/-- What every segment of a key has to be. -/
structure Segment (part : JsString) : Prop where
  nonempty : part ≠ []
  no_slash : unitOf '/' ∉ part
  no_backslash : unitOf '\\' ∉ part
  no_nul : (0 : CodeUnit) ∉ part
  no_dots : ¬ js ".." <:+: part

/-- Slashes stand alone between segments that have none and are not empty. -/
theorem not_slashes_infix_joinWith {parts : List JsString} (hparts : ∀ p ∈ parts, Segment p) :
    ¬ js "//" <:+: joinWith (js "/") parts := by
  rcases parts with _ | ⟨first, rest⟩
  · exact fun h => List.cons_ne_nil _ _ (List.eq_nil_of_infix_nil h)
  have hsingle : ∀ p, Segment p → ¬ js "//" <:+: p := fun p hp h =>
    hp.no_slash (h.subset (List.mem_cons_self ..))
  induction rest generalizing first with
  | nil => exact hsingle first (hparts first (List.mem_cons_self ..))
  | cons second rest ih =>
    have hnext := ih second fun p hp => hparts p (.tail _ hp)
    have hsecond := hparts second (.tail _ (List.mem_cons_self ..))
    obtain ⟨c, hc⟩ : ∃ c ∈ second.head?, (joinWith (js "/") (second :: rest)).head? = some c := by
      obtain ⟨c, tail, htail⟩ := List.exists_cons_of_ne_nil hsecond.nonempty
      refine ⟨c, by rw [htail]; rfl, ?_⟩
      rw [joinWith, PrefixCode.join_cons, htail]
      rfl
    rw [joinWith_cons_cons]
    -- going back from the slash, segment by segment
    have hslash : ¬ js "//" <:+: unitOf '/' :: joinWith (js "/") (second :: rest) := by
      rw [List.infix_cons_iff]
      rintro (hstart | hinside)
      · have hhead : (joinWith (js "/") (second :: rest)).head? = some (unitOf '/') := by
          obtain ⟨tail, htail⟩ := (List.cons_prefix_cons.mp hstart).2
          rw [← htail]
          rfl
        obtain rfl : c = unitOf '/' := Option.some.inj (hc.2.symm.trans hhead)
        exact hsecond.no_slash (List.mem_of_mem_head? hc.1)
      · exact hnext hinside
    have hfirst := (hparts first (List.mem_cons_self ..)).no_slash
    clear ih hparts
    induction first with
    | nil => exact hslash
    | cons d first ihd =>
      rw [List.cons_append, List.infix_cons_iff]
      rintro (hstart | hinside)
      · exact hfirst ((List.cons_prefix_cons.mp hstart).1 ▸ List.mem_cons_self ..)
      · exact ihd (fun h => hfirst (.tail _ h)) hinside

/-! ## Parts of a path -/

/-- A part of a path `assertPathPart` lets through. -/
structure PathPart (part : JsString) : Prop where
  nonempty : part ≠ []
  no_slash : unitOf '/' ∉ part
  no_backslash : unitOf '\\' ∉ part
  no_control : ∀ c ∈ part, ¬ IsControl c
  no_dots : ¬ js ".." <:+: part
  no_leading_dot : part.head? ≠ some (unitOf '.')

theorem startsWith_dot_iff {part : JsString} :
    startsWith part (js ".") = true ↔ part.head? = some (unitOf '.') := by
  rw [startsWith, List.isPrefixOf_iff_prefix]
  cases part with
  | nil => decide
  | cons c part =>
    have hdot : js "." = [unitOf '.'] := rfl
    rw [hdot, List.cons_prefix_cons, List.head?_cons, Option.some.injEq, eq_comm]
    exact and_iff_left (List.nil_prefix)

theorem assertPathPart_eq_ok {part label : JsString} (h : PathPart part) :
    assertPathPart part label = .ok part := by
  have hunits : ¬ (unitOf '/' ∈ part ∨ unitOf '\\' ∈ part ∨ (∃ c ∈ part, IsControl c) ∨
      js ".." <:+: part) := by
    rintro (hslash | hback | ⟨c, hc, hcontrol⟩ | hdots)
    · exact h.no_slash hslash
    · exact h.no_backslash hback
    · exact h.no_control c hc hcontrol
    · exact h.no_dots hdots
  have hdot : ¬ startsWith part (js ".") = true := fun hd =>
    h.no_leading_dot (startsWith_dot_iff.mp hd)
  rw [assertPathPart, if_neg h.nonempty, if_neg hunits, if_neg hdot]
  rfl

theorem PathPart.of_eq_ok {part label p : JsString} (h : assertPathPart part label = .ok p) :
    PathPart part := by
  unfold assertPathPart at h
  simp only [bind, Except.bind, pure, Except.pure, throw, throwThe, MonadExceptOf.throw] at h
  split at h
  · cases h
  split at h
  · cases h
  split at h
  · cases h
  rename_i hne hunits hdot
  exact ⟨hne, fun h => hunits (.inl h), fun h => hunits (.inr (.inl h)),
    fun c hc hcontrol => hunits (.inr (.inr (.inl ⟨c, hc, hcontrol⟩))),
    fun h => hunits (.inr (.inr (.inr h))), fun h => hdot (startsWith_dot_iff.mpr h)⟩

/-- What `productionKey` refuses of an existing run is parts that are no parts of a path. -/
theorem exists_productionKey_iff {tenantId productionId runId : JsString} {parts : List JsString}
    (htenant : isUuid tenantId = true) (hproduction : isUuid productionId = true)
    (hrun : isUuid runId = true) (hne : parts ≠ []) :
    (∃ key, productionKey tenantId productionId runId parts = .ok key) ↔
      ∀ p ∈ parts, PathPart p := by
  unfold productionKey assertUuid
  rw [if_pos htenant, if_pos hproduction, if_pos hrun]
  simp only [bind, Except.bind, pure, Except.pure, if_neg hne]
  have hzip : ∀ p ∈ parts, ∃ i, (p, i) ∈ parts.zipIdx := fun p hp => by
    obtain ⟨i, hi⟩ := List.mem_iff_getElem?.mp hp
    exact ⟨i, List.mem_zipIdx_iff_getElem?.mpr hi⟩
  refine ⟨?_, fun hall => ?_⟩
  · rintro ⟨key, hkey⟩ p hp
    split at hkey
    · cases hkey
    · obtain ⟨i, hi⟩ := hzip p hp
      rename_i hparts
      obtain ⟨q, -, hq⟩ := Traversal.exists_ok_of_mapM hparts (p, i) hi
      exact .of_eq_ok hq
  · have hok : parts.zipIdx.mapM (fun (p, i) =>
        assertPathPart p (js "parts[" ++ decimal i ++ js "]")) = .ok (parts.zipIdx.map Prod.fst) :=
      Traversal.mapM_eq_ok_map fun e he =>
        assertPathPart_eq_ok (hall e.1 (List.fst_mem_of_mem_zipIdx he))
    exact ⟨_, by rw [hok]⟩

/-! ## Keys of a tenant -/

/-- Units that need no look make a segment. -/
theorem segment_of_units {part : JsString} (hne : part ≠ [])
    (hunits : ∀ c ∈ part, c ≠ unitOf '/' ∧ c ≠ unitOf '\\' ∧ c ≠ 0)
    (hdots : ¬ js ".." <:+: part) : Segment part where
  nonempty := hne
  no_slash h := (hunits _ h).1 rfl
  no_backslash h := (hunits _ h).2.1 rfl
  no_nul h := (hunits _ h).2.2 rfl
  no_dots := hdots

theorem no_dots_of_not_mem {part : JsString} (h : unitOf '.' ∉ part) : ¬ js ".." <:+: part :=
  fun hdots => h (hdots.subset (List.mem_cons_self ..))

/-- The units of a UUID. -/
theorem mem_of_isUuid {value : JsString} (h : isUuid value = true) :
    ∀ c ∈ value, IsHex c ∨ c = unitOf '-' := by
  intro c hc
  obtain ⟨i, hi⟩ := List.mem_iff_getElem?.mp hc
  simp only [isUuid, decide_eq_true_eq, List.all_eq_true] at h
  have hunit := h.2 (c, i) (List.mem_zipIdx_iff_getElem?.mpr hi)
  dsimp only at hunit
  split at hunit
  · exact .inr (of_decide_eq_true hunit)
  · exact .inl (of_decide_eq_true hunit)

theorem segment_of_hex {value : JsString} (hne : value ≠ [])
    (hunits : ∀ c ∈ value, IsHex c ∨ c = unitOf '-') : Segment value := by
  have hnot : ∀ d : CodeUnit, ¬ IsHex d → d ≠ unitOf '-' → d ∉ value := fun d hhex hdash hd =>
    (hunits d hd).elim hhex hdash
  refine segment_of_units hne (fun c hc => ⟨?_, ?_, ?_⟩) (no_dots_of_not_mem ?_)
  · rintro rfl
    exact hnot _ (by decide) (by decide) hc
  · rintro rfl
    exact hnot _ (by decide) (by decide) hc
  · rintro rfl
    exact hnot _ (by decide) (by decide) hc
  · exact hnot _ (by decide) (by decide)

theorem segment_of_isUuid {value : JsString} (h : isUuid value = true) : Segment value := by
  refine segment_of_hex ?_ (mem_of_isUuid h)
  rintro rfl
  exact absurd h (by decide)

theorem segment_of_isDerivativeType {part : JsString} (h : isDerivativeType part = true) :
    Segment part := by
  rcases part with _ | ⟨d, part⟩
  · exact absurd h (by decide)
  have hunits : ∀ c ∈ d :: part, isTypeUnit c = true ∨ c = unitOf '_' ∨ c = unitOf '-' := by
    simp only [isDerivativeType, decide_eq_true_eq, List.all_eq_true] at h
    intro c hc
    rcases List.mem_cons.mp hc with rfl | hc
    · exact .inl h.1
    · exact h.2.2 c hc
  have hnot : ∀ e : CodeUnit, isTypeUnit e = false → e ≠ unitOf '_' → e ≠ unitOf '-' →
      e ∉ d :: part := by
    intro e htype hline hdash he
    rcases hunits e he with h | h | h
    · exact absurd h (by rw [htype]; decide)
    · exact hline h
    · exact hdash h
  refine segment_of_units (List.cons_ne_nil _ _) (fun c hc => ⟨?_, ?_, ?_⟩)
    (no_dots_of_not_mem ?_)
  · rintro rfl
    exact hnot _ (by decide) (by decide) (by decide) hc
  · rintro rfl
    exact hnot _ (by decide) (by decide) (by decide) hc
  · rintro rfl
    exact hnot _ (by decide) (by decide) (by decide) hc
  · exact hnot _ (by decide) (by decide) (by decide)

theorem segment_literal {N : Type} [VersionNumber N] (version : N) :
    Segment (JsNumber.literal version) := by
  have hunits := JsNumber.literal_units version
  refine segment_of_units (JsNumber.literal_ne_nil version) (fun c hc => ⟨?_, ?_, ?_⟩)
    (VersionNumber.single_point version)
  · rintro rfl
    exact absurd (hunits _ hc) (by decide)
  · rintro rfl
    exact absurd (hunits _ hc) (by decide)
  · rintro rfl
    exact absurd (hunits _ hc) (by decide)

/-- What `assertKeyInTenant` lets through. -/
theorem assertKeyInTenant_eq_ok {tenantId key : JsString} :
    assertKeyInTenant tenantId key = .ok () ↔
      isUuid tenantId = true ∧ key ≠ [] ∧
        startsWith key (joinWith (js "/") [js "tenants", tenantId, []]) = true ∧
          ¬ js ".." <:+: key ∧ ¬ js "//" <:+: key ∧ unitOf '\\' ∉ key ∧ (0 : CodeUnit) ∉ key := by
  unfold assertKeyInTenant assertUuid
  by_cases huuid : isUuid tenantId = true
  swap
  · rw [if_neg huuid]
    exact iff_of_false (fun h => nomatch h) (fun h => huuid h.1)
  rw [if_pos huuid]
  simp only [bind, Except.bind, pure, Except.pure, throw, throwThe, MonadExceptOf.throw]
  split
  · exact iff_of_false (fun h => nomatch h) (fun h => h.2.1 ‹_›)
  split
  · exact iff_of_false (fun h => nomatch h) (fun h => ‹¬ _› h.2.2.1)
  split
  · exact iff_of_false (fun h => nomatch h) (fun h => h.2.2.2.1 ‹_›)
  split
  · exact iff_of_false (fun h => nomatch h) (fun h => h.2.2.2.2.1 ‹_›)
  split
  · exact iff_of_false (fun h => nomatch h) (fun h => h.2.2.2.2.2.1 ‹_›)
  split
  · exact iff_of_false (fun h => nomatch h) (fun h => h.2.2.2.2.2.2 ‹_›)
  · exact iff_of_true rfl ⟨huuid, ‹_›, not_not.mp ‹_›, ‹_›, ‹_›, ‹_›, ‹_›⟩

section TenantKey

variable {tenantId name : JsString} {parts : List JsString}

/-- A key is in the tenant whose segment it has, and in no other. -/
theorem assertKeyInTenant_tenantKey (htenant : isUuid tenantId = true) (hname : Segment name)
    (hparts : ∀ p ∈ parts, Segment p) (other : JsString) :
    assertKeyInTenant other (tenantKey tenantId name parts) = .ok () ↔ other = tenantId := by
  have hsegments : ∀ p ∈ js "tenants" :: tenantId :: name :: parts, Segment p := by
    intro p hp
    rcases List.mem_cons.mp hp with rfl | hp
    · exact ⟨by decide, by decide, by decide, by decide, by decide⟩
    rcases List.mem_cons.mp hp with rfl | hp
    · exact segment_of_isUuid htenant
    rcases List.mem_cons.mp hp with rfl | hp
    · exact hname
    · exact hparts p hp
  have hkey : tenantKey tenantId name parts =
      js "tenants/" ++ (tenantId ++ unitOf '/' :: joinWith (js "/") (name :: parts)) := by
    rw [tenantKey, joinWith_cons_cons, joinWith_cons_cons]
    rfl
  have hstart : joinWith (js "/") [js "tenants", other, []] =
      js "tenants/" ++ (other ++ [unitOf '/']) := by
    rw [joinWith_cons_cons, joinWith_cons_cons]
    rfl
  rw [assertKeyInTenant_eq_ok]
  refine ⟨?_, ?_⟩
  · rintro ⟨hother, -, hprefix, -⟩
    rw [startsWith, List.isPrefixOf_iff_prefix, hkey, hstart,
      List.prefix_append_right_inj] at hprefix
    obtain ⟨rest, hrest⟩ := hprefix
    rw [List.append_assoc, List.singleton_append] at hrest
    exact (PrefixCode.first_inj (segment_of_isUuid hother).no_slash
      (segment_of_isUuid htenant).no_slash hrest).1
  · rintro rfl
    have hunit : ∀ c : CodeUnit, c ≠ unitOf '/' →
        (∀ p ∈ js "tenants" :: other :: name :: parts, c ∉ p) → c ∉ tenantKey other name parts := by
      intro c hslash hc hmem
      have hparts : c ∈ js "/" ∨ ∃ p ∈ js "tenants" :: other :: name :: parts, c ∈ p :=
        Split.mem_of_mem_join hmem
      rcases hparts with h | ⟨p, hp, h⟩
      · exact hslash (List.mem_singleton.mp h)
      · exact hc p hp h
    refine ⟨htenant, ?_, ?_, ?_, not_slashes_infix_joinWith hsegments, ?_, ?_⟩
    · rw [hkey]
      exact List.append_ne_nil_of_left_ne_nil (by decide) _
    · rw [startsWith, List.isPrefixOf_iff_prefix, hkey, hstart, List.prefix_append_right_inj,
        List.prefix_append_right_inj]
      exact List.cons_prefix_cons.mpr ⟨rfl, List.nil_prefix⟩
    · exact not_pair_infix_joinWith (by decide) (by decide) fun p hp => (hsegments p hp).no_dots
    · exact hunit _ (by decide) fun p hp => (hsegments p hp).no_backslash
    · exact hunit _ (by decide) fun p hp => (hsegments p hp).no_nul

/-- The class of a key is named by its third segment. -/
theorem keyClass_tenantKey (htenant : isUuid tenantId = true) (hname : Segment name)
    (hparts : ∀ p ∈ parts, Segment p) (hne : parts ≠ []) :
    keyClass (tenantKey tenantId name parts) =
      if name = js "originals" then .original
      else if name = js "derivatives" then .derivative
      else if name = js "manifests" then .manifest
      else if name = js "productions" then .production
      else if name = js "exports" then .export_
      else if name = js "staging" then .staging
      else if name = js "quarantine" then .quarantine
      else .unknown := by
  have hsplit : (tenantKey tenantId name parts).splitOn (unitOf '/') =
      js "tenants" :: tenantId :: name :: parts := by
    refine splitOn_joinWith _ (List.cons_ne_nil _ _) ?_
    intro p hp
    rcases List.mem_cons.mp hp with rfl | hp
    · decide
    rcases List.mem_cons.mp hp with rfl | hp
    · exact (segment_of_isUuid htenant).no_slash
    rcases List.mem_cons.mp hp with rfl | hp
    · exact hname.no_slash
    · exact (hparts p hp).no_slash
  obtain ⟨part, rest, rfl⟩ := List.exists_cons_of_ne_nil hne
  rw [keyClass, hsplit]
  dsimp only
  rw [if_neg (not_not.mpr rfl), if_neg (not_not.mpr htenant)]

end TenantKey

/-! ## Trimming -/

/-- No whitespace at either end. -/
def Trimmed (s : JsString) : Prop :=
  (∀ c ∈ s.head?, isSpace c = false) ∧ ∀ c ∈ s.getLast?, isSpace c = false

theorem isInfix_trim (s : JsString) : trim s <:+: s :=
  (List.rdropWhile_prefix isSpace (s.dropWhile isSpace)).isInfix.trans
    (List.dropWhile_suffix isSpace).isInfix

theorem trimmed_trim (s : JsString) : Trimmed (trim s) := by
  refine ⟨?_, ?_⟩
  · intro c hc
    have hprefix : trim s <+: s.dropWhile isSpace := List.rdropWhile_prefix isSpace _
    have hhead : (s.dropWhile isSpace).head? = some c := by
      obtain ⟨rest, hrest⟩ := hprefix
      rw [← hrest, List.head?_append, Option.mem_def.mp hc]
      rfl
    have hnot := List.head?_dropWhile_not isSpace s
    rw [hhead] at hnot
    simpa using hnot
  · intro c hc
    have hlast : (((s.dropWhile isSpace).reverse.dropWhile isSpace)).head? = some c := by
      have := Option.mem_def.mp hc
      rwa [trim, List.getLast?_reverse] at this
    have hnot := List.head?_dropWhile_not isSpace (s.dropWhile isSpace).reverse
    rw [hlast] at hnot
    simpa using hnot

theorem trim_eq_self {s : JsString} (h : Trimmed s) : trim s = s := by
  have hdrop : ∀ t : JsString, (∀ c ∈ t.head?, isSpace c = false) → t.dropWhile isSpace = t := by
    intro t ht
    rcases t with _ | ⟨c, t⟩
    · rfl
    · rw [List.dropWhile_cons_of_neg (by rw [ht c rfl]; decide)]
  rw [trim, hdrop s h.1, hdrop, List.reverse_reverse]
  intro c hc
  exact h.2 c (by rwa [List.head?_reverse] at hc)

/-! ## Dots -/

theorem head?_collapseDots (s : JsString) : (collapseDots s).head? = s.head? := by
  fun_induction collapseDots s with
  | case1 rest ih => exact ih
  | case2 c rest _ _ => rfl
  | case3 => rfl

theorem mem_of_mem_collapseDots {s : JsString} {c : CodeUnit} (h : c ∈ collapseDots s) : c ∈ s := by
  fun_induction collapseDots s with
  | case1 rest ih => exact .tail _ (ih h)
  | case2 d rest _ ih =>
    rcases List.mem_cons.mp h with rfl | h
    · exact List.mem_cons_self ..
    · exact .tail _ (ih h)
  | case3 => exact h

theorem length_collapseDots_le (s : JsString) : (collapseDots s).length ≤ s.length := by
  fun_induction collapseDots s with
  | case1 rest ih => exact ih.trans (Nat.le_succ _)
  | case2 d rest _ ih => exact Nat.succ_le_succ ih
  | case3 => exact le_rfl

theorem no_dots_collapseDots (s : JsString) : ¬ js ".." <:+: collapseDots s := by
  fun_induction collapseDots s with
  | case1 rest ih => exact ih
  | case2 c rest hrun ih =>
    rw [List.infix_cons_iff]
    rintro (hstart | hinside)
    · obtain ⟨hc, tail, htail⟩ := List.cons_prefix_cons.mp hstart
      have hhead : rest.head? = some 0x2E := by
        rw [← head?_collapseDots, ← htail]
        rfl
      obtain ⟨more, rfl⟩ := List.head?_eq_some_iff.mp hhead
      exact hrun more hc.symm rfl
    · exact ih hinside
  | case3 => decide

theorem collapseDots_eq_self {s : JsString} (h : ¬ js ".." <:+: s) : collapseDots s = s := by
  fun_induction collapseDots s with
  | case1 rest ih => exact absurd ⟨[], rest, rfl⟩ h
  | case2 c rest _ ih =>
    rw [ih fun hrest => h (hrest.trans (List.suffix_cons c rest).isInfix)]
  | case3 => rfl

/-! ## File names -/

/-- What a file name may be as the last segment of a key. -/
structure SafeName (name : JsString) : Prop where
  nonempty : name ≠ []
  length_le : name.length ≤ 255
  no_control : ∀ c ∈ name, ¬ IsControl c
  no_slash : unitOf '/' ∉ name
  no_backslash : unitOf '\\' ∉ name
  no_dots : ¬ js ".." <:+: name
  no_leading_dot : name.head? ≠ some (unitOf '.')

theorem SafeName.segment {name : JsString} (h : SafeName name) : Segment name where
  nonempty := h.nonempty
  no_slash := h.no_slash
  no_backslash := h.no_backslash
  no_nul hnul := h.no_control _ hnul (by decide)
  no_dots := h.no_dots

/-- A unit that is not stripped. -/
def Kept (c : CodeUnit) : Prop := ¬ IsControl c ∧ c ≠ unitOf '/' ∧ c ≠ unitOf '\\'

section Strip

variable {filename name : JsString}

theorem isInfix_strip (filename : JsString) : stripFilename filename <:+: collapseDots
    ((filename.filter fun c => ¬ (c ≤ 0x1F ∨ c = 0x7F)).filter fun c =>
      c ≠ unitOf '/' ∧ c ≠ unitOf '\\') :=
  (isInfix_trim _).trans (List.dropWhile_suffix _).isInfix

theorem kept_of_mem_stripFilename {c : CodeUnit} (h : c ∈ stripFilename filename) : Kept c := by
  have hmem := mem_of_mem_collapseDots ((isInfix_strip filename).subset h)
  have hslash := List.mem_filter.mp hmem
  have hcontrol := List.mem_filter.mp hslash.1
  exact ⟨of_decide_eq_true hcontrol.2, of_decide_eq_true hslash.2⟩

theorem no_dots_stripFilename : ¬ js ".." <:+: stripFilename filename :=
  fun h => no_dots_collapseDots _ (h.trans (isInfix_strip filename))

theorem trimmed_stripFilename : Trimmed (stripFilename filename) := trimmed_trim _

theorem length_stripFilename_le : (stripFilename filename).length ≤ filename.length :=
  (isInfix_strip filename).length_le.trans ((length_collapseDots_le _).trans
    ((List.length_filter_le _ _).trans (List.length_filter_le _ _)))

/-- A name that has nothing to be stripped is left alone. -/
theorem stripFilename_eq_self (hkept : ∀ c ∈ name, Kept c) (hdots : ¬ js ".." <:+: name)
    (hhead : name.head? ≠ some (unitOf '.')) (htrimmed : Trimmed name) :
    stripFilename name = name := by
  have hcontrol : (name.filter fun c => ¬ (c ≤ 0x1F ∨ c = 0x7F)) = name :=
    List.filter_eq_self.mpr fun c hc => decide_eq_true (hkept c hc).1
  have hslash : (name.filter fun c => c ≠ unitOf '/' ∧ c ≠ unitOf '\\') = name :=
    List.filter_eq_self.mpr fun c hc => decide_eq_true (hkept c hc).2
  have hdrop : (name.dropWhile fun c => c = unitOf '.') = name := by
    rcases name with _ | ⟨c, name⟩
    · rfl
    · refine List.dropWhile_cons_of_neg ?_
      intro hc
      exact hhead (congrArg some (of_decide_eq_true hc))
  rw [stripFilename, hcontrol, hslash, collapseDots_eq_self hdots, hdrop, trim_eq_self htrimmed]

end Strip

/-- The extension is what stands from the last dot on, unless that is the first unit. -/
theorem extensionOf_cases (name : JsString) :
    extensionOf name = [] ∨ ∃ stem after, name = stem ++ unitOf '.' :: after ∧ stem ≠ [] ∧
      unitOf '.' ∉ after ∧ extensionOf name = unitOf '.' :: after := by
  rw [extensionOf]
  split
  swap
  · exact .inl rfl
  · rename_i hlength
    rw [List.length_reverse] at hlength
    have hsplit := List.takeWhile_append_dropWhile
      (p := fun c => decide (c ≠ unitOf '.')) (l := name.reverse)
    obtain ⟨c, rest, hrest⟩ : ∃ c rest, (name.reverse.dropWhile fun c => c ≠ unitOf '.') =
        c :: rest := by
      refine List.exists_cons_of_ne_nil fun hnil => ?_
      rw [hnil, List.append_nil] at hsplit
      rw [hsplit, List.length_reverse] at hlength
      omega
    obtain rfl : c = unitOf '.' := by
      have hnot := List.head?_dropWhile_not (fun c => decide (c ≠ unitOf '.')) name.reverse
      rw [hrest] at hnot
      simpa using hnot
    have hname : name = rest.reverse ++ unitOf '.' ::
        (name.reverse.takeWhile fun c => c ≠ unitOf '.').reverse := by
      have := congrArg List.reverse hsplit
      rw [hrest, List.reverse_append, List.reverse_reverse, List.reverse_cons,
        List.append_assoc] at this
      exact this.symm
    refine .inr ⟨rest.reverse, _, hname, ?_, ?_, rfl⟩
    · intro hnil
      have hlen := congrArg List.length hname
      rw [hnil, List.nil_append, List.length_cons, List.length_reverse] at hlen
      omega
    · intro hmem
      have := List.mem_takeWhile_imp (List.mem_reverse.mp hmem)
      simp at this

/-! ## The dot at the beginning -/

instance (c : CodeUnit) : Decidable (Kept c) := inferInstanceAs (Decidable (_ ∧ _))

/-- A file name without what is stripped wherever it stands. -/
def visible (filename : JsString) : JsString := filename.filter fun c => Kept c

/-- What follows the dots at the beginning and the whitespace behind them. -/
def behindLead (filename : JsString) : JsString :=
  ((visible filename).dropWhile fun c => c = unitOf '.').dropWhile isSpace

/-- Collapsing dots keeps what follows units that are dropped at the beginning, whether these are
all dots or none. -/
theorem dropWhile_collapseDots (p : CodeUnit → Bool) (s : JsString) :
    (collapseDots s).dropWhile p = collapseDots (s.dropWhile p) := by
  fun_induction collapseDots s with
  | case1 rest ih =>
    rw [ih]
    by_cases hdot : p 0x2E = true
    · rw [List.dropWhile_cons_of_pos hdot, List.dropWhile_cons_of_pos hdot,
        List.dropWhile_cons_of_pos hdot]
    · rw [List.dropWhile_cons_of_neg hdot, List.dropWhile_cons_of_neg hdot, collapseDots]
  | case2 c rest hrun ih =>
    by_cases hc : p c = true
    · rw [List.dropWhile_cons_of_pos hc, List.dropWhile_cons_of_pos hc, ih]
    · rw [List.dropWhile_cons_of_neg hc, List.dropWhile_cons_of_neg hc, collapseDots]
      exact hrun
  | case3 => rfl

theorem stripFilename_eq (filename : JsString) :
    stripFilename filename =
      (collapseDots (behindLead filename)).rdropWhile isSpace := by
  have hvisible : ((filename.filter fun c => ¬ (c ≤ 0x1F ∨ c = 0x7F)).filter fun c =>
      c ≠ unitOf '/' ∧ c ≠ unitOf '\\') = visible filename := by
    rw [List.filter_filter, visible]
    refine List.filter_congr fun c _ => ?_
    rw [← Bool.decide_and]
    exact decide_eq_decide.mpr and_comm
  rw [stripFilename, hvisible, trim, behindLead, ← dropWhile_collapseDots, ←
    dropWhile_collapseDots]
  rfl

/-- A name keeps a dot at its beginning if one follows the whitespace. -/
theorem head?_stripFilename_eq_dot (filename : JsString) :
    (stripFilename filename).head? = some (unitOf '.') ↔
      (behindLead filename).head? = some (unitOf '.') := by
  rw [stripFilename_eq, ← head?_collapseDots (behindLead filename)]
  generalize collapseDots (behindLead filename) = s
  refine ⟨?_, ?_⟩
  · intro h
    obtain ⟨rest, hrest⟩ := List.rdropWhile_prefix isSpace s
    rw [← hrest, List.head?_append, h]
    rfl
  · intro h
    obtain ⟨rest, rfl⟩ := List.head?_eq_some_iff.mp h
    rcases hs : (unitOf '.' :: rest).rdropWhile isSpace with _ | ⟨c, name⟩
    · have := List.rdropWhile_eq_nil_iff.mp hs (unitOf '.') (List.mem_cons_self ..)
      exact absurd this (by decide)
    · obtain ⟨more, hmore⟩ := List.rdropWhile_prefix isSpace (unitOf '.' :: rest)
      rw [hs, List.cons_append] at hmore
      exact congrArg some (List.cons.inj hmore).1

/-! ## Careful file names -/

/-- **When a file name is treated well.** -/
structure Careful (filename : JsString) : Prop where
  /-- behind the dots at the beginning and whitespace comes no other dot -/
  lead : (behindLead filename).head? ≠ some (unitOf '.')
  /-- a name that is too long is not cut off behind whitespace, if it has no extension; if it has
  one, something is left to put in front of it that does not end with a dot -/
  cut : 255 < (stripFilename filename).length →
    if extensionOf (stripFilename filename) = [] then
      ∀ c ∈ (stripFilename filename)[254]?, isSpace c = false
    else (extensionOf (stripFilename filename)).length < 255 ∧
      (stripFilename filename)[254 - (extensionOf (stripFilename filename)).length]? ≠
        some (unitOf '.')

section Careful

variable {filename name : JsString}

theorem safeName_of_kept (hne : name ≠ []) (hlength : name.length ≤ 255)
    (hkept : ∀ c ∈ name, Kept c) (hdots : ¬ js ".." <:+: name)
    (hhead : name.head? ≠ some (unitOf '.')) : SafeName name where
  nonempty := hne
  length_le := hlength
  no_control c hc := (hkept c hc).1
  no_slash h := (hkept _ h).2.1 rfl
  no_backslash h := (hkept _ h).2.2 rfl
  no_dots := hdots
  no_leading_dot := hhead

theorem SafeName.kept (h : SafeName name) : ∀ c ∈ name, Kept c := fun c hc =>
  ⟨h.no_control c hc, fun heq => h.no_slash (heq ▸ hc), fun heq => h.no_backslash (heq ▸ hc)⟩

/-- A safe name that begins and ends with something else than whitespace is left alone. -/
theorem sanitizeFilename_eq_self (h : SafeName name) (htrimmed : Trimmed name) :
    sanitizeFilename name = name := by
  rw [sanitizeFilename, stripFilename_eq_self h.kept h.no_dots h.no_leading_dot htrimmed]
  rw [if_neg h.nonempty, if_neg (Nat.not_lt.mpr h.length_le)]

/-- What is left alone has no whitespace at its ends. -/
theorem trimmed_of_sanitizeFilename_eq_self (hlength : name.length ≤ 255)
    (h : sanitizeFilename name = name) : Trimmed name := by
  rw [sanitizeFilename] at h
  split at h
  · rw [← h]
    refine ⟨fun c hc => ?_, fun c hc => ?_⟩
    · obtain rfl : unitOf 'f' = c := Option.some.inj hc
      decide
    · obtain rfl : unitOf 'e' = c := Option.some.inj hc
      decide
  · rw [if_neg (Nat.not_lt.mpr (length_stripFilename_le.trans hlength))] at h
    exact h ▸ trimmed_stripFilename

/-- A safe name stays the same if sanitized again exactly if it has no whitespace at its ends. -/
theorem SafeName.fixed_iff (h : SafeName name) : sanitizeFilename name = name ↔ Trimmed name :=
  ⟨trimmed_of_sanitizeFilename_eq_self h.length_le, sanitizeFilename_eq_self h⟩

/-- The unit a list that is cut off ends with. -/
theorem getLast?_take {s : JsString} {n : ℕ} (hn : n < s.length) :
    (s.take (n + 1)).getLast? = s[n]? := by
  rw [List.getLast?_eq_getElem?, List.length_take, Nat.min_eq_left hn, Nat.succ_sub_one,
    List.getElem?_take_of_lt (Nat.lt_succ_self n)]

theorem head?_take_succ (s : JsString) (n : ℕ) : (s.take (n + 1)).head? = s.head? := by
  cases s <;> rfl

/-- A name without an extension is cut off at 255 units. -/
theorem truncated_iff_of_no_extension (hkept : ∀ c ∈ name, Kept c) (hdots : ¬ js ".." <:+: name)
    (htrimmed : Trimmed name) (hlong : 255 < name.length) :
    (SafeName (name.take 255) ∧ sanitizeFilename (name.take 255) = name.take 255) ↔
      name.head? ≠ some (unitOf '.') ∧ ∀ c ∈ name[254]?, isSpace c = false := by
  have hhead : (name.take 255).head? = name.head? := head?_take_succ name 254
  have hlast : (name.take 255).getLast? = name[254]? := getLast?_take (by omega)
  have hne : name.take 255 ≠ [] := by
    intro hnil
    have := congrArg List.length hnil
    rw [List.length_take, List.length_nil] at this
    omega
  have hsafe : name.head? ≠ some (unitOf '.') → SafeName (name.take 255) := fun h =>
    safeName_of_kept hne (List.length_take_le ..) (fun c hc => hkept c (List.mem_of_mem_take hc))
      (fun hd => hdots (hd.trans (List.take_prefix ..).isInfix)) (hhead ▸ h)
  refine ⟨?_, ?_⟩
  · rintro ⟨h, hfixed⟩
    refine ⟨hhead ▸ h.no_leading_dot, ?_⟩
    rw [← hlast]
    exact (h.fixed_iff.mp hfixed).2
  · rintro ⟨hdot, hspace⟩
    refine ⟨hsafe hdot, (hsafe hdot).fixed_iff.mpr ⟨?_, ?_⟩⟩
    · rw [hhead]
      exact htrimmed.1
    · rw [hlast]
      exact hspace

/-- Two dots come together in front of an extension only if a dot stands right before it. -/
theorem dots_infix_append_extension {stem after : JsString} (hstem : ¬ js ".." <:+: stem)
    (hafter : unitOf '.' ∉ after) :
    js ".." <:+: stem ++ unitOf '.' :: after ↔ stem.getLast? = some (unitOf '.') := by
  refine ⟨?_, ?_⟩
  · intro h
    induction stem with
    | nil =>
      exfalso
      rcases List.infix_cons_iff.mp h with hstart | hinside
      · obtain ⟨-, rest, hrest⟩ := List.cons_prefix_cons.mp hstart
        exact hafter (hrest ▸ List.mem_cons_self ..)
      · exact hafter (hinside.subset (List.mem_cons_self ..))
    | cons c stem ih =>
      rcases stem with _ | ⟨d, stem⟩
      · rcases List.infix_cons_iff.mp h with hstart | hinside
        · exact congrArg some (List.cons_prefix_cons.mp hstart).1.symm
        · exact absurd (ih (fun h => hstem (h.trans (List.suffix_cons _ _).isInfix)) hinside)
            (by simp)
      · rcases List.infix_cons_iff.mp h with hstart | hinside
        · obtain ⟨hc, hrest⟩ := List.cons_prefix_cons.mp hstart
          obtain ⟨hd, -⟩ := List.cons_prefix_cons.mp hrest
          refine absurd ?_ hstem
          rw [← hc, ← hd]
          exact ⟨[], stem, rfl⟩
        · rw [List.getLast?_cons_cons]
          exact ih (fun h => hstem (h.trans (List.suffix_cons _ _).isInfix)) hinside
  · intro h
    obtain ⟨front, rfl⟩ := List.getLast?_eq_some_iff.mp h
    exact ⟨front, after, by rw [List.append_assoc, List.append_assoc]; rfl⟩

/-- A name with an extension is cut off in front of it. -/
theorem truncated_iff_of_extension {stem after : JsString} (hstem : stem ≠ [])
    (hafter : unitOf '.' ∉ after) (hname : name = stem ++ unitOf '.' :: after)
    (hext : extensionOf name = unitOf '.' :: after) (hkept : ∀ c ∈ name, Kept c)
    (hdots : ¬ js ".." <:+: name) (htrimmed : Trimmed name) (hlong : 255 < name.length) :
    (SafeName (truncateFilename name) ∧
        sanitizeFilename (truncateFilename name) = truncateFilename name) ↔
      name.head? ≠ some (unitOf '.') ∧ (extensionOf name).length < 255 ∧
        name[254 - (extensionOf name).length]? ≠ some (unitOf '.') := by
  have hlength : name.length = stem.length + (extensionOf name).length := by
    rw [hext, hname, List.length_append]
  have hpos : 0 < (extensionOf name).length := by
    rw [hext]
    exact Nat.succ_pos _
  rw [truncateFilename]
  generalize hk : (extensionOf name).length = k at hlength hpos ⊢
  rcases Nat.lt_trichotomy k 255 with hlt | rfl | hgt
  · -- something of the stem is left
    obtain ⟨n, hn⟩ : ∃ n, 255 - k = n + 1 := ⟨254 - k, by omega⟩
    have hnstem : n < stem.length := by omega
    have htake : name.take (255 - k) = stem.take (n + 1) := by
      rw [hn, hname, List.take_append_of_le_length hnstem]
    have hcut : name[254 - k]? = (stem.take (n + 1)).getLast? := by
      rw [getLast?_take hnstem, hname, show 254 - k = n by omega,
        List.getElem?_append_left hnstem]
    have hhead : (stem.take (n + 1) ++ extensionOf name).head? = name.head? := by
      rw [List.head?_append, head?_take_succ, hname, List.head?_append]
      obtain ⟨c, stem, rfl⟩ := List.exists_cons_of_ne_nil hstem
      rfl
    have hlast : (stem.take (n + 1) ++ extensionOf name).getLast? = name.getLast? := by
      rw [hext, hname, List.getLast?_append_of_ne_nil _ (List.cons_ne_nil _ _),
        List.getLast?_append_of_ne_nil _ (List.cons_ne_nil _ _)]
    have hsub : ∀ c ∈ stem.take (n + 1) ++ extensionOf name, Kept c := by
      intro c hc
      refine hkept c ?_
      rw [hname]
      rcases List.mem_append.mp hc with hc | hc
      · exact List.mem_append_left _ (List.mem_of_mem_take hc)
      · exact List.mem_append_right _ (hext ▸ hc)
    have hrun : js ".." <:+: stem.take (n + 1) ++ extensionOf name ↔
        name[254 - k]? = some (unitOf '.') := by
      rw [hext, hcut]
      refine dots_infix_append_extension (fun h => hdots ?_) hafter
      rw [hname]
      exact (h.trans (List.take_prefix ..).isInfix).trans (List.prefix_append _ _).isInfix
    have hfull : (stem.take (n + 1) ++ extensionOf name).length = 255 := by
      rw [List.length_append, List.length_take, Nat.min_eq_left hnstem, hk]
      omega
    have htrim : Trimmed (stem.take (n + 1) ++ extensionOf name) := by
      rw [Trimmed, hhead, hlast]
      exact htrimmed
    rw [if_pos hlt.le, htake]
    refine ⟨fun h => ⟨hhead ▸ h.1.no_leading_dot, hlt, fun hd => h.1.no_dots (hrun.mpr hd)⟩, ?_⟩
    rintro ⟨hdot, -, hd⟩
    have hsafe := safeName_of_kept (List.append_ne_nil_of_right_ne_nil _ (by
      rw [hext]; exact List.cons_ne_nil _ _)) hfull.le hsub (fun h => hd (hrun.mp h)) (hhead ▸ hdot)
    exact ⟨hsafe, hsafe.fixed_iff.mpr htrim⟩
  · -- only the extension is left
    refine iff_of_false ?_ (fun h => absurd h.2.1 (lt_irrefl 255))
    rintro ⟨h, -⟩
    rw [if_pos le_rfl, Nat.sub_self, List.take_zero, List.nil_append, hext] at h
    exact h.no_leading_dot rfl
  · -- a negative number of units is counted from the end
    refine iff_of_false ?_ (fun h => absurd h.2.1 (by omega))
    rintro ⟨h, -⟩
    have hle := h.length_le
    rw [if_neg (by omega), List.length_append, List.length_take, hk] at hle
    omega

/-- A file name of which something is left, and not too much, is only stripped. -/
theorem stripped_iff (hne : stripFilename filename ≠ [])
    (hlength : (stripFilename filename).length ≤ 255) :
    (SafeName (stripFilename filename) ∧
        sanitizeFilename (stripFilename filename) = stripFilename filename) ↔
      (stripFilename filename).head? ≠ some (unitOf '.') := by
  refine ⟨fun h => h.1.no_leading_dot, fun h => ?_⟩
  have hsafe := safeName_of_kept hne hlength (fun _ => kept_of_mem_stripFilename)
    no_dots_stripFilename h
  exact ⟨hsafe, hsafe.fixed_iff.mpr trimmed_stripFilename⟩

/-- **Sanitized names.** What `sanitizeFilename` returns is safe and stays the same if sanitized
again exactly for careful file names. -/
theorem sanitized_iff (filename : JsString) :
    (SafeName (sanitizeFilename filename) ∧
        sanitizeFilename (sanitizeFilename filename) = sanitizeFilename filename) ↔
      Careful filename := by
  have hcareful : Careful filename ↔ (stripFilename filename).head? ≠ some (unitOf '.') ∧
      (255 < (stripFilename filename).length →
        if extensionOf (stripFilename filename) = [] then
          ∀ c ∈ (stripFilename filename)[254]?, isSpace c = false
        else (extensionOf (stripFilename filename)).length < 255 ∧
          (stripFilename filename)[254 - (extensionOf (stripFilename filename)).length]? ≠
            some (unitOf '.')) := by
    rw [ne_eq, head?_stripFilename_eq_dot]
    exact ⟨fun h => ⟨h.lead, h.cut⟩, fun h => ⟨h.1, h.2⟩⟩
  rw [hcareful]
  have hkept : ∀ c ∈ stripFilename filename, Kept c := fun _ => kept_of_mem_stripFilename
  have hdots : ¬ js ".." <:+: stripFilename filename := no_dots_stripFilename
  have htrimmed : Trimmed (stripFilename filename) := trimmed_stripFilename
  rcases Nat.lt_or_ge 255 (stripFilename filename).length with hlong | hshort
  · have hne : stripFilename filename ≠ [] := by
      intro hnil
      rw [hnil] at hlong
      exact Nat.not_lt_zero _ hlong
    have hresult : sanitizeFilename filename = truncateFilename (stripFilename filename) := by
      rw [sanitizeFilename, if_neg hne, if_pos hlong]
    rw [hresult]
    rcases extensionOf_cases (stripFilename filename) with
      hext | ⟨stem, after, hname, hstem, hafter, hext⟩
    · have htake :
          truncateFilename (stripFilename filename) = (stripFilename filename).take 255 := by
        rw [truncateFilename, hext, List.length_nil, if_pos (by omega), List.append_nil]
      rw [htake, truncated_iff_of_no_extension hkept hdots htrimmed hlong, if_pos hext]
      exact and_congr_right fun _ => ⟨fun h _ => h, fun h => h hlong⟩
    · rw [truncated_iff_of_extension hstem hafter hname hext hkept hdots htrimmed hlong,
        if_neg (by rw [hext]; exact List.cons_ne_nil _ _)]
      exact and_congr_right fun _ => ⟨fun h _ => h, fun h => h hlong⟩
  · by_cases hne : stripFilename filename = []
    · have hresult : sanitizeFilename filename = js "file" := by
        rw [sanitizeFilename, if_pos hne]
      rw [hresult, hne]
      refine iff_of_true ⟨⟨by decide, by decide, ?_, by decide, by decide, by decide, by decide⟩,
        by decide⟩ ⟨by decide, fun h => absurd h (Nat.not_lt_zero _)⟩
      have hall : (js "file").all fun c => ¬ IsControl c := by decide
      exact fun c hc => of_decide_eq_true (List.all_eq_true.mp hall c hc)
    · have hresult : sanitizeFilename filename = stripFilename filename := by
        rw [sanitizeFilename, if_neg hne, if_neg (Nat.not_lt.mpr hshort)]
      rw [hresult, stripped_iff hne hshort]
      exact ⟨fun h => ⟨h, fun hlong => absurd hlong (Nat.not_lt.mpr hshort)⟩, fun h => h.1⟩

end Careful

/-! ## Keys of derivatives -/

/-- What is asked of a file name: the sanitized name is safe, sanitizing it again changes nothing,
and the key of a derivative with this name is in its tenant, in no other, and a derivative. -/
structure KeysValid (N : Type) [VersionNumber N] (filename : JsString) : Prop where
  safe : SafeName (sanitizeFilename filename)
  fixed : sanitizeFilename (sanitizeFilename filename) = sanitizeFilename filename
  key : ∀ (tenantId evidenceId derivativeType : JsString) (version : N),
    isUuid tenantId = true → isUuid evidenceId = true → isDerivativeType derivativeType = true →
    VersionNumber.isInteger version = true → VersionNumber.isNegative version = false →
    ∃ key, derivativeKey tenantId evidenceId derivativeType version filename = .ok key ∧
      (∀ other, assertKeyInTenant other key = .ok () ↔ other = tenantId) ∧
        keyClass key = .derivative

/-- **Derivative keys.** Names and keys are valid exactly for careful file names. -/
theorem keysValid_iff (N : Type) [VersionNumber N] (filename : JsString) :
    KeysValid N filename ↔ Careful filename := by
  refine ⟨fun h => (sanitized_iff filename).mp ⟨h.safe, h.fixed⟩, fun h => ?_⟩
  obtain ⟨hsafe, hfixed⟩ := (sanitized_iff filename).mpr h
  refine ⟨hsafe, hfixed, ?_⟩
  intro tenantId evidenceId derivativeType version htenant hevidence htype hinteger hnegative
  have hname : Segment (js "derivatives") :=
    ⟨by decide, by decide, by decide, by decide, by decide⟩
  have hparts : ∀ p ∈ [evidenceId, derivativeType, JsNumber.literal version,
      sanitizeFilename filename], Segment p := by
    intro p hp
    simp only [List.mem_cons, List.not_mem_nil, or_false] at hp
    rcases hp with rfl | rfl | rfl | rfl
    · exact segment_of_isUuid hevidence
    · exact segment_of_isDerivativeType htype
    · exact segment_literal version
    · exact hsafe.segment
  refine ⟨_, ?_, assertKeyInTenant_tenantKey htenant hname hparts, ?_⟩
  · rw [derivativeKey, assertUuid, assertUuid, if_pos htenant, if_pos hevidence, htype, hinteger,
      hnegative]
    rfl
  · rw [keyClass_tenantKey htenant hname hparts (List.cons_ne_nil _ _), if_neg (by decide),
      if_pos rfl]

instance : VersionNumber ℤ where
  isInteger _ := true
  isNegative n := n < 0
  single_point := by
    intro n h
    have hdot : unitOf '.' ∈ decimalInt n := h.subset (List.mem_cons_self ..)
    rcases n with n | n
    · exact absurd (isDigit_of_mem_decimal hdot) (by decide)
    · rcases List.mem_cons.mp hdot with heq | hdot
      · exact absurd heq (by decide)
      · exact absurd (isDigit_of_mem_decimal hdot) (by decide)

/-- A blank in front of a hidden name hides its dot from the one step, and is gone in the next. -/
theorem not_keysValid : ¬ KeysValid ℤ (js " .env") := by
  intro h
  exact h.safe.no_leading_dot (by decide)

end AegCloudDfir.Evidence.Keys
