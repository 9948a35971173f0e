import AegCloudDfir.Search.Compile

/-!
# What the validator accepts

`validateAst` accepts a query exactly when the query is no deeper and no larger than the
limits and every leaf of it has a field that resolves and a value that fits the field
(`Acceptable`). The walk of the validator collects violations on the way; `WalkSpec`
says what is true of its result at every node, and is carried through the query by
induction.
-/

namespace AegCloudDfir.Search

variable {Num : Type}

/-! ## Leaves -/

mutual

/-- The leaves of a query, from left to right. -/
def QueryNode.leaves : QueryNode → List QueryNode
  | .bool _ children => leavesOf children
  | .not child => child.leaves
  | .matchAll => []
  | leaf => [leaf]

/-- The leaves of several queries. -/
def leavesOf : List QueryNode → List QueryNode
  | [] => []
  | child :: children => child.leaves ++ leavesOf children

end

mutual

/-- The nesting depth of a query. -/
def QueryNode.height : QueryNode → ℕ
  | .bool _ children => heightOf children + 1
  | .not child => child.height + 1
  | _ => 1

/-- The greatest depth among several queries. -/
def heightOf : List QueryNode → ℕ
  | [] => 0
  | child :: children => max child.height (heightOf children)

end

/-- The field name of a leaf; `none` is the default field. -/
def QueryNode.fieldName : QueryNode → Option JsString
  | .term field _ _ => field
  | .phrase field _ _ => field
  | .wildcard field _ => field
  | .range field _ => some field
  | .exists field => some field
  | _ => none

mutual

/-- The leaves of a validated query, from left to right. -/
def ValidatedNode.leaves : ValidatedNode Num → List (ValidatedNode Num)
  | .bool _ children => validatedLeavesOf children
  | .not child => child.leaves
  | .matchAll => []
  | leaf => [leaf]

/-- The leaves of several validated queries. -/
def validatedLeavesOf : List (ValidatedNode Num) → List (ValidatedNode Num)
  | [] => []
  | child :: children => child.leaves ++ validatedLeavesOf children

end

/-- The field of a validated leaf. -/
def ValidatedNode.field? : ValidatedNode Num → Option ResolvedField
  | .term field _ _ => some field
  | .phrase field _ _ => some field
  | .wildcard field _ => some field
  | .range field _ => some field
  | .exists field => some field
  | _ => none

/-! ## Values that fit a field -/

section Fits

variable (rt : JsRuntime Num) (limits : CostLimits) (field : ResolvedField)

/-- A term fits a field. -/
structure TermFits (value : JsString) (fuzzy : Option ℕ) : Prop where
  nonempty : value.length ≠ 0
  fuzzy : ∀ edits ∈ fuzzy, ¬ isExactType field.type ∧ edits ≤ limits.maxFuzzyEdits
  date : field.type = some .date → (parseDateValue rt value).isSome
  size : field.type = some .size → (parseSizeValue rt value).isSome
  boolean : field.type = some .boolean →
    rt.lower value = js "true" ∨ rt.lower value = js "false"
  hash : ¬ isExactType field.type → field.name ∈ hashFieldNames → isHash (rt.lower value)

/-- A phrase fits a field. -/
structure PhraseFits (value : JsString) (proximity : Option ℕ) : Prop where
  nonempty : (trim value).length ≠ 0
  type : ¬ isExactType field.type
  terms : termCount (trim value) ≤ limits.maxPhraseTerms
  proximity : proximity.getD 0 ≤ limits.maxProximity

/-- A wildcard fits a field. -/
structure WildcardFits (value : JsString) : Prop where
  type : ¬ isExactType field.type
  literal : ∀ n ∈ firstWildcard value, n ≠ 0 ∧ limits.minWildcardPrefix ≤ n

/-- A bound of a range fits a field. -/
def BoundFits (bound : Option JsString) : Prop :=
  ∀ raw ∈ bound,
    if field.type = some .date then (parseDateValue rt raw).isSome
    else (parseSizeValue rt raw).isSome

/-- A range fits a field. -/
structure RangeFits (bounds : Bounds JsString) : Prop where
  type : field.type = some .date ∨ field.type = some .size
  bounded : ¬ (bounds.gte = none ∧ bounds.lte = none ∧ bounds.gt = none ∧ bounds.lt = none)
  gte : BoundFits rt field bounds.gte
  lte : BoundFits rt field bounds.lte
  gt : BoundFits rt field bounds.gt
  lt : BoundFits rt field bounds.lt

/-- The value of a leaf fits a field. -/
def QueryNode.Fits : QueryNode → Prop
  | .term _ value fuzzy => TermFits rt limits field value fuzzy
  | .phrase _ value proximity => PhraseFits limits field value proximity
  | .wildcard _ value => WildcardFits limits field value
  | .range _ bounds => RangeFits rt field bounds
  | .exists _ => ¬ (field.esPath = defaultTextField.esPath ∧ field.type = some .text)
  | _ => False

end Fits

section Registry

variable (rt : JsRuntime Num) (registry : FieldRegistry) (limits : CostLimits)

/-- A leaf names a field that resolves, and its value fits the field. -/
def QueryNode.LeafAcceptable (leaf : QueryNode) : Prop :=
  ∃ field, resolveField rt registry leaf.fieldName = .ok field ∧ leaf.Fits rt limits field

/-- A query within the limits whose leaves are acceptable. -/
structure Acceptable (node : QueryNode) : Prop where
  depth : node.height ≤ limits.maxDepth
  clauses : node.leaves.length ≤ limits.maxClauses
  leaves : ∀ leaf ∈ node.leaves, leaf.LeafAcceptable rt registry limits

/-- What the walk does at a leaf. -/
def checkLeaf : QueryNode → Checked (ValidatedNode Num)
  | .term field value fuzzy => validateTerm rt registry limits field value fuzzy
  | .phrase field value proximity => validatePhrase rt registry limits field value proximity
  | .wildcard field value => validateWildcard rt registry limits field value
  | .range field bounds => validateRange rt registry field bounds
  | .exists field => validateExists rt registry field
  | _ => .error []

/-- A validated leaf whose kind is allowed on its field. -/
def ValidatedNode.KindAllowed : ValidatedNode Num → Prop
  | .wildcard field _ => ¬ isExactType field.type
  | .range field _ => field.type = some .date ∨ field.type = some .size
  | .exists field => ¬ (field.esPath = defaultTextField.esPath ∧ field.type = some .text)
  | _ => True

/-- What is true of the check of a leaf. -/
structure LeafSpec (leaf : QueryNode) (checked : Checked (ValidatedNode Num)) : Prop where
  /-- it succeeds on acceptable leaves only, and keeps the field -/
  ok : ∀ v, checked = .ok v →
    leaf.LeafAcceptable rt registry limits ∧
      ∃ field, resolveField rt registry leaf.fieldName = .ok field ∧ v.field? = some field ∧
        v.leaves = [v] ∧ v.KindAllowed
  /-- it succeeds on every acceptable leaf -/
  complete : leaf.LeafAcceptable rt registry limits → ∃ v, checked = .ok v
  /-- it says why it fails -/
  error : ∀ violations, checked = .error violations → violations ≠ []

end Registry

/-! ## The checks of leaves -/

section Leaves

variable {rt : JsRuntime Num} {registry : FieldRegistry} {limits : CostLimits}

theorem resolveField_error {name : Option JsString} {violations : List JsString}
    (h : resolveField rt registry name = .error violations) : violations ≠ [] := by
  rcases name with _ | name
  · cases h
  · rw [resolveField] at h
    rcases hresolve : registry.resolve rt name with e | field
    · obtain ⟨message, rfl⟩ := FieldRegistry.resolve_error rt hresolve
      simp only [hresolve] at h
      cases h
      exact List.cons_ne_nil _ _
    · simp only [hresolve] at h
      cases h

/-- A leaf whose field does not resolve. -/
theorem leafSpec_unresolved {leaf : QueryNode} {violations : List JsString}
    (h : resolveField rt registry leaf.fieldName = .error violations) :
    LeafSpec rt registry limits leaf (.error violations) where
  ok := by
    rintro v ⟨⟩
  complete := by
    rintro ⟨field, hfield, -⟩
    rw [h] at hfield
    cases hfield
  error := by
    rintro _ ⟨⟩
    exact resolveField_error h

/-- A leaf whose value does not fit its field. -/
theorem leafSpec_violated {leaf : QueryNode} {field : ResolvedField}
    {violations : List JsString} (h : resolveField rt registry leaf.fieldName = .ok field)
    (hviolations : violations ≠ []) (hunfit : ¬ leaf.Fits rt limits field) :
    LeafSpec rt registry limits leaf (.error violations) where
  ok := by
    rintro v ⟨⟩
  complete := by
    rintro ⟨field', hfield, hfits⟩
    rw [h] at hfield
    cases hfield
    exact absurd hfits hunfit
  error := by
    rintro _ ⟨⟩
    exact hviolations

theorem leafSpec_unfit {leaf : QueryNode} {field : ResolvedField} {message : JsString}
    (h : resolveField rt registry leaf.fieldName = .ok field)
    (hunfit : ¬ leaf.Fits rt limits field) :
    LeafSpec rt registry limits leaf (.error [message]) :=
  leafSpec_violated h (List.cons_ne_nil _ _) hunfit

/-- A leaf whose value fits its field. -/
theorem leafSpec_fit {leaf : QueryNode} {field : ResolvedField} {v : ValidatedNode Num}
    (h : resolveField rt registry leaf.fieldName = .ok field) (hfits : leaf.Fits rt limits field)
    (hfield : v.field? = some field) (hleaves : v.leaves = [v]) (hkind : v.KindAllowed) :
    LeafSpec rt registry limits leaf (.ok v) where
  ok := by
    rintro _ ⟨⟩
    exact ⟨⟨field, h, hfits⟩, field, h, hfield, hleaves, hkind⟩
  complete := fun _ => ⟨v, rfl⟩
  error := by
    rintro _ ⟨⟩

theorem isExactType_iff {type : Option FieldType} :
    isExactType type ↔ type = some .date ∨ type = some .size ∨ type = some .boolean := by
  simp [isExactType]

/-- The fuzzy checks accept exactly what may be matched so. -/
theorem checkFuzzy_cases (limits : CostLimits) (field : ResolvedField) (value : JsString)
    (fuzzy : Option ℕ) :
    (checkFuzzy limits field value fuzzy = .ok () ∧
        ∀ edits ∈ fuzzy, ¬ isExactType field.type ∧ edits ≤ limits.maxFuzzyEdits) ∨
      ∃ message, checkFuzzy limits field value fuzzy = .error [message] ∧
        ¬ ∀ edits ∈ fuzzy, ¬ isExactType field.type ∧ edits ≤ limits.maxFuzzyEdits := by
  rcases fuzzy with _ | edits
  · exact .inl ⟨rfl, by rintro _ ⟨⟩⟩
  · by_cases hexact : isExactType field.type
    · refine .inr ⟨_, by rw [checkFuzzy, if_pos hexact], fun h => (h edits rfl).1 hexact⟩
    · by_cases hedits : edits > limits.maxFuzzyEdits
      · refine .inr ⟨_, by rw [checkFuzzy, if_neg hexact, if_pos hedits], fun h => ?_⟩
        exact absurd (h edits rfl).2 (Nat.not_le_of_lt hedits)
      · refine .inl ⟨?_, ?_⟩
        · rw [checkFuzzy, if_neg hexact, if_neg hedits]
        · rintro _ ⟨⟩
          exact ⟨hexact, Nat.le_of_not_lt hedits⟩

theorem validateTerm_spec (name : Option JsString) (value : JsString) (fuzzy : Option ℕ) :
    LeafSpec rt registry limits (.term name value fuzzy)
      (validateTerm rt registry limits name value fuzzy) := by
  rcases hfield : resolveField rt registry name with violations | field
  · rw [validateTerm, hfield]
    exact leafSpec_unresolved hfield
  have hresolve : resolveField rt registry (QueryNode.term name value fuzzy).fieldName =
      .ok field := hfield
  rw [validateTerm, hfield]
  simp only [bind, Except.bind]
  by_cases hempty : value.length = 0
  · rw [if_pos hempty]
    exact leafSpec_unfit hresolve fun hfits => hfits.nonempty hempty
  rw [if_neg hempty]
  rcases checkFuzzy_cases limits field value fuzzy with ⟨hcheck, hfuzzy⟩ | ⟨message, hcheck, hfuzzy⟩
  · simp only [hcheck]
    -- a type that is not exact only asks for hashes to look like hashes
    have hother : ¬ isExactType field.type →
        LeafSpec rt registry limits (.term name value fuzzy)
          (if field.name ∈ hashFieldNames then
            if isHash (rt.lower value) then
              .ok (.term field (.text (rt.lower value)) fuzzy)
            else
              .error [js "Invalid hash \"" ++ value ++
                js "\": expected 6-64 lowercase hex characters"]
          else .ok (.term field (.text value) fuzzy)) := by
      intro hexact
      have hnot := isExactType_iff.not.mp hexact
      have hfits : (field.name ∈ hashFieldNames → isHash (rt.lower value)) →
          (QueryNode.term name value fuzzy).Fits rt limits field := fun hhash =>
        ⟨hempty, hfuzzy, fun h => absurd (.inl h) hnot, fun h => absurd (.inr (.inl h)) hnot,
          fun h => absurd (.inr (.inr h)) hnot, fun _ => hhash⟩
      by_cases hname : field.name ∈ hashFieldNames
      · rw [if_pos hname]
        by_cases hhash : isHash (rt.lower value)
        · rw [if_pos hhash]
          exact leafSpec_fit hresolve (hfits fun _ => hhash) rfl rfl trivial
        · rw [if_neg hhash]
          exact leafSpec_unfit hresolve fun h => hhash (h.hash hexact hname)
      · rw [if_neg hname]
        exact leafSpec_fit hresolve (hfits fun h => absurd h hname) rfl rfl trivial
    have hkinds : ∀ type, field.type = some type → type ≠ .date → type ≠ .size →
        type ≠ .boolean → ¬ isExactType field.type := by
      intro type htype hdate hsize hboolean hexact
      rw [isExactType_iff, htype] at hexact
      rcases hexact with h | h | h
      · exact hdate (Option.some.inj h)
      · exact hsize (Option.some.inj h)
      · exact hboolean (Option.some.inj h)
    have hexacts : ∀ type, field.type = some type → isExactType (some type) →
        (type = .date → (parseDateValue rt value).isSome) →
        (type = .size → (parseSizeValue rt value).isSome) →
        (type = .boolean → rt.lower value = js "true" ∨ rt.lower value = js "false") →
        (QueryNode.term name value fuzzy).Fits rt limits field := by
      intro type htype hexact hdate hsize hboolean
      refine ⟨hempty, hfuzzy, ?_, ?_, ?_, fun h => absurd (htype ▸ hexact) h⟩
      · exact fun h => hdate (Option.some.inj (htype.symm.trans h))
      · exact fun h => hsize (Option.some.inj (htype.symm.trans h))
      · exact fun h => hboolean (Option.some.inj (htype.symm.trans h))
    rcases htype : field.type with _ | type
    · exact hother (by rw [htype]; exact Bool.false_ne_true)
    · cases type with
      | date =>
        rcases hdate : parseDateValue rt value with _ | date
        · refine leafSpec_unfit hresolve fun hfits => ?_
          have := hfits.date htype
          rw [hdate] at this
          cases this
        · refine leafSpec_fit hresolve (hexacts _ htype rfl ?_ ?_ ?_) rfl rfl (.inl htype)
          · intro _
            rw [hdate]
            rfl
          · rintro ⟨⟩
          · rintro ⟨⟩
      | size =>
        rcases hsize : parseSizeValue rt value with _ | bytes
        · refine leafSpec_unfit hresolve fun hfits => ?_
          have := hfits.size htype
          rw [hsize] at this
          cases this
        · refine leafSpec_fit hresolve (hexacts _ htype rfl ?_ ?_ ?_) rfl rfl trivial
          · rintro ⟨⟩
          · intro _
            rw [hsize]
            rfl
          · rintro ⟨⟩
      | boolean =>
        by_cases hboolean : rt.lower value ≠ js "true" ∧ rt.lower value ≠ js "false"
        · dsimp only
          rw [if_pos hboolean]
          refine leafSpec_unfit hresolve fun hfits => ?_
          rcases hfits.boolean htype with h | h
          · exact hboolean.1 h
          · exact hboolean.2 h
        · dsimp only
          rw [if_neg hboolean]
          refine leafSpec_fit hresolve (hexacts _ htype rfl ?_ ?_ ?_) rfl rfl trivial
          · rintro ⟨⟩
          · rintro ⟨⟩
          · intro _
            rw [not_and_or, not_not, not_not] at hboolean
            exact hboolean
      | text | keyword | address | header
      | ocr => exact hother (hkinds _ htype (by decide) (by decide) (by decide))
  · simp only [hcheck]
    exact leafSpec_unfit hresolve fun hfits => hfuzzy hfits.fuzzy

theorem validatePhrase_spec (name : Option JsString) (value : JsString)
    (proximity : Option ℕ) :
    LeafSpec rt registry limits (.phrase name value proximity)
      (validatePhrase rt registry limits name value proximity) := by
  rcases hfield : resolveField rt registry name with violations | field
  · rw [validatePhrase, hfield]
    exact leafSpec_unresolved hfield
  have hresolve : resolveField rt registry (QueryNode.phrase name value proximity).fieldName =
      .ok field := hfield
  rw [validatePhrase, hfield]
  simp only [bind, Except.bind]
  by_cases hempty : (trim value).length = 0
  · rw [if_pos hempty]
    exact leafSpec_unfit hresolve fun hfits => hfits.nonempty hempty
  by_cases hexact : isExactType field.type
  · rw [if_neg hempty, if_pos hexact]
    exact leafSpec_unfit hresolve fun hfits => hfits.type hexact
  by_cases hterms : termCount (trim value) > limits.maxPhraseTerms
  · rw [if_neg hempty, if_neg hexact, if_pos hterms]
    exact leafSpec_unfit hresolve fun hfits => absurd hfits.terms (Nat.not_le_of_lt hterms)
  by_cases hproximity : proximity.getD 0 > limits.maxProximity
  · rw [if_neg hempty, if_neg hexact, if_neg hterms, if_pos hproximity]
    refine leafSpec_unfit hresolve fun hfits => ?_
    exact absurd hfits.proximity (Nat.not_le_of_lt hproximity)
  · rw [if_neg hempty, if_neg hexact, if_neg hterms, if_neg hproximity]
    refine leafSpec_fit hresolve ⟨hempty, hexact, ?_, ?_⟩ rfl rfl trivial
    · exact Nat.le_of_not_lt hterms
    · exact Nat.le_of_not_lt hproximity

theorem validateWildcard_spec (name : Option JsString) (value : JsString) :
    LeafSpec rt registry limits (.wildcard name value)
      (validateWildcard rt registry limits name value) := by
  rcases hfield : resolveField rt registry name with violations | field
  · rw [validateWildcard, hfield]
    exact leafSpec_unresolved hfield
  have hresolve : resolveField rt registry (QueryNode.wildcard name value).fieldName =
      .ok field := hfield
  rw [validateWildcard, hfield]
  simp only [bind, Except.bind]
  by_cases hexact : isExactType field.type
  · rw [if_pos hexact]
    exact leafSpec_unfit hresolve fun hfits => hfits.type hexact
  rw [if_neg hexact]
  rcases hfirst : firstWildcard value with _ | n
  · refine leafSpec_fit hresolve ⟨hexact, ?_⟩ rfl rfl hexact
    rw [hfirst]
    rintro _ ⟨⟩
  · rcases n with _ | n
    · exact leafSpec_unfit hresolve fun hfits => (hfits.literal 0 hfirst).1 rfl
    · change LeafSpec rt registry limits (.wildcard name value)
        (if n + 1 < limits.minWildcardPrefix then _ else _)
      by_cases hprefix : n + 1 < limits.minWildcardPrefix
      · rw [if_pos hprefix]
        refine leafSpec_unfit hresolve fun hfits => ?_
        exact absurd (hfits.literal _ hfirst).2 (Nat.not_le_of_lt hprefix)
      · rw [if_neg hprefix]
        refine leafSpec_fit hresolve ⟨hexact, ?_⟩ rfl rfl hexact
        rw [hfirst]
        rintro _ ⟨⟩
        exact ⟨Nat.succ_ne_zero n, Nat.le_of_not_lt hprefix⟩

/-- A bound is violated exactly if it does not fit, and else absent only if it was not
given. -/
theorem validateBound_spec (rt : JsRuntime Num) (field : ResolvedField)
    (bound : Option JsString) :
    (boundViolation (validateBound rt field bound) = [] ↔ BoundFits rt field bound) ∧
      (BoundFits rt field bound →
        (boundValue (validateBound rt field bound) = none ↔ bound = none)) := by
  rcases bound with _ | raw
  · exact ⟨iff_of_true rfl (by rintro _ ⟨⟩), fun _ => iff_of_true rfl rfl⟩
  · have hfits : BoundFits rt field (some raw) ↔
        if field.type = some .date then (parseDateValue rt raw).isSome = true
        else (parseSizeValue rt raw).isSome = true := by
      refine ⟨?_, ?_⟩
      · intro h
        exact h raw rfl
      · rintro h _ ⟨⟩
        exact h
    rw [hfits, validateBound]
    by_cases hdate : field.type = some .date
    · simp only [if_pos hdate]
      rcases parseDateValue rt raw with _ | date
      · exact ⟨iff_of_false (by rintro ⟨⟩) (by rintro ⟨⟩), by rintro ⟨⟩⟩
      · exact ⟨iff_of_true rfl rfl, fun _ => iff_of_false (by rintro ⟨⟩) (by rintro ⟨⟩)⟩
    · simp only [if_neg hdate]
      rcases parseSizeValue rt raw with _ | bytes
      · exact ⟨iff_of_false (by rintro ⟨⟩) (by rintro ⟨⟩), by rintro ⟨⟩⟩
      · exact ⟨iff_of_true rfl rfl, fun _ => iff_of_false (by rintro ⟨⟩) (by rintro ⟨⟩)⟩

theorem validateRange_spec (name : JsString) (bounds : Bounds JsString) :
    LeafSpec rt registry limits (.range name bounds)
      (validateRange rt registry name bounds) := by
  rcases hfield : resolveField rt registry (some name) with violations | field
  · rw [validateRange, hfield]
    exact leafSpec_unresolved hfield
  have hresolve : resolveField rt registry (QueryNode.range name bounds).fieldName =
      .ok field := hfield
  rw [validateRange, hfield]
  simp only [bind, Except.bind]
  by_cases htype : field.type ≠ some .date ∧ field.type ≠ some .size
  · rw [if_pos htype]
    refine leafSpec_unfit hresolve fun hfits => ?_
    rcases hfits.type with h | h
    · exact htype.1 h
    · exact htype.2 h
  rw [if_neg htype]
  rw [not_and_or, not_not, not_not] at htype
  obtain ⟨hgte, hgteNone⟩ := validateBound_spec rt field bounds.gte
  obtain ⟨hlte, hlteNone⟩ := validateBound_spec rt field bounds.lte
  obtain ⟨hgt, hgtNone⟩ := validateBound_spec rt field bounds.gt
  obtain ⟨hlt, hltNone⟩ := validateBound_spec rt field bounds.lt
  split_ifs with hfailed hunbounded
  · refine leafSpec_violated hresolve hfailed fun hfits => ?_
    simp only [ne_eq, List.append_eq_nil_iff, hgte, hlte, hgt, hlt] at hfailed
    exact hfailed ⟨⟨⟨hfits.gte, hfits.lte⟩, hfits.gt⟩, hfits.lt⟩
  · simp only [ne_eq, not_not, List.append_eq_nil_iff, hgte, hlte, hgt, hlt] at hfailed
    obtain ⟨⟨⟨hgteFits, hlteFits⟩, hgtFits⟩, hltFits⟩ := hfailed
    rw [hgteNone hgteFits, hlteNone hlteFits, hgtNone hgtFits, hltNone hltFits] at hunbounded
    exact leafSpec_unfit hresolve fun hfits => hfits.bounded hunbounded
  · simp only [ne_eq, not_not, List.append_eq_nil_iff, hgte, hlte, hgt, hlt] at hfailed
    obtain ⟨⟨⟨hgteFits, hlteFits⟩, hgtFits⟩, hltFits⟩ := hfailed
    rw [hgteNone hgteFits, hlteNone hlteFits, hgtNone hgtFits, hltNone hltFits] at hunbounded
    exact leafSpec_fit hresolve
      ⟨htype, hunbounded, hgteFits, hlteFits, hgtFits, hltFits⟩ rfl rfl htype

theorem validateExists_spec (name : JsString) :
    LeafSpec rt registry limits (.exists name) (validateExists rt registry name) := by
  rcases hfield : resolveField rt registry (some name) with violations | field
  · rw [validateExists, hfield]
    exact leafSpec_unresolved hfield
  have hresolve : resolveField rt registry (QueryNode.exists name).fieldName = .ok field := hfield
  rw [validateExists, hfield]
  simp only [bind, Except.bind]
  by_cases hall : field.esPath = defaultTextField.esPath ∧ field.type = some .text
  · rw [if_pos hall]
    exact leafSpec_unfit hresolve fun hfits => hfits hall
  · rw [if_neg hall]
    exact leafSpec_fit hresolve hall rfl rfl hall

end Leaves

/-! ## The walk -/

section Walk

variable (rt : JsRuntime Num) (registry : FieldRegistry) (limits : CostLimits)

/-- What is true of the walk of a part of a query at a depth: it records no violation
exactly if the part is shallow enough and its leaves are acceptable, and then returns
the part with every leaf checked. -/
structure WalkSpec {α : Type} (depth height : ℕ) (leaves : List QueryNode)
    (validated : α → List (ValidatedNode Num)) (walked : Walked α) : Prop where
  violations : walked.violations = [] ↔ depth + height ≤ limits.maxDepth + 1 ∧
    ∀ leaf ∈ leaves, leaf.LeafAcceptable rt registry limits
  clauses : depth + height ≤ limits.maxDepth + 1 → walked.clauses = leaves.length
  node : walked.violations = [] → ∃ part, walked.node = some part ∧
    List.Forall₂ (fun leaf v => checkLeaf rt registry limits leaf = .ok v) leaves (validated part)

variable {rt registry limits}

theorem walkLeaf_spec {depth : ℕ} {leaf : QueryNode} (hdepth : depth ≤ limits.maxDepth)
    (h : LeafSpec rt registry limits leaf (checkLeaf rt registry limits leaf)) :
    WalkSpec rt registry limits depth 1 [leaf] ValidatedNode.leaves
      (walkLeaf (checkLeaf rt registry limits leaf)) := by
  rcases hcheck : checkLeaf rt registry limits leaf with violations | v
  · rw [hcheck] at h
    have hne := h.error _ rfl
    refine ⟨iff_of_false hne ?_, fun _ => rfl, fun hnil => absurd hnil hne⟩
    rintro ⟨-, hleaf⟩
    obtain ⟨v, hv⟩ := h.complete (hleaf leaf (List.mem_singleton_self _))
    cases hv
  · rw [hcheck] at h
    obtain ⟨hacceptable, -, -, -, hleaves, -⟩ := h.ok v rfl
    refine ⟨iff_of_true rfl ⟨Nat.succ_le_succ hdepth, ?_⟩, fun _ => rfl, fun _ => ⟨v, rfl, ?_⟩⟩
    · rw [List.forall_mem_singleton]
      exact hacceptable
    · rw [hleaves]
      exact .cons hcheck .nil

theorem walkChildren_spec {depth : ℕ} {children : List QueryNode}
    (hdepth : depth ≤ limits.maxDepth + 1)
    (ih : ∀ child ∈ children, WalkSpec rt registry limits depth child.height child.leaves
      ValidatedNode.leaves (walk rt registry limits depth child)) :
    WalkSpec rt registry limits depth (heightOf children) (leavesOf children) validatedLeavesOf
      (walkChildren rt registry limits depth children) := by
  induction children with
  | nil =>
    refine ⟨iff_of_true rfl ⟨hdepth, List.forall_mem_nil _⟩, fun _ => rfl, fun _ => ?_⟩
    exact ⟨[], rfl, .nil⟩
  | cons child children ihs =>
    have hfirst := ih child (List.mem_cons_self ..)
    have hrest := ihs fun c hc => ih c (List.mem_cons_of_mem _ hc)
    have hheight : depth + heightOf (child :: children) ≤ limits.maxDepth + 1 ↔
        depth + child.height ≤ limits.maxDepth + 1 ∧
          depth + heightOf children ≤ limits.maxDepth + 1 := by
      rw [heightOf]
      omega
    rw [walkChildren]
    refine ⟨?_, ?_, ?_⟩
    · rw [List.append_eq_nil_iff, hfirst.violations, hrest.violations, hheight, leavesOf,
        List.forall_mem_append]
      exact and_and_and_comm
    · intro h
      obtain ⟨h₁, h₂⟩ := hheight.mp h
      dsimp only
      rw [hfirst.clauses h₁, hrest.clauses h₂, leavesOf, List.length_append]
    · intro hnil
      obtain ⟨hnil₁, hnil₂⟩ := List.append_eq_nil_iff.mp hnil
      obtain ⟨v, hv, hleaves⟩ := hfirst.node hnil₁
      obtain ⟨vs, hvs, hrestLeaves⟩ := hrest.node hnil₂
      refine ⟨v :: vs, ?_, ?_⟩
      · simp only [hv, hvs]
        rfl
      · exact List.rel_append hleaves hrestLeaves

/-- A node around walked children. -/
theorem WalkSpec.wrap {α β : Type} {depth height : ℕ} {leaves : List QueryNode}
    {validated : α → List (ValidatedNode Num)} {validated' : β → List (ValidatedNode Num)}
    {walked : Walked α} {f : α → β}
    (h : WalkSpec rt registry limits (depth + 1) height leaves validated walked)
    (hf : ∀ a, validated' (f a) = validated a) :
    WalkSpec rt registry limits depth (height + 1) leaves validated'
      ⟨walked.node.map f, walked.violations, walked.clauses⟩ := by
  have hheight : depth + (height + 1) = depth + 1 + height := by omega
  refine ⟨?_, ?_, ?_⟩
  · rw [hheight]
    exact h.violations
  · rw [hheight]
    exact h.clauses
  · intro hnil
    obtain ⟨part, hpart, hleaves⟩ := h.node hnil
    refine ⟨f part, ?_, ?_⟩
    · rw [hpart]
      rfl
    · rw [hf]
      exact hleaves

/-- Nothing below the depth limit is looked at. -/
theorem walk_tooDeep {node : QueryNode} {depth : ℕ} (hdeep : depth > limits.maxDepth) :
    WalkSpec rt registry limits depth node.height node.leaves ValidatedNode.leaves
      (walk rt registry limits depth node) := by
  have hheight : ¬ depth + node.height ≤ limits.maxDepth + 1 := by
    have hpos : 1 ≤ node.height := by
      cases node <;> simp [QueryNode.height]
    omega
  have hviolations : (walk rt registry limits depth node).violations ≠ [] := by
    unfold walk
    rw [if_pos hdeep]
    exact List.cons_ne_nil _ _
  exact ⟨iff_of_false hviolations fun h => hheight h.1, fun h => absurd h hheight,
    fun h => absurd h hviolations⟩

/-- **The walk of a query.** -/
theorem walk_spec (node : QueryNode) (depth : ℕ) :
    WalkSpec rt registry limits depth node.height node.leaves ValidatedNode.leaves
      (walk rt registry limits depth node) := by
  induction node generalizing depth with
  | bool kind children ih =>
    by_cases hdeep : depth > limits.maxDepth
    · exact walk_tooDeep hdeep
    rw [walk, if_neg hdeep]
    have hchildren := walkChildren_spec (Nat.succ_le_succ (Nat.le_of_not_lt hdeep))
      fun child hchild => ih child hchild (depth + 1)
    exact hchildren.wrap fun _ => by rw [ValidatedNode.leaves]
  | not child ih =>
    by_cases hdeep : depth > limits.maxDepth
    · exact walk_tooDeep hdeep
    rw [walk, if_neg hdeep]
    exact (ih (depth + 1)).wrap fun _ => by rw [ValidatedNode.leaves]
  | term field value fuzzy =>
    by_cases hdeep : depth > limits.maxDepth
    · exact walk_tooDeep hdeep
    rw [walk, if_neg hdeep]
    exact walkLeaf_spec (Nat.le_of_not_lt hdeep) (validateTerm_spec field value fuzzy)
  | phrase field value proximity =>
    by_cases hdeep : depth > limits.maxDepth
    · exact walk_tooDeep hdeep
    rw [walk, if_neg hdeep]
    exact walkLeaf_spec (Nat.le_of_not_lt hdeep) (validatePhrase_spec field value proximity)
  | wildcard field value =>
    by_cases hdeep : depth > limits.maxDepth
    · exact walk_tooDeep hdeep
    rw [walk, if_neg hdeep]
    exact walkLeaf_spec (Nat.le_of_not_lt hdeep) (validateWildcard_spec field value)
  | range field bounds =>
    by_cases hdeep : depth > limits.maxDepth
    · exact walk_tooDeep hdeep
    rw [walk, if_neg hdeep]
    exact walkLeaf_spec (Nat.le_of_not_lt hdeep) (validateRange_spec field bounds)
  | exists_ field =>
    by_cases hdeep : depth > limits.maxDepth
    · exact walk_tooDeep hdeep
    rw [walk, if_neg hdeep]
    exact walkLeaf_spec (Nat.le_of_not_lt hdeep) (validateExists_spec field)
  | matchAll =>
    by_cases hdeep : depth > limits.maxDepth
    · exact walk_tooDeep hdeep
    rw [walk, if_neg hdeep]
    refine ⟨iff_of_true rfl ⟨?_, List.forall_mem_nil _⟩, fun _ => rfl, fun _ => ⟨_, rfl, .nil⟩⟩
    exact Nat.succ_le_succ (Nat.le_of_not_lt hdeep)

/-- A leaf that was checked is acceptable, and keeps its field. -/
theorem checkLeaf_ok {leaf : QueryNode} {v : ValidatedNode Num}
    (h : checkLeaf rt registry limits leaf = .ok v) :
    leaf.LeafAcceptable rt registry limits ∧
      ∃ field, resolveField rt registry leaf.fieldName = .ok field ∧ v.field? = some field ∧
        v.leaves = [v] ∧ v.KindAllowed := by
  cases leaf with
  | term field value fuzzy => exact (validateTerm_spec field value fuzzy).ok v h
  | phrase field value proximity => exact (validatePhrase_spec field value proximity).ok v h
  | wildcard field value => exact (validateWildcard_spec field value).ok v h
  | range field bounds => exact (validateRange_spec field bounds).ok v h
  | «exists» field => exact (validateExists_spec field).ok v h
  | bool kind children => cases h
  | not child => cases h
  | matchAll => cases h

/-! ## Queries -/

theorem clauseViolations_eq_nil {clauses : ℕ} :
    clauseViolations limits clauses = [] ↔ clauses ≤ limits.maxClauses := by
  rw [clauseViolations]
  by_cases hmany : clauses > limits.maxClauses
  · rw [if_pos hmany]
    exact iff_of_false (List.cons_ne_nil _ _) (Nat.not_le_of_lt hmany)
  · rw [if_neg hmany]
    exact iff_of_true rfl (Nat.le_of_not_lt hmany)

/-- The validator throws nothing but `QueryValidationError`. -/
theorem validateAst_error {node : QueryNode} {e : QueryError}
    (h : validateAst rt registry limits node = .error e) :
    ∃ violations, e = .validation violations := by
  rw [validateAst] at h
  split_ifs at h
  · cases h
    exact ⟨_, rfl⟩
  · rcases hroot : (walk rt registry limits 1 node).node with _ | root
    · simp only [hroot] at h
      cases h
      exact ⟨_, rfl⟩
    · simp only [hroot] at h
      cases h

/-- A query that is accepted has exactly its own leaves, checked. -/
theorem validateAst_leaves {node : QueryNode} {ast : ValidatedAst Num}
    (h : validateAst rt registry limits node = .ok ast) :
    Acceptable rt registry limits node ∧
      List.Forall₂ (fun leaf v => checkLeaf rt registry limits leaf = .ok v) node.leaves
        ast.root.leaves := by
  have hwalk : WalkSpec rt registry limits 1 node.height node.leaves ValidatedNode.leaves
      (walk rt registry limits 1 node) := walk_spec node 1
  rw [validateAst] at h
  split_ifs at h with hviolations
  rw [ne_eq, not_not, List.append_eq_nil_iff] at hviolations
  obtain ⟨hnil, hclauses⟩ := hviolations
  obtain ⟨root, hroot, hleaves⟩ := hwalk.node hnil
  obtain ⟨hheight, hacceptable⟩ := hwalk.violations.mp hnil
  simp only [hroot] at h
  cases h
  refine ⟨⟨by omega, ?_, hacceptable⟩, hleaves⟩
  rw [← hwalk.clauses hheight]
  exact clauseViolations_eq_nil.mp hclauses

/-- **What the validator accepts.** -/
theorem validateAst_ok_iff {node : QueryNode} :
    (∃ ast, validateAst rt registry limits node = .ok ast) ↔
      Acceptable rt registry limits node := by
  refine ⟨?_, ?_⟩
  · rintro ⟨ast, h⟩
    exact (validateAst_leaves h).1
  · rintro ⟨hdepth, hclauses, hleaves⟩
    have hwalk : WalkSpec rt registry limits 1 node.height node.leaves ValidatedNode.leaves
        (walk rt registry limits 1 node) := walk_spec node 1
    have hheight : 1 + node.height ≤ limits.maxDepth + 1 := by omega
    have hnil := hwalk.violations.mpr ⟨hheight, hleaves⟩
    obtain ⟨root, hroot, -⟩ := hwalk.node hnil
    refine ⟨⟨root⟩, ?_⟩
    have hfew : clauseViolations limits (walk rt registry limits 1 node).clauses = [] := by
      rw [hwalk.clauses hheight]
      exact clauseViolations_eq_nil.mpr hclauses
    rw [validateAst]
    simp only [hnil, hroot, hfew, List.append_nil, ne_eq, not_true, if_false]

end Walk

end AegCloudDfir.Search
