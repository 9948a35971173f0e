import AegCloudDfir.Search.Acceptable

/-!
# What validation keeps

`validateAst` goes through a query once: it counts the leaf clauses, stops where the query is too
deep, leaves out what it could not validate, and puts values in the place of texts. What it returns
is nevertheless the query it was given, node for node (`Typed`), and what it throws names every leaf
it could not validate and came to.

* `TypedLeaf`, `Typed` — a validated query has the shape of the query and the leaves of the query,
  with their fields and values.
* `WithinLimits` — the query keeps to the limits.
* `QueryNode.leavesWithin` — the leaves down to a depth.
* `validateAst_keeps` — what is true of a validated query and of an error.
* `everything_not_counted` — the clauses that are counted are not all leaves: `match_all` is none.
-/

namespace AegCloudDfir.Search

variable {Num : Type}

/-! ## The query and what becomes of it -/

section Typed

variable (rt : JsRuntime Num) (registry : FieldRegistry)

/-- The value of a bound, as its field has it; none if there is no bound. -/
inductive TypedBound (field : ResolvedField) : Option JsString → Option (FieldValue Num) → Prop
  | none : TypedBound field none none
  | date {raw date : JsString} : field.type = some .date → parseDateValue rt raw = some date →
      TypedBound field (some raw) (some (.text date))
  | size {raw : JsString} {bytes : Num} : field.type = some .size →
      parseSizeValue rt raw = some bytes → TypedBound field (some raw) (some (.number bytes))

/-- What becomes of a leaf: its field is resolved, and its value is one of the field. -/
inductive TypedLeaf : QueryNode → ValidatedNode Num → Prop
  /-- a date becomes the range that is the date -/
  | date {name value fuzzy field date} : resolveField rt registry name = .ok field →
      field.type = some .date → parseDateValue rt value = some date →
      TypedLeaf (.term name value fuzzy)
        (.range field ⟨some (.text date), some (.text date), none, none⟩)
  | size {name value fuzzy field bytes} : resolveField rt registry name = .ok field →
      field.type = some .size → parseSizeValue rt value = some bytes →
      TypedLeaf (.term name value fuzzy) (.term field (.number bytes) none)
  | boolean {name value fuzzy field} {b : Bool} : resolveField rt registry name = .ok field →
      field.type = some .boolean → rt.lower value = (if b then js "true" else js "false") →
      TypedLeaf (.term name value fuzzy) (.term field (.bool b) none)
  /-- a hash is written in lower case, any other text as it is -/
  | text {name value fuzzy field} : resolveField rt registry name = .ok field →
      ¬ isExactType field.type →
      TypedLeaf (.term name value fuzzy) (.term field
        (.text (if field.name ∈ hashFieldNames then rt.lower value else value)) fuzzy)
  | phrase {name value proximity field} : resolveField rt registry name = .ok field →
      TypedLeaf (.phrase name value proximity) (.phrase field value proximity)
  | wildcard {name value field} : resolveField rt registry name = .ok field →
      TypedLeaf (.wildcard name value) (.wildcard field value)
  | range {name bounds field gte lte gt lt} : resolveField rt registry (some name) = .ok field →
      TypedBound rt field bounds.gte gte → TypedBound rt field bounds.lte lte →
      TypedBound rt field bounds.gt gt → TypedBound rt field bounds.lt lt →
      TypedLeaf (.range name bounds) (.range field ⟨gte, lte, gt, lt⟩)
  | exists_ {name field} : resolveField rt registry (some name) = .ok field →
      TypedLeaf (.exists name) (.exists field)

/-- What becomes of a query: the same nodes around what becomes of the leaves. -/
inductive Typed : QueryNode → ValidatedNode Num → Prop
  | bool {kind children validated} : List.Forall₂ Typed children validated →
      Typed (.bool kind children) (.bool kind validated)
  | not {child validated} : Typed child validated → Typed (.not child) (.not validated)
  | matchAll : Typed .matchAll .matchAll
  | leaf {leaf validated} : TypedLeaf rt registry leaf validated → Typed leaf validated

end Typed

section Limits

variable (limits : CostLimits)

/-- A leaf keeps to the limits. -/
def QueryNode.WithinBounds : QueryNode → Prop
  | .term _ _ fuzzy => ∀ edits ∈ fuzzy, edits ≤ limits.maxFuzzyEdits
  | .phrase _ value proximity => termCount (trim value) ≤ limits.maxPhraseTerms ∧
      ∀ distance ∈ proximity, distance ≤ limits.maxProximity
  | .wildcard _ value => ∀ n ∈ firstWildcard value, limits.minWildcardPrefix ≤ n
  | _ => True

/-- A query keeps to the limits. -/
structure WithinLimits (node : QueryNode) : Prop where
  clauses : node.leaves.length ≤ limits.maxClauses
  depth : node.height ≤ limits.maxDepth
  bounds : ∀ leaf ∈ node.leaves, leaf.WithinBounds limits

end Limits

mutual

/-- The leaves of a query down to a depth, from left to right. -/
def QueryNode.leavesWithin : QueryNode → ℕ → List QueryNode
  | _, 0 => []
  | .bool _ children, depth + 1 => leavesWithinOf children depth
  | .not child, depth + 1 => child.leavesWithin depth
  | .matchAll, _ + 1 => []
  | leaf, _ + 1 => [leaf]

/-- The leaves of several queries down to a depth. -/
def leavesWithinOf : List QueryNode → ℕ → List QueryNode
  | [], _ => []
  | child :: children, depth => child.leavesWithin depth ++ leavesWithinOf children depth

end

/-- The violations that are recorded for a leaf. -/
def leafViolations (rt : JsRuntime Num) (registry : FieldRegistry) (limits : CostLimits)
    (leaf : QueryNode) : List JsString :=
  match checkLeaf rt registry limits leaf with
  | .ok _ => []
  | .error violations => violations

variable {rt : JsRuntime Num} {registry : FieldRegistry} {limits : CostLimits}

/-! ## What becomes of a leaf -/

theorem typedLeaf_of_validateTerm {name : Option JsString} {value : JsString} {fuzzy : Option ℕ}
    {v : ValidatedNode Num} (h : validateTerm rt registry limits name value fuzzy = .ok v) :
    TypedLeaf rt registry (.term name value fuzzy) v := by
  obtain ⟨field, hfield, h⟩ := bind_eq_ok.mp h
  by_cases hempty : value.length = 0
  · rw [if_pos hempty] at h
    cases h
  rw [if_neg hempty] at h
  obtain ⟨_, -, h⟩ := bind_eq_ok.mp h
  split at h
  · rename_i htype
    cases hparse : parseDateValue rt value with
    | none => simp [hparse] at h
    | some date =>
      simp only [hparse, Except.ok.injEq] at h
      subst h
      exact .date hfield htype hparse
  · rename_i htype
    cases hparse : parseSizeValue rt value with
    | none => simp [hparse] at h
    | some bytes =>
      simp only [hparse, Except.ok.injEq] at h
      subst h
      exact .size hfield htype hparse
  · rename_i htype
    dsimp only at h
    split_ifs at h with hlower
    obtain rfl := Except.ok.inj h
    refine .boolean hfield htype ?_
    by_cases htrue : rt.lower value = js "true"
    · rw [htrue, decide_eq_true rfl, if_pos rfl]
    · rw [decide_eq_false htrue, if_neg Bool.false_ne_true]
      exact not_not.mp fun hfalse => hlower ⟨htrue, hfalse⟩
  · rename_i hdate hsize hboolean
    have hexact : ¬ isExactType field.type := fun hexact => by
      rcases isExactType_iff.mp hexact with h | h | h
      · exact hdate h
      · exact hsize h
      · exact hboolean h
    have htext : TypedLeaf rt registry (.term name value fuzzy) (.term field
        (.text (if field.name ∈ hashFieldNames then rt.lower value else value)) fuzzy) :=
      .text hfield hexact
    split_ifs at h with hhash
    · obtain rfl := Except.ok.inj h
      rwa [if_pos hhash] at htext
    · obtain rfl := Except.ok.inj h
      rwa [if_neg hhash] at htext

theorem typedLeaf_of_validatePhrase {name : Option JsString} {value : JsString}
    {proximity : Option ℕ} {v : ValidatedNode Num}
    (h : validatePhrase rt registry limits name value proximity = .ok v) :
    TypedLeaf rt registry (.phrase name value proximity) v := by
  obtain ⟨field, hfield, h⟩ := bind_eq_ok.mp h
  split_ifs at h
  obtain rfl := Except.ok.inj h
  exact .phrase hfield

theorem typedLeaf_of_validateWildcard {name : Option JsString} {value : JsString}
    {v : ValidatedNode Num} (h : validateWildcard rt registry limits name value = .ok v) :
    TypedLeaf rt registry (.wildcard name value) v := by
  obtain ⟨field, hfield, h⟩ := bind_eq_ok.mp h
  split_ifs at h
  split at h
  · cases h
  · split_ifs at h
    obtain rfl := Except.ok.inj h
    exact .wildcard hfield
  · obtain rfl := Except.ok.inj h
    exact .wildcard hfield

theorem typedBound_of_validateBound {field : ResolvedField} {raw : Option JsString}
    {value : Option (FieldValue Num)}
    (htype : field.type = some .date ∨ field.type = some .size)
    (h : validateBound rt field raw = .ok value) : TypedBound rt field raw value := by
  cases raw with
  | none =>
    obtain rfl := Except.ok.inj h
    exact .none
  | some raw =>
    rw [validateBound] at h
    split_ifs at h with hdate
    · cases hparse : parseDateValue rt raw with
      | none => simp [hparse] at h
      | some date =>
        simp only [hparse, Except.ok.injEq] at h
        subst h
        exact .date hdate hparse
    · cases hparse : parseSizeValue rt raw with
      | none => simp [hparse] at h
      | some bytes =>
        simp only [hparse, Except.ok.injEq] at h
        subst h
        exact .size (htype.resolve_left hdate) hparse

theorem typedBound_boundValue {field : ResolvedField} {raw : Option JsString}
    (htype : field.type = some .date ∨ field.type = some .size)
    (h : boundViolation (validateBound rt field raw) = []) :
    TypedBound rt field raw (boundValue (validateBound rt field raw)) := by
  cases hbound : validateBound rt field raw with
  | error message => simp [hbound, boundViolation] at h
  | ok value => exact typedBound_of_validateBound htype hbound

theorem typedLeaf_of_validateRange {name : JsString} {bounds : Bounds JsString}
    {v : ValidatedNode Num} (h : validateRange rt registry name bounds = .ok v) :
    TypedLeaf rt registry (.range name bounds) v := by
  obtain ⟨field, hfield, h⟩ := bind_eq_ok.mp h
  by_cases htype : field.type ≠ some .date ∧ field.type ≠ some .size
  · rw [if_pos htype] at h
    cases h
  rw [if_neg htype] at h
  dsimp only at h
  split_ifs at h with hfailed
  obtain rfl := Except.ok.inj h
  rw [not_and_or, not_not, not_not] at htype
  simp only [ne_eq, not_not, List.append_eq_nil_iff] at hfailed
  obtain ⟨⟨⟨hgte, hlte⟩, hgt⟩, hlt⟩ := hfailed
  exact .range hfield (typedBound_boundValue htype hgte) (typedBound_boundValue htype hlte)
    (typedBound_boundValue htype hgt) (typedBound_boundValue htype hlt)

theorem typedLeaf_of_validateExists {name : JsString} {v : ValidatedNode Num}
    (h : validateExists rt registry name = .ok v) : TypedLeaf rt registry (.exists name) v := by
  obtain ⟨field, hfield, h⟩ := bind_eq_ok.mp h
  split_ifs at h
  obtain rfl := Except.ok.inj h
  exact .exists_ hfield

/-! ## What becomes of a query -/

theorem node_walkLeaf {checked : Checked (ValidatedNode Num)} {v : ValidatedNode Num}
    (h : (walkLeaf checked).node = some v) : checked = .ok v := by
  cases checked with
  | error violations => cases h
  | ok node =>
    obtain rfl := Option.some.inj h
    rfl

theorem typed_walkChildren {children : List QueryNode} {depth : ℕ} {vs : List (ValidatedNode Num)}
    (ih : ∀ child ∈ children, ∀ v, (walk rt registry limits depth child).node = some v →
      Typed rt registry child v)
    (h : (walkChildren rt registry limits depth children).node = some vs) :
    List.Forall₂ (Typed rt registry) children vs := by
  induction children generalizing vs with
  | nil =>
    rw [walkChildren] at h
    obtain rfl := Option.some.inj h
    exact .nil
  | cons child children ihs =>
    rw [walkChildren] at h
    obtain ⟨v, hv, h⟩ := Option.bind_eq_some_iff.mp h
    obtain ⟨ws, hws, rfl⟩ := Option.map_eq_some_iff.mp h
    refine .cons (ih child List.mem_cons_self v hv) (ihs (fun c hc => ?_) hws)
    exact ih c (List.mem_cons_of_mem _ hc)

/-- **What the walk returns is the query**, node for node. -/
theorem typed_walk {node : QueryNode} {depth : ℕ} {v : ValidatedNode Num}
    (h : (walk rt registry limits depth node).node = some v) : Typed rt registry node v := by
  induction node generalizing depth v with
  | bool kind children ih =>
    rw [walk] at h
    split_ifs at h
    obtain ⟨vs, hvs, rfl⟩ := Option.map_eq_some_iff.mp h
    exact .bool (typed_walkChildren (fun child hchild _ hv => ih child hchild hv) hvs)
  | not child ih =>
    rw [walk] at h
    split_ifs at h
    obtain ⟨w, hw, rfl⟩ := Option.map_eq_some_iff.mp h
    exact .not (ih hw)
  | matchAll =>
    rw [walk] at h
    split_ifs at h
    obtain rfl := Option.some.inj h
    exact .matchAll
  | term field value fuzzy =>
    rw [walk] at h
    split_ifs at h
    exact .leaf (typedLeaf_of_validateTerm (node_walkLeaf h))
  | phrase field value proximity =>
    rw [walk] at h
    split_ifs at h
    exact .leaf (typedLeaf_of_validatePhrase (node_walkLeaf h))
  | wildcard field value =>
    rw [walk] at h
    split_ifs at h
    exact .leaf (typedLeaf_of_validateWildcard (node_walkLeaf h))
  | range field bounds =>
    rw [walk] at h
    split_ifs at h
    exact .leaf (typedLeaf_of_validateRange (node_walkLeaf h))
  | exists_ field =>
    rw [walk] at h
    split_ifs at h
    exact .leaf (typedLeaf_of_validateExists (node_walkLeaf h))

/-! ## What is recorded -/

theorem violations_walkLeaf {leaf : QueryNode} :
    (walkLeaf (checkLeaf rt registry limits leaf)).violations =
      leafViolations rt registry limits leaf := by
  rw [leafViolations]
  cases checkLeaf rt registry limits leaf <;> rfl

theorem recorded_leaf (leaf : QueryNode) :
    ([leaf].flatMap (leafViolations rt registry limits)).Sublist
      (walkLeaf (checkLeaf rt registry limits leaf)).violations := by
  rw [violations_walkLeaf, List.flatMap_singleton]

theorem recorded_walkChildren {children : List QueryNode} {depth n : ℕ}
    (ih : ∀ child ∈ children,
      ((child.leavesWithin n).flatMap (leafViolations rt registry limits)).Sublist
        (walk rt registry limits depth child).violations) :
    ((leavesWithinOf children n).flatMap (leafViolations rt registry limits)).Sublist
      (walkChildren rt registry limits depth children).violations := by
  induction children with
  | nil => exact List.nil_sublist _
  | cons child children ihs =>
    rw [walkChildren, leavesWithinOf, List.flatMap_append]
    exact (ih child List.mem_cons_self).append (ihs fun c hc => ih c (List.mem_cons_of_mem _ hc))

/-- **The walk records what is wrong with every leaf it comes to**, one after another. -/
theorem recorded_walk {node : QueryNode} {depth n : ℕ} (hdepth : depth + n = limits.maxDepth + 1) :
    ((node.leavesWithin n).flatMap (leafViolations rt registry limits)).Sublist
      (walk rt registry limits depth node).violations := by
  induction node generalizing depth n with
  | bool kind children ih =>
    cases n with
    | zero => exact List.nil_sublist _
    | succ n =>
      rw [walk, if_neg (by omega), QueryNode.leavesWithin]
      exact recorded_walkChildren fun child hchild => ih child hchild (by omega)
  | not child ih =>
    cases n with
    | zero => exact List.nil_sublist _
    | succ n =>
      rw [walk, if_neg (by omega), QueryNode.leavesWithin]
      exact ih (by omega)
  | matchAll => cases n <;> exact List.nil_sublist _
  | term field value fuzzy =>
    cases n with
    | zero => exact List.nil_sublist _
    | succ n =>
      rw [walk, if_neg (by omega)]
      exact recorded_leaf (.term field value fuzzy)
  | phrase field value proximity =>
    cases n with
    | zero => exact List.nil_sublist _
    | succ n =>
      rw [walk, if_neg (by omega)]
      exact recorded_leaf (.phrase field value proximity)
  | wildcard field value =>
    cases n with
    | zero => exact List.nil_sublist _
    | succ n =>
      rw [walk, if_neg (by omega)]
      exact recorded_leaf (.wildcard field value)
  | range field bounds =>
    cases n with
    | zero => exact List.nil_sublist _
    | succ n =>
      rw [walk, if_neg (by omega)]
      exact recorded_leaf (.range field bounds)
  | exists_ field =>
    cases n with
    | zero => exact List.nil_sublist _
    | succ n =>
      rw [walk, if_neg (by omega)]
      exact recorded_leaf (.exists field)

/-- The leaves down to a depth are leaves. -/
theorem leafSpec_of_mem {node leaf : QueryNode} {n : ℕ} (h : leaf ∈ node.leavesWithin n) :
    LeafSpec rt registry limits leaf (checkLeaf rt registry limits leaf) := by
  have hnone : ∀ node : QueryNode, leaf ∉ node.leavesWithin 0 := by
    intro node hmem
    rw [QueryNode.leavesWithin] at hmem
    cases hmem
  induction node generalizing n with
  | bool kind children ih =>
    cases n with
    | zero => exact absurd h (hnone _)
    | succ n =>
      rw [QueryNode.leavesWithin] at h
      induction children with
      | nil => cases h
      | cons child children ihs =>
        rcases List.mem_append.mp h with h | h
        · exact ih child List.mem_cons_self h
        · exact ihs (fun c hc => ih c (List.mem_cons_of_mem _ hc)) h
  | not child ih =>
    cases n with
    | zero => exact absurd h (hnone _)
    | succ n =>
      rw [QueryNode.leavesWithin] at h
      exact ih h
  | matchAll => cases n <;> cases h
  | term field value fuzzy =>
    cases n with
    | zero => exact absurd h (hnone _)
    | succ n =>
      obtain rfl := List.mem_singleton.mp h
      exact validateTerm_spec field value fuzzy
  | phrase field value proximity =>
    cases n with
    | zero => exact absurd h (hnone _)
    | succ n =>
      obtain rfl := List.mem_singleton.mp h
      exact validatePhrase_spec field value proximity
  | wildcard field value =>
    cases n with
    | zero => exact absurd h (hnone _)
    | succ n =>
      obtain rfl := List.mem_singleton.mp h
      exact validateWildcard_spec field value
  | range field bounds =>
    cases n with
    | zero => exact absurd h (hnone _)
    | succ n =>
      obtain rfl := List.mem_singleton.mp h
      exact validateRange_spec field bounds
  | exists_ field =>
    cases n with
    | zero => exact absurd h (hnone _)
    | succ n =>
      obtain rfl := List.mem_singleton.mp h
      exact validateExists_spec field

/-- A leaf that is not acceptable has a violation recorded for it. -/
theorem LeafSpec.violations_ne_nil {leaf : QueryNode}
    (h : LeafSpec rt registry limits leaf (checkLeaf rt registry limits leaf))
    (hleaf : ¬ leaf.LeafAcceptable rt registry limits) :
    leafViolations rt registry limits leaf ≠ [] := by
  rw [leafViolations]
  cases hcheck : checkLeaf rt registry limits leaf with
  | ok v => exact absurd (h.ok v hcheck).1 hleaf
  | error violations => exact h.error violations hcheck

/-! ## The limits -/

theorem withinBounds_of_leafAcceptable {leaf : QueryNode}
    (h : leaf.LeafAcceptable rt registry limits) : leaf.WithinBounds limits := by
  obtain ⟨field, -, hfits⟩ := h
  cases leaf with
  | term name value fuzzy => exact fun edits hedits => (hfits.fuzzy edits hedits).2
  | phrase name value proximity =>
    refine ⟨hfits.terms, fun distance hdistance => ?_⟩
    have hproximity := hfits.proximity
    rwa [Option.mem_def.mp hdistance] at hproximity
  | wildcard name value => exact fun n hn => (hfits.literal n hn).2
  | range name bounds => trivial
  | «exists» name => trivial
  | bool kind children => trivial
  | not child => trivial
  | matchAll => trivial

theorem Acceptable.withinLimits {node : QueryNode} (h : Acceptable rt registry limits node) :
    WithinLimits limits node where
  clauses := h.clauses
  depth := h.depth
  bounds leaf hleaf := withinBounds_of_leafAcceptable (h.leaves leaf hleaf)

/-! ## Queries -/

section Queries

variable (rt registry limits)

/-- **What validation keeps.** A query that is validated keeps to the limits, and what is returned
is the query, node for node. An error has the violations of every leaf the depth allows, one after
another, and a leaf that is not acceptable has some. -/
theorem validateAst_keeps (node : QueryNode) :
    match validateAst rt registry limits node with
    | .ok ast => WithinLimits limits node ∧ Typed rt registry node ast.root
    | .error e => ∃ violations, e = .validation violations ∧
        ((node.leavesWithin limits.maxDepth).flatMap
          (leafViolations rt registry limits)).Sublist violations ∧
        ∀ leaf ∈ node.leavesWithin limits.maxDepth,
          ¬ leaf.LeafAcceptable rt registry limits →
            leafViolations rt registry limits leaf ≠ [] := by
  have hrecorded : ((node.leavesWithin limits.maxDepth).flatMap
      (leafViolations rt registry limits)).Sublist (walk rt registry limits 1 node).violations :=
    recorded_walk (Nat.add_comm _ _)
  cases hvalidate : validateAst rt registry limits node with
  | ok ast =>
    refine ⟨(validateAst_leaves hvalidate).1.withinLimits, ?_⟩
    rw [validateAst] at hvalidate
    split_ifs at hvalidate
    split at hvalidate
    · cases hvalidate
    · rename_i root hroot
      obtain rfl := Except.ok.inj hvalidate
      exact typed_walk hroot
  | error e =>
    have hleaves : ∀ leaf ∈ node.leavesWithin limits.maxDepth,
        ¬ leaf.LeafAcceptable rt registry limits →
          leafViolations rt registry limits leaf ≠ [] :=
      fun leaf hleaf => (leafSpec_of_mem hleaf).violations_ne_nil
    rw [validateAst] at hvalidate
    split_ifs at hvalidate with hviolations
    · obtain rfl := Except.error.inj hvalidate
      exact ⟨_, rfl, hrecorded.trans (List.sublist_append_left _ _), hleaves⟩
    · rw [ne_eq, not_not, List.append_eq_nil_iff] at hviolations
      rw [hviolations.1] at hrecorded
      split at hvalidate
      · obtain rfl := Except.error.inj hvalidate
        exact ⟨_, rfl, hrecorded.trans (List.nil_sublist _), hleaves⟩
      · cases hvalidate

end Queries

mutual

/-- The leaves of a query, those that find everything among them. -/
def QueryNode.leafCount : QueryNode → ℕ
  | .bool _ children => leafCountOf children
  | .not child => child.leafCount
  | _ => 1

/-- The leaves of several queries. -/
def leafCountOf : List QueryNode → ℕ
  | [] => 0
  | child :: children => child.leafCount + leafCountOf children

end

/-- **`match_all` is not counted**: 65 of them are validated, though 64 leaves are allowed. -/
theorem everything_not_counted :
    ¬ ∀ (limits : CostLimits) (node : QueryNode) (ast : ValidatedAst ℤ),
      validateAst asciiRuntime defaultFieldRegistry limits node = .ok ast →
        node.leafCount ≤ limits.maxClauses := by
  intro h
  have hacceptable : Acceptable asciiRuntime defaultFieldRegistry defaultCostLimits
      (.bool .or (List.replicate 65 .matchAll)) := by
    have hnone : (QueryNode.bool .or (List.replicate 65 .matchAll)).leaves = [] := rfl
    refine ⟨by decide +kernel, by rw [hnone]; exact Nat.zero_le _, ?_⟩
    rw [hnone]
    exact List.forall_mem_nil _
  obtain ⟨ast, hast⟩ := validateAst_ok_iff.mpr hacceptable
  exact absurd (h _ _ ast hast) (by decide)

end AegCloudDfir.Search
