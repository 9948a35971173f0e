import AegCloudDfir.Search.Parser

/-!
# Validation

`packages/search/src/validate.ts`: resolving the fields of a query, checking the
values of its leaves, and the cost limits. The validator collects every violation
and goes on; a node it could not validate is `null`. Here a leaf that fails returns its
violations, and the walk puts those of the whole query together.
-/

namespace AegCloudDfir.Search

/-- `CostLimits`. -/
structure CostLimits where
  maxClauses : ℕ
  maxDepth : ℕ
  minWildcardPrefix : ℕ
  maxFuzzyEdits : ℕ
  maxProximity : ℕ
  maxPhraseTerms : ℕ

/-- `DEFAULT_COST_LIMITS`. -/
def defaultCostLimits : CostLimits where
  maxClauses := 64
  maxDepth := 8
  minWildcardPrefix := 3
  maxFuzzyEdits := 2
  maxProximity := 50
  maxPhraseTerms := 32

/-- The value of a validated leaf. -/
inductive FieldValue (Num : Type) : Type where
  | text (s : JsString)
  | number (n : Num)
  | bool (b : Bool)
  deriving DecidableEq

instance fieldValueLawfulBEq : LawfulBEq (FieldValue ℤ) := inferInstance

/-- `ValidatedNode`. -/
inductive ValidatedNode (Num : Type) : Type where
  | bool (kind : BoolKind) (children : List (ValidatedNode Num))
  | not (child : ValidatedNode Num)
  | term (field : ResolvedField) (value : FieldValue Num) (fuzzy : Option ℕ)
  | phrase (field : ResolvedField) (value : JsString) (proximity : Option ℕ)
  | wildcard (field : ResolvedField) (value : JsString)
  | range (field : ResolvedField) (bounds : Bounds (FieldValue Num))
  | exists (field : ResolvedField)
  | matchAll

/-- Induction over a validated query through the children of its nodes. -/
@[elab_as_elim, induction_eliminator]
theorem ValidatedNode.inductionOn {Num : Type} {motive : ValidatedNode Num → Prop}
    (node : ValidatedNode Num)
    (bool : ∀ kind children, (∀ c ∈ children, motive c) → motive (bool kind children))
    (not : ∀ child, motive child → motive (not child))
    (term : ∀ field value fuzzy, motive (term field value fuzzy))
    (phrase : ∀ field value proximity, motive (phrase field value proximity))
    (wildcard : ∀ field value, motive (wildcard field value))
    (range : ∀ field bounds, motive (range field bounds))
    (exists_ : ∀ field, motive (.exists field)) (matchAll : motive matchAll) : motive node := by
  refine @ValidatedNode.rec Num motive (fun cs => ∀ c ∈ cs, motive c) bool not term phrase
    wildcard range exists_ matchAll ?_ ?_ node
  · intro c hc
    cases hc
  · intro c cs hc hcs d hd
    rcases List.mem_cons.mp hd with rfl | hd
    · exact hc
    · exact hcs d hd

/-- `ValidatedAst`. -/
structure ValidatedAst (Num : Type) where
  root : ValidatedNode Num

variable {Num : Type} (rt : JsRuntime Num)

/-! ## Literals -/

/-- `s.trim()`. -/
def trim (s : JsString) : JsString :=
  ((s.dropWhile isSpace).reverse.dropWhile isSpace).reverse

/-- `\d{n}` at the start: what follows. -/
def skipDigits : ℕ → JsString → Option JsString
  | 0, s => some s
  | _ + 1, [] => none
  | n + 1, c :: s => if isDigit c then skipDigits n s else none

/-- One character of a class at the start: what follows. -/
def skipOne (p : CodeUnit → Bool) : JsString → Option JsString
  | [] => none
  | c :: s => if p c then some s else none

/-- `SIZE_MULTIPLIERS`. -/
def sizeMultipliers : List (JsString × ℕ) :=
  [(js "b", 1), (js "kb", 1024), (js "mb", 1024 * 1024), (js "gb", 1024 * 1024 * 1024)]

/-- `\d+(?:\.\d+)?` at the start: the number and what follows. -/
def scanAmount (s : JsString) : Option (JsString × JsString) :=
  let whole := s.takeWhile isDigit
  if whole = [] then none
  else
    match s.dropWhile isDigit with
    | c :: rest =>
      let fraction := rest.takeWhile isDigit
      if c = unitOf '.' ∧ fraction ≠ [] then
        some (whole ++ c :: fraction, rest.dropWhile isDigit)
      else some (whole, c :: rest)
    | [] => some (whole, [])

/-- `parseSizeValue`. The flag `i` of `SIZE_PATTERN` ignores the case of ASCII letters. -/
def parseSizeValue (value : JsString) : Option Num := do
  let (amount, rest) ← scanAmount (trim value)
  let suffix := rest.dropWhile isSpace
  if suffix = [] then rt.roundBytes amount 1
  else if asciiLower suffix ∈ sizeMultipliers.map Prod.fst then do
    let multiplier ← sizeMultipliers.lookup (rt.lower suffix)
    rt.roundBytes amount multiplier
  else none

/-- `\d{4}-\d{2}-\d{2}` at the start: what follows. -/
def skipDate (s : JsString) : Option JsString := do
  let s ← skipDigits 4 s
  let s ← skipOne (· = unitOf '-') s
  let s ← skipDigits 2 s
  let s ← skipOne (· = unitOf '-') s
  skipDigits 2 s

/-- `([Zz]|[+-]\d{2}:?\d{2})?$`. -/
def isZoneEnd (s : JsString) : Bool :=
  match s with
  | [] => true
  | c :: rest =>
    if c = unitOf 'Z' ∨ c = unitOf 'z' then rest = []
    else if c = unitOf '+' ∨ c = unitOf '-' then
      match skipDigits 2 rest with
      | none => false
      | some rest =>
        skipDigits 2 ((skipOne (· = unitOf ':') rest).getD rest) = some []
    else false

/-- `(\.\d{1,3})?` and the zone. -/
def isFractionEnd (s : JsString) : Bool :=
  match s with
  | c :: rest =>
    if c = unitOf '.' then
      let digits := rest.takeWhile isDigit
      (1 ≤ digits.length ∧ digits.length ≤ 3) && isZoneEnd (rest.dropWhile isDigit)
    else isZoneEnd s
  | [] => true

/-- `DATE_ONLY`. -/
def isDateOnly (s : JsString) : Bool := skipDate s = some []

/-- `DATE_TIME`. -/
def isDateTime (s : JsString) : Bool :=
  let minutes := do
    let s ← skipDate s
    let s ← skipOne (fun c => c = unitOf 'T' || c = unitOf 't' || c = unitOf ' ') s
    let s ← skipDigits 2 s
    let s ← skipOne (· = unitOf ':') s
    skipDigits 2 s
  match minutes with
  | none => false
  | some s =>
    match skipOne (· = unitOf ':') s with
    | none => isZoneEnd s
    | some s =>
      match skipDigits 2 s with
      | none => false
      | some s => isFractionEnd s

/-- `s.replace(' ', 'T')`: the first blank. -/
def replaceBlank : JsString → JsString
  | [] => []
  | c :: s => if c = unitOf ' ' then unitOf 'T' :: s else c :: replaceBlank s

/-- `parseDateValue`. -/
def parseDateValue (value : JsString) : Option JsString :=
  let trimmed := trim value
  if isDateOnly trimmed then
    if rt.dateParses (trimmed ++ js "T00:00:00Z") then some trimmed else none
  else if isDateTime trimmed then
    if rt.dateParses (replaceBlank trimmed) then some (replaceBlank trimmed) else none
  else none

/-- `HASH_PATTERN`. -/
def isHash (s : JsString) : Bool :=
  6 ≤ s.length ∧ s.length ≤ 64 ∧ ∀ c ∈ s, isDigit c ∨ (0x61 ≤ c ∧ c ≤ 0x66)

/-- `s.trim().split(/\s+/).length` for a string that is not blank. -/
def termCount (s : JsString) : ℕ := ((s.splitOnP isSpace).filter fun w => w ≠ []).length

/-- The position of the first wildcard. -/
def firstWildcard (s : JsString) : Option ℕ :=
  s.findIdx? fun c => c = unitOf '*' || c = unitOf '?'

/-! ## Leaves -/

variable (registry : FieldRegistry) (limits : CostLimits)

/-- What was checked, or the violations that were recorded for it. -/
abbrev Checked : Type → Type := Except (List JsString)

/-- `resolveField`. -/
def resolveField (name : Option JsString) : Checked ResolvedField :=
  match name with
  | none => .ok defaultTextField
  | some name =>
    match registry.resolve rt name with
    | .ok field => .ok field
    | .error (.validation violations) => .error violations
    | .error (.syntaxError message _) => .error [message]

/-- Field types that take neither fuzzy matching nor phrases nor wildcards. -/
def isExactType (type : Option FieldType) : Bool :=
  type = some .date ∨ type = some .size ∨ type = some .boolean

/-- The fuzzy checks of `validateTerm`. -/
def checkFuzzy (field : ResolvedField) (rawValue : JsString) (fuzzy : Option ℕ) :
    Checked Unit :=
  match fuzzy with
  | none => .ok ()
  | some edits =>
    if isExactType field.type then
      .error [js "Fuzzy matching is not supported on field \"" ++ field.name ++ js "\""]
    else if edits > limits.maxFuzzyEdits then
      .error [js "Fuzzy edit distance " ++ decimal edits ++ js " on \"" ++ rawValue ++
        js "\" exceeds the maximum of " ++ decimal limits.maxFuzzyEdits]
    else .ok ()

/-- `validateTerm`. -/
def validateTerm (fieldName : Option JsString) (rawValue : JsString) (fuzzy : Option ℕ) :
    Checked (ValidatedNode Num) := do
  let field ← resolveField rt registry fieldName
  if rawValue.length = 0 then
    .error [js "Empty value for field \"" ++ field.name ++ js "\""]
  else do
    checkFuzzy limits field rawValue fuzzy
    match field.type with
    | some .date =>
      match parseDateValue rt rawValue with
      | none => .error [js "Invalid date \"" ++ rawValue ++ js "\" for field \"" ++ field.name ++
          js "\" (expected YYYY-MM-DD or ISO 8601)"]
      | some date =>
        -- an exact date becomes an inclusive range over the value
        .ok (.range field ⟨some (.text date), some (.text date), none, none⟩)
    | some .size =>
      match parseSizeValue rt rawValue with
      | none => .error [js "Invalid size \"" ++ rawValue ++ js "\" for field \"" ++ field.name ++
          js "\" (expected a number with optional kb/mb/gb suffix)"]
      | some bytes => .ok (.term field (.number bytes) none)
    | some .boolean =>
      let lowered := rt.lower rawValue
      if lowered ≠ js "true" ∧ lowered ≠ js "false" then
        .error [js "Invalid boolean \"" ++ rawValue ++ js "\" for field \"" ++ field.name ++
          js "\" (expected true or false)"]
      else .ok (.term field (.bool (lowered = js "true")) none)
    | _ =>
      if field.name ∈ hashFieldNames then
        if isHash (rt.lower rawValue) then
          .ok (.term field (.text (rt.lower rawValue)) fuzzy)
        else
          .error [js "Invalid hash \"" ++ rawValue ++
            js "\": expected 6-64 lowercase hex characters"]
      else .ok (.term field (.text rawValue) fuzzy)

/-- `validatePhrase`. -/
def validatePhrase (fieldName : Option JsString) (value : JsString) (proximity : Option ℕ) :
    Checked (ValidatedNode Num) := do
  let field ← resolveField rt registry fieldName
  if (trim value).length = 0 then
    .error [js "Empty phrase for field \"" ++ field.name ++ js "\""]
  else if isExactType field.type then
    .error [js "Phrase queries are not supported on field \"" ++ field.name ++ js "\""]
  else if termCount (trim value) > limits.maxPhraseTerms then
    .error [js "Phrase has " ++ decimal (termCount (trim value)) ++
      js " terms, exceeding the maximum of " ++ decimal limits.maxPhraseTerms]
  else if proximity.getD 0 > limits.maxProximity then
    .error [js "Proximity " ++ decimal (proximity.getD 0) ++ js " exceeds the maximum of " ++
      decimal limits.maxProximity]
  else .ok (.phrase field value proximity)

/-- `validateWildcard`. -/
def validateWildcard (fieldName : Option JsString) (value : JsString) :
    Checked (ValidatedNode Num) := do
  let field ← resolveField rt registry fieldName
  if isExactType field.type then
    .error [js "Wildcards are not supported on field \"" ++ field.name ++ js "\""]
  else
    match firstWildcard value with
    | some 0 =>
      .error [js "Leading wildcards are forbidden (\"" ++ value ++
        js "\"): a wildcard term must start with at least " ++ decimal limits.minWildcardPrefix ++
        js " literal characters"]
    | some n =>
      if n < limits.minWildcardPrefix then
        .error [js "Wildcard term \"" ++ value ++ js "\" needs at least " ++
          decimal limits.minWildcardPrefix ++ js " literal characters before the first wildcard"]
      else .ok (.wildcard field value)
    | none => .ok (.wildcard field value)

/-- One bound of a range: its value, or the violation recorded for it. -/
def validateBound (field : ResolvedField) (raw : Option JsString) :
    Except JsString (Option (FieldValue Num)) :=
  match raw with
  | none => .ok none
  | some raw =>
    if field.type = some .date then
      match parseDateValue rt raw with
      | none => .error (js "Invalid date \"" ++ raw ++ js "\" in range for field \"" ++ field.name ++
          js "\" (expected YYYY-MM-DD or ISO 8601)")
      | some date => .ok (some (.text date))
    else
      match parseSizeValue rt raw with
      | none => .error (js "Invalid size \"" ++ raw ++ js "\" in range for field \"" ++ field.name ++
          js "\" (expected a number with optional kb/mb/gb suffix)")
      | some bytes => .ok (some (.number bytes))

/-- The violation of a bound, if there is one. -/
def boundViolation {α : Type} : Except JsString α → List JsString
  | .ok _ => []
  | .error message => [message]

/-- The value of a bound, unless it was violated or not given. -/
def boundValue {α : Type} : Except JsString (Option α) → Option α
  | .ok value => value
  | .error _ => none

/-- `validateRange`: the bounds are checked one after another. -/
def validateRange (fieldName : JsString) (bounds : Bounds JsString) :
    Checked (ValidatedNode Num) := do
  let field ← resolveField rt registry (some fieldName)
  if field.type ≠ some .date ∧ field.type ≠ some .size then
    .error [js "Range queries are only supported on date and size fields, not \"" ++ field.name ++
      js "\""]
  else
    let gte := validateBound rt field bounds.gte
    let lte := validateBound rt field bounds.lte
    let gt := validateBound rt field bounds.gt
    let lt := validateBound rt field bounds.lt
    let failed := boundViolation gte ++ boundViolation lte ++ boundViolation gt ++ boundViolation lt
    let result := Bounds.mk (boundValue gte) (boundValue lte) (boundValue gt) (boundValue lt)
    if failed ≠ [] then .error failed
    else if result.gte = none ∧ result.lte = none ∧ result.gt = none ∧ result.lt = none then
      .error [js "Range on \"" ++ field.name ++ js "\" must have at least one bound"]
    else .ok (.range field result)

/-- The `exists` case of `walk`. -/
def validateExists (fieldName : JsString) : Checked (ValidatedNode Num) := do
  let field ← resolveField rt registry (some fieldName)
  if field.esPath = defaultTextField.esPath ∧ field.type = some .text then
    .error [js "exists queries require a specific field"]
  else .ok (.exists field)

/-! ## The walk -/

/-- The state of the validator after a part of the query. -/
structure Walked (α : Type) where
  /-- the part, unless it is `null` -/
  node : Option α
  /-- the violations recorded for it -/
  violations : List JsString
  /-- its leaf clauses -/
  clauses : ℕ

/-- A leaf counts as one clause. -/
def walkLeaf : Checked (ValidatedNode Num) → Walked (ValidatedNode Num)
  | .ok node => ⟨some node, [], 1⟩
  | .error violations => ⟨none, violations, 1⟩

mutual

/-- `walk`. -/
def walk (depth : ℕ) (node : QueryNode) : Walked (ValidatedNode Num) :=
  if depth > limits.maxDepth then
    ⟨none, [js "Query nesting depth exceeds the maximum of " ++ decimal limits.maxDepth], 0⟩
  else
    match node with
    | .matchAll => ⟨some .matchAll, [], 0⟩
    | .bool kind children =>
      let walked := walkChildren (depth + 1) children
      ⟨walked.node.map (.bool kind), walked.violations, walked.clauses⟩
    | .not child =>
      let walked := walk (depth + 1) child
      ⟨walked.node.map .not, walked.violations, walked.clauses⟩
    | .term field value fuzzy => walkLeaf (validateTerm rt registry limits field value fuzzy)
    | .phrase field value proximity =>
      walkLeaf (validatePhrase rt registry limits field value proximity)
    | .wildcard field value => walkLeaf (validateWildcard rt registry limits field value)
    | .range field bounds => walkLeaf (validateRange rt registry field bounds)
    | .exists field => walkLeaf (validateExists rt registry field)

/-- The children of a boolean node; `null` if one of them is. -/
def walkChildren (depth : ℕ) (children : List QueryNode) : Walked (List (ValidatedNode Num)) :=
  match children with
  | [] => ⟨some [], [], 0⟩
  | child :: children =>
    let first := walk depth child
    let rest := walkChildren depth children
    ⟨first.node.bind fun node => rest.node.map (node :: ·), first.violations ++ rest.violations,
      first.clauses + rest.clauses⟩

end

/-- The violation of `maxClauses`, if there is one. -/
def clauseViolations (clauses : ℕ) : List JsString :=
  if clauses > limits.maxClauses then
    [js "Query has " ++ decimal clauses ++ js " clauses, exceeding the maximum of " ++
      decimal limits.maxClauses]
  else []

/-- `validateAst`. -/
def validateAst (ast : QueryNode) : Except QueryError (ValidatedAst Num) :=
  let walked := walk rt registry limits 1 ast
  let violations := walked.violations ++ clauseViolations limits walked.clauses
  if violations ≠ [] then .error (.validation violations)
  else
    match walked.node with
    | none => .error (.validation [js "Query could not be validated"])
    | some root => .ok ⟨root⟩

end AegCloudDfir.Search
