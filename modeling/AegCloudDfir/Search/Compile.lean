import AegCloudDfir.Search.Dsl

/-!
# From validated queries to OpenSearch

`packages/search/src/compile.ts`: the compiler, the authorization wrapper every query
goes through, and the request body. What a user's query means is said on its own
(`ValidatedNode.Meaning`), leaf by leaf and without the DSL; the compiler is correct if
its output matches exactly the documents that satisfy the meaning and that the caller
may see (`Authorized`).
-/

namespace AegCloudDfir.Search

variable {Num : Type}

/-- `AuthContext`; `caseIds` is `none` when it is `null` or `undefined`. -/
structure AuthContext where
  tenantId : JsString
  caseIds : Option (List JsString)
  includePrivileged : Bool
  /-- `ownerUserId` and `caseIds` -/
  importAccess : Option (JsString × List JsString)

/-! ## Leaves -/

/-- `KEYWORD_MULTIFIELDS`. -/
def keywordMultifields : List JsString := [js "name", js "email.subject"]

/-- `wildcardPath`. -/
def wildcardPath (esPath : Option JsString) : Option JsString :=
  match esPath with
  | none => none
  | some path => if path ∈ keywordMultifields then some (path ++ js ".keyword") else some path

/-- `esPath` as a computed key or in a template: `undefined` is spelled out. -/
def pathKey (esPath : Option JsString) : JsString := esPath.getD (js "undefined")

/-- `isEmailAddress`. -/
def isEmailAddress (value : JsString) : Bool := unitOf '@' ∈ value

/-- `addressPaths`. -/
def addressPath (field : ResolvedField) (value : JsString) : JsString :=
  if field.esPath = some (js "addresses") then
    if isEmailAddress value then js "addresses.all" else js "addresses.domains"
  else if isEmailAddress value then pathKey field.esPath ++ js ".address"
  else pathKey field.esPath ++ js ".domain"

/-- `headerQuery`. -/
def headerQuery (field : ResolvedField) (valueQuery : Dsl Num) : Dsl Num :=
  .nested (js "headers")
    (.must [.term (js "headers.name") (.text (field.headerName.getD [])), valueQuery])

/-- `ocrQuery`, for the match query `q` of a path. -/
def ocrQuery (q : JsString → Dsl Num) : Dsl Num :=
  .anyOf [q (js "text.ocr"), .nested (js "ocrPages") (q (js "ocrPages.text"))]

/-- Either Bates number of an entry. -/
def batesEither (q : JsString → Dsl Num) : Dsl Num :=
  .nested (js "bates") (.anyOf [q (js "bates.begBates"), q (js "bates.endBates")])

/-- `batesQuery`. -/
def batesQuery (rt : JsRuntime Num) (value : JsString) : Dsl Num :=
  batesEither fun path => .term path (.text (rt.lower value))

/-- `String(value)`. -/
def FieldValue.show (rt : JsRuntime Num) : FieldValue Num → JsString
  | .text s => s
  | .number n => rt.showNumber n
  | .bool b => if b then js "true" else js "false"

variable (rt : JsRuntime Num)

/-- `compileTerm`. A field without a type falls through every case. -/
def compileTerm (field : ResolvedField) (value : FieldValue Num) (fuzzy : Option ℕ) : Dsl Num :=
  match field.type with
  | some .header => headerQuery field (.match (js "headers.value") (value.show rt) fuzzy)
  | some .ocr => ocrQuery fun path => .match path (value.show rt) fuzzy
  | some .address =>
    .term (addressPath field (value.show rt)) (.text (rt.lower (value.show rt)))
  | some .boolean => .term (pathKey field.esPath) (.bool (value matches .bool true))
  | some .size => .term (pathKey field.esPath) value
  | some .keyword =>
    if field.name = js "bates" then batesQuery rt (value.show rt)
    else
      match fuzzy with
      | some edits => .fuzzy (pathKey field.esPath) (value.show rt) edits
      | none => .term (pathKey field.esPath) (.text (rt.lower (value.show rt)))
  | some .text =>
    if field.esPath = some allTextPath then .multiMatch allTextFields (value.show rt) fuzzy
    else .match (pathKey field.esPath) (value.show rt) fuzzy
  | some .date => .term (pathKey field.esPath) (.text (value.show rt))
  | none => .undefined

/-- `compilePhrase`. -/
def compilePhrase (field : ResolvedField) (value : JsString) (proximity : Option ℕ) : Dsl Num :=
  let slop := proximity.getD 0
  match field.type with
  | some .header => headerQuery field (.matchPhrase (js "headers.value") value slop)
  | some .ocr => ocrQuery fun path => .matchPhrase path value slop
  | some .address => .term (addressPath field value) (.text (rt.lower value))
  | some .keyword =>
    if field.name = js "bates" then batesQuery rt value
    else .term (pathKey field.esPath) (.text (rt.lower value))
  | some .text =>
    if field.esPath = some allTextPath then .multiMatchPhrase allTextFields value slop
    else .matchPhrase (pathKey field.esPath) value slop
  | _ => .matchPhrase (pathKey field.esPath) value slop

/-- `compileWildcard`. -/
def compileWildcard (field : ResolvedField) (value : JsString) : Dsl Num :=
  let wildcard := fun path => Dsl.wildcard path (rt.lower value)
  match field.type with
  | some .header => headerQuery field (wildcard (js "headers.value.keyword"))
  | some .ocr => wildcard (js "text.ocr")
  | some .address => wildcard (addressPath field value)
  | some .keyword =>
    if field.name = js "bates" then batesEither wildcard else wildcard (pathKey field.esPath)
  | some .text =>
    if field.esPath = some allTextPath then
      .anyOf (allTextFields.map fun path => wildcard (pathKey (wildcardPath (some path))))
    else wildcard (pathKey (wildcardPath field.esPath))
  | _ => wildcard (pathKey (wildcardPath field.esPath))

/-- `compileExists`. -/
def compileExists (field : ResolvedField) : Dsl Num :=
  if field.type = some .header then
    .nested (js "headers") (.term (js "headers.name") (.text (field.headerName.getD [])))
  else if field.type = some .address then
    if field.esPath = some (js "addresses") then .exists (some (js "addresses.all"))
    else .exists (some (pathKey field.esPath ++ js ".address"))
  else .exists field.esPath

/-! ## Queries -/

mutual

/-- `compileNode`. -/
def compileNode : ValidatedNode Num → Dsl Num
  | .matchAll => .matchAll
  | .bool .and children => .must (compileNodes children)
  | .bool .or children => .anyOf (compileNodes children)
  | .not child => .mustNot [compileNode child]
  | .term field value fuzzy => compileTerm rt field value fuzzy
  | .phrase field value proximity => compilePhrase rt field value proximity
  | .wildcard field value => compileWildcard rt field value
  | .exists field => compileExists field
  | .range field bounds => .range (pathKey field.esPath) bounds

/-- `children.map(compileNode)`. -/
def compileNodes : List (ValidatedNode Num) → List (Dsl Num)
  | [] => []
  | child :: children => compileNode child :: compileNodes children

end

/-- The filters of `wrapWithAuthorization`. -/
def authorizationFilter (auth : AuthContext) : List (Dsl Num) :=
  ([.term (js "tenantId") (.text auth.tenantId)] : List (Dsl Num)) ++
  (match auth.caseIds with
    | none => []
    | some caseIds => [.terms (js "caseIds") caseIds] : List (Dsl Num)) ++
  (match auth.importAccess with
    | none => []
    | some (ownerUserId, caseIds) =>
      [.anyOf
        [.mustNot [.exists (some (js "importId"))],
          .term (js "importOwnerId") (.text ownerUserId),
          .terms (js "caseIds") caseIds]] : List (Dsl Num)) ++
  (if auth.includePrivileged then [] else [.term (js "privileged") (.bool false)] : List (Dsl Num))

/-- `wrapWithAuthorization`. -/
def wrapWithAuthorization (query : Dsl Num) (auth : AuthContext) : Except QueryError (Dsl Num) :=
  if auth.tenantId.length = 0 then
    .error (.validation [js "Authorization context requires a non-empty tenantId"])
  else .ok (.bool (authorizationFilter auth) [query] [] [] none)

/-- `compile`. -/
def compile (ast : ValidatedAst Num) (auth : AuthContext) : Except QueryError (Dsl Num) :=
  wrapWithAuthorization (compileNode rt ast.root) auth

/-! ## Request bodies -/

/-- `SORT_FIELDS`. -/
def sortFields : List (JsString × JsString) :=
  [(js "primarydate", js "dates.primary"), (js "name", js "name.keyword"), (js "size", js "size"),
    (js "indexedat", js "indexedAt"), (js "received", js "dates.received"),
    (js "sent", js "dates.sent"), (js "score", js "_score")]

/-- `FACET_FIELDS`. -/
def facetFields : List (JsString × JsString) :=
  [(js "custodianEmail", js "custodianEmail"), (js "extension", js "extension"),
    (js "provider", js "provider"), (js "tagNames", js "tagNames"), (js "kind", js "kind"),
    (js "malwareStatus", js "malwareStatus"), (js "auditWorkload", js "audit.workload"),
    (js "auditOperation", js "audit.operation"), (js "auditActor", js "audit.actorEmail")]

/-- `SearchRequestOptions`. -/
structure SearchRequestOptions (Num : Type) where
  sort : List JsString
  searchAfter : Option (List (FieldValue Num))
  limit : Option ℤ
  highlight : Bool
  facets : List JsString

/-- A property of one of the tables above; `none` is an inherited one, which is not
a path but is not falsy either. -/
def tablePath (table : List (JsString × JsString)) (key : JsString)
    (error : QueryError) : Except QueryError (Option JsString) :=
  match readProperty table key with
  | .own path => if path.length = 0 then .error error else .ok (some path)
  | .inherited => .ok none
  | .missing => .error error

/-- One entry of `buildSort`: the path and whether it is descending. -/
def sortSpec (raw : JsString) : Except QueryError (Option JsString × Bool) := do
  let descending := startsWith raw (js "-")
  let name := rt.lower (if descending then raw.drop 1 else raw)
  let path ← tablePath sortFields name (.validation [js "Unknown sort field \"" ++ raw ++
    js "\". Allowed: " ++ joinWith (js ", ") (sortFields.map Prod.fst)])
  pure (path, descending)

/-- `buildSort`. -/
def buildSort (sort : List JsString) : Except QueryError (List (Option JsString × Bool)) := do
  let specs ← sort.mapM (sortSpec rt)
  let specs := if specs.length = 0 then [(some (js "_score"), true)] else specs
  pure (specs ++ [(some (js "evidenceItemId"), false)])

/-- `SearchRequestBody`. -/
structure SearchRequestBody (Num : Type) where
  query : Dsl Num
  size : ℤ
  sort : List (Option JsString × Bool)
  trackTotalHits : Bool
  searchAfter : Option (List (FieldValue Num))
  highlight : Bool
  aggs : List (JsString × Option JsString)

/-- `MAX_PAGE_SIZE`. -/
def maxPageSize : ℤ := 100

/-- `DEFAULT_PAGE_SIZE`. -/
def defaultPageSize : ℤ := 50

/-- `buildSearchRequest`. -/
def buildSearchRequest (ast : ValidatedAst Num) (auth : AuthContext)
    (opts : SearchRequestOptions Num) : Except QueryError (SearchRequestBody Num) := do
  let query ← compile rt ast auth
  let sort ← buildSort rt opts.sort
  let aggs ← opts.facets.mapM fun facet => do
    let path ← tablePath facetFields facet (.validation [js "Unknown facet \"" ++ facet ++
      js "\". Allowed: " ++ joinWith (js ", ") (facetFields.map Prod.fst)])
    pure (facet, path)
  pure
    { query
      size := min (max (opts.limit.getD defaultPageSize) 1) maxPageSize
      sort
      trackTotalHits := true
      searchAfter := opts.searchAfter
      highlight := opts.highlight
      aggs }

/-! ## What a query means -/

section Meaning

variable (engine : Engine Num) (doc : Scope Num)

/-- A header of the field's name satisfies `P`. -/
def InHeader (field : ResolvedField) (P : Scope Num → Prop) : Prop :=
  ∃ header ∈ doc.nested (js "headers"),
    engine.term (js "headers.name") (.text (field.headerName.getD [])) (.ofNested header) ∧
      P (.ofNested header)

/-- The recognized text satisfies `P`, as a whole or on one page. -/
def InOcr (P : JsString → Scope Num → Prop) : Prop :=
  P (js "text.ocr") doc ∨
    ∃ page ∈ doc.nested (js "ocrPages"), P (js "ocrPages.text") (.ofNested page)

/-- The first or the last Bates number of a production satisfies `P`. -/
def InBates (P : JsString → Scope Num → Prop) : Prop :=
  ∃ entry ∈ doc.nested (js "bates"),
    P (js "bates.begBates") (.ofNested entry) ∨ P (js "bates.endBates") (.ofNested entry)

/-- What a term leaf asks of a document. -/
def TermMeaning (field : ResolvedField) (value : FieldValue Num) (fuzzy : Option ℕ) : Prop :=
  match field.type with
  | some .header => InHeader engine doc field fun header =>
      engine.fullText (js "headers.value") (value.show rt) fuzzy header
  | some .ocr => InOcr doc fun path part => engine.fullText path (value.show rt) fuzzy part
  | some .address =>
      engine.term (addressPath field (value.show rt)) (.text (rt.lower (value.show rt))) doc
  | some .boolean => engine.term (pathKey field.esPath) (.bool (value matches .bool true)) doc
  | some .size => engine.term (pathKey field.esPath) value doc
  | some .keyword =>
    if field.name = js "bates" then
      InBates doc fun path entry => engine.term path (.text (rt.lower (value.show rt))) entry
    else
      match fuzzy with
      | some edits => engine.fuzzy (pathKey field.esPath) (value.show rt) edits doc
      | none => engine.term (pathKey field.esPath) (.text (rt.lower (value.show rt))) doc
  | some .text =>
    if field.esPath = some allTextPath then
      engine.multiText allTextFields (value.show rt) fuzzy doc
    else engine.fullText (pathKey field.esPath) (value.show rt) fuzzy doc
  | some .date => engine.term (pathKey field.esPath) (.text (value.show rt)) doc
  | none => False

/-- What a phrase leaf asks of a document. -/
def PhraseMeaning (field : ResolvedField) (value : JsString) (slop : ℕ) : Prop :=
  match field.type with
  | some .header => InHeader engine doc field fun header =>
      engine.phrase (js "headers.value") value slop header
  | some .ocr => InOcr doc fun path part => engine.phrase path value slop part
  | some .address => engine.term (addressPath field value) (.text (rt.lower value)) doc
  | some .keyword =>
    if field.name = js "bates" then
      InBates doc fun path entry => engine.term path (.text (rt.lower value)) entry
    else engine.term (pathKey field.esPath) (.text (rt.lower value)) doc
  | some .text =>
    if field.esPath = some allTextPath then engine.multiPhrase allTextFields value slop doc
    else engine.phrase (pathKey field.esPath) value slop doc
  | _ => engine.phrase (pathKey field.esPath) value slop doc

/-- What a wildcard leaf asks of a document. -/
def WildcardMeaning (field : ResolvedField) (value : JsString) : Prop :=
  match field.type with
  | some .header => InHeader engine doc field fun header =>
      engine.wildcard (js "headers.value.keyword") (rt.lower value) header
  | some .ocr => engine.wildcard (js "text.ocr") (rt.lower value) doc
  | some .address => engine.wildcard (addressPath field value) (rt.lower value) doc
  | some .keyword =>
    if field.name = js "bates" then
      InBates doc fun path entry => engine.wildcard path (rt.lower value) entry
    else engine.wildcard (pathKey field.esPath) (rt.lower value) doc
  | some .text =>
    if field.esPath = some allTextPath then
      ∃ path ∈ allTextFields,
        engine.wildcard (pathKey (wildcardPath (some path))) (rt.lower value) doc
    else engine.wildcard (pathKey (wildcardPath field.esPath)) (rt.lower value) doc
  | _ => engine.wildcard (pathKey (wildcardPath field.esPath)) (rt.lower value) doc

/-- The field has a value. -/
def ExistsMeaning (field : ResolvedField) : Prop :=
  if field.type = some .header then InHeader engine doc field fun _ => True
  else if field.type = some .address then
    if field.esPath = some (js "addresses") then doc.values (js "addresses.all") ≠ []
    else doc.values (pathKey field.esPath ++ js ".address") ≠ []
  else ∃ path ∈ field.esPath, doc.values path ≠ []

mutual

/-- The boolean meaning of a query over its leaves. -/
def ValidatedNode.Meaning : ValidatedNode Num → Prop
  | .matchAll => True
  | .bool .and children => AllMean children
  | .bool .or children => AnyMeans children
  | .not child => ¬ child.Meaning
  | .term field value fuzzy => TermMeaning rt engine doc field value fuzzy
  | .phrase field value proximity => PhraseMeaning rt engine doc field value (proximity.getD 0)
  | .wildcard field value => WildcardMeaning rt engine doc field value
  | .exists field => ExistsMeaning engine doc field
  | .range field bounds => engine.range (pathKey field.esPath) bounds doc

/-- Every child holds. -/
def AllMean : List (ValidatedNode Num) → Prop
  | [] => True
  | child :: children => child.Meaning ∧ AllMean children

/-- Some child holds. -/
def AnyMeans : List (ValidatedNode Num) → Prop
  | [] => False
  | child :: children => child.Meaning ∨ AnyMeans children

end

end Meaning

/-! ## The compiler is correct -/

section Correct

variable {rt} {engine : Engine Num} {doc : Scope Num}

theorem matches_headerQuery {field : ResolvedField} {query : Dsl Num} :
    (headerQuery field query).matches engine doc ↔
      InHeader engine doc field fun header => query.matches engine header := by
  simp [headerQuery, InHeader, Dsl.matches]

theorem matches_ocrQuery {q : JsString → Dsl Num} :
    (ocrQuery q).matches engine doc ↔
      InOcr doc fun path part => (q path).matches engine part := by
  simp [ocrQuery, InOcr]

theorem matches_batesEither {q : JsString → Dsl Num} :
    (batesEither q).matches engine doc ↔
      InBates doc fun path entry => (q path).matches engine entry := by
  simp [batesEither, InBates]

theorem matches_compileTerm {field : ResolvedField} {value : FieldValue Num}
    {fuzzy : Option ℕ} :
    (compileTerm rt field value fuzzy).matches engine doc ↔
      TermMeaning rt engine doc field value fuzzy := by
  unfold compileTerm TermMeaning
  rcases field.type with _ | type
  · simp [Dsl.matches]
  · cases type with
    | header => exact matches_headerQuery
    | ocr => exact matches_ocrQuery
    | keyword =>
      by_cases hbates : field.name = js "bates"
      · simp only [hbates, if_true]
        exact matches_batesEither
      · simp only [hbates, if_false]
        cases fuzzy <;> rfl
    | text =>
      by_cases hall : field.esPath = some allTextPath
      · simp only [hall, if_true]
        rfl
      · simp only [hall, if_false]
        rfl
    | boolean => rfl
    | address => rfl
    | size => rfl
    | date => rfl

theorem matches_compilePhrase {field : ResolvedField} {value : JsString}
    {proximity : Option ℕ} :
    (compilePhrase rt field value proximity).matches engine doc ↔
      PhraseMeaning rt engine doc field value (proximity.getD 0) := by
  rw [compilePhrase, PhraseMeaning]
  rcases field.type with _ | type
  · rfl
  · cases type with
    | header => exact matches_headerQuery
    | ocr => exact matches_ocrQuery
    | keyword =>
      by_cases hbates : field.name = js "bates"
      · simp only [hbates, if_true]
        exact matches_batesEither
      · simp only [hbates, if_false]
        rfl
    | text =>
      by_cases hall : field.esPath = some allTextPath
      · simp only [hall, if_true]
        rfl
      · simp only [hall, if_false]
        rfl
    | address => rfl
    | size => rfl
    | date => rfl
    | boolean => rfl

theorem matches_compileWildcard {field : ResolvedField} {value : JsString} :
    (compileWildcard rt field value).matches engine doc ↔
      WildcardMeaning rt engine doc field value := by
  rw [compileWildcard, WildcardMeaning]
  rcases field.type with _ | type
  · rfl
  · cases type with
    | header => exact matches_headerQuery
    | keyword =>
      by_cases hbates : field.name = js "bates"
      · simp only [hbates, if_true]
        exact matches_batesEither
      · simp only [hbates, if_false]
        rfl
    | text =>
      by_cases hall : field.esPath = some allTextPath
      · simp only [hall, if_true, matches_anyOf, List.mem_map, exists_exists_and_eq_and]
        rfl
      · simp only [hall, if_false]
        rfl
    | ocr => rfl
    | address => rfl
    | size => rfl
    | date => rfl
    | boolean => rfl

theorem matches_exists {field : Option JsString} :
    (Dsl.exists field : Dsl Num).matches engine doc ↔ ∃ path ∈ field, doc.values path ≠ [] := by
  cases field <;> simp [Dsl.matches]

theorem matches_compileExists {field : ResolvedField} :
    (compileExists field).matches engine doc ↔ ExistsMeaning engine doc field := by
  rw [compileExists, ExistsMeaning]
  split_ifs
  · simp [InHeader, Dsl.matches]
  · rw [matches_exists]
    simp
  · rw [matches_exists]
    simp
  · exact matches_exists

theorem compileNodes_eq (children : List (ValidatedNode Num)) :
    compileNodes rt children = children.map (compileNode rt) := by
  induction children with
  | nil => rfl
  | cons child children ih => rw [compileNodes, ih, List.map_cons]

theorem allMean_iff (children : List (ValidatedNode Num)) :
    AllMean rt engine doc children ↔ ∀ c ∈ children, c.Meaning rt engine doc := by
  induction children with
  | nil => simp [AllMean]
  | cons child children ih => rw [AllMean, ih, List.forall_mem_cons]

theorem anyMeans_iff (children : List (ValidatedNode Num)) :
    AnyMeans rt engine doc children ↔ ∃ c ∈ children, c.Meaning rt engine doc := by
  induction children with
  | nil => simp [AnyMeans]
  | cons child children ih => simp [AnyMeans, ih]

/-- **The compiler keeps the meaning** of every query. -/
theorem matches_compileNode (node : ValidatedNode Num) :
    (compileNode rt node).matches engine doc ↔ node.Meaning rt engine doc := by
  induction node with
  | bool kind children ih =>
    cases kind with
    | and =>
      rw [compileNode, ValidatedNode.Meaning, allMean_iff, matches_must, compileNodes_eq,
        List.forall_mem_map]
      exact forall₂_congr ih
    | or =>
      rw [compileNode, ValidatedNode.Meaning, anyMeans_iff, matches_anyOf, compileNodes_eq]
      simp only [List.mem_map, exists_exists_and_eq_and]
      exact exists_congr fun c => and_congr_right (ih c)
  | not child ih =>
    rw [compileNode, ValidatedNode.Meaning, matches_mustNot, List.forall_mem_singleton]
    exact not_congr ih
  | term field value fuzzy => exact matches_compileTerm
  | phrase field value proximity => exact matches_compilePhrase
  | wildcard field value => exact matches_compileWildcard
  | range field bounds => rfl
  | exists_ field => exact matches_compileExists
  | matchAll => simp [compileNode, ValidatedNode.Meaning, Dsl.matches]

end Correct

end AegCloudDfir.Search
