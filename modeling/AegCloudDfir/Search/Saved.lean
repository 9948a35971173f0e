import AegCloudDfir.Search.Access
import AegCloudDfir.Search.Advanced

/-!
# One text, run and saved

The text of a query can be run (`SearchService.execute` and `explain`,
`apps/api/src/search/search.service.ts`) and saved (`SavedSearchesService.create`,
`apps/api/src/search/saved-searches.service.ts`). Both requests say in which of two languages it is
written. A saved search keeps the tree that its text was parsed to, and cases, exports and
productions compile that. What is run is always parsed in the simple language.

Of a saved search stands here what is compiled or checked; the rows keep what is put into them.

* `execute`, `explain`, `create` — the entry points.
* `OneMeaning` — a text is run as it is saved.
* `ReadAlike` — the two languages say the same of a text.
* `oneMeaning_iff` — when a text is run as it is saved.
-/

namespace AegCloudDfir.Search.Saved

open Access (Caller HttpError State buildSearchAuth)

variable {Num Builder : Type}

/-! ## Requests -/

/-- `QUERY_SYNTAXES` -/
inductive QuerySyntax : Type where
  | simple
  | advanced
  deriving DecidableEq

/-- `SearchRequestInput` -/
structure SearchRequestInput (Num Builder : Type) where
  query : Option JsString
  querySyntax : QuerySyntax
  builder : Option Builder
  caseId : Option JsString
  sort : Option (List JsString)
  searchAfter : Option (List (FieldValue Num))
  limit : Option ℤ
  facets : Option (List JsString)
  includeHighlights : Option Bool

/-- `searchRequestSchema` -/
def SearchRequestInput.valid (input : SearchRequestInput Num Builder) : Bool :=
  (input.query.all fun query => query.length ≤ 4000) &&
    (input.sort.all fun sort => sort.length ≤ 3 ∧ sort.all fun field => field.length ≤ 40) &&
    (input.searchAfter.all fun values => values.length ≤ 4) &&
    (input.limit.all fun limit => 1 ≤ limit ∧ limit ≤ 100) &&
    input.facets.all fun facets => facets.length ≤ 6 ∧ facets.all fun facet => facet.length ≤ 40

/-- `savedSearchRequest` -/
structure SavedSearchRequest where
  name : JsString
  caseId : Option JsString
  queryText : JsString
  querySyntax : QuerySyntax
  /-- what was sent, if anything was; `none` inside is no query -/
  queryAst : Option (Option QueryNode)

/-- `savedSearchRequest`, as a check -/
def SavedSearchRequest.valid (input : SavedSearchRequest) : Bool :=
  1 ≤ input.name.length ∧ input.name.length ≤ 120 ∧ input.queryText.length ≤ 4000

/-- A row of `saved_searches` -/
structure SavedSearch where
  name : JsString
  caseId : Option JsString
  queryText : JsString
  querySyntax : QuerySyntax
  queryAst : QueryNode

/-- What `zodValidate` throws. -/
def validationFailed : HttpError := .badRequest (js "validation failed") none none

/-- `rethrowQueryError` -/
def rethrowQueryError : QueryError → HttpError
  | .syntaxError message position => .badRequest message (some position) none
  | .validation violations =>
    .badRequest (js "query validation failed") none (some violations)

/-- What a step gives, with its error passed on to the client. -/
def orRethrow {α : Type} (parsed : Except QueryError α) : Except HttpError α :=
  match parsed with
  | .ok a => .ok a
  | .error error => .error (rethrowQueryError error)

/-- A text is there: it is not blank. -/
def present (text : JsString) : Bool := trim text ≠ []

variable (rt : JsRuntime Num)

/-- `validateAst` with the registry and the limits of the service. -/
def validated (ast : QueryNode) : Except QueryError (ValidatedAst Num) :=
  validateAst rt defaultFieldRegistry defaultCostLimits ast

/-! ## Running a query -/

section Running

variable (astFromBuilder : Builder → Except QueryError QueryNode)

/-- The tree that `parseToValidatedAst` validates. -/
def requestedAst (input : SearchRequestInput Num Builder) : Except QueryError QueryNode :=
  match input.query, input.builder with
  | some query, builder =>
    if present query then parseQuery rt query
    else
      match builder with
      | some builder => astFromBuilder builder
      | none => parseQuery rt []
  | none, some builder => astFromBuilder builder
  | none, none => parseQuery rt []

/-- `parseToValidatedAst` -/
def parseToValidatedAst (input : SearchRequestInput Num Builder) :
    Except HttpError (ValidatedAst Num) :=
  orRethrow (requestedAst rt astFromBuilder input >>= validated rt)

variable (s : State) (caller : Caller)

/-- The options of the request body. -/
def requestOptions (input : SearchRequestInput Num Builder) : SearchRequestOptions Num where
  sort := input.sort.getD (if input.query.any present then [] else [js "-primaryDate"])
  searchAfter := input.searchAfter
  limit := input.limit
  highlight := input.includeHighlights = some true
  facets := input.facets.getD []

/-- `execute`: the request body that is sent. -/
def execute (input : SearchRequestInput Num Builder) :
    Except HttpError (SearchRequestBody Num) :=
  if input.valid then do
    let ast ← parseToValidatedAst rt astFromBuilder input
    let searchAuth ← buildSearchAuth s caller input.caseId
    orRethrow (buildSearchRequest rt ast searchAuth (requestOptions input))
  else .error validationFailed

/-- The clauses of a query: the field of each, and its term if it has one. -/
def clauses : ValidatedNode Num → List (JsString × Option JsString)
  | .bool _ children => clausesOf children
  | .not child => clauses child
  | .matchAll => []
  | .exists field => [(field.name, none)]
  | .range field _ => [(field.name, none)]
  | .term field (.text value) _ => [(field.name, if value = [] then none else some value)]
  | .term field _ _ => [(field.name, none)]
  | .phrase field value _ => [(field.name, if value = [] then none else some value)]
  | .wildcard field value => [(field.name, if value = [] then none else some value)]
where
  /-- The clauses of several. -/
  clausesOf : List (ValidatedNode Num) → List (JsString × Option JsString)
    | [] => []
    | child :: children => clauses child ++ clausesOf children

/-- `ExplainResultDto` -/
structure ExplainResult where
  fields : List JsString
  clauseCount : ℕ
  highlightTerms : List JsString
  deriving DecidableEq

/-- `explain` -/
def explain (input : SearchRequestInput Num Builder) : Except HttpError ExplainResult :=
  if input.valid then do
    let ast ← parseToValidatedAst rt astFromBuilder input
    let _ ← buildSearchAuth s caller input.caseId
    let walked := clauses ast.root
    pure
      { fields := sorted (distinct (walked.map Prod.fst))
        clauseCount := walked.length
        highlightTerms := distinct (walked.filterMap Prod.snd) }
  else .error validationFailed

end Running

/-! ## Saving a query -/

/-- `validateStoredAst` -/
def validateStoredAst (ast : Option QueryNode) : Except HttpError (ValidatedAst Num) :=
  match ast with
  | some ast => orRethrow (validated rt ast)
  | none => .error (.badRequest (js "queryAst is not a valid query AST") none none)

/-- A text in one of the two languages. -/
def parseAs (querySyntax : QuerySyntax) (text : JsString) : Except QueryError QueryNode :=
  match querySyntax with
  | .simple => parseQuery rt text
  | .advanced => Advanced.parseAdvancedQuery rt defaultFieldRegistry text

/-- A tree that is valid. -/
def validNode (ast : QueryNode) : Except QueryError QueryNode := do
  let _ ← validated rt ast
  pure ast

/-- `parseOrValidate` -/
def parseOrValidate (queryText : JsString) (queryAst : Option (Option QueryNode))
    (querySyntax : QuerySyntax) : Except HttpError QueryNode :=
  if present queryText then orRethrow (parseAs rt querySyntax queryText >>= validNode rt)
  else
    match queryAst with
    | none => .error (.badRequest (js "either queryText or queryAst is required") none none)
    | some none => .error (.badRequest (js "queryAst is not a valid query AST") none none)
    | some (some ast) => orRethrow (validNode rt ast)

/-- `create`: the row that is stored. -/
def create (s : State) (input : SavedSearchRequest) : Except HttpError SavedSearch :=
  if input.valid then do
    let ast ← parseOrValidate rt input.queryText input.queryAst input.querySyntax
    if input.caseId.all fun caseId => caseId ∈ s.cases then
      pure
        { name := input.name
          caseId := input.caseId
          queryText := input.queryText
          querySyntax := input.querySyntax
          queryAst := ast }
    else .error .notFound
  else .error validationFailed

/-! ## What is asked for -/

/-- The request for a text in a language. -/
def textRequest (text : JsString) (querySyntax : QuerySyntax) : SearchRequestInput Num Builder where
  query := some text
  querySyntax
  builder := none
  caseId := none
  sort := none
  searchAfter := none
  limit := none
  facets := none
  includeHighlights := none

section Meaning

variable (astFromBuilder : Builder → Except QueryError QueryNode) (s : State) (caller : Caller)
  (text : JsString) (querySyntax : QuerySyntax)

/-- A search with the text and the language is saved as a row. -/
def SavedAs (saved : SavedSearch) : Prop :=
  ∃ input : SavedSearchRequest, input.queryText = text ∧ input.querySyntax = querySyntax ∧
    create rt s input = .ok saved

/-- **A text is run as it is saved**: it is accepted by both or by neither, and what is run is what
the saved search stores. -/
structure OneMeaning : Prop where
  executed : (∃ body,
      execute rt astFromBuilder s caller (textRequest text querySyntax) = .ok body) ↔
    ∃ saved, SavedAs rt s text querySyntax saved
  explained : (∃ result,
      explain rt astFromBuilder s caller (textRequest text querySyntax) = .ok result) ↔
    ∃ saved, SavedAs rt s text querySyntax saved
  same : ∀ saved body, SavedAs rt s text querySyntax saved →
    execute rt astFromBuilder s caller (textRequest text querySyntax) = .ok body →
    ∃ stored auth, validateStoredAst rt (some saved.queryAst) = .ok stored ∧
      buildSearchAuth s caller none = .ok auth ∧ compile rt stored auth = .ok body.query

end Meaning

/-- What a language says of a text. -/
def read (querySyntax : QuerySyntax) (text : JsString) : Except QueryError (ValidatedAst Num) :=
  parseAs rt querySyntax text >>= validated rt

/-- **The two languages read a text alike**: both refuse it, or both accept it and the same is
compiled. -/
structure ReadAlike (text : JsString) : Prop where
  accepted : (∃ ast, read rt .simple text = .ok ast) ↔ ∃ ast, read rt .advanced text = .ok ast
  same : ∀ ast ast', read rt .simple text = .ok ast → read rt .advanced text = .ok ast' →
    compileNode rt ast.root = compileNode rt ast'.root

/-! ## What is run -/

theorem orRethrow_eq_ok {α : Type} {parsed : Except QueryError α} {a : α} :
    orRethrow parsed = .ok a ↔ parsed = .ok a := by
  cases parsed with
  | ok b => exact ⟨fun h => congrArg _ (Except.ok.inj h), fun h => congrArg _ (Except.ok.inj h)⟩
  | error e => exact iff_of_false (by rintro ⟨⟩) (by rintro ⟨⟩)

section Running

variable {rt} {astFromBuilder : Builder → Except QueryError QueryNode} {s : State}
  {caller : Caller} {text : JsString} {querySyntax : QuerySyntax}

theorem valid_textRequest :
    (textRequest text querySyntax : SearchRequestInput Num Builder).valid = true ↔
      text.length ≤ 4000 := by
  change (decide (text.length ≤ 4000) && true && true && true && true) = true ↔ _
  rw [Bool.and_true, Bool.and_true, Bool.and_true, Bool.and_true, decide_eq_true_eq]

/-- Whatever the language, a text is run as one of the simple language. -/
theorem parseToValidatedAst_text {ast : ValidatedAst Num} (hpresent : present text = true) :
    parseToValidatedAst rt astFromBuilder (textRequest text querySyntax) = .ok ast ↔
      read rt .simple text = .ok ast := by
  rw [parseToValidatedAst, orRethrow_eq_ok]
  change (if present text then parseQuery rt text else _) >>= _ = _ ↔ _
  rw [if_pos hpresent]
  rfl

/-- What is sent holds the compiled query. -/
theorem compile_of_request {ast : ValidatedAst Num} {auth : AuthContext}
    {opts : SearchRequestOptions Num} {body : SearchRequestBody Num}
    (h : buildSearchRequest rt ast auth opts = .ok body) :
    compile rt ast auth = .ok body.query := by
  obtain ⟨query, hquery, h⟩ := bind_eq_ok.mp h
  obtain ⟨sort, -, h⟩ := bind_eq_ok.mp h
  obtain ⟨aggs, -, h⟩ := bind_eq_ok.mp h
  cases h
  exact hquery

/-- Every caller has a context, in the tenant. -/
theorem exists_auth : ∃ auth, buildSearchAuth s caller none = .ok auth ∧ auth.tenantId ≠ [] := by
  obtain ⟨auth, hauth, htenant, -⟩ := @Access.buildSearchAuth_none s caller
  exact ⟨auth, hauth, htenant ▸ s.tenantId_ne⟩

theorem compile_eq (ast : ValidatedAst Num) {auth : AuthContext} (htenant : auth.tenantId ≠ []) :
    compile rt ast auth =
      .ok (.bool (authorizationFilter auth) [compileNode rt ast.root] [] [] none) := by
  rw [compile, wrapWithAuthorization, if_neg]
  exact fun h => htenant (List.length_eq_zero_iff.mp h)

/-- What is compiled for a caller says what is compiled. -/
theorem compile_inj {ast ast' : ValidatedAst Num} {auth : AuthContext}
    (htenant : auth.tenantId ≠ []) :
    compile rt ast auth = compile rt ast' auth ↔
      compileNode rt ast.root = compileNode rt ast'.root := by
  rw [compile_eq ast htenant, compile_eq ast' htenant]
  simp

/-- A query in a text is sent if it is valid. -/
theorem exists_request (ast : ValidatedAst Num) {auth : AuthContext} (htenant : auth.tenantId ≠ [])
    (hpresent : present text = true) : ∃ body, buildSearchRequest rt ast auth
      (requestOptions (textRequest text querySyntax : SearchRequestInput Num Builder)) =
        .ok body := by
  have hsort : (requestOptions (textRequest text querySyntax :
      SearchRequestInput Num Builder)).sort = [] := if_pos hpresent
  rw [buildSearchRequest, compile_eq ast htenant, hsort]
  exact ⟨_, rfl⟩

/-- **What `execute` accepts**, and what it sends. -/
theorem execute_eq_ok (hlength : text.length ≤ 4000) (hpresent : present text = true)
    {body : SearchRequestBody Num} :
    execute rt astFromBuilder s caller (textRequest text querySyntax) = .ok body ↔
      ∃ ast auth, read rt .simple text = .ok ast ∧ buildSearchAuth s caller none = .ok auth ∧
        buildSearchRequest rt ast auth
          (requestOptions (textRequest text querySyntax : SearchRequestInput Num Builder)) =
            .ok body := by
  rw [execute, if_pos (valid_textRequest.mpr hlength), bind_eq_ok]
  refine ⟨?_, ?_⟩
  · rintro ⟨ast, hast, hbody⟩
    obtain ⟨auth, hauth, hbody⟩ := bind_eq_ok.mp hbody
    exact ⟨ast, auth, (parseToValidatedAst_text hpresent).mp hast, hauth, orRethrow_eq_ok.mp hbody⟩
  · rintro ⟨ast, auth, hast, hauth, hbody⟩
    refine ⟨ast, (parseToValidatedAst_text hpresent).mpr hast, bind_eq_ok.mpr ⟨auth, hauth, ?_⟩⟩
    exact orRethrow_eq_ok.mpr hbody

theorem exists_executed_iff (hlength : text.length ≤ 4000) (hpresent : present text = true) :
    (∃ body, execute rt astFromBuilder s caller (textRequest text querySyntax) = .ok body) ↔
      ∃ ast, read rt .simple text = .ok ast := by
  refine ⟨?_, ?_⟩
  · rintro ⟨body, hbody⟩
    obtain ⟨ast, -, hast, -⟩ := (execute_eq_ok hlength hpresent).mp hbody
    exact ⟨ast, hast⟩
  · rintro ⟨ast, hast⟩
    obtain ⟨auth, hauth, htenant⟩ := @exists_auth s caller
    obtain ⟨body, hbody⟩ := exists_request ast htenant hpresent
    exact ⟨body, (execute_eq_ok hlength hpresent).mpr ⟨ast, auth, hast, hauth, hbody⟩⟩

theorem exists_explained_iff (hlength : text.length ≤ 4000) (hpresent : present text = true) :
    (∃ result, explain rt astFromBuilder s caller (textRequest text querySyntax) = .ok result) ↔
      ∃ ast, read rt .simple text = .ok ast := by
  refine ⟨?_, ?_⟩
  · rintro ⟨result, hresult⟩
    rw [explain, if_pos (valid_textRequest.mpr hlength)] at hresult
    obtain ⟨ast, hast, -⟩ := bind_eq_ok.mp hresult
    exact ⟨ast, (parseToValidatedAst_text hpresent).mp hast⟩
  · rintro ⟨ast, hast⟩
    obtain ⟨auth, hauth, -⟩ := @exists_auth s caller
    rw [explain, if_pos (valid_textRequest.mpr hlength)]
    exact ⟨_, bind_eq_ok.mpr
      ⟨ast, (parseToValidatedAst_text hpresent).mpr hast, bind_eq_ok.mpr ⟨auth, hauth, rfl⟩⟩⟩

end Running

/-! ## What is saved -/

section Saving

variable {rt} {s : State} {text : JsString} {querySyntax : QuerySyntax}

theorem validNode_eq_ok {ast ast' : QueryNode} : validNode rt ast = .ok ast' ↔
    ast = ast' ∧ ∃ stored, validated rt ast = .ok stored := by
  rw [validNode, bind_eq_ok]
  refine ⟨?_, ?_⟩
  · rintro ⟨stored, hstored, h⟩
    exact ⟨Except.ok.inj h, stored, hstored⟩
  · rintro ⟨rfl, stored, hstored⟩
    exact ⟨stored, hstored, rfl⟩

/-- **What a saved search stores** of a text: what its language says of it. -/
theorem savedAs_spec (hpresent : present text = true) {saved : SavedSearch}
    (h : SavedAs rt s text querySyntax saved) : text.length ≤ 4000 ∧
      ∃ stored, validateStoredAst rt (some saved.queryAst) = .ok stored ∧
        read rt querySyntax text = .ok stored := by
  obtain ⟨input, rfl, rfl, hcreate⟩ := h
  rw [create] at hcreate
  split at hcreate
  · rename_i hvalid
    obtain ⟨ast, hast, hrow⟩ := bind_eq_ok.mp hcreate
    unfold parseOrValidate at hast
    rw [if_pos hpresent, orRethrow_eq_ok] at hast
    obtain ⟨parsed, hparsed, hnode⟩ := bind_eq_ok.mp hast
    obtain ⟨rfl, stored, hstored⟩ := validNode_eq_ok.mp hnode
    split_ifs at hrow
    obtain rfl := Except.ok.inj hrow
    refine ⟨(of_decide_eq_true hvalid).2.2, stored, orRethrow_eq_ok.mpr hstored, ?_⟩
    exact bind_eq_ok.mpr ⟨parsed, hparsed, hstored⟩
  · cases hcreate

theorem exists_savedAs_iff (hlength : text.length ≤ 4000) (hpresent : present text = true) :
    (∃ saved, SavedAs rt s text querySyntax saved) ↔ ∃ ast, read rt querySyntax text = .ok ast := by
  refine ⟨?_, ?_⟩
  · rintro ⟨saved, h⟩
    obtain ⟨-, stored, -, hread⟩ := savedAs_spec hpresent h
    exact ⟨stored, hread⟩
  · rintro ⟨stored, hread⟩
    obtain ⟨parsed, hparsed, hstored⟩ := bind_eq_ok.mp hread
    let input : SavedSearchRequest := ⟨js "q", none, text, querySyntax, none⟩
    have hname : 1 ≤ (js "q").length ∧ (js "q").length ≤ 120 := by decide
    have hvalid : input.valid = true := decide_eq_true ⟨hname.1, hname.2, hlength⟩
    have hast : parseOrValidate rt text none querySyntax = .ok parsed := by
      unfold parseOrValidate
      rw [if_pos hpresent, orRethrow_eq_ok]
      exact bind_eq_ok.mpr ⟨parsed, hparsed, validNode_eq_ok.mpr ⟨rfl, stored, hstored⟩⟩
    refine ⟨⟨js "q", none, text, querySyntax, parsed⟩, input, rfl, rfl, ?_⟩
    rw [create, if_pos hvalid, hast]
    rfl

/-- Nothing that is too long is saved. -/
theorem length_le_of_savedAs {saved : SavedSearch} (h : SavedAs rt s text querySyntax saved) :
    text.length ≤ 4000 := by
  obtain ⟨input, rfl, rfl, hcreate⟩ := h
  rw [create] at hcreate
  split at hcreate
  · rename_i hvalid
    exact (of_decide_eq_true hvalid).2.2
  · cases hcreate

/-- With a blank text, any valid query is saved. -/
theorem savedAs_of_blank (hlength : text.length ≤ 4000) (hblank : present text = false)
    {ast : QueryNode} {stored : ValidatedAst Num} (hstored : validated rt ast = .ok stored) :
    SavedAs rt s text querySyntax ⟨js "q", none, text, querySyntax, ast⟩ := by
  let input : SavedSearchRequest := ⟨js "q", none, text, querySyntax, some (some ast)⟩
  have hname : 1 ≤ (js "q").length ∧ (js "q").length ≤ 120 := by decide
  have hvalid : input.valid = true := decide_eq_true ⟨hname.1, hname.2, hlength⟩
  have hast : parseOrValidate rt text (some (some ast)) querySyntax = .ok ast := by
    unfold parseOrValidate
    rw [if_neg (Bool.eq_false_iff.mp hblank)]
    exact orRethrow_eq_ok.mpr (validNode_eq_ok.mpr ⟨rfl, stored, hstored⟩)
  refine ⟨input, rfl, rfl, ?_⟩
  rw [create, if_pos hvalid, hast]
  rfl

end Saving

/-! ## One meaning -/

section Agreement

variable {rt} {astFromBuilder : Builder → Except QueryError QueryNode} {s : State}
  {caller : Caller} {text : JsString} {querySyntax : QuerySyntax}

/-- A text that is too long is neither run nor saved. -/
theorem oneMeaning_of_long (h : 4000 < text.length) :
    OneMeaning rt astFromBuilder s caller text querySyntax := by
  have hinvalid : ¬ (textRequest text querySyntax : SearchRequestInput Num Builder).valid = true :=
    fun hvalid => absurd (valid_textRequest.mp hvalid) (Nat.not_le.mpr h)
  have hsaved : ¬ ∃ saved, SavedAs rt s text querySyntax saved := by
    rintro ⟨saved, hsaved⟩
    exact absurd (length_le_of_savedAs hsaved) (Nat.not_le.mpr h)
  refine ⟨iff_of_false ?_ hsaved, iff_of_false ?_ hsaved, ?_⟩
  · rintro ⟨body, hbody⟩
    rw [execute, if_neg hinvalid] at hbody
    cases hbody
  · rintro ⟨result, hresult⟩
    rw [explain, if_neg hinvalid] at hresult
    cases hresult
  · exact fun saved _ h _ => absurd ⟨saved, h⟩ hsaved

/-- A blank text is run as everything, and saved as anything. -/
theorem not_oneMeaning_of_blank (hlength : text.length ≤ 4000) (hblank : present text = false) :
    ¬ OneMeaning rt astFromBuilder s caller text querySyntax := by
  intro h
  have heverything : validated rt .matchAll = .ok ⟨.matchAll⟩ := rfl
  have hnothing : validated rt (.not .matchAll) = .ok ⟨.not .matchAll⟩ := rfl
  have hsaved := @savedAs_of_blank _ rt s text querySyntax hlength hblank _ _ heverything
  have hsaved' := @savedAs_of_blank _ rt s text querySyntax hlength hblank _ _ hnothing
  obtain ⟨body, hbody⟩ := h.executed.mpr ⟨_, hsaved⟩
  obtain ⟨stored, auth, hstored, hauth, hcompile⟩ := h.same _ body hsaved hbody
  obtain ⟨stored', auth', hstored', hauth', hcompile'⟩ := h.same _ body hsaved' hbody
  obtain rfl := Except.ok.inj (hauth.symm.trans hauth')
  obtain rfl := Except.ok.inj ((orRethrow_eq_ok.mpr heverything).symm.trans hstored)
  obtain rfl := Except.ok.inj ((orRethrow_eq_ok.mpr hnothing).symm.trans hstored')
  obtain ⟨auth', hauth', htenant⟩ := @exists_auth s caller
  obtain rfl := Except.ok.inj (hauth.symm.trans hauth')
  have hsame := (compile_inj htenant).mp (hcompile.trans hcompile'.symm)
  cases hsame

/-- **A text that is there is run as it is saved** if and only if its language says the same of it
as the simple one. -/
theorem oneMeaning_iff_reads (hlength : text.length ≤ 4000) (hpresent : present text = true) :
    OneMeaning rt astFromBuilder s caller text querySyntax ↔
      ((∃ ast, read rt .simple text = .ok ast) ↔ ∃ ast, read rt querySyntax text = .ok ast) ∧
        ∀ ast ast', read rt .simple text = .ok ast → read rt querySyntax text = .ok ast' →
          compileNode rt ast.root = compileNode rt ast'.root := by
  obtain ⟨auth, hauth, htenant⟩ := @exists_auth s caller
  refine ⟨?_, ?_⟩
  · intro h
    refine ⟨?_, ?_⟩
    · exact (exists_executed_iff hlength hpresent).symm.trans
        (h.executed.trans (exists_savedAs_iff hlength hpresent))
    · intro ast ast' hast hast'
      obtain ⟨saved, hsaved⟩ := (exists_savedAs_iff hlength hpresent).mpr ⟨ast', hast'⟩
      obtain ⟨body, hbody⟩ := exists_request ast htenant hpresent
      obtain ⟨stored, auth', hstored, hauth', hcompile⟩ := h.same saved body hsaved
        ((execute_eq_ok hlength hpresent).mpr ⟨ast, auth, hast, hauth, hbody⟩)
      obtain rfl := Except.ok.inj (hauth.symm.trans hauth')
      obtain ⟨-, stored', hstored', hread⟩ := savedAs_spec hpresent hsaved
      obtain rfl := Except.ok.inj (hstored.symm.trans hstored')
      obtain rfl := Except.ok.inj (hread.symm.trans hast')
      exact (compile_inj htenant).mp ((compile_of_request hbody).trans hcompile.symm)
  · rintro ⟨haccepted, hsame⟩
    refine ⟨?_, ?_, ?_⟩
    · rw [exists_executed_iff hlength hpresent, haccepted, exists_savedAs_iff hlength hpresent]
    · rw [exists_explained_iff hlength hpresent, haccepted, exists_savedAs_iff hlength hpresent]
    · intro saved body hsaved hbody
      obtain ⟨ast, auth', hast, hauth', hrequest⟩ := (execute_eq_ok hlength hpresent).mp hbody
      obtain rfl := Except.ok.inj (hauth.symm.trans hauth')
      obtain ⟨-, stored, hstored, hread⟩ := savedAs_spec hpresent hsaved
      refine ⟨stored, auth, hstored, hauth, ?_⟩
      rw [← (compile_inj htenant).mpr (hsame ast stored hast hread)]
      exact compile_of_request hrequest

/-- **A text is run as it is saved** if and only if it is too long for both, or it is there, and is
one of the simple language, or one that the two languages read alike. -/
theorem oneMeaning_iff : OneMeaning rt astFromBuilder s caller text querySyntax ↔
    4000 < text.length ∨
      present text = true ∧ (querySyntax = .advanced → ReadAlike rt text) := by
  rcases Nat.lt_or_ge 4000 text.length with hlong | hlength
  · exact iff_of_true (oneMeaning_of_long hlong) (.inl hlong)
  · rw [or_iff_right (Nat.not_lt.mpr hlength)]
    cases hpresent : present text with
    | false =>
      exact iff_of_false (not_oneMeaning_of_blank hlength hpresent) fun h => absurd h.1 (by decide)
    | true =>
      rw [oneMeaning_iff_reads hlength hpresent, and_iff_right rfl]
      cases querySyntax with
      | simple =>
        refine iff_of_true ⟨Iff.rfl, ?_⟩ (by rintro ⟨⟩)
        intro ast ast' hast hast'
        rw [Except.ok.inj (hast.symm.trans hast')]
      | advanced =>
        rw [forall_prop_of_true rfl]
        exact ⟨fun h => ⟨h.1, h.2⟩, fun h => ⟨h.accepted, h.same⟩⟩

end Agreement

/-- Comparisons are read alike. -/
example : (match read asciiRuntime .simple (js "size > 5"),
      read asciiRuntime .advanced (js "size > 5") with
    | .ok ⟨.range field bounds⟩, .ok ⟨.range field' bounds'⟩ =>
      decide (field = field' ∧ bounds = bounds')
    | _, _ => false) = true := by decide +kernel

/-- A tenant without rows. -/
def newTenant : State where
  tenantId := js "acme"
  items := []
  cases := []
  caseMembers := []
  caseItems := []
  tags := []
  tagAssignments := []
  imports := []
  importCases := []
  relationships := []
  tenantId_ne := Access.acme_ne_nil
  nodup_items := List.nodup_nil
  imported item hitem := by cases hitem
  related rel hrel := by cases hrel

/-- Words that are looked for together, and the value of a field with a text of its own. -/
def isWordsAndField {Num : Type} :
    Except QueryError (ValidatedAst Num) → Except QueryError (ValidatedAst Num) → Bool
  | .ok ⟨.bool .and _⟩, .ok ⟨.term field _ _⟩ =>
    decide (field.type = some .text ∧ field.esPath ≠ some allTextPath)
  | _, _ => false

/-- An advanced query is run as three words, and saved as what it says. -/
theorem not_oneMeaning : ¬ ∀ (text : JsString) (querySyntax : QuerySyntax),
    OneMeaning asciiRuntime (fun builder : QueryNode => .ok builder) newTenant
      ⟨js "u1", js "b1", [.reviewer]⟩ text querySyntax := by
  intro h
  have hreads : isWordsAndField (read asciiRuntime .simple (js "subject CONTAINS invoice"))
      (read asciiRuntime .advanced (js "subject CONTAINS invoice")) = true := by decide +kernel
  unfold isWordsAndField at hreads
  split at hreads
  · rename_i children field value fuzzy hsimple hadvanced
    obtain ⟨htype, hpath⟩ := of_decide_eq_true hreads
    have hsame := ((oneMeaning_iff_reads (by decide) (by decide)).mp
      (h (js "subject CONTAINS invoice") .advanced)).2 _ _ hsimple hadvanced
    rw [compileNode, compileNode] at hsame
    unfold compileTerm at hsame
    rw [htype] at hsame
    dsimp only at hsame
    rw [if_neg hpath] at hsame
    cases hsame
  · cases hreads

end AegCloudDfir.Search.Saved
