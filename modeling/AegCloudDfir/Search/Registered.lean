import AegCloudDfir.Search.Acceptable

/-!
# Only registered fields

A query reaches the fields of the registry, the header fields and the default text
fields, and the paths that belong to them, unless it names one of the two properties
every object inherits and no lower-casing removes, `constructor` and `__proto__`:
`resolve` finds them, and the validator lets a term, a phrase, a wildcard or an
existence test on them through.
-/

namespace AegCloudDfir.Search

variable {Num : Type}

/-! ## Document paths -/

mutual

/-- No `undefined` anywhere in a query. -/
def Dsl.Defined : Dsl Num → Prop
  | .undefined => False
  | .exists field => field.isSome
  | .nested _ query => query.Defined
  | .bool filter must should mustNot _ =>
    AllDefined filter ∧ AllDefined must ∧ AllDefined should ∧ AllDefined mustNot
  | _ => True

/-- No `undefined` anywhere in several queries. -/
def AllDefined : List (Dsl Num) → Prop
  | [] => True
  | query :: queries => query.Defined ∧ AllDefined queries

end

mutual

/-- The document paths a query mentions. -/
def Dsl.paths : Dsl Num → List JsString
  | .undefined => []
  | .matchAll => []
  | .term path _ => [path]
  | .terms path _ => [path]
  | .exists field => field.toList
  | .match path _ _ => [path]
  | .matchPhrase path _ _ => [path]
  | .multiMatch fields _ _ => fields
  | .multiMatchPhrase fields _ _ => fields
  | .fuzzy path _ _ => [path]
  | .wildcard path _ => [path]
  | .range path _ => [path]
  | .nested path query => path :: query.paths
  | .bool filter must should mustNot _ =>
    pathsOf filter ++ pathsOf must ++ pathsOf should ++ pathsOf mustNot

/-- The document paths several queries mention. -/
def pathsOf : List (Dsl Num) → List JsString
  | [] => []
  | query :: queries => query.paths ++ pathsOf queries

end

/-- The document paths that belong to a registry entry. -/
def ResolvedField.documentPaths (field : ResolvedField) : List JsString :=
  match field.esPath, field.type with
  | some path, some type =>
    match type with
    | .header =>
      [js "headers", js "headers.name", js "headers.value", js "headers.value.keyword"]
    | .ocr => [path, js "text.ocr", js "ocrPages", js "ocrPages.text"]
    | .address =>
      if path = js "addresses" then [js "addresses.all", js "addresses.domains"]
      else [path ++ js ".address", path ++ js ".domain"]
    | .text =>
      if path = allTextPath then
        allTextFields ++ keywordMultifields.map fun path => path ++ js ".keyword"
      else if path ∈ keywordMultifields then [path, path ++ js ".keyword"]
      else [path]
    | .keyword =>
      if field.name = js "bates" then
        [path, js "bates", js "bates.begBates", js "bates.endBates"]
      else [path]
    | .date => [path]
    | .size => [path]
    | .boolean => [path]
  | _, _ => []

/-- A query that is a defined object and stays on the paths of a field. -/
def StaysOn (field : ResolvedField) (query : Dsl Num) : Prop :=
  query.Defined ∧ ∀ path ∈ query.paths, path ∈ field.documentPaths

theorem Registered.resolved {r : FieldRegistry} {field : ResolvedField} (h : Registered r field) :
    ∃ path type, field.esPath = some path ∧ field.type = some type := by
  rcases h with ⟨d, -, hfield⟩ | ⟨name, -, rfl⟩ | rfl
  · rw [hfield]
    exact ⟨_, _, rfl, rfl⟩
  · exact ⟨_, _, rfl, rfl⟩
  · exact ⟨_, _, rfl, rfl⟩

section StaysOn

variable {rt : JsRuntime Num} {field : ResolvedField} {path : JsString} {type : FieldType}

/-- The paths of an entry are those of its type. -/
theorem documentPaths_eq (hpath : field.esPath = some path) (htype : field.type = some type) :
    field.documentPaths =
      ResolvedField.documentPaths ⟨field.name, some path, some type, none⟩ := by
  obtain ⟨name, _, _, headerName⟩ := field
  cases hpath
  cases htype
  rfl

theorem documentPaths_header (name path : JsString) :
    ResolvedField.documentPaths ⟨name, some path, some .header, none⟩ =
      [js "headers", js "headers.name", js "headers.value", js "headers.value.keyword"] := rfl

theorem documentPaths_ocr (name path : JsString) :
    ResolvedField.documentPaths ⟨name, some path, some .ocr, none⟩ =
      [path, js "text.ocr", js "ocrPages", js "ocrPages.text"] := rfl

theorem documentPaths_address (name path : JsString) :
    ResolvedField.documentPaths ⟨name, some path, some .address, none⟩ =
      if path = js "addresses" then [js "addresses.all", js "addresses.domains"]
      else [path ++ js ".address", path ++ js ".domain"] := rfl

theorem documentPaths_keyword (name path : JsString) :
    ResolvedField.documentPaths ⟨name, some path, some .keyword, none⟩ =
      if name = js "bates" then [path, js "bates", js "bates.begBates", js "bates.endBates"]
      else [path] := rfl

theorem documentPaths_text (name path : JsString) :
    ResolvedField.documentPaths ⟨name, some path, some .text, none⟩ =
      if path = allTextPath then
        allTextFields ++ keywordMultifields.map fun path => path ++ js ".keyword"
      else if path ∈ keywordMultifields then [path, path ++ js ".keyword"]
      else [path] := rfl

/-- A query on one path. -/
theorem staysOn_single {query : Dsl Num} (hdefined : query.Defined) (hpaths : query.paths = [path])
    (hpath : path ∈ field.documentPaths) : StaysOn field query := by
  refine ⟨hdefined, ?_⟩
  rw [hpaths, List.forall_mem_singleton]
  exact hpath

theorem staysOn_headerQuery (hpath : field.esPath = some path)
    (htype : field.type = some .header) {query : Dsl Num} {p : JsString}
    (hdefined : query.Defined) (hpaths : query.paths = [p])
    (hp : p = js "headers.value" ∨ p = js "headers.value.keyword") :
    StaysOn field (headerQuery field query) := by
  rw [StaysOn, documentPaths_eq hpath htype]
  rw [documentPaths_header]
  simp only [headerQuery, Dsl.must, Dsl.Defined, AllDefined, Dsl.paths, pathsOf, hpaths]
  refine ⟨⟨trivial, ⟨trivial, hdefined, trivial⟩, trivial, trivial⟩, ?_⟩
  rcases hp with rfl | rfl
  · simp
  · simp

theorem staysOn_ocrQuery (hpath : field.esPath = some path) (htype : field.type = some .ocr)
    {q : JsString → Dsl Num} (hdefined : ∀ p, (q p).Defined) (hpaths : ∀ p, (q p).paths = [p]) :
    StaysOn field (ocrQuery q) := by
  rw [StaysOn, documentPaths_eq hpath htype, documentPaths_ocr]
  simp only [ocrQuery, Dsl.anyOf, Dsl.Defined, AllDefined, Dsl.paths, pathsOf, hpaths]
  refine ⟨⟨trivial, trivial, ⟨hdefined _, hdefined _, trivial⟩, trivial⟩, ?_⟩
  simp

theorem staysOn_batesEither (hpath : field.esPath = some path)
    (htype : field.type = some .keyword) (hbates : field.name = js "bates")
    {q : JsString → Dsl Num} (hdefined : ∀ p, (q p).Defined) (hpaths : ∀ p, (q p).paths = [p]) :
    StaysOn field (batesEither q) := by
  rw [StaysOn, documentPaths_eq hpath htype, documentPaths_keyword]
  simp only [batesEither, Dsl.anyOf, Dsl.Defined, AllDefined, Dsl.paths, pathsOf, hpaths, hbates]
  refine ⟨⟨trivial, trivial, ⟨hdefined _, hdefined _, trivial⟩, trivial⟩, ?_⟩
  simp

/-- Both paths an address can be compared at. -/
theorem addressPath_mem (hpath : field.esPath = some path)
    (htype : field.type = some .address) (value : JsString) :
    addressPath field value ∈ field.documentPaths := by
  rw [addressPath, documentPaths_eq hpath htype, documentPaths_address, hpath]
  by_cases haddresses : path = js "addresses"
  · by_cases hemail : isEmailAddress value <;> simp [haddresses, hemail]
  · by_cases hemail : isEmailAddress value <;> simp [haddresses, hemail, pathKey]

/-- The path of the entry itself, where the type has no paths of its own. -/
theorem pathKey_mem (hpath : field.esPath = some path) (htype : field.type = some type)
    (hheader : type ≠ .header) (haddress : type ≠ .address)
    (hall : type = .text → path ≠ allTextPath) : pathKey field.esPath ∈ field.documentPaths := by
  rw [documentPaths_eq hpath htype, hpath]
  cases type with
  | header => exact absurd rfl hheader
  | address => exact absurd rfl haddress
  | text =>
    rw [documentPaths_text]
    by_cases hmulti : path ∈ keywordMultifields <;> simp [hall rfl, hmulti, pathKey]
  | keyword =>
    rw [documentPaths_keyword]
    by_cases hbates : field.name = js "bates" <;> simp [hbates, pathKey]
  | ocr | date | size | boolean => exact List.mem_cons_self ..

/-- The fields a search over all text looks at, and their keyword variants. -/
theorem documentPaths_allText (hall : field.esPath = some allTextPath)
    (htype : field.type = some .text) :
    field.documentPaths =
      allTextFields ++ keywordMultifields.map fun path => path ++ js ".keyword" := by
  rw [documentPaths_eq hall htype, documentPaths_text]
  exact if_pos rfl

/-- A query on the path of the entry itself. -/
theorem staysOn_own (hpath : field.esPath = some path) (htype : field.type = some type)
    (hown : type ≠ .header ∧ type ≠ .address ∧ type ≠ .text) {query : Dsl Num}
    (hdefined : query.Defined) (hpaths : query.paths = [pathKey field.esPath]) :
    StaysOn field query :=
  staysOn_single hdefined hpaths
    (pathKey_mem hpath htype hown.1 hown.2.1 fun h => absurd h hown.2.2)

/-- A keyword field: the number of a page is looked for at both ends of a range. -/
theorem staysOn_keyword (hpath : field.esPath = some path) (htype : field.type = some .keyword)
    {q : JsString → Dsl Num} {own : Dsl Num} (hdefined : ∀ p, (q p).Defined)
    (hpaths : ∀ p, (q p).paths = [p])
    (hown : own.Defined ∧ own.paths = [pathKey field.esPath]) :
    StaysOn field (if field.name = js "bates" then batesEither q else own) := by
  split_ifs with hbates
  · exact staysOn_batesEither hpath htype hbates hdefined hpaths
  · exact staysOn_own hpath htype (by decide) hown.1 hown.2

/-- A text field: the field of all text stands for several. -/
theorem staysOn_text (hpath : field.esPath = some path) (htype : field.type = some .text)
    {all own : Dsl Num} (hall : all.Defined ∧ all.paths = allTextFields)
    (hown : own.Defined ∧ own.paths = [pathKey field.esPath]) :
    StaysOn field (if field.esPath = some allTextPath then all else own) := by
  split_ifs with hpathAll
  · refine ⟨hall.1, fun p hp => ?_⟩
    rw [documentPaths_allText hpathAll htype]
    exact List.mem_append_left _ (hall.2 ▸ hp)
  · refine staysOn_single hown.1 hown.2 (pathKey_mem hpath htype (by decide) (by decide) ?_)
    rintro - rfl
    exact hpathAll hpath

theorem staysOn_compileTerm (hpath : field.esPath = some path) (htype : field.type = some type)
    (value : FieldValue Num) (fuzzy : Option ℕ) :
    StaysOn field (compileTerm rt field value fuzzy) := by
  unfold compileTerm
  rw [htype]
  cases type with
  | header => exact staysOn_headerQuery hpath htype trivial rfl (.inl rfl)
  | ocr => exact staysOn_ocrQuery hpath htype (fun _ => trivial) fun _ => rfl
  | address => exact staysOn_single trivial rfl (addressPath_mem hpath htype _)
  | keyword =>
    refine staysOn_keyword hpath htype (fun _ => trivial) (fun _ => rfl) ?_
    cases fuzzy with
    | none => exact ⟨trivial, rfl⟩
    | some edits => exact ⟨trivial, rfl⟩
  | text => exact staysOn_text hpath htype ⟨trivial, rfl⟩ ⟨trivial, rfl⟩
  | date | size | boolean => exact staysOn_own hpath htype (by decide) trivial rfl

theorem staysOn_compilePhrase (hpath : field.esPath = some path)
    (htype : field.type = some type) (value : JsString) (proximity : Option ℕ) :
    StaysOn field (compilePhrase rt field value proximity) := by
  rw [compilePhrase, htype]
  cases type with
  | header => exact staysOn_headerQuery hpath htype trivial rfl (.inl rfl)
  | ocr => exact staysOn_ocrQuery hpath htype (fun _ => trivial) fun _ => rfl
  | address => exact staysOn_single trivial rfl (addressPath_mem hpath htype _)
  | keyword =>
    exact staysOn_keyword hpath htype (fun _ => trivial) (fun _ => rfl) ⟨trivial, rfl⟩
  | text => exact staysOn_text hpath htype ⟨trivial, rfl⟩ ⟨trivial, rfl⟩
  | date | size | boolean => exact staysOn_own hpath htype (by decide) trivial rfl

/-- One query for each of several paths. -/
theorem pathsOf_map {paths : List JsString} {q : JsString → Dsl Num} {f : JsString → JsString}
    (hdefined : ∀ p, (q p).Defined) (hpaths : ∀ p, (q p).paths = [f p]) :
    AllDefined (paths.map q) ∧ pathsOf (paths.map q) = paths.map f := by
  induction paths with
  | nil => exact ⟨trivial, rfl⟩
  | cons p paths ih =>
    refine ⟨⟨hdefined p, ih.1⟩, ?_⟩
    rw [List.map_cons, pathsOf, ih.2, hpaths]
    rfl

theorem staysOn_compileWildcard (hpath : field.esPath = some path)
    (htype : field.type = some type) (hkind : ¬ isExactType field.type) (value : JsString) :
    StaysOn field (compileWildcard rt field value) := by
  rw [htype] at hkind
  rw [compileWildcard, htype]
  cases type with
  | header => exact staysOn_headerQuery hpath htype trivial rfl (.inr rfl)
  | ocr =>
    refine staysOn_single trivial rfl ?_
    rw [documentPaths_eq hpath htype]
    exact List.mem_cons_of_mem _ (List.mem_cons_self ..)
  | address => exact staysOn_single trivial rfl (addressPath_mem hpath htype _)
  | keyword =>
    exact staysOn_keyword hpath htype (fun _ => trivial) (fun _ => rfl) ⟨trivial, rfl⟩
  | text =>
    by_cases hall : field.esPath = some allTextPath
    · have hfields : ∀ p ∈ allTextFields, pathKey (wildcardPath (some p)) ∈
          allTextFields ++ keywordMultifields.map fun path => path ++ js ".keyword" := by
        decide
      let wildcards : List (Dsl Num) := allTextFields.map fun p =>
        .wildcard (pathKey (wildcardPath (some p))) (rt.lower value)
      have hqueries : AllDefined wildcards ∧
          pathsOf wildcards = allTextFields.map fun p => pathKey (wildcardPath (some p)) :=
        pathsOf_map (fun _ => trivial) fun _ => rfl
      simp only [hall, if_true]
      refine ⟨⟨trivial, trivial, hqueries.1, trivial⟩, ?_⟩
      rw [documentPaths_allText hall htype, Dsl.anyOf, Dsl.paths, hqueries.2]
      simp only [pathsOf, List.nil_append, List.append_nil, List.forall_mem_map]
      exact hfields
    · have hne : path ≠ allTextPath := by
        rintro rfl
        exact hall hpath
      simp only [hall, if_false]
      refine staysOn_single trivial rfl ?_
      rw [documentPaths_eq hpath htype, hpath, documentPaths_text, wildcardPath]
      by_cases hmulti : path ∈ keywordMultifields <;> simp [hne, hmulti, pathKey]
  | date | size | boolean => exact absurd rfl hkind

theorem staysOn_compileExists (hpath : field.esPath = some path)
    (htype : field.type = some type)
    (hkind : ¬ (field.esPath = defaultTextField.esPath ∧ field.type = some .text)) :
    StaysOn field (compileExists field : Dsl Num) := by
  rw [compileExists]
  by_cases hheader : field.type = some .header
  · rw [if_pos hheader, StaysOn, documentPaths_eq hpath hheader]
    refine ⟨trivial, ?_⟩
    rw [documentPaths_header]
    simp [Dsl.paths]
  rw [if_neg hheader]
  by_cases haddress : field.type = some .address
  · rw [if_pos haddress]
    by_cases haddresses : field.esPath = some (js "addresses")
    · rw [if_pos haddresses]
      refine staysOn_single rfl rfl ?_
      rw [documentPaths_eq haddresses haddress]
      exact List.mem_cons_self ..
    · rw [if_neg haddresses]
      refine staysOn_single rfl rfl ?_
      have hne : path ≠ js "addresses" := by
        rintro rfl
        exact haddresses hpath
      rw [documentPaths_eq hpath haddress, hpath, documentPaths_address]
      simp [hne, pathKey]
  · rw [if_neg haddress]
    have hmem := pathKey_mem hpath htype (fun h => hheader (h ▸ htype))
      (fun h => haddress (h ▸ htype)) ?_
    · rw [hpath] at hmem ⊢
      exact staysOn_single rfl rfl hmem
    · rintro rfl rfl
      exact hkind ⟨hpath, htype⟩

/-- **Leaves stay on the paths of their field**, whatever their kind and its type. -/
theorem staysOn_compileNode {v : ValidatedNode Num} (hfield : v.field? = some field)
    (hpath : field.esPath = some path) (htype : field.type = some type) (hkind : v.KindAllowed) :
    StaysOn field (compileNode rt v) := by
  cases v with
  | term f value fuzzy =>
    cases hfield
    exact staysOn_compileTerm hpath htype value fuzzy
  | phrase f value proximity =>
    cases hfield
    exact staysOn_compilePhrase hpath htype value proximity
  | wildcard f value =>
    cases hfield
    exact staysOn_compileWildcard hpath htype hkind value
  | range f bounds =>
    cases hfield
    refine staysOn_single trivial rfl (pathKey_mem hpath htype ?_ ?_ ?_)
    · rintro rfl
      rcases hkind with h | h <;> exact absurd (htype.symm.trans h) (by decide)
    · rintro rfl
      rcases hkind with h | h <;> exact absurd (htype.symm.trans h) (by decide)
    · rintro rfl
      rcases hkind with h | h <;> exact absurd (htype.symm.trans h) (by decide)
  | «exists» f =>
    cases hfield
    exact staysOn_compileExists hpath htype hkind
  | bool kind children => cases hfield
  | not child => cases hfield
  | matchAll => cases hfield

end StaysOn

/-! ## Query strings -/

section Queries

variable (rt : JsRuntime Num) (query : JsString)

/-- What the registry is for: accepted queries have registered fields only, each of
their leaves stays on the paths of its field, and a query with any other field name is
rejected with `QueryValidationError`. -/
structure OnlyRegistered : Prop where
  accepted : ∀ node ast, parseQuery rt query = .ok node →
    validateAst rt defaultFieldRegistry defaultCostLimits node = .ok ast →
      ∀ leaf ∈ ast.root.leaves, ∃ field, leaf.field? = some field ∧
        Registered defaultFieldRegistry field ∧ StaysOn field (compileNode rt leaf)
  rejected : ∀ node, parseQuery rt query = .ok node →
    ∀ leaf ∈ node.leaves, ∀ name ∈ leaf.fieldName,
      ¬ RegisteredName defaultFieldRegistry (rt.lower name) →
        ∃ violations, validateAst rt defaultFieldRegistry defaultCostLimits node =
          .error (.validation violations)

/-- No leaf is named like an inherited property, in a query that is within the limits and
whose values fit their fields. -/
def NoInheritedName : Prop :=
  ∀ node, parseQuery rt query = .ok node →
    Acceptable rt defaultFieldRegistry defaultCostLimits node →
      ∀ leaf ∈ node.leaves, ∀ name ∈ leaf.fieldName,
        rt.lower name ≠ js "constructor" ∧ rt.lower name ≠ js "__proto__"

variable {rt query}

theorem not_registeredName_of_inherited {name : JsString}
    (h : name = js "constructor" ∨ name = js "__proto__") :
    ¬ RegisteredName defaultFieldRegistry name := by
  rintro (hmem | ⟨header, -, hheader⟩)
  · rcases h with rfl | rfl
    · exact absurd hmem (by decide)
    · exact absurd hmem (by decide)
  · have hprefix : startsWith name headerPrefix := by
      rw [hheader]
      exact List.isPrefixOf_iff_prefix.mpr ⟨header, rfl⟩
    rcases h with rfl | rfl
    · exact absurd hprefix (by decide)
    · exact absurd hprefix (by decide)

/-- Which field an accepted leaf has. -/
theorem resolveField_ok {leaf : QueryNode} {field : ResolvedField}
    (h : resolveField rt defaultFieldRegistry leaf.fieldName = .ok field) :
    (Registered defaultFieldRegistry field ∧
        ∀ name ∈ leaf.fieldName, RegisteredName defaultFieldRegistry (rt.lower name)) ∨
      ∃ name ∈ leaf.fieldName, rt.lower name = js "constructor" ∨ rt.lower name = js "__proto__" := by
  rcases hname : leaf.fieldName with _ | name
  · rw [hname] at h
    cases h
    exact .inl ⟨.inr (.inr rfl), by rintro _ ⟨⟩⟩
  · rw [hname, resolveField] at h
    rcases hresolve : defaultFieldRegistry.resolve rt name with e | f
    · obtain ⟨message, rfl⟩ := FieldRegistry.resolve_error rt hresolve
      simp only [hresolve] at h
      cases h
    · simp only [hresolve] at h
      cases h
      rcases (FieldRegistry.resolve_ok rt hresolve).2 with ⟨hregistered, hknown⟩ | ⟨-, hmem, -⟩
      · refine .inl ⟨hregistered, ?_⟩
        rintro _ ⟨⟩
        exact hknown
      · exact .inr ⟨name, rfl, (mem_inheritedNames_lower rt).mp hmem⟩

theorem exists_of_forall₂ {α β : Type} {R : α → β → Prop} {as : List α} {bs : List β}
    (h : List.Forall₂ R as bs) {b : β} (hb : b ∈ bs) : ∃ a ∈ as, R a b := by
  induction h with
  | nil => cases hb
  | @cons a b' as bs hab _ ih =>
    rcases List.mem_cons.mp hb with rfl | hb
    · exact ⟨a, List.mem_cons_self .., hab⟩
    · obtain ⟨a', ha', hR⟩ := ih hb
      exact ⟨a', List.mem_cons_of_mem _ ha', hR⟩

/-- **Only registered fields are queryable, except through inherited names.** -/
theorem onlyRegistered_iff : OnlyRegistered rt query ↔ NoInheritedName rt query := by
  refine ⟨?_, ?_⟩
  · intro h node hparse hacceptable leaf hleaf name hname
    have haccepted := validateAst_ok_iff.mpr hacceptable
    rw [← not_or]
    intro hinherited
    obtain ⟨ast, hast⟩ := haccepted
    obtain ⟨violations, herror⟩ := h.rejected node hparse leaf hleaf name hname
      (not_registeredName_of_inherited hinherited)
    rw [hast] at herror
    cases herror
  · intro h
    refine ⟨?_, ?_⟩
    · intro node ast hparse hast v hv
      obtain ⟨hacceptable, hleaves⟩ := validateAst_leaves hast
      obtain ⟨leaf, hleaf, hcheck⟩ := exists_of_forall₂ hleaves hv
      obtain ⟨-, field, hresolve, hfield, -, hkind⟩ := checkLeaf_ok hcheck
      refine ⟨field, hfield, ?_⟩
      rcases resolveField_ok hresolve with ⟨hregistered, -⟩ | ⟨name, hname, hinherited⟩
      · obtain ⟨path, type, hpath, htype⟩ := hregistered.resolved
        exact ⟨hregistered, staysOn_compileNode hfield hpath htype hkind⟩
      · exact absurd hinherited (not_or.mpr (h node hparse hacceptable leaf hleaf name hname))
    · intro node hparse leaf hleaf name hname hunknown
      rcases hvalidate : validateAst rt defaultFieldRegistry defaultCostLimits node with e | ast
      · obtain ⟨violations, rfl⟩ := validateAst_error hvalidate
        exact ⟨violations, rfl⟩
      · have hacceptable := (validateAst_leaves hvalidate).1
        obtain ⟨field, hresolve, -⟩ := hacceptable.leaves leaf hleaf
        rcases resolveField_ok hresolve with ⟨-, hknown⟩ | ⟨name', hname', hinherited⟩
        · exact absurd (hknown name hname) hunknown
        · exact absurd hinherited (not_or.mpr (h node hparse hacceptable leaf hleaf name' hname'))

/-- A query that is one exact term. -/
def isTerm (name value : JsString) : Except QueryError QueryNode → Bool
  | .ok (.term name' value' fuzzy) => decide (name' = some name ∧ value' = value ∧ fuzzy = none)
  | _ => false

/-- `constructor:x` is accepted, with a field that no entry of the registry has. -/
theorem not_onlyRegistered_constructor :
    ¬ OnlyRegistered asciiRuntime (js "constructor:x") := by
  have hparse : isTerm (js "constructor") (js "x")
      (parseQuery asciiRuntime (js "constructor:x")) = true := by
    decide +kernel
  unfold isTerm at hparse
  split at hparse
  · rename_i name value fuzzy hquery
    obtain ⟨rfl, rfl, rfl⟩ := of_decide_eq_true hparse
    intro h
    obtain ⟨violations, herror⟩ := h.rejected _ hquery _ (List.mem_singleton_self _) _ rfl
      (not_registeredName_of_inherited (.inl rfl))
    cases herror
  · cases hparse

end Queries

end AegCloudDfir.Search
