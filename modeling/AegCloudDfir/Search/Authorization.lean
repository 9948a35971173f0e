import AegCloudDfir.Search.Compile

/-!
# Query authorization

The filter `wrapWithAuthorization` puts around a query lets a caller see exactly the
documents `Authorized` says, and `compile` returns exactly those of them the user's
query means. Since the user's part is one clause of the outer `must`, nothing in it,
however it is nested or negated, reaches a document outside.
-/

namespace AegCloudDfir.Search

variable {Num : Type}

/-- An indexed document: the fields access depends on, and the rest. -/
structure SearchDoc (Num : Type) where
  tenantId : JsString
  caseIds : List JsString
  importId : Option JsString
  importOwnerId : Option JsString
  privileged : Bool
  /-- the values of every other field -/
  fields : JsString → List (FieldValue Num)
  /-- the nested objects at a path -/
  nested : JsString → List (JsString → List (FieldValue Num))

namespace SearchDoc

/-- The document as the engine indexes it. -/
def scope (doc : SearchDoc Num) : Scope Num where
  values path :=
    if path = js "tenantId" then [.text doc.tenantId]
    else if path = js "caseIds" then doc.caseIds.map .text
    else if path = js "importId" then doc.importId.toList.map .text
    else if path = js "importOwnerId" then doc.importOwnerId.toList.map .text
    else if path = js "privileged" then [.bool doc.privileged]
    else doc.fields path
  nested := doc.nested

variable (doc : SearchDoc Num)

theorem values_tenantId : doc.scope.values (js "tenantId") = [.text doc.tenantId] := rfl

theorem values_caseIds : doc.scope.values (js "caseIds") = doc.caseIds.map .text := rfl

theorem values_importId : doc.scope.values (js "importId") = doc.importId.toList.map .text := rfl

theorem values_importOwnerId :
    doc.scope.values (js "importOwnerId") = doc.importOwnerId.toList.map .text := rfl

theorem values_privileged : doc.scope.values (js "privileged") = [.bool doc.privileged] := rfl

end SearchDoc

/-- The documents a caller may see. -/
structure Authorized (auth : AuthContext) (doc : SearchDoc Num) : Prop where
  /-- of the caller's tenant -/
  tenant : doc.tenantId = auth.tenantId
  /-- in one of the caller's cases, if the caller is restricted to cases -/
  cases : ∀ caseIds ∈ auth.caseIds, ∃ id ∈ caseIds, id ∈ doc.caseIds
  /-- not imported, or imported by the caller or into one of the caller's cases -/
  imports : ∀ access ∈ auth.importAccess,
    doc.importId = none ∨ doc.importOwnerId = some access.1 ∨
      ∃ id ∈ access.2, id ∈ doc.caseIds
  /-- not privileged, unless the caller may see privileged material -/
  privilege : auth.includePrivileged = false → doc.privileged = false

/-! ## The filter -/

section Filter

variable {engine : Engine Num} {doc : SearchDoc Num}

theorem matches_tenantId {tenantId : JsString} :
    (Dsl.term (js "tenantId") (.text tenantId)).matches engine doc.scope ↔
      doc.tenantId = tenantId := by
  rw [Dsl.matches, engine.term_exact _ (by decide), doc.values_tenantId, List.mem_singleton,
    FieldValue.text.injEq, eq_comm]

theorem matches_caseIds {caseIds : List JsString} :
    (Dsl.terms (js "caseIds") caseIds).matches engine doc.scope ↔
      ∃ id ∈ caseIds, id ∈ doc.caseIds := by
  have hpath : js "caseIds" ∈ exactPaths := by decide
  simp only [Dsl.matches, List.any_eq_true, engine.term_exact _ hpath, doc.values_caseIds,
    List.mem_map, FieldValue.text.injEq, exists_eq_right]

theorem matches_importOwnerId {owner : JsString} :
    (Dsl.term (js "importOwnerId") (.text owner)).matches engine doc.scope ↔
      doc.importOwnerId = some owner := by
  rw [Dsl.matches, engine.term_exact _ (by decide), doc.values_importOwnerId]
  cases doc.importOwnerId with
  | none => exact iff_of_false (by rintro ⟨⟩) (by rintro ⟨⟩)
  | some id =>
    rw [Option.toList_some, List.map_singleton, List.mem_singleton, FieldValue.text.injEq,
      Option.some.injEq, eq_comm]

theorem matches_privileged :
    (Dsl.term (js "privileged") (.bool false)).matches engine doc.scope ↔
      doc.privileged = false := by
  rw [Dsl.matches, engine.term_exact _ (by decide), doc.values_privileged, List.mem_singleton,
    FieldValue.bool.injEq, eq_comm]

theorem matches_noImport :
    (Dsl.mustNot [Dsl.exists (some (js "importId"))]).matches engine doc.scope ↔
      doc.importId = none := by
  rw [matches_mustNot, List.forall_mem_singleton, Dsl.matches, Option.any_some,
    doc.values_importId]
  cases doc.importId with
  | none => exact iff_of_true Bool.false_ne_true rfl
  | some id => exact iff_of_false (fun h => h rfl) (by rintro ⟨⟩)

/-- **The filter lets through exactly what the caller may see.** -/
theorem matches_authorizationFilter {auth : AuthContext} :
    (∀ q ∈ authorizationFilter auth, q.matches engine doc.scope) ↔ Authorized auth doc := by
  have himports : ∀ access : JsString × List JsString,
      (Dsl.anyOf
        [.mustNot [.exists (some (js "importId"))],
          .term (js "importOwnerId") (.text access.1),
          .terms (js "caseIds") access.2]).matches engine doc.scope ↔
        doc.importId = none ∨ doc.importOwnerId = some access.1 ∨
          ∃ id ∈ access.2, id ∈ doc.caseIds := by
    intro access
    rw [matches_anyOf]
    simp only [List.mem_cons, List.not_mem_nil, or_false, exists_eq_or_imp, exists_eq_left,
      matches_noImport, matches_importOwnerId, matches_caseIds]
  obtain ⟨tenantId, caseIds, includePrivileged, importAccess⟩ := auth
  have hparts : ∀ as bs cs ds : List (Dsl Num),
      (∀ q ∈ as ++ bs ++ cs ++ ds, q.matches engine doc.scope) ↔
        (∀ q ∈ as, q.matches engine doc.scope) ∧ (∀ q ∈ bs, q.matches engine doc.scope) ∧
          (∀ q ∈ cs, q.matches engine doc.scope) ∧ ∀ q ∈ ds, q.matches engine doc.scope := by
    intro as bs cs ds
    simp only [List.forall_mem_append, and_assoc]
  rw [authorizationFilter, hparts]
  refine ⟨?_, ?_⟩
  · rintro ⟨htenant, hcases, himport, hprivilege⟩
    refine ⟨matches_tenantId.mp (htenant _ (List.mem_singleton_self _)), ?_, ?_, ?_⟩
    · rintro ids hids
      cases hids
      exact matches_caseIds.mp (hcases _ (List.mem_singleton_self _))
    · rintro access haccess
      cases haccess
      exact (himports access).mp (himport _ (List.mem_singleton_self _))
    · rintro hinclude
      cases hinclude
      exact matches_privileged.mp (hprivilege _ (List.mem_singleton_self _))
  · rintro ⟨htenant, hcases, himport, hprivilege⟩
    refine ⟨?_, ?_, ?_, ?_⟩
    · rw [List.forall_mem_singleton]
      exact matches_tenantId.mpr htenant
    · rcases caseIds with _ | ids
      · exact List.forall_mem_nil _
      · rw [List.forall_mem_singleton]
        exact matches_caseIds.mpr (hcases ids rfl)
    · rcases importAccess with _ | access
      · exact List.forall_mem_nil _
      · rw [List.forall_mem_singleton]
        exact (himports access).mpr (himport access rfl)
    · cases includePrivileged with
      | true => exact List.forall_mem_nil _
      | false =>
        rw [if_neg Bool.false_ne_true, List.forall_mem_singleton]
        exact matches_privileged.mpr (hprivilege rfl)

end Filter

/-! ## Queries -/

variable (rt : JsRuntime Num)

/-- **Query authorization is exact.** For every validated query and every context
with a tenant, `compile` returns a query that matches a document exactly when the
document satisfies the user's query and the caller may see it; and every request body
holds that query. -/
theorem compile_authorized (engine : Engine Num) (ast : ValidatedAst Num) {auth : AuthContext}
    (htenant : auth.tenantId ≠ []) :
    ∃ query, compile rt ast auth = .ok query ∧
      (∀ opts body, buildSearchRequest rt ast auth opts = .ok body → body.query = query) ∧
      ∀ doc : SearchDoc Num, query.matches engine doc.scope ↔
        ast.root.Meaning rt engine doc.scope ∧ Authorized auth doc := by
  have hlen : auth.tenantId.length ≠ 0 := by
    intro h
    exact htenant (List.length_eq_zero_iff.mp h)
  have hcompile : compile rt ast auth =
      .ok (.bool (authorizationFilter auth) [compileNode rt ast.root] [] [] none) := by
    rw [compile, wrapWithAuthorization, if_neg hlen]
  refine ⟨_, hcompile, ?_, ?_⟩
  · intro opts body hbody
    rw [buildSearchRequest, hcompile] at hbody
    obtain ⟨query, hquery, hbody⟩ := bind_eq_ok.mp hbody
    obtain ⟨sort, -, hbody⟩ := bind_eq_ok.mp hbody
    obtain ⟨aggs, -, hbody⟩ := bind_eq_ok.mp hbody
    cases hbody
    exact (Except.ok.inj hquery).symm
  · intro doc
    rw [matches_filtered, matches_authorizationFilter, List.forall_mem_singleton,
      matches_compileNode, and_comm]

/-- An engine that compares whole values and knows no analyzers. -/
def exactEngine : Engine ℤ where
  term path value doc := decide (value ∈ doc.values path)
  fullText path query _ doc := decide (.text query ∈ doc.values path)
  phrase path query _ doc := decide (.text query ∈ doc.values path)
  multiText paths query _ doc := paths.any fun path => decide (.text query ∈ doc.values path)
  multiPhrase paths query _ doc := paths.any fun path => decide (.text query ∈ doc.values path)
  fuzzy path value _ doc := decide (.text value ∈ doc.values path)
  wildcard path value doc := decide (.text value ∈ doc.values path)
  range _ _ _ := false
  term_exact _ _ _ _ := decide_eq_true_iff

/-- A negated query of a caller restricted to one case stays within the caller's tenant. -/
theorem compile_authorized_example :
    ∃ query, compile asciiRuntime ⟨.not (.term defaultTextField (.text (js "memo")) none)⟩
        ⟨js "t1", some [js "c1"], false, none⟩ = .ok query ∧
      ∀ doc : SearchDoc ℤ, query.matches exactEngine doc.scope →
        doc.tenantId = js "t1" ∧ doc.privileged = false := by
  have htenant : (AuthContext.mk (js "t1") (some [js "c1"]) false none).tenantId ≠ [] := by
    decide
  obtain ⟨query, hquery, -, hmatches⟩ :=
    compile_authorized asciiRuntime exactEngine
      ⟨.not (.term defaultTextField (.text (js "memo")) none)⟩ htenant
  refine ⟨query, hquery, fun doc hdoc => ?_⟩
  have hauthorized := ((hmatches doc).mp hdoc).2
  exact ⟨hauthorized.tenant, hauthorized.privilege rfl⟩

end AegCloudDfir.Search
