import AegCloudDfir.Search.Validate

/-!
# OpenSearch queries

The fragment of the query DSL the compiler emits, and what a query matches. Boolean
structure, nested objects, `terms` and `exists` are given their meaning here; how a
value or a text matches a field depends on its analyzer and stays a parameter
(`Engine`). The fields the authorization filter is about are plain keywords and
booleans, which a `term` matches exactly.
-/

namespace AegCloudDfir.Search

variable {Num : Type}

/-- `QueryDsl`. -/
inductive Dsl (Num : Type) : Type where
  /-- `undefined` where a query should be -/
  | undefined
  /-- `{ match_all: {} }` -/
  | matchAll
  /-- `{ term: { [path]: value } }` -/
  | term (path : JsString) (value : FieldValue Num)
  /-- `{ terms: { [path]: values } }` -/
  | terms (path : JsString) (values : List JsString)
  /-- `{ exists: { field } }` -/
  | exists (field : Option JsString)
  /-- `{ match: { [path]: { query, fuzziness } } }` -/
  | match (path : JsString) (query : JsString) (fuzziness : Option ℕ)
  /-- `{ match_phrase: { [path]: { query, slop } } }` -/
  | matchPhrase (path : JsString) (query : JsString) (slop : ℕ)
  /-- `{ multi_match: { query, fields, fuzziness } }` -/
  | multiMatch (fields : List JsString) (query : JsString) (fuzziness : Option ℕ)
  /-- `{ multi_match: { query, type: 'phrase', slop, fields } }` -/
  | multiMatchPhrase (fields : List JsString) (query : JsString) (slop : ℕ)
  /-- `{ fuzzy: { [path]: { value, fuzziness } } }` -/
  | fuzzy (path : JsString) (value : JsString) (fuzziness : ℕ)
  /-- `{ wildcard: { [path]: { value, case_insensitive: true } } }` -/
  | wildcard (path : JsString) (value : JsString)
  /-- `{ range: { [path]: bounds } }` -/
  | range (path : JsString) (bounds : Bounds (FieldValue Num))
  /-- `{ nested: { path, query } }` -/
  | nested (path : JsString) (query : Dsl Num)
  /-- `{ bool: { filter, must, should, must_not, minimum_should_match } }` -/
  | bool (filter must should mustNot : List (Dsl Num)) (minimumShouldMatch : Option ℕ)

namespace Dsl

/-- `{ bool: { must } }`. -/
def must (queries : List (Dsl Num)) : Dsl Num := .bool [] queries [] [] none

/-- `{ bool: { must_not } }`. -/
def mustNot (queries : List (Dsl Num)) : Dsl Num := .bool [] [] [] queries none

/-- `{ bool: { should, minimum_should_match: 1 } }`. -/
def anyOf (queries : List (Dsl Num)) : Dsl Num := .bool [] [] queries [] (some 1)

end Dsl

/-- A document, or a nested object of one, as the engine indexes it. -/
structure Scope (Num : Type) where
  /-- the values of a field -/
  values : JsString → List (FieldValue Num)
  /-- the fields of the nested objects at a path -/
  nested : JsString → List (JsString → List (FieldValue Num))

/-- A nested object on its own. -/
def Scope.ofNested (values : JsString → List (FieldValue Num)) : Scope Num where
  values := values
  nested := fun _ => []

/-- The fields the authorization filter compares with `term` and `terms`. -/
def exactPaths : List JsString :=
  [js "tenantId", js "caseIds", js "importOwnerId", js "privileged"]

/-- How values and texts match fields. -/
structure Engine (Num : Type) where
  term : JsString → FieldValue Num → Scope Num → Bool
  fullText : JsString → JsString → Option ℕ → Scope Num → Bool
  phrase : JsString → JsString → ℕ → Scope Num → Bool
  multiText : List JsString → JsString → Option ℕ → Scope Num → Bool
  multiPhrase : List JsString → JsString → ℕ → Scope Num → Bool
  fuzzy : JsString → JsString → ℕ → Scope Num → Bool
  wildcard : JsString → JsString → Scope Num → Bool
  range : JsString → Bounds (FieldValue Num) → Scope Num → Bool
  /-- keywords without a normalizer and booleans match exactly -/
  term_exact : ∀ path ∈ exactPaths, ∀ value doc,
    term path value doc = true ↔ value ∈ doc.values path

variable (engine : Engine Num)

/-- The clauses of `should` that have to match. -/
def requiredShould (filter must should : ℕ) : Option ℕ → ℕ
  | some n => n
  | none => if filter = 0 ∧ must = 0 ∧ 0 < should then 1 else 0

mutual

/-- The documents a query matches. -/
def Dsl.matches (doc : Scope Num) : Dsl Num → Bool
  | .undefined => false
  | .matchAll => true
  | .term path value => engine.term path value doc
  | .terms path values => values.any fun value => engine.term path (.text value) doc
  | .exists field => field.any fun path => !(doc.values path).isEmpty
  | .match path query fuzziness => engine.fullText path query fuzziness doc
  | .matchPhrase path query slop => engine.phrase path query slop doc
  | .multiMatch fields query fuzziness => engine.multiText fields query fuzziness doc
  | .multiMatchPhrase fields query slop => engine.multiPhrase fields query slop doc
  | .fuzzy path value fuzziness => engine.fuzzy path value fuzziness doc
  | .wildcard path value => engine.wildcard path value doc
  | .range path bounds => engine.range path bounds doc
  | .nested path query =>
    (doc.nested path).any fun values => Dsl.matches (Scope.ofNested values) query
  | .bool filter must should mustNot minimum =>
    let required := requiredShould filter.length must.length should.length minimum
    countMatches doc filter = filter.length && countMatches doc must = must.length &&
      required ≤ countMatches doc should && countMatches doc mustNot = 0

/-- How many of the queries match. -/
def countMatches (doc : Scope Num) : List (Dsl Num) → ℕ
  | [] => 0
  | query :: queries => (if query.matches doc then 1 else 0) + countMatches doc queries

end

/-! ## Boolean combinations -/

variable {engine} {doc : Scope Num}

theorem countMatches_eq (queries : List (Dsl Num)) :
    countMatches engine doc queries = queries.countP fun q => q.matches engine doc := by
  induction queries with
  | nil => rfl
  | cons q queries ih =>
    rw [countMatches, ih, List.countP_cons, Nat.add_comm]

theorem countMatches_eq_length {queries : List (Dsl Num)} :
    countMatches engine doc queries = queries.length ↔ ∀ q ∈ queries, q.matches engine doc := by
  rw [countMatches_eq, List.countP_eq_length]

theorem countMatches_eq_zero {queries : List (Dsl Num)} :
    countMatches engine doc queries = 0 ↔ ∀ q ∈ queries, ¬ q.matches engine doc := by
  rw [countMatches_eq, List.countP_eq_zero]

theorem one_le_countMatches {queries : List (Dsl Num)} :
    1 ≤ countMatches engine doc queries ↔ ∃ q ∈ queries, q.matches engine doc := by
  rw [countMatches_eq]
  exact List.one_le_countP_iff

/-- `must` conjoins. -/
@[simp] theorem matches_must {queries : List (Dsl Num)} :
    (Dsl.must queries).matches engine doc ↔ ∀ q ∈ queries, q.matches engine doc := by
  simp [Dsl.must, Dsl.matches, requiredShould, countMatches, countMatches_eq_length]

/-- `must_not` negates. -/
@[simp] theorem matches_mustNot {queries : List (Dsl Num)} :
    (Dsl.mustNot queries).matches engine doc ↔ ∀ q ∈ queries, ¬ q.matches engine doc := by
  simp [Dsl.mustNot, Dsl.matches, requiredShould, countMatches, countMatches_eq_zero]

/-- `should` with `minimum_should_match: 1` disjoins. -/
@[simp] theorem matches_anyOf {queries : List (Dsl Num)} :
    (Dsl.anyOf queries).matches engine doc ↔ ∃ q ∈ queries, q.matches engine doc := by
  simp [Dsl.anyOf, Dsl.matches, requiredShould, countMatches, one_le_countMatches]

/-- `filter` and `must` side by side. -/
theorem matches_filtered {filter must : List (Dsl Num)} :
    (Dsl.bool filter must [] [] none).matches engine doc ↔
      (∀ q ∈ filter, q.matches engine doc) ∧ ∀ q ∈ must, q.matches engine doc := by
  simp [Dsl.matches, requiredShould, countMatches, countMatches_eq_length]

@[simp] theorem matches_nested {path : JsString} {query : Dsl Num} :
    (Dsl.nested path query).matches engine doc ↔
      ∃ values ∈ doc.nested path, query.matches engine (Scope.ofNested values) := by
  simp [Dsl.matches]

end AegCloudDfir.Search
