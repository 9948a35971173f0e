import AegCloudDfir.Lib.Pages
import AegCloudDfir.Js.Collections
import AegCloudDfir.Search.Compile

/-!
# Saved searches resolved to ids

An export of a saved search and everything the API does with one (cases, productions) start
from the ids of all items that match. There are two resolvers: `resolveSelectionIds` of
`apps/worker/src/processors/export-run.ts` and `SelectionService` of
`apps/api/src/search/selection.service.ts`. Both read the results page by page and have a cap
against runaway queries; past the cap they are to throw, since a list that is cut off looks
like any other.

The API checks the cap at every id. The worker checks it after its loop, and its loop ends
when the cap is reached; so if the pages end exactly at the cap, the worker never sees that
there is more (`resolvesExactly_iff`).
-/

namespace AegCloudDfir.Search

open Pages

variable {Num : Type}

/-! ## The search backend -/

/-- A hit; `sort` are its sort values, the id among them. -/
structure SearchHit (Num : Type) where
  id : JsString
  sort : List (FieldValue Num)

/-- What matches a query, in the order of the sort values. -/
structure ResultSet (Num : Type) where
  hits : List (SearchHit Num)
  nodup_ids : (hits.map SearchHit.id).Nodup
  nodup_sorts : (hits.map SearchHit.sort).Nodup

/-- `SearchResponse`. -/
structure SearchResponse (Num : Type) where
  items : List (SearchHit Num)
  searchAfter : Option (List (FieldValue Num))

/-- The index: what matches each query. -/
abbrev SearchIndex (Num : Type) := Dsl Num → ResultSet Num

/-- `search` of the adapter: `search_after` paging. -/
def SearchIndex.search [DecidableEq Num] (index : SearchIndex Num) (req : SearchRequestBody Num) :
    SearchResponse Num :=
  let page := page SearchHit.sort (index req.query).hits req.size.toNat req.searchAfter
  { items := page.1, searchAfter := page.2 }

/-! ## The two resolvers -/

/-- Why a resolver throws. -/
inductive SelectionError : Type where
  /-- the saved search does not exist -/
  | notFound (message : JsString)
  /-- its query is not valid, or cannot be compiled -/
  | query (error : QueryError)
  /-- it matches too much -/
  | tooLarge (message : JsString)

/-- The digits of a number from the last one on, with a comma after every three. -/
def groupThousands : JsString → JsString
  | a :: b :: c :: d :: digits => a :: b :: c :: unitOf ',' :: groupThousands (d :: digits)
  | digits => digits

/-- `n.toLocaleString('en-US')`. -/
def toLocaleString (n : ℕ) : JsString := (groupThousands (decimal n).reverse).reverse

/-- What `resolveSelectionIds` throws past the cap. -/
def truncatedMessage (cap : ℕ) : JsString :=
  js "saved search matched more than " ++ decimal cap ++
    js " items; refusing to export a truncated set"

/-- The message of `SelectionTooLargeError`. -/
def selectionTooLargeMessage (cap : ℕ) : JsString :=
  js "selection matched more than " ++ toLocaleString cap ++
    js (" items, which is past the safety limit. Narrow the search and try again — " ++
      "nothing was exported, deliberately, rather than exporting an incomplete set.")

section Resolvers

variable [DecidableEq Num] (rt : JsRuntime Num) (index : SearchIndex Num) (tenantId : JsString)

/-- The context both resolvers search in: the whole tenant, privileged items included. -/
def systemContext : AuthContext where
  tenantId
  caseIds := none
  includePrivileged := true
  importAccess := none

/-- The request for the page behind `searchAfter`. -/
def pageRequest (ast : ValidatedAst Num) (limit : ℤ)
    (searchAfter : Option (List (FieldValue Num))) : Except QueryError (SearchRequestBody Num) :=
  buildSearchRequest rt ast (systemContext tenantId)
    { sort := [], searchAfter, limit := some limit, highlight := false, facets := [] }

/-- The loop of `resolveSelectionIds`. -/
def resolveLoop (ast : ValidatedAst Num) (cap : ℕ) (ids : List JsString)
    (searchAfter : Option (List (FieldValue Num))) : Except SelectionError (List JsString) :=
  if ids.length < cap then
    match pageRequest rt tenantId ast 100 searchAfter with
    | .error e => .error (.query e)
    | .ok request =>
      let page := index.search request
      if page.items.length = 0 then .ok ids
      else
        match page.searchAfter with
        | none => .ok (ids ++ page.items.map SearchHit.id)
        | some cursor => resolveLoop ast cap (ids ++ page.items.map SearchHit.id) (some cursor)
  else .ok ids
termination_by cap - ids.length
decreasing_by
  have hitems : (index.search request).items.length ≠ 0 := ‹_›
  rw [List.length_append, List.length_map]
  omega

/-- `resolveSelectionIds` for a saved search. -/
def resolveSelectionIds (saved : Option QueryNode) (cap : ℕ) :
    Except SelectionError (List JsString) :=
  match saved with
  | none => .error (.notFound (js "saved search referenced by the export no longer exists"))
  | some queryAst =>
    match validateAst rt defaultFieldRegistry defaultCostLimits queryAst with
    | .error e => .error (.query e)
    | .ok validated =>
      match resolveLoop rt index tenantId validated cap [] none with
      | .error e => .error e
      | .ok ids =>
        if ids.length > cap then .error (.tooLarge (truncatedMessage cap))
        else .ok (distinct ids)

/-- The hits of a page are taken one by one, with the cap checked at each. -/
def takeHits (cap : ℕ) : List JsString → List (SearchHit Num) → Except SelectionError (List JsString)
  | ids, [] => .ok ids
  | ids, hit :: hits =>
    if (ids ++ [hit.id]).length > cap then .error (.tooLarge (selectionTooLargeMessage cap))
    else takeHits cap (ids ++ [hit.id]) hits

omit [DecidableEq Num] in
theorem length_takeHits {cap : ℕ} {ids ids' : List JsString} {hits : List (SearchHit Num)}
    (h : takeHits cap ids hits = .ok ids') :
    ids'.length = ids.length + hits.length ∧ (0 < hits.length → ids'.length ≤ cap) := by
  induction hits generalizing ids with
  | nil =>
    cases h
    exact ⟨rfl, fun hpos => absurd hpos (by simp)⟩
  | cons hit hits ih =>
    rw [takeHits, List.length_append, List.length_singleton] at h
    split_ifs at h with hcap
    obtain ⟨hlength, hle⟩ := ih h
    rw [List.length_append, List.length_singleton] at hlength
    rw [List.length_cons]
    refine ⟨by omega, fun _ => ?_⟩
    rcases Nat.eq_zero_or_pos hits.length with hzero | hpos
    · omega
    · exact hle hpos

omit [DecidableEq Num] in
/-- The ids of a page are taken unless they are too many. -/
theorem takeHits_eq {cap : ℕ} {ids : List JsString} (hits : List (SearchHit Num))
    (hids : ids.length ≤ cap) :
    takeHits cap ids hits =
      if ids.length + hits.length ≤ cap then .ok (ids ++ hits.map SearchHit.id)
      else .error (.tooLarge (selectionTooLargeMessage cap)) := by
  induction hits generalizing ids with
  | nil => rw [takeHits, List.length_nil, if_pos (by exact hids), List.map_nil, List.append_nil]
  | cons hit hits ih =>
    have hlength : (ids ++ [hit.id]).length = ids.length + 1 := by
      rw [List.length_append, List.length_singleton]
    rw [takeHits, hlength, List.length_cons, ← Nat.add_assoc, Nat.add_right_comm]
    by_cases hcap : ids.length + 1 > cap
    · rw [if_pos hcap, if_neg (by omega)]
    · rw [if_neg hcap, ih (by omega), hlength, List.map_cons, List.append_assoc,
        List.singleton_append]

/-- The loop of `collectIdsForAst`. -/
def collectLoop (ast : ValidatedAst Num) (cap : ℕ) (ids : List JsString)
    (searchAfter : Option (List (FieldValue Num))) : Except SelectionError (List JsString) :=
  match pageRequest rt tenantId ast maxPageSize searchAfter with
  | .error e => .error (.query e)
  | .ok request =>
    let page := index.search request
    match _ : takeHits cap ids page.items with
    | .error e => .error e
    | .ok ids' =>
      if page.items.length < maxPageSize then .ok ids'
      else
        match page.searchAfter with
        | none => .ok ids'
        | some cursor => collectLoop ast cap ids' (some cursor)
termination_by cap - ids.length
decreasing_by
  have hfull : ¬ (page.items.length : ℤ) < maxPageSize := ‹_›
  obtain ⟨hlength, hcap⟩ := length_takeHits ‹takeHits cap ids page.items = .ok ids'›
  generalize page.items.length = n at hfull hlength hcap
  rw [maxPageSize] at hfull
  omega

/-- `collectIdsForSavedSearch`. -/
def collectIdsForSavedSearch (saved : Option QueryNode) (cap : ℕ) :
    Except SelectionError (List JsString) :=
  match saved with
  | none => .error (.notFound (js "Not Found"))
  | some queryAst =>
    match validateAst rt defaultFieldRegistry defaultCostLimits queryAst with
    | .error e => .error (.query e)
    | .ok validated => collectLoop rt index tenantId validated cap [] none

end Resolvers

/-! ## What they return -/

section Exact

variable [DecidableEq Num] (rt : JsRuntime Num) (index : SearchIndex Num) (tenantId : JsString)

/-- The ids of everything that matches a saved search, if it can be run at all. -/
def matchingIds (saved : Option QueryNode) : Option (List JsString) :=
  match saved with
  | none => none
  | some queryAst =>
    match validateAst rt defaultFieldRegistry defaultCostLimits queryAst with
    | .error _ => none
    | .ok validated =>
      match compile rt validated (systemContext tenantId) with
      | .error _ => none
      | .ok query => some ((index query).hits.map SearchHit.id)

variable {rt index tenantId} {ast : ValidatedAst Num} {query : Dsl Num} {cap n : ℕ}
  {cursor : Option (List (FieldValue Num))}

omit [DecidableEq Num] in
/-- Whether there is a request depends on the query only. -/
theorem pageRequest_eq (limit : ℤ) :
    pageRequest rt tenantId ast limit cursor =
      (compile rt ast (systemContext tenantId)).map fun query =>
        { query
          size := min (max limit 1) maxPageSize
          sort := [(some (js "_score"), true), (some (js "evidenceItemId"), false)]
          trackTotalHits := true
          searchAfter := cursor
          highlight := false
          aggs := [] } := by
  rw [pageRequest, buildSearchRequest]
  cases compile rt ast (systemContext tenantId) with
  | error e => rfl
  | ok query => rfl

/-- Both resolvers get the next hundred hits. -/
theorem search_pageRequest (index : SearchIndex Num) (cursor : Option (List (FieldValue Num)))
    (hquery : compile rt ast (systemContext tenantId) = .ok query) :
    ∃ request, pageRequest rt tenantId ast 100 cursor = .ok request ∧
      pageRequest rt tenantId ast maxPageSize cursor = .ok request ∧
      (index.search request).items =
        (page SearchHit.sort (index query).hits 100 cursor).1 ∧
      (index.search request).searchAfter =
        (page SearchHit.sort (index query).hits 100 cursor).2 := by
  have hrequest : pageRequest rt tenantId ast 100 cursor = .ok
      { query
        size := 100
        sort := [(some (js "_score"), true), (some (js "evidenceItemId"), false)]
        trackTotalHits := true
        searchAfter := cursor
        highlight := false
        aggs := [] } := by
    rw [pageRequest_eq, hquery]
    rfl
  exact ⟨_, hrequest, hrequest, rfl, rfl⟩

/-- Where the worker's loop ends: behind the first page that reaches the cap. -/
def loopEnd (cap : ℕ) : ℕ := (cap + 99) / 100 * 100

/-- **The worker's loop.** It reads up to the end of the page that reaches the cap. -/
theorem resolveLoop_eq {n : ℕ} {cursor : Option (List (FieldValue Num))}
    (hquery : compile rt ast (systemContext tenantId) = .ok query)
    (hbehind : Behind SearchHit.sort (index query).hits n cursor)
    (hn : n = (index query).hits.length ∨ 100 ∣ n) (hend : n ≤ loopEnd cap) :
    resolveLoop rt index tenantId ast cap (((index query).hits.take n).map SearchHit.id) cursor =
      .ok (((index query).hits.take (loopEnd cap)).map SearchHit.id) := by
  have hle := hbehind.le
  have hlength : (((index query).hits.take n).map SearchHit.id).length = n := by
    rw [List.length_map, List.length_take]
    omega
  have hsize : 0 < 100 := by decide
  rw [loopEnd] at hend
  rw [resolveLoop, hlength]
  by_cases hcap : n < cap
  · obtain ⟨request, hrequest, -, hitems, hafter⟩ := search_pageRequest index cursor hquery
    rw [if_pos hcap, hrequest]
    simp only [hitems, hafter, List.length_eq_zero_iff, hbehind.items_eq_nil hsize]
    by_cases hall : n = (index query).hits.length
    · rw [if_pos hall, List.take_of_length_le hall.ge, List.take_of_length_le]
      rw [loopEnd]
      omega
    · obtain ⟨k, hk, hnext⟩ :=
        hbehind.next (index query).nodup_sorts hsize (by omega)
      rw [if_neg hall, hk]
      simp only [← List.map_append, hbehind.take_append]
      exact resolveLoop_eq hquery hnext (by omega) (by rw [loopEnd]; omega)
  · rw [if_neg hcap]
    rcases hn with hall | hpages
    · rw [List.take_of_length_le hall.ge, List.take_of_length_le]
      rw [loopEnd]
      omega
    · congr 3
      rw [loopEnd]
      omega
termination_by cap - n

/-- **The API's loop.** It returns everything or throws. -/
theorem collectLoop_eq {n : ℕ} {cursor : Option (List (FieldValue Num))}
    (hquery : compile rt ast (systemContext tenantId) = .ok query)
    (hbehind : Behind SearchHit.sort (index query).hits n cursor) (hcap : n ≤ cap) :
    collectLoop rt index tenantId ast cap (((index query).hits.take n).map SearchHit.id) cursor =
      if (index query).hits.length ≤ cap then .ok ((index query).hits.map SearchHit.id)
      else .error (.tooLarge (selectionTooLargeMessage cap)) := by
  have hle := hbehind.le
  have hlength : (((index query).hits.take n).map SearchHit.id).length = n := by
    rw [List.length_map, List.length_take]
    omega
  have hsize : 0 < 100 := by decide
  obtain ⟨request, -, hrequest, hitems, hafter⟩ := search_pageRequest index cursor hquery
  have hpage : n + (index.search request).items.length =
      min (index query).hits.length (n + 100) := by
    rw [hitems]
    exact hbehind.length_items
  rw [collectLoop, hrequest]
  dsimp only
  have htake := takeHits_eq (index.search request).items (hlength.trans_le hcap)
  rw [hlength] at htake
  split
  · rename_i e herror
    rw [htake] at herror
    split_ifs at herror with hfits
    cases herror
    rw [if_neg (by omega)]
  · rename_i ids hids
    rw [htake] at hids
    split_ifs at hids with hfits
    cases hids
    rw [← List.map_append, hitems, hbehind.take_append, ← hitems]
    by_cases hfull : ((index.search request).items.length : ℤ) < maxPageSize
    · rw [if_pos hfull]
      rw [maxPageSize] at hfull
      rw [if_pos (by omega), List.take_of_length_le (by omega)]
    · rw [if_neg hfull]
      rw [maxPageSize] at hfull
      by_cases hall : n = (index query).hits.length
      · omega
      · obtain ⟨k, hk, hnext⟩ := hbehind.next (index query).nodup_sorts hsize (by omega)
        rw [hafter, hk]
        exact collectLoop_eq hquery hnext (by omega)
termination_by (index query).hits.length - n

section Saved

variable {saved : Option QueryNode} {all ids ids' : List JsString}

omit [DecidableEq Num] in
/-- A saved search that can be run has a query. -/
theorem matchingIds_eq_some (h : matchingIds rt index tenantId saved = some all) :
    ∃ queryAst validated query, saved = some queryAst ∧
      validateAst rt defaultFieldRegistry defaultCostLimits queryAst = .ok validated ∧
      compile rt validated (systemContext tenantId) = .ok query ∧
      all = (index query).hits.map SearchHit.id := by
  rcases saved with _ | queryAst
  · cases h
  · rw [matchingIds] at h
    rcases hvalidate : validateAst rt defaultFieldRegistry defaultCostLimits queryAst with e | validated
    · rw [hvalidate] at h
      cases h
    · rw [hvalidate] at h
      dsimp only at h
      rcases hcompile : compile rt validated (systemContext tenantId) with e | query
      · rw [hcompile] at h
        cases h
      · rw [hcompile] at h
        cases h
        exact ⟨queryAst, validated, query, rfl, hvalidate, hcompile, rfl⟩

/-- What the API answers was found by the search. -/
theorem isSome_matchingIds (h : collectIdsForSavedSearch rt index tenantId saved cap = .ok ids) :
    ∃ all, matchingIds rt index tenantId saved = some all := by
  rcases saved with _ | queryAst
  · cases h
  · rw [collectIdsForSavedSearch] at h
    rw [matchingIds]
    rcases hvalidate : validateAst rt defaultFieldRegistry defaultCostLimits queryAst with e | validated
    · rw [hvalidate] at h
      cases h
    · rw [hvalidate] at h
      dsimp only at h ⊢
      rcases hcompile : compile rt validated (systemContext tenantId) with e | query
      · rw [collectLoop, pageRequest_eq, hcompile] at h
        cases h
      · exact ⟨_, rfl⟩

/-- **The API returns everything or throws.** -/
theorem collectIdsForSavedSearch_eq (h : matchingIds rt index tenantId saved = some all) :
    collectIdsForSavedSearch rt index tenantId saved cap =
      if all.length ≤ cap then .ok all
      else .error (.tooLarge (selectionTooLargeMessage cap)) := by
  obtain ⟨queryAst, validated, query, rfl, hvalidate, hcompile, rfl⟩ := matchingIds_eq_some h
  rw [collectIdsForSavedSearch, hvalidate, List.length_map]
  exact collectLoop_eq hcompile behind_none (Nat.zero_le cap)

/-- **The worker returns everything that it has read when its loop ends.** -/
theorem resolveSelectionIds_eq (h : matchingIds rt index tenantId saved = some all) :
    resolveSelectionIds rt index tenantId saved cap =
      if (all.take (loopEnd cap)).length > cap then .error (.tooLarge (truncatedMessage cap))
      else .ok (distinct (all.take (loopEnd cap))) := by
  obtain ⟨queryAst, validated, query, rfl, hvalidate, hcompile, rfl⟩ := matchingIds_eq_some h
  have hloop : resolveLoop rt index tenantId validated cap [] none =
      .ok (((index query).hits.take (loopEnd cap)).map SearchHit.id) :=
    resolveLoop_eq hcompile behind_none (.inr (Nat.dvd_zero 100)) (Nat.zero_le _)
  rw [resolveSelectionIds, hvalidate, ← List.map_take]
  dsimp only
  rw [hloop]

omit [DecidableEq Num] in
theorem nodup_of_matchingIds (h : matchingIds rt index tenantId saved = some all) : all.Nodup := by
  obtain ⟨-, -, query, -, -, -, rfl⟩ := matchingIds_eq_some h
  exact (index query).nodup_ids

end Saved

/-! ## Exactness -/

/-- What a resolver may return for a search that matches `all`: `all`, as a set. -/
def ReturnsAll (all ids : List JsString) : Prop := ids.Nodup ∧ ∀ id, id ∈ ids ↔ id ∈ all

variable (rt index tenantId)

/-- Neither resolver returns less than everything, and they do not contradict each other. -/
structure ResolvesExactly (saved : Option QueryNode) (workerCap apiCap : ℕ) : Prop where
  worker : ∀ all ids, matchingIds rt index tenantId saved = some all →
    resolveSelectionIds rt index tenantId saved workerCap = .ok ids → ReturnsAll all ids
  api : ∀ all ids, matchingIds rt index tenantId saved = some all →
    collectIdsForSavedSearch rt index tenantId saved apiCap = .ok ids → ReturnsAll all ids
  agree : ∀ ids ids', resolveSelectionIds rt index tenantId saved workerCap = .ok ids →
    collectIdsForSavedSearch rt index tenantId saved apiCap = .ok ids' →
      ∀ id, id ∈ ids ↔ id ∈ ids'

variable {rt index tenantId} {saved : Option QueryNode}

/-- What the API returns. -/
theorem returnsAll_collect {all ids : List JsString}
    (hall : matchingIds rt index tenantId saved = some all)
    (h : collectIdsForSavedSearch rt index tenantId saved cap = .ok ids) :
    ReturnsAll all ids := by
  rw [collectIdsForSavedSearch_eq hall] at h
  split_ifs at h
  cases h
  exact ⟨nodup_of_matchingIds hall, fun _ => Iff.rfl⟩

/-- The worker returns what it should unless more than the cap match and the cap is the end
of a page. -/
theorem returnsAll_resolve_iff {all : List JsString}
    (hall : matchingIds rt index tenantId saved = some all) :
    (∀ ids, resolveSelectionIds rt index tenantId saved cap = .ok ids → ReturnsAll all ids) ↔
      all.length ≤ cap ∨ ¬ 100 ∣ cap := by
  have hnodup := nodup_of_matchingIds hall
  rw [resolveSelectionIds_eq hall, List.length_take]
  refine ⟨?_, ?_⟩
  · intro h
    by_contra hcut
    rw [not_or, not_le, not_not] at hcut
    obtain ⟨hmore, hpages⟩ := hcut
    have hend : loopEnd cap = cap := by
      rw [loopEnd]
      omega
    rw [hend, if_neg (by omega)] at h
    obtain ⟨-, hsame⟩ := h _ rfl
    -- all of the ids would be among the first `cap` of them
    have hsub : all ⊆ all.take cap := by
      intro id hid
      exact mem_distinct.mp ((hsame id).mpr hid)
    have hcount := (hnodup.subperm hsub).length_le
    rw [List.length_take] at hcount
    omega
  · intro h ids hids
    split_ifs at hids with hover
    cases hids
    rw [List.take_of_length_le]
    · exact ⟨nodup_distinct all, fun id => mem_distinct⟩
    · rw [loopEnd] at hover ⊢
      omega

/-- **Exact resolution.** The two resolvers are exact unless the search matches more than the
worker's cap and the cap is a multiple of the page size. -/
theorem resolvesExactly_iff (rt : JsRuntime Num) (index : SearchIndex Num) (tenantId : JsString)
    (saved : Option QueryNode) (workerCap apiCap : ℕ) :
    ResolvesExactly rt index tenantId saved workerCap apiCap ↔
      ∀ all, matchingIds rt index tenantId saved = some all →
        all.length ≤ workerCap ∨ ¬ 100 ∣ workerCap := by
  refine ⟨?_, ?_⟩
  · intro h all hall
    exact (returnsAll_resolve_iff hall).mp fun ids hids => h.worker all ids hall hids
  · intro h
    refine ⟨?_, fun all ids hall hids => returnsAll_collect hall hids, ?_⟩
    · intro all ids hall hids
      exact (returnsAll_resolve_iff hall).mpr (h all hall) ids hids
    · intro ids ids' hids hids' id
      obtain ⟨all, hall⟩ := isSome_matchingIds hids'
      have hworker := (returnsAll_resolve_iff hall).mpr (h all hall) ids hids
      have hapi := returnsAll_collect hall hids'
      exact (hworker.2 id).trans (hapi.2 id).symm

end Exact

/-- `SAVED_SEARCH_RESULT_CAP`. -/
def savedSearchResultCap : ℕ := 1000000

/-- `SELECTION_ID_CAP`. -/
def selectionIdCap : ℕ := 1000000

theorem nodup_numbered {α : Type} {f : JsString → α} (hf : Function.Injective f) (n : ℕ) :
    ((List.range n).map fun i => f (decimal i)).Nodup :=
  List.nodup_range.map (hf.comp decimal_injective)

/-- Hits with numbers for ids. -/
def numberedHits (n : ℕ) : ResultSet ℤ where
  hits := (List.range n).map fun i => ⟨decimal i, [.text (decimal i)]⟩
  nodup_ids := List.map_map.symm ▸ nodup_numbered (fun _ _ h => h) n
  nodup_sorts := List.map_map.symm ▸
    nodup_numbered (fun _ _ h => FieldValue.text.inj (List.cons.inj h).1) n

theorem length_numberedHits (n : ℕ) : (numberedHits n).hits.length = n := by
  rw [numberedHits, List.length_map, List.length_range]

theorem matchingIds_numbered (n : ℕ) :
    matchingIds asciiRuntime (fun _ => numberedHits n) (js "t1") (some .matchAll) =
      some ((numberedHits n).hits.map SearchHit.id) := rfl

/-- With one hit more than its cap, the worker leaves that hit out. -/
theorem onePastCap_not_resolvesExactly :
    ¬ ResolvesExactly asciiRuntime (fun _ => numberedHits (savedSearchResultCap + 1)) (js "t1")
      (some .matchAll) savedSearchResultCap selectionIdCap := by
  intro h
  have hworker := (returnsAll_resolve_iff (matchingIds_numbered _)).mp fun ids hids =>
    h.worker _ ids (matchingIds_numbered _) hids
  rcases hworker with hfits | hpages
  · rw [List.length_map, length_numberedHits] at hfits
    exact Nat.not_succ_le_self _ hfits
  · exact hpages ⟨10000, rfl⟩

end AegCloudDfir.Search
