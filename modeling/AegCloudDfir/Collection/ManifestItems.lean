import AegCloudDfir.Js.Text
import AegCloudDfir.Lib.Pages

/-!
# Reading the items of a manifest

`apps/worker/src/processors/manifest-items.ts`: the rows of a collection are read a page at a time
behind a cursor, which is the id of the last row that was read, until a page is short, or the rows
that were read are more than the cap.

* `loadManifestItems` — the loop, over any reader of pages.
* `readPage` — the reader of a table: the rows behind the cursor in the order of their ids.
* `loads_iff` — over the reader of a table the loop comes to an end, with the items of the rows that
  have a digest, or beyond the cap.
-/

namespace AegCloudDfir.Collection.ManifestItems

open Pages

variable {Id : Type} [LinearOrder Id]

/-- `ManifestItemRow` -/
structure ManifestItemRow (Id : Type) where
  id : Id
  providerItemId : JsString
  custodianId : Option JsString
  sha256 : JsString
  size : ℕ
  /-- as `toISOString` writes it -/
  acquiredAt : JsString
  isApiExportDerivative : Bool
  /-- `blob?.objectKey` -/
  objectKey : Option JsString
  deriving DecidableEq

/-- `ManifestItem`. An optional property is `none` if it is left out. -/
structure ManifestItem (Id : Type) where
  evidenceItemId : Id
  providerItemId : JsString
  custodianId : JsString
  sha256 : JsString
  size : ℕ
  objectKey : JsString
  acquiredAt : JsString
  apiExportDerivative : Option Bool
  deriving DecidableEq

/-- `n.toLocaleString('en-US')` -/
def toLocaleString (n : ℕ) : JsString :=
  if n < 1000 then decimal n
  else toLocaleString (n / 1000) ++ js "," ++ paddedDecimal 3 (n % 1000)

/-- `ManifestTooLargeError` -/
structure ManifestTooLargeError where
  cap : ℕ
  deriving DecidableEq

/-- The message of the error. -/
def ManifestTooLargeError.message (error : ManifestTooLargeError) : JsString :=
  js "manifest walk read more than " ++ toLocaleString error.cap ++
    js " rows without finishing. " ++
    js "Either the collection is larger than this build supports, or the paging cursor " ++
    js "stopped advancing. No manifest was written."

/-- `MANIFEST_PAGE_SIZE` -/
def MANIFEST_PAGE_SIZE : ℕ := 2000

/-- `MANIFEST_ROW_CAP` -/
def MANIFEST_ROW_CAP : ℕ := 5000000

/-- `toManifestItem` -/
def toManifestItem (row : ManifestItemRow Id) : ManifestItem Id where
  evidenceItemId := row.id
  providerItemId := row.providerItemId
  custodianId := row.custodianId.getD []
  sha256 := row.sha256
  size := row.size
  objectKey := row.objectKey.getD []
  acquiredAt := row.acquiredAt
  apiExportDerivative := if row.isApiExportDerivative then some true else none

/-- `ReadManifestPage` -/
abbrev ReadManifestPage (Id : Type) : Type := Option Id → ℕ → List (ManifestItemRow Id)

/-- What is pushed of the rows of a page. -/
def itemsOf (rows : List (ManifestItemRow Id)) : List (ManifestItem Id) :=
  (rows.filter fun row => row.sha256 ≠ []).map toManifestItem

/-- `loadManifestItems`, for so many rounds of its loop. -/
def loadManifestItems (readPage : ReadManifestPage Id) (pageSize rowCap : ℕ) :
    ℕ → Option Id → ℕ → List (ManifestItem Id) →
      Option (Except ManifestTooLargeError (List (ManifestItem Id)))
  | 0, _, _, _ => none
  | rounds + 1, cursor, rowsRead, items =>
    let page := readPage cursor pageSize
    if page.length = 0 then some (.ok items)
    else if rowCap < rowsRead + page.length then some (.error ⟨rowCap⟩)
    else if page.length < pageSize then some (.ok (items ++ itemsOf page))
    else match page.getLast? with
      | none => some (.ok (items ++ itemsOf page))
      | some last => loadManifestItems readPage pageSize rowCap rounds (some last.id)
          (rowsRead + page.length) (items ++ itemsOf page)

/-- The call comes to an end with a result. -/
def Loads (readPage : ReadManifestPage Id) (pageSize rowCap : ℕ)
    (result : Except ManifestTooLargeError (List (ManifestItem Id))) : Prop :=
  ∃ rounds, loadManifestItems readPage pageSize rowCap rounds none 0 [] = some result

/-- The rows of a table in the order of their ids. -/
def inOrder (table : List (ManifestItemRow Id)) : List (ManifestItemRow Id) :=
  table.mergeSort fun a b => a.id ≤ b.id

/-- The reader of a table: at most `take` rows behind the cursor, in the order of their ids. -/
def readPage (table : List (ManifestItemRow Id)) : ReadManifestPage Id := fun cursor take =>
  ((inOrder table).filter fun row => ∀ id ∈ cursor, id < row.id).take take

/-! ## The reader -/

variable {table rows : List (ManifestItemRow Id)}

theorem inOrder_perm (table : List (ManifestItemRow Id)) : (inOrder table).Perm table :=
  List.mergeSort_perm _ _

theorem inOrder_sorted (hids : (table.map ManifestItemRow.id).Nodup) :
    (inOrder table).Pairwise fun a b => a.id < b.id := by
  have hle : (inOrder table).Pairwise fun a b => decide (a.id ≤ b.id) = true :=
    List.pairwise_mergeSort (fun a b c hab hbc => by
      simp only [decide_eq_true_eq] at hab hbc ⊢
      exact hab.trans hbc) (fun a b => by
      simp only [Bool.or_eq_true, decide_eq_true_eq]
      exact le_total _ _) table
  have hne : (inOrder table).Pairwise fun a b => a.id ≠ b.id :=
    List.pairwise_map.mp (((inOrder_perm table).map _).nodup_iff.mpr hids)
  exact (hle.and hne).imp fun h => lt_of_le_of_ne (of_decide_eq_true h.1) h.2

/-- The cursor is the id of a row that was read. -/
def Read (rows : List (ManifestItemRow Id)) (cursor : Option Id) : Prop :=
  ∀ id ∈ cursor, ∃ row ∈ rows, row.id = id

/-- The rows with a greater id are those behind the row with the id. -/
theorem filter_eq_after (hrows : rows.Pairwise fun a b => a.id < b.id) {cursor : Option Id}
    (hread : Read rows cursor) :
    (rows.filter fun row => ∀ id ∈ cursor, id < row.id) =
      after ManifestItemRow.id rows cursor := by
  cases cursor with
  | none => simp [after]
  | some k =>
    obtain ⟨row, hrow, rfl⟩ := hread k rfl
    simp only [Option.mem_some_iff, forall_eq', after]
    induction rows with
    | nil => cases hrow
    | cons first rows ih =>
      obtain ⟨hfirst, hrows⟩ := List.pairwise_cons.mp hrows
      rcases List.mem_cons.mp hrow with rfl | hrow
      · -- all that follow are greater
        have hall : ∀ r ∈ rows, decide (row.id < r.id) = true := fun r hr =>
          decide_eq_true (hfirst r hr)
        rw [List.filter_cons, if_neg (by simp), List.filter_eq_self.mpr hall,
          List.dropWhile_cons_of_neg (by simp)]
        rfl
      · have hless := hfirst row hrow
        rw [List.filter_cons, if_neg (by simpa using hless.le),
          List.dropWhile_cons_of_pos (by simpa using hless.ne)]
        exact ih hrows hrow fun id hid => ⟨row, hrow, Option.mem_some_iff.mp hid⟩

/-! ## The loop -/

section Loop

variable {pageSize rowCap n : ℕ} {cursor : Option Id} {readPage : ReadManifestPage Id}
  {result result' : Except ManifestTooLargeError (List (ManifestItem Id))}

omit [LinearOrder Id] in
theorem itemsOf_append (rows rows' : List (ManifestItemRow Id)) :
    itemsOf (rows ++ rows') = itemsOf rows ++ itemsOf rows' := by
  rw [itemsOf, List.filter_append, List.map_append]
  rfl

omit [LinearOrder Id] in
/-- More rounds change no result. -/
theorem load_mono {rounds more : ℕ} {rowsRead : ℕ} {items : List (ManifestItem Id)}
    (h : loadManifestItems readPage pageSize rowCap rounds cursor rowsRead items = some result)
    (hmore : rounds ≤ more) :
    loadManifestItems readPage pageSize rowCap more cursor rowsRead items = some result := by
  induction rounds generalizing more cursor rowsRead items with
  | zero => cases h
  | succ rounds ih =>
    obtain ⟨more, rfl⟩ : ∃ k, more = k + 1 := ⟨more - 1, by omega⟩
    rw [loadManifestItems] at h ⊢
    split_ifs at h ⊢ with hempty hcap hshort
    · exact h
    · exact h
    · exact h
    · split at h
      · exact h
      · exact ih h (by omega)

omit [LinearOrder Id] in
/-- The call has one result. -/
theorem Loads.unique (h : Loads readPage pageSize rowCap result)
    (h' : Loads readPage pageSize rowCap result') : result = result' := by
  obtain ⟨rounds, h⟩ := h
  obtain ⟨rounds', h'⟩ := h'
  have hmore := load_mono h (le_max_left rounds rounds')
  rw [load_mono h' (le_max_right rounds rounds')] at hmore
  exact (Option.some.inj hmore).symm

/-- What the call comes to: the items of the rows, or the error beyond the cap. -/
def outcome (rowCap : ℕ) (rows : List (ManifestItemRow Id)) :
    Except ManifestTooLargeError (List (ManifestItem Id)) :=
  if rows.length ≤ rowCap then .ok (itemsOf rows) else .error ⟨rowCap⟩

/-- **From behind the first `n` rows the loop comes to the end of the rows**, or beyond the cap. -/
theorem load_spec (hrows : rows.Pairwise fun a b => a.id < b.id) (hsize : 1 ≤ pageSize)
    (hreader : ∀ cursor take, Read rows cursor → readPage cursor take =
      (page ManifestItemRow.id rows take cursor).1)
    (hbehind : Behind ManifestItemRow.id rows n cursor) (hread : Read rows cursor)
    (hcap : n ≤ rowCap) :
    ∃ rounds, loadManifestItems readPage pageSize rowCap rounds cursor n (itemsOf (rows.take n)) =
      some (outcome rowCap rows) := by
  induction hk : rows.length - n using Nat.strong_induction_on generalizing n cursor with
  | _ k ih =>
    have hle := hbehind.le
    have hpage := hreader cursor pageSize hread
    have hlength : n + (readPage cursor pageSize).length = min rows.length (n + pageSize) := by
      rw [hpage]
      exact hbehind.length_items
    have hempty : readPage cursor pageSize = [] ↔ n = rows.length := by
      rw [hpage]
      exact hbehind.items_eq_nil hsize
    have hitems : rows.take n ++ readPage cursor pageSize =
        rows.take (min rows.length (n + pageSize)) := by
      rw [hpage]
      exact hbehind.take_append
    by_cases hend : n = rows.length
    · -- the page is empty
      refine ⟨1, ?_⟩
      have hnil := hempty.mpr hend
      have hcapped : rows.length ≤ rowCap := hend ▸ hcap
      rw [loadManifestItems, hnil, hend, List.take_length, outcome, if_pos hcapped]
      rfl
    · have hnot : ¬ (readPage cursor pageSize).length = 0 := fun h =>
        hend (hempty.mp (List.length_eq_zero_iff.mp h))
      by_cases hover : rowCap < n + (readPage cursor pageSize).length
      · refine ⟨1, ?_⟩
        have hcapped : ¬ rows.length ≤ rowCap := by omega
        rw [loadManifestItems, if_neg hnot, if_pos hover, outcome, if_neg hcapped]
      · have hpushed : itemsOf (rows.take n) ++ itemsOf (readPage cursor pageSize) =
            itemsOf (rows.take (min rows.length (n + pageSize))) := by
          rw [← itemsOf_append, hitems]
        by_cases hshort : (readPage cursor pageSize).length < pageSize
        · -- a short page is the last one
          refine ⟨1, ?_⟩
          have hmin : min rows.length (n + pageSize) = rows.length := by omega
          have hcapped : rows.length ≤ rowCap := by omega
          rw [loadManifestItems, if_neg hnot, if_neg hover, if_pos hshort, hpushed, hmin,
            List.take_length, outcome, if_pos hcapped]
        · obtain ⟨id, hcursor, hnext⟩ :=
            hbehind.next (List.pairwise_map.mpr (hrows.imp fun h => h.ne)) hsize (by omega)
          have hmap : (readPage cursor pageSize).getLast?.map ManifestItemRow.id = some id := by
            rw [hpage]
            exact hcursor
          obtain ⟨last, hlast, rfl⟩ := Option.map_eq_some_iff.mp hmap
          have hmem : last ∈ rows := by
            have htake : last ∈ rows.take n ++ readPage cursor pageSize :=
              List.mem_append_right _ (List.mem_of_getLast? hlast)
            rw [hitems] at htake
            exact List.mem_of_mem_take htake
          rw [← hlength] at hnext
          obtain ⟨rounds, hrounds⟩ := ih (rows.length - (n + (readPage cursor pageSize).length))
            (by omega) hnext (fun _ hid => ⟨last, hmem, Option.mem_some_iff.mp hid⟩)
            (not_lt.mp hover) rfl
          refine ⟨rounds + 1, ?_⟩
          rw [loadManifestItems, if_neg hnot, if_neg hover, if_neg hshort, hlast, hpushed, ← hlength]
          exact hrounds

end Loop

/-! ## The manifest of a table -/

variable {pageSize rowCap : ℕ}
  {result : Except ManifestTooLargeError (List (ManifestItem Id))}

theorem loads_outcome (hids : (table.map ManifestItemRow.id).Nodup) (hsize : 1 ≤ pageSize) :
    Loads (readPage table) pageSize rowCap (outcome rowCap (inOrder table)) :=
  load_spec (inOrder_sorted hids) hsize
    (fun cursor take hread => by rw [readPage, filter_eq_after (inOrder_sorted hids) hread]; rfl)
    behind_none (fun _ h => nomatch h) (Nat.zero_le _)

/-- **Paging is exact.** If the table has no more rows than the cap the call returns the items of
the rows with a digest, each once and in the order of the ids; otherwise it throws. -/
theorem loads_iff (hids : (table.map ManifestItemRow.id).Nodup) (hsize : 1 ≤ pageSize) :
    Loads (readPage table) pageSize rowCap result ↔
      if table.length ≤ rowCap then
        ∃ rows : List (ManifestItemRow Id), result = .ok (rows.map toManifestItem) ∧
          rows.Perm (table.filter fun row => row.sha256 ≠ []) ∧
          rows.Pairwise fun a b => a.id < b.id
      else result = .error ⟨rowCap⟩ := by
  have hloads : Loads (readPage table) pageSize rowCap (outcome rowCap (inOrder table)) :=
    loads_outcome hids hsize
  have hresult : Loads (readPage table) pageSize rowCap result ↔
      result = outcome rowCap (inOrder table) :=
    ⟨fun h => h.unique hloads, fun h => h ▸ hloads⟩
  rw [hresult, outcome, (inOrder_perm table).length_eq]
  split_ifs with hcap
  swap
  · rfl
  have hsorted : ((inOrder table).filter fun row => row.sha256 ≠ []).Pairwise
      fun a b => a.id < b.id := (inOrder_sorted hids).filter _
  have hperm := (inOrder_perm table).filter fun row => decide (row.sha256 ≠ [])
  refine ⟨fun h => ⟨_, h, hperm, hsorted⟩, ?_⟩
  rintro ⟨rows, rfl, hrows, horder⟩
  -- there is one order of these rows by their ids
  have heq : rows = (inOrder table).filter fun row => row.sha256 ≠ [] :=
    (hrows.trans hperm.symm).eq_of_pairwise
      (fun a b _ _ hab hba => absurd (hab.trans hba) (lt_irrefl _)) horder hsorted
  rw [heq]
  rfl

/-- A row of a message. -/
def exampleRow (id : ℕ) (sha256 : JsString) : ManifestItemRow ℕ where
  id
  providerItemId := js "m"
  custodianId := none
  sha256
  size := 1
  acquiredAt := js "2024-01-01T00:00:00.000Z"
  isApiExportDerivative := false
  objectKey := none

/-- Three rows in pages of two, one of them without a digest. -/
theorem loads_three_rows :
    Loads (readPage [exampleRow 3 (js "c"), exampleRow 1 (js "a"), exampleRow 2 []]) 2 3
      (.ok [toManifestItem (exampleRow 1 (js "a")), toManifestItem (exampleRow 3 (js "c"))]) := by
  have hids : ([exampleRow 3 (js "c"), exampleRow 1 (js "a"), exampleRow 2 []].map
      ManifestItemRow.id).Nodup := by decide
  refine (loads_iff hids (by decide)).mpr ?_
  rw [if_pos (by decide)]
  exact ⟨[exampleRow 1 (js "a"), exampleRow 3 (js "c")], rfl, by decide, by decide⟩

end AegCloudDfir.Collection.ManifestItems
