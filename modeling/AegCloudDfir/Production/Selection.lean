import AegCloudDfir.Production.Facts

/-!
# The selection of a production

`resolveSelectionIds` of `apps/api/src/productions/productions.service.ts` with
`expandFamilies` of `apps/api/src/common/families.ts`, and the part of `validate` that
evaluates the selection. Saved searches are resolved by the search engine; `searches` stands
for it. A saved search that does not exist ends the request before any of this.

The selection is expanded by what is directly related to it, after inversion and exclusion
(`mem_resolveSelectionIds`).
-/

namespace AegCloudDfir.Production

section Selection

variable {Id : Type} [LinearOrder Id]

/-- `expandFamilies` -/
def expandFamilies (tables : Tables Id) (ids : List Id) : List Id :=
  if ids.length = 0 then []
  else addAll (distinct ids)
    ((familyRelationships tables ids).flatMap fun rel => [rel.parentId, rel.childId])

/-- The identifiers that saved searches and tags select. -/
def baseIds (searches : Id → List Id) (tables : Tables Id) (selection : SelectionParameters Id) :
    List Id :=
  let searchIds := distinct (selection.savedSearchIds.flatMap searches)
  let tagged := tables.tagAssignments.filter fun row => row.tagId ∈ selection.tagIds
  addAll searchIds (tagged.map TagAssignment.evidenceItemId)

/-- The identifiers that earlier productions keep out. -/
def previouslyProduced (tables : Tables Id) (exclusion : Exclusion Id) (ids : List Id) : List Id :=
  let produced := rowsOf (fun id row => row.evidenceItemId = id) ids tables.productionItems
  match exclusion with
  | .none => []
  | .anyEarlier => produced.map ProductionItem.evidenceItemId
  | .selected productionIds =>
    (produced.filter fun row => row.productionId ∈ productionIds).map ProductionItem.evidenceItemId

/-- The selection before families are added. -/
def selectedIds (searches : Id → List Id) (tables : Tables Id)
    (selection : SelectionParameters Id) : List Id :=
  let base := baseIds searches tables selection
  let ids :=
    if selection.inverted then
      (sorted (tables.items.map EvidenceItem.id)).filter fun id => id ∉ base
    else base
  let excluded := previouslyProduced tables selection.excludePreviouslyProduced ids
  ids.filter fun id => id ∉ excluded

/-- `resolveSelectionIds` -/
def resolveSelectionIds (searches : Id → List Id) (tables : Tables Id)
    (parameters : ProductionParameters Id) : List Id :=
  let ids := selectedIds searches tables parameters.selection
  sorted (if parameters.selection.includeFamilies && ids.length > 0 then expandFamilies tables ids
    else ids)

/-- The parameters of the validator in the parameters of a production. -/
def ProductionParameters.validationParams (parameters : ProductionParameters Id) :
    ProductionValidationParams :=
  ⟨parameters.selection.includeFamilies, parameters.redactionStage, parameters.output⟩

/-- The sheets of the selection. -/
def selectionSheets (toLowerCase : JsString → JsString) (searches : Id → List Id)
    (tables : Tables Id) (parameters : ProductionParameters Id) :
    List (ProductionValidationItem Id) :=
  loadValidationItems toLowerCase tables (resolveSelectionIds searches tables parameters) parameters

/-- `validate` evaluates the selection to the flags. -/
def Evaluates (toLowerCase : JsString → JsString) (searches : Id → List Id) (tables : Tables Id)
    (parameters : ProductionParameters Id) (flags : List (ValidationFlag Id)) : Prop :=
  Returns (selectionSheets toLowerCase searches tables parameters) parameters.validationParams flags

/-- **The selection** with families: what is selected and what is directly related to it. -/
theorem mem_resolveSelectionIds {searches : Id → List Id} {tables : Tables Id}
    {parameters : ProductionParameters Id} (h : parameters.selection.includeFamilies) {id : Id} :
    id ∈ resolveSelectionIds searches tables parameters ↔
      id ∈ selectedIds searches tables parameters.selection ∨
      ∃ rel ∈ familyRelationships tables (selectedIds searches tables parameters.selection),
        rel.parentId = id ∨ rel.childId = id := by
  rw [resolveSelectionIds, mem_sorted, h]
  by_cases hnil : selectedIds searches tables parameters.selection = []
  · simp [hnil, familyRelationships, mem_rowsOf]
  · have hpos : (selectedIds searches tables parameters.selection).length ≠ 0 := by simpa using hnil
    have hcond : (true && decide ((selectedIds searches tables parameters.selection).length > 0)) =
        true := by simpa [Nat.pos_iff_ne_zero] using hnil
    rw [if_pos hcond, expandFamilies, if_neg hpos]
    simp [eq_comm]

end Selection

end AegCloudDfir.Production
