import AegCloudDfir.Production.Selection

/-!
# Natives that leak redacted content

A native shows everything, so the native of an item must not go out if the item, something
above it or something below it has final redactions. Validation is to flag such items
(`LeaksFlagged`). What it sees of the relationships is less than there is: only redactions
of selected items are loaded, only one parent is recorded for an item, and the ways up and
down go through selected items only (`Recorded`). So it flags all such items exactly if its
descents end and it can trace every one of them to something redacted that is selected
(`leaksFlagged_iff`).
-/

namespace AegCloudDfir.Production

open Walk Relation

section Leaks

variable {Id : Type} [LinearOrder Id]

/-- `b` stands as a child of `a` in a relationship of one of the kinds. -/
def Link (kinds : List RelationshipKind) (tables : Tables Id) (a b : Id) : Prop :=
  ∃ rel ∈ tables.relationships, rel.kind ∈ kinds ∧ rel.parentId = a ∧ rel.childId = b

/-- `b` is `a`, or lies above or below it. -/
def Kin (kinds : List RelationshipKind) (tables : Tables Id) (a b : Id) : Prop :=
  b = a ∨ TransGen (Link kinds tables) b a ∨ TransGen (Link kinds tables) a b

/-- The item has a final redaction. -/
def FinallyRedacted (tables : Tables Id) (id : Id) : Prop :=
  ∃ row ∈ tables.redactions, row.evidenceItemId = id ∧ row.stage = .final

/-- `a` is the recorded parent of `b`, and both are selected. -/
def Recorded (tables : Tables Id) (ids : List Id) (a b : Id) : Prop :=
  a ∈ ids ∧ b ∈ ids ∧ (parentOf tables ids).get? b = some a

/-- `b` is `a`, or lies above or below it as far as that is recorded. -/
def Traced (tables : Tables Id) (ids : List Id) (a b : Id) : Prop :=
  b = a ∨ TransGen (Recorded tables ids) b a ∨ TransGen (Recorded tables ids) a b

variable (toLowerCase : JsString → JsString) (searches : Id → List Id) (tables : Tables Id)
  (parameters : ProductionParameters Id)

/-- A selected item whose native is to be produced. -/
def ProducesNative (item : EvidenceItem Id) : Prop :=
  item ∈ tables.items ∧ item.id ∈ resolveSelectionIds searches tables parameters ∧
    wouldProduceNative toLowerCase tables (resolveSelectionIds searches tables parameters)
      parameters item

/-- One of the two flags about leaks names the item. -/
def LeakFlagged (flags : List (ValidationFlag Id)) (id : Id) : Prop :=
  ∃ flag ∈ flags, (flag.code = .redactedNativeLeak ∨ flag.code = .redactedAncestorNativeLeak) ∧
    id ∈ flag.evidenceItemIds

/-- Validation returns, and flags every native of an item that is kin to something finally
redacted, kin by relationships of the given kinds. -/
def LeaksFlagged (kinds : List RelationshipKind) : Prop :=
  ∃ flags, Evaluates toLowerCase searches tables parameters flags ∧
    ∀ item, ProducesNative toLowerCase searches tables parameters item →
      (∃ id, Kin kinds tables item.id id ∧ FinallyRedacted tables id) →
        LeakFlagged flags item.id

/-- The descents of the validation end, and every native of an item that is kin to
something finally redacted can be traced to something selected and finally redacted. -/
def LeaksTraced (kinds : List RelationshipKind) : Prop :=
  (∀ sheet ∈ selectionSheets toLowerCase searches tables parameters,
    DescentsEnd (selectionSheets toLowerCase searches tables parameters) sheet) ∧
  ∀ item, ProducesNative toLowerCase searches tables parameters item →
    (∃ id, Kin kinds tables item.id id ∧ FinallyRedacted tables id) →
      ∃ id, Traced tables (resolveSelectionIds searches tables parameters) item.id id ∧
        FinallyRedacted tables id

end Leaks

/-! ## Sheets and identifiers -/

section Sheets

variable {Id : Type} [LinearOrder Id] {toLowerCase : JsString → JsString} {tables : Tables Id}
  {ids : List Id} {parameters : ProductionParameters Id}

/-- What is recorded as a child stands among the items. -/
theorem Recorded.items {a b : Id} (h : Recorded tables ids a b) :
    a ∈ tables.items.map EvidenceItem.id ∧ b ∈ tables.items.map EvidenceItem.id := by
  obtain ⟨-, -, hparent⟩ := h
  obtain ⟨rel, hrel, rfl, rfl⟩ := parentOf_eq_some hparent
  exact tables.foreignKeys rel (mem_familyRelationships.mp hrel).1

variable (toLowerCase parameters) in
theorem exists_sheet {id : Id} (hid : id ∈ ids) (hrow : id ∈ tables.items.map EvidenceItem.id) :
    ∃ sheet ∈ loadValidationItems toLowerCase tables ids parameters, sheet.evidenceId = id := by
  obtain ⟨item, hitem, rfl⟩ := List.mem_map.mp hrow
  exact ⟨_, (mem_loadValidationItems toLowerCase).mpr ⟨item, hitem, hid, rfl⟩, rfl⟩

/-- Sheets of one identifier are one sheet. -/
theorem sheet_eq {x y : ProductionValidationItem Id}
    (hx : x ∈ loadValidationItems toLowerCase tables ids parameters)
    (hy : y ∈ loadValidationItems toLowerCase tables ids parameters)
    (h : x.evidenceId = y.evidenceId) : x = y := by
  obtain ⟨i, hi, -, rfl⟩ := (mem_loadValidationItems toLowerCase).mp hx
  obtain ⟨j, hj, -, rfl⟩ := (mem_loadValidationItems toLowerCase).mp hy
  rw [tables.eq_of_id_eq hi hj h]

theorem sheet_parentId {x : ProductionValidationItem Id}
    (hx : x ∈ loadValidationItems toLowerCase tables ids parameters) :
    x.evidenceId ∈ ids ∧ x.parentId = (parentOf tables ids).get? x.evidenceId := by
  obtain ⟨i, -, hid, rfl⟩ := (mem_loadValidationItems toLowerCase).mp hx
  exact ⟨hid, rfl⟩

theorem byId_sheet {id : Id} {x : ProductionValidationItem Id} :
    (byId (loadValidationItems toLowerCase tables ids parameters)).get? id = some x ↔
      x ∈ loadValidationItems toLowerCase tables ids parameters ∧ x.evidenceId = id := by
  refine ⟨mem_of_byId, ?_⟩
  rintro ⟨hx, rfl⟩
  obtain ⟨y, hy⟩ := Option.isSome_iff_exists.mp (isSome_byId.mpr ⟨x, hx, rfl⟩)
  obtain ⟨hmem, hid⟩ := mem_of_byId hy
  rw [hy, sheet_eq hmem hx hid]

/-- A child of a sheet is a recorded child. -/
theorem child_sheet {x y : ProductionValidationItem Id}
    (hx : x ∈ loadValidationItems toLowerCase tables ids parameters)
    (h : Child (loadValidationItems toLowerCase tables ids parameters) x y) :
    Recorded tables ids x.evidenceId y.evidenceId := by
  obtain ⟨hy, hparent⟩ := h
  obtain ⟨hid, hrecorded⟩ := sheet_parentId hy
  exact ⟨(sheet_parentId hx).1, hid, hrecorded ▸ hparent⟩

/-- What lies below a sheet is a sheet. -/
theorem Descends.mem {x c : ProductionValidationItem Id}
    (h : Descends (loadValidationItems toLowerCase tables ids parameters) x c) :
    c ∈ loadValidationItems toLowerCase tables ids parameters := by
  cases h with
  | single hchild => exact hchild.1
  | tail _ hchild => exact hchild.1

/-- A recorded child has a sheet, which is a child of the sheet. -/
theorem exists_child {x : ProductionValidationItem Id} {b : Id}
    (h : Recorded tables ids x.evidenceId b) :
    ∃ y, Child (loadValidationItems toLowerCase tables ids parameters) x y ∧ y.evidenceId = b := by
  obtain ⟨y, hy, rfl⟩ := exists_sheet toLowerCase parameters h.2.1 h.items.2
  refine ⟨y, ⟨hy, ?_⟩, rfl⟩
  rw [(sheet_parentId hy).2]
  exact h.2.2

/-- **What lies below a sheet is what is recorded below it.** -/
theorem descends_iff {x : ProductionValidationItem Id}
    (hx : x ∈ loadValidationItems toLowerCase tables ids parameters) {b : Id} :
    (∃ c, Descends (loadValidationItems toLowerCase tables ids parameters) x c ∧
        c.evidenceId = b) ↔ TransGen (Recorded tables ids) x.evidenceId b := by
  refine ⟨?_, ?_⟩
  · rintro ⟨c, hc, rfl⟩
    have hboth : TransGen (Recorded tables ids) x.evidenceId c.evidenceId ∧
        c ∈ loadValidationItems toLowerCase tables ids parameters := by
      induction hc with
      | single hchild => exact ⟨.single (child_sheet hx hchild), hchild.1⟩
      | tail _ hchild ih => exact ⟨ih.1.tail (child_sheet ih.2 hchild), hchild.1⟩
    exact hboth.1
  · intro h
    induction h with
    | single hstep =>
      obtain ⟨y, hchild, rfl⟩ := exists_child hstep
      exact ⟨y, .single hchild, rfl⟩
    | tail _ hstep ih =>
      obtain ⟨c, hc, rfl⟩ := ih
      obtain ⟨y, hchild, rfl⟩ := exists_child hstep
      exact ⟨y, hc.tail hchild, rfl⟩

theorem recorded_of_above {seen : List Id} {k : Id} {a x : ProductionValidationItem Id}
    (h : Above (byId (loadValidationItems toLowerCase tables ids parameters)).get?
      ProductionValidationItem.parentId seen k a)
    (hx : x ∈ loadValidationItems toLowerCase tables ids parameters) (hparent : x.parentId = some k) :
    a ∈ loadValidationItems toLowerCase tables ids parameters ∧
      TransGen (Recorded tables ids) a.evidenceId x.evidenceId := by
  induction h generalizing x with
  | here _ hfind =>
    obtain ⟨ha, rfl⟩ := byId_sheet.mp hfind
    exact ⟨ha, .single (child_sheet ha ⟨hx, hparent⟩)⟩
  | up _ hfind hnext _ ih =>
    obtain ⟨hb, rfl⟩ := byId_sheet.mp hfind
    obtain ⟨ha, habove⟩ := ih hb hnext
    exact ⟨ha, habove.tail (child_sheet hb ⟨hx, hparent⟩)⟩

theorem above_of_recorded {a : ProductionValidationItem Id}
    (ha : a ∈ loadValidationItems toLowerCase tables ids parameters) {b : Id}
    (h : TransGen (Recorded tables ids) a.evidenceId b) :
    ∃ x ∈ loadValidationItems toLowerCase tables ids parameters, x.evidenceId = b ∧
      ∃ k, x.parentId = some k ∧
        Above (byId (loadValidationItems toLowerCase tables ids parameters)).get?
          ProductionValidationItem.parentId [] k a := by
  induction h with
  | single hstep =>
    obtain ⟨x, ⟨hx, hparent⟩, rfl⟩ := exists_child hstep
    exact ⟨x, hx, rfl, _, hparent, .here List.not_mem_nil (byId_sheet.mpr ⟨ha, rfl⟩)⟩
  | tail _ hstep ih =>
    obtain ⟨y, hy, rfl, k, hk, habove⟩ := ih
    obtain ⟨x, ⟨hx, hparent⟩, rfl⟩ := exists_child hstep
    exact ⟨x, hx, rfl, _, hparent, .up List.not_mem_nil (byId_sheet.mpr ⟨hy, rfl⟩) hk habove⟩

/-- **What the way up from a sheet finds** is what is recorded above it, the sheet itself
apart. -/
theorem ascends_iff {x a : ProductionValidationItem Id}
    (hx : x ∈ loadValidationItems toLowerCase tables ids parameters)
    (ha : a ∈ loadValidationItems toLowerCase tables ids parameters) :
    (a = x ∨ Ascends (loadValidationItems toLowerCase tables ids parameters) x a) ↔
      a = x ∨ TransGen (Recorded tables ids) a.evidenceId x.evidenceId := by
  refine ⟨?_, ?_⟩
  · rintro (rfl | ⟨k, hk, habove⟩)
    · exact .inl rfl
    · exact .inr (recorded_of_above habove hx hk).2
  · rintro (rfl | h)
    · exact .inl rfl
    · obtain ⟨y, hy, hid, k, hk, habove⟩ := above_of_recorded ha h
      obtain rfl := sheet_eq hy hx hid
      -- a way that comes back to the sheet goes on as it started
      rcases habove.avoid (byId_sheet.mpr ⟨hx, rfl⟩) hk with rfl | h | h
      · exact .inl rfl
      · exact .inr ⟨k, hk, h⟩
      · exact .inr ⟨k, hk, h⟩

/-- **Which natives are flagged**: those of items that can be traced to something selected
and finally redacted. -/
theorem leakFlagged_iff {params : ProductionValidationParams} {flags : List (ValidationFlag Id)}
    (h : Returns (loadValidationItems toLowerCase tables ids parameters) params flags)
    {item : EvidenceItem Id} (hitem : item ∈ tables.items) (hid : item.id ∈ ids) :
    LeakFlagged flags item.id ↔
      wouldProduceNative toLowerCase tables ids parameters item ∧
        ∃ id, Traced tables ids item.id id ∧ FinallyRedacted tables id := by
  have hx : sheetOf toLowerCase tables ids parameters item ∈
      loadValidationItems toLowerCase tables ids parameters :=
    (mem_loadValidationItems toLowerCase).mpr ⟨item, hitem, hid, rfl⟩
  have hredacted : ∀ y ∈ loadValidationItems toLowerCase tables ids parameters,
      (y.hasFinalRedactions ↔ FinallyRedacted tables y.evidenceId) := by
    intro y hy
    obtain ⟨i, -, hi, rfl⟩ := (mem_loadValidationItems toLowerCase).mp hy
    exact hasFinalRedactions_sheet toLowerCase hi
  have hnoted : ∀ code, code ≠ .familySplit →
      (Noted (loadValidationItems toLowerCase tables ids parameters) params (code, item.id) ↔
        Applies (loadValidationItems toLowerCase tables ids parameters) params
          (sheetOf toLowerCase tables ids parameters item) code) := by
    intro code hcode
    refine ⟨?_, ?_⟩
    · rintro ⟨y, hy, hyid, happ | ⟨hsplit, -⟩⟩
      · exact sheet_eq hy hx hyid ▸ happ
      · exact absurd hsplit hcode
    · intro happ
      exact ⟨_, hx, rfl, .inl happ⟩
  have hflag : LeakFlagged flags item.id ↔
      Applies (loadValidationItems toLowerCase tables ids parameters) params
          (sheetOf toLowerCase tables ids parameters item) .redactedNativeLeak ∨
        Applies (loadValidationItems toLowerCase tables ids parameters) params
          (sheetOf toLowerCase tables ids parameters item) .redactedAncestorNativeLeak := by
    rw [← hnoted _ (by simp), ← hnoted _ (by simp), ← h.flag_iff, ← h.flag_iff]
    refine ⟨?_, ?_⟩
    · rintro ⟨flag, hflag, hcode | hcode, hmem⟩
      · exact .inl ⟨flag, hflag, hcode, hmem⟩
      · exact .inr ⟨flag, hflag, hcode, hmem⟩
    · rintro (⟨flag, hflag, hcode, hmem⟩ | ⟨flag, hflag, hcode, hmem⟩)
      · exact ⟨flag, hflag, .inl hcode, hmem⟩
      · exact ⟨flag, hflag, .inr hcode, hmem⟩
  rw [hflag]
  refine ⟨?_, ?_⟩
  · rintro (⟨hnative, hself | ⟨c, hc, hfinal⟩⟩ | ⟨hnative, a, ⟨k, hk, habove⟩, hfinal⟩)
    · exact ⟨hnative, item.id, .inl rfl, (hredacted _ hx).mp hself⟩
    · exact ⟨hnative, c.evidenceId, .inr (.inr ((descends_iff hx).mp ⟨c, hc, rfl⟩)),
        (hredacted c hc.mem).mp hfinal⟩
    · obtain ⟨ha, hrecorded⟩ := recorded_of_above habove hx hk
      exact ⟨hnative, a.evidenceId, .inr (.inl hrecorded), (hredacted a ha).mp hfinal⟩
  · rintro ⟨hnative, id, rfl | habove | hbelow, hfinal⟩
    · exact .inl ⟨hnative, .inl ((hredacted _ hx).mpr hfinal)⟩
    · -- something above: its sheet is found, unless it is the item itself
      obtain ⟨_, hstep, -⟩ := TransGen.head'_iff.mp habove
      obtain ⟨a, ha, rfl⟩ := exists_sheet toLowerCase parameters hstep.1 hstep.items.1
      rcases (ascends_iff hx ha).mpr (.inr habove) with rfl | hascends
      · exact .inl ⟨hnative, .inl ((hredacted _ ha).mpr hfinal)⟩
      · exact .inr ⟨hnative, a, hascends, (hredacted a ha).mpr hfinal⟩
    · obtain ⟨c, hc, rfl⟩ := (descends_iff hx).mpr hbelow
      exact .inl ⟨hnative, .inr ⟨c, hc, (hredacted c hc.mem).mpr hfinal⟩⟩

end Sheets

section Leaks

variable {Id : Type} [LinearOrder Id] (toLowerCase : JsString → JsString) (searches : Id → List Id)
  (tables : Tables Id) (parameters : ProductionParameters Id)

/-- **Every native that leaks is flagged** exactly if validation can trace it to what it
leaks. -/
theorem leaksFlagged_iff (kinds : List RelationshipKind) :
    LeaksFlagged toLowerCase searches tables parameters kinds ↔
      LeaksTraced toLowerCase searches tables parameters kinds := by
  refine ⟨?_, ?_⟩
  · rintro ⟨flags, hflags, hall⟩
    refine ⟨returns_iff.mp ⟨flags, hflags⟩, fun item hitem hkin => ?_⟩
    exact ((leakFlagged_iff hflags hitem.1 hitem.2.1).mp (hall item hitem hkin)).2
  · rintro ⟨hends, htraced⟩
    obtain ⟨flags, hflags⟩ := returns_iff.mpr hends
    refine ⟨flags, hflags, fun item hitem hkin => ?_⟩
    exact (leakFlagged_iff hflags hitem.1 hitem.2.1).mpr ⟨hitem.2.2, htraced item hitem hkin⟩

end Leaks

/-! ## A way through an item that is not selected -/

theorem nodup_threeItems :
    ([exampleItem 1, exampleItem 2, exampleItem 3].map EvidenceItem.id).Nodup := by
  decide

/-- A message, its attachment and what is attached to that, which is finally redacted. -/
def nestedTables : Tables ℕ :=
  exampleTables [exampleItem 1, exampleItem 2, exampleItem 3]
    [⟨1, 2, .attachment⟩, ⟨2, 3, .attachment⟩] [⟨3, .final⟩] nodup_threeItems (by decide)

/-- Natives without their families. -/
def plainNatives : ProductionParameters ℕ := exampleParameters false .nativesOnly ⟨[], []⟩

theorem resolveSelectionIds_outer : resolveSelectionIds (fun _ => [1, 3]) nestedTables plainNatives =
    [1, 3] := by
  decide

theorem not_recorded_outer (a b : ℕ) : ¬ Recorded nestedTables [1, 3] a b := by
  rintro ⟨ha, hb, hparent⟩
  rcases List.mem_pair.mp hb with rfl | rfl
  · exact absurd hparent (by decide +revert)
  · rcases List.mem_pair.mp ha with rfl | rfl
    · exact absurd hparent (by decide)
    · exact absurd hparent (by decide)

/-- **The message goes out as a native**: what is redacted below it is reached only through
the attachment, which is not selected. -/
theorem nested_not_leaksFlagged :
    ¬ LeaksFlagged asciiToLowerCase (fun _ => [1, 3]) nestedTables plainNatives
      familyRelationshipKinds := by
  rintro ⟨flags, hflags, hall⟩
  have hnative : ProducesNative asciiToLowerCase (fun _ => [1, 3]) nestedTables plainNatives
      (exampleItem 1) := by
    refine ⟨by simp [nestedTables, exampleTables], ?_, rfl⟩
    rw [resolveSelectionIds_outer]
    exact List.mem_cons_self ..
  have hbelow : TransGen (Link familyRelationshipKinds nestedTables) 1 3 := by
    apply TransGen.head (b := 2)
    · exact ⟨⟨1, 2, .attachment⟩, by simp [nestedTables, exampleTables], by decide, rfl, rfl⟩
    · exact .single
        ⟨⟨2, 3, .attachment⟩, by simp [nestedTables, exampleTables], by decide, rfl, rfl⟩
  have hredacted : FinallyRedacted nestedTables 3 :=
    ⟨⟨3, .final⟩, by simp [nestedTables, exampleTables], rfl, rfl⟩
  have hflagged := hall (exampleItem 1) hnative ⟨3, .inr (.inr hbelow), hredacted⟩
  obtain ⟨-, id, htraced, row, hrow, rfl, -⟩ := (leakFlagged_iff hflags hnative.1 hnative.2.1).mp
    hflagged
  rw [resolveSelectionIds_outer] at htraced
  obtain rfl : row = ⟨3, .final⟩ := by simpa [nestedTables, exampleTables] using hrow
  rcases htraced with heq | habove | hbelow
  · exact absurd heq (by decide)
  · obtain ⟨_, hstep, -⟩ := TransGen.head'_iff.mp habove
    exact not_recorded_outer _ _ hstep
  · obtain ⟨_, hstep, -⟩ := TransGen.head'_iff.mp hbelow
    exact not_recorded_outer _ _ hstep

end AegCloudDfir.Production
