import AegCloudDfir.Production.Leaks

/-!
# Families are produced whole

With `includeFamilies` a selection is expanded by what is directly related to it, and what
validation sees of the families is who is the root of whom (`familyRoot`) along the recorded
parents. It flags a family whose root is not selected, and one of which nothing but the root
is (`familySplit_iff`). So a selection without that flag has whole families exactly if
nothing stands two relationships from what was selected (`splitsFlagged_iff`).
-/

namespace AegCloudDfir.Production

open Walk Relation

section Families

variable {Id : Type} [LinearOrder Id]

/-- `a` and `b` stand in a family relationship, whichever is the parent. -/
def Related (tables : Tables Id) (a b : Id) : Prop :=
  Link familyRelationshipKinds tables a b ∨ Link familyRelationshipKinds tables b a

/-- Family relationships connect `a` and `b`. -/
def SameFamily (tables : Tables Id) : Id → Id → Prop := ReflTransGen (Related tables)

/-- With an item its whole family is selected. -/
def FamiliesWhole (tables : Tables Id) (ids : List Id) : Prop :=
  ∀ a ∈ ids, ∀ b, SameFamily tables a b → b ∈ ids

/-- The root of an item along its recorded parents. -/
def rootOf (tables : Tables Id) (ids : List Id) (id : Id) : Id :=
  familyRoot (parentOf tables ids) id

/-- An item has been selected, or is directly related to one that has. -/
def Near (tables : Tables Id) (base : List Id) (id : Id) : Prop :=
  id ∈ base ∨ ∃ a ∈ base, Related tables a id

/-- Nothing stands two relationships from what has been selected, without being nearer. -/
def NothingBeyond (tables : Tables Id) (base : List Id) : Prop :=
  ∀ a ∈ base, ∀ b c, Related tables a b → Related tables b c → Near tables base c

/-- Of a family the root is not selected, or nothing but the root. -/
def VisiblySplit (tables : Tables Id) (ids : List Id) : Prop :=
  ∃ x ∈ ids, inFamily tables ids x ∧
    (rootOf tables ids x ∉ ids ∨
      ∀ y ∈ ids, inFamily tables ids y → rootOf tables ids y = rootOf tables ids x →
        y = rootOf tables ids x)

variable (toLowerCase : JsString → JsString) (searches : Id → List Id) (tables : Tables Id)
  (parameters : ProductionParameters Id)

/-- Validation returns, and if it flags no split families, families are whole. -/
def SplitsFlagged : Prop :=
  ∃ flags, Evaluates toLowerCase searches tables parameters flags ∧
    ((∀ flag ∈ flags, flag.code ≠ .familySplit) →
      FamiliesWhole tables (resolveSelectionIds searches tables parameters))

end Families

/-! ## Roots -/

section Roots

variable {Id : Type} [DecidableEq Id] {parents : JsMap Id Id}

/-- A link of the map of parents. -/
abbrev ParentLink (parents : JsMap Id Id) (child parent : Id) : Prop :=
  parents.get? child = some parent

/-- The loop goes up to something without a parent. What has been seen lies below, so it
never stops there, and every round sees another key, so the rounds suffice. -/
theorem familyRootFrom_spec (h : Acyclic (ParentLink parents)) {n : ℕ} {seen : List Id}
    {current : Id} (hbelow : ∀ s ∈ seen, TransGen (ParentLink parents) s current)
    (hnodup : seen.Nodup) (hkeys : ∀ s ∈ seen, s ∈ parents.map Prod.fst)
    (hn : parents.length < n + seen.length) :
    parents.get? (familyRootFrom parents n seen current) = none ∧
      ReflTransGen (ParentLink parents) current (familyRootFrom parents n seen current) := by
  induction n generalizing seen current with
  | zero =>
    have hle : seen.length ≤ (parents.map Prod.fst).length := (hnodup.subperm hkeys).length_le
    rw [List.length_map] at hle
    omega
  | succ n ih =>
    rw [familyRootFrom]
    rcases hparent : parents.get? current with _ | parent
    · exact ⟨hparent, .refl⟩
    · have hunseen : current ∉ seen := fun hmem => h current (hbelow current hmem)
      have hkey : current ∈ parents.map Prod.fst := by
        by_contra hnot
        rw [JsMap.get?_eq_none hnot] at hparent
        cases hparent
      simp only [if_neg hunseen]
      have hnext : ∀ s ∈ current :: seen, TransGen (ParentLink parents) s parent := by
        intro s hs
        rcases List.mem_cons.mp hs with rfl | hs
        · exact .single hparent
        · exact (hbelow s hs).tail hparent
      obtain ⟨hroot, hway⟩ := ih hnext (List.nodup_cons.mpr ⟨hunseen, hnodup⟩)
        (List.forall_mem_cons.mpr ⟨hkey, hkeys⟩) (by rw [List.length_cons]; omega)
      exact ⟨hroot, hway.head hparent⟩

/-- **A root has no parent**, and is above what it is the root of. -/
theorem familyRoot_spec (h : Acyclic (ParentLink parents)) (id : Id) :
    parents.get? (familyRoot parents id) = none ∧
      ReflTransGen (ParentLink parents) id (familyRoot parents id) :=
  familyRootFrom_spec h (by simp) List.nodup_nil (by simp) (by simp)

/-- What has no parent is its own root. -/
theorem familyRoot_eq_self (h : Acyclic (ParentLink parents)) {id : Id} :
    familyRoot parents id = id ↔ parents.get? id = none := by
  refine ⟨?_, ?_⟩
  · intro heq
    rw [← heq]
    exact (familyRoot_spec h id).1
  · intro hnone
    rcases (familyRoot_spec h id).2.cases_head with heq | ⟨_, hstep, -⟩
    · exact heq.symm
    · rw [ParentLink, hnone] at hstep
      cases hstep

end Roots

section Families

variable {Id : Type} [LinearOrder Id] {toLowerCase : JsString → JsString}
  {searches : Id → List Id} {tables : Tables Id} {ids : List Id}
  {parameters : ProductionParameters Id}

theorem parentLink_link {child parent : Id} (h : ParentLink (parentOf tables ids) child parent) :
    Link familyRelationshipKinds tables parent child := by
  obtain ⟨rel, hrel, rfl, rfl⟩ := parentOf_eq_some h
  obtain ⟨hmem, hkind, -⟩ := mem_familyRelationships.mp hrel
  exact ⟨rel, hmem, by simpa [isFamilyRelationshipKind] using hkind, rfl, rfl⟩

theorem acyclic_parentLink (h : Acyclic (Link familyRelationshipKinds tables)) :
    Acyclic (ParentLink (parentOf tables ids)) :=
  h.swap.mono fun _ _ => parentLink_link

variable (toLowerCase searches parameters) in
/-- Without cycles validation returns. -/
theorem exists_evaluates (h : Acyclic (Link familyRelationshipKinds tables)) :
    ∃ flags, Evaluates toLowerCase searches tables parameters flags := by
  apply returns_of_acyclic
  apply (acyclic_parentLink h).mono
  rintro child parent ⟨sheet, hsheet, rfl, hparent⟩
  exact (sheet_parentId hsheet).2 ▸ hparent

/-- Who is in a family stands among the items. -/
theorem inFamily_items {id : Id} (h : inFamily tables ids id) :
    id ∈ tables.items.map EvidenceItem.id := by
  obtain ⟨rel, hrel, hid⟩ := List.any_eq_true.mp h
  obtain ⟨hparent, hchild⟩ := tables.foreignKeys rel (mem_familyRelationships.mp hrel).1
  rcases of_decide_eq_true hid with rfl | rfl
  · exact hparent
  · exact hchild

/-- The root of a member of a family is in a family. -/
theorem inFamily_rootOf (h : Acyclic (Link familyRelationshipKinds tables)) {id : Id}
    (hid : inFamily tables ids id) : inFamily tables ids (rootOf tables ids id) := by
  rcases (familyRoot_spec (acyclic_parentLink h) id).2.cases_tail with heq | ⟨child, -, hstep⟩
  · rw [rootOf, heq]
    exact hid
  · obtain ⟨rel, hrel, -, hparent⟩ := parentOf_eq_some hstep
    exact List.any_eq_true.mpr ⟨rel, hrel, decide_eq_true (.inl hparent)⟩

theorem sheet_familyId {x : ProductionValidationItem Id}
    (hx : x ∈ loadValidationItems toLowerCase tables ids parameters) {familyId : Id} :
    x.familyId = some familyId ↔
      inFamily tables ids x.evidenceId ∧ rootOf tables ids x.evidenceId = familyId := by
  obtain ⟨item, -, -, rfl⟩ := (mem_loadValidationItems toLowerCase).mp hx
  simp only [sheetOf, rootOf]
  split_ifs with hin
  · simp [hin]
  · simp [hin]

/-- **Which families are on one side**: those without their root, and those that are nothing
but their root. -/
theorem oneSided_iff (h : Acyclic (Link familyRelationshipKinds tables)) {x : Id}
    (hx : inFamily tables ids x) :
    OneSided (loadValidationItems toLowerCase tables ids parameters) (rootOf tables ids x) ↔
      rootOf tables ids x ∉ ids ∨
        ∀ y ∈ ids, inFamily tables ids y → rootOf tables ids y = rootOf tables ids x →
          y = rootOf tables ids x := by
  have hself : ∀ id, rootOf tables ids id = id ↔ (parentOf tables ids).get? id = none := fun id =>
    familyRoot_eq_self (acyclic_parentLink h)
  have htop : (parentOf tables ids).get? (rootOf tables ids x) = none :=
    (familyRoot_spec (acyclic_parentLink h) x).1
  apply or_congr
  · refine ⟨?_, ?_⟩
    · intro hchildren hroot
      have hin : inFamily tables ids (rootOf tables ids x) := inFamily_rootOf h hx
      obtain ⟨m, hm, hid⟩ := exists_sheet toLowerCase parameters hroot (inFamily_items hin)
      have hfam : m.familyId = some (rootOf tables ids x) := by
        rw [sheet_familyId hm, hid]
        exact ⟨hin, (hself _).mpr htop⟩
      apply hchildren m hm hfam
      rw [(sheet_parentId hm).2, hid]
      exact htop
    · intro hroot m hm hfam hnone
      obtain ⟨hmem, hparent⟩ := sheet_parentId hm
      obtain ⟨-, hrootm⟩ := (sheet_familyId hm).mp hfam
      -- a member without a parent is the root
      rw [(hself _).mpr (hparent ▸ hnone)] at hrootm
      exact hroot (hrootm ▸ hmem)
  · refine ⟨?_, ?_⟩
    · intro hparents y hy hin hroot
      obtain ⟨m, hm, rfl⟩ := exists_sheet toLowerCase parameters hy (inFamily_items hin)
      have hnone := hparents m hm ((sheet_familyId hm).mpr ⟨hin, hroot⟩)
      rw [(sheet_parentId hm).2, ← hself] at hnone
      exact hnone.symm.trans hroot
    · intro hroots m hm hfam
      obtain ⟨hmem, hparent⟩ := sheet_parentId hm
      obtain ⟨hin, hroot⟩ := (sheet_familyId hm).mp hfam
      rw [hparent, hroots _ hmem hin hroot]
      exact htop

/-- **When split families are flagged.** -/
theorem familySplit_iff (hfamilies : parameters.selection.includeFamilies)
    (h : Acyclic (Link familyRelationshipKinds tables)) {flags : List (ValidationFlag Id)}
    (hflags : Evaluates toLowerCase searches tables parameters flags) :
    (∃ flag ∈ flags, flag.code = .familySplit) ↔
      VisiblySplit tables (resolveSelectionIds searches tables parameters) := by
  rw [hflags.code_iff]
  refine ⟨?_, ?_⟩
  · rintro ⟨_, x, hx, rfl, happ | ⟨-, -, familyId, hfam, hside⟩⟩
    · exact happ.elim
    · obtain ⟨hin, rfl⟩ := (sheet_familyId hx).mp hfam
      exact ⟨x.evidenceId, (sheet_parentId hx).1, hin, (oneSided_iff h hin).mp hside⟩
  · rintro ⟨id, hid, hin, hsplit⟩
    obtain ⟨x, hx, rfl⟩ := exists_sheet toLowerCase parameters hid (inFamily_items hin)
    exact ⟨_, x, hx, rfl, .inr ⟨rfl, hfamilies, _, (sheet_familyId hx).mpr ⟨hin, rfl⟩,
      (oneSided_iff h hin).mpr hsplit⟩⟩

/-! ## Whole families -/

/-- With families, what is near to what has been selected is selected. -/
theorem mem_resolveSelectionIds_iff_near (h : parameters.selection.includeFamilies) {id : Id} :
    id ∈ resolveSelectionIds searches tables parameters ↔
      Near tables (selectedIds searches tables parameters.selection) id := by
  rw [mem_resolveSelectionIds h, Near]
  apply or_congr_right'
  intro hbase
  refine ⟨?_, ?_⟩
  · rintro ⟨rel, hrel, hid⟩
    obtain ⟨hmem, hkind, hend⟩ := mem_familyRelationships.mp hrel
    have hlink : Link familyRelationshipKinds tables rel.parentId rel.childId :=
      ⟨rel, hmem, by simpa [isFamilyRelationshipKind] using hkind, rfl, rfl⟩
    rcases hid with rfl | rfl
    · exact ⟨rel.childId, hend.resolve_left hbase, .inr hlink⟩
    · exact ⟨rel.parentId, hend.resolve_right hbase, .inl hlink⟩
  · rintro ⟨a, ha, ⟨rel, hmem, hkind, rfl, rfl⟩ | ⟨rel, hmem, hkind, rfl, rfl⟩⟩
    · exact ⟨rel, mem_familyRelationships.mpr ⟨hmem, by simpa [isFamilyRelationshipKind] using hkind,
        .inl ha⟩, .inr rfl⟩
    · exact ⟨rel, mem_familyRelationships.mpr ⟨hmem, by simpa [isFamilyRelationshipKind] using hkind,
        .inr ha⟩, .inl rfl⟩

/-- **Families are whole** exactly if nothing stands two relationships away. -/
theorem familiesWhole_iff (h : parameters.selection.includeFamilies) :
    FamiliesWhole tables (resolveSelectionIds searches tables parameters) ↔
      NothingBeyond tables (selectedIds searches tables parameters.selection) := by
  simp only [FamiliesWhole, mem_resolveSelectionIds_iff_near h]
  refine ⟨?_, ?_⟩
  · intro hwhole a ha b c hab hbc
    exact hwhole a (.inl ha) c ((ReflTransGen.single hab).tail hbc)
  · intro hbeyond a ha b hab
    -- every relationship leads from what is near to what is near
    induction hab with
    | refl => exact ha
    | @tail b c _ hbc ih =>
      rcases ih with hb | ⟨d, hd, hdb⟩
      · exact .inr ⟨b, hb, hbc⟩
      · exact hbeyond d hd b c hdb hbc

end Families

section Families

variable {Id : Type} [LinearOrder Id] (toLowerCase : JsString → JsString)
  (searches : Id → List Id) (tables : Tables Id) (parameters : ProductionParameters Id)

/-- **Families are produced whole**, or the split is flagged, exactly if nothing stands two
relationships from what was selected or a family is split for all to see. -/
theorem splitsFlagged_iff (hfamilies : parameters.selection.includeFamilies)
    (hacyclic : Acyclic (Link familyRelationshipKinds tables)) :
    SplitsFlagged toLowerCase searches tables parameters ↔
      NothingBeyond tables (selectedIds searches tables parameters.selection) ∨
        VisiblySplit tables (resolveSelectionIds searches tables parameters) := by
  refine ⟨?_, ?_⟩
  · rintro ⟨flags, hflags, hwhole⟩
    by_cases hsplit : VisiblySplit tables (resolveSelectionIds searches tables parameters)
    · exact .inr hsplit
    · left
      rw [← familiesWhole_iff hfamilies]
      apply hwhole
      intro flag hflag hcode
      exact hsplit ((familySplit_iff hfamilies hacyclic hflags).mp ⟨flag, hflag, hcode⟩)
  · intro h
    obtain ⟨flags, hflags⟩ := exists_evaluates toLowerCase searches parameters hacyclic
    refine ⟨flags, hflags, fun hnone => ?_⟩
    rcases h with hbeyond | hsplit
    · exact (familiesWhole_iff hfamilies).mpr hbeyond
    · obtain ⟨flag, hflag, hcode⟩ := (familySplit_iff hfamilies hacyclic hflags).mpr hsplit
      exact absurd hcode (hnone flag hflag)

end Families

/-! ## Two attachments of one message -/

/-- A message and its two attachments. -/
def siblingTables : Tables ℕ :=
  exampleTables [exampleItem 1, exampleItem 2, exampleItem 3]
    [⟨1, 2, .attachment⟩, ⟨1, 3, .attachment⟩] [] nodup_threeItems (by decide)

/-- Pages of whole families. -/
def wholeFamilies : ProductionParameters ℕ := exampleParameters true .pdfOnly ⟨[], []⟩

theorem link_siblings {a b : ℕ} :
    Link familyRelationshipKinds siblingTables a b ↔ a = 1 ∧ (b = 2 ∨ b = 3) := by
  refine ⟨?_, ?_⟩
  · rintro ⟨rel, hrel, -, rfl, rfl⟩
    rcases List.mem_pair.mp hrel with rfl | rfl
    · exact ⟨rfl, .inl rfl⟩
    · exact ⟨rfl, .inr rfl⟩
  · rintro ⟨rfl, rfl | rfl⟩
    · exact ⟨⟨1, 2, .attachment⟩, List.mem_pair.mpr (.inl rfl), by decide, rfl, rfl⟩
    · exact ⟨⟨1, 3, .attachment⟩, List.mem_pair.mpr (.inr rfl), by decide, rfl, rfl⟩

theorem acyclic_siblings : Acyclic (Link familyRelationshipKinds siblingTables) := by
  intro a ha
  -- a way starts at the message and ends at an attachment
  obtain ⟨_, hfirst, -⟩ := TransGen.head'_iff.mp ha
  obtain ⟨_, -, hlast⟩ := TransGen.tail'_iff.mp ha
  obtain ⟨rfl, -⟩ := link_siblings.mp hfirst
  obtain ⟨-, h | h⟩ := link_siblings.mp hlast
  · cases h
  · cases h

theorem splitsFlagged_iff_message :
    SplitsFlagged asciiToLowerCase (fun _ => [1]) siblingTables wholeFamilies := by
  apply (splitsFlagged_iff asciiToLowerCase (fun _ => [1]) siblingTables wholeFamilies rfl
    acyclic_siblings).mpr
  left
  have hbase : selectedIds (fun _ => [1]) siblingTables wholeFamilies.selection = [1] := by decide
  rw [hbase]
  rintro a ha b c - hbc
  rcases hbc with h | h
  · obtain ⟨rfl, hc⟩ := link_siblings.mp h
    exact .inr ⟨1, by simp, .inl (link_siblings.mpr ⟨rfl, hc⟩)⟩
  · obtain ⟨rfl, -⟩ := link_siblings.mp h
    exact .inl (by simp)

theorem resolveSelectionIds_attachment :
    resolveSelectionIds (fun _ => [2]) siblingTables wholeFamilies = [1, 2] := by
  decide

/-- **The other attachment stays behind**: where one attachment is selected, its message is
added and nothing is flagged. -/
theorem attachment_not_splitsFlagged :
    ¬ SplitsFlagged asciiToLowerCase (fun _ => [2]) siblingTables wholeFamilies := by
  rintro ⟨flags, hflags, hwhole⟩
  have hnone : ∀ flag ∈ flags, flag.code ≠ .familySplit := by
    intro flag hflag hcode
    obtain ⟨x, hx, -, hsplit⟩ := (familySplit_iff rfl acyclic_siblings hflags).mp
      ⟨flag, hflag, hcode⟩
    rw [resolveSelectionIds_attachment] at hx hsplit
    have hroot : rootOf siblingTables [1, 2] x = 1 := by
      rcases List.mem_pair.mp hx with rfl | rfl <;> decide
    rw [hroot] at hsplit
    rcases hsplit with hmissing | halone
    · exact hmissing (by simp)
    · exact absurd (halone 2 (by simp) (by decide) (by decide)) (by decide)
  have hsame : SameFamily siblingTables 1 3 :=
    .single (.inl (link_siblings.mpr ⟨rfl, .inr rfl⟩))
  have hmem := hwhole hnone 1 (by rw [resolveSelectionIds_attachment]; simp) 3 hsame
  rw [resolveSelectionIds_attachment] at hmem
  simp at hmem

end AegCloudDfir.Production
