import AegCloudDfir.Lib.Descent
import AegCloudDfir.Production.Engine

/-!
# Validation of a selection with circles

The search for redacted content below an item (`anyDescendant` of the API,
`descendantHasFinalRedactions` of the package) keeps a stack and, unlike the search above an item,
not the set of the items it has seen. If the links to parents come to a circle, it may go round it
without end.

* `FlagsLeaks` — what validation is to do: return, and name the items with a native to which the
  rule of redacted content applies.
* `EndsBelow`, `Engine.EndsBelow` — no search validation makes comes to a circle.
* `flagsLeaks_iff_endsBelow` — each validator does what it is to do exactly on those selections.
* `circle_never_returns` — two items with each other for a parent are not of them.
-/

namespace AegCloudDfir.Production

open Walk Relation

section Below

variable {Id : Type} [LinearOrder Id]

/-- Redacted content leaks with the native of an item: the item would be given out as a native, and
it or something below it has final redactions. -/
def Leaks (items : List (ProductionValidationItem Id)) (item : ProductionValidationItem Id) :
    Prop :=
  item.wouldProduceNative ∧
    (item.hasFinalRedactions ∨ ∃ c, Descends items item c ∧ c.hasFinalRedactions)

/-- Of a validation that returns `flags`: the flag `redacted_native_leak` names the items redacted
content leaks with. -/
def NamesLeaks (items : List (ProductionValidationItem Id)) (flags : List (ValidationFlag Id)) :
    Prop :=
  ∀ id, (∃ flag ∈ flags, flag.code = .redactedNativeLeak ∧ id ∈ flag.evidenceItemIds) ↔
    ∃ item ∈ items, item.evidenceId = id ∧ Leaks items item

/-- The validator of the API returns, and names the items redacted content leaks with. -/
def FlagsLeaks (items : List (ProductionValidationItem Id)) (params : ProductionValidationParams) :
    Prop :=
  ∃ flags, Returns items params flags ∧ NamesLeaks items flags

/-- No search of the API comes to a circle: neither that for redacted content below an item with a
native and no final redactions of its own, nor that for something privileged below an item that is
not. -/
def EndsBelow (items : List (ProductionValidationItem Id)) : Prop :=
  ∀ item ∈ items,
    (item.wouldProduceNative → ¬ item.hasFinalRedactions →
      ¬ Circles (children items) ProductionValidationItem.hasFinalRedactions item) ∧
    (¬ item.isPrivileged → ¬ Circles (children items) ProductionValidationItem.isPrivileged item)

variable {items : List (ProductionValidationItem Id)} {params : ProductionValidationParams}

theorem mem_of_mem_children {x y : ProductionValidationItem Id} (h : y ∈ children items x) :
    y ∈ items := by
  rw [children, childrenOf, JsMap.getD_group, JsMap.mem_valuesAt, childLinks,
    List.mem_filterMap] at h
  obtain ⟨z, hz, heq⟩ := h
  rcases hp : z.parentId with _ | p
  · simp [hp] at heq
  · simp only [hp] at heq
    split_ifs at heq
    obtain ⟨-, rfl⟩ := Prod.mk.inj (Option.some.inj heq)
    exact hz

/-- A search ends exactly if it does not come to a circle. -/
theorem descent_ends_iff {item : ProductionValidationItem Id}
    {predicate : ProductionValidationItem Id → Bool} (h : ¬ predicate item) :
    Ends (children items) predicate (children items item).reverse ↔
      ¬ Circles (children items) predicate item :=
  ends_children_iff_not_circles (fun _ _ => mem_of_mem_children) (by simpa using h)

theorem descentsEnd_iff {item : ProductionValidationItem Id} :
    DescentsEnd items item ↔
      (item.wouldProduceNative → ¬ item.hasFinalRedactions →
        ¬ Circles (children items) ProductionValidationItem.hasFinalRedactions item) ∧
      (¬ item.isPrivileged →
        ¬ Circles (children items) ProductionValidationItem.isPrivileged item) := by
  refine and_congr ?_ ?_
  · refine forall_congr' fun _ => forall_congr' fun hfinal => ?_
    exact descent_ends_iff hfinal
  · refine forall_congr' fun hprivileged => ?_
    exact descent_ends_iff hprivileged

/-- A validation that returns names the items redacted content leaks with. -/
theorem Returns.namesLeaks {flags : List (ValidationFlag Id)} (h : Returns items params flags) :
    NamesLeaks items flags := by
  intro id
  rw [h.flag_iff, Noted]
  simp [Applies, Leaks]

theorem flagsLeaks_iff : FlagsLeaks items params ↔ EndsBelow items := by
  have hreturns : FlagsLeaks items params ↔ ∃ flags, Returns items params flags := by
    refine ⟨?_, ?_⟩
    · rintro ⟨flags, h, -⟩
      exact ⟨flags, h⟩
    · rintro ⟨flags, h⟩
      exact ⟨flags, h, h.namesLeaks⟩
  rw [hreturns, returns_iff]
  refine forall_congr' fun item => forall_congr' fun _ => ?_
  exact descentsEnd_iff

end Below

/-! ## The validator of the package -/

namespace Engine

variable {Id : Type} [LinearOrder Id]

/-- Validation returns the flags. -/
def Returns (items : List (ValidationItem Id)) (params : ProductionValidationParams)
    (flags : List (ValidationFlag Id)) : Prop :=
  ∃ rounds, validateProductionSet rounds items params = some flags

/-- The validator of the package returns, and names the items redacted content leaks with. -/
def FlagsLeaks (items : List (ValidationItem Id)) (params : ProductionValidationParams) : Prop :=
  ∃ flags, Returns items params flags ∧ NamesLeaks (items.map ValidationItem.facts) flags

/-- No search of the package comes to a circle. It does not search below an item that is recorded
to have something privileged below it. -/
def EndsBelow (items : List (ValidationItem Id)) : Prop :=
  ∀ item ∈ items,
    (item.wouldProduceNative → ¬ item.hasFinalRedactions →
      ¬ Circles (children items) ValidationItem.hasFinalRedactions item) ∧
    (¬ item.isPrivileged → ¬ item.hasPrivilegedDescendant →
      ¬ Circles (children items) ValidationItem.isPrivileged item)

variable {items : List (ValidationItem Id)} {params : ProductionValidationParams}
  {item : ValidationItem Id}

theorem mem_of_mem_children {x y : ValidationItem Id} (h : y ∈ children items x) : y ∈ items := by
  rw [children, JsMap.getD_group, JsMap.mem_valuesAt, childLinks, List.mem_filterMap] at h
  obtain ⟨z, hz, heq⟩ := h
  rcases hp : parentIdOf z with _ | p
  · simp [hp] at heq
  · simp only [hp] at heq
    split_ifs at heq
    obtain ⟨-, rfl⟩ := Prod.mk.inj (Option.some.inj heq)
    exact hz

/-- A search of the package ends exactly if it does not come to a circle. -/
theorem descent_ends_iff {predicate : ValidationItem Id → Bool} (h : ¬ predicate item) :
    Ends (children items) predicate (children items item).reverse ↔
      ¬ Circles (children items) predicate item :=
  ends_children_iff_not_circles (fun _ _ => mem_of_mem_children) (by simpa using h)

omit [LinearOrder Id] in
theorem mem_note {code : ValidationFlagCode} {b : Bool} {o : Offence Id} :
    o ∈ note item code b ↔ o = (code, item.evidenceId) ∧ b := by
  cases b <;> simp [note]

/-! ### Ending -/

theorem leaksNative_isSome_iff :
    (∃ rounds b, leaksNative rounds items item = some b) ↔
      (item.wouldProduceNative → ¬ item.hasFinalRedactions →
        ¬ Circles (children items) ValidationItem.hasFinalRedactions item) := by
  by_cases hnative : item.wouldProduceNative
  · by_cases hfinal : item.hasFinalRedactions
    · simp [leaksNative, hnative, hfinal]
    · simp only [leaksNative, hnative, hfinal, if_true, descendantHasFinalRedactions,
        Bool.false_eq_true, if_false, true_implies, not_false_eq_true]
      exact descent_ends_iff hfinal
  · simp [leaksNative, hnative]

theorem containsPrivileged_isSome_iff :
    (∃ rounds b, containsPrivileged rounds items item = some b) ↔
      (¬ item.isPrivileged → ¬ item.hasPrivilegedDescendant →
        ¬ Circles (children items) ValidationItem.isPrivileged item) := by
  by_cases hprivileged : item.isPrivileged
  · simp [containsPrivileged, hprivileged]
  · by_cases hrecorded : item.hasPrivilegedDescendant
    · simp [containsPrivileged, hprivileged, hrecorded]
    · simp only [containsPrivileged, hprivileged, hrecorded, descendantIsPrivileged,
        Bool.false_eq_true, if_false, true_implies, not_false_eq_true]
      exact descent_ends_iff hprivileged

theorem leaksNative_mono {n m : ℕ} {b : Bool} (h : leaksNative n items item = some b)
    (hnm : n ≤ m) : leaksNative m items item = some b := by
  rw [leaksNative] at h ⊢
  split_ifs at h ⊢
  · exact h
  · exact walk_mono h hnm
  · exact h

theorem containsPrivileged_mono {n m : ℕ} {b : Bool}
    (h : containsPrivileged n items item = some b) (hnm : n ≤ m) :
    containsPrivileged m items item = some b := by
  rw [containsPrivileged] at h ⊢
  split_ifs at h ⊢
  · exact h
  · exact h
  · exact walk_mono h hnm

theorem itemOffences_isSome {rounds : ℕ} :
    (∃ noted, itemOffences rounds items params item = some noted) ↔
      (∃ b, leaksNative rounds items item = some b) ∧
        ∃ b, containsPrivileged rounds items item = some b := by
  refine ⟨?_, ?_⟩
  · rintro ⟨noted, h⟩
    obtain ⟨leaks, hleaks, h⟩ := Option.bind_eq_some_iff.mp h
    obtain ⟨below, hbelow, -⟩ := Option.bind_eq_some_iff.mp h
    exact ⟨⟨leaks, hleaks⟩, ⟨below, hbelow⟩⟩
  · rintro ⟨⟨leaks, hleaks⟩, ⟨below, hbelow⟩⟩
    rw [itemOffences, hleaks, Option.bind_eq_bind, Option.bind_some, hbelow]
    exact ⟨_, rfl⟩

theorem itemOffences_mono {n m : ℕ} {noted : List (Offence Id)}
    (h : itemOffences n items params item = some noted) (hnm : n ≤ m) :
    itemOffences m items params item = some noted := by
  obtain ⟨leaks, hleaks, h⟩ := Option.bind_eq_some_iff.mp h
  obtain ⟨below, hbelow, h⟩ := Option.bind_eq_some_iff.mp h
  rw [itemOffences, leaksNative_mono hleaks hnm, Option.bind_eq_bind, Option.bind_some,
    containsPrivileged_mono hbelow hnm]
  exact h

theorem returns_iff_isSome :
    (∃ flags, Returns items params flags) ↔
      ∃ rounds, ∀ item ∈ items, ∃ noted, itemOffences rounds items params item = some noted := by
  refine ⟨?_, ?_⟩
  · rintro ⟨flags, rounds, h⟩
    obtain ⟨noted, hnoted, -⟩ := Option.map_eq_some_iff.mp h
    obtain ⟨lists, hlists, -⟩ := Option.bind_eq_some_iff.mp hnoted
    exact ⟨rounds, fun item hitem => isSome_mapM.mp ⟨lists, hlists⟩ item hitem⟩
  · rintro ⟨rounds, hall⟩
    obtain ⟨lists, hlists⟩ := isSome_mapM.mpr hall
    have hsome : (validateProductionSet rounds items params).isSome := by
      rw [validateProductionSet, offences, hlists]
      rfl
    obtain ⟨flags, hflags⟩ := Option.isSome_iff_exists.mp hsome
    exact ⟨flags, rounds, hflags⟩

/-- **Validation returns exactly if no search comes to a circle.** -/
theorem returns_iff : (∃ flags, Returns items params flags) ↔ EndsBelow items := by
  rw [returns_iff_isSome]
  refine ⟨?_, ?_⟩
  · rintro ⟨rounds, hall⟩ item hitem
    obtain ⟨hleaks, hbelow⟩ := itemOffences_isSome.mp (hall item hitem)
    exact ⟨leaksNative_isSome_iff.mp ⟨rounds, hleaks⟩,
      containsPrivileged_isSome_iff.mp ⟨rounds, hbelow⟩⟩
  · intro h
    have hone : ∀ item ∈ items, ∃ n noted, itemOffences n items params item = some noted := by
      intro item hitem
      obtain ⟨n, a, ha⟩ := leaksNative_isSome_iff.mpr (h item hitem).1
      obtain ⟨m, b, hb⟩ := containsPrivileged_isSome_iff.mpr (h item hitem).2
      exact ⟨max n m, itemOffences_isSome.mpr ⟨⟨a, leaksNative_mono ha (le_max_left ..)⟩,
        ⟨b, containsPrivileged_mono hb (le_max_right ..)⟩⟩⟩
    exact exists_rounds (fun _ _ _ _ hx hnm => itemOffences_mono hx hnm) hone

/-! ### What is named -/

theorem leaksNative_eq_some (hitem : item ∈ items) {rounds : ℕ} {b : Bool}
    (h : leaksNative rounds items item = some b) :
    b ↔ Leaks (items.map ValidationItem.facts) item.facts := by
  rw [← leaksNative_facts] at h
  have happlies : b ↔ Applies (items.map ValidationItem.facts) ⟨true, .final, .pdfOnly⟩ item.facts
      .redactedNativeLeak :=
    Production.leaksNative_eq_some (List.mem_map_of_mem hitem) h
  exact happlies

theorem mem_itemOffences (hitem : item ∈ items) {rounds : ℕ} {noted : List (Offence Id)}
    (h : itemOffences rounds items params item = some noted) {id : Id} :
    (.redactedNativeLeak, id) ∈ noted ↔
      item.evidenceId = id ∧ Leaks (items.map ValidationItem.facts) item.facts := by
  obtain ⟨leaks, hleaks, h⟩ := Option.bind_eq_some_iff.mp h
  obtain ⟨below, -, h⟩ := Option.bind_eq_some_iff.mp h
  obtain rfl := Option.some.inj h
  rw [← leaksNative_eq_some hitem hleaks]
  simp only [List.mem_append, mem_note, Prod.mk.injEq, reduceCtorEq, false_and, or_false,
    true_and]
  rw [eq_comm (a := id)]

omit [LinearOrder Id] in
theorem code_of_mem_familyOffences {members : List (ValidationItem Id)} {o : Offence Id}
    (h : o ∈ familyOffences members) : o.1 = .familySplit := by
  rw [familyOffences] at h
  split_ifs at h
  · obtain ⟨m, -, rfl⟩ := List.mem_map.mp h
    rfl
  · obtain ⟨m, -, rfl⟩ := List.mem_map.mp h
    rfl
  · cases h

/-- A validation that returns names the items redacted content leaks with. -/
theorem Returns.namesLeaks {flags : List (ValidationFlag Id)} (h : Returns items params flags) :
    NamesLeaks (items.map ValidationItem.facts) flags := by
  obtain ⟨rounds, h⟩ := h
  obtain ⟨noted, hnoted, rfl⟩ := Option.map_eq_some_iff.mp h
  obtain ⟨lists, hlists, h⟩ := Option.bind_eq_some_iff.mp hnoted
  obtain rfl := Option.some.inj h
  intro id
  rw [engine_flagsOf_eq, exists_flag_mem_iff, List.mem_append]
  -- the rule about families notes another code
  have hsplit : (.redactedNativeLeak, id) ∉ if params.includeFamilies then
      (families items).flatMap fun e => familyOffences e.2 else [] := by
    intro hmem
    split_ifs at hmem
    · obtain ⟨e, -, he⟩ := List.mem_flatMap.mp hmem
      cases code_of_mem_familyOffences he
    · cases hmem
  rw [or_iff_left hsplit, List.mem_flatten]
  refine ⟨?_, ?_⟩
  · rintro ⟨l, hl, ho⟩
    obtain ⟨item, hitem, hnoted⟩ := (mem_of_mapM hlists).mp hl
    obtain ⟨hid, hleaks⟩ := (mem_itemOffences hitem hnoted).mp ho
    exact ⟨item.facts, List.mem_map_of_mem hitem, hid, hleaks⟩
  · rintro ⟨_, hfacts, hid, hleaks⟩
    obtain ⟨item, hitem, rfl⟩ := List.mem_map.mp hfacts
    obtain ⟨l, hl⟩ := isSome_mapM.mp ⟨lists, hlists⟩ item hitem
    exact ⟨l, (mem_of_mapM hlists).mpr ⟨item, hitem, hl⟩,
      (mem_itemOffences hitem hl).mpr ⟨hid, hleaks⟩⟩

theorem flagsLeaks_iff : FlagsLeaks items params ↔ EndsBelow items := by
  have hreturns : (∃ flags, Returns items params flags) ↔ EndsBelow items := returns_iff
  rw [← hreturns]
  refine ⟨?_, ?_⟩
  · rintro ⟨flags, h, -⟩
    exact ⟨flags, h⟩
  · rintro ⟨flags, h⟩
    exact ⟨flags, h, h.namesLeaks⟩

end Engine

/-! ## Both -/

/-- **Validation names the items redacted content leaks with exactly on the selections whose
searches come to no circle**, in either validator and whatever else it is asked. -/
theorem flagsLeaks_iff_endsBelow {Id : Type} [LinearOrder Id]
    (params : ProductionValidationParams) :
    (∀ items : List (ProductionValidationItem Id), FlagsLeaks items params ↔ EndsBelow items) ∧
      ∀ items : List (ValidationItem Id),
        Engine.FlagsLeaks items params ↔ Engine.EndsBelow items :=
  ⟨fun _ => flagsLeaks_iff, fun _ => Engine.flagsLeaks_iff⟩

/-- Two clean items, each the parent of the other. -/
def exampleCircle : List (ProductionValidationItem ℕ) :=
  [exampleSheet 1 (some 2), exampleSheet 2 (some 1)]

/-- **Validation of two items with each other for a parent never returns.** -/
theorem circle_never_returns :
    ¬ ∀ (items : List (ProductionValidationItem ℕ)) (params : ProductionValidationParams),
      FlagsLeaks items params := by
  intro h
  have hends : EndsBelow exampleCircle :=
    flagsLeaks_iff.mp (h exampleCircle ⟨true, .final, .nativesOnly⟩)
  have hdown : Onward (children exampleCircle) ProductionValidationItem.hasFinalRedactions
      (exampleSheet 1 (some 2)) (exampleSheet 2 (some 1)) :=
    ⟨rfl, [], [], rfl, fun _ hd => nomatch hd⟩
  have hup : Onward (children exampleCircle) ProductionValidationItem.hasFinalRedactions
      (exampleSheet 2 (some 1)) (exampleSheet 1 (some 2)) :=
    ⟨rfl, [], [], rfl, fun _ hd => nomatch hd⟩
  have hfirst : exampleSheet 1 (some 2) ∈ exampleCircle := List.mem_cons_self
  exact (hends _ hfirst).1 rfl Bool.false_ne_true ⟨_, .refl, .tail (.single hdown) hup⟩

end AegCloudDfir.Production
