import AegCloudDfir.CanonicalForm
import AegCloudDfir.Lib.Traversal

/-!
# JSON columns

The audit chain hashes the summary it was given and is verified with the summary
the database gives back. In between are `JSON.stringify` and a JSONB column,
which keep the JSON and forget the order of keys. This file says what that means
for the hash: nothing, because `canonicalJson` of what comes back is
`canonicalJson` of what went in.

`JsonColumn` is the column as a parameter of the model: it may refuse a value (a
bigint, a NUL character), and what it accepts it gives back up to key order.
-/

namespace AegCloudDfir

variable {N : Type}

/-! ## What `canonicalJson` accepts -/

section Accepts

variable [JsNumber N]

/-- No property threw if the object was rendered. -/
theorem renderEntries_ok {es : List (JsString × Except JsError JsString)} {s : JsString}
    (h : renderEntries es = .ok s) : ∀ e ∈ es, ∃ t, e.2 = .ok t := by
  intro e he
  rw [renderEntries] at h
  rcases hparts : (sortByKey es).mapM fun e => do
      let value ← e.2
      pure (renderEntry e.1 value) with err | parts
  · rw [hparts] at h
    cases h
  · obtain ⟨t, -, ht⟩ := Traversal.exists_ok_of_mapM hparts e ((List.mem_insertionSort keyLe).mpr he)
    rcases hv : e.2 with err | v
    · rw [hv] at ht
      cases ht
    · exact ⟨v, rfl⟩

theorem mem_serializeEntries {es : List (JsString × JsVal N)} {e : JsString × JsVal N}
    (he : e ∈ es) (hu : e.2.isUndefined = false) :
    (e.1, Database.serialize e.2) ∈ Database.serializeEntries es := by
  induction es with
  | nil => cases he
  | cons f es ih =>
    obtain ⟨k, v⟩ := f
    rw [Database.serializeEntries]
    rcases List.mem_cons.mp he with rfl | he
    · rw [hu]
      exact List.mem_cons_self ..
    · split_ifs
      · exact ih he
      · exact List.mem_cons_of_mem _ (ih he)

theorem serializeElements_ok {xs : List (JsVal N)} {parts : List JsString}
    (h : Database.serializeElements xs = .ok parts) :
    ∀ x ∈ xs, x.isNullish = false → ∃ s, Database.serialize x = .ok s := by
  induction xs generalizing parts with
  | nil =>
    intro x hx
    cases hx
  | cons y xs ih =>
    rw [Database.serializeElements] at h
    rcases hy : (if y.isNullish then pure (js "null") else Database.serialize y) with e | part
    · rw [hy] at h
      cases h
    · rcases hxs : Database.serializeElements xs with e | parts'
      · rw [hy, hxs] at h
        cases h
      · intro x hx hn
        rcases List.mem_cons.mp hx with rfl | hx
        · rw [hn] at hy
          exact ⟨part, hy⟩
        · exact ih hxs x hx hn

/-- **`canonicalJson` throws on everything that is not `Serializable`.** -/
theorem Database.serializable_of_ok {v : JsVal N} {s : JsString}
    (h : Database.canonicalJson v = .ok s) : Serializable v := by
  rw [Database.canonicalJson] at h
  induction v generalizing s with
  | undefined => cases h
  | nonFinite => cases h
  | opaqueType t => cases h
  | date t =>
    cases t with
    | none => cases h
    | some t => exact .date t
  | null => exact .null
  | bool b => exact .bool b
  | num n => exact .num n
  | bigint n => exact .bigint n
  | str t => exact .str t
  | arr xs ih =>
    rw [Database.serialize] at h
    rcases hxs : Database.serializeElements xs with e | parts
    · rw [hxs] at h
      cases h
    · refine .arr fun x hx hu => ?_
      rcases hn : x.isNullish
      · obtain ⟨t, ht⟩ := serializeElements_ok hxs x hx hn
        exact ih x hx ht
      · cases x with
        | null => exact .null
        | undefined => cases hu
        | _ => cases hn
  | obj es ih =>
    rw [Database.serialize] at h
    refine .obj fun e he hu => ?_
    obtain ⟨t, ht⟩ := renderEntries_ok h _ (mem_serializeEntries he hu)
    exact ih e he ht

end Accepts

/-! ## Storing a value as JSON -/

/-- Objects with distinct keys, at every level, as JavaScript has them. -/
inductive WellKeyed : JsVal N → Prop where
  | leaf {v : JsVal N} (harr : ∀ xs, v ≠ .arr xs) (hobj : ∀ es, v ≠ .obj es) : WellKeyed v
  | arr {xs : List (JsVal N)} (h : ∀ x ∈ xs, WellKeyed x) : WellKeyed (.arr xs)
  | obj {es : List (JsString × JsVal N)} (hkeys : (es.map Prod.fst).Nodup)
    (h : ∀ e ∈ es, WellKeyed e.2) : WellKeyed (.obj es)

/-- Undefined, functions and symbols have no JSON. -/
def hasJson : JsVal N → Bool
  | .undefined => false
  | .opaqueType _ => false
  | _ => true

mutual

/-- `JSON.parse(JSON.stringify(v))`. A bigint stays, since `JSON.stringify` throws
on it. -/
def stringified : JsVal N → JsVal N
  | .nonFinite => .null
  | .date (some t) => .str (toISOString t)
  | .date none => .null
  | .undefined => .null
  | .opaqueType _ => .null
  | .arr xs => .arr (stringifiedElements xs)
  | .obj es => .obj (stringifiedEntries es)
  | .null => .null
  | .bool b => .bool b
  | .num n => .num n
  | .bigint n => .bigint n
  | .str s => .str s

/-- Array elements; what has no JSON becomes `null`. -/
def stringifiedElements : List (JsVal N) → List (JsVal N)
  | [] => []
  | v :: vs => stringified v :: stringifiedElements vs

/-- Properties; what has no JSON is left out. -/
def stringifiedEntries : List (JsString × JsVal N) → List (JsString × JsVal N)
  | [] => []
  | (k, v) :: es =>
    if hasJson v then (k, stringified v) :: stringifiedEntries es else stringifiedEntries es

end

/-- A value of a JSON column: JSON without anything `undefined`. -/
structure JsonValue (N : Type) where
  /-- the value as the client returns it -/
  val : JsVal N
  /-- it is JSON -/
  tree : JsonTree val
  /-- nothing in it is undefined -/
  plain : dropUndefined val = val

/-- A JSON column: what a later read returns for a value that is stored, if the
value is accepted. -/
structure JsonColumn (N : Type) where
  /-- the stored value -/
  store : JsVal N → Option (JsonValue N)
  /-- a stored value comes back as its JSON, up to the order of keys -/
  same : ∀ v w, store v = some w → SameJson (stringified v) w.val

/-! ## Storing does not change the canonical form -/

theorem stringifiedElements_eq (xs : List (JsVal N)) :
    stringifiedElements xs = xs.map stringified := by
  induction xs with
  | nil => rfl
  | cons x xs ih => rw [stringifiedElements, ih, List.map_cons]

theorem stringifiedEntries_eq (es : List (JsString × JsVal N)) :
    stringifiedEntries es =
      (es.filter fun e => hasJson e.2).map fun e => (e.1, stringified e.2) := by
  induction es with
  | nil => rfl
  | cons e es ih =>
    obtain ⟨k, v⟩ := e
    rw [stringifiedEntries, ih]
    rcases hj : hasJson v <;> simp [hj]

theorem isUndefined_stringified (v : JsVal N) : (stringified v).isUndefined = false := by
  cases v with
  | date t => cases t <;> rfl
  | _ => rfl

theorem canonical_stringified {v : JsVal N} (h : Serializable v) :
    canonical (stringified v) = canonical v := by
  induction v with
  | undefined => cases h
  | nonFinite => cases h
  | opaqueType t => cases h
  | date t => cases h; rfl
  | null => rfl
  | bool b => rfl
  | num n => rfl
  | bigint n => rfl
  | str s => rfl
  | arr xs ih =>
    obtain _ | _ | _ | _ | _ | _ | h | _ := h
    rw [stringified, canonical, canonical, canonicalElements_eq, canonicalElements_eq,
      stringifiedElements_eq, List.map_map]
    congr 1
    refine List.map_congr_left fun x hx => ?_
    rcases hu : x.isUndefined
    · exact ih x hx (h x hx hu)
    · cases x <;> first | rfl | exact absurd hu Bool.false_ne_true
  | obj es ih =>
    obtain _ | _ | _ | _ | _ | _ | _ | h := h
    have hes : canonicalEntries (stringifiedEntries es) = canonicalEntries es := by
      rw [canonicalEntries_eq, canonicalEntries_eq, stringifiedEntries_eq, List.filter_map,
        List.map_map, List.filter_filter]
      have hfilter : es.filter (fun e =>
          ((fun e : JsString × JsVal N => !e.2.isUndefined) ∘
            fun e => (e.1, stringified e.2)) e && hasJson e.2) =
              es.filter fun e => !e.2.isUndefined := by
        refine List.filter_congr fun e he => ?_
        obtain ⟨k, v⟩ := e
        simp only [Function.comp_apply, isUndefined_stringified, Bool.not_false, Bool.true_and]
        cases v with
        | opaqueType t => cases h _ he rfl
        | _ => rfl
      rw [hfilter]
      refine List.map_congr_left fun e he => ?_
      obtain ⟨he, hu⟩ := List.mem_filter.mp he
      have hu : e.2.isUndefined = false := by simpa using hu
      simp only [Function.comp_apply, ih e he (h e he hu)]
    rw [stringified, canonical, canonical, hes]

theorem WellKeyed.stringified {v : JsVal N} (h : WellKeyed v) : WellKeyed (stringified v) := by
  induction v with
  | arr xs ih =>
    cases h with
    | leaf harr => exact absurd rfl (harr xs)
    | arr h =>
      rw [AegCloudDfir.stringified, stringifiedElements_eq]
      refine .arr fun y hy => ?_
      obtain ⟨x, hx, rfl⟩ := List.mem_map.mp hy
      exact ih x hx (h x hx)
  | obj es ih =>
    cases h with
    | leaf _ hobj => exact absurd rfl (hobj es)
    | obj hkeys h =>
      rw [AegCloudDfir.stringified, stringifiedEntries_eq]
      refine .obj ?_ fun e he => ?_
      · rw [List.map_map]
        exact hkeys.sublist (List.filter_sublist.map Prod.fst)
      · obtain ⟨f, hf, rfl⟩ := List.mem_map.mp he
        have hf := (List.mem_filter.mp hf).1
        exact ih f hf (h f hf)
  | date t => cases t <;> exact .leaf (by rintro _ ⟨⟩) (by rintro _ ⟨⟩)
  | _ => exact .leaf (by rintro _ ⟨⟩) (by rintro _ ⟨⟩)

theorem SameJson.isUndefined {v w : JsVal N} (h : SameJson v w) :
    v.isUndefined = false ∧ w.isUndefined = false := by
  cases h <;> exact ⟨rfl, rfl⟩

/-- **Values that are the same JSON have the same tree.** -/
theorem canonical_eq_of_sameJson {v w : JsVal N} (h : SameJson v w) (hv : WellKeyed v)
    (hw : JsonTree w) : canonical v = canonical w := by
  induction h with
  | null => rfl
  | bool b => rfl
  | num n => rfl
  | str s => rfl
  | @arr xs ys hlen h ih =>
    obtain _ | _ | _ | _ | hys | _ := hw
    rw [canonical, canonical, canonicalElements_eq, canonicalElements_eq]
    refine congrArg Json.arr (map_canonical_eq_iff.mpr ⟨hlen, fun p hp => ?_⟩)
    obtain ⟨hx, hy⟩ := List.of_mem_zip hp
    cases hv with
    | leaf harr => exact absurd rfl (harr xs)
    | arr hxs => exact ih p hp (hxs p.1 hx) (hys p.2 hy (h p hp).isUndefined.2)
  | @obj es fs hkeys h ih =>
    obtain _ | _ | _ | _ | _ | ⟨hfs, hg⟩ := hw
    cases hv with
    | leaf _ hobj => exact absurd rfl (hobj es)
    | obj hes hf =>
      -- every property has a counterpart, so none is undefined
      have hdes : (es.filter fun e => !e.2.isUndefined) = es := by
        refine List.filter_eq_self.mpr fun e he => ?_
        obtain ⟨⟨k, w⟩, hw, hk⟩ :=
          List.mem_map.mp ((hkeys e.1).mp (List.mem_map_of_mem he))
        cases hk
        rw [(h e.1 e.2 w he hw).isUndefined.1]
        rfl
      have hdfs : (fs.filter fun e => !e.2.isUndefined) = fs := by
        refine List.filter_eq_self.mpr fun e he => ?_
        obtain ⟨⟨k, v⟩, hv, hk⟩ :=
          List.mem_map.mp ((hkeys e.1).mpr (List.mem_map_of_mem he))
        cases hk
        rw [(h e.1 v e.2 hv he).isUndefined.2]
        rfl
      rw [canonical, canonical, canonicalEntries_eq, canonicalEntries_eq, hdes, hdfs]
      refine congrArg Json.obj ((sortByKey_eq_iff ?_ ?_).mpr
        ((mem_map_values_iff hfs).mpr ⟨hkeys, fun k v w hv hw => ?_⟩))
      · simpa only [List.map_map, Function.comp_def] using hes
      · simpa only [List.map_map, Function.comp_def] using hfs
      · exact ih k v w hv hw (hf _ hv) (hg _ hw (h k v w hv hw).isUndefined.2)

/-- **The canonical form of a stored value is that of the value.** -/
theorem JsonColumn.canonical_store (c : JsonColumn N) {v : JsVal N} {w : JsonValue N}
    (hw : c.store v = some w) (hv : WellKeyed v) (hs : Serializable v) :
    canonical w.val = canonical v := by
  rw [← canonical_stringified hs]
  exact (canonical_eq_of_sameJson (c.same v w hw) hv.stringified w.tree).symm

end AegCloudDfir
