import AegCloudDfir.CanonicalJson

/-!
# The canonical form is canonical

`Json N` is the tree a canonical string spells: no undefined, no dates, keys in
the order they are written. `canonical` computes it from a value, `render` spells
it, and

* `serialize_eq` — both texts of the serializer return `render (canonical v)`,
* `readsBack_render` — the string determines the tree,
* `canonical_eq_iff` — the tree determines the value up to key order,

so that `canonicalJson` tells two values apart exactly when they differ as JSON.
-/

namespace AegCloudDfir

open PrefixCode

variable {N : Type}

/-- A JSON tree with the keys of its objects in a given order. -/
inductive Json (N : Type) : Type where
  /-- `null` -/
  | null : Json N
  /-- `true` or `false` -/
  | bool : Bool → Json N
  /-- a number -/
  | num : N → Json N
  /-- a string -/
  | str : JsString → Json N
  /-- an array -/
  | arr : List (Json N) → Json N
  /-- an object -/
  | obj : List (JsString × Json N) → Json N

namespace Json

/-- Induction over a tree through the elements and the property values. -/
@[elab_as_elim, induction_eliminator]
theorem inductionOn {motive : Json N → Prop} (j : Json N)
    (null : motive null) (bool : ∀ b, motive (bool b)) (num : ∀ n, motive (num n))
    (str : ∀ s, motive (str s)) (arr : ∀ xs, (∀ x ∈ xs, motive x) → motive (arr xs))
    (obj : ∀ es, (∀ e ∈ es, motive e.2) → motive (obj es)) : motive j := by
  refine @Json.rec N motive (fun xs => ∀ x ∈ xs, motive x) (fun es => ∀ e ∈ es, motive e.2)
    (fun e => motive e.2) null bool num str arr obj ?_ ?_ ?_ ?_ ?_ j
  · intro x hx
    cases hx
  · intro x xs hx hxs y hy
    rcases List.mem_cons.mp hy with rfl | hy
    · exact hx
    · exact hxs y hy
  · intro e he
    cases he
  · intro e es he hes f hf
    rcases List.mem_cons.mp hf with rfl | hf
    · exact he
    · exact hes f hf
  · intro _ _ h
    exact h

variable [JsNumber N]

mutual

/-- The text of a tree. -/
def render : Json N → JsString
  | .null => js "null"
  | .bool b => if b then js "true" else js "false"
  | .num n => JsNumber.literal n
  | .str s => quote s
  | .arr xs => renderArray (renderElements xs)
  | .obj es => renderObject (renderProperties es)

/-- The texts of the elements. -/
def renderElements : List (Json N) → List JsString
  | [] => []
  | x :: xs => render x :: renderElements xs

/-- The texts of the properties. -/
def renderProperties : List (JsString × Json N) → List JsString
  | [] => []
  | (k, v) :: es => renderEntry k (render v) :: renderProperties es

end

theorem renderElements_eq (xs : List (Json N)) : renderElements xs = xs.map render := by
  induction xs with
  | nil => rfl
  | cons x xs ih => rw [renderElements, ih, List.map_cons]

theorem renderProperties_eq (es : List (JsString × Json N)) :
    renderProperties es = es.map fun e => renderEntry e.1 (render e.2) := by
  induction es with
  | nil => rfl
  | cons e es ih => rw [renderProperties, ih, List.map_cons]

/-! ## The text determines the tree -/

/-- The kind of a tree. -/
def kind : Json N → ℕ
  | .null => 0
  | .bool _ => 1
  | .num _ => 2
  | .str _ => 3
  | .arr _ => 4
  | .obj _ => 5

/-- The kind of tree a text starting with this unit spells. -/
def kindOfUnit (c : CodeUnit) : ℕ :=
  if c = 0x6E then 0
  else if c = 0x74 ∨ c = 0x66 then 1
  else if c = 0x22 then 3
  else if c = 0x5B then 4
  else if c = 0x7B then 5
  else 2

theorem kindOfUnit_of_isNumberUnit {c : CodeUnit} (h : IsNumberUnit c) : kindOfUnit c = 2 := by
  have hne : ∀ d, ¬ IsNumberUnit d → c ≠ d := fun d hd hcd => hd (hcd ▸ h)
  simp only [kindOfUnit, hne 0x6E (by decide), hne 0x74 (by decide), hne 0x66 (by decide),
    hne 0x22 (by decide), hne 0x5B (by decide), hne 0x7B (by decide), if_false, or_self]

/-- The first unit of a text tells the kind of the tree. -/
theorem render_cons (j : Json N) : ∃ c t, render j = c :: t ∧ kindOfUnit c = kind j := by
  cases j with
  | null | str s | arr xs | obj es => exact ⟨_, _, rfl, rfl⟩
  | bool b => cases b <;> exact ⟨_, _, rfl, rfl⟩
  | num n =>
    rw [render]
    rcases hl : JsNumber.literal n with _ | ⟨c, t⟩
    · exact absurd hl (JsNumber.literal_ne_nil n)
    · refine ⟨c, t, rfl, kindOfUnit_of_isNumberUnit (JsNumber.literal_units n c ?_)⟩
      rw [hl]
      exact List.mem_cons_self ..

theorem kind_eq {i j : Json N} {r s : JsString} (h : render i ++ r = render j ++ s) :
    kind i = kind j := by
  obtain ⟨c, t, hi, hc⟩ := render_cons i
  obtain ⟨d, u, hj, hd⟩ := render_cons j
  rw [hi, hj, List.cons_append, List.cons_append, List.cons.injEq] at h
  rw [← hc, ← hd, h.1]

theorem head?_render (j : Json N) (t : JsString) : (render j ++ t).head? ≠ some 0x5D := by
  obtain ⟨c, u, hj, hc⟩ := render_cons j
  rw [hj, List.cons_append, List.head?_cons]
  rintro h
  rw [Option.some.inj h] at hc
  cases j with
  | num n =>
    -- the only kind the closing bracket is mistaken for by `kindOfUnit`
    rw [render] at hj
    have hunit := JsNumber.literal_units n c (hj ▸ List.mem_cons_self ..)
    rw [Option.some.inj h] at hunit
    exact absurd hunit (by decide)
  | _ => exact absurd hc (by simp only [kind]; decide)

/-- The symbols that may follow a value. -/
abbrev Closes : JsString → Prop := Stops fun c => c = 0x2C ∨ c = 0x5D ∨ c = 0x7D

theorem not_isNumberUnit_of_closes {r : JsString} (h : Closes r) :
    Stops (fun c => ¬ IsNumberUnit c) r := by
  intro c hc
  rcases h c hc with rfl | rfl | rfl <;> decide

/-- **The text determines the tree**, up to where the text ends. -/
theorem readsBack_render (j : Json N) : ReadsBack Closes render j := by
  induction j with
  | null =>
    intro i r s hr hs h
    cases i with
    | null => exact ⟨rfl, List.append_cancel_left h⟩
    | _ => exact absurd (kind_eq h) (by simp [kind])
  | bool b =>
    intro i r s hr hs h
    cases i with
    | bool c =>
      cases b <;> cases c
      · exact ⟨rfl, List.append_cancel_left h⟩
      · have hhead : (0x66 : CodeUnit) = 0x74 := (List.cons.inj h).1
        exact absurd hhead (by decide)
      · have hhead : (0x74 : CodeUnit) = 0x66 := (List.cons.inj h).1
        exact absurd hhead (by decide)
      · exact ⟨rfl, List.append_cancel_left h⟩
    | _ => exact absurd (kind_eq h) (by simp [kind])
  | num n =>
    intro i r s hr hs h
    cases i with
    | num m =>
      obtain ⟨rfl, hrs⟩ := readsBack_of_alphabet (K := Closes) JsNumber.literal_injective
        JsNumber.literal_units (fun _ => not_isNumberUnit_of_closes) n m r s hr hs h
      exact ⟨rfl, hrs⟩
    | _ => exact absurd (kind_eq h) (by simp [kind])
  | str t =>
    intro i r s hr hs h
    cases i with
    | str u =>
      obtain ⟨rfl, hrs⟩ := readsBack_quote t u r s trivial trivial h
      exact ⟨rfl, hrs⟩
    | _ => exact absurd (kind_eq h) (by simp [kind])
  | arr xs ih =>
    intro i r s hr hs h
    cases i with
    | arr ys =>
      simp only [render, renderElements_eq] at h
      have hsep : (0x2C : CodeUnit) ≠ 0x5D := by decide
      have hxs := (readsBack_joined hsep head?_render
        fun x hx => (ih x hx).mono fun t ht c hc => (ht c hc).imp_right .inl).prefixed (js "[")
      obtain ⟨rfl, hrs⟩ := hxs ys r s trivial trivial h
      exact ⟨rfl, hrs⟩
    | _ => exact absurd (kind_eq h) (by simp [kind])
  | obj es ih =>
    intro i r s hr hs h
    cases i with
    | obj fs =>
      simp only [render, renderProperties_eq] at h
      have hentry : ∀ e ∈ es, ReadsBack (Stops fun c => c = 0x2C ∨ c = 0x7D)
          (fun e : JsString × Json N => renderEntry e.1 (render e.2)) e := by
        rintro ⟨k, v⟩ he
        refine (readsBack_quote k).pair (((ih _ he).mono ?_).prefixed (js ":")) (by simp)
        exact fun t ht c hc => (ht c hc).imp_right .inr
      have hes := (readsBack_joined (by decide) (fun _ _ => by simp [renderEntry, quote])
        hentry).prefixed (js "\x7b")
      obtain ⟨rfl, hrs⟩ := hes fs r s trivial trivial h
      exact ⟨rfl, hrs⟩
    | _ => exact absurd (kind_eq h) (by simp [kind])

theorem render_injective : Function.Injective (render : Json N → JsString) :=
  fun j _ h => (readsBack_render j).inj stops_nil h

end Json

/-! ## The tree of a value -/

mutual

/-- The tree a serializer spells. What it throws on is sent to `null`. -/
def canonical : JsVal N → Json N
  | .null => .null
  | .str s => .str s
  | .num n => .num n
  | .bool b => .bool b
  | .bigint n => .str (decimalInt n)
  | .date (some t) => .str (toISOString t)
  | .arr xs => .arr (canonicalElements xs)
  | .obj es => .obj (sortByKey (canonicalEntries es))
  | .undefined => .null
  | .nonFinite => .null
  | .opaqueType _ => .null
  | .date none => .null

/-- The trees of the elements. -/
def canonicalElements : List (JsVal N) → List (Json N)
  | [] => []
  | v :: vs => canonical v :: canonicalElements vs

/-- The trees of the properties that are not undefined. -/
def canonicalEntries : List (JsString × JsVal N) → List (JsString × Json N)
  | [] => []
  | (k, v) :: es =>
    if v.isUndefined then canonicalEntries es else (k, canonical v) :: canonicalEntries es

end

theorem canonicalElements_eq (xs : List (JsVal N)) : canonicalElements xs = xs.map canonical := by
  induction xs with
  | nil => rfl
  | cons x xs ih => rw [canonicalElements, ih, List.map_cons]

theorem canonicalEntries_eq (es : List (JsString × JsVal N)) :
    canonicalEntries es =
      (es.filter fun e => !e.2.isUndefined).map fun e => (e.1, canonical e.2) := by
  induction es with
  | nil => rfl
  | cons e es ih =>
    obtain ⟨k, v⟩ := e
    rw [canonicalEntries, ih]
    rcases hu : v.isUndefined <;> simp [hu]

/-- The values a serializer does not throw on. -/
inductive Serializable : JsVal N → Prop where
  | null : Serializable .null
  | bool (b : Bool) : Serializable (.bool b)
  | num (n : N) : Serializable (.num n)
  | bigint (n : ℤ) : Serializable (.bigint n)
  | str (s : JsString) : Serializable (.str s)
  | date (t : ℤ) : Serializable (.date (some t))
  | arr {xs : List (JsVal N)} (h : ∀ x ∈ xs, x.isUndefined = false → Serializable x) :
    Serializable (.arr xs)
  | obj {es : List (JsString × JsVal N)}
    (h : ∀ e ∈ es, e.2.isUndefined = false → Serializable e.2) : Serializable (.obj es)

variable [JsNumber N]

/-- When no property throws, the rendered object is the sorted one. -/
theorem renderEntries_pure (es : List (JsString × Json N)) :
    renderEntries (es.map fun e => (e.1, pure e.2.render)) =
      pure (Json.render (.obj (sortByKey es))) := by
  have hsort : sortByKey (es.map fun e => (e.1, (pure e.2.render : Except JsError JsString))) =
      (sortByKey es).map fun e => (e.1, pure e.2.render) := by
    unfold sortByKey
    rw [List.map_insertionSort keyLe keyLe]
    exact fun a _ b _ => Iff.rfl
  have hmap : ∀ fs : List (JsString × Json N),
      (fs.map fun e => (e.1, (pure e.2.render : Except JsError JsString))).mapM
        (fun e => do
          let value ← e.2
          pure (renderEntry e.1 value)) =
        pure (fs.map fun e => renderEntry e.1 e.2.render) := by
    intro fs
    induction fs with
    | nil => rfl
    | cons e fs ih =>
      rw [List.map_cons, List.mapM_cons, ih]
      rfl
  rw [renderEntries, hsort, hmap, Json.render, Json.renderProperties_eq]
  rfl

namespace Evidence

/-- **What the serializer of `packages/evidence` returns.** -/
theorem serialize_eq {v : JsVal N} (h : Serializable v) :
    serialize v = pure (canonical v).render := by
  induction v with
  | undefined => cases h
  | nonFinite => cases h
  | opaqueType t => cases h
  | date t => cases h; rfl
  | null => rfl
  | bool b => rfl
  | num n => rfl
  | bigint n => rfl
  | str s => rfl
  | arr xs ih =>
    obtain _ | _ | _ | _ | _ | _ | h | _ := h
    have hxs : serializeElements xs = pure ((canonicalElements xs).map Json.render) := by
      induction xs with
      | nil => rfl
      | cons x xs ihxs =>
        have hrest := ihxs (fun y hy => ih y (List.mem_cons_of_mem _ hy))
          (fun y hy => h y (List.mem_cons_of_mem _ hy))
        rw [serializeElements, hrest, canonicalElements]
        rcases hu : x.isUndefined
        · rw [ih x (List.mem_cons_self ..) (h x (List.mem_cons_self ..) hu)]
          rfl
        · cases x <;> first | rfl | exact absurd hu Bool.false_ne_true
    rw [serialize, hxs, canonical, Json.render, Json.renderElements_eq]
    rfl
  | obj es ih =>
    obtain _ | _ | _ | _ | _ | _ | _ | h := h
    have hes : serializeEntries es =
        (canonicalEntries es).map fun e => (e.1, pure e.2.render) := by
      induction es with
      | nil => rfl
      | cons e es ihes =>
        obtain ⟨k, x⟩ := e
        have hrest := ihes (fun y hy => ih y (List.mem_cons_of_mem _ hy))
          (fun y hy => h y (List.mem_cons_of_mem _ hy))
        rw [serializeEntries, hrest, canonicalEntries]
        rcases hu : x.isUndefined
        · rw [ih (k, x) (List.mem_cons_self ..) (h (k, x) (List.mem_cons_self ..) hu)]
          rfl
        · rfl
    rw [serialize, hes, renderEntries_pure, canonical]

end Evidence

/-- **The copies agree**: on everything it does not throw on, the serializer of
`packages/database` returns what the one of `packages/evidence` returns. -/
theorem Database.serialize_eq {v : JsVal N} (h : Serializable v) :
    Database.serialize v = Evidence.serialize v := by
  induction v with
  | undefined => cases h
  | nonFinite => cases h
  | opaqueType t => cases h
  | date t =>
    cases h
    rw [Database.serialize, Evidence.serialize]
  | null | bool b | num n | bigint n | str s => rw [Database.serialize, Evidence.serialize]
  | arr xs ih =>
    obtain _ | _ | _ | _ | _ | _ | h | _ := h
    have hxs : Database.serializeElements xs = Evidence.serializeElements xs := by
      induction xs with
      | nil => rfl
      | cons x xs ihxs =>
        have hrest := ihxs (fun y hy => ih y (List.mem_cons_of_mem _ hy))
          (fun y hy => h y (List.mem_cons_of_mem _ hy))
        have hx := fun hu => ih x (List.mem_cons_self ..) (h x (List.mem_cons_self ..) hu)
        have hpart : (if x.isNullish then pure (js "null") else Database.serialize x) =
            if x.isUndefined then pure (js "null") else Evidence.serialize x := by
          cases x <;> simp only [JsVal.isNullish, JsVal.isUndefined, if_true, if_false,
            Bool.false_eq_true] at hx ⊢
          case null => rw [Evidence.serialize]
          all_goals exact hx trivial
        rw [Database.serializeElements, Evidence.serializeElements, hrest, hpart]
    rw [Database.serialize, Evidence.serialize, hxs]
  | obj es ih =>
    obtain _ | _ | _ | _ | _ | _ | _ | h := h
    have hes : Database.serializeEntries es = Evidence.serializeEntries es := by
      induction es with
      | nil => rfl
      | cons e es ihes =>
        obtain ⟨k, x⟩ := e
        have hrest := ihes (fun y hy => ih y (List.mem_cons_of_mem _ hy))
          (fun y hy => h y (List.mem_cons_of_mem _ hy))
        rw [Database.serializeEntries, Evidence.serializeEntries, hrest]
        rcases hu : x.isUndefined
        · rw [ih (k, x) (List.mem_cons_self ..) (h (k, x) (List.mem_cons_self ..) hu)]
        · rfl
    rw [Database.serialize, Evidence.serialize, hes]

/-! ## JSON up to key order -/

/-- Trees of null, booleans, numbers, strings, arrays and objects with distinct
keys. An array element or a property value may be undefined; the tree itself is
not. -/
inductive JsonTree : JsVal N → Prop where
  | null : JsonTree .null
  | bool (b : Bool) : JsonTree (.bool b)
  | num (n : N) : JsonTree (.num n)
  | str (s : JsString) : JsonTree (.str s)
  | arr {xs : List (JsVal N)} (h : ∀ x ∈ xs, x.isUndefined = false → JsonTree x) :
    JsonTree (.arr xs)
  | obj {es : List (JsString × JsVal N)} (hkeys : (es.map Prod.fst).Nodup)
    (h : ∀ e ∈ es, e.2.isUndefined = false → JsonTree e.2) : JsonTree (.obj es)

mutual

/-- Drop undefined properties and put `null` for undefined elements, at every
level. -/
def dropUndefined : JsVal N → JsVal N
  | .arr xs => .arr (dropElements xs)
  | .obj es => .obj (dropEntries es)
  | v => v

/-- `dropUndefined` on the elements of an array. -/
def dropElements : List (JsVal N) → List (JsVal N)
  | [] => []
  | v :: vs => (if v.isUndefined then .null else dropUndefined v) :: dropElements vs

/-- `dropUndefined` on the properties of an object. -/
def dropEntries : List (JsString × JsVal N) → List (JsString × JsVal N)
  | [] => []
  | (k, v) :: es => if v.isUndefined then dropEntries es else (k, dropUndefined v) :: dropEntries es

end

/-- Equality that forgets the order of keys: arrays agree element by element,
objects have the same keys and agree at each of them. -/
inductive SameJson : JsVal N → JsVal N → Prop where
  | null : SameJson .null .null
  | bool (b : Bool) : SameJson (.bool b) (.bool b)
  | num (n : N) : SameJson (.num n) (.num n)
  | str (s : JsString) : SameJson (.str s) (.str s)
  | arr {xs ys : List (JsVal N)} (hlen : xs.length = ys.length)
    (h : ∀ p ∈ xs.zip ys, SameJson p.1 p.2) : SameJson (.arr xs) (.arr ys)
  | obj {es fs : List (JsString × JsVal N)} (hkeys : ∀ k, k ∈ es.map Prod.fst ↔ k ∈ fs.map Prod.fst)
    (h : ∀ k v w, (k, v) ∈ es → (k, w) ∈ fs → SameJson v w) : SameJson (.obj es) (.obj fs)

omit [JsNumber N]

theorem JsonTree.serializable {v : JsVal N} (h : JsonTree v) : Serializable v := by
  induction v with
  | undefined => cases h
  | nonFinite => cases h
  | opaqueType t => cases h
  | date t => cases h
  | bigint n => cases h
  | null => exact .null
  | bool b => exact .bool b
  | num n => exact .num n
  | str s => exact .str s
  | arr xs ih =>
    cases h with
    | arr h => exact .arr fun x hx hu => ih x hx (h x hx hu)
  | obj es ih =>
    cases h with
    | obj hkeys h => exact .obj fun e he hu => ih e he (h e he hu)

/-- What an array element counts as: `undefined` is written `null`. -/
def orNull (v : JsVal N) : JsVal N := if v.isUndefined then .null else v

theorem canonical_orNull (v : JsVal N) : canonical (orNull v) = canonical v := by
  cases v <;> rfl

theorem JsonTree.orNull {v : JsVal N} (h : v.isUndefined = false → JsonTree v) :
    JsonTree (orNull v) := by
  cases v with
  | undefined => exact .null
  | _ => exact h rfl

theorem dropElements_eq (xs : List (JsVal N)) :
    dropElements xs = xs.map fun x => dropUndefined (orNull x) := by
  induction xs with
  | nil => rfl
  | cons x xs ih =>
    rw [dropElements, ih, List.map_cons]
    cases x <;> rfl

/-- The properties that are not undefined. -/
def defined (es : List (JsString × JsVal N)) : List (JsString × JsVal N) :=
  es.filter fun e => !e.2.isUndefined

theorem mem_defined {es : List (JsString × JsVal N)} {e : JsString × JsVal N} :
    e ∈ defined es ↔ e ∈ es ∧ e.2.isUndefined = false := by
  simp [defined]

theorem dropEntries_eq (es : List (JsString × JsVal N)) :
    dropEntries es = (defined es).map fun e => (e.1, dropUndefined e.2) := by
  induction es with
  | nil => rfl
  | cons e es ih =>
    obtain ⟨k, v⟩ := e
    rw [dropEntries, ih, defined, defined]
    rcases hu : v.isUndefined <;> simp [hu]

theorem nodup_defined {es : List (JsString × JsVal N)} (h : (es.map Prod.fst).Nodup) :
    ((defined es).map Prod.fst).Nodup :=
  h.sublist (List.filter_sublist.map Prod.fst)

/-- Two association lists, the second with distinct keys, each value sent through
`f` or `g`: the images have the same members exactly when the keys are the same and the
images agree at every key. -/
theorem mem_map_values_iff {α β γ : Type} {f : α → γ} {g : β → γ}
    {es : List (JsString × α)} {fs : List (JsString × β)}
    (hfs : (fs.map Prod.fst).Nodup) :
    (∀ e, e ∈ es.map (fun e => (e.1, f e.2)) ↔ e ∈ fs.map fun e => (e.1, g e.2)) ↔
      (∀ k, k ∈ es.map Prod.fst ↔ k ∈ fs.map Prod.fst) ∧
        ∀ k v w, (k, v) ∈ es → (k, w) ∈ fs → f v = g w := by
  have hes' : ∀ k c, (k, c) ∈ es.map (fun e => (e.1, f e.2)) ↔ ∃ v, (k, v) ∈ es ∧ f v = c := by
    intro k c
    simp
  have hfs' : ∀ k c, (k, c) ∈ fs.map (fun e => (e.1, g e.2)) ↔ ∃ w, (k, w) ∈ fs ∧ g w = c := by
    intro k c
    simp
  refine ⟨?_, ?_⟩
  · intro h
    have hkey : ∀ k, k ∈ es.map Prod.fst ↔ k ∈ fs.map Prod.fst := by
      intro k
      simp only [List.mem_map, Prod.exists, exists_and_right, exists_eq_right]
      refine ⟨?_, ?_⟩
      · rintro ⟨v, hv⟩
        obtain ⟨w, hw, -⟩ := (hfs' k (f v)).mp ((h _).mp ((hes' k (f v)).mpr ⟨v, hv, rfl⟩))
        exact ⟨w, hw⟩
      · rintro ⟨w, hw⟩
        obtain ⟨v, hv, -⟩ := (hes' k (g w)).mp ((h _).mpr ((hfs' k (g w)).mpr ⟨w, hw, rfl⟩))
        exact ⟨v, hv⟩
    refine ⟨hkey, fun k v w hv hw => ?_⟩
    obtain ⟨w', hw', heq⟩ := (hfs' k (f v)).mp ((h _).mp ((hes' k (f v)).mpr ⟨v, hv, rfl⟩))
    rw [← heq, eq_of_key_eq hfs hw hw']
  · rintro ⟨hkey, hval⟩ ⟨k, c⟩
    rw [hes', hfs']
    refine ⟨?_, ?_⟩
    · rintro ⟨v, hv, rfl⟩
      obtain ⟨⟨l, w⟩, hw, rfl⟩ := List.mem_map.mp ((hkey k).mp (List.mem_map_of_mem hv))
      exact ⟨w, hw, (hval _ v w hv hw).symm⟩
    · rintro ⟨w, hw, rfl⟩
      obtain ⟨⟨l, v⟩, hv, rfl⟩ := List.mem_map.mp ((hkey k).mpr (List.mem_map_of_mem hw))
      exact ⟨v, hv, hval _ v w hv hw⟩

theorem sameJson_arr_iff {xs ys : List (JsVal N)} :
    SameJson (.arr xs) (.arr ys) ↔
      xs.length = ys.length ∧ ∀ p ∈ xs.zip ys, SameJson p.1 p.2 := by
  refine ⟨?_, ?_⟩
  · intro h
    cases h with
    | arr hlen h => exact ⟨hlen, h⟩
  · rintro ⟨hlen, h⟩
    exact .arr hlen h

theorem sameJson_obj_iff {es fs : List (JsString × JsVal N)} :
    SameJson (.obj es) (.obj fs) ↔
      (∀ k, k ∈ es.map Prod.fst ↔ k ∈ fs.map Prod.fst) ∧
        ∀ k v w, (k, v) ∈ es → (k, w) ∈ fs → SameJson v w := by
  refine ⟨?_, ?_⟩
  · intro h
    cases h with
    | obj hkeys h => exact ⟨hkeys, h⟩
  · rintro ⟨hkeys, h⟩
    exact .obj hkeys h

/-- Two arrays have the same trees exactly when their elements do. -/
theorem map_canonical_eq_iff {xs ys : List (JsVal N)} :
    xs.map canonical = ys.map canonical ↔
      xs.length = ys.length ∧ ∀ p ∈ xs.zip ys, canonical p.1 = canonical p.2 := by
  rw [← List.forall₂_eq_eq_eq, List.forall₂_map_left_iff, List.forall₂_map_right_iff,
    List.forall₂_iff_zip]
  exact and_congr_right fun _ => ⟨fun h p hp => h hp, fun h _ _ hp => h _ hp⟩

theorem canonical_null_iff {w : JsVal N} (hw : JsonTree w) :
    canonical .null = canonical w ↔ SameJson (dropUndefined .null) (dropUndefined w) := by
  cases hw with
  | null => exact iff_of_true rfl .null
  | _ => exact iff_of_false (by simp [canonical]) (by rintro ⟨⟩)

/-- **The tree determines the value up to key order.** -/
theorem canonical_eq_iff {v w : JsVal N} (hv : JsonTree v) (hw : JsonTree w) :
    canonical v = canonical w ↔ SameJson (dropUndefined v) (dropUndefined w) := by
  induction v generalizing w with
  | undefined => cases hv
  | nonFinite => cases hv
  | opaqueType t => cases hv
  | date t => cases hv
  | bigint n => cases hv
  | null => exact canonical_null_iff hw
  | bool b =>
    cases hw with
    | bool c =>
      simp only [canonical, dropUndefined, Json.bool.injEq]
      exact ⟨by rintro rfl; exact .bool b, by rintro ⟨⟩; rfl⟩
    | _ => exact iff_of_false (by simp [canonical]) (by rintro ⟨⟩)
  | num n =>
    cases hw with
    | num m =>
      simp only [canonical, dropUndefined, Json.num.injEq]
      exact ⟨by rintro rfl; exact .num n, by rintro ⟨⟩; rfl⟩
    | _ => exact iff_of_false (by simp [canonical]) (by rintro ⟨⟩)
  | str s =>
    cases hw with
    | str t =>
      simp only [canonical, dropUndefined, Json.str.injEq]
      exact ⟨by rintro rfl; exact .str s, by rintro ⟨⟩; rfl⟩
    | _ => exact iff_of_false (by simp [canonical]) (by rintro ⟨⟩)
  | arr xs ih =>
    cases hw with
    | arr hys =>
      rename_i ys
      obtain _ | _ | _ | _ | hxs | _ := hv
      simp only [canonical, dropUndefined, Json.arr.injEq, canonicalElements_eq,
        dropElements_eq, map_canonical_eq_iff, sameJson_arr_iff, List.length_map]
      refine and_congr_right fun _ => ?_
      rw [List.zip_map, List.forall_mem_map]
      refine forall₂_congr fun p hp => ?_
      have hx := (List.of_mem_zip hp).1
      have hy := JsonTree.orNull (hys p.2 (List.of_mem_zip hp).2)
      rw [← canonical_orNull p.1, ← canonical_orNull p.2]
      -- an undefined element counts as `null` on both sides
      rcases hu : p.1.isUndefined
      · have hp1 : orNull p.1 = p.1 := by simp [orNull, hu]
        simp only [Prod.map, hp1]
        exact ih p.1 hx (hxs p.1 hx hu) hy
      · have hp1 : orNull p.1 = .null := by simp [orNull, hu]
        simp only [Prod.map, hp1]
        exact canonical_null_iff hy
    | _ => exact iff_of_false (by simp [canonical]) (by rintro ⟨⟩)
  | obj es ih =>
    cases hw with
    | obj hfs hg =>
      rename_i fs
      obtain _ | _ | _ | _ | _ | ⟨hes, h⟩ := hv
      have hdes := nodup_defined hes
      have hdfs := nodup_defined hfs
      have hkey : ∀ gs : List (JsString × JsVal N),
          (gs.map fun e => (e.1, canonical e.2)).map Prod.fst = gs.map Prod.fst := by
        intro gs
        simp
      simp only [canonical, dropUndefined, Json.obj.injEq, canonicalEntries_eq, dropEntries_eq]
      rw [← defined, ← defined, sortByKey_eq_iff (by rwa [hkey]) (by rwa [hkey]),
        mem_map_values_iff hdfs, sameJson_obj_iff]
      simp only [List.map_map, Function.comp_def]
      refine and_congr_right fun _ => ?_
      refine ⟨?_, ?_⟩
      · intro hc k v w hv hw
        obtain ⟨⟨l, x⟩, hx, hlx⟩ := List.mem_map.mp hv
        obtain ⟨⟨m, y⟩, hy, hmy⟩ := List.mem_map.mp hw
        cases hlx
        cases hmy
        obtain ⟨hxe, hxu⟩ := mem_defined.mp hx
        obtain ⟨hyf, hyu⟩ := mem_defined.mp hy
        exact (ih _ hxe (h _ hxe hxu) (hg _ hyf hyu)).mp (hc _ x y hx hy)
      · intro hs k v w hv hw
        obtain ⟨hve, hvu⟩ := mem_defined.mp hv
        obtain ⟨hwf, hwu⟩ := mem_defined.mp hw
        exact (ih _ hve (h _ hve hvu) (hg _ hwf hwu)).mpr
          (hs k _ _ (List.mem_map.mpr ⟨_, hv, rfl⟩) (List.mem_map.mpr ⟨_, hw, rfl⟩))
    | _ => exact iff_of_false (by simp [canonical]) (by rintro ⟨⟩)

variable [JsNumber N]

/-- **`canonicalJson` is a canonical form.** On JSON trees none of the three
copies throws, they return the same string, and two trees get the same string
exactly when they are the same JSON: undefined properties dropped, undefined
elements replaced by null, key order forgotten. -/
theorem canonicalJson_canonical {v w : JsVal N} (hv : JsonTree v) (hw : JsonTree w) :
    (∃ s, Evidence.canonicalJson v = .ok s ∧ Production.canonicalJson v = .ok s ∧
      Database.canonicalJson v = .ok s) ∧
    (Evidence.canonicalJson v = Evidence.canonicalJson w ↔
      SameJson (dropUndefined v) (dropUndefined w)) := by
  have hev := Evidence.serialize_eq hv.serializable
  have hew := Evidence.serialize_eq hw.serializable
  refine ⟨⟨(canonical v).render, hev, hev, ?_⟩, ?_⟩
  · exact (Database.serialize_eq hv.serializable).trans hev
  · rw [← canonical_eq_iff hv hw, Evidence.canonicalJson, Evidence.canonicalJson, hev, hew]
    exact ⟨fun h => Json.render_injective (Except.ok.inj h), fun h => by rw [h]⟩

/-- `\x7bb: 1, a: [undefined], c: undefined\x7d` and `\x7ba: [null], b: 1\x7d`. -/
theorem canonicalJson_canonical_example :
    (∃ s, Evidence.canonicalJson (N := ℤ) (.obj [(js "b", .num 1), (js "a", .arr [.undefined]),
        (js "c", .undefined)]) = .ok s ∧
      Production.canonicalJson (N := ℤ) (.obj [(js "b", .num 1), (js "a", .arr [.undefined]),
        (js "c", .undefined)]) = .ok s ∧
      Database.canonicalJson (N := ℤ) (.obj [(js "b", .num 1), (js "a", .arr [.undefined]),
        (js "c", .undefined)]) = .ok s) ∧
    (Evidence.canonicalJson (N := ℤ) (.obj [(js "b", .num 1), (js "a", .arr [.undefined]),
        (js "c", .undefined)]) =
      Evidence.canonicalJson (N := ℤ) (.obj [(js "a", .arr [.null]), (js "b", .num 1)]) ↔
      SameJson (N := ℤ) (.obj [(js "b", .num 1), (js "a", .arr [.null])])
        (.obj [(js "a", .arr [.null]), (js "b", .num 1)])) := by
  have hv : JsonTree (N := ℤ)
      (.obj [(js "b", .num 1), (js "a", .arr [.undefined]), (js "c", .undefined)]) := by
    refine .obj (by decide) ?_
    intro e he hu
    simp only [List.mem_cons, List.not_mem_nil, or_false] at he
    rcases he with rfl | rfl | rfl
    · exact .num 1
    · refine .arr fun x hx hxu => ?_
      cases List.mem_singleton.mp hx
      cases hxu
    · cases hu
  have hw : JsonTree (N := ℤ) (.obj [(js "a", .arr [.null]), (js "b", .num 1)]) := by
    refine .obj (by decide) ?_
    intro e he hu
    simp only [List.mem_cons, List.not_mem_nil, or_false] at he
    rcases he with rfl | rfl
    · refine .arr fun x hx hxu => ?_
      cases List.mem_singleton.mp hx
      exact .null
    · exact .num 1
  exact canonicalJson_canonical hv hw

end AegCloudDfir
