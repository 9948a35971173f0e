import Mathlib.Data.List.Sort
import AegCloudDfir.Js.Date
import AegCloudDfir.Js.Value

/-!
# `canonicalJson`

The deterministic serializer that manifests, production manifests and the audit
chain are hashed through. The repository has three copies on purpose (the
packages must not depend on each other): `packages/evidence`,
`packages/production` and `packages/database`. The first two are the same text;
the third differs in how it treats `undefined` array elements and invalid dates
and in its error texts.

The output is a function of an abstract JSON tree (`Json`, what is left of a
value once undefined properties are gone and keys are sorted), and that tree can
be read back from the output, so two values have the same canonical form exactly
when they are the same JSON up to key order.
-/

namespace AegCloudDfir

open PrefixCode

variable {N : Type} [JsNumber N]

/-- What a serializer throws. -/
inductive JsError : Type where
  /-- a `TypeError` with its message -/
  | typeError : JsString → JsError
  /-- a `RangeError` with its message -/
  | rangeError : JsString → JsError
  deriving DecidableEq

/-- The order `(a < b ? -1 : a > b ? 1 : 0)` sorts keys by: code unit by code unit. -/
def keyLe {α : Type} (a b : JsString × α) : Prop := ¬ b.1 < a.1

instance {α : Type} : DecidableRel (@keyLe α) := fun _ _ => inferInstanceAs (Decidable (¬ _))

/-- `entries.sort(([a], [b]) => ...)`. -/
def sortByKey {α : Type} (es : List (JsString × α)) : List (JsString × α) :=
  es.insertionSort keyLe

theorem keyLe_iff {α : Type} {a b : JsString × α} : keyLe a b ↔ a.1 ≤ b.1 := not_lt

instance {α : Type} : Std.Total (@keyLe α) :=
  ⟨fun a b => by simpa only [keyLe_iff] using le_total a.1 b.1⟩

instance {α : Type} : IsTrans (JsString × α) keyLe :=
  ⟨fun _ _ _ hab hbc => keyLe_iff.mpr (le_trans (keyLe_iff.mp hab) (keyLe_iff.mp hbc))⟩

/-- A property is its key in a list whose keys are distinct. -/
theorem eq_of_key_eq {α : Type} {es : List (JsString × α)} (h : (es.map Prod.fst).Nodup)
    {k : JsString} {v w : α} (hv : (k, v) ∈ es) (hw : (k, w) ∈ es) : v = w :=
  congrArg Prod.snd (List.inj_on_of_nodup_map h hv hw rfl)

/-- **Sorting by distinct keys forgets the order and nothing else.** -/
theorem sortByKey_eq_iff {α : Type} {es fs : List (JsString × α)}
    (hes : (es.map Prod.fst).Nodup) (hfs : (fs.map Prod.fst).Nodup) :
    sortByKey es = sortByKey fs ↔ ∀ e, e ∈ es ↔ e ∈ fs := by
  refine ⟨?_, ?_⟩
  · intro h e
    exact (List.mem_insertionSort keyLe).symm.trans
      ((iff_of_eq (congrArg (e ∈ ·) h)).trans (List.mem_insertionSort keyLe))
  · intro h
    have hperm : es.Perm fs := (List.perm_ext_iff_of_nodup hes.of_map hfs.of_map).mpr h
    refine List.Perm.eq_of_pairwise ?_ (List.pairwise_insertionSort keyLe es)
      (List.pairwise_insertionSort keyLe fs)
      ((List.perm_insertionSort keyLe es).trans
        (hperm.trans (List.perm_insertionSort keyLe fs).symm))
    rintro ⟨k, v⟩ ⟨l, w⟩ hv hw hkl hlk
    -- equal keys, and both properties are among `fs`
    obtain rfl : k = l := le_antisymm (keyLe_iff.mp hkl) (keyLe_iff.mp hlk)
    have hv' := (h _).mp ((List.mem_insertionSort keyLe).mp hv)
    rw [eq_of_key_eq hfs hv' ((List.mem_insertionSort keyLe).mp hw)]

/-- One property of the output: the quoted key, a colon, the rendered value. -/
def renderEntry (key value : JsString) : JsString := quote key ++ (js ":" ++ value)

/-- `[a,b,...]`. -/
def renderArray (parts : List JsString) : JsString := js "[" ++ (joinWith (js ",") parts ++ js "]")

/-- `\x7b"k":v,...\x7d`. -/
def renderObject (parts : List JsString) : JsString :=
  js "\x7b" ++ (joinWith (js ",") parts ++ js "\x7d")

/-- The rendered properties in key order; the first one whose value threw throws. -/
def renderEntries (entries : List (JsString × Except JsError JsString)) :
    Except JsError JsString := do
  let parts ← (sortByKey entries).mapM fun e => do
    let value ← e.2
    pure (renderEntry e.1 value)
  pure (renderObject parts)

/-! ## `packages/evidence` and `packages/production` -/

namespace Evidence

mutual

/-- `serialize` of `packages/evidence/src/canonical.ts`. Property values are
serialized before sorting, which changes nothing: a throw surfaces in key order. -/
def serialize : JsVal N → Except JsError JsString
  | .null => pure (js "null")
  | .str s => pure (quote s)
  | .num n => pure (JsNumber.literal n)
  | .nonFinite =>
    throw (.typeError (js "canonicalJson: non-finite number is not serializable"))
  | .bool b => pure (if b then js "true" else js "false")
  | .bigint n => pure (quote (decimalInt n))
  | .undefined => throw (.typeError (js "canonicalJson: unsupported type: undefined"))
  | .opaqueType t => throw (.typeError (js "canonicalJson: unsupported type: " ++ t))
  | .date none => throw (.typeError (js "canonicalJson: invalid Date"))
  | .date (some t) => pure (quote (toISOString t))
  | .arr xs => do
    let parts ← serializeElements xs
    pure (renderArray parts)
  | .obj es => renderEntries (serializeEntries es)

/-- `value.map((v) => (v === undefined ? 'null' : serialize(v)))`. -/
def serializeElements : List (JsVal N) → Except JsError (List JsString)
  | [] => pure []
  | v :: vs => do
    let part ← (if v.isUndefined then pure (js "null") else serialize v)
    let parts ← serializeElements vs
    pure (part :: parts)

/-- `Object.entries(value).filter(([, v]) => v !== undefined)`, with every value serialized. -/
def serializeEntries : List (JsString × JsVal N) → List (JsString × Except JsError JsString)
  | [] => []
  | (k, v) :: es =>
    if v.isUndefined then serializeEntries es else (k, serialize v) :: serializeEntries es

end

/-- `canonicalJson` of `packages/evidence/src/canonical.ts`. -/
def canonicalJson (v : JsVal N) : Except JsError JsString := serialize v

end Evidence

/-- `canonicalJson` of `packages/production/src/canonical.ts`, the same text as
the one of `packages/evidence`. -/
def Production.canonicalJson (v : JsVal N) : Except JsError JsString := Evidence.serialize v

/-! ## `packages/database` -/

namespace Database

mutual

/-- `serialize` of `packages/database/src/audit.ts`. -/
def serialize : JsVal N → Except JsError JsString
  | .null => pure (js "null")
  | .str s => pure (quote s)
  | .num n => pure (JsNumber.literal n)
  | .nonFinite => throw (.typeError (js "non-finite number in audit payload"))
  | .bool b => pure (if b then js "true" else js "false")
  | .bigint n => pure (quote (decimalInt n))
  | .undefined => throw (.typeError (js "unsupported type in audit payload: undefined"))
  | .opaqueType t => throw (.typeError (js "unsupported type in audit payload: " ++ t))
  | .date none => throw (.rangeError (js "Invalid time value"))
  | .date (some t) => pure (quote (toISOString t))
  | .arr xs => do
    let parts ← serializeElements xs
    pure (renderArray parts)
  | .obj es => renderEntries (serializeEntries es)

/-- `value.map((v) => serialize(v ?? null))`; `serialize(null)` is `null`. -/
def serializeElements : List (JsVal N) → Except JsError (List JsString)
  | [] => pure []
  | v :: vs => do
    let part ← (if v.isNullish then pure (js "null") else serialize v)
    let parts ← serializeElements vs
    pure (part :: parts)

/-- `Object.entries(value).filter(([, v]) => v !== undefined)`, with every value serialized. -/
def serializeEntries : List (JsString × JsVal N) → List (JsString × Except JsError JsString)
  | [] => []
  | (k, v) :: es =>
    if v.isUndefined then serializeEntries es else (k, serialize v) :: serializeEntries es

end

/-- `canonicalJson` of `packages/database/src/audit.ts`. -/
def canonicalJson (v : JsVal N) : Except JsError JsString := serialize v

end Database

end AegCloudDfir
