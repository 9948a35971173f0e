import AegCloudDfir.CanonicalForm
import AegCloudDfir.Lib.Traversal
import Mathlib.Data.Rat.Defs

/-!
# Schemas

A schema reads a JSON value, or finds that it does not fit. What it reads has the defaults
filled in that the value leaves out, and nothing that the schema does not know. Numbers are
rational numbers here, as every number in a JSON text is one.

* `Schema` — a reader of a property, which may be missing; `string`, `boolean`, `integer`,
  `oneOf`, `array` are those of single values, `optional` and `withDefault` say what becomes
  of a missing one.
* `Rereads` — what a schema has read, it reads again if it is written down; strings and
  integers have this property, and `withDefault` and `array` keep it.
-/

namespace AegCloudDfir.Js

/-- A JSON value. -/
abbrev Document : Type := Json ℚ

/-- A reader of a property that may be missing. -/
abbrev Schema (α : Type) : Type := Option Document → Option α

namespace Schema

variable {α : Type}

/-- The property of an object; nothing else has properties that a schema reads. -/
def property (name : JsString) : Document → Option Document
  | .obj entries => entries.lookup name
  | _ => none

/-- `z.object`: only objects are read. -/
def ofObject (read : Document → Option α) : Schema α
  | some (.obj entries) => read (.obj entries)
  | _ => none

/-- `z.string()`, with what is checked of it -/
def string (check : JsString → Bool) : Schema JsString
  | some (.str s) => if check s then some s else none
  | _ => none

/-- `z.boolean()` -/
def boolean : Schema Bool
  | some (.bool b) => some b
  | _ => none

/-- `z.number().int().min(low).max(high)` -/
def integer (low high : ℤ) : Schema ℤ
  | some (.num n) => if n.den = 1 ∧ low ≤ n.num ∧ n.num ≤ high then some n.num else none
  | _ => none

/-- `z.enum`, and `z.literal` -/
def oneOf (values : List (JsString × α)) : Schema α
  | some (.str s) => values.lookup s
  | _ => none

/-- `z.array(element).min(atLeast)` -/
def array (element : Schema α) (atLeast : ℕ) : Schema (List α)
  | some (.arr vs) => if atLeast ≤ vs.length then vs.mapM fun v => element (some v) else none
  | _ => none

/-- `.optional()` -/
def optional (schema : Schema α) : Schema (Option α)
  | none => some none
  | some v => (schema (some v)).map some

/-- `.default(value)` -/
def withDefault (schema : Schema α) (value : α) : Schema α
  | none => some value
  | some v => schema (some v)

/-- What the schema has read, it reads again if it is written down. -/
def Rereads (schema : Schema α) (write : α → Document) : Prop :=
  ∀ v a, schema v = some a → schema (some (write a)) = some a

/-! ## What is read again -/

theorem rereads_string (check : JsString → Bool) : Rereads (string check) .str := by
  intro v s h
  unfold string at h
  split at h
  · split_ifs at h with hcheck
    cases h
    exact if_pos hcheck
  · cases h

theorem rereads_integer (low high : ℤ) : Rereads (integer low high) fun n => .num n := by
  intro v n h
  unfold integer at h
  split at h
  · split_ifs at h with hcheck
    cases h
    exact if_pos ⟨rfl, hcheck.2⟩
  · cases h

theorem Rereads.withDefault {schema : Schema α} {write : α → Document} (h : Rereads schema write)
    {value : α} (hvalue : schema (some (write value)) = some value) :
    Rereads (schema.withDefault value) write := by
  intro v a hv
  cases v with
  | none =>
    cases hv
    exact hvalue
  | some v => exact h _ a hv

/-- An array whose elements are read again is read again. -/
theorem Rereads.array {schema : Schema α} {write : α → Document} (h : Rereads schema write)
    (atLeast : ℕ) : Rereads (schema.array atLeast) fun as => .arr (as.map write) := by
  intro v as hv
  unfold Schema.array at hv
  split at hv
  · next vs =>
    split_ifs at hv with hlength
    have hread := Traversal.mapM_eq_some_iff_forall₂.mp hv
    refine (if_pos ?_).trans (Traversal.mapM_eq_some_iff_forall₂.mpr ?_)
    · rw [List.length_map, ← hread.length_eq]
      exact hlength
    · rw [List.forall₂_map_left_iff]
      clear hlength hv
      induction hread with
      | nil => exact .nil
      | cons ha _ ih => exact .cons (h _ _ ha) ih
  · cases hv

theorem ofObject_eq_some {read : Document → Option α} {v : Option Document} {a : α}
    (h : ofObject read v = some a) : ∃ object, read object = some a := by
  unfold ofObject at h
  split at h
  · exact ⟨_, h⟩
  · cases h

/-- A missing property stays missing. -/
theorem optional_eq_some {schema : Schema α} {v : Option Document} {a : Option α} :
    schema.optional v = some a ↔
      (v = none ∧ a = none) ∨ ∃ w b, v = some w ∧ a = some b ∧ schema (some w) = some b := by
  cases v with
  | none =>
    refine ⟨fun h => ?_, ?_⟩
    · cases h
      exact .inl ⟨rfl, rfl⟩
    · rintro (⟨-, rfl⟩ | ⟨w, b, h, -⟩)
      · rfl
      · cases h
  | some w =>
    refine ⟨fun h => ?_, ?_⟩
    · obtain ⟨b, hb, rfl⟩ := Option.map_eq_some_iff.mp h
      exact .inr ⟨w, b, rfl, rfl, hb⟩
    · rintro (⟨h, -⟩ | ⟨w', b, h, rfl, hb⟩)
      · cases h
      · cases h
        exact Option.map_eq_some_iff.mpr ⟨b, hb, rfl⟩

end Schema

end AegCloudDfir.Js
