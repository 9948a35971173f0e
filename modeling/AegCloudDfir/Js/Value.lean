import AegCloudDfir.Js.Quote

/-!
# JavaScript values

The values the canonical serializers walk over: what `typeof` and `instanceof`
let them distinguish. Objects are their own enumerable properties in
`Object.entries` order. Numbers stay abstract (`JsNumber`): all the serializers
do with a finite number is write its literal.
-/

namespace AegCloudDfir

/-- A character of a JSON number literal. -/
def IsNumberUnit (c : CodeUnit) : Prop :=
  IsDigit c ∨ c = 0x2D ∨ c = 0x2B ∨ c = 0x2E ∨ c = 0x65

instance (c : CodeUnit) : Decidable (IsNumberUnit c) := inferInstanceAs (Decidable (_ ∨ _))

/-- Finite JavaScript numbers with the literals `JSON.stringify` writes for them. -/
class JsNumber (N : Type) where
  /-- `JSON.stringify(n)` -/
  literal : N → JsString
  /-- different numbers have different literals -/
  literal_injective : Function.Injective literal
  /-- a literal is not empty -/
  literal_ne_nil : ∀ n, literal n ≠ []
  /-- a literal has digits, signs, a point and an exponent mark only -/
  literal_units : ∀ n, ∀ c ∈ literal n, IsNumberUnit c

/-- Integers, as the numbers up to `Number.MAX_SAFE_INTEGER` in absolute value
are written. -/
instance : JsNumber ℤ where
  literal := decimalInt
  literal_injective := decimalInt_injective
  literal_ne_nil := by
    rintro (n | n)
    · exact decimal_ne_nil n
    · exact List.cons_ne_nil _ _
  literal_units := by
    rintro (n | n) c hc
    · exact .inl (isDigit_of_mem_decimal hc)
    · rcases List.mem_cons.mp hc with rfl | hc
      · exact .inr (.inl rfl)
      · exact .inl (isDigit_of_mem_decimal hc)

/-- A JavaScript value. -/
inductive JsVal (N : Type) : Type where
  /-- `null` -/
  | null : JsVal N
  /-- `undefined` -/
  | undefined : JsVal N
  /-- a boolean -/
  | bool : Bool → JsVal N
  /-- a finite number -/
  | num : N → JsVal N
  /-- `NaN` and the infinities -/
  | nonFinite : JsVal N
  /-- a bigint -/
  | bigint : ℤ → JsVal N
  /-- a string -/
  | str : JsString → JsVal N
  /-- a `Date` by its time value in milliseconds; `none` is an invalid date -/
  | date : Option ℤ → JsVal N
  /-- a function or a symbol, by the name `typeof` gives it -/
  | opaqueType : JsString → JsVal N
  /-- an array without holes -/
  | arr : List (JsVal N) → JsVal N
  /-- any other object: its own enumerable string-keyed properties -/
  | obj : List (JsString × JsVal N) → JsVal N

namespace JsVal

variable {N : Type}

/-- Induction over a value through the elements of its arrays and the property
values of its objects. -/
@[elab_as_elim, induction_eliminator]
theorem inductionOn {motive : JsVal N → Prop} (v : JsVal N)
    (null : motive null) (undefined : motive undefined) (bool : ∀ b, motive (bool b))
    (num : ∀ n, motive (num n)) (nonFinite : motive nonFinite)
    (bigint : ∀ n, motive (bigint n)) (str : ∀ s, motive (str s))
    (date : ∀ t, motive (date t)) (opaqueType : ∀ s, motive (opaqueType s))
    (arr : ∀ xs, (∀ x ∈ xs, motive x) → motive (arr xs))
    (obj : ∀ es, (∀ e ∈ es, motive e.2) → motive (obj es)) : motive v := by
  refine @JsVal.rec N motive (fun xs => ∀ x ∈ xs, motive x)
    (fun es => ∀ e ∈ es, motive e.2) (fun e => motive e.2)
    null undefined bool num nonFinite bigint str date opaqueType arr obj ?_ ?_ ?_ ?_ ?_ v
  · intro x hx
    cases hx
  · intro x xs hx hxs y hy
    rcases List.mem_cons.mp hy with rfl | hy
    · exact hx
    · exact hxs y hy
  · intro e he
    cases he
  · intro e es he hes f hf
    rcases List.mem_cons.mp hf with rfl | hf
    · exact he
    · exact hes f hf
  · intro _ _ h
    exact h

/-- `v === undefined`. -/
def isUndefined : JsVal N → Bool
  | undefined => true
  | _ => false

/-- `v ?? d` takes `d`. -/
def isNullish : JsVal N → Bool
  | null => true
  | undefined => true
  | _ => false

end JsVal

end AegCloudDfir
