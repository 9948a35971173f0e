import AegCloudDfir.Js.Text

/-!
# String literals of `JSON.stringify`

`JSON.stringify` walks a string by code points: a high surrogate followed by a
low one is one code point and is copied, a surrogate without its partner is
escaped, and so are control characters, the quote and the backslash. The
literal is self-delimiting: `readsBack_quote`.
-/

namespace AegCloudDfir

open PrefixCode

/-- `0xD800` to `0xDBFF`. -/
def IsHighSurrogate (c : CodeUnit) : Prop := 0xD800 ≤ c ∧ c ≤ 0xDBFF

/-- `0xDC00` to `0xDFFF`. -/
def IsLowSurrogate (c : CodeUnit) : Prop := 0xDC00 ≤ c ∧ c ≤ 0xDFFF

instance (c : CodeUnit) : Decidable (IsHighSurrogate c) := inferInstanceAs (Decidable (_ ∧ _))

instance (c : CodeUnit) : Decidable (IsLowSurrogate c) := inferInstanceAs (Decidable (_ ∧ _))

/-- One code point of a string: a single unit (possibly a lone surrogate) or a
surrogate pair. -/
inductive CodePoint : Type where
  /-- one unit -/
  | unit : CodeUnit → CodePoint
  /-- a high surrogate and the low surrogate after it -/
  | pair : (hi lo : CodeUnit) → IsHighSurrogate hi → IsLowSurrogate lo → CodePoint

/-- The code units of a code point. -/
def CodePoint.units : CodePoint → JsString
  | .unit c => [c]
  | .pair hi lo _ _ => [hi, lo]

/-- The code points of a string, left to right. -/
def codePoints : JsString → List CodePoint
  | [] => []
  | [c] => [.unit c]
  | c :: d :: rest =>
    if h : IsHighSurrogate c ∧ IsLowSurrogate d then
      .pair c d h.1 h.2 :: codePoints rest
    else
      .unit c :: codePoints (d :: rest)

theorem units_codePoints (s : JsString) : (codePoints s).flatMap CodePoint.units = s := by
  fun_induction codePoints s with
  | case1 => rfl
  | case2 c => rfl
  | case3 c d rest h ih | case4 c d rest h ih => simp [CodePoint.units, ih]

theorem codePoints_injective : Function.Injective codePoints :=
  Function.LeftInverse.injective units_codePoints

/-! ## Escapes -/

/-- The two-character escapes: `\b`, `\t`, `\n`, `\f`, `\r`, `\"` and `\\`. -/
def shortEscape (c : CodeUnit) : Option CodeUnit :=
  if c = 0x08 then some 0x62
  else if c = 0x09 then some 0x74
  else if c = 0x0A then some 0x6E
  else if c = 0x0C then some 0x66
  else if c = 0x0D then some 0x72
  else if c = 0x22 then some 0x22
  else if c = 0x5C then some 0x5C
  else none

/-- A lower-case hexadecimal digit. -/
def hexDigit (n : ℕ) : CodeUnit := Fin.ofNat 0x10000 (if n < 10 then 0x30 + n else 0x57 + n)

/-- Four hexadecimal digits. -/
def hex4 (c : CodeUnit) : JsString :=
  [hexDigit (c.val / 4096), hexDigit (c.val / 256 % 16), hexDigit (c.val / 16 % 16),
    hexDigit (c.val % 16)]

/-- What `JSON.stringify` writes for one code point. -/
def quoteCodePoint : CodePoint → JsString
  | .pair hi lo _ _ => [hi, lo]
  | .unit c =>
    match shortEscape c with
    | some e => [0x5C, e]
    | none =>
      if c < 0x20 ∨ IsHighSurrogate c ∨ IsLowSurrogate c then
        0x5C :: 0x75 :: hex4 c
      else
        [c]

/-- `JSON.stringify(s)` for a string. -/
def quote (s : JsString) : JsString :=
  0x22 :: ((codePoints s).flatMap quoteCodePoint ++ [0x22])

/-! ## Reading a literal back -/

/-- The inverse of `shortEscape`. -/
def shortUnescape (e : CodeUnit) : Option CodeUnit :=
  if e = 0x62 then some 0x08
  else if e = 0x74 then some 0x09
  else if e = 0x6E then some 0x0A
  else if e = 0x66 then some 0x0C
  else if e = 0x72 then some 0x0D
  else if e = 0x22 then some 0x22
  else if e = 0x5C then some 0x5C
  else none

/-- The value of a hexadecimal digit. -/
def hexValue (d : CodeUnit) : ℕ := if d.val < 0x3A then d.val - 0x30 else d.val - 0x57

/-- Read one code point off a literal. -/
def unquoteCodePoint : JsString → Option (CodePoint × JsString)
  | [] => none
  | [c] => some (.unit c, [])
  | c :: d :: rest =>
    if c = 0x5C then
      match shortUnescape d with
      | some u => some (.unit u, rest)
      | none =>
        match rest with
        | a :: b :: e :: f :: rest' =>
          some (.unit (Fin.ofNat _
            (hexValue a * 4096 + hexValue b * 256 + hexValue e * 16 + hexValue f)), rest')
        | _ => none
    else if h : IsHighSurrogate c ∧ IsLowSurrogate d then
      some (.pair c d h.1 h.2, rest)
    else
      some (.unit c, d :: rest)

theorem shortUnescape_of_shortEscape {c e : CodeUnit} (h : shortEscape c = some e) :
    shortUnescape e = some c := by
  unfold shortEscape at h
  split_ifs at h with h1 h2 h3 h4 h5 h6 h7 <;>
    (obtain rfl := Option.some.inj h; subst_vars; rfl)

theorem hexValue_hexDigit : ∀ {n : ℕ}, n < 16 → hexValue (hexDigit n) = n := by
  decide

theorem hexValue_hex4 (c : CodeUnit) :
    (Fin.ofNat 0x10000 (hexValue (hexDigit (c.val / 4096)) * 4096 +
      hexValue (hexDigit (c.val / 256 % 16)) * 256 +
      hexValue (hexDigit (c.val / 16 % 16)) * 16 + hexValue (hexDigit (c.val % 16)))) = c := by
  have hc := c.isLt
  rw [hexValue_hexDigit (by omega), hexValue_hexDigit (by omega),
    hexValue_hexDigit (by omega), hexValue_hexDigit (by omega)]
  apply Fin.ext
  simp only [Fin.ofNat]
  omega

theorem not_backslash_of_shortEscape_eq_none {c : CodeUnit} (h : shortEscape c = none) :
    c ≠ 0x5C ∧ c ≠ 0x22 := by
  constructor <;> rintro rfl <;> exact absurd h (by decide)

theorem not_backslash_of_isHighSurrogate {c : CodeUnit} (h : IsHighSurrogate c) :
    c ≠ 0x5C ∧ c ≠ 0x22 := by
  constructor <;> rintro rfl <;> exact absurd h (by decide)

/-- One code point reads back before anything: a copied unit is never a
surrogate, so the next unit cannot be taken for its partner. -/
theorem unquoteCodePoint_quote (p : CodePoint) (r : JsString) :
    unquoteCodePoint (quoteCodePoint p ++ r) = some (p, r) := by
  cases p with
  | pair hi lo hhi hlo =>
    simp [quoteCodePoint, unquoteCodePoint, (not_backslash_of_isHighSurrogate hhi).1, hhi, hlo]
  | unit c =>
    rw [quoteCodePoint]
    rcases hs : shortEscape c with _ | e
    · have hc := (not_backslash_of_shortEscape_eq_none hs).1
      simp only
      split_ifs with hesc
      · have hu : shortUnescape 0x75 = none := rfl
        simp only [unquoteCodePoint, hex4, List.cons_append, List.nil_append, if_true, hu,
          hexValue_hex4]
      · have hhi : ¬ IsHighSurrogate c := fun h => hesc (.inr (.inl h))
        rcases r with _ | ⟨d, r⟩ <;> simp [unquoteCodePoint, hc, hhi]
    · simp [unquoteCodePoint, shortUnescape_of_shortEscape hs]

/-- No code point is written starting with the closing quote. -/
theorem head?_quoteCodePoint (p : CodePoint) (t : JsString) :
    (quoteCodePoint p ++ t).head? ≠ some 0x22 := by
  cases p with
  | pair hi lo hhi hlo => simpa [quoteCodePoint] using (not_backslash_of_isHighSurrogate hhi).2
  | unit c =>
    rw [quoteCodePoint]
    rcases hs : shortEscape c with _ | e
    · simp only
      split_ifs
      · simp
      · simpa using (not_backslash_of_shortEscape_eq_none hs).2
    · simp

/-- **A string literal is self-delimiting**: reading it determines the string
and where the literal ends, whatever follows. -/
theorem readsBack_quote (s : JsString) : ReadsBack Anything quote s := by
  have hpoint : ∀ p : CodePoint, ReadsBack Anything quoteCodePoint p :=
    readsBack_of_decode unquoteCodePoint fun p r _ => unquoteCodePoint_quote p r
  have hbody : ReadsBack Anything
      (fun ps : List CodePoint => ps.flatMap quoteCodePoint ++ [0x22]) (codePoints s) :=
    readsBack_terminated head?_quoteCodePoint (fun _ _ => anything _) fun p _ => hpoint p
  exact (hbody.comp codePoints_injective).prefixed [0x22]

/-- A string with a line break, a quote, a lone surrogate and a surrogate pair. -/
example : quote [0x61, 0x0A, 0x22, 0xD800, 0x62, 0xD83D, 0xDE00] =
    js "\"a\\n\\\"\\ud800b" ++ [0xD83D, 0xDE00] ++ js "\"" := by decide

end AegCloudDfir
