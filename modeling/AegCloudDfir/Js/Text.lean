import Mathlib
import AegCloudDfir.Lib.PrefixCode

/-!
# JavaScript strings

A JavaScript string is a sequence of 16-bit code units, surrogates included and
not necessarily paired. Everything the modelled code does with strings is done
on code units here: comparison with `<` (by code unit), decimal numbers,
`padStart`, `startsWith`, and the string literals `JSON.stringify` writes.
-/

namespace AegCloudDfir

open PrefixCode

instance codeUnitNeZero : NeZero 0x10000 := ⟨by decide⟩

/-- A UTF-16 code unit. -/
abbrev CodeUnit : Type := Fin 0x10000

/-- A JavaScript string. -/
abbrev JsString : Type := List CodeUnit

instance codeUnitLawfulBEq : LawfulBEq CodeUnit := inferInstance

instance jsStringLawfulBEq : LawfulBEq JsString := inferInstance

/-- A string constant of the source. -/
def js (s : String) : JsString := s.toList.map fun c => Fin.ofNat 0x10000 c.toNat

/-- A string constant, character by character: what a `rw` leaves to be evaluated is a list. -/
theorem js_ofList (l : List Char) :
    js (String.ofList l) = l.map fun c => Fin.ofNat 0x10000 c.toNat := by
  rw [js, String.toList_ofList]

/-- The code units of an ASCII string, read off its bytes: this is what evaluates fast. -/
def asciiUnits (s : String) : JsString :=
  if s.toByteArray.data.toList.all (· < 0x80) then
    s.toByteArray.data.toList.map fun b => Fin.ofNat 0x10000 b.toNat
  else js s

/-- A character that is written in bytes below `0x80` is one of them. -/
theorem utf8EncodeChar_of_lt {c : Char} (h : ∀ b ∈ String.utf8EncodeChar c, b < 0x80) :
    String.utf8EncodeChar c = [UInt8.ofNat c.toNat] ∧ c.toNat < 0x80 := by
  have hval : c.val.toNat = c.toNat := rfl
  simp only [String.utf8EncodeChar, hval] at h ⊢
  split_ifs at h ⊢ with h₁ h₂ h₃
  · exact ⟨rfl, by omega⟩
  all_goals
    have hfirst := h _ (.head _)
    simp [UInt8.lt_iff_toNat_lt] at hfirst
    omega

theorem js_eq_asciiUnits (s : String) : js s = asciiUnits s := by
  rw [asciiUnits]
  split_ifs with h
  · obtain ⟨l, rfl⟩ : ∃ l, s = String.ofList l := ⟨s.toList, by simp⟩
    have hbytes : (String.ofList l).toByteArray.data.toList = l.flatMap String.utf8EncodeChar := by
      simp [List.utf8Encode]
    rw [hbytes] at h ⊢
    rw [js_ofList]
    clear hbytes
    induction l with
    | nil => rfl
    | cons c l ih =>
      rw [List.flatMap_cons, List.all_append, Bool.and_eq_true] at h
      obtain ⟨hbyte, hlt⟩ := utf8EncodeChar_of_lt fun b hb =>
        of_decide_eq_true (List.all_eq_true.mp h.1 b hb)
      have hnat : (UInt8.ofNat c.toNat).toNat = c.toNat :=
        UInt8.toNat_ofNat_of_lt' (hlt.trans (by decide))
      rw [List.map_cons, List.flatMap_cons, hbyte, List.singleton_append, List.map_cons, hnat,
        ih h.2]
  · rfl

/-- `a.startsWith(p)`. -/
def startsWith (a p : JsString) : Bool := p.isPrefixOf a

/-- `s.padStart(n, '0')`. -/
def padStartZero (s : JsString) (n : ℕ) : JsString := List.replicate (n - s.length) 0x30 ++ s

/-- `parts.join(sep)`. -/
def joinWith (sep : JsString) (parts : List JsString) : JsString := join sep parts

/-! ## Decimal numbers -/

/-- The code unit of an ASCII character. -/
def unitOf (c : Char) : CodeUnit := Fin.ofNat 0x10000 c.toNat

/-- `'0'` to `'9'`. -/
def IsDigit (c : CodeUnit) : Prop := 0x30 ≤ c ∧ c ≤ 0x39

instance (c : CodeUnit) : Decidable (IsDigit c) := inferInstanceAs (Decidable (_ ∧ _))

/-- `String(n)` for a non-negative integer. -/
def decimal (n : ℕ) : JsString := (Nat.toDigits 10 n).map unitOf

/-- `String(n)` for an integer. -/
def decimalInt : ℤ → JsString
  | .ofNat n => decimal n
  | .negSucc n => 0x2D :: decimal (n + 1)

/-- The number a string of digits denotes, as `Number.parseInt(s, 10)` reads it. -/
def parseDecimal (s : JsString) : ℕ := s.foldl (fun n c => 10 * n + (c.val - 0x30)) 0

theorem toNat_of_isDigit {c : Char} (h : c.isDigit) :
    (unitOf c).val = c.toNat ∧ 48 ≤ c.toNat ∧ c.toNat ≤ 57 := by
  simp only [Char.isDigit, Bool.and_eq_true, decide_eq_true_eq, ge_iff_le,
    UInt32.le_iff_toNat_le] at h
  have h48 : '0'.val.toNat = 48 := rfl
  have h57 : '9'.val.toNat = 57 := rfl
  have hc : c.toNat = c.val.toNat := rfl
  refine ⟨?_, by omega, by omega⟩
  simp only [unitOf, Fin.ofNat]
  omega

theorem isDigit_of_mem_decimal {n : ℕ} {c : CodeUnit} (h : c ∈ decimal n) : IsDigit c := by
  obtain ⟨d, hd, rfl⟩ := List.mem_map.mp h
  obtain ⟨hv, h1, h2⟩ :=
    toNat_of_isDigit (Nat.isDigit_of_mem_toDigits (by decide) (by decide) hd)
  simp only [IsDigit, Fin.le_def, hv]
  exact ⟨h1, h2⟩

theorem decimal_ne_nil (n : ℕ) : decimal n ≠ [] := by
  simp [decimal, Nat.toDigits_ne_nil]

theorem parseDecimal_map {l : List Char} (hl : ∀ c ∈ l, c.isDigit) (n : ℕ) :
    (l.map unitOf).foldl (fun n c => 10 * n + (c.val - 0x30)) n = Nat.ofDigitChars 10 l n := by
  induction l generalizing n with
  | nil => simp
  | cons c l ih =>
    have hc := toNat_of_isDigit (hl c (List.mem_cons_self ..))
    rw [List.map_cons, List.foldl_cons, ih fun d hd => hl d (List.mem_cons_of_mem _ hd),
      Nat.ofDigitChars_cons, hc.1]
    rfl

/-- Parsing undoes printing. -/
@[simp] theorem parseDecimal_decimal (n : ℕ) : parseDecimal (decimal n) = n := by
  rw [parseDecimal, decimal, parseDecimal_map, Nat.ofDigitChars_ten_toDigits]
  exact fun c hc => Nat.isDigit_of_mem_toDigits (by decide) (by decide) hc

theorem decimal_injective : Function.Injective decimal :=
  Function.LeftInverse.injective parseDecimal_decimal

theorem length_decimal_le_iff {n width : ℕ} (hwidth : 0 < width) :
    (decimal n).length ≤ width ↔ n < 10 ^ width := by
  rw [decimal, List.length_map]
  exact Nat.length_toDigits_le_iff (by decide) hwidth

theorem isDigit_ne_minus {c : CodeUnit} (h : IsDigit c) : c ≠ 0x2D := by
  rintro rfl
  exact absurd h (by decide)

theorem decimalInt_injective : Function.Injective decimalInt := by
  have hsign : ∀ m n : ℕ, decimal m ≠ 0x2D :: decimal (n + 1) := by
    intro m n h
    have hmem : (0x2D : CodeUnit) ∈ decimal m := by
      rw [h]
      exact List.mem_cons_self ..
    exact isDigit_ne_minus (isDigit_of_mem_decimal hmem) rfl
  rintro (m | m) (n | n) h
  · exact congrArg Int.ofNat (decimal_injective h)
  · exact absurd h (hsign m n)
  · exact absurd h.symm (hsign n m)
  · have := decimal_injective (List.cons.inj h).2
    rw [Nat.succ.inj this]

/-! ## Zero padding -/

theorem isDigit_of_mem_padStartZero {s : JsString} {n : ℕ} (hs : ∀ c ∈ s, IsDigit c)
    {c : CodeUnit} (h : c ∈ padStartZero s n) : IsDigit c := by
  rcases List.mem_append.mp h with h | h
  · rw [List.eq_of_mem_replicate h]
    decide
  · exact hs c h

/-- Leading zeros do not change the number. -/
@[simp] theorem parseDecimal_padStartZero (s : JsString) (n : ℕ) :
    parseDecimal (padStartZero s n) = parseDecimal s := by
  have hzeros : ∀ k, (List.replicate k (0x30 : CodeUnit)).foldl
      (fun n c => 10 * n + (c.val - 0x30)) 0 = 0 := by
    intro k
    induction k with
    | zero => rfl
    | succ k ih => simpa [List.replicate_succ] using ih
  rw [parseDecimal, padStartZero, List.foldl_append, hzeros]
  rfl

theorem length_padStartZero {s : JsString} {n : ℕ} (h : s.length ≤ n) :
    (padStartZero s n).length = n := by
  simp only [padStartZero, List.length_append, List.length_replicate]
  omega

/-- `n` written with at least `width` digits. -/
def paddedDecimal (width n : ℕ) : JsString := padStartZero (decimal n) width

theorem paddedDecimal_injective (width : ℕ) : Function.Injective (paddedDecimal width) := by
  intro m n h
  have := congrArg parseDecimal h
  simpa [paddedDecimal] using this

theorem isDigit_of_mem_paddedDecimal {width n : ℕ} {c : CodeUnit}
    (h : c ∈ paddedDecimal width n) : IsDigit c :=
  isDigit_of_mem_padStartZero (fun _ => isDigit_of_mem_decimal) h

theorem paddedDecimal_ne_nil (width n : ℕ) : paddedDecimal width n ≠ [] := by
  simp [paddedDecimal, padStartZero, decimal_ne_nil]

/-- A padded number can be read up to the next character that is not a digit. -/
theorem readsBack_paddedDecimal (width n : ℕ) :
    ReadsBack (Stops fun c => ¬ IsDigit c) (paddedDecimal width) n :=
  readsBack_of_alphabet (paddedDecimal_injective width)
    (fun _ _ => isDigit_of_mem_paddedDecimal) (fun _ h => h) n

/-! ## What is thrown -/

/-- A computation returns what its last part returns, if nothing before it throws. -/
theorem bind_eq_ok {ε α β : Type} {x : Except ε α} {f : α → Except ε β} {b : β} :
    x >>= f = .ok b ↔ ∃ a, x = .ok a ∧ f a = .ok b := by
  rcases x with e | a
  · exact iff_of_false (by rintro ⟨⟩) (by rintro ⟨a, ⟨⟩, -⟩)
  · exact ⟨fun h => ⟨a, rfl, h⟩, by rintro ⟨a, ⟨⟩, h⟩; exact h⟩

end AegCloudDfir
