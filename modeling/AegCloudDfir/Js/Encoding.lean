import AegCloudDfir.Evidence.Merkle
import AegCloudDfir.Lib.Split

/-!
# Texts as bytes

`Buffer.from(text, encoding)` and `buffer.toString(encoding)` for the two encodings the load files
are written in. Neither can write every string: UTF-8 has no code for a surrogate without its
partner and writes U+FFFD instead, and Latin-1 keeps the low byte of a code unit. `written` is the
text that is left; reading gives it back (`decode_encode`), and what is read is written as it was
(`encode_of_decode`). Reading is strict here: bytes that nothing is written as are not read.
-/

namespace AegCloudDfir

open Evidence (Byte Buffer)
open Split (Unbordered unbordered_of_not_mem)

/-! ## Scalar values -/

/-- A Unicode scalar value. -/
def IsScalar (n : ℕ) : Prop := n < 0xD800 ∨ (0xE000 ≤ n ∧ n < 0x110000)

instance (n : ℕ) : Decidable (IsScalar n) := inferInstanceAs (Decidable (_ ∨ _))

/-- The scalar value a code point is written as: U+FFFD for a lone surrogate. -/
def CodePoint.scalar : CodePoint → ℕ
  | .unit c => if IsHighSurrogate c ∨ IsLowSurrogate c then 0xFFFD else c.val
  | .pair hi lo _ _ => 0x10000 + (hi.val - 0xD800) * 0x400 + (lo.val - 0xDC00)

/-- The scalar values a string is written as. -/
def scalars (s : JsString) : List ℕ := (codePoints s).map CodePoint.scalar

/-- The code units of a scalar value. -/
def scalarUnits (n : ℕ) : JsString :=
  if n < 0x10000 then [Fin.ofNat 0x10000 n]
  else [Fin.ofNat 0x10000 (0xD800 + (n - 0x10000) / 0x400),
    Fin.ofNat 0x10000 (0xDC00 + (n - 0x10000) % 0x400)]

/-- `s.toWellFormed()` -/
def toWellFormed (s : JsString) : JsString := (scalars s).flatMap scalarUnits

theorem isHighSurrogate_iff (c : CodeUnit) :
    IsHighSurrogate c ↔ 0xD800 ≤ c.val ∧ c.val ≤ 0xDBFF := Iff.rfl

theorem isLowSurrogate_iff (c : CodeUnit) :
    IsLowSurrogate c ↔ 0xDC00 ≤ c.val ∧ c.val ≤ 0xDFFF := Iff.rfl

theorem scalar_unit (c : CodeUnit) : (CodePoint.unit c).scalar =
    if IsHighSurrogate c ∨ IsLowSurrogate c then 0xFFFD else c.val := rfl

theorem scalar_pair {hi lo : CodeUnit} (hhi : IsHighSurrogate hi) (hlo : IsLowSurrogate lo) :
    (CodePoint.pair hi lo hhi hlo).scalar =
      0x10000 + (hi.val - 0xD800) * 0x400 + (lo.val - 0xDC00) := rfl

theorem isScalar_scalar (p : CodePoint) : IsScalar p.scalar := by
  rcases p with c | ⟨hi, lo, hhi, hlo⟩
  · by_cases h : IsHighSurrogate c ∨ IsLowSurrogate c
    · rw [scalar_unit, if_pos h]
      exact .inr ⟨by omega, by omega⟩
    · have hc := c.isLt
      rw [scalar_unit, if_neg h, IsScalar]
      rw [isHighSurrogate_iff, isLowSurrogate_iff] at h
      omega
  · rw [isHighSurrogate_iff] at hhi
    rw [isLowSurrogate_iff] at hlo
    rw [scalar_pair, IsScalar]
    omega

theorem isScalar_of_mem_scalars {s : JsString} {n : ℕ} (h : n ∈ scalars s) : IsScalar n := by
  obtain ⟨p, -, rfl⟩ := List.mem_map.mp h
  exact isScalar_scalar p

/-- A scalar value can be read back from its units, whatever follows. -/
theorem scalars_scalarUnits_append {n : ℕ} (hn : IsScalar n) (rest : JsString) :
    scalars (scalarUnits n ++ rest) = n :: scalars rest := by
  rw [scalarUnits]
  by_cases hlt : n < 0x10000
  · rw [if_pos hlt]
    have hval : (Fin.ofNat 0x10000 n).val = n := Nat.mod_eq_of_lt hlt
    have hsurrogate : ¬ (IsHighSurrogate (Fin.ofNat 0x10000 n) ∨
        IsLowSurrogate (Fin.ofNat 0x10000 n)) := by
      rw [isHighSurrogate_iff, isLowSurrogate_iff, hval]
      rw [IsScalar] at hn
      omega
    have hpoint : (CodePoint.unit (Fin.ofNat 0x10000 n)).scalar = n :=
      (scalar_unit _).trans ((if_neg hsurrogate).trans hval)
    rcases rest with _ | ⟨d, rest⟩
    · exact congrArg (fun m => [m]) hpoint
    · rw [scalars, List.singleton_append, codePoints,
        dif_neg fun h => hsurrogate (.inl h.1), List.map_cons, hpoint]
      rfl
  · rw [if_neg hlt]
    have hmax : n < 0x110000 := by
      rw [IsScalar] at hn
      omega
    have hhi : (Fin.ofNat 0x10000 (0xD800 + (n - 0x10000) / 0x400)).val =
        0xD800 + (n - 0x10000) / 0x400 := Nat.mod_eq_of_lt (by omega)
    have hlo : (Fin.ofNat 0x10000 (0xDC00 + (n - 0x10000) % 0x400)).val =
        0xDC00 + (n - 0x10000) % 0x400 := Nat.mod_eq_of_lt (by omega)
    have hpair : IsHighSurrogate (Fin.ofNat 0x10000 (0xD800 + (n - 0x10000) / 0x400)) ∧
        IsLowSurrogate (Fin.ofNat 0x10000 (0xDC00 + (n - 0x10000) % 0x400)) := by
      rw [isHighSurrogate_iff, isLowSurrogate_iff, hhi, hlo]
      omega
    rw [scalars, List.cons_append, List.singleton_append, codePoints, dif_pos hpair,
      List.map_cons]
    refine congrArg₂ List.cons ?_ rfl
    rw [scalar_pair, hhi, hlo]
    omega

/-- What is well-formed is written as the scalar values it was made from. -/
theorem scalars_flatMap {ns : List ℕ} (hns : ∀ n ∈ ns, IsScalar n) :
    scalars (ns.flatMap scalarUnits) = ns := by
  induction ns with
  | nil => rfl
  | cons n ns ih =>
    rw [List.flatMap_cons, scalars_scalarUnits_append (hns n (List.mem_cons_self ..)),
      ih fun m hm => hns m (.tail _ hm)]

@[simp] theorem scalars_toWellFormed (s : JsString) : scalars (toWellFormed s) = scalars s :=
  scalars_flatMap fun _ => isScalar_of_mem_scalars

/-! ## UTF-8 -/

/-- The bytes of a scalar value. -/
def utf8Bytes (n : ℕ) : Buffer :=
  if n < 0x80 then [Fin.ofNat 256 n]
  else if n < 0x800 then [Fin.ofNat 256 (0xC0 + n / 0x40), Fin.ofNat 256 (0x80 + n % 0x40)]
  else if n < 0x10000 then
    [Fin.ofNat 256 (0xE0 + n / 0x1000), Fin.ofNat 256 (0x80 + n / 0x40 % 0x40),
      Fin.ofNat 256 (0x80 + n % 0x40)]
  else
    [Fin.ofNat 256 (0xF0 + n / 0x40000), Fin.ofNat 256 (0x80 + n / 0x1000 % 0x40),
      Fin.ofNat 256 (0x80 + n / 0x40 % 0x40), Fin.ofNat 256 (0x80 + n % 0x40)]

/-- The scalar value that some bytes begin with, if they begin with one, and its length. -/
def leadingScalar : Buffer → ℕ × ℕ
  | [] => (0, 0)
  | a :: rest =>
    let continuation i := (rest.getD i 0).val - 0x80
    if a.val < 0x80 then (a.val, 1)
    else if a.val < 0xE0 then ((a.val - 0xC0) * 0x40 + continuation 0, 2)
    else if a.val < 0xF0 then
      ((a.val - 0xE0) * 0x1000 + continuation 0 * 0x40 + continuation 1, 3)
    else
      ((a.val - 0xF0) * 0x40000 + continuation 0 * 0x1000 + continuation 1 * 0x40 +
        continuation 2, 4)

/-- Reads a scalar value off the bytes; only what it is written as counts. -/
def readScalar (bytes : Buffer) : Option (ℕ × Buffer) :=
  let (n, length) := leadingScalar bytes
  if IsScalar n ∧ utf8Bytes n = bytes.take length then some (n, bytes.drop length) else none

theorem utf8Bytes_ne_nil (n : ℕ) : utf8Bytes n ≠ [] := by
  rw [utf8Bytes]
  split_ifs <;> exact List.cons_ne_nil _ _

/-- Where a scalar value is read, its bytes are. -/
theorem eq_append_of_readScalar {bytes rest : Buffer} {n : ℕ}
    (h : readScalar bytes = some (n, rest)) : IsScalar n ∧ bytes = utf8Bytes n ++ rest := by
  rw [readScalar] at h
  generalize leadingScalar bytes = lead at h
  obtain ⟨m, length⟩ := lead
  dsimp only at h
  by_cases hread : IsScalar m ∧ utf8Bytes m = bytes.take length
  · rw [if_pos hread] at h
    obtain ⟨rfl, rfl⟩ := Prod.mk.inj (Option.some.inj h)
    refine ⟨hread.1, ?_⟩
    rw [hread.2, List.take_append_drop]
  · rw [if_neg hread] at h
    cases h

/-- **One scalar value.** Its bytes are read back whatever follows. -/
theorem readScalar_utf8Bytes_append {n : ℕ} (hn : IsScalar n) (rest : Buffer) :
    readScalar (utf8Bytes n ++ rest) = some (n, rest) := by
  have hmax : n < 0x110000 := by
    rw [IsScalar] at hn
    omega
  have hval : ∀ m, m < 256 → (Fin.ofNat 256 m).val = m := fun m => Nat.mod_eq_of_lt
  have hlead : leadingScalar (utf8Bytes n ++ rest) = (n, (utf8Bytes n).length) := by
    rw [utf8Bytes]
    by_cases h1 : n < 0x80
    · simp only [if_pos h1, List.cons_append, List.nil_append, leadingScalar, hval n (by omega),
        List.length_singleton]
    rw [if_neg h1]
    by_cases h2 : n < 0x800
    · rw [if_pos h2, List.cons_append, List.cons_append, leadingScalar]
      simp only [List.getD_cons_zero, List.length_cons, List.length_nil,
        hval (0xC0 + n / 0x40) (by omega), hval (0x80 + n % 0x40) (by omega)]
      rw [if_neg (by omega), if_pos (by omega)]
      exact congrArg (fun m => (m, 2)) (by omega)
    rw [if_neg h2]
    by_cases h3 : n < 0x10000
    · rw [if_pos h3, List.cons_append, List.cons_append, List.cons_append, leadingScalar]
      simp only [List.getD_cons_zero, List.getD_cons_succ, List.length_cons, List.length_nil,
        hval (0xE0 + n / 0x1000) (by omega), hval (0x80 + n / 0x40 % 0x40) (by omega),
        hval (0x80 + n % 0x40) (by omega)]
      rw [if_neg (by omega), if_neg (by omega), if_pos (by omega)]
      exact congrArg (fun m => (m, 3)) (by omega)
    · rw [if_neg h3, List.cons_append, List.cons_append, List.cons_append, List.cons_append,
        leadingScalar]
      simp only [List.getD_cons_zero, List.getD_cons_succ, List.length_cons, List.length_nil,
        hval (0xF0 + n / 0x40000) (by omega), hval (0x80 + n / 0x1000 % 0x40) (by omega),
        hval (0x80 + n / 0x40 % 0x40) (by omega), hval (0x80 + n % 0x40) (by omega)]
      rw [if_neg (by omega), if_neg (by omega), if_neg (by omega)]
      exact congrArg (fun m => (m, 4)) (by omega)
  rw [readScalar, hlead]
  dsimp only
  rw [List.take_left, if_pos ⟨hn, rfl⟩, List.drop_left]

theorem length_of_readScalar {bytes rest : Buffer} {n : ℕ}
    (h : readScalar bytes = some (n, rest)) : rest.length < bytes.length := by
  rw [(eq_append_of_readScalar h).2, List.length_append]
  have := List.length_pos_of_ne_nil (utf8Bytes_ne_nil n)
  omega

/-- `Buffer.from(text, 'utf8')` -/
def toUtf8 (s : JsString) : Buffer := (scalars s).flatMap utf8Bytes

/-- `buffer.toString('utf8')`, for bytes that are UTF-8. -/
def fromUtf8 (bytes : Buffer) : Option JsString :=
  match bytes with
  | [] => some []
  | a :: more =>
    match _h : readScalar (a :: more) with
    | none => none
    | some (n, rest) => (fromUtf8 rest).map (scalarUnits n ++ ·)
termination_by bytes.length
decreasing_by exact length_of_readScalar _h

/-- Scalar values are read back from their bytes. -/
theorem fromUtf8_flatMap {ns : List ℕ} (hns : ∀ n ∈ ns, IsScalar n) :
    fromUtf8 (ns.flatMap utf8Bytes) = some (ns.flatMap scalarUnits) := by
  induction ns with
  | nil =>
    rw [List.flatMap_nil, List.flatMap_nil, fromUtf8]
  | cons n ns ih =>
    obtain ⟨a, more, hmore⟩ : ∃ a more, utf8Bytes n ++ ns.flatMap utf8Bytes = a :: more :=
      List.exists_cons_of_ne_nil (List.append_ne_nil_of_left_ne_nil (utf8Bytes_ne_nil n) _)
    have hread := readScalar_utf8Bytes_append (hns n (List.mem_cons_self ..))
      (ns.flatMap utf8Bytes)
    rw [List.flatMap_cons, List.flatMap_cons, hmore, fromUtf8]
    rw [hmore] at hread
    split
    · rename_i hnone
      rw [hread] at hnone
      cases hnone
    · rename_i m rest hsome
      rw [hread] at hsome
      obtain ⟨rfl, rfl⟩ := Prod.mk.inj (Option.some.inj hsome)
      rw [ih fun k hk => hns k (.tail _ hk)]
      rfl

/-- What is read are scalar values, and the bytes are theirs. -/
theorem exists_of_fromUtf8 {bytes : Buffer} {s : JsString} (h : fromUtf8 bytes = some s) :
    ∃ ns : List ℕ, (∀ n ∈ ns, IsScalar n) ∧
      bytes = ns.flatMap utf8Bytes ∧ s = ns.flatMap scalarUnits := by
  fun_induction fromUtf8 bytes generalizing s with
  | case1 =>
    obtain rfl := Option.some.inj h
    exact ⟨[], List.forall_mem_nil _, rfl, rfl⟩
  | case2 a more hnone => cases h
  | case3 a more n rest hread ih =>
    obtain ⟨t, ht, rfl⟩ := Option.map_eq_some_iff.mp h
    obtain ⟨ns, hns, rfl, rfl⟩ := ih ht
    obtain ⟨hn, hbytes⟩ := eq_append_of_readScalar hread
    refine ⟨n :: ns, ?_, hbytes, rfl⟩
    intro m hm
    rcases List.mem_cons.mp hm with rfl | hm
    · exact hn
    · exact hns m hm

/-! ## Texts side by side -/

/-- No surrogate pair comes about where two texts meet. -/
def Meets (a b : JsString) : Prop :=
  ∀ c ∈ a.getLast?, ∀ d ∈ b.head?, ¬ (IsHighSurrogate c ∧ IsLowSurrogate d)

theorem scalars_cons_cons (c d : CodeUnit) (rest : JsString) :
    scalars (c :: d :: rest) =
      if h : IsHighSurrogate c ∧ IsLowSurrogate d then
        (CodePoint.pair c d h.1 h.2).scalar :: scalars rest
      else (CodePoint.unit c).scalar :: scalars (d :: rest) := by
  rw [scalars, codePoints]
  split <;> rfl

/-- Texts that meet are written one after the other. -/
theorem scalars_append {a b : JsString} (h : Meets a b) :
    scalars (a ++ b) = scalars a ++ scalars b := by
  fun_induction codePoints a with
  | case1 => rfl
  | case2 c =>
    rcases b with _ | ⟨d, b⟩
    · rfl
    · rw [List.singleton_append, scalars_cons_cons, dif_neg (h c rfl d rfl)]
      rfl
  | case3 c d rest hpair ih =>
    have hrest : Meets rest b := by
      rcases rest with _ | ⟨e, rest⟩
      · rintro _ ⟨⟩
      · exact h
    rw [List.cons_append, List.cons_append, scalars_cons_cons, dif_pos hpair, ih hrest,
      scalars_cons_cons, dif_pos hpair]
    rfl
  | case4 c d rest hpair ih =>
    have hrest : Meets (d :: rest) b := h
    rw [List.cons_append, List.cons_append, scalars_cons_cons, dif_neg hpair, ← List.cons_append,
      ih hrest, scalars_cons_cons, dif_neg hpair]
    rfl

theorem meets_of_head {a b : JsString} (h : ∀ d ∈ b.head?, ¬ IsLowSurrogate d) : Meets a b :=
  fun _ _ d hd hpair => h d hd hpair.2

theorem meets_of_last {a b : JsString} (h : ∀ c ∈ a.getLast?, ¬ IsHighSurrogate c) : Meets a b :=
  fun c hc _ _ hpair => h c hc hpair.1

/-! ## Encodings -/

/-- The encodings of a load file. -/
inductive Encoding : Type where
  | utf8
  | latin1
  deriving DecidableEq

namespace Encoding

/-- `Buffer.from(text, encoding)` -/
def encode : Encoding → JsString → Buffer
  | utf8, text => toUtf8 text
  | latin1, text => text.map fun c => Fin.ofNat 256 c.val

/-- `buffer.toString(encoding)`, for bytes that some text is written as. -/
def decode : Encoding → Buffer → Option JsString
  | utf8, bytes => fromUtf8 bytes
  | latin1, bytes => some (bytes.map fun b => Fin.ofNat 0x10000 b.val)

/-- The text that is left of a text when it is written. -/
def written : Encoding → JsString → JsString
  | utf8, text => toWellFormed text
  | latin1, text => text.map fun c => Fin.ofNat 0x10000 (c.val % 256)

variable (e : Encoding)

theorem latin1_encode_written (text : JsString) :
    latin1.encode (latin1.written text) = latin1.encode text := by
  rw [encode, written, encode, List.map_map]
  refine List.map_congr_left fun c _ => Fin.ext ?_
  have hlt : c.val % 256 < 0x10000 := (Nat.mod_lt _ (by decide)).trans (by decide)
  simp only [Function.comp_apply, Fin.ofNat, Nat.mod_eq_of_lt hlt, Nat.mod_mod]

/-- What is left is written the same. -/
@[simp] theorem encode_written (text : JsString) : e.encode (e.written text) = e.encode text := by
  cases e with
  | utf8 => exact congrArg (List.flatMap utf8Bytes) (scalars_toWellFormed text)
  | latin1 => exact latin1_encode_written text

/-- What is written is read as what is left of it. -/
@[simp] theorem decode_encode (text : JsString) :
    e.decode (e.encode text) = some (e.written text) := by
  cases e with
  | utf8 => exact fromUtf8_flatMap fun _ => isScalar_of_mem_scalars
  | latin1 =>
    rw [decode, encode, written, List.map_map]
    refine congrArg some (List.map_congr_left fun c _ => Fin.ext ?_)
    rfl

/-- What is read is written as it was. -/
theorem encode_of_decode {bytes : Buffer} {text : JsString} (h : e.decode bytes = some text) :
    e.encode text = bytes := by
  cases e with
  | utf8 =>
    obtain ⟨ns, hns, rfl, rfl⟩ := exists_of_fromUtf8 h
    exact congrArg (List.flatMap utf8Bytes) (scalars_flatMap hns)
  | latin1 =>
    obtain rfl := Option.some.inj h
    rw [encode, List.map_map]
    refine (List.map_congr_left fun b _ => Fin.ext ?_).trans (List.map_id bytes)
    have hlt : b.val < 0x10000 := b.isLt.trans (by decide)
    simp only [Function.comp_apply, Fin.ofNat, Nat.mod_eq_of_lt hlt, Nat.mod_eq_of_lt b.isLt, id]

/-- What is read is left as it is. -/
theorem written_of_decode {bytes : Buffer} {text : JsString} (h : e.decode bytes = some text) :
    e.written text = text := by
  have hread := e.decode_encode text
  rw [e.encode_of_decode h, h] at hread
  exact (Option.some.inj hread).symm

/-- Texts that are written the same are read the same. -/
theorem written_congr {s t : JsString} (h : e.encode s = e.encode t) : e.written s = e.written t :=
  Option.some.inj (by rw [← e.decode_encode, h, e.decode_encode])

/-- Texts that meet are written one after the other. -/
theorem encode_append {a b : JsString} (h : Meets a b) :
    e.encode (a ++ b) = e.encode a ++ e.encode b := by
  cases e with
  | utf8 =>
    rw [encode, toUtf8, scalars_append h, List.flatMap_append]
    rfl
  | latin1 => exact List.map_append

theorem written_append {a b : JsString} (h : Meets a b) :
    e.written (a ++ b) = e.written a ++ e.written b := by
  cases e with
  | utf8 =>
    rw [written, toWellFormed, scalars_append h, List.flatMap_append]
    rfl
  | latin1 => exact List.map_append

/-- A unit by itself is written as a unit that pairs with nothing. -/
theorem exists_written_singleton (c : CodeUnit) :
    ∃ d, e.written [c] = [d] ∧ ¬ IsHighSurrogate d ∧ ¬ IsLowSurrogate d := by
  cases e with
  | utf8 =>
    have hscalar := isScalar_scalar (.unit c)
    have hwritten : utf8.written [c] = scalarUnits (CodePoint.unit c).scalar := List.append_nil _
    have hlt : (CodePoint.unit c).scalar < 0x10000 := by
      rw [scalar_unit]
      split
      · omega
      · exact c.isLt
    have hval : (Fin.ofNat 0x10000 (CodePoint.unit c).scalar).val = (CodePoint.unit c).scalar :=
      Nat.mod_eq_of_lt hlt
    refine ⟨_, hwritten.trans (if_pos hlt), ?_, ?_⟩
    · rw [isHighSurrogate_iff, hval]
      rw [IsScalar] at hscalar
      omega
    · rw [isLowSurrogate_iff, hval]
      rw [IsScalar] at hscalar
      omega
  | latin1 =>
    have hval : (Fin.ofNat 0x10000 (c.val % 256)).val = c.val % 256 :=
      Nat.mod_eq_of_lt ((Nat.mod_lt _ (by decide)).trans (by decide))
    have hlt : c.val % 256 < 256 := Nat.mod_lt _ (by decide)
    refine ⟨_, rfl, ?_, ?_⟩
    · rw [isHighSurrogate_iff, hval]
      omega
    · rw [isLowSurrogate_iff, hval]
      omega

/-- The bytes of a unit, of which the first does not come again. -/
theorem exists_encode_singleton (c : CodeUnit) :
    ∃ a rest, e.encode [c] = a :: rest ∧ a ∉ rest := by
  cases e with
  | utf8 =>
    have hlt : (CodePoint.unit c).scalar < 0x10000 := by
      rw [scalar_unit]
      split
      · omega
      · exact c.isLt
    have hencode : utf8.encode [c] = utf8Bytes (CodePoint.unit c).scalar := List.append_nil _
    rw [hencode]
    generalize (CodePoint.unit c).scalar = n at hlt
    have hval : ∀ m, m < 256 → (Fin.ofNat 256 m).val = m := fun m => Nat.mod_eq_of_lt
    have hne : ∀ k m, k < 256 → m < 256 → m < k → (Fin.ofNat 256 k) ≠ Fin.ofNat 256 m := by
      intro k m hk hm hlt heq
      have := congrArg Fin.val heq
      rw [hval k hk, hval m hm] at this
      omega
    rw [utf8Bytes]
    split_ifs with h1 h2
    · exact ⟨_, _, rfl, List.not_mem_nil⟩
    · refine ⟨_, _, rfl, fun h => ?_⟩
      exact hne _ _ (by omega) (by omega) (by omega) (List.mem_singleton.mp h)
    · refine ⟨_, _, rfl, fun h => ?_⟩
      rcases List.mem_cons.mp h with h | h
      · exact hne _ _ (by omega) (by omega) (by omega) h
      · exact hne _ _ (by omega) (by omega) (by omega) (List.mem_singleton.mp h)
  | latin1 => exact ⟨_, [], rfl, List.not_mem_nil⟩

theorem encode_singleton_ne_nil (c : CodeUnit) : e.encode [c] ≠ [] := by
  obtain ⟨a, rest, h, -⟩ := e.exists_encode_singleton c
  exact h ▸ List.cons_ne_nil a rest

theorem unbordered_encode_singleton (c : CodeUnit) : Unbordered (e.encode [c]) := by
  obtain ⟨a, rest, h, hnot⟩ := e.exists_encode_singleton c
  exact h ▸ unbordered_of_not_mem hnot

@[simp] theorem encode_nil : e.encode [] = [] := by cases e <;> rfl

end Encoding

end AegCloudDfir
