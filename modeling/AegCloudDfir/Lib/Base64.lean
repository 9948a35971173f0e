import Mathlib.Data.Fin.Basic
import Mathlib.Data.List.Basic

/-!
# Bytes in digits of six bits

Three bytes are four digits; one byte that is left over is two digits, and two are three. A reader
that skips whatever is not a digit reads the bytes back (`ofText_toText`), from this text and from
every other that has the same digits.
-/

namespace Base64

universe u

/-- The digits of some bytes. -/
def encode : List (Fin 0x100) → List ℕ
  | a :: b :: c :: rest =>
    a.val / 4 :: (a.val % 4 * 16 + b.val / 16) :: (b.val % 16 * 4 + c.val / 64) :: c.val % 64 ::
      encode rest
  | [a, b] => [a.val / 4, a.val % 4 * 16 + b.val / 16, b.val % 16 * 4]
  | [a] => [a.val / 4, a.val % 4 * 16]
  | [] => []

/-- A byte. -/
def byte (n : ℕ) : Fin 0x100 := ⟨n % 0x100, Nat.mod_lt n (by decide)⟩

/-- The bytes of some digits. -/
def decode : List ℕ → List (Fin 0x100)
  | w :: x :: y :: z :: rest =>
    byte (w * 4 + x / 16) :: byte (x % 16 * 16 + y / 4) :: byte (y % 4 * 64 + z) :: decode rest
  | [w, x, y] => [byte (w * 4 + x / 16), byte (x % 16 * 16 + y / 4)]
  | [w, x] => [byte (w * 4 + x / 16)]
  | _ => []

theorem byte_eq {n : ℕ} {a : Fin 0x100} (h : n = a.val) : byte n = a := by
  apply Fin.ext
  rw [byte, h]
  exact Nat.mod_eq_of_lt a.isLt

@[simp] theorem decode_encode (bytes : List (Fin 0x100)) : decode (encode bytes) = bytes := by
  fun_induction encode bytes with
  | case1 a b c rest ih =>
    have ha := a.isLt
    have hb := b.isLt
    have hc := c.isLt
    rw [decode, ih, byte_eq (a := a) (by omega), byte_eq (a := b) (by omega),
      byte_eq (a := c) (by omega)]
  | case2 a b =>
    have ha := a.isLt
    have hb := b.isLt
    rw [decode, byte_eq (a := a) (by omega), byte_eq (a := b) (by omega)]
  | case3 a =>
    have ha := a.isLt
    rw [decode, byte_eq (a := a) (by omega)]
  | case4 => rfl

theorem encode_lt {bytes : List (Fin 0x100)} : ∀ n ∈ encode bytes, n < 64 := by
  fun_induction encode bytes with
  | case1 a b c rest ih =>
    have ha := a.isLt
    have hb := b.isLt
    have hc := c.isLt
    simp only [List.forall_mem_cons]
    exact ⟨by omega, by omega, by omega, by omega, ih⟩
  | case2 a b =>
    have ha := a.isLt
    have hb := b.isLt
    simp only [List.forall_mem_cons, List.not_mem_nil, false_implies, implies_true, and_true]
    exact ⟨by omega, by omega, by omega⟩
  | case3 a =>
    have ha := a.isLt
    simp only [List.forall_mem_cons, List.not_mem_nil, false_implies, implies_true, and_true]
    exact ⟨by omega, by omega⟩
  | case4 => exact fun n h => (List.not_mem_nil h).elim

variable {σ : Type u} (digit : ℕ → σ) (value : σ → Option ℕ)

/-- Bytes as a text. -/
def toText (bytes : List (Fin 0x100)) : List σ := (encode bytes).map digit

/-- The bytes of a text; what is not a digit is skipped. -/
def ofText (text : List σ) : List (Fin 0x100) := decode (text.filterMap value)

variable {digit value}

/-- **What is written is read back.** -/
theorem ofText_toText (h : ∀ n < 64, value (digit n) = some n) (bytes : List (Fin 0x100)) :
    ofText value (toText digit bytes) = bytes := by
  have hdigits : ((encode bytes).map digit).filterMap value = encode bytes := by
    rw [List.filterMap_map]
    refine (List.filterMap_congr fun n hn => ?_).trans List.filterMap_some
    exact h n (encode_lt n hn)
  rw [ofText, toText, hdigits, decode_encode]

end Base64
