import Mathlib.Data.List.Basic

/-!
# Bytes as hexadecimal text

`hexOf` joins the texts that the format `%02x` makes of the bytes; `bytesOf`
reads them back (`bytesOf_hexOf`), so the texts are as good as the bytes
(`hexOf_inj`).
-/
namespace Core

/-- `%02x` -/
def twoDigits (b : UInt8) : List Char :=
  List.replicate (2 - (Nat.toDigits 16 b.toNat).length) '0' ++ Nat.toDigits 16 b.toNat

def hexOf (bytes : List UInt8) : String := String.ofList (bytes.flatMap twoDigits)

def hexDigit (c : Char) : ℕ := if c.isDigit then c.toNat - 48 else c.toNat - 87

def bytesOf : List Char → List UInt8
  | high :: low :: rest => UInt8.ofNat (16 * hexDigit high + hexDigit low) :: bytesOf rest
  | _ => []

/-- The two digits of a byte, read back. -/
theorem twoDigits_cases (b : UInt8) : ∃ high low, twoDigits b = [high, low] ∧
    UInt8.ofNat (16 * hexDigit high + hexDigit low) = b := by
  have hall : ∀ n < 256, bytesOf (twoDigits (UInt8.ofNat n)) = [UInt8.ofNat n] ∧
      (twoDigits (UInt8.ofNat n)).length = 2 := by decide +kernel
  have hb := hall b.toNat b.toNat_lt
  rw [UInt8.ofNat_toNat] at hb
  obtain ⟨high, low, hdigits⟩ := List.length_eq_two.mp hb.2
  rw [hdigits] at hb
  exact ⟨high, low, hdigits, List.head_eq_of_cons_eq hb.1⟩

/-- **Round trip.** -/
theorem bytesOf_hexOf (bytes : List UInt8) : bytesOf (hexOf bytes).toList = bytes := by
  rw [hexOf, String.toList_ofList]
  induction bytes with
  | nil => rfl
  | cons b bytes ih =>
    obtain ⟨high, low, hdigits, hb⟩ := twoDigits_cases b
    rw [List.flatMap_cons, hdigits]
    show UInt8.ofNat _ :: bytesOf (bytes.flatMap twoDigits) = _
    rw [hb, ih]

theorem hexOf_inj {a b : List UInt8} : hexOf a = hexOf b ↔ a = b := by
  refine ⟨fun h => ?_, fun h => by rw [h]⟩
  rw [← bytesOf_hexOf a, h, bytesOf_hexOf]

end Core
