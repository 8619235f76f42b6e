import Mathlib.Algebra.Order.Floor.Ring
import Mathlib.Data.Rat.Floor
import Mathlib.Tactic.Ring

/-!
# Rounding an amount to whole pence

`rounded` is round-half-away-from-zero, `roundPence` rounds an amount to two
decimals with it. `IsPence q` says that `q` is a whole number of pence: such
amounts are closed under the arithmetic a price is built with, and rounding
leaves them alone.
-/
namespace Core

/-- To the nearest integer, halves away from zero. -/
def rounded (q : ℚ) : ℤ := if 0 ≤ q then ⌊q + 1 / 2⌋ else -⌊-q + 1 / 2⌋

def roundPence (q : ℚ) : ℚ := rounded (q * 100) / 100

def IsPence (q : ℚ) : Prop := ∃ n : ℤ, q = n / 100

namespace IsPence

theorem zero : IsPence 0 := ⟨0, by norm_num⟩

theorem add {p q : ℚ} (hp : IsPence p) (hq : IsPence q) : IsPence (p + q) := by
  obtain ⟨m, rfl⟩ := hp
  obtain ⟨n, rfl⟩ := hq
  exact ⟨m + n, by push_cast; ring⟩

theorem mul_int {q : ℚ} (h : IsPence q) (k : ℤ) : IsPence (q * k) := by
  obtain ⟨n, rfl⟩ := h
  exact ⟨n * k, by push_cast; ring⟩

theorem sum {l : List ℚ} (h : ∀ q ∈ l, IsPence q) : IsPence l.sum := by
  induction l with
  | nil => exact zero
  | cons q l ih =>
    rw [List.sum_cons]
    exact (h q List.mem_cons_self).add (ih fun p hp => h p (List.mem_cons_of_mem _ hp))

end IsPence

theorem rounded_int (n : ℤ) : rounded n = n := by
  have hhalf : ∀ m : ℤ, ⌊(m : ℚ) + 1 / 2⌋ = m := by
    intro m
    rw [Int.floor_eq_iff]
    constructor <;> norm_num
  unfold rounded
  split
  · exact hhalf n
  · have h := hhalf (-n)
    push_cast at h
    rw [h, neg_neg]

theorem roundPence_eq {q : ℚ} (h : IsPence q) : roundPence q = q := by
  obtain ⟨n, rfl⟩ := h
  have hn : (n : ℚ) / 100 * 100 = n := by ring
  unfold roundPence
  rw [hn, rounded_int]

end Core
