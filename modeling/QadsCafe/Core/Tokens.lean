import QadsCafe.Core.LTS

/-!
# Tokens of clients that share a counter

Each client knows some tokens. A step is taken by one client; what it learns
it knew before, or is not below the counter. Then no two clients know the
same token (`apart`), and a token that is past and that others do not know
stays unknown to them in every run (`only_run`).
-/
namespace Core

variable {S ι E : Type}

structure Tokens (M : LTS S (ι × E)) (I : S → Prop) (knows : S → ι → Nat → Prop) (next : S → Nat) :
    Prop where
  bound : ∀ s i d, I s → knows s i d → d < next s
  mono : ∀ s l t, I s → M.step s l t → next s ≤ next t
  own : ∀ s i e t d, I s → M.step s (i, e) t → knows t i d → knows s i d ∨ next s ≤ d
  other : ∀ s i e t j d, M.step s (i, e) t → j ≠ i → knows t j d → knows s j d

namespace Tokens

/-- No two clients know the same token. -/
def Apart (knows : S → ι → Nat → Prop) (s : S) : Prop :=
  ∀ i j d, i ≠ j → knows s i d → ¬ knows s j d

/-- Nobody but client `i` knows token `d`, nor will get it from the counter. -/
def Only (knows : S → ι → Nat → Prop) (next : S → Nat) (i : ι) (d : Nat) (s : S) : Prop :=
  d < next s ∧ ∀ j, j ≠ i → ¬ knows s j d

variable {M : LTS S (ι × E)} {I : S → Prop} {knows : S → ι → Nat → Prop} {next : S → Nat}

theorem apart (h : Tokens M I knows next) {s t : S} {l : ι × E} (hI : I s) (hs : M.step s l t)
    (ha : Apart knows s) : Apart knows t := by
  obtain ⟨k, e⟩ := l
  have hmoved : ∀ j d, j ≠ k → knows t k d → ¬ knows t j d := by
    intro j d hj hk hjt
    have hjs := h.other _ _ _ _ _ _ hs hj hjt
    rcases h.own _ _ _ _ _ hI hs hk with hks | hnew
    · exact ha k j d (Ne.symm hj) hks hjs
    · exact absurd (h.bound _ _ _ hI hjs) (Nat.not_lt_of_le hnew)
  intro i j d hij hi hj
  by_cases hik : i = k
  · subst hik
    exact hmoved j d (Ne.symm hij) hi hj
  by_cases hjk : j = k
  · subst hjk
    exact hmoved i d hij hj hi
  · exact ha i j d hij (h.other _ _ _ _ _ _ hs hik hi) (h.other _ _ _ _ _ _ hs hjk hj)

theorem only (h : Tokens M I knows next) {s : S} (hI : I s) (ha : Apart knows s) {i : ι} {d : Nat}
    (hk : knows s i d) : Only knows next i d s :=
  ⟨h.bound s i d hI hk, fun j hj => ha i j d (Ne.symm hj) hk⟩

theorem only_step (h : Tokens M I knows next) {s t : S} {l : ι × E} (hI : I s) (hs : M.step s l t)
    {i : ι} {d : Nat} (ho : Only knows next i d s) : Only knows next i d t := by
  obtain ⟨k, e⟩ := l
  refine ⟨Nat.lt_of_lt_of_le ho.1 (h.mono _ _ _ hI hs), fun j hj hjt => ?_⟩
  by_cases hjk : j = k
  · subst hjk
    rcases h.own _ _ _ _ _ hI hs hjt with hjs | hnew
    · exact ho.2 j hj hjs
    · exact absurd ho.1 (Nat.not_lt_of_le hnew)
  · exact ho.2 j hj (h.other _ _ _ _ _ _ hs hjk hjt)

theorem only_run (h : Tokens M I knows next) (hstep : ∀ s l t, I s → M.step s l t → I t) {s t : S}
    {ls : List (ι × E)} (hr : M.Run s ls t) (hI : I s) {i : ι} {d : Nat}
    (ho : Only knows next i d s) : I t ∧ Only knows next i d t := by
  induction hr with
  | nil => exact ⟨hI, ho⟩
  | cons hs _ ih => exact ih (hstep _ _ _ hI hs) (h.only_step hI hs ho)

end Tokens

end Core
