import QadsCafe.Core.LTS

/-!
# Runs that come to an end

`Ranked M I μ`: from the states with `I`, which the steps keep, every step of
`M` lowers `μ`. A run then has at most `μ` steps (`Ranked.run`), and if it can
always go on while `G` does not hold yet, some run reaches `G`
(`Ranked.reaches`).
-/
namespace Core

structure Ranked {S L : Type} (M : LTS S L) (I : S → Prop) (μ : S → Nat) : Prop where
  keeps : ∀ s l t, I s → M.step s l t → I t
  lowers : ∀ s l t, I s → M.step s l t → μ t < μ s

namespace Ranked

variable {S L : Type} {M : LTS S L} {I : S → Prop} {μ : S → Nat}

theorem run (h : Ranked M I μ) {s t : S} {ls : List L} (hr : M.Run s ls t) (hs : I s) :
    I t ∧ ls.length + μ t ≤ μ s := by
  induction hr with
  | nil => exact ⟨hs, by simp⟩
  | cons hstep _ ih =>
    obtain ⟨ht, hlen⟩ := ih (h.keeps _ _ _ hs hstep)
    have hlt := h.lowers _ _ _ hs hstep
    rw [List.length_cons]
    exact ⟨ht, by omega⟩

theorem reaches (h : Ranked M I μ) {G : S → Prop} (hgo : ∀ s, I s → ¬ G s → ∃ l t, M.step s l t)
    {s : S} (hs : I s) : ∃ ls t, M.Run s ls t ∧ G t := by
  induction hn : μ s using Nat.strongRecOn generalizing s with
  | ind n ih =>
    by_cases hG : G s
    · exact ⟨[], s, .nil s, hG⟩
    · obtain ⟨l, t, hstep⟩ := hgo s hs hG
      have hlt := h.lowers _ _ _ hs hstep
      obtain ⟨ls, u, hr, hu⟩ := ih (μ t) (by omega) (h.keeps _ _ _ hs hstep) rfl
      exact ⟨l :: ls, u, .cons hstep hr, hu⟩

end Ranked

end Core
