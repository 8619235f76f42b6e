import Mathlib.Data.Nat.Find
import Mathlib.Data.List.Range

/-!
# Rejection sampling in blocks

A sampler reads a stream block by block and collects the accepted elements
until it has `n`. `accepted accept stream k` are the accepted ones among the
first `k`; a sampler that has read `k` elements has the first `n` of them
(`foldl_collect_block`), whichever long enough `k` it stops at (`take_accepted`).
-/
namespace Core

variable {α : Type} (accept : α → Bool) (stream : ℕ → α)

/-- The accepted elements among the first `k`. -/
def accepted (k : ℕ) : List α := ((List.range k).map stream).filter accept

/-- The `m` elements from position `k` on. -/
def block (k m : ℕ) : List α := (List.range m).map fun i => stream (k + i)

theorem accepted_add (k m : ℕ) :
    accepted accept stream (k + m) =
      accepted accept stream k ++ (block stream k m).filter accept := by
  unfold accepted block
  rw [List.range_add, List.map_append, List.filter_append, List.map_map]
  rfl

variable {accept stream}

theorem accepted_isPrefixOf {k m : ℕ} (h : k ≤ m) :
    accepted accept stream k <+: accepted accept stream m := by
  obtain ⟨d, rfl⟩ := Nat.exists_eq_add_of_le h
  rw [accepted_add]
  exact List.prefix_append _ _

/-- The first `n` accepted elements do not depend on where one stops. -/
theorem take_accepted {n k m : ℕ} (hk : n ≤ (accepted accept stream k).length)
    (hm : n ≤ (accepted accept stream m).length) :
    (accepted accept stream k).take n = (accepted accept stream m).take n := by
  have hle : ∀ {k m : ℕ}, k ≤ m → n ≤ (accepted accept stream k).length →
      (accepted accept stream k).take n = (accepted accept stream m).take n := by
    intro k m h hk
    have hpre : accepted accept stream k <+: accepted accept stream m := accepted_isPrefixOf h
    obtain ⟨rest, hrest⟩ := hpre
    rw [← hrest, List.take_append_of_le_length hk]
  rcases Nat.le_total k m with h | h
  · exact hle h hk
  · exact (hle h hm).symm

/-- The first round after which there are enough, with `b` elements a round. -/
theorem exists_first_round {n b : ℕ} (hb : 0 < b) (h : ∃ k, n ≤ (accepted accept stream k).length) :
    ∃ r, n ≤ (accepted accept stream (b * r)).length ∧
      ∀ j < r, (accepted accept stream (b * j)).length < n := by
  obtain ⟨k, hk⟩ := h
  have hex : ∃ r, n ≤ (accepted accept stream (b * r)).length :=
    ⟨k, hk.trans (accepted_isPrefixOf (Nat.le_mul_of_pos_left k hb)).length_le⟩
  refine ⟨Nat.find hex, Nat.find_spec hex, fun j hj => ?_⟩
  have := Nat.find_min hex hj
  omega

/-! ## Collecting -/

variable (accept) in
/-- Take an element if one is still wanted; the second component is how many. -/
def collect (s : List α × ℕ) (a : α) : List α × ℕ :=
  if s.2 = 0 then s else if accept a then (s.1 ++ [a], s.2 - 1) else s

theorem foldl_collect (l : List α) : ∀ s : List α × ℕ,
    l.foldl (collect accept) s =
      (s.1 ++ (l.filter accept).take s.2, s.2 - (l.filter accept).length) := by
  induction l with
  | nil => intro s; simp
  | cons a l ih =>
    rintro ⟨xs, n⟩
    rw [List.foldl_cons, ih]
    unfold collect
    dsimp only
    by_cases hn : n = 0
    · simp [hn]
    · obtain ⟨m, rfl⟩ := Nat.exists_eq_succ_of_ne_zero hn
      by_cases ha : accept a = true
      · simp [ha]
      · simp [ha]

variable (accept stream) in
/-- A sampler that wants `n` elements, after reading `k`. -/
def sampled (n k : ℕ) : List α × ℕ :=
  ((accepted accept stream k).take n, n - (accepted accept stream k).length)

/-- **One block.** -/
theorem foldl_collect_block (n k m : ℕ) :
    (block stream k m).foldl (collect accept) (sampled accept stream n k) =
      sampled accept stream n (k + m) := by
  rw [foldl_collect]
  unfold sampled
  rw [accepted_add, List.take_append, List.length_append, Nat.sub_add_eq]

end Core
