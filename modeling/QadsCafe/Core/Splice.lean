import Mathlib.Data.List.Nodup

/-!
# Rows of an edited list

An edit of a list replaces some rows by new ones; an insertion replaces none,
a deletion puts none. `Splice.track` follows a row through an edit: what was in
it is afterwards in the row that `track` gives (`Splice.getElem?_track`), or is
not in the list any more (`Splice.not_mem_of_track`). With a name for each
entry, erasing a row is leaving out the name in it (`eraseIdx_eq_filter`,
`row_of_eraseIdx_eq`).
-/
namespace Core

/-- From row `start` on, `removed` rows are replaced by `added` new ones. -/
structure Splice where
  start : Nat
  removed : Nat := 0
  added : Nat := 0
  deriving DecidableEq, Repr

namespace Splice

variable {α β : Type}

def apply (e : Splice) (new l : List α) : List α :=
  l.take e.start ++ new ++ l.drop (e.start + e.removed)

/-- The row that a row is in after the edit. -/
def track (e : Splice) (row : Nat) : Option Nat :=
  if row < e.start then some row
  else if row < e.start + e.removed then none
  else some (row - e.removed + e.added)

theorem apply_nil_of_removed_zero (start added : Nat) (l : List α) :
    apply ⟨start, 0, added⟩ [] l = l := by
  simp [apply]

/-- The rows between two parts of the list are replaced. -/
theorem apply_middle (l₁ m l₂ new : List α) (added : Nat) :
    apply ⟨l₁.length, m.length, added⟩ new (l₁ ++ m ++ l₂) = l₁ ++ new ++ l₂ := by
  have htake : (l₁ ++ m ++ l₂).take l₁.length = l₁ := by
    rw [List.append_assoc, List.take_left]
  have hdrop : (l₁ ++ m ++ l₂).drop (l₁.length + m.length) = l₂ := by
    rw [← List.length_append, List.drop_left]
  rw [apply, htake, hdrop]

theorem apply_eraseIdx (row : Nat) (l : List α) : apply ⟨row, 1, 0⟩ [] l = l.eraseIdx row := by
  rw [apply, List.append_nil, List.eraseIdx_eq_take_drop_succ]

theorem mem_apply {e : Splice} {new l : List α} {x : α} (h : x ∈ e.apply new l) : x ∈ new ∨ x ∈ l := by
  simp only [apply, List.mem_append] at h
  rcases h with (h | h) | h
  · exact .inr (List.mem_of_mem_take h)
  · exact .inl h
  · exact .inr (List.mem_of_mem_drop h)

/-- **Followed.** -/
theorem getElem?_track {e : Splice} {new l : List α} {row row' : Nat} {x : α}
    (hnew : new.length = e.added) (hx : l[row]? = some x) (h : e.track row = some row') :
    (e.apply new l)[row']? = some x := by
  have hlt := (List.getElem?_eq_some_iff.mp hx).1
  unfold track at h
  split at h
  · rename_i hrow
    cases h
    rw [apply, List.append_assoc, List.getElem?_append_left (by rw [List.length_take]; omega),
      List.getElem?_take, if_pos hrow, hx]
  split at h
  · cases h
  · rename_i hstart hrow
    cases h
    have hlen : (l.take e.start ++ new).length = e.start + e.added := by
      rw [List.length_append, List.length_take_of_le (by omega), hnew]
    rw [apply, List.getElem?_append_right (by omega), hlen, List.getElem?_drop, ← hx]
    congr 1
    omega

/-- **Removed.** -/
theorem not_mem_of_track {e : Splice} {new l : List α} {row : Nat} {x : α} {f : α → β}
    (hnodup : (l.map f).Nodup) (hnew : ∀ y ∈ new, f y ≠ f x) (hx : l[row]? = some x)
    (h : e.track row = none) : ∀ y ∈ e.apply new l, f y ≠ f x := by
  have hrow : e.start ≤ row ∧ row < e.start + e.removed := by
    unfold track at h
    split at h
    · cases h
    split at h
    · omega
    · cases h
  -- an entry of that name is in row `row`
  have hsame : ∀ {j : Nat} {y : α}, l[j]? = some y → f y = f x → j = row := by
    intro j y hy he
    have hj : (l.map f)[j]? = some (f x) := by rw [List.getElem?_map, hy, Option.map_some, he]
    have hr : (l.map f)[row]? = some (f x) := by rw [List.getElem?_map, hx, Option.map_some]
    have hlt : j < (l.map f).length := (List.getElem?_eq_some_iff.mp hj).1
    exact (List.getElem?_inj hlt hnodup).mp (hj.trans hr.symm)
  intro y hy he
  simp only [apply, List.mem_append] at hy
  rcases hy with (hy | hy) | hy
  · obtain ⟨j, hj⟩ := List.getElem?_of_mem hy
    rw [List.getElem?_take] at hj
    split at hj
    · have := hsame hj he
      omega
    · cases hj
  · exact hnew y hy he
  · obtain ⟨j, hj⟩ := List.getElem?_of_mem hy
    rw [List.getElem?_drop] at hj
    have := hsame hj he
    omega

end Splice

/-! ## One row, and one name -/

section
variable {α β : Type} [DecidableEq β] {f : α → β}

/-- Where names are distinct, erasing a row is leaving out its name. -/
theorem eraseIdx_eq_filter {x : α} : ∀ {l : List α} {k : Nat}, (l.map f).Nodup → l[k]? = some x →
    l.eraseIdx k = l.filter fun y => f y ≠ f x
  | [], k, _, hk => by cases hk
  | a :: l, 0, hn, hk => by
    cases hk
    rw [List.map_cons, List.nodup_cons] at hn
    rw [List.eraseIdx_cons_zero, List.filter_cons_of_neg (by simp)]
    symm
    rw [List.filter_eq_self]
    intro y hy
    rw [decide_eq_true_eq]
    intro he
    exact hn.1 (he ▸ List.mem_map_of_mem hy)
  | a :: l, k + 1, hn, hk => by
    rw [List.map_cons, List.nodup_cons] at hn
    have hk' : l[k]? = some x := hk
    have ha : f a ≠ f x := by
      intro he
      exact hn.1 (he ▸ List.mem_map_of_mem (List.mem_of_getElem? hk'))
    rw [List.eraseIdx_cons_succ, List.filter_cons_of_pos (by simpa using ha),
      eraseIdx_eq_filter hn.2 hk']

/-- Erasing a row left out a name, so the name was there. -/
theorem exists_of_eraseIdx_eq {r : β} {l : List α} {k : Nat}
    (hk : k < l.length) (h : l.eraseIdx k = l.filter fun y => f y ≠ r) : ∃ z ∈ l, f z = r := by
  by_contra hn
  have hall : (l.filter fun y => f y ≠ r) = l := by
    rw [List.filter_eq_self]
    intro y hy
    rw [decide_eq_true_eq]
    exact fun he => hn ⟨y, hy, he⟩
  have hlen := congrArg List.length h
  rw [hall, List.length_eraseIdx_of_lt hk] at hlen
  omega

/-- It was the row of that name. -/
theorem row_of_eraseIdx_eq {x : α} {l : List α} {j k : Nat} (hj : l[j]? = some x)
    (h : l.eraseIdx k = l.filter fun y => f y ≠ f x) : j = k := by
  by_contra hne
  have hmem : x ∈ l.eraseIdx k := List.mem_eraseIdx_iff_getElem?.mpr ⟨j, hne, hj⟩
  rw [h, List.mem_filter] at hmem
  simp at hmem

end

end Core
