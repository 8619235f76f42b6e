import Mathlib.Algebra.BigOperators.Group.Finset.Basic
import Mathlib.Data.Finmap

/-!
# Dictionaries built by insertion

`dict key val l` inserts the entries of `l` one after the other, so of several
entries with one key only the last one is in it. `lastEntries` are the entries
that are, `shadowed` those that are not.

* `lookup_dict`: what is found under a key.
* `dict_injective`: with distinct keys the values can be read back.
* `exists_shadowed`, `dict_shadowed`: without, some entry can be changed and
  the dictionary is the same.
* `sum_keys`, `sum_entries`: a sum over the dictionary and over the list.
-/
namespace Core

variable {α κ β : Type} [DecidableEq κ] (key : α → κ) (val : α → β)

def dict (l : List α) : Finmap fun _ : κ => β := l.foldl (fun d a => d.insert (key a) (val a)) ∅

/-- The last entry of a key. -/
def lastKeyed : List α → κ → Option α
  | [], _ => none
  | a :: l, k => (lastKeyed l k).or (if key a = k then some a else none)

theorem lookup_foldl (l : List α) (k : κ) : ∀ d : Finmap fun _ : κ => β,
    (l.foldl (fun d a => d.insert (key a) (val a)) d).lookup k =
      ((lastKeyed key l k).map val).or (d.lookup k) := by
  induction l with
  | nil => intro d; rfl
  | cons a l ih =>
    intro d
    rw [List.foldl_cons, ih]
    simp only [lastKeyed]
    cases hl : lastKeyed key l k with
    | some b => simp
    | none =>
      by_cases hk : key a = k
      · subst hk; simp
      · simp [hk, Finmap.lookup_insert_of_ne d (Ne.symm hk)]

theorem lookup_dict (l : List α) (k : κ) :
    (dict key val l).lookup k = (lastKeyed key l k).map val := by
  rw [dict, lookup_foldl, Finmap.lookup_empty, Option.or_none]

theorem lastKeyed_append (l₁ l₂ : List α) (k : κ) :
    lastKeyed key (l₁ ++ l₂) k = (lastKeyed key l₂ k).or (lastKeyed key l₁ k) := by
  induction l₁ with
  | nil => simp [lastKeyed]
  | cons a l₁ ih => simp only [List.cons_append, lastKeyed, ih, Option.or_assoc]

theorem lastKeyed_map {γ : Type} (f : γ → α) (l : List γ) (k : κ) :
    lastKeyed key (l.map f) k = (lastKeyed (fun c => key (f c)) l k).map f := by
  induction l with
  | nil => rfl
  | cons c l ih =>
    simp only [List.map_cons, lastKeyed, ih]
    cases lastKeyed (fun c => key (f c)) l k with
    | some b => rfl
    | none =>
      by_cases hk : key (f c) = k
      · simp [hk]
      · simp [hk]

theorem lastKeyed_isSome (l : List α) (k : κ) : (lastKeyed key l k).isSome ↔ k ∈ l.map key := by
  induction l with
  | nil => simp [lastKeyed]
  | cons a l ih =>
    simp only [lastKeyed, Option.isSome_or, Bool.or_eq_true, ih, List.map_cons, List.mem_cons]
    by_cases hk : key a = k
    · simp [hk]
    · simp [hk, Ne.symm hk]

/-- The last entry of a key, and its place in the list. -/
theorem lastKeyed_split {l : List α} {k : κ} {a : α} (h : lastKeyed key l k = some a) :
    ∃ l₁ l₂, l = l₁ ++ a :: l₂ ∧ key a = k ∧ k ∉ l₂.map key := by
  induction l with
  | nil => cases h
  | cons b l ih =>
    simp only [lastKeyed] at h
    cases hl : lastKeyed key l k with
    | some c =>
      rw [hl, Option.some_or] at h
      obtain ⟨l₁, l₂, rfl, hk, hn⟩ := ih (hl.trans h)
      exact ⟨b :: l₁, l₂, rfl, hk, hn⟩
    | none =>
      rw [hl, Option.none_or] at h
      split at h
      · rename_i hk
        cases h
        refine ⟨[], l, rfl, hk, fun hm => ?_⟩
        have hsome := (lastKeyed_isSome key l k).mpr hm
        rw [hl] at hsome
        cases hsome
      · cases h

variable {key val}

theorem lastKeyed_eq {l : List α} (h : (l.map key).Nodup) {a : α} (ha : a ∈ l) :
    lastKeyed key l (key a) = some a := by
  induction l with
  | nil => cases ha
  | cons b l ih =>
    rw [List.map_cons, List.nodup_cons] at h
    simp only [lastKeyed]
    rcases List.mem_cons.mp ha with rfl | ha
    · have hnone : lastKeyed key l (key a) = none := by
        rw [← Option.not_isSome_iff_eq_none, lastKeyed_isSome]; exact h.1
      simp [hnone]
    · rw [ih h.2 ha]; rfl

/-- With distinct keys the dictionary determines the values. -/
theorem dict_injective {l l' : List α} (hn : (l.map key).Nodup) (hk : l'.map key = l.map key)
    (h : dict key val l = dict key val l') : l.map val = l'.map val := by
  have hread : ∀ m : List α, (m.map key).Nodup →
      m.map (fun a => some (val a)) = (m.map key).map fun k => (dict key val m).lookup k := by
    intro m hm
    rw [List.map_map]
    apply List.map_congr_left
    intro a ha
    simp only [Function.comp_apply, lookup_dict, lastKeyed_eq hm ha, Option.map_some]
  have hsome : (l.map val).map some = (l'.map val).map some := by
    rw [List.map_map, List.map_map]
    calc l.map (fun a => some (val a))
        = (l.map key).map fun k => (dict key val l).lookup k := hread l hn
      _ = (l'.map key).map fun k => (dict key val l').lookup k := by rw [hk, h]
      _ = l'.map fun a => some (val a) := (hread l' (by rw [hk]; exact hn)).symm
  exact List.map_injective_iff.mpr (Option.some_injective β) hsome

omit [DecidableEq κ] in
/-- Without distinct keys some entry has a later one with its key. -/
theorem exists_shadowed {l : List α} (h : ¬ (l.map key).Nodup) :
    ∃ l₁ a l₂, l = l₁ ++ a :: l₂ ∧ key a ∈ l₂.map key := by
  induction l with
  | nil => exact absurd List.nodup_nil h
  | cons a l ih =>
    rw [List.map_cons, List.nodup_cons, not_and_or, not_not] at h
    rcases h with h | h
    · exact ⟨[], a, l, rfl, h⟩
    · obtain ⟨l₁, b, l₂, rfl, hb⟩ := ih h
      exact ⟨a :: l₁, b, l₂, rfl, hb⟩

/-- Such an entry is not in the dictionary. -/
theorem dict_shadowed (l₁ : List α) {l₂ : List α} {a b : α} (hk : key b = key a)
    (h : key a ∈ l₂.map key) : dict key val (l₁ ++ a :: l₂) = dict key val (l₁ ++ b :: l₂) := by
  apply Finmap.ext_lookup
  intro k
  simp only [lookup_dict, lastKeyed_append, lastKeyed, hk]
  by_cases he : key a = k
  · have hs : (lastKeyed key l₂ k).isSome := by rw [lastKeyed_isSome, ← he]; exact h
    obtain ⟨c, hc⟩ := Option.isSome_iff_exists.mp hs
    rw [hc]; rfl
  · simp [he]

/-! ## Sums -/

variable (key)

def lastEntries : List α → List α
  | [] => []
  | a :: l => if key a ∈ l.map key then lastEntries l else a :: lastEntries l

def shadowed : List α → List α
  | [] => []
  | a :: l => if key a ∈ l.map key then a :: shadowed l else shadowed l

theorem sum_entries {M : Type} [AddCommMonoid M] (f : α → M) (l : List α) :
    (l.map f).sum = ((lastEntries key l).map f).sum + ((shadowed key l).map f).sum := by
  induction l with
  | nil => simp [lastEntries, shadowed]
  | cons a l ih =>
    simp only [lastEntries, shadowed]
    split
    · simp only [List.map_cons, List.sum_cons, ih]
      rw [add_left_comm]
    · simp only [List.map_cons, List.sum_cons, ih]
      rw [add_assoc]

variable (val)

theorem mem_keys_dict (l : List α) (k : κ) : k ∈ (dict key val l).keys ↔ k ∈ l.map key := by
  rw [Finmap.mem_keys, Finmap.mem_iff, ← lastKeyed_isSome, lookup_dict]
  cases lastKeyed key l k <;> simp

theorem sum_keys {M : Type} [AddCommMonoid M] (f : κ → M) (l : List α) :
    ∑ k ∈ (dict key val l).keys, f k = ((lastEntries key l).map fun a => f (key a)).sum := by
  induction l with
  | nil => simp [dict, lastEntries]
  | cons a l ih =>
    have hkeys : (dict key val (a :: l)).keys = insert (key a) (dict key val l).keys := by
      ext k
      rw [Finset.mem_insert, mem_keys_dict, mem_keys_dict, List.map_cons, List.mem_cons]
    rw [hkeys]
    simp only [lastEntries]
    split
    · rename_i h
      rw [Finset.insert_eq_of_mem ((mem_keys_dict key val l _).mpr h), ih]
    · rename_i h
      rw [Finset.sum_insert fun hm => h ((mem_keys_dict key val l _).mp hm), ih, List.map_cons,
        List.sum_cons]

/-- The entries of the dictionary are the last ones. -/
theorem lastKeyed_of_mem_lastEntries {l : List α} {a : α} (h : a ∈ lastEntries key l) :
    lastKeyed key l (key a) = some a := by
  induction l with
  | nil => cases h
  | cons b l ih =>
    simp only [lastEntries] at h
    simp only [lastKeyed]
    split at h
    · rw [ih h]; rfl
    · rename_i hb
      rcases List.mem_cons.mp h with rfl | h
      · have hnone : lastKeyed key l (key a) = none := by
          rw [← Option.not_isSome_iff_eq_none, lastKeyed_isSome]; exact hb
        simp [hnone]
      · rw [ih h]; rfl

end Core
