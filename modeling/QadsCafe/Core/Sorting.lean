import Mathlib.Order.RelClasses
import Mathlib.Data.List.Basic

/-!
# Sorting by a predicate

A library sort takes a predicate `lt` and promises a stable sort if `lt` is a
strict weak ordering on the elements of the list. `SortBy α` is any such sort:
of a predicate that is none it may make anything.

`StableSorted.unique`: the promise leaves no choice, so where it holds every
such sort is the merge sort.
-/
namespace Core

variable {α β : Type}

/-- `lt` is a strict weak ordering on the elements of `l`: irreflexive and
transitive, hence asymmetric, with transitive incomparability. -/
def StrictWeakOn (lt : α → α → Bool) (l : List α) : Prop :=
  IsStrictWeakOrder {a // a ∈ l} fun a b => lt a b

/-- Neither is before the other. -/
def incomparable (lt : α → α → Bool) (a b : α) : Bool := !lt a b && !lt b a

theorem incomparable_iff {lt : α → α → Bool} {a b : α} :
    incomparable lt a b = true ↔ ¬ lt a b ∧ ¬ lt b a := by simp [incomparable]

/-- `l'` is the stable sort of `l`. -/
structure StableSorted (lt : α → α → Bool) (l l' : List α) : Prop where
  perm : l'.Perm l
  sorted : l'.Pairwise fun a b => ¬ lt b a
  stable : ∀ a ∈ l, l'.filter (incomparable lt a) = l.filter (incomparable lt a)

structure SortBy (α : Type) where
  sort : (α → α → Bool) → List α → List α
  sorts : ∀ lt l, StrictWeakOn lt l → StableSorted lt l (sort lt l)

namespace StrictWeakOn

variable {lt : α → α → Bool} {l : List α}

theorem irrefl (h : StrictWeakOn lt l) {a : α} (ha : a ∈ l) : ¬ lt a a :=
  h.toIsStrictOrder.toIrrefl.irrefl ⟨a, ha⟩

theorem incomparable_self (h : StrictWeakOn lt l) {a : α} (ha : a ∈ l) : incomparable lt a a = true :=
  incomparable_iff.mpr ⟨h.irrefl ha, h.irrefl ha⟩

end StrictWeakOn

/-! ## There is one -/

/-- `a` may stand before `b`. -/
def before (lt : α → α → Bool) (a b : α) : Bool := !lt b a

theorem before_iff {lt : α → α → Bool} {a b : α} : before lt a b = true ↔ ¬ lt b a := by
  simp [before]

section

variable {lt : α → α → Bool} (h : IsStrictWeakOrder α fun a b => lt a b)
include h

theorem before_total (a b : α) : (before lt a b || before lt b a) = true := by
  rw [Bool.or_eq_true, before_iff, before_iff]
  by_contra hn
  rw [not_or, not_not, not_not] at hn
  exact asymm_of (fun a b => lt a b = true) hn.1 hn.2

/-- Not being after is transitive. -/
theorem before_trans (a b c : α) (hab : before lt a b = true) (hbc : before lt b c = true) :
    before lt a c = true := by
  rw [before_iff] at *
  intro hca
  have hnab : ¬ lt a b := fun hlt => hbc (h.trans _ _ _ hca hlt)
  have hnbc : ¬ lt b c := fun hlt => hab (h.trans _ _ _ hlt hca)
  exact (h.incomp_trans a b c ⟨hnab, hab⟩ ⟨hnbc, hbc⟩).2 hca

/-- Two elements incomparable to a third may stand in any order. -/
theorem before_of_incomparable {a b c : α} (hb : incomparable lt a b = true)
    (hc : incomparable lt a c = true) : before lt b c = true := by
  simp only [incomparable_iff] at hb hc
  exact before_iff.mpr (h.incomp_trans b a c hb.symm hc).2

theorem stableSorted_mergeSort (l : List α) : StableSorted lt l (l.mergeSort (before lt)) := by
  have htrans := before_trans h
  have htotal := before_total h
  have hperm := List.mergeSort_perm l (before lt)
  refine ⟨hperm, ?_, fun a _ => ?_⟩
  · exact (List.pairwise_mergeSort htrans htotal l).imp fun hab => before_iff.mp hab
  · -- the elements incomparable to `a` are sorted as they stand
    have htie : (l.filter (incomparable lt a)).Pairwise fun b c => before lt b c = true :=
      List.pairwise_of_forall_mem_list fun b hb c hc =>
        before_of_incomparable h (List.of_mem_filter hb) (List.of_mem_filter hc)
    have hsub := (List.sublist_mergeSort htrans htotal htie List.filter_sublist).filter
      (incomparable lt a)
    rw [List.filter_filter, show (fun b => incomparable lt a b && incomparable lt a b) = _ from
      funext fun b => Bool.and_self _] at hsub
    exact (hsub.eq_of_length (hperm.filter _).length_eq.symm).symm

end

/-- A sort of keys sorts what has them. -/
theorem StableSorted.map {lt : β → β → Bool} {f : α → β} {l l' : List α}
    (h : StableSorted (fun a b => lt (f a) (f b)) l l') : StableSorted lt (l.map f) (l'.map f) := by
  refine ⟨h.perm.map f, List.pairwise_map.mpr h.sorted, fun b hb => ?_⟩
  obtain ⟨a, ha, rfl⟩ := List.mem_map.mp hb
  rw [List.filter_map, List.filter_map]
  exact congrArg (List.map f) (h.stable a ha)

/-- The merge sort only compares elements of the list. -/
theorem StrictWeakOn.mergeSort {lt : α → α → Bool} {l : List α} (h : StrictWeakOn lt l) :
    StableSorted lt l (l.mergeSort (before lt)) := by
  have hsub : StableSorted lt (l.attach.map Subtype.val) _ := (stableSorted_mergeSort h l.attach).map
  have hmap : (l.attach.mergeSort (before fun a b => lt a.1 b.1)).map Subtype.val =
      (l.attach.map Subtype.val).mergeSort (before lt) := List.map_mergeSort fun _ _ _ _ => rfl
  rw [hmap, List.attach_map_subtype_val] at hsub
  exact hsub

def SortBy.mergeSort : SortBy α where
  sort lt l := l.mergeSort (before lt)
  sorts _ _ h := h.mergeSort

/-! ## There is no other -/

/-- The first elements of two stable sorts of a list agree. -/
theorem head_eq {lt : α → α → Bool} {a b : α} {l₁ l₂ : List α} (hperm : (a :: l₁).Perm (b :: l₂))
    (h₁ : ∀ c ∈ l₁, ¬ lt c a) (h₂ : ∀ c ∈ l₂, ¬ lt c b) (haa : incomparable lt a a = true)
    (hstable : (a :: l₁).filter (incomparable lt a) = (b :: l₂).filter (incomparable lt a)) :
    a = b := by
  by_contra hne
  have ha : a ∈ l₂ := (List.mem_cons.mp (hperm.mem_iff.mp List.mem_cons_self)).resolve_left hne
  have hb : b ∈ l₁ :=
    (List.mem_cons.mp (hperm.mem_iff.mpr List.mem_cons_self)).resolve_left (Ne.symm hne)
  have hab : incomparable lt a b = true := incomparable_iff.mpr ⟨h₂ a ha, h₁ b hb⟩
  rw [List.filter_cons_of_pos haa, List.filter_cons_of_pos hab] at hstable
  exact hne (List.head_eq_of_cons_eq hstable)

theorem eq_of_stable {lt : α → α → Bool} {l₁ : List α} : ∀ {l₂ : List α}, l₁.Perm l₂ →
    (∀ a ∈ l₁, incomparable lt a a = true) → l₁.Pairwise (fun a b => ¬ lt b a) →
    l₂.Pairwise (fun a b => ¬ lt b a) →
    (∀ a ∈ l₁, l₁.filter (incomparable lt a) = l₂.filter (incomparable lt a)) → l₁ = l₂ := by
  induction l₁ with
  | nil => intro l₂ hperm _ _ _ _; exact hperm.nil_eq
  | cons a l₁ ih =>
    intro l₂ hperm hrefl h₁ h₂ hstable
    cases l₂ with
    | nil => exact absurd hperm.length_eq (Nat.succ_ne_zero _)
    | cons b l₂ =>
      rw [List.pairwise_cons] at h₁ h₂
      have haa := hrefl a List.mem_cons_self
      obtain rfl := head_eq hperm h₁.1 h₂.1 haa (hstable a List.mem_cons_self)
      have htail : ∀ c ∈ l₁, l₁.filter (incomparable lt c) = l₂.filter (incomparable lt c) := by
        intro c hc
        have hs := hstable c (List.mem_cons_of_mem a hc)
        by_cases hca : incomparable lt c a = true
        · rw [List.filter_cons_of_pos hca, List.filter_cons_of_pos hca] at hs
          exact List.tail_eq_of_cons_eq hs
        · rw [List.filter_cons_of_neg hca, List.filter_cons_of_neg hca] at hs
          exact hs
      rw [ih hperm.cons_inv (fun c hc => hrefl c (List.mem_cons_of_mem a hc)) h₁.2 h₂.2 htail]

/-- A list has one stable sort. -/
theorem StableSorted.unique {lt : α → α → Bool} {l l₁ l₂ : List α} (h : StrictWeakOn lt l)
    (h₁ : StableSorted lt l l₁) (h₂ : StableSorted lt l l₂) : l₁ = l₂ := by
  refine eq_of_stable (h₁.perm.trans h₂.perm.symm) (fun a ha => ?_) h₁.sorted h₂.sorted fun a ha => ?_
  · exact h.incomparable_self (h₁.perm.mem_iff.mp ha)
  · have hl := h₁.perm.mem_iff.mp ha
    rw [h₁.stable a hl, h₂.stable a hl]

theorem SortBy.sort_eq (s : SortBy α) {lt : α → α → Bool} {l : List α} (h : StrictWeakOn lt l) :
    s.sort lt l = l.mergeSort (before lt) := (s.sorts lt l h).unique h h.mergeSort

end Core
