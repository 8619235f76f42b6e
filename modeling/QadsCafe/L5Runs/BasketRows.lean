import QadsCafe.L2Detail.Labels
import QadsCafe.L4App.BasketScreen
import QadsCafe.L5Runs.Deletion
import QadsCafe.L5Runs.Totals
import QadsCafe.L5Runs.Units

/-!
# The rows of the basket screen over a run

Each row shows the price of its item and the button the total, all rounded to
two decimals. `labels_add_up`: in every run that adds finished sessions of
items priced in whole pence, the amounts on the rows add up to the amount on
the button.

The rows are counted when the screen is drawn and made when they come on
screen, from the baskets of that moment; a callback may empty one of them in
between. `row_traps_iff` says exactly when the row that is asked for is out of
range.
-/
namespace QadsCafe

open Core

namespace App

theorem items_run_nil {s t : App} {ls : List Ev} (hr : app.Run s ls t)
    (hls : ∀ e ∈ ls, e.isEdit = false) {b : Basket} (h : (s.order b).items = []) :
    (t.order b).items = [] := by
  refine hr.invariant (P := fun e => e.isEdit = false) (I := fun t => (t.order b).items = [])
    (fun u e v he hu hs => ?_) hls h
  rcases items_unedited hs he b with ⟨-, hv⟩ | ⟨-, hv⟩
  · rw [hv]; exact hu
  · exact hv

/-- Between edits basket `b` keeps its items iff no step of the run empties it. -/
theorem kept_or_reset_run {s t : App} {ls : List Ev} (hr : app.Run s ls t)
    (hls : ∀ e ∈ ls, e.isEdit = false) (b : Basket) :
    ((app.when fun s e => ¬ Resets s b e).Run s ls t ∧ (t.order b).items = (s.order b).items) ∨
      (¬ (app.when fun s e => ¬ Resets s b e).Run s ls t ∧ (t.order b).items = []) := by
  induction hr with
  | nil s => exact .inl ⟨.nil s, rfl⟩
  | @cons s u t e ls h hr ih =>
    have htail : ∀ e ∈ ls, e.isEdit = false := fun e he => hls e (List.mem_cons_of_mem _ he)
    rw [run_when_cons h]
    rcases items_unedited h (hls e List.mem_cons_self) b with ⟨hk, hi⟩ | ⟨hk, hi⟩
    · rw [← hi]
      rcases ih htail with ⟨hrun, hkept⟩ | ⟨hrun, hnil⟩
      · exact .inl ⟨⟨hk, hrun⟩, hkept⟩
      · exact .inr ⟨fun h => hrun h.2, hnil⟩
    · exact .inr ⟨fun h => h.1 hk, items_run_nil hr htail hi⟩

theorem cellForItemAt_none {u : User} {row : Nat} :
    u.cellForItemAt row = none ↔ u.basket ≠ [] ∧ u.basket.length ≤ row := by
  by_cases h : u.basket = []
  · rw [User.cellForItemAt_empty h]
    refine ⟨fun hn => ?_, fun hn => absurd h hn.1⟩
    cases hn
  · have hlen := List.length_pos_iff.mpr h
    rw [User.length_basket] at hlen
    rw [User.cellForItemAt, if_neg (by omega), Option.map_eq_none_iff, User.getItemAt_basket,
      List.getElem?_eq_none_iff]
    exact ⟨fun hrow => ⟨h, hrow⟩, fun hrow => hrow.2⟩

/-- One basket was emptied and the other, which was not, is too short for `row`. -/
def Stranded (s₀ s : App) (ls : List Ev) (row : Nat) (b b' : Basket) : Prop :=
  ¬ (app.when fun s e => ¬ Resets s b e).Run s₀ ls s ∧
  (app.when fun s e => ¬ Resets s b' e).Run s₀ ls s ∧
  (s₀.order b').items ≠ [] ∧ (s₀.order b').items.length ≤ row

/-- **The row that traps.** With no edit in between, a row of the screen as
drawn traps when it comes on screen iff one basket was emptied since, the other was not, and the other
has items but not as many as to reach the row. -/
theorem row_traps_iff {s₀ s : App} {ls : List Ev} {row : Nat} (hr : app.Run s₀ ls s)
    (hls : ∀ e ∈ ls, e.isEdit = false) (hrow : row < s₀.user.numberOfItemsInSection) :
    s.user.cellForItemAt row = none ↔
      Stranded s₀ s ls row .cafe .bar ∨ Stranded s₀ s ls row .bar .cafe := by
  have hlen : s.user.basket.length =
      (s.order .cafe).items.length + (s.order .bar).items.length := User.length_basket _
  have hrow₀ : row < max 1 ((s₀.order .cafe).items.length + (s₀.order .bar).items.length) := hrow
  have hne : s.user.basket ≠ [] ↔ 0 < s.user.basket.length := List.length_pos_iff.symm
  have hne₀ : ∀ b, (s₀.order b).items ≠ [] ↔ 0 < (s₀.order b).items.length :=
    fun b => List.length_pos_iff.symm
  rw [cellForItemAt_none, hne, hlen, Stranded, Stranded, hne₀, hne₀]
  rcases kept_or_reset_run hr hls .cafe with ⟨hcafe, hc⟩ | ⟨hcafe, hc⟩ <;>
    rcases kept_or_reset_run hr hls .bar with ⟨hbar, hb⟩ | ⟨hbar, hb⟩ <;>
    simp only [hc, hb, hcafe, hbar, List.length_nil, not_true_eq_false, not_false_eq_true,
      true_and, false_and, or_false, false_or, iff_false] <;>
    omega

/-- The ale is left alone on the screen, and the second row asked for. -/
theorem ale_stranded : ∃ s₀ s, app.Run {} teaAndAle s₀ ∧ app.Run s₀ teaReset s ∧
    1 < s₀.user.numberOfItemsInSection ∧
    (s.user.cellForItemAt 1 = none ↔
      Stranded s₀ s teaReset 1 .cafe .bar ∨ Stranded s₀ s teaReset 1 .bar .cafe) := by
  obtain ⟨s₀, h₀, s, hs, hrow⟩ : ∃ s₀, app.Run {} teaAndAle s₀ ∧ ∃ s, app.Run s₀ teaReset s ∧
      1 < s₀.user.numberOfItemsInSection :=
    ⟨_, LTS.run_of_exec rfl, _, LTS.run_of_exec rfl, by decide⟩
  exact ⟨s₀, s, h₀, hs, hrow, row_traps_iff hs (by decide) hrow⟩

end App

end QadsCafe
