import QadsCafe.L4App.Baskets

/-!
# Totals

`addItem` and `removeItemAt` keep a running total beside the items, and a
reset may arrive at any moment. `Summed` says that the total is right; it
survives every step, so every document was also sent with the right price.
-/
namespace QadsCafe

open Core

/-- The prices of the items, summed. -/
def prices (l : List OrderItem) : ℚ := (l.map (·.price)).sum

namespace App

def Summed (_ : Basket) (o : Order) : Prop := o.price = prices o.items

theorem prices_eraseIdx {l : List OrderItem} {i : Nat} {x : OrderItem} (hx : l[i]? = some x) :
    prices (l.eraseIdx i) = prices l - x.price := by
  induction l generalizing i with
  | nil => cases hx
  | cons y l ih =>
    cases i with
    | zero =>
      simp only [List.getElem?_cons_zero, Option.some.injEq] at hx
      subst hx
      simp [prices]
    | succ i =>
      have h := ih (i := i) (by simpa using hx)
      simp only [prices, List.eraseIdx_cons_succ, List.map_cons, List.sum_cons] at h ⊢
      rw [h]; ring

theorem summed_addItem {b : Basket} {o : Order} (h : Summed b o) (x : OrderItem) :
    Summed b (o.addItem x) := by
  have h' : o.price = prices o.items := h
  simp only [Summed, Order.addItem, prices, List.map_append, List.sum_append, List.map_cons,
    List.map_nil, List.sum_cons, List.sum_nil] at h' ⊢
  rw [h']; ring

theorem summed_inv : BasketInv Summed := by
  refine ⟨fun b => rfl, fun b o o' hi hp h => ?_, fun b o i x hx h => ?_⟩
  · unfold Summed at h ⊢
    rw [hi, hp, h]
  · unfold Summed at h ⊢
    rw [prices_eraseIdx hx, h]

theorem summed_reachable {s : App} (h : app.Reachable s) : Holds Summed s :=
  holds_reachable (C := fun _ _ => True) summed_inv
    (fun s b x hi _ => summed_addItem (hi.order b) (s.stored x)) (h.when fun _ _ => trivial)

theorem total_of_issued {s : App} (h : Holds Summed s) {c : Callback} (hc : .issued c ∈ s.log)
    {w : Write} (hw : c.write? = some w) :
    w.data.items = w.built.flatMap units ∧ w.data.price = prices w.built := by
  obtain ⟨crsid, o, ho, hi, hd⟩ := h.issued c hc w hw
  rw [hd, ← hi]
  exact ⟨rfl, ho⟩

/-- **Totals.** In every reachable state both orders cost what their items
cost, the basket screen shows the sum of both, and every document ever sent
costs what the items it was built from cost. -/
theorem total_eq_sum (s : App) (h : app.Reachable s) :
    (∀ b, (s.order b).price = prices (s.order b).items) ∧
    s.user.setPrice = prices s.user.cafeOrder.items + prices s.user.barOrder.items ∧
    ∀ c, .issued c ∈ s.log → ∀ w, c.write? = some w →
      w.data.items = w.built.flatMap units ∧ w.data.price = prices w.built := by
  have hinv := summed_reachable h
  refine ⟨hinv.order, ?_, fun c hc w hw => total_of_issued hinv hc hw⟩
  have hcafe : s.user.cafeOrder.price = _ := hinv.order .cafe
  have hbar : s.user.barOrder.price = _ := hinv.order .bar
  rw [User.setPrice, hcafe, hbar, add_comm]
  rfl

/-- One checkout, then another item. -/
def refilled : List Ev :=
  signUp ++ [.addItem .cafe (plainItem "tea" "Cafe"), .checkout fun _ => 0, .reply 0 true,
    .reply 0 true, .addItem .bar (plainItem "ale" "Bar")]

theorem total_refilled : ∃ s, app.Run {} refilled s ∧ s.user.setPrice = 3 / 2 := by
  have hrun : app.Run {} refilled _ := LTS.run_of_exec rfl
  refine ⟨_, hrun, ?_⟩
  rw [(total_eq_sum _ (hrun.reachable launch_default)).2.1]
  decide +kernel

end App

end QadsCafe
