import QadsCafe.L4App.Steps

/-!
# The basket screen

The screen lists the items of the two orders in one collection view; with no
item it has one row, a placeholder. A row number is split at the number of
cafe items, which moves as items are deleted. `rows_of_basket` says that the
rows are those of one list, the cafe's items followed by the bar's, and that
deleting rows is deleting from that list.
-/
namespace QadsCafe

open Core

/-- mirrors BasketViewController.swift:56-76 -/
inductive BasketCell where
  | emptyBasket
  | orderItem (x : OrderItem)

namespace User

/-- mirrors BasketViewController.swift:52-54 -/
def numberOfItemsInSection (u : User) : Nat :=
  max 1 (u.cafeOrder.items.length + u.barOrder.items.length)

/-- mirrors BasketViewController.swift:56-76 -/
def cellForItemAt (u : User) (row : Nat) : Option BasketCell :=
  if u.cafeOrder.items.length + u.barOrder.items.length = 0 then some .emptyBasket
  else (u.getItemAt row).map .orderItem

/-- Confirmed deletions. Only the cell of an item has the button.
mirrors BasketViewController.swift:90-109 and OrderItemsCollectionViewCell.swift:40-42 -/
def deletions : LTS User Nat where
  init _ := True
  step u row v :=
    row < u.numberOfItemsInSection ∧ (∃ x, u.cellForItemAt row = some (.orderItem x)) ∧
      u.removeItemAt row = some v

/-- The one list behind the rows. -/
def basket (u : User) : List OrderItem := u.cafeOrder.items ++ u.barOrder.items

/-- Deletions on a plain list. -/
def listDeletions (α : Type) : LTS (List α) Nat where
  init _ := True
  step l i l' := i < l.length ∧ l' = l.eraseIdx i

theorem length_basket (u : User) :
    u.basket.length = u.cafeOrder.items.length + u.barOrder.items.length := List.length_append

theorem getItemAt_basket (u : User) (row : Nat) : u.getItemAt row = u.basket[row]? := by
  unfold getItemAt basket
  split
  · rename_i h
    rw [List.getElem?_append_left h]
  · rename_i h
    rw [List.getElem?_append_right (by omega)]

/-- What one deletion does: its row in the order it belongs to, and the rest. -/
structure Deleted (u v : User) (row : Nat) (x : OrderItem) : Prop where
  item : (u.order (u.locate row).1).items[(u.locate row).2]? = some x
  items : v.basket = u.basket.eraseIdx row
  price : (v.order (u.locate row).1).price = (u.order (u.locate row).1).price - x.price
  other : ∀ b, b ≠ (u.locate row).1 → v.order b = u.order b

theorem removeItemAt_deleted {u : User} {row : Nat} {x : OrderItem} (h : u.basket[row]? = some x) :
    ∃ v, u.removeItemAt row = some v ∧ Deleted u v row x := by
  have hitem : (u.order (u.locate row).1).items[(u.locate row).2]? = some x := by
    rw [← getItemAt_eq, getItemAt_basket, h]
  refine ⟨_, by rw [removeItemAt_eq, Order.removeItemAt, hitem]; rfl, hitem, ?_, ?_, fun b hb => ?_⟩
  · unfold locate basket
    have hlt : row < u.basket.length := (List.getElem?_eq_some_iff.mp h).1
    rw [length_basket] at hlt
    split
    · rename_i hrow
      exact (List.eraseIdx_append_of_lt_length hrow _).symm
    · rename_i hrow
      have hle : u.cafeOrder.items.length ≤ row := by omega
      exact (List.eraseIdx_append_of_length_le hle _).symm
  · rw [order_setOrder, if_pos rfl]
  · rw [order_setOrder, if_neg hb]

theorem numberOfItemsInSection_basket {u : User} (h : u.basket ≠ []) :
    u.numberOfItemsInSection = u.basket.length := by
  have hlen := List.length_pos_iff.mpr h
  rw [length_basket] at hlen ⊢
  unfold numberOfItemsInSection
  omega

theorem cellForItemAt_basket {u : User} {row : Nat} {x : OrderItem} (h : u.basket[row]? = some x) :
    u.cellForItemAt row = some (.orderItem x) := by
  have hlt := (List.getElem?_eq_some_iff.mp h).1
  rw [length_basket] at hlt
  unfold cellForItemAt
  rw [if_neg (by omega), getItemAt_basket, h]
  rfl

theorem cellForItemAt_empty {u : User} (h : u.basket = []) (row : Nat) :
    u.cellForItemAt row = some .emptyBasket := by
  have hlen := congrArg List.length h
  rw [length_basket] at hlen
  exact if_pos hlen

/-- A deletion at a row of an item is one on the list. -/
theorem deletions_step {u v : User} {row : Nat} (h : deletions.step u row v) :
    (listDeletions OrderItem).step u.basket row v.basket := by
  obtain ⟨hrow, ⟨x, hx⟩, hv⟩ := h
  have hne : u.basket ≠ [] := by
    intro he
    rw [cellForItemAt_empty he] at hx
    cases hx
  rw [numberOfItemsInSection_basket hne] at hrow
  obtain ⟨v', hv', hd⟩ := removeItemAt_deleted (List.getElem?_eq_getElem hrow)
  obtain rfl := Option.some.inj (hv.symm.trans hv')
  exact ⟨hrow, hd.items⟩

theorem listDeletions_step {u : User} {row : Nat} {l : List OrderItem}
    (h : (listDeletions OrderItem).step u.basket row l) :
    ∃ v, deletions.step u row v ∧ v.basket = l := by
  obtain ⟨hrow, rfl⟩ := h
  have hx : u.basket[row]? = some u.basket[row] := List.getElem?_eq_getElem hrow
  have hne : u.basket ≠ [] := List.length_pos_iff.mp (by omega)
  obtain ⟨v, hv, hd⟩ := removeItemAt_deleted hx
  exact ⟨v, ⟨by rw [numberOfItemsInSection_basket hne]; exact hrow,
    ⟨_, cellForItemAt_basket hx⟩, hv⟩, hd.items⟩

/-- **The rows of the basket.** An empty basket has one row, the placeholder.
Otherwise row `i` shows the `i`th item of the list, and deleting it traps
nowhere, deletes the `i`th item, lowers the price of its order by exactly its
price and leaves the other order alone. Runs of deletions are those of the
list. -/
theorem rows_of_basket (u : User) :
    (u.basket = [] → u.numberOfItemsInSection = 1 ∧ u.cellForItemAt 0 = some .emptyBasket) ∧
    (u.basket ≠ [] → ∀ row, row < u.numberOfItemsInSection → ∃ x v,
      u.basket[row]? = some x ∧ u.cellForItemAt row = some (.orderItem x) ∧
      u.getItemAt row = some x ∧ u.removeItemAt row = some v ∧ Deleted u v row x) ∧
    ∀ rows l, (listDeletions OrderItem).Run u.basket rows l ↔
      ∃ v, deletions.Run u rows v ∧ v.basket = l := by
  refine ⟨fun h => ⟨?_, cellForItemAt_empty h 0⟩, fun h row hrow => ?_, fun rows l => ?_⟩
  · have hlen := congrArg List.length h
    rw [length_basket, List.length_nil] at hlen
    unfold numberOfItemsInSection
    omega
  · rw [numberOfItemsInSection_basket h] at hrow
    have hx : u.basket[row]? = some u.basket[row] := List.getElem?_eq_getElem hrow
    obtain ⟨v, hv, hd⟩ := removeItemAt_deleted hx
    exact ⟨_, v, hx, cellForItemAt_basket hx, by rw [getItemAt_basket, hx], hv, hd⟩
  · exact LTS.run_iff_of_bisim (fun _ _ _ => deletions_step) fun _ _ _ => listDeletions_step

end User

end QadsCafe
