import QadsCafe.L2Detail.Session
import QadsCafe.L4App.Steps

/-!
# Invariants of the baskets

`BasketInv Q` are the closure properties that make `Q` an invariant of each
order: it is about the items and the price, holds of a fresh order and
survives a deletion. `Holds Q` says that both orders satisfy it and that every
request ever made encodes an order that did.

`Holds.step` is the induction over a run, once for all such `Q`; what is left
to the user is that an addition keeps `Q`, on the runs at hand.

`FromMenu` are the runs that add items as the screens do: a finished session,
opened from the menu of an outlet, put in its basket by `addToBasketTapped`.
-/
namespace QadsCafe

open Core

structure BasketInv (Q : Basket → Order → Prop) : Prop where
  fresh : ∀ b, Q b {}
  congr : ∀ b o o', o'.items = o.items → o'.price = o.price → Q b o → Q b o'
  removed : ∀ b o i x, o.items[i]? = some x → Q b o →
    Q b { o with price := o.price - x.price, items := o.items.eraseIdx i }

namespace App

structure Holds (Q : Basket → Order → Prop) (s : App) : Prop where
  order : ∀ b, Q b (s.order b)
  issued : ∀ c, .issued c ∈ s.log → ∀ w, c.write? = some w →
    ∃ crsid o, Q w.basket o ∧ o.items = w.built ∧ w.data = docOf crsid o

variable {Q : Basket → Order → Prop}

theorem Holds.congr {s t : App} (h : Holds Q s) (ho : ∀ b, Q b (t.order b))
    (hl : ∀ c, .issued c ∈ t.log → .issued c ∈ s.log) : Holds Q t :=
  ⟨ho, fun c hc => h.issued c (hl c hc)⟩

theorem Holds.issue {s : App} (h : Holds Q s) {c : Callback}
    (hc : ∀ w, c.write? = some w →
      ∃ crsid o, Q w.basket o ∧ o.items = w.built ∧ w.data = docOf crsid o) : Holds Q (s.issue c) := by
  refine ⟨h.order, fun k hk => ?_⟩
  simp only [log_issue, List.mem_append, List.mem_singleton, Obs.issued.injEq] at hk
  rcases hk with hk | rfl
  · exact h.issued k hk
  · exact hc

/-- `Q` of an order whose other fields changed. -/
theorem Holds.setOrder {s : App} (hQ : BasketInv Q) (h : Holds Q s) {b : Basket} {o : Order}
    (hi : o.items = (s.order b).items) (hp : o.price = (s.order b).price) :
    Holds Q (s.setOrder b o) := by
  refine h.congr (fun c => ?_) fun _ hc => hc
  rw [order_setOrder]
  split
  · rename_i hc; subst hc
    exact hQ.congr c (s.order c) o hi hp (h.order c)
  · exact h.order c

theorem Holds.submit {s t : App} {call : Nat} {now : Basket → Date} {b : Basket} (hQ : BasketInv Q)
    (h : Holds Q s) (hs : Submit s call now b t) : Holds Q t := by
  cases hs with
  | skip => exact h
  | trap => exact ⟨h.order, h.issued⟩
  | create =>
    refine ((h.congr (t := { s with nextID := s.nextID + 1 }) h.order fun _ hc => hc).setOrder hQ
      (o := s.savedOrder (now b) b) rfl rfl).issue fun w hw => ?_
    cases hw
    refine ⟨s.user.crsid, { s.stamp b with orderDate := some (now b) }, ?_, rfl, rfl⟩
    exact hQ.congr b (s.order b) _ rfl rfl (h.order b)
  | update _ _ _ doc =>
    refine (h.setOrder hQ (o := s.updatedOrder b) rfl rfl).issue fun w hw => ?_
    cases hw
    exact ⟨s.user.crsid, s.stamp b, hQ.congr b (s.order b) _ rfl rfl (h.order b), rfl, rfl⟩

theorem Holds.settle {s : App} (hQ : BasketInv Q) (h : Holds Q s) (c : Callback) (ok : Bool) :
    Holds Q (s.settle c ok) := by
  cases ok with
  | false => cases c <;> exact h
  | true =>
    cases c with
    | create w => exact Holds.setOrder hQ (s := s.store w) ⟨h.order, h.issued⟩ rfl rfl
    | update w => exact ⟨h.order, h.issued⟩
    | history call b uid ids => exact ⟨h.order, h.issued⟩

theorem Holds.resetAndComplete {s : App} (hQ : BasketInv Q) (h : Holds Q s) (call : Nat)
    (b : Basket) : Holds Q (s.resetAndComplete call b) := by
  refine h.congr (fun c => ?_) fun c hc => ?_
  · rw [order_resetAndComplete]
    split
    · exact hQ.fresh c
    · exact h.order c
  · simpa using hc

theorem Holds.append {s : App} (h : Holds Q s) (doc : Nat) : Holds Q (s.append doc) := by
  refine h.congr (fun c => ?_) fun c hc => ?_
  · rw [order_append]; exact h.order c
  · simpa using hc

theorem Holds.follow {s : App} (hQ : BasketInv Q) (h : Holds Q s) (c : Callback) :
    Holds Q (s.follow c) := by
  cases c with
  | create w =>
    refine follow_create s w fun t ha => ?_
    cases ha with
    | skip => exact h
    | trap doc => exact ⟨(h.append doc).order, (h.append doc).issued⟩
    | issue doc uid => exact (h.append doc).issue fun w hw => by cases hw
  | update w => exact h.resetAndComplete hQ _ _
  | history call b uid ids => exact h.resetAndComplete hQ _ _

/-- **Invariants of the baskets.** One step keeps `Q`, if an addition does. -/
theorem Holds.step {s t : App} {e : Ev} (hQ : BasketInv Q) (h : Holds Q s) (hs : s.step e = some t)
    (hadd : ∀ b x, e = .addItem b x → Q b ((s.order b).addItem (s.stored x))) : Holds Q t := by
  obtain ⟨-, -, hf⟩ := step_cases hs
  cases hf with
  | addItem b x =>
    refine h.congr (fun c => ?_) fun c hc => ?_
    · rw [order_addItem]
      split
      · rename_i hc; subst hc; exact hadd c x rfl
      · exact h.order c
    · simpa using hc
  | badIndex => exact ⟨h.order, h.issued⟩
  | removeItemAt index b i x hx =>
    refine h.congr (fun c => ?_) fun c hc => ?_
    · rw [order_removed]
      split
      · rename_i hc; subst hc; exact hQ.removed c _ i x hx (h.order c)
      · exact h.order c
    · simpa using hc
  | textFieldDidEndEditing text =>
    refine h.congr (fun c => ?_) fun _ hc => hc
    cases c with
    | cafe => exact hQ.congr .cafe (s.order .cafe) _ rfl rfl (h.order .cafe)
    | bar => exact hQ.congr .bar (s.order .bar) _ rfl rfl (h.order .bar)
  | checkout now =>
    have h0 : Holds Q { s with calls := s.calls + 1 } := ⟨h.order, h.issued⟩
    exact (h0.submit hQ (cafe_turn s now)).submit hQ (bar_turn s now)
  | reply i ok c l₁ l₂ =>
    have hset := h.settle hQ c ok
    have hans : Holds Q ((s.settle c ok).answered c ok (l₁ ++ l₂)) := by
      refine hset.congr hset.order fun k hk => ?_
      simpa using hk
    exact hans.follow hQ c
  | session _ _ f =>
    refine h.congr (fun b => ?_) fun c hc => ?_
    · rw [f.order]; exact h.order b
    · rw [f.log] at hc; exact hc

theorem Holds.launch {s : App} (hQ : BasketInv Q) (h : Launch s) : Holds Q s := by
  refine ⟨fun b => ?_, fun c hc => ?_⟩
  · rw [h.order]; exact hQ.fresh b
  · rw [h.log] at hc; cases hc

/-- The induction, over the runs whose steps meet `C`. -/
theorem holds_reachable {C : App → Ev → Prop} (hQ : BasketInv Q)
    (hadd : ∀ s b x, Holds Q s → C s (.addItem b x) → Q b ((s.order b).addItem (s.stored x)))
    {s : App} (h : (app.when C).Reachable s) : Holds Q s :=
  h.invariant (fun _ => Holds.launch hQ) fun s _ _ _ hi hs =>
    hi.step hQ hs.1 fun b x he => hadd s b x hi (he ▸ hs.2)

/-- A property of every item: an addition keeps it if it holds of the item. -/
theorem BasketInv.forall {P : Basket → OrderItem → Prop} :
    BasketInv fun b o => ∀ x ∈ o.items, P b x := by
  refine ⟨fun b x hx => ?_, fun b o o' hi _ h => ?_, fun b o i x _ h y hy => ?_⟩
  · cases hx
  · rw [hi]; exact h
  · exact h y (List.eraseIdx_subset hy)

end App

/-! ## Additions as the screens make them -/

/-- A finished session on an item listed in the menu of the outlet. -/
def Chosen (menuitems : Dict (Dict Value)) (x : OrderItem) : Prop :=
  ∃ category names item y, item ∈ loadItemsFor menuitems x.tag.menu.location category ∧
    (detail item names).Reachable y ∧ x = { y with tag := x.tag }

/-- Items are added by `addToBasketTapped` at the end of a session. -/
def FromMenu (menuitems : Dict (Dict Value)) (_ : App) (e : Ev) : Prop :=
  ∀ b x, e = .addItem b x → Chosen menuitems x ∧ e = addToBasketTapped x

theorem Chosen.location {menuitems : Dict (Dict Value)} {x : OrderItem} (h : Chosen menuitems x) :
    x.location = some x.tag.menu.location ∨ x.location = some "both" := by
  obtain ⟨category, names, item, y, hitem, hy, hx⟩ := h
  have hloc : x.location = y.location := by rw [hx]
  obtain ⟨x₀, h₀⟩ := hy.exists_init
  rw [hloc, (sameMenu_reachable h₀ hy).location, (createOrderItem_created h₀).location]
  exact loadItemsFor_location hitem

theorem Chosen.quantity {menuitems : Dict (Dict Value)} {x : OrderItem} (h : Chosen menuitems x) :
    1 ≤ x.quantity ∧ x.quantity ≤ 10 := by
  obtain ⟨category, names, item, y, -, hy, hx⟩ := h
  have hq := quantity_reachable hy
  rw [hx]; exact hq

theorem Chosen.stored {menuitems : Dict (Dict Value)} {x : OrderItem} (h : Chosen menuitems x)
    (s : App) : Chosen menuitems (s.stored x) := by
  obtain ⟨category, names, item, y, hitem, hy, hx⟩ := h
  refine ⟨category, names, item, y, hitem, hy, ?_⟩
  rw [hx]; rfl

namespace App

theorem chosen_reachable {menuitems : Dict (Dict Value)} {s : App}
    (h : (app.when (FromMenu menuitems)).Reachable s) :
    Holds (fun _ o => ∀ x ∈ o.items, Chosen menuitems x) s := by
  refine holds_reachable BasketInv.forall (fun s b x hi hC y hy => ?_) h
  simp only [Order.addItem, List.mem_append, List.mem_singleton] at hy
  rcases hy with hy | rfl
  · exact hi.order b y hy
  · exact (hC b x rfl).1.stored s

/-- Only items that can be encoded are added; the item's stepper starts at 1
(Main.storyboard:529). -/
def Sold (_ : App) (e : Ev) : Prop := ∀ b x, e = .addItem b x → 1 ≤ x.quantity

theorem encodable_reachable {s : App} (h : (app.when Sold).Reachable s) (b : Basket) :
    Encodable (s.order b).items := by
  have hholds : Holds (fun _ o => ∀ x ∈ o.items, 1 ≤ x.quantity) s := by
    refine holds_reachable BasketInv.forall (fun s b x hi hC y hy => ?_) h
    simp only [Order.addItem, List.mem_append, List.mem_singleton] at hy
    rcases hy with hy | rfl
    · exact hi.order b y hy
    · exact hC b x rfl
  exact hholds.order b

theorem encodable_of_chosen {menuitems : Dict (Dict Value)} {l : List OrderItem}
    (h : ∀ x ∈ l, Chosen menuitems x) : Encodable l := fun x hx => (h x hx).quantity.1

end App

end QadsCafe
