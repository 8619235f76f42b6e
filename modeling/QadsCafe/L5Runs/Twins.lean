import Mathlib.Data.List.Forall2
import QadsCafe.L4App.Sync
import QadsCafe.L5Runs.Relaunch

/-!
# Two runs of the same acts

`Twin a₁ a₂ s₁ s₂`: since `a₁` and `a₂` the two apps were used the same way.
They agree in what is on the screen and in what will be sent (`Order.core`),
their requests in flight pair up, and the `k`-th document created since `a₁`
has the content of the `k`-th created since `a₂`, but for its date. Document
IDs, object identities, the order history and the clock may differ.

Each step of one is a step of the other (`Twin.step`), so the runs are
(`Twin.run`).
-/
namespace QadsCafe

open Core

theorem forall₂_split {α β : Type} {R : α → β → Prop} :
    ∀ {l₁ : List α} {a : α} {l₂ : List α} {m : List β}, List.Forall₂ R (l₁ ++ a :: l₂) m →
      ∃ m₁ b m₂, m = m₁ ++ b :: m₂ ∧ m₁.length = l₁.length ∧ R a b ∧
        List.Forall₂ R (l₁ ++ l₂) (m₁ ++ m₂)
  | [], a, l₂, _, h => by
    cases h with
    | cons hab h => exact ⟨[], _, _, rfl, rfl, hab, h⟩
  | c :: l₁, a, l₂, _, h => by
    cases h with
    | cons hc h =>
      obtain ⟨m₁, b, m₂, rfl, hlen, hab, hrest⟩ := forall₂_split h
      exact ⟨_ :: m₁, b, m₂, rfl, congrArg (· + 1) hlen, hab, .cons hc hrest⟩

/-! ## What two orders have in common -/

/-- The item without the identity of its object. -/
def OrderItem.untag (x : OrderItem) : OrderItem := { x with tag := {} }

/-- The order without identities and without what a checkout sets again. -/
def Order.core (o : Order) : Order :=
  { o.bare with orderID := none, items := o.items.map OrderItem.untag }

/-- The document without its date. -/
def OrderDoc.timeless (d : OrderDoc) : OrderDoc := { d with orderDatetime := none }

/-- Both are the `k`-th ID from `n₁`, and from `n₂`. -/
def SameID (n₁ n₂ d₁ d₂ : Nat) : Prop := ∃ k, d₁ = n₁ + k ∧ d₂ = n₂ + k

section
variable (n₁ n₂ : Nat)

structure OrderTwin (o₁ o₂ : Order) : Prop where
  core : o₁.core = o₂.core
  orderID : Option.Rel (SameID n₁ n₂) o₁.orderID o₂.orderID

structure WriteTwin (w₁ w₂ : Write) : Prop where
  basket : w₁.basket = w₂.basket
  doc : SameID n₁ n₂ w₁.doc w₂.doc
  data : w₁.data.timeless = w₂.data.timeless

inductive CallbackTwin : Callback → Callback → Prop
  | create {w₁ w₂ : Write} (h : WriteTwin n₁ n₂ w₁ w₂) : CallbackTwin (.create w₁) (.create w₂)
  | update {w₁ w₂ : Write} (h : WriteTwin n₁ n₂ w₁ w₂) : CallbackTwin (.update w₁) (.update w₂)
  | history (call₁ call₂ : Nat) (b : Basket) (uid : String) (ids₁ ids₂ : List Nat) :
      CallbackTwin (.history call₁ b uid ids₁) (.history call₂ b uid ids₂)

end

theorem core_addItem (o : Order) (x : OrderItem) : (o.addItem x).core =
    { o.core with price := o.core.price + x.untag.price, items := o.core.items ++ [x.untag] } := by
  simp [Order.core, Order.addItem, Order.bare, OrderItem.untag]

theorem core_removed (o : Order) (i : Nat) (x : OrderItem) :
    ({ o with price := o.price - x.price, items := o.items.eraseIdx i } : Order).core =
      { o.core with price := o.core.price - x.untag.price, items := o.core.items.eraseIdx i } := by
  simp [Order.core, Order.bare, OrderItem.untag, List.eraseIdx_map]

theorem encodable_untag {l : List OrderItem} : Encodable (l.map OrderItem.untag) ↔ Encodable l := by
  simp [Encodable, OrderItem.untag]

/-- What an order with items is encoded to, but for the date. -/
theorem docOf_timeless {o : Order} (h : o.items ≠ []) (crsid : Option String) :
    (docOf crsid o).timeless = { docOf crsid { o.core with email := o.email, name := o.name } with
      orderDatetime := none } := by
  have hitems : (o.items.map OrderItem.untag).flatMap units = o.items.flatMap units :=
    List.flatMap_map _ _ _
  have hloc : lastLocation none (o.items.map OrderItem.untag) = lastLocation o.location o.items := by
    rw [App.lastLocation_none h, lastLocation, lastLocation, List.getLast?_map, Option.map_map]
    rfl
  show OrderDoc.mk _ _ _ _ (o.items.flatMap units) (lastLocation o.location o.items) _ _ _ _ _ = _
  rw [← hitems, ← hloc]
  rfl

namespace OrderTwin

variable {n₁ n₂ : Nat} {o₁ o₂ : Order}

theorem refl_core (h : o₁.core = o₂.core) (h₁ : o₁.orderID = none) (h₂ : o₂.orderID = none) :
    OrderTwin n₁ n₂ o₁ o₂ := ⟨h, by rw [h₁, h₂]; exact .none⟩

theorem items (h : OrderTwin n₁ n₂ o₁ o₂) :
    o₁.items.map OrderItem.untag = o₂.items.map OrderItem.untag := congrArg Order.items h.core

theorem length (h : OrderTwin n₁ n₂ o₁ o₂) : o₁.items.length = o₂.items.length := by
  have := congrArg List.length h.items
  simpa using this

theorem nil_iff (h : OrderTwin n₁ n₂ o₁ o₂) : o₁.items = [] ↔ o₂.items = [] := by
  rw [← List.length_eq_zero_iff, ← List.length_eq_zero_iff, h.length]

theorem encodable (h : OrderTwin n₁ n₂ o₁ o₂) : Encodable o₁.items ↔ Encodable o₂.items := by
  rw [← encodable_untag, h.items, encodable_untag]

theorem getElem? (h : OrderTwin n₁ n₂ o₁ o₂) (i : Nat) :
    (o₁.items[i]?).map OrderItem.untag = (o₂.items[i]?).map OrderItem.untag := by
  rw [← List.getElem?_map, ← List.getElem?_map, h.items]

theorem new (h : OrderTwin n₁ n₂ o₁ o₂) (h₁ : o₁.orderID = none) : o₂.orderID = none := by
  have hrel := h.orderID
  rw [h₁] at hrel
  generalize o₂.orderID = d at hrel
  cases hrel; rfl

theorem named (h : OrderTwin n₁ n₂ o₁ o₂) {d₁ : Nat} (h₁ : o₁.orderID = some d₁) :
    ∃ d₂, o₂.orderID = some d₂ ∧ SameID n₁ n₂ d₁ d₂ := by
  have hrel := h.orderID
  rw [h₁] at hrel
  generalize o₂.orderID = d at hrel
  cases hrel with
  | some hd => exact ⟨_, rfl, hd⟩

theorem addItem (h : OrderTwin n₁ n₂ o₁ o₂) {x₁ x₂ : OrderItem} (hx : x₁.untag = x₂.untag) :
    OrderTwin n₁ n₂ (o₁.addItem x₁) (o₂.addItem x₂) :=
  ⟨by rw [core_addItem, core_addItem, h.core, hx], h.orderID⟩

theorem removed (h : OrderTwin n₁ n₂ o₁ o₂) (i : Nat) {x₁ x₂ : OrderItem}
    (hx : x₁.untag = x₂.untag) :
    OrderTwin n₁ n₂ { o₁ with price := o₁.price - x₁.price, items := o₁.items.eraseIdx i }
      { o₂ with price := o₂.price - x₂.price, items := o₂.items.eraseIdx i } :=
  ⟨by rw [core_removed, core_removed, h.core, hx], h.orderID⟩

theorem note (h : OrderTwin n₁ n₂ o₁ o₂) (text : Option String) :
    OrderTwin n₁ n₂ { o₁ with note := text } { o₂ with note := text } :=
  ⟨congrArg (fun o : Order => { o with note := text }) h.core, h.orderID⟩

theorem docOf (h : OrderTwin n₁ n₂ o₁ o₂) (hi : o₁.items ≠ []) (he : o₁.email = o₂.email)
    (hn : o₁.name = o₂.name) (crsid : Option String) :
    (docOf crsid o₁).timeless = (docOf crsid o₂).timeless := by
  rw [docOf_timeless hi, docOf_timeless (fun h2 => hi (h.nil_iff.mpr h2)), h.core, he, hn]

end OrderTwin

/-- The same act, at any time. -/
def Ev.untimed : Ev → Ev
  | .checkout _ => .checkout fun _ => 0
  | e => e

theorem untimed_cases {e₁ e₂ : Ev} (h : e₁.untimed = e₂.untimed) :
    e₁ = e₂ ∨ ∃ now₁ now₂, e₁ = .checkout now₁ ∧ e₂ = .checkout now₂ := by
  cases e₁ with
  | checkout now₁ =>
    cases e₂ with
    | checkout now₂ => exact .inr ⟨now₁, now₂, rfl, rfl⟩
    | _ => cases h
  | _ =>
    cases e₂ <;> cases h
    exact .inl rfl

namespace App

/-- The documents written since `a₁` and since `a₂` correspond, and no older
one changed. -/
structure SameDocs (a₁ a₂ : App) (orders₁ orders₂ : Nat → Option Write) : Prop where
  since : ∀ k, (orders₁ (a₁.nextID + k)).map (·.data.timeless) =
    (orders₂ (a₂.nextID + k)).map (·.data.timeless)
  old₁ : ∀ d < a₁.nextID, orders₁ d = a₁.orders d
  old₂ : ∀ d < a₂.nextID, orders₂ d = a₂.orders d

structure Twin (a₁ a₂ s₁ s₂ : App) : Prop where
  trap : s₁.trap = s₂.trap
  account : s₁.account = s₂.account
  order : ∀ b, OrderTwin a₁.nextID a₂.nextID (s₁.order b) (s₂.order b)
  pending : List.Forall₂ (CallbackTwin a₁.nextID a₂.nextID) s₁.pending s₂.pending
  nextID : SameID a₁.nextID a₂.nextID s₁.nextID s₂.nextID
  docs : SameDocs a₁ a₂ s₁.orders s₂.orders

variable {a₁ a₂ s₁ s₂ : App}

theorem Twin.uid (h : Twin a₁ a₂ s₁ s₂) : s₁.user.uid = s₂.user.uid :=
  congrArg (fun a => a.2.1) h.account

theorem Twin.crash (h : Twin a₁ a₂ s₁ s₂) (t : Trap) : Twin a₁ a₂ (s₁.crash t) (s₂.crash t) :=
  ⟨rfl, h.account, h.order, h.pending, h.nextID, h.docs⟩

theorem Twin.observe (h : Twin a₁ a₂ s₁ s₂) (o₁ o₂ : Obs) :
    Twin a₁ a₂ (s₁.observe o₁) (s₂.observe o₂) :=
  ⟨h.trap, h.account, h.order, h.pending, h.nextID, h.docs⟩

theorem Twin.setOrder (h : Twin a₁ a₂ s₁ s₂) (b : Basket) {o₁ o₂ : Order}
    (ho : OrderTwin a₁.nextID a₂.nextID o₁ o₂) : Twin a₁ a₂ (s₁.setOrder b o₁) (s₂.setOrder b o₂) := by
  refine ⟨h.trap, ?_, fun c => ?_, h.pending, h.nextID, h.docs⟩
  · rw [account_setOrder, account_setOrder, h.account]
  · rw [order_setOrder, order_setOrder]
    split
    · exact ho
    · exact h.order c

theorem Twin.issue (h : Twin a₁ a₂ s₁ s₂) {c₁ c₂ : Callback}
    (hc : CallbackTwin a₁.nextID a₂.nextID c₁ c₂) : Twin a₁ a₂ (s₁.issue c₁) (s₂.issue c₂) :=
  ⟨h.trap, h.account, h.order, List.rel_append h.pending (.cons hc .nil), h.nextID, h.docs⟩

/-! ## Basket actions -/

theorem Twin.addItem (h : Twin a₁ a₂ s₁ s₂) (b : Basket) (x : OrderItem) :
    Twin a₁ a₂ (s₁.addItem b x) (s₂.addItem b x) := by
  have hitem : (s₁.stored x).untag = (s₂.stored x).untag := rfl
  have hset := (h.setOrder b ((h.order b).addItem hitem)).observe (.added s₁.nextRef) (.added s₂.nextRef)
  exact ⟨hset.trap, hset.account, hset.order, hset.pending, hset.nextID, hset.docs⟩

theorem Twin.removeItemAt (h : Twin a₁ a₂ s₁ s₂) (index : Nat) :
    Twin a₁ a₂ (s₁.removeItemAt index) (s₂.removeItemAt index) := by
  have hlocate : s₁.user.locate index = s₂.user.locate index := by
    have hlen : s₁.user.cafeOrder.items.length = s₂.user.cafeOrder.items.length := (h.order .cafe).length
    unfold User.locate
    rw [hlen]
  rw [removeItemAt_locate, removeItemAt_locate, hlocate]
  generalize s₂.user.locate index = p
  obtain ⟨b, i⟩ := p
  have hget := (h.order b).getElem? i
  dsimp only
  cases hx₁ : (s₁.order b).items[i]? with
  | none =>
    rw [hx₁] at hget
    rw [Option.map_eq_none_iff.mp hget.symm]
    exact h.crash _
  | some x₁ =>
    rw [hx₁] at hget
    obtain ⟨x₂, hx₂, hx⟩ := Option.map_eq_some_iff.mp hget.symm
    rw [hx₂]
    exact (h.setOrder b ((h.order b).removed i hx.symm)).observe _ _

theorem Twin.textFieldDidEndEditing (h : Twin a₁ a₂ s₁ s₂) (text : Option String) :
    Twin a₁ a₂ (s₁.textFieldDidEndEditing text) (s₂.textFieldDidEndEditing text) := by
  refine ⟨h.trap, h.account, fun b => ?_, h.pending, h.nextID, h.docs⟩
  cases b with
  | cafe => exact (h.order .cafe).note text
  | bar => exact (h.order .bar).note text

/-! ## Checkout -/

theorem Twin.stamp (h : Twin a₁ a₂ s₁ s₂) (b : Basket) (d₁ d₂ : Option Date) :
    OrderTwin a₁.nextID a₂.nextID { s₁.stamp b with orderDate := d₁ }
      { s₂.stamp b with orderDate := d₂ } := ⟨(h.order b).core, (h.order b).orderID⟩

/-- Both documents of a checkout, whenever it happens. -/
theorem Twin.docOf (h : Twin a₁ a₂ s₁ s₂) {b : Basket} (hi : (s₁.order b).items ≠ [])
    (d₁ d₂ : Option Date) :
    (docOf s₁.user.crsid { s₁.stamp b with orderDate := d₁ }).timeless =
      (docOf s₂.user.crsid { s₂.stamp b with orderDate := d₂ }).timeless := by
  have hauth : s₁.auth = s₂.auth := congrArg (fun a => a.1) h.account
  have hcrsid : s₁.user.crsid = s₂.user.crsid := congrArg (fun a => a.2.2.1) h.account
  have hfirst : s₁.user.firstName = s₂.user.firstName := congrArg (fun a => a.2.2.2.1) h.account
  have hlast : s₁.user.lastName = s₂.user.lastName := congrArg (fun a => a.2.2.2.2) h.account
  rw [hcrsid]
  refine (h.stamp b d₁ d₂).docOf hi ?_ ?_ _
  · show s₁.auth.bind _ = s₂.auth.bind _
    rw [hauth]
  · show some _ = some _
    rw [hfirst, hlast]

theorem Twin.saved (h : Twin a₁ a₂ s₁ s₂) {b : Basket} (hi : (s₁.order b).items ≠ [])
    (call₁ call₂ : Nat) (now₁ now₂ : Date) :
    Twin a₁ a₂ (s₁.saved call₁ now₁ b) (s₂.saved call₂ now₂ b) := by
  have hnext : SameID a₁.nextID a₂.nextID (s₁.nextID + 1) (s₂.nextID + 1) := by
    obtain ⟨k, h1, h2⟩ := h.nextID
    exact ⟨k + 1, by omega, by omega⟩
  have h0 : Twin a₁ a₂ { s₁ with nextID := s₁.nextID + 1 } { s₂ with nextID := s₂.nextID + 1 } :=
    ⟨h.trap, h.account, h.order, h.pending, hnext, h.docs⟩
  have hord : OrderTwin a₁.nextID a₂.nextID (s₁.savedOrder now₁ b) (s₂.savedOrder now₂ b) :=
    ⟨(h.order b).core, (h.order b).orderID⟩
  have hset := h0.setOrder b hord
  exact hset.issue (.create ⟨rfl, h.nextID, h.docOf hi (some now₁) (some now₂)⟩)

theorem Twin.updated (h : Twin a₁ a₂ s₁ s₂) {b : Basket} (hi : (s₁.order b).items ≠ [])
    (call₁ call₂ : Nat) {doc₁ doc₂ : Nat} (hd : SameID a₁.nextID a₂.nextID doc₁ doc₂) :
    Twin a₁ a₂ (s₁.updated call₁ b doc₁) (s₂.updated call₂ b doc₂) := by
  have hord : OrderTwin a₁.nextID a₂.nextID (s₁.updatedOrder b) (s₂.updatedOrder b) :=
    ⟨(h.order b).core, (h.order b).orderID⟩
  have hset := h.setOrder b hord
  exact hset.issue (.update ⟨rfl, hd, h.docOf hi (s₁.stamp b).orderDate (s₂.stamp b).orderDate⟩)

theorem Twin.submit {t₁ : App} {call₁ : Nat} {now₁ : Basket → Date} {b : Basket}
    (h : Twin a₁ a₂ s₁ s₂) (hs : Submit s₁ call₁ now₁ b t₁) (call₂ : Nat) (now₂ : Basket → Date) :
    Twin a₁ a₂ t₁ (App.submit call₂ now₂ b s₂) := by
  have hord := h.order b
  cases hs with
  | skip hi =>
    rw [submit_skip call₂ now₂ fun ht => hord.nil_iff.mp (hi (h.trap.trans ht))]
    exact h
  | trap ht hn =>
    rw [submit_crash call₂ now₂ (h.trap.symm.trans ht) fun he => hn (hord.encodable.mpr he)]
    exact h.crash _
  | create ht hi he hid =>
    rw [submit_saved call₂ now₂ (h.trap.symm.trans ht) (fun h2 => hi (hord.nil_iff.mpr h2))
      (hord.encodable.mp he) (hord.new hid)]
    exact h.saved hi call₁ call₂ _ _
  | update ht hi he doc hid =>
    obtain ⟨doc₂, hid₂, hd⟩ := hord.named hid
    rw [submit_updated call₂ now₂ (h.trap.symm.trans ht) (fun h2 => hi (hord.nil_iff.mpr h2))
      (hord.encodable.mp he) hid₂]
    exact h.updated hi call₁ call₂ hd

theorem Twin.checkout (h : Twin a₁ a₂ s₁ s₂) (now₁ now₂ : Basket → Date) :
    Twin a₁ a₂ (s₁.checkout now₁) (s₂.checkout now₂) := by
  have h0 : Twin a₁ a₂ { s₁ with calls := s₁.calls + 1 } { s₂ with calls := s₂.calls + 1 } :=
    ⟨h.trap, h.account, h.order, h.pending, h.nextID, h.docs⟩
  exact (h0.submit (cafe_turn s₁ now₁) s₂.calls now₂).submit (bar_turn s₁ now₁) s₂.calls now₂

/-! ## Callbacks -/

theorem SameDocs.store {o₁ o₂ : Nat → Option Write} {w₁ w₂ : Write} (h : SameDocs a₁ a₂ o₁ o₂)
    (hw : WriteTwin a₁.nextID a₂.nextID w₁ w₂) :
    SameDocs a₁ a₂ (Function.update o₁ w₁.doc (some w₁)) (Function.update o₂ w₂.doc (some w₂)) := by
  obtain ⟨k, h1, h2⟩ := hw.doc
  refine ⟨fun j => ?_, fun d hd => ?_, fun d hd => ?_⟩
  · by_cases hj : j = k
    · rw [hj, ← h1, ← h2, Function.update_self, Function.update_self]
      exact congrArg some hw.data
    · rw [Function.update_of_ne (by omega), Function.update_of_ne (by omega)]
      exact h.since j
  · rw [Function.update_of_ne (by omega)]
    exact h.old₁ d hd
  · rw [Function.update_of_ne (by omega)]
    exact h.old₂ d hd

theorem Twin.store (h : Twin a₁ a₂ s₁ s₂) {w₁ w₂ : Write} (hw : WriteTwin a₁.nextID a₂.nextID w₁ w₂) :
    Twin a₁ a₂ (s₁.store w₁) (s₂.store w₂) :=
  ⟨h.trap, h.account, h.order, h.pending, h.nextID, h.docs.store hw⟩

theorem Twin.settle (h : Twin a₁ a₂ s₁ s₂) {c₁ c₂ : Callback}
    (hc : CallbackTwin a₁.nextID a₂.nextID c₁ c₂) (ok : Bool) :
    Twin a₁ a₂ (s₁.settle c₁ ok) (s₂.settle c₂ ok) := by
  cases ok with
  | false => cases hc <;> exact h
  | true =>
    cases hc with
    | @create w₁ w₂ hw =>
      simp only [App.settle, App.created, ← hw.basket]
      exact (h.store hw).setOrder w₁.basket ⟨(h.order w₁.basket).core, .some hw.doc⟩
    | update hw => exact h.store hw
    | history => exact ⟨h.trap, h.account, h.order, h.pending, h.nextID, h.docs⟩

theorem Twin.append (h : Twin a₁ a₂ s₁ s₂) (doc₁ doc₂ : Nat) :
    Twin a₁ a₂ (s₁.append doc₁) (s₂.append doc₂) := by
  refine ⟨h.trap, h.account, fun b => ?_, h.pending, h.nextID, h.docs⟩
  rw [order_append, order_append]
  exact h.order b

theorem Twin.addToPreviousOrders (h : Twin a₁ a₂ s₁ s₂) (call₁ call₂ : Nat) (b : Basket) :
    Twin a₁ a₂ (s₁.addToPreviousOrders call₁ b) (s₂.addToPreviousOrders call₂ b) := by
  cases hid₁ : (s₁.order b).orderID with
  | none =>
    simp only [App.addToPreviousOrders, hid₁, (h.order b).new hid₁]
    exact h
  | some doc₁ =>
    obtain ⟨doc₂, hid₂, -⟩ := (h.order b).named hid₁
    have happend := h.append doc₁ doc₂
    cases hu₁ : s₁.user.uid with
    | none =>
      rw [addToPreviousOrders_trap hid₁ hu₁, addToPreviousOrders_trap hid₂ (h.uid.symm.trans hu₁)]
      exact happend.crash _
    | some uid =>
      rw [addToPreviousOrders_issue hid₁ hu₁, addToPreviousOrders_issue hid₂ (h.uid.symm.trans hu₁)]
      exact happend.issue (.history _ _ b uid _ _)

theorem Twin.resetAndComplete (h : Twin a₁ a₂ s₁ s₂) (call₁ call₂ : Nat) (b : Basket) :
    Twin a₁ a₂ (s₁.resetAndComplete call₁ b) (s₂.resetAndComplete call₂ b) := by
  have hreset : OrderTwin a₁.nextID a₂.nextID (s₁.order b).resetOrder (s₂.order b).resetOrder :=
    .refl_core rfl rfl rfl
  have hset := (h.setOrder b hreset).observe (.completed call₁) (.completed call₂)
  exact ⟨hset.trap, hset.account, hset.order, hset.pending, hset.nextID, hset.docs⟩

theorem Twin.follow (h : Twin a₁ a₂ s₁ s₂) {c₁ c₂ : Callback}
    (hc : CallbackTwin a₁.nextID a₂.nextID c₁ c₂) : Twin a₁ a₂ (s₁.follow c₁) (s₂.follow c₂) := by
  cases hc with
  | create hw =>
    simp only [App.follow, ← hw.basket]
    exact h.addToPreviousOrders _ _ _
  | update hw =>
    simp only [App.follow, ← hw.basket]
    exact h.resetAndComplete _ _ _
  | history call₁ call₂ b => exact h.resetAndComplete call₁ call₂ b

theorem Twin.reply (h : Twin a₁ a₂ s₁ s₂) {i : Nat} {ok : Bool} (he : s₁.enabled (.reply i ok) = true) :
    Twin a₁ a₂ (s₁.reply i ok) (s₂.reply i ok) := by
  obtain ⟨c₁, l₁, l₂, hp₁, rfl⟩ := reply_split he
  have hpend := h.pending
  rw [hp₁] at hpend
  obtain ⟨m₁, c₂, m₂, hp₂, hlen, hc, hrest⟩ := forall₂_split hpend
  rw [reply_eq hp₁ ok, ← hlen, reply_eq hp₂ ok]
  have hset := h.settle hc ok
  have hans : Twin a₁ a₂ ((s₁.settle c₁ ok).answered c₁ ok (l₁ ++ l₂))
      ((s₂.settle c₂ ok).answered c₂ ok (m₁ ++ m₂)) :=
    ⟨hset.trap, hset.account, hset.order, hrest, hset.nextID, hset.docs⟩
  exact hans.follow hc

/-! ## Runs -/

/-- **One step.** The same act is possible in both apps and keeps them twins. -/
theorem Twin.step {t₁ : App} {e₁ e₂ : Ev} (h : Twin a₁ a₂ s₁ s₂) (he : e₁.untimed = e₂.untimed)
    (hn : e₁.isSession = false) (hs : s₁.step e₁ = some t₁) :
    ∃ t₂, s₂.step e₂ = some t₂ ∧ Twin a₁ a₂ t₁ t₂ := by
  obtain ⟨ht, hen, rfl⟩ := step_iff.mp hs
  have ht₂ : s₂.trap = none := h.trap.symm.trans ht
  have hu : s₂.user.uid.isSome = s₁.user.uid.isSome := by rw [h.uid]
  rcases untimed_cases he with rfl | ⟨now₁, now₂, rfl, rfl⟩
  · cases e₁ with
    | checkout now => exact ⟨_, step_iff.mpr ⟨ht₂, hu.trans hen, rfl⟩, h.checkout now now⟩
    | addItem b x => exact ⟨_, step_iff.mpr ⟨ht₂, hu.trans hen, rfl⟩, h.addItem b x⟩
    | removeItemAt index =>
      exact ⟨_, step_iff.mpr ⟨ht₂, hu.trans hen, rfl⟩, h.removeItemAt index⟩
    | textFieldDidEndEditing text =>
      exact ⟨_, step_iff.mpr ⟨ht₂, hu.trans hen, rfl⟩, h.textFieldDidEndEditing text⟩
    | reply i ok =>
      have hen₂ : s₂.enabled (.reply i ok) = true := by
        simp only [enabled, ← h.pending.length_eq]
        exact hen
      exact ⟨_, step_iff.mpr ⟨ht₂, hen₂, rfl⟩, h.reply hen⟩
    | _ => cases hn
  · exact ⟨_, step_iff.mpr ⟨ht₂, hu.trans hen, rfl⟩, h.checkout now₁ now₂⟩

/-- **A run.** -/
theorem Twin.run {t₁ : App} {ls₁ ls₂ : List Ev} (h : Twin a₁ a₂ s₁ s₂)
    (hls : ls₁.map Ev.untimed = ls₂.map Ev.untimed) (hn : ∀ e ∈ ls₁, e.isSession = false)
    (hr : app.Run s₁ ls₁ t₁) : ∃ t₂, app.Run s₂ ls₂ t₂ ∧ Twin a₁ a₂ t₁ t₂ := by
  induction hr generalizing s₂ ls₂ with
  | nil s =>
    rw [List.map_nil, eq_comm, List.map_eq_nil_iff] at hls
    rw [hls]
    exact ⟨s₂, .nil _, h⟩
  | @cons s u t e ls hs _ ih =>
    cases ls₂ with
    | nil => cases hls
    | cons e₂ ls₂ =>
      rw [List.map_cons, List.map_cons, List.cons.injEq] at hls
      obtain ⟨u₂, hs₂, hu⟩ := h.step hls.1 (hn e List.mem_cons_self) hs
      obtain ⟨t₂, hr₂, ht⟩ := ih hu hls.2 fun e he => hn e (List.mem_cons_of_mem _ he)
      exact ⟨t₂, .cons hs₂ hr₂, ht⟩

end App

end QadsCafe
