import QadsCafe.L4App.App

/-!
# What each operation of the app does

One lemma per operation, so that no later proof unfolds it: `submit_cases`
and `appends_cases` list the outcomes of one turn of `checkout` and of
`addToPreviousOrders`, `reply_eq` takes the delivered callback out of the
pending list, `session_frame` says what the sign-in events leave alone.

An invariant is preserved by `App.step` if it is preserved by each of these.
-/
namespace QadsCafe

open Core

namespace User

@[simp] theorem order_setOrder (u : User) (b c : Basket) (o : Order) :
    (u.setOrder b o).order c = if c = b then o else u.order c := by
  cases b <;> cases c <;> rfl

@[simp] theorem uid_setOrder (u : User) (b : Basket) (o : Order) :
    (u.setOrder b o).uid = u.uid := by cases b <;> rfl

@[simp] theorem crsid_setOrder (u : User) (b : Basket) (o : Order) :
    (u.setOrder b o).crsid = u.crsid := by cases b <;> rfl

@[simp] theorem previousOrders_setOrder (u : User) (b : Basket) (o : Order) :
    (u.setOrder b o).previousOrders = u.previousOrders := by cases b <;> rfl

@[simp] theorem order_populate (u : User) (data : Profile) (b : Basket) :
    (u.populate data).order b = u.order b := by cases b <;> rfl

/-- Which order a row of the basket screen belongs to, and its row there. -/
def locate (u : User) (index : Nat) : Basket × Nat :=
  if index < u.cafeOrder.items.length then (.cafe, index)
  else (.bar, index - u.cafeOrder.items.length)

theorem getItemAt_eq (u : User) (index : Nat) :
    u.getItemAt index = (u.order (u.locate index).1).items[(u.locate index).2]? := by
  unfold getItemAt locate
  split <;> rfl

theorem removeItemAt_eq (u : User) (index : Nat) :
    u.removeItemAt index =
      ((u.order (u.locate index).1).removeItemAt (u.locate index).2).map
        (u.setOrder (u.locate index).1) := by
  unfold removeItemAt locate
  split <;> rfl

end User

namespace App

theorem step_iff {s t : App} {e : Ev} :
    s.step e = some t ↔ s.trap = none ∧ s.enabled e = true ∧ t = s.fire e := by
  unfold step
  split
  · rename_i h
    simp only [Option.isNone_iff_eq_none] at h
    simp [h.1, h.2, eq_comm]
  · rename_i h
    simp only [Option.isNone_iff_eq_none, not_and] at h
    simp only [reduceCtorEq, false_iff, not_and]
    intro h1 h2
    exact absurd h2 (h h1)

theorem order_setOrder (s : App) (b c : Basket) (o : Order) :
    (s.setOrder b o).order c = if c = b then o else s.order c :=
  User.order_setOrder s.user b c o

theorem run_when_cons {C : App → Ev → Prop} {s u t : App} {e : Ev} {ls : List Ev}
    (h : s.step e = some u) :
    (app.when C).Run s (e :: ls) t ↔ C s e ∧ (app.when C).Run u ls t := LTS.run_when_cons h

/-! ## Fields -/

section
variable (s : App) (b c : Basket)

@[simp] theorem log_setOrder (o : Order) : (s.setOrder b o).log = s.log := rfl

@[simp] theorem log_observe (o : Obs) : (s.observe o).log = s.log ++ [o] := rfl

@[simp] theorem log_issue (k : Callback) : (s.issue k).log = s.log ++ [.issued k] := rfl

theorem mem_issue {k l : Callback} : l ∈ (s.issue k).pending ↔ l ∈ s.pending ∨ l = k := by
  simp [issue]

@[simp] theorem log_addItem (x : OrderItem) :
    (s.addItem b x).log = s.log ++ [.added s.nextRef] := rfl

@[simp] theorem log_created (w : Write) : (s.created w).log = s.log := rfl

@[simp] theorem log_append (doc : Nat) :
    (s.append doc).log = s.log ++ [.appended s.user.uid doc] := rfl

@[simp] theorem log_resetAndComplete (call : Nat) :
    (s.resetAndComplete call b).log = s.log ++ [.completed call] := rfl

/-- The object an addition puts in a basket. -/
def stored (x : OrderItem) : OrderItem :=
  { x with tag := { x.tag with ref := s.nextRef, uid := s.user.uid } }

theorem order_addItem (x : OrderItem) :
    (s.addItem b x).order c = if c = b then (s.order b).addItem (s.stored x) else s.order c :=
  order_setOrder s b c _

@[simp] theorem order_append (doc : Nat) : (s.append doc).order b = s.order b := by cases b <;> rfl

theorem order_resetAndComplete (call : Nat) :
    (s.resetAndComplete call b).order c = if c = b then {} else s.order c := by
  show (s.setOrder b (s.order b).resetOrder).order c = _
  rw [order_setOrder]
  split <;> rfl

end

theorem Launch.order {s : App} (h : Launch s) (b : Basket) : s.order b = {} := by
  simp only [App.order, h.user]; cases b <;> rfl

/-! ## Deleting a row -/

/-- `order.items` of basket `b` without row `i`. -/
def removed (s : App) (b : Basket) (i : Nat) (x : OrderItem) : App :=
  (s.setOrder b { s.order b with
    price := (s.order b).price - x.price
    items := (s.order b).items.eraseIdx i }).observe (.removed x.tag.ref)

@[simp] theorem log_removed (s : App) (b : Basket) (i : Nat) (x : OrderItem) :
    (s.removed b i x).log = s.log ++ [.removed x.tag.ref] := rfl

theorem order_removed (s : App) (b c : Basket) (i : Nat) (x : OrderItem) :
    (s.removed b i x).order c = if c = b then { s.order b with
      price := (s.order b).price - x.price
      items := (s.order b).items.eraseIdx i } else s.order c :=
  order_setOrder s b c _

theorem removeItemAt_locate (s : App) (index : Nat) :
    s.removeItemAt index =
      match (s.order (s.user.locate index).1).items[(s.user.locate index).2]? with
      | none => s.crash .indexOutOfRange
      | some x => s.removed (s.user.locate index).1 (s.user.locate index).2 x := by
  unfold removeItemAt
  rw [User.getItemAt_eq, User.removeItemAt_eq]
  generalize s.user.locate index = p
  show _ = match (s.user.order p.1).items[p.2]? with
    | none => s.crash .indexOutOfRange
    | some x => s.removed p.1 p.2 x
  cases hx : (s.user.order p.1).items[p.2]? with
  | none => rfl
  | some x =>
    simp only [Order.removeItemAt, hx, Option.map_some]
    rfl

theorem removeItemAt_cases (s : App) (index : Nat) :
    (s.removeItemAt index = s.crash .indexOutOfRange) ∨
    ∃ b i x, (s.order b).items[i]? = some x ∧ s.removeItemAt index = s.removed b i x := by
  rw [removeItemAt_locate]
  split
  · exact .inl rfl
  · rename_i x hx; exact .inr ⟨_, _, x, hx, rfl⟩

/-! ## What the user's actions leave alone -/

theorem orderID_addItem (s : App) (b c : Basket) (x : OrderItem) :
    ((s.addItem b x).order c).orderID = (s.order c).orderID := by
  cases b <;> cases c <;> rfl

theorem orderID_removed (s : App) (b c : Basket) (i : Nat) (x : OrderItem) :
    ((s.removed b i x).order c).orderID = (s.order c).orderID := by
  cases b <;> cases c <;> rfl

theorem orderID_textFieldDidEndEditing (s : App) (text : Option String) (c : Basket) :
    ((s.textFieldDidEndEditing text).order c).orderID = (s.order c).orderID := by
  cases c <;> rfl

/-! ## Checkout -/

/-- The order after the create is issued. -/
def savedOrder (s : App) (now : Date) (b : Basket) : Order :=
  { s.stamp b with
    orderDate := some now
    location := lastLocation (s.order b).location (s.order b).items }

/-- The order after the update is issued. -/
def updatedOrder (s : App) (b : Basket) : Order :=
  { s.stamp b with location := lastLocation (s.order b).location (s.order b).items }

def createWrite (s : App) (call : Nat) (now : Date) (b : Basket) : Write :=
  s.makeWrite call b s.nextID (s.savedOrder now b)
    (docOf s.user.crsid { s.stamp b with orderDate := some now })

def updateWrite (s : App) (call : Nat) (b : Basket) (doc : Nat) : Write :=
  s.makeWrite call b doc (s.updatedOrder b) (docOf s.user.crsid (s.stamp b))

def saved (s : App) (call : Nat) (now : Date) (b : Basket) : App :=
  ({ s with nextID := s.nextID + 1 }.setOrder b (s.savedOrder now b)).issue
    (.create (s.createWrite call now b))

def updated (s : App) (call : Nat) (b : Basket) (doc : Nat) : App :=
  (s.setOrder b (s.updatedOrder b)).issue (.update (s.updateWrite call b doc))

theorem orderID_saved (s : App) (call : Nat) (now : Date) (b c : Basket) :
    ((s.saved call now b).order c).orderID = (s.order c).orderID := by
  cases b <;> cases c <;> rfl

theorem orderID_updated (s : App) (call : Nat) (b : Basket) (doc : Nat) (c : Basket) :
    ((s.updated call b doc).order c).orderID = (s.order c).orderID := by
  cases b <;> cases c <;> rfl

theorem saveOrder_eq {s : App} {b : Basket} (h : Encodable (s.order b).items) (call : Nat)
    (now : Date) : s.saveOrder call now b (s.stamp b) = s.saved call now b := by
  unfold saveOrder
  rw [makeDataDictionary_eq _ _ (show Encodable { s.stamp b with orderDate := some now }.items from h)]
  rfl

theorem saveOrder_trap {s : App} {b : Basket} (h : ¬ Encodable (s.order b).items) (call : Nat)
    (now : Date) : s.saveOrder call now b (s.stamp b) = s.crash .emptyRange := by
  unfold saveOrder
  rw [makeDataDictionary_none
    (show ¬ Encodable { s.stamp b with orderDate := some now }.items from h)]

theorem updateOrder_eq {s : App} {b : Basket} (h : Encodable (s.order b).items) (call : Nat)
    (doc : Nat) : s.updateOrder call b doc (s.stamp b) = s.updated call b doc := by
  unfold updateOrder
  rw [makeDataDictionary_eq _ _ (show Encodable (s.stamp b).items from h)]
  rfl

theorem updateOrder_trap {s : App} {b : Basket} (h : ¬ Encodable (s.order b).items) (call : Nat)
    (doc : Nat) : s.updateOrder call b doc (s.stamp b) = s.crash .emptyRange := by
  unfold updateOrder
  rw [makeDataDictionary_none (show ¬ Encodable (s.stamp b).items from h)]

/-- What one turn of the loop in `checkout` does. -/
inductive Submit (s : App) (call : Nat) (now : Basket → Date) (b : Basket) : App → Prop
  | skip (h : s.trap = none → (s.order b).items = []) : Submit s call now b s
  | trap (ht : s.trap = none) (h : ¬ Encodable (s.order b).items) :
      Submit s call now b (s.crash .emptyRange)
  | create (ht : s.trap = none) (hi : (s.order b).items ≠ []) (he : Encodable (s.order b).items)
      (h : (s.order b).orderID = none) : Submit s call now b (s.saved call (now b) b)
  | update (ht : s.trap = none) (hi : (s.order b).items ≠ []) (he : Encodable (s.order b).items)
      (doc : Nat) (h : (s.order b).orderID = some doc) :
      Submit s call now b (s.updated call b doc)

theorem submit_cases (s : App) (call : Nat) (now : Basket → Date) (b : Basket) :
    Submit s call now b (submit call now b s) := by
  unfold submit
  split
  · rename_i ht
    exact .skip fun h => by rw [h] at ht; cases ht
  rename_i ht
  simp only [Bool.not_eq_true, Option.isSome_eq_false_iff, Option.isNone_iff_eq_none] at ht
  split
  · rename_i hi
    exact .skip fun _ => List.isEmpty_iff.mp hi
  rename_i hi
  simp only [List.isEmpty_iff] at hi
  by_cases he : Encodable (s.order b).items
  · split
    · rename_i hid
      rw [saveOrder_eq he]
      exact .create ht hi he hid
    · rename_i doc hid
      rw [updateOrder_eq he]
      exact .update ht hi he doc hid
  · split
    · rw [saveOrder_trap he]; exact .trap ht he
    · rw [updateOrder_trap he]; exact .trap ht he

/-- What a turn for basket `b` leaves alone. -/
structure Turn (s t : App) (b : Basket) : Prop where
  order : ∀ c, c ≠ b → t.order c = s.order c
  uid : t.user.uid = s.user.uid
  noteBy : t.noteBy = s.noteBy
  orders : t.orders = s.orders
  nextID : s.nextID ≤ t.nextID
  pending : t.pending = s.pending ∨ ∃ c, t.pending = s.pending ++ [c] ∧ c.basket = b
  trap : t.trap = none → s.trap = none
  log : s.log ⊆ t.log

theorem Submit.turn {s t : App} {call : Nat} {now : Basket → Date} {b : Basket}
    (h : Submit s call now b t) : Turn s t b := by
  have hother : ∀ (o : Order) (c : Basket), c ≠ b → (s.setOrder b o).order c = s.order c :=
    fun o c hc => by rw [order_setOrder, if_neg hc]
  cases h with
  | skip =>
    exact ⟨fun _ _ => rfl, rfl, rfl, rfl, Nat.le_refl _, .inl rfl, id, List.Subset.refl _⟩
  | trap ht =>
    exact ⟨fun _ _ => rfl, rfl, rfl, rfl, Nat.le_refl _, .inl rfl, fun _ => ht, List.Subset.refl _⟩
  | create ht =>
    exact ⟨hother _, User.uid_setOrder _ _ _, rfl, rfl, Nat.le_succ _, .inr ⟨_, rfl, rfl⟩, fun _ => ht,
      List.subset_append_left _ _⟩
  | update ht =>
    exact ⟨hother _, User.uid_setOrder _ _ _, rfl, rfl, Nat.le_refl _, .inr ⟨_, rfl, rfl⟩, fun _ => ht,
      List.subset_append_left _ _⟩

theorem Turn.subset {s t : App} {b : Basket} (h : Turn s t b) : s.pending ⊆ t.pending := by
  rcases h.pending with hp | ⟨c, hp, -⟩
  · rw [hp]; exact List.Subset.refl _
  · rw [hp]; exact List.subset_append_left _ _

/-- A callback of another basket was pending before the turn. -/
theorem Turn.other {s t : App} {b : Basket} (h : Turn s t b) {c : Callback} (hc : c ∈ t.pending)
    (hb : c.basket ≠ b) : c ∈ s.pending := by
  rcases h.pending with hp | ⟨k, hp, hkb⟩
  · rw [hp] at hc; exact hc
  · rw [hp] at hc
    simp only [List.mem_append, List.mem_singleton] at hc
    rcases hc with hc | rfl
    · exact hc
    · exact absurd hkb hb

/-- `c` is the request that `checkout` makes for the order of basket `b`. -/
structure Sent (s : App) (b : Basket) (c : Callback) (w : Write) : Prop where
  write : c.write? = some w
  basket : w.basket = b
  built : w.built = (s.order b).items
  note : w.data.note = (s.order b).note
  uid : w.uid = s.user.uid
  noteBy : w.noteBy = s.noteBy b
  data : ∃ crsid o, o.items = w.built ∧ w.data = docOf crsid o
  create : (s.order b).orderID = none → c = .create w ∧ s.nextID ≤ w.doc
  update : ∀ d, (s.order b).orderID = some d → c = .update w ∧ w.doc = d

theorem Submit.sent {s t : App} {call : Nat} {now : Basket → Date} {b : Basket}
    (h : Submit s call now b t) (ht : t.trap = none) (hi : (s.order b).items ≠ []) :
    ∃ c w, Sent s b c w ∧ c ∈ t.pending ∧ .issued c ∈ t.log := by
  cases h with
  | skip hskip => exact absurd (hskip ht) hi
  | trap => cases ht
  | create _ _ _ hid =>
    refine ⟨_, s.createWrite call (now b) b,
      ⟨rfl, rfl, rfl, rfl, rfl, rfl, ⟨_, { s.stamp b with orderDate := some (now b) }, rfl, rfl⟩,
        fun _ => ⟨rfl, Nat.le_refl _⟩, fun d hd => ?_⟩,
      List.mem_append_right _ (List.mem_singleton.mpr rfl),
      List.mem_append_right _ (List.mem_singleton.mpr rfl)⟩
    rw [hid] at hd; cases hd
  | update _ _ _ doc hid =>
    refine ⟨_, s.updateWrite call b doc,
      ⟨rfl, rfl, rfl, rfl, rfl, rfl, ⟨_, s.stamp b, rfl, rfl⟩, fun hn => ?_, fun d hd => ?_⟩,
      List.mem_append_right _ (List.mem_singleton.mpr rfl),
      List.mem_append_right _ (List.mem_singleton.mpr rfl)⟩
    · rw [hid] at hn; cases hn
    · rw [hid] at hd; cases hd
      exact ⟨rfl, rfl⟩

/-- The state between the two turns of `checkout`. -/
def afterCafe (s : App) (now : Basket → Date) : App :=
  submit s.calls now .cafe { s with calls := s.calls + 1 }

theorem cafe_turn (s : App) (now : Basket → Date) :
    Submit { s with calls := s.calls + 1 } s.calls now .cafe (s.afterCafe now) :=
  submit_cases _ _ now .cafe

theorem bar_turn (s : App) (now : Basket → Date) :
    Submit (s.afterCafe now) s.calls now .bar (s.checkout now) :=
  submit_cases _ _ now .bar

/-- **What `checkout` sends.** Unless it traps, it makes one request for every
order that is not empty. -/
theorem checkout_sent {s : App} {now : Basket → Date} (ht : (s.checkout now).trap = none)
    {b : Basket} (hi : (s.order b).items ≠ []) :
    ∃ c w, Sent s b c w ∧ c ∈ (s.checkout now).pending ∧ .issued c ∈ (s.checkout now).log := by
  have hcafe := cafe_turn s now
  have hbar := bar_turn s now
  cases b with
  | cafe =>
    obtain ⟨c, w, hsent, hp, hl⟩ := hcafe.sent (hbar.turn.trap ht) hi
    exact ⟨c, w, ⟨hsent.write, hsent.basket, hsent.built, hsent.note, hsent.uid, hsent.noteBy,
      hsent.data, hsent.create, hsent.update⟩,
      hbar.turn.subset hp, hbar.turn.log hl⟩
  | bar =>
    have hord : (s.afterCafe now).order .bar = s.order .bar := hcafe.turn.order .bar (by decide)
    have hi' : ((s.afterCafe now).order .bar).items ≠ [] := by rw [hord]; exact hi
    obtain ⟨c, w, hsent, hp, hl⟩ := hbar.sent ht hi'
    refine ⟨c, w, ⟨hsent.write, hsent.basket, by rw [← hord]; exact hsent.built,
      by rw [← hord]; exact hsent.note, hsent.uid.trans hcafe.turn.uid,
      by rw [hsent.noteBy, hcafe.turn.noteBy], hsent.data, fun hn => ?_, fun d hd => ?_⟩, hp, hl⟩
    · have hc := hsent.create (by rw [hord]; exact hn)
      exact ⟨hc.1, Nat.le_trans hcafe.turn.nextID hc.2⟩
    · exact hsent.update d (by rw [hord]; exact hd)

/-- `checkout` traps on no order that can be encoded. -/
theorem Submit.trap_eq {s t : App} {call : Nat} {now : Basket → Date} {b : Basket}
    (h : Submit s call now b t) (he : Encodable (s.order b).items) : t.trap = s.trap := by
  cases h with
  | trap _ hn => exact absurd he hn
  | _ => rfl

theorem checkout_trap {s : App} (now : Basket → Date) (he : ∀ b, Encodable (s.order b).items) :
    (s.checkout now).trap = s.trap := by
  have hord : (s.afterCafe now).order .bar = s.order .bar :=
    (cafe_turn s now).turn.order .bar (by decide)
  have hbar := (bar_turn s now).trap_eq (by rw [hord]; exact he .bar)
  exact hbar.trans ((cafe_turn s now).trap_eq (he .cafe))

/-! ## Callbacks -/

/-- What `addToPreviousOrders` does. -/
inductive Appends (s : App) (call : Nat) (b : Basket) : App → Prop
  | skip (h : (s.order b).orderID = none) : Appends s call b s
  | trap (doc : Nat) (h : (s.order b).orderID = some doc) (hu : s.user.uid = none) :
      Appends s call b ((s.append doc).crash .nilUnwrap)
  | issue (doc : Nat) (uid : String) (h : (s.order b).orderID = some doc)
      (hu : s.user.uid = some uid) :
      Appends s call b
        ((s.append doc).issue (.history call b uid (s.append doc).user.previousOrders))

theorem appends_cases (s : App) (call : Nat) (b : Basket) :
    Appends s call b (s.addToPreviousOrders call b) := by
  unfold addToPreviousOrders
  split
  · rename_i h; exact .skip h
  · rename_i doc h
    split
    · rename_i hu; exact .trap doc h hu
    · rename_i uid hu; exact .issue doc uid h hu

theorem addToPreviousOrders_issue {s : App} {b : Basket} {doc : Nat} {uid : String}
    (h : (s.order b).orderID = some doc) (hu : s.user.uid = some uid) (call : Nat) :
    s.addToPreviousOrders call b =
      (s.append doc).issue (.history call b uid (s.append doc).user.previousOrders) := by
  unfold addToPreviousOrders
  rw [h]
  simp only [hu]

theorem addToPreviousOrders_trap {s : App} {b : Basket} {doc : Nat}
    (h : (s.order b).orderID = some doc) (hu : s.user.uid = none) (call : Nat) :
    s.addToPreviousOrders call b = (s.append doc).crash .nilUnwrap := by
  unfold addToPreviousOrders
  rw [h]
  simp only [hu]

/-- After the answer to a create, whatever `addToPreviousOrders` can do. -/
@[elab_as_elim]
theorem follow_create {motive : App → Prop} (s : App) (w : Write)
    (h : ∀ t, Appends s w.call w.basket t → motive t) : motive (s.follow (.create w)) :=
  h _ (appends_cases s w.call w.basket)

theorem follow_orders (s : App) (c : Callback) : (s.follow c).orders = s.orders := by
  cases c with
  | create w =>
    refine follow_create s w fun t ha => ?_
    cases ha <;> rfl
  | update w => rfl
  | history call b uid ids => rfl

/-- The state right after the callback `c` left the pending list. -/
def answered (s : App) (c : Callback) (ok : Bool) (rest : List Callback) : App :=
  { s with pending := rest }.observe (.replied c ok)

@[simp] theorem log_answered (s : App) (c : Callback) (ok : Bool) (rest : List Callback) :
    (s.answered c ok rest).log = s.log ++ [.replied c ok] := rfl

theorem settle_answered (s : App) (c : Callback) (ok : Bool) (rest : List Callback) :
    (s.answered c ok rest).settle c ok = (s.settle c ok).answered c ok rest := by
  cases c <;> cases ok <;> rfl

theorem pending_settle (s : App) (c : Callback) (ok : Bool) :
    (s.settle c ok).pending = s.pending := by
  cases c <;> cases ok <;> rfl

theorem trap_settle (s : App) (c : Callback) (ok : Bool) : (s.settle c ok).trap = s.trap := by
  cases c <;> cases ok <;> rfl

theorem uid_settle (s : App) (c : Callback) (ok : Bool) :
    (s.settle c ok).user.uid = s.user.uid := by
  cases ok with
  | false => cases c <;> rfl
  | true =>
    cases c with
    | create w => exact User.uid_setOrder _ _ _
    | _ => rfl

/-- The documents once a write is applied. -/
theorem orders_store (s : App) {w v : Write} {d : Nat} : (s.store w).orders d = some v ↔
    (d = w.doc ∧ v = w) ∨ (d ≠ w.doc ∧ s.orders d = some v) := by
  simp only [store, Function.update_apply]
  split
  · rename_i hd
    simp [hd, eq_comm]
  · rename_i hd
    simp [hd]

theorem orders_store_of_ne (s : App) {w : Write} {d : Nat} (h : d ≠ w.doc) :
    (s.store w).orders d = s.orders d := Function.update_of_ne h _ _

/-- A profile after a history write is an old one, its list written or not. -/
theorem profile_of_history {s : App} {uid u : String} {ids : List Nat} {p : Profile}
    (hp : (s.storeHistory uid ids).users u = some p) : s.users u = some p ∨
      (u = uid ∧ ∃ q, s.users u = some q ∧ p = { q with previousOrders := ids }) := by
  simp only [storeHistory, Function.update_apply] at hp
  split at hp
  · rename_i hu
    subst hu
    obtain ⟨q, hq, rfl⟩ := Option.map_eq_some_iff.mp hp
    exact .inr ⟨rfl, q, hq, rfl⟩
  · exact .inl hp

theorem reply_eq {s : App} {c : Callback} {l₁ l₂ : List Callback} (h : s.pending = l₁ ++ c :: l₂)
    (ok : Bool) :
    s.reply l₁.length ok = ((s.settle c ok).answered c ok (l₁ ++ l₂)).follow c := by
  have hget : s.pending[l₁.length]? = some c := by rw [h]; simp
  have herase : s.pending.eraseIdx l₁.length = l₁ ++ l₂ := by
    rw [h, List.eraseIdx_append_of_length_le (Nat.le_refl _), Nat.sub_self, List.eraseIdx_cons_zero]
  unfold reply
  simp only [hget, herase]
  exact congrArg (follow · c) (settle_answered s c ok _)

/-- The delivered callback in the pending list. -/
theorem reply_split {s : App} {i : Nat} {ok : Bool} (h : s.enabled (.reply i ok) = true) :
    ∃ c l₁ l₂, s.pending = l₁ ++ c :: l₂ ∧ i = l₁.length := by
  simp only [enabled, decide_eq_true_eq] at h
  have hp : s.pending = s.pending.take i ++ s.pending[i] :: s.pending.drop (i + 1) := by
    rw [List.getElem_cons_drop, List.take_append_drop]
  exact ⟨_, _, _, hp, by rw [List.length_take_of_le (by omega)]⟩

theorem mem_of_split {s : App} {c : Callback} {l₁ l₂ : List Callback} (h : s.pending = l₁ ++ c :: l₂) :
    c ∈ s.pending := by rw [h]; simp

theorem rest_subset {s : App} {c : Callback} {l₁ l₂ : List Callback} (h : s.pending = l₁ ++ c :: l₂) :
    l₁ ++ l₂ ⊆ s.pending := by
  rw [h]
  exact ((List.sublist_cons_self c l₂).append_left l₁).subset

/-- Any pending callback can be delivered next, with either outcome. -/
theorem reply_step {s : App} (ht : s.trap = none) {c : Callback} {l₁ l₂ : List Callback}
    (h : s.pending = l₁ ++ c :: l₂) (ok : Bool) :
    s.step (.reply l₁.length ok) =
      some (((s.settle c ok).answered c ok (l₁ ++ l₂)).follow c) := by
  rw [step_iff]
  refine ⟨ht, ?_, (reply_eq h ok).symm⟩
  simp only [enabled, h, decide_eq_true_eq, List.length_append, List.length_cons]
  omega

/-- What a delivery does, with the place of the callback in the pending list. -/
theorem reply_cases {s t : App} {i : Nat} {ok : Bool} (h : s.step (.reply i ok) = some t) :
    ∃ c l₁ l₂, s.pending = l₁ ++ c :: l₂ ∧ i = l₁.length ∧
      t = ((s.settle c ok).answered c ok (l₁ ++ l₂)).follow c := by
  obtain ⟨-, he, rfl⟩ := step_iff.mp h
  obtain ⟨c, l₁, l₂, hp, rfl⟩ := reply_split he
  exact ⟨c, l₁, l₂, hp, rfl, reply_eq hp ok⟩

/-- A successful create while an account is signed in goes on to the history. -/
theorem create_step {s : App} (ht : s.trap = none) {uid : String} (hu : s.user.uid = some uid)
    {w : Write} {l₁ l₂ : List Callback} (h : s.pending = l₁ ++ .create w :: l₂) :
    s.step (.reply l₁.length true) =
      some ((((s.created w).answered (.create w) true (l₁ ++ l₂)).append w.doc).issue
        (.history w.call w.basket uid (s.user.previousOrders ++ [w.doc]))) := by
  have hid : (((s.created w).answered (.create w) true (l₁ ++ l₂)).order w.basket).orderID =
      some w.doc := by
    show ((s.created w).order w.basket).orderID = some w.doc
    rw [created, order_setOrder, if_pos rfl]
  have hu' : ((s.created w).answered (.create w) true (l₁ ++ l₂)).user.uid = some uid := by
    show (s.user.setOrder w.basket _).uid = some uid
    rw [User.uid_setOrder, hu]
  have hprev : ((s.created w).answered (.create w) true (l₁ ++ l₂)).user.previousOrders =
      s.user.previousOrders := User.previousOrders_setOrder s.user w.basket _
  rw [reply_step ht h true]
  simp only [settle, follow, addToPreviousOrders_issue hid hu' w.call]
  rw [← hprev]
  rfl

/-! ## Signing in and out -/

/-- `t` has the baskets, the requests and the documents of `s`. -/
structure Frame (s t : App) : Prop where
  order : ∀ b, t.order b = s.order b
  orders : t.orders = s.orders
  pending : t.pending = s.pending
  nextID : t.nextID = s.nextID
  nextRef : t.nextRef = s.nextRef
  noteBy : t.noteBy = s.noteBy
  log : t.log = s.log

theorem Frame.refl (s : App) : Frame s s := ⟨fun _ => rfl, rfl, rfl, rfl, rfl, rfl, rfl⟩

theorem Frame.trans {s t u : App} (h : Frame s t) (h' : Frame t u) : Frame s u :=
  ⟨fun b => (h'.order b).trans (h.order b), h'.orders.trans h.orders, h'.pending.trans h.pending,
    h'.nextID.trans h.nextID, h'.nextRef.trans h.nextRef, h'.noteBy.trans h.noteBy, h'.log.trans h.log⟩

end App

def Ev.isSession : Ev → Bool
  | .signOut _ | .authSignIn _ | .populateAsCurrentUser | .make .. | .signInReply .. => true
  | _ => false

namespace App

theorem signIn_frame {s t : App} (h : Frame s t) : Frame s t.signIn := by
  unfold signIn
  split
  · exact h
  · exact ⟨h.order, h.orders, h.pending, h.nextID, h.nextRef, h.noteBy, h.log⟩

theorem populate_frame (s : App) (data : Profile) :
    Frame s { s with user := s.user.populate data } :=
  ⟨fun b => User.order_populate s.user data b, rfl, rfl, rfl, rfl, rfl, rfl⟩

/-- A profile read that finds the document fills the user object. -/
theorem load_found {s : App} {uid : String} {data : Profile} (h : s.users uid = some data) :
    s.load uid true = { s with user := s.user.populate data } := by
  unfold load
  rw [h]

/-- Any other leaves it alone. -/
theorem load_missed {s : App} {uid : String} {ok : Bool}
    (h : ∀ data, s.users uid = some data → ok = false) : s.load uid ok = s := by
  unfold load
  split
  · rename_i data hd
    cases h data hd
  · rfl

theorem load_cases (s : App) (uid : String) (ok : Bool) :
    (∃ data, s.users uid = some data ∧ ok = true ∧
      s.load uid ok = { s with user := s.user.populate data }) ∨ s.load uid ok = s := by
  by_cases h : ∃ data, s.users uid = some data ∧ ok = true
  · obtain ⟨data, hdata, rfl⟩ := h
    exact .inl ⟨data, hdata, rfl, load_found hdata⟩
  · exact .inr (load_missed fun data hd => Bool.eq_false_iff.mpr fun hok => h ⟨data, hd, hok⟩)

theorem populated_frame (s : App) (uid : String) (ok : Bool) : Frame s (s.populated uid ok) := by
  have hload : Frame s (s.load uid ok) := by
    rcases load_cases s uid ok with ⟨data, -, -, h⟩ | h
    · rw [h]; exact populate_frame s data
    · rw [h]; exact Frame.refl s
  unfold populated
  split
  · exact hload
  · exact signIn_frame hload

theorem made_frame (s : App) (a : Account) (firstName lastName : Option String) (ok : Bool) :
    Frame s (s.made a firstName lastName ok) :=
  signIn_frame ⟨fun b => by cases b <;> rfl, rfl, rfl, rfl, rfl, rfl, rfl⟩

theorem signIns_frame (s : App) (signIns : List SignIn) : Frame s { s with signIns } :=
  ⟨fun _ => rfl, rfl, rfl, rfl, rfl, rfl, rfl⟩

section
variable {s : App} {a : Account} {firstName lastName : Option String}

theorem populateAsCurrentUser_none (h : s.auth = none) : s.populateAsCurrentUser = s := by
  unfold populateAsCurrentUser
  split
  · rfl
  · rename_i a ha; rw [h] at ha; cases ha

theorem populateAsCurrentUser_some (h : s.auth = some a) :
    s.populateAsCurrentUser = { s with signIns := s.signIns ++ [.read a.uid] } := by
  unfold populateAsCurrentUser
  split
  · rename_i hn; rw [h] at hn; cases hn
  · rename_i a' ha; rw [h] at ha; cases ha; rfl

theorem make_none (h : s.auth = none) : s.make firstName lastName = s := by
  unfold make
  split
  · rfl
  · rename_i a ha; rw [h] at ha; cases ha

theorem make_some (h : s.auth = some a) : s.make firstName lastName =
    { s with
      user := { s.user with firstName, lastName }
      signIns := s.signIns ++ [.form a firstName lastName] } := by
  unfold make
  split
  · rename_i hn; rw [h] at hn; cases hn
  · rename_i a' ha; rw [h] at ha; cases ha; rfl

end

/-- Signing in and out leaves the baskets, the requests in flight and the
order documents alone. -/
theorem session_frame (s : App) {e : Ev} (h : e.isSession = true) : Frame s (s.fire e) := by
  cases e with
  | signOut ok =>
    simp only [fire, signOut]
    split
    · exact ⟨fun b => User.order_populate s.user {} b, rfl, rfl, rfl, rfl, rfl, rfl⟩
    · exact ⟨fun _ => rfl, rfl, rfl, rfl, rfl, rfl, rfl⟩
  | authSignIn a => exact ⟨fun _ => rfl, rfl, rfl, rfl, rfl, rfl, rfl⟩
  | populateAsCurrentUser =>
    simp only [fire, populateAsCurrentUser]
    split
    · exact Frame.refl s
    · exact signIns_frame s _
  | make firstName lastName =>
    simp only [fire, make]
    split
    · exact Frame.refl s
    · exact ⟨fun b => by cases b <;> rfl, rfl, rfl, rfl, rfl, rfl, rfl⟩
  | signInReply i ok =>
    simp only [fire, signInReply]
    split
    · exact Frame.refl s
    · exact (signIns_frame s _).trans (populated_frame _ _ ok)
    · exact (signIns_frame s _).trans (made_frame _ _ _ _ ok)
  | _ => cases h

/-- Signing out, unless the nil `crsid` traps. -/
theorem signOut_eq {s : App} {ok : Bool} (ht : (s.signOut ok).trap = none) :
    s.signOut ok = { s with
      auth := if ok then none else s.auth
      user := s.user.populate {} } := by
  unfold signOut at ht ⊢
  split
  · rfl
  · rename_i h; rw [if_neg h] at ht; cases ht

theorem signOut_uid {s : App} {ok : Bool} (ht : (s.signOut ok).trap = none) :
    (s.signOut ok).user.uid = none := by rw [signOut_eq ht]; rfl

/-- What the sign-in events do to the signed-in account, to its list of orders
and to the profiles. -/
inductive Session (s t : App) : Ev → Prop
  | kept (e : Ev) (uid : t.user.uid = s.user.uid)
      (ids : t.user.previousOrders = s.user.previousOrders) (users : t.users = s.users) :
      Session s t e
  | signOut (ok : Bool) (uid : t.user.uid = none) (ids : t.user.previousOrders = [])
      (users : t.users = s.users) : Session s t (.signOut ok)
  | populated (i : Nat) (u : String) (data : Profile) (hr : s.signIns[i]? = some (.read u))
      (h : s.users u = some data) (uid : t.user.uid = data.uid)
      (ids : t.user.previousOrders = data.previousOrders) (users : t.users = s.users) :
      Session s t (.signInReply i true)
  | made (i : Nat) (a : Account) (firstName lastName : Option String) (ok : Bool) (data : Profile)
      (hr : s.signIns[i]? = some (.form a firstName lastName))
      (users : t.users = s.users ∨ t.users = Function.update s.users a.uid (some data))
      (h : data.uid = some a.uid ∧ data.previousOrders = []) (uid : t.user.uid = some a.uid)
      (ids : t.user.previousOrders = s.user.previousOrders) : Session s t (.signInReply i ok)

/-- A profile after the answer to a form is the one of the form, or an old one. -/
theorem profile_of_form {s t : App} {a : Account} {data p : Profile} {uid : String}
    (h : t.users = s.users ∨ t.users = Function.update s.users a.uid (some data))
    (hp : t.users uid = some p) : s.users uid = some p ∨ (uid = a.uid ∧ p = data) := by
  rcases h with h | h
  · rw [h] at hp
    exact .inl hp
  · rw [h, Function.update_apply] at hp
    split at hp
    · rename_i huid
      cases hp
      exact .inr ⟨huid, rfl⟩
    · exact .inl hp

theorem signIn_user (s : App) : s.signIn.user = s.user ∧ s.signIn.users = s.users := by
  unfold signIn
  split <;> exact ⟨rfl, rfl⟩

theorem populated_user (s : App) (uid : String) (ok : Bool) :
    (s.populated uid ok).user = (s.load uid ok).user ∧
      (s.populated uid ok).users = (s.load uid ok).users := by
  unfold populated
  split
  · exact ⟨rfl, rfl⟩
  · exact signIn_user _

theorem session_cases (s : App) {e : Ev} (h : e.isSession = true) : Session s (s.fire e) e := by
  cases e with
  | signOut ok =>
    simp only [fire, signOut]
    split
    · exact .signOut ok rfl rfl rfl
    · exact .kept _ rfl rfl rfl
  | authSignIn a => exact .kept _ rfl rfl rfl
  | populateAsCurrentUser =>
    simp only [fire, populateAsCurrentUser]
    split <;> exact .kept _ rfl rfl rfl
  | make firstName lastName =>
    simp only [fire, make]
    split <;> exact .kept _ rfl rfl rfl
  | signInReply i ok =>
    simp only [fire, signInReply]
    split
    · exact .kept _ rfl rfl rfl
    · rename_i uid hr
      obtain ⟨hu, hd⟩ := populated_user (s.taken i) uid ok
      rcases load_cases (s.taken i) uid ok with ⟨data, hdata, rfl, h⟩ | h
      · rw [h] at hu hd
        exact .populated i uid data hr hdata (by rw [hu]; rfl) (by rw [hu]; rfl) hd
      · rw [h] at hu hd
        exact .kept _ (by rw [hu]; rfl) (by rw [hu]; rfl) hd
    · rename_i a firstName lastName hr
      have huser := fun v => (signIn_user v).1
      cases ok with
      | false =>
        exact .made i a firstName lastName false { uid := some a.uid } hr (.inl (signIn_user _).2)
          ⟨rfl, rfl⟩ (by rw [made, huser]) (by rw [made, huser]; rfl)
      | true =>
        exact .made i a firstName lastName true _ hr (.inr (signIn_user _).2) ⟨rfl, rfl⟩
          (by rw [made, huser]) (by rw [made, huser]; rfl)
  | _ => cases h

/-- The event takes the account out of the user object: a sign-out, or the
answer to a sign-in request of another account. -/
inductive Replaces (s : App) : Ev → Prop
  | signOut (ok : Bool) : Replaces s (.signOut ok)
  | read (i : Nat) (u : String) (data : Profile) (hr : s.signIns[i]? = some (.read u))
      (h : s.users u = some data) (hu : s.user.uid.isSome = true) (hne : data.uid ≠ s.user.uid) :
      Replaces s (.signInReply i true)
  | form (i : Nat) (a : Account) (firstName lastName : Option String) (ok : Bool)
      (hr : s.signIns[i]? = some (.form a firstName lastName)) (hu : s.user.uid.isSome = true)
      (hne : some a.uid ≠ s.user.uid) : Replaces s (.signInReply i ok)

theorem Replaces.isSession {s : App} {e : Ev} (h : Replaces s e) : e.isSession = true := by
  cases h <;> rfl

/-- The account that comes has a `crsid`, or the process traps. -/
theorem crsid_of_signIn {s : App} (ht : s.signIn.trap = none) : s.user.crsid.isSome = true := by
  unfold signIn at ht
  split at ht
  · rename_i h; exact h.2
  · cases ht

/-- Any other event keeps the account, or finds none. -/
theorem uid_of_not_replaces {s t : App} {e : Ev} (h : Session s t e) (hn : ¬ Replaces s e) :
    s.user.uid = none ∨ t.user.uid = s.user.uid := by
  cases h with
  | kept _ uid => exact .inr uid
  | signOut ok => exact absurd (.signOut ok) hn
  | populated i u data hr hd uid =>
    rw [uid, or_iff_not_imp_left]
    intro hu
    by_contra hne
    exact hn (.read i u data hr hd (Option.isSome_iff_ne_none.mpr hu) hne)
  | made i a firstName lastName ok data hr _ _ uid =>
    rw [uid, or_iff_not_imp_left]
    intro hu
    by_contra hne
    exact hn (.form i a firstName lastName ok hr (Option.isSome_iff_ne_none.mpr hu) hne)

/-! ## One step -/

/-- Everything a step can do. -/
inductive Fires (s : App) : Ev → App → Prop
  | addItem (b : Basket) (x : OrderItem) : Fires s (.addItem b x) (s.addItem b x)
  | badIndex (index : Nat) : Fires s (.removeItemAt index) (s.crash .indexOutOfRange)
  | removeItemAt (index : Nat) (b : Basket) (i : Nat) (x : OrderItem)
      (h : (s.order b).items[i]? = some x) : Fires s (.removeItemAt index) (s.removed b i x)
  | textFieldDidEndEditing (text : Option String) :
      Fires s (.textFieldDidEndEditing text) (s.textFieldDidEndEditing text)
  | checkout (now : Basket → Date) : Fires s (.checkout now) (s.checkout now)
  | reply (i : Nat) (ok : Bool) (c : Callback) (l₁ l₂ : List Callback)
      (h : s.pending = l₁ ++ c :: l₂) :
      Fires s (.reply i ok) (((s.settle c ok).answered c ok (l₁ ++ l₂)).follow c)
  | session (e : Ev) (he : e.isSession = true) (hf : Frame s (s.fire e)) : Fires s e (s.fire e)

theorem step_cases {s t : App} {e : Ev} (h : s.step e = some t) :
    s.trap = none ∧ s.enabled e = true ∧ Fires s e t := by
  obtain ⟨ht, he, rfl⟩ := step_iff.mp h
  refine ⟨ht, he, ?_⟩
  cases e with
  | addItem b x => exact .addItem b x
  | removeItemAt index =>
    simp only [fire]
    rcases s.removeItemAt_cases index with hr | ⟨b, i, x, hx, hr⟩
    · rw [hr]; exact .badIndex index
    · rw [hr]; exact .removeItemAt index b i x hx
  | textFieldDidEndEditing text => exact .textFieldDidEndEditing text
  | checkout now => exact .checkout now
  | reply i ok =>
    obtain ⟨c, l₁, l₂, hp, rfl⟩ := reply_split he
    simp only [fire]
    rw [reply_eq hp ok]; exact .reply _ ok c l₁ l₂ hp
  | signOut ok => exact .session _ rfl (session_frame s rfl)
  | authSignIn a => exact .session _ rfl (session_frame s rfl)
  | populateAsCurrentUser => exact .session _ rfl (session_frame s rfl)
  | make firstName lastName => exact .session _ rfl (session_frame s rfl)
  | signInReply i ok => exact .session _ rfl (session_frame s rfl)

/-! ## Sign-in requests in flight -/

theorem Submit.signIns {s t : App} {call : Nat} {now : Basket → Date} {b : Basket}
    (h : Submit s call now b t) : t.signIns = s.signIns := by
  cases h <;> rfl

theorem signIns_settle (s : App) (c : Callback) (ok : Bool) :
    (s.settle c ok).signIns = s.signIns := by
  cases c <;> cases ok <;> rfl

theorem signIns_follow (s : App) (c : Callback) : (s.follow c).signIns = s.signIns := by
  cases c with
  | create w =>
    refine follow_create s w fun t ha => ?_
    cases ha <;> rfl
  | _ => rfl

/-- The events of the baskets leave them alone. -/
theorem signIns_kept {s t : App} {e : Ev} (hs : s.step e = some t) (he : e.isSession = false) :
    t.signIns = s.signIns := by
  have hf := (step_cases hs).2.2
  cases hf with
  | checkout now => exact (bar_turn s now).signIns.trans (cafe_turn s now).signIns
  | reply i ok c l₁ l₂ => exact (signIns_follow _ c).trans (signIns_settle s c ok)
  | session _ hses => rw [he] at hses; cases hses
  | _ => rfl

theorem signIns_signIn (s : App) : s.signIn.signIns = s.signIns := by
  unfold signIn
  split <;> rfl

theorem signIns_populated (s : App) (uid : String) (ok : Bool) :
    (s.populated uid ok).signIns = s.signIns := by
  have hload : (s.load uid ok).signIns = s.signIns := by
    rcases load_cases s uid ok with ⟨data, -, -, h⟩ | h <;> rw [h]
  unfold populated
  split
  · exact hload
  · rw [signIns_signIn, hload]

/-- A request in flight after a step was before, or is that of the step, for
the account Firebase has. -/
theorem signIns_step {s t : App} {e : Ev} (hs : s.step e = some t) {r : SignIn}
    (hr : r ∈ t.signIns) : r ∈ s.signIns ∨
      (∃ a, e = .populateAsCurrentUser ∧ s.auth = some a ∧ r = .read a.uid) ∨
      ∃ a f l, e = .make f l ∧ s.auth = some a ∧ r = .form a f l := by
  by_cases he : e.isSession = false
  · rw [signIns_kept hs he] at hr
    exact .inl hr
  obtain ⟨-, -, rfl⟩ := step_iff.mp hs
  cases e with
  | signOut ok =>
    simp only [fire, signOut] at hr
    split at hr <;> exact .inl hr
  | authSignIn a => exact .inl hr
  | populateAsCurrentUser =>
    simp only [fire, populateAsCurrentUser] at hr
    split at hr
    · exact .inl hr
    · rename_i a ha
      rcases List.mem_append.mp hr with hr | hr
      · exact .inl hr
      · exact .inr (.inl ⟨a, rfl, ha, List.mem_singleton.mp hr⟩)
  | make f l =>
    simp only [fire, make] at hr
    split at hr
    · exact .inl hr
    · rename_i a ha
      rcases List.mem_append.mp hr with hr | hr
      · exact .inl hr
      · exact .inr (.inr ⟨a, f, l, rfl, ha, List.mem_singleton.mp hr⟩)
  | signInReply i ok =>
    simp only [fire, signInReply] at hr
    left
    split at hr
    · exact hr
    · rw [signIns_populated] at hr
      exact List.mem_of_mem_eraseIdx hr
    · rw [made, signIns_signIn] at hr
      exact List.mem_of_mem_eraseIdx hr
  | _ => exact absurd rfl he

theorem crsid_of_replaces {s t : App} {e : Ev} (hs : s.step e = some t) (ht : t.trap = none)
    (h : Replaces s e) (hu : t.user.uid.isSome = true) : t.user.crsid.isSome = true := by
  obtain ⟨-, -, rfl⟩ := step_iff.mp hs
  cases h with
  | signOut ok =>
    have hnone := signOut_uid ht
    rw [show (s.fire (.signOut ok)).user.uid = none from hnone] at hu
    cases hu
  | read i u data hr =>
    simp only [fire, signInReply, hr] at ht hu ⊢
    unfold populated at ht hu ⊢
    split at ht
    · rename_i hn
      rw [if_pos hn] at hu
      rw [Option.isNone_iff_eq_none.mp hn] at hu
      cases hu
    · rename_i hn
      rw [if_neg hn, (signIn_user _).1]
      exact crsid_of_signIn ht
  | form i a f l ok hr =>
    simp only [fire, signInReply, hr, made] at ht ⊢
    rw [(signIn_user _).1]
    exact crsid_of_signIn ht

end App

end QadsCafe
