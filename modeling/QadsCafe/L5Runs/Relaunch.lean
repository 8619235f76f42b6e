import QadsCafe.L4App.Baskets

/-!
# What an order keeps that no one sees

The email, name, date and location of an order are set again by the checkout
that sends it (`savedOrder_bare`), so what an earlier checkout left in them
reaches neither the screen nor a document. `Alike` states differ in nothing
else, and only in orders without an ID that nothing is pending for; each step
of one is a step of the other (`Alike.step`), so their runs are the same
(`Alike.run`).

`relaunched` is the app after a new launch on the same device, with the same
documents on the server.
-/
namespace QadsCafe

open Core

/-- The order without what a checkout sets again. -/
def Order.bare (o : Order) : Order :=
  { o with email := none, name := none, orderDate := none, location := none }

namespace App

def withOrders (s : App) (o : Basket → Order) : App :=
  { s with user := { s.user with cafeOrder := o .cafe, barOrder := o .bar } }

/-- The app after a new launch. -/
def relaunched (s : App) : App :=
  { s with user := {}, pending := [], signIns := [], noteBy := fun _ => none }

/-- `o` can stand for the order of basket `b`. -/
def Near (s : App) (b : Basket) (o : Order) : Prop :=
  o = s.order b ∨
    (o.bare = (s.order b).bare ∧ (s.order b).orderID = none ∧ ∀ c ∈ s.pending, c.basket ≠ b)

def Alike (s : App) (o : Basket → Order) : Prop := ∀ b, Near s b (o b)

theorem Near.bare {s : App} {b : Basket} {o : Order} (h : Near s b o) :
    o.bare = (s.order b).bare := by
  rcases h with rfl | ⟨h, -⟩
  · rfl
  · exact h

theorem Near.orderID {s : App} {b : Basket} {o : Order} (h : Near s b o) :
    o.orderID = (s.order b).orderID := by
  show o.bare.orderID = (s.order b).bare.orderID
  rw [h.bare]

theorem Near.items {s : App} {b : Basket} {o : Order} (h : Near s b o) :
    o.items = (s.order b).items := by
  show o.bare.items = (s.order b).bare.items
  rw [h.bare]

/-- An order with a callback pending has no stand-in. -/
theorem Near.eq {s : App} {b : Basket} {o : Order} (h : Near s b o) {c : Callback}
    (hc : c ∈ s.pending) (hb : c.basket = b) : o = s.order b := by
  rcases h with h | ⟨-, -, hp⟩
  · exact h
  · exact absurd hb (hp c hc)

/-- The order is the same, and no callback for it is new. -/
theorem Near.congr {s t : App} {b : Basket} {o : Order} (h : Near s b o) (ho : t.order b = s.order b)
    (hp : ∀ c ∈ t.pending, c.basket = b → c ∈ s.pending) : Near t b o := by
  rcases h with h | ⟨h1, h2, h3⟩
  · exact .inl (h.trans ho.symm)
  · exact .inr ⟨by rw [ho]; exact h1, by rw [ho]; exact h2, fun c hc hb => h3 c (hp c hc hb) hb⟩

/-- The same edit of both, of fields that are no stamp. -/
theorem Near.edit {s t : App} {b : Basket} {o : Order} (h : Near s b o) {f : Order → Order}
    (hf : ∀ o, (f o).bare = f o.bare) (hid : ∀ o, (f o).orderID = o.orderID)
    (ho : t.order b = f (s.order b)) (hp : t.pending = s.pending) : Near t b (f o) := by
  rcases h with rfl | ⟨h1, h2, h3⟩
  · exact .inl ho.symm
  · refine .inr ⟨?_, ?_, by rw [hp]; exact h3⟩
    · rw [ho, hf, hf, h1]
    · rw [ho, hid]; exact h2

theorem order_withOrders (s : App) (o : Basket → Order) (b : Basket) :
    (s.withOrders o).order b = o b := by cases b <;> rfl

theorem withOrders_setOrder (s : App) (o : Basket → Order) (b : Basket) (v v' : Order) :
    (s.withOrders o).setOrder b v' = (s.setOrder b v).withOrders (Function.update o b v') := by
  cases b <;> rfl

/-- One order is edited, the same way in both states. -/
theorem Alike.edit {s t : App} {o : Basket → Order} (h : Alike s o) {b : Basket} {f : Order → Order}
    (hf : ∀ o, (f o).bare = f o.bare) (hid : ∀ o, (f o).orderID = o.orderID)
    (ho : ∀ c, t.order c = if c = b then f (s.order b) else s.order c) (hp : t.pending = s.pending) :
    Alike t (Function.update o b (f (o b))) := by
  intro c
  by_cases hc : c = b
  · subst hc
    rw [Function.update_self]
    exact (h c).edit hf hid (by rw [ho, if_pos rfl]) hp
  · rw [Function.update_of_ne hc]
    exact (h c).congr (by rw [ho, if_neg hc]) fun k hk _ => by rw [← hp]; exact hk

/-- One order is replaced by the same value in both states. -/
theorem Alike.replace {s t : App} {o : Basket → Order} (h : Alike s o) {b : Basket} {v : Order}
    (ho : ∀ c, t.order c = if c = b then v else s.order c)
    (hp : ∀ c ∈ t.pending, c ∈ s.pending ∨ c.basket = b) : Alike t (Function.update o b v) := by
  intro c
  by_cases hc : c = b
  · subst hc
    rw [Function.update_self]
    exact .inl (by rw [ho, if_pos rfl])
  · rw [Function.update_of_ne hc]
    refine (h c).congr (by rw [ho, if_neg hc]) fun k hk hb => ?_
    rcases hp k hk with hk | hk
    · exact hk
    · exact absurd (hb.symm.trans hk) hc

/-! ## Checkout -/

theorem lastLocation_none {location : Option String} {l : List OrderItem} (h : l ≠ []) :
    lastLocation location l = lastLocation none l := by
  simp [lastLocation, List.getLast?_eq_getLast_of_ne_nil h]

/-- What is sent does not depend on the stamps. -/
theorem savedOrder_bare {s : App} {b : Basket} (h : (s.order b).items ≠ []) (now : Date) :
    s.savedOrder now b = { (s.order b).bare with
      email := s.auth.bind (·.email)
      name := some (s.user.firstName.getD "" ++ " " ++ s.user.lastName.getD "")
      orderDate := some now
      location := lastLocation none (s.order b).bare.items } := by
  rw [App.savedOrder, lastLocation_none h]
  rfl

theorem createWrite_bare {s : App} {b : Basket} (h : (s.order b).items ≠ []) (call : Nat) (now : Date) :
    s.createWrite call now b =
      s.makeWrite call b s.nextID (s.savedOrder now b) (docOf s.user.crsid (s.savedOrder now b)) := by
  have hloc : lastLocation (s.savedOrder now b).location (s.order b).items =
      lastLocation (s.order b).location (s.order b).items := by
    rw [lastLocation_none h]
    exact (lastLocation_none h).symm
  have hdoc : docOf s.user.crsid (s.savedOrder now b) =
      docOf s.user.crsid { s.stamp b with orderDate := some now } := by
    show OrderDoc.mk _ _ _ _ _ (lastLocation (s.savedOrder now b).location (s.order b).items) _ _ _ _ _ =
      _
    rw [hloc]
    rfl
  rw [hdoc]
  rfl

section
variable {s : App} {b : Basket} (call : Nat) (now : Basket → Date)

theorem submit_skip (h : s.trap = none → (s.order b).items = []) : submit call now b s = s := by
  unfold submit
  split
  · rfl
  · rename_i ht
    have hi := h (by simpa using ht)
    split
    · rfl
    · rename_i hne; simp [hi] at hne

theorem submit_crash (ht : s.trap = none) (he : ¬ Encodable (s.order b).items) :
    submit call now b s = s.crash .emptyRange := by
  have hi : ¬ (s.order b).items.isEmpty = true := fun hi => he fun x hx => by
    rw [List.isEmpty_iff.mp hi] at hx; cases hx
  unfold submit
  rw [if_neg (by simp [ht]), if_neg hi]
  split
  · exact saveOrder_trap he call (now b)
  · exact updateOrder_trap he call _

theorem submit_saved (ht : s.trap = none) (hi : (s.order b).items ≠ []) (he : Encodable (s.order b).items)
    (hid : (s.order b).orderID = none) : submit call now b s = s.saved call (now b) b := by
  unfold submit
  rw [if_neg (by simp [ht]), if_neg (by simp [hi])]
  simp only [hid]
  exact saveOrder_eq he call (now b)

theorem submit_updated (ht : s.trap = none) (hi : (s.order b).items ≠ [])
    (he : Encodable (s.order b).items) {doc : Nat} (hid : (s.order b).orderID = some doc) :
    submit call now b s = s.updated call b doc := by
  unfold submit
  rw [if_neg (by simp [ht]), if_neg (by simp [hi])]
  simp only [hid]
  exact updateOrder_eq he call doc

end

theorem Alike.submit {s t : App} {o : Basket → Order} {call : Nat} {now : Basket → Date} {b : Basket}
    (h : Alike s o) (hs : Submit s call now b t) :
    ∃ o', App.submit call now b (s.withOrders o) = t.withOrders o' ∧ Alike t o' := by
  have hord := order_withOrders s o b
  have hitems : ((s.withOrders o).order b).items = (s.order b).items := by
    rw [hord]; exact (h b).items
  have hid : ((s.withOrders o).order b).orderID = (s.order b).orderID := by
    rw [hord]; exact (h b).orderID
  have htrap : (s.withOrders o).trap = s.trap := rfl
  have hissue : ∀ {t : App} {c : Callback}, c.basket = b → ∀ k ∈ t.pending ++ [c],
      k ∈ t.pending ∨ k.basket = b := by
    intro t c hb k hk
    rcases List.mem_append.mp hk with hk | hk
    · exact .inl hk
    · rw [List.mem_singleton.mp hk]; exact .inr hb
  cases hs with
  | skip hi => exact ⟨o, submit_skip call now fun ht => hitems.trans (hi ht), h⟩
  | trap ht hn => exact ⟨o, submit_crash call now ht (by rw [hitems]; exact hn), h⟩
  | create ht hi he hnew =>
    have hi' : ((s.withOrders o).order b).items ≠ [] := by rw [hitems]; exact hi
    have hsaved : (s.withOrders o).savedOrder (now b) b = s.savedOrder (now b) b := by
      rw [savedOrder_bare hi', savedOrder_bare hi, hord, (h b).bare]
      rfl
    have hwrite : (s.withOrders o).createWrite call (now b) b = s.createWrite call (now b) b := by
      rw [createWrite_bare hi', createWrite_bare hi, hsaved]
      rfl
    refine ⟨Function.update o b (s.savedOrder (now b) b), ?_,
      h.replace (fun c => order_setOrder { s with nextID := s.nextID + 1 } b c _) (hissue rfl)⟩
    rw [submit_saved call now (htrap.trans ht) hi' (by rw [hitems]; exact he) (hid.trans hnew),
      App.saved, hsaved, hwrite]
    exact congrArg (App.issue · _) (withOrders_setOrder { s with nextID := s.nextID + 1 } o b _ _)
  | update ht hi he doc hd =>
    have ho : o b = s.order b := by
      rcases h b with ho | ⟨-, hn, -⟩
      · exact ho
      · rw [hn] at hd; cases hd
    have hupdated : (s.withOrders o).updatedOrder b = s.updatedOrder b := by
      unfold App.updatedOrder App.stamp
      rw [hord, ho]
      rfl
    have hwrite : (s.withOrders o).updateWrite call b doc = s.updateWrite call b doc := by
      unfold App.updateWrite App.stamp
      rw [hupdated, hord, ho]
      rfl
    refine ⟨Function.update o b (s.updatedOrder b), ?_,
      h.replace (fun c => order_setOrder s b c _) (hissue rfl)⟩
    rw [submit_updated call now (htrap.trans ht) (by rw [hitems]; exact hi) (by rw [hitems]; exact he) (hid.trans hd),
      App.updated, hupdated, hwrite]
    exact congrArg (App.issue · _) (withOrders_setOrder s o b _ _)

/-! ## The basket -/

theorem Alike.addItem {s : App} {o : Basket → Order} (h : Alike s o) (b : Basket) (x : OrderItem) :
    ∃ o', (s.withOrders o).addItem b x = (s.addItem b x).withOrders o' ∧ Alike (s.addItem b x) o' := by
  refine ⟨Function.update o b ((o b).addItem (s.stored x)), by cases b <;> rfl,
    h.edit (f := fun o => o.addItem (s.stored x)) (fun _ => rfl) (fun _ => rfl) (fun c => ?_) rfl⟩
  exact order_addItem s b c x

theorem Alike.removeItemAt {s : App} {o : Basket → Order} (h : Alike s o) (index : Nat) :
    ∃ o', (s.withOrders o).removeItemAt index = (s.removeItemAt index).withOrders o' ∧
      Alike (s.removeItemAt index) o' := by
  have hlocate : (s.withOrders o).user.locate index = s.user.locate index := by
    show (if index < (o .cafe).items.length then _ else (_, index - (o .cafe).items.length)) = _
    rw [(h .cafe).items]
    rfl
  rw [removeItemAt_locate, removeItemAt_locate, hlocate]
  generalize s.user.locate index = p
  obtain ⟨b, i⟩ := p
  rw [order_withOrders, (h b).items]
  cases hx : (s.order b).items[i]? with
  | none => exact ⟨o, rfl, h⟩
  | some x =>
    let f : Order → Order := fun o => { o with price := o.price - x.price, items := o.items.eraseIdx i }
    refine ⟨Function.update o b (f (o b)), by cases b <;> rfl,
      h.edit (f := f) (fun _ => rfl) (fun _ => rfl) (fun c => ?_) rfl⟩
    exact order_removed s b c i x

theorem Alike.textFieldDidEndEditing {s : App} {o : Basket → Order} (h : Alike s o)
    (text : Option String) :
    ∃ o', (s.withOrders o).textFieldDidEndEditing text =
      (s.textFieldDidEndEditing text).withOrders o' ∧ Alike (s.textFieldDidEndEditing text) o' :=
  ⟨fun b => { o b with note := text }, rfl, fun b =>
    (h b).edit (f := fun o => { o with note := text }) (fun _ => rfl) (fun _ => rfl)
      (by cases b <;> rfl) rfl⟩

/-! ## Callbacks -/

theorem Alike.created {s : App} {o : Basket → Order} (h : Alike s o) {w : Write}
    (ho : o w.basket = s.order w.basket) :
    ∃ o', (s.withOrders o).created w = (s.created w).withOrders o' ∧ Alike (s.created w) o' ∧
      o' w.basket = (s.created w).order w.basket := by
  refine ⟨Function.update o w.basket { s.order w.basket with orderID := some w.doc }, ?_,
    h.replace (fun c => order_setOrder (s.store w) w.basket c _) fun c hc => .inl hc, ?_⟩
  · rw [App.created, order_withOrders, ho]
    exact withOrders_setOrder (s.store w) o w.basket _ _
  · rw [Function.update_self, App.created, order_setOrder, if_pos rfl]

theorem Alike.settle {s : App} {o : Basket → Order} (h : Alike s o) {c : Callback}
    (ho : o c.basket = s.order c.basket) (ok : Bool) :
    ∃ o', (s.withOrders o).settle c ok = (s.settle c ok).withOrders o' ∧ Alike (s.settle c ok) o' ∧
      o' c.basket = (s.settle c ok).order c.basket := by
  cases ok with
  | false => cases c <;> exact ⟨o, rfl, h, ho⟩
  | true =>
    cases c with
    | create w => exact h.created ho
    | update w => exact ⟨o, rfl, h, ho⟩
    | history call b uid ids => exact ⟨o, rfl, h, ho⟩

theorem Alike.follow {s : App} {o : Basket → Order} (h : Alike s o) {c : Callback}
    (ho : o c.basket = s.order c.basket) :
    ∃ o', (s.withOrders o).follow c = (s.follow c).withOrders o' ∧ Alike (s.follow c) o' := by
  have hreset : ∀ call b, o b = s.order b → ∃ o', (s.withOrders o).resetAndComplete call b =
      (s.resetAndComplete call b).withOrders o' ∧ Alike (s.resetAndComplete call b) o' := by
    intro call b _
    exact ⟨Function.update o b {}, by cases b <;> rfl,
      h.replace ((order_resetAndComplete s b · call)) fun k hk => .inl hk⟩
  cases c with
  | update w => exact hreset w.call w.basket ho
  | history call b uid ids => exact hreset call b ho
  | create w =>
    have hid : ((s.withOrders o).order w.basket).orderID = (s.order w.basket).orderID := by
      rw [order_withOrders]; exact congrArg Order.orderID ho
    have ha := appends_cases s w.call w.basket
    simp only [App.follow]
    generalize s.addToPreviousOrders w.call w.basket = t at ha
    cases ha with
    | skip hn =>
      refine ⟨o, ?_, h⟩
      simp only [addToPreviousOrders, hid.trans hn]
    | trap doc hd hu =>
      refine ⟨o, ?_, fun b => (h b).congr (order_append s b doc) fun _ hk _ => hk⟩
      rw [addToPreviousOrders_trap (hid.trans hd) hu]
      rfl
    | issue doc uid hd hu =>
      refine ⟨o, ?_, fun b => ?_⟩
      · rw [addToPreviousOrders_issue (hid.trans hd) hu]
        rfl
      · by_cases hb : b = w.basket
        · subst hb; exact .inl (ho.trans (order_append s _ doc).symm)
        · refine (h b).congr (order_append s b doc) fun k hk hkb => ?_
          rcases List.mem_append.mp hk with hk | hk
          · exact hk
          · rw [List.mem_singleton.mp hk] at hkb
            exact absurd hkb.symm hb

theorem Alike.reply {s : App} {o : Basket → Order} (h : Alike s o) {c : Callback}
    {l₁ l₂ : List Callback} (hp : s.pending = l₁ ++ c :: l₂) (ok : Bool) :
    ∃ o', (((s.withOrders o).settle c ok).answered c ok (l₁ ++ l₂)).follow c =
        (((s.settle c ok).answered c ok (l₁ ++ l₂)).follow c).withOrders o' ∧
      Alike (((s.settle c ok).answered c ok (l₁ ++ l₂)).follow c) o' := by
  have ho := (h c.basket).eq (mem_of_split hp) rfl
  obtain ⟨o₁, heq, hal, ho₁⟩ := h.settle ho ok
  have hans : Alike ((s.settle c ok).answered c ok (l₁ ++ l₂)) o₁ := by
    intro b
    refine (hal b).congr rfl fun k hk _ => ?_
    rw [pending_settle]; exact rest_subset hp hk
  obtain ⟨o₂, heq₂, hal₂⟩ := hans.follow (c := c) ho₁
  refine ⟨o₂, ?_, hal₂⟩
  rw [heq, ← heq₂]
  rfl

/-! ## Signing in and out -/

theorem signIn_withOrders (s : App) (o : Basket → Order) :
    (s.withOrders o).signIn = s.signIn.withOrders o := by
  unfold App.signIn
  show (if s.user.uid.isSome ∧ s.user.crsid.isSome then s.withOrders o
    else (s.withOrders o).crash .nilUnwrap) = _
  split <;> rfl

theorem load_withOrders (s : App) (o : Basket → Order) (uid : String) (ok : Bool) :
    (s.withOrders o).load uid ok = (s.load uid ok).withOrders o := by
  have husers : (s.withOrders o).users = s.users := rfl
  unfold App.load
  rw [husers]
  split <;> rfl

theorem populated_withOrders (s : App) (o : Basket → Order) (uid : String) (ok : Bool) :
    (s.withOrders o).populated uid ok = (s.populated uid ok).withOrders o := by
  have huid : ((s.load uid ok).withOrders o).user.uid = (s.load uid ok).user.uid := rfl
  unfold App.populated
  rw [load_withOrders, huid]
  split
  · rfl
  · exact signIn_withOrders _ o

theorem session_withOrders (s : App) (o : Basket → Order) {e : Ev} (h : e.isSession = true) :
    (s.withOrders o).fire e = (s.fire e).withOrders o := by
  cases e with
  | signOut ok =>
    simp only [fire, App.signOut]
    show (if s.user.uid.isSome ∧ s.user.crsid.isSome then _ else (s.withOrders o).crash .nilUnwrap) = _
    split <;> rfl
  | authSignIn a => rfl
  | populateAsCurrentUser =>
    simp only [fire, App.populateAsCurrentUser]
    have hauth : (s.withOrders o).auth = s.auth := rfl
    rw [hauth]
    cases s.auth <;> rfl
  | make firstName lastName =>
    simp only [fire, App.make]
    have hauth : (s.withOrders o).auth = s.auth := rfl
    rw [hauth]
    cases s.auth <;> rfl
  | signInReply i ok =>
    simp only [fire, App.signInReply]
    have hreads : (s.withOrders o).signIns = s.signIns := rfl
    rw [hreads]
    split
    · rfl
    · exact populated_withOrders (s.taken i) o _ ok
    · rw [made, made, ← signIn_withOrders]
      rfl
  | _ => cases h

theorem Alike.session {s : App} {o : Basket → Order} (h : Alike s o) {e : Ev}
    (he : e.isSession = true) :
    ∃ o', (s.withOrders o).fire e = (s.fire e).withOrders o' ∧ Alike (s.fire e) o' := by
  have hf := session_frame s he
  refine ⟨o, session_withOrders s o he, fun b => (h b).congr (hf.order b) fun k hk _ => ?_⟩
  rw [← hf.pending]; exact hk

/-! ## Runs -/

/-- **One step** of both states. -/
theorem Alike.step {s t : App} {o : Basket → Order} {e : Ev} (h : Alike s o) (hs : s.step e = some t) :
    ∃ o', (s.withOrders o).step e = some (t.withOrders o') ∧ Alike t o' := by
  obtain ⟨ht, he, rfl⟩ := step_iff.mp hs
  suffices hfire : ∃ o', (s.withOrders o).fire e = (s.fire e).withOrders o' ∧ Alike (s.fire e) o' by
    obtain ⟨o', heq, hal⟩ := hfire
    exact ⟨o', step_iff.mpr ⟨ht, by cases e <;> exact he, heq.symm⟩, hal⟩
  cases e with
  | addItem b x => exact h.addItem b x
  | removeItemAt index => exact h.removeItemAt index
  | textFieldDidEndEditing text => exact h.textFieldDidEndEditing text
  | checkout now =>
    have h0 : Alike { s with calls := s.calls + 1 } o := h
    obtain ⟨o₁, heq₁, h₁⟩ := h0.submit (cafe_turn s now)
    obtain ⟨o₂, heq₂, h₂⟩ := h₁.submit (bar_turn s now)
    refine ⟨o₂, ?_, h₂⟩
    show App.submit s.calls now .bar
      (App.submit s.calls now .cafe (App.withOrders { s with calls := s.calls + 1 } o)) = _
    rw [heq₁, heq₂]
    rfl
  | reply i ok =>
    obtain ⟨c, l₁, l₂, hp, rfl⟩ := reply_split he
    have hp' : (s.withOrders o).pending = l₁ ++ c :: l₂ := hp
    obtain ⟨o', heq, hal⟩ := h.reply hp ok
    simp only [fire]
    rw [reply_eq hp' ok, reply_eq hp ok]
    exact ⟨o', heq, hal⟩
  | signOut ok => exact h.session rfl
  | authSignIn a => exact h.session rfl
  | populateAsCurrentUser => exact h.session rfl
  | make firstName lastName => exact h.session rfl
  | signInReply i ok => exact h.session rfl

/-- **Runs** of both states. -/
theorem Alike.run {s t : App} {o : Basket → Order} {ls : List Ev} (h : Alike s o)
    (hrun : app.Run s ls t) : ∃ o', app.Run (s.withOrders o) ls (t.withOrders o') ∧ Alike t o' := by
  induction hrun generalizing o with
  | nil s => exact ⟨o, .nil _, h⟩
  | cons hs _ ih =>
    obtain ⟨o₁, hs₁, h₁⟩ := h.step hs
    obtain ⟨o₂, hrun₂, h₂⟩ := ih h₁
    exact ⟨o₂, .cons hs₁ hrun₂, h₂⟩

/-- The two states can be exchanged. -/
theorem Alike.symm {s : App} {o : Basket → Order} (h : Alike s o) : Alike (s.withOrders o) s.order := by
  intro b
  unfold Near
  rw [order_withOrders]
  rcases h b with ho | ⟨h1, h2, h3⟩
  · exact .inl ho.symm
  · exact .inr ⟨h1.symm, (h b).orderID.trans h2, h3⟩

end App

end QadsCafe
