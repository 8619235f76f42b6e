import QadsCafe.Core.Purge
import QadsCafe.L5Runs.CarryOver

/-!
# Checkouts that fail

A create that fails leaves its order without an ID, so nothing is appended to
the history, nothing is reset and the next checkout makes a new create.
`failures_unsent`: in a run in which no answer is a success, the checkouts and
the answers can be left out. The baskets, the account and the database are
the same without them, and once nothing is in flight the two apps are used
the same way from then on (`Twin`): a retry writes what a first try would.
-/
namespace QadsCafe

open Core

/-- The steps between the app and the database. -/
def Ev.isSend : Ev → Bool
  | .checkout _ | .reply .. => true
  | _ => false

namespace App

/-- What the sign-in events read and write. -/
def login (s : App) : App :=
  { auth := s.auth
    user := { s.user with cafeOrder := {}, barOrder := {} }
    users := s.users
    signIns := s.signIns
    trap := s.trap }

/-- The app `s` has tried to send what `u` has not. -/
structure Unsent (s u : App) : Prop where
  login : s.login = u.login
  orders : s.orders = u.orders
  order : ∀ b, (s.order b).bare = (u.order b).bare
  new : ∀ b, (s.order b).orderID = none
  creates : ∀ c ∈ s.pending, c.isCreate = true
  pending : u.pending = []
  noteBy : s.noteBy = u.noteBy
  nextRef : s.nextRef = u.nextRef

theorem login_setOrder (s : App) (b : Basket) (o : Order) : (s.setOrder b o).login = s.login := by
  cases b <;> rfl

theorem login_signIn (s : App) : s.signIn.login = s.login.signIn := by
  unfold signIn
  show _ = if s.user.uid.isSome ∧ s.user.crsid.isSome then s.login else s.login.crash .nilUnwrap
  split <;> rfl

theorem login_load (s : App) (uid : String) (ok : Bool) :
    (s.load uid ok).login = s.login.load uid ok := by
  have husers : s.login.users = s.users := rfl
  unfold load
  rw [husers]
  split <;> rfl

theorem login_populated (s : App) (uid : String) (ok : Bool) :
    (s.populated uid ok).login = s.login.populated uid ok := by
  have huid : (s.load uid ok).login.user.uid = (s.load uid ok).user.uid := rfl
  unfold populated
  rw [← login_load, huid]
  split
  · rfl
  · exact login_signIn _

/-- The sign-in events look at nothing else. -/
theorem login_fire (s : App) {e : Ev} (h : e.isSession = true) : (s.fire e).login = s.login.fire e := by
  cases e with
  | signOut ok =>
    simp only [fire, signOut]
    show _ = if s.user.uid.isSome ∧ s.user.crsid.isSome then _ else s.login.crash .nilUnwrap
    split <;> rfl
  | authSignIn a => rfl
  | populateAsCurrentUser =>
    simp only [fire, populateAsCurrentUser]
    have hauth : s.login.auth = s.auth := rfl
    rw [hauth]
    cases s.auth <;> rfl
  | make firstName lastName =>
    simp only [fire, make]
    have hauth : s.login.auth = s.auth := rfl
    rw [hauth]
    cases s.auth <;> rfl
  | signInReply i ok =>
    simp only [fire, signInReply]
    have hreads : s.login.signIns = s.signIns := rfl
    rw [hreads]
    split
    · rfl
    · exact login_populated (s.taken i) _ ok
    · rw [made, made, login_signIn]
      rfl
  | _ => cases h

namespace Unsent

variable {s u : App}

theorem trap (h : Unsent s u) : s.trap = u.trap := by
  have htrap := congrArg App.trap h.login
  exact htrap

theorem account (h : Unsent s u) : s.account = u.account := by
  have haccount := congrArg App.account h.login
  exact haccount

theorem signIns (h : Unsent s u) : s.signIns = u.signIns := by
  have hreads := congrArg App.signIns h.login
  exact hreads

theorem uid (h : Unsent s u) : s.user.uid = u.user.uid := congrArg (fun a => a.2.1) h.account

theorem items (h : Unsent s u) (b : Basket) : (s.order b).items = (u.order b).items := by
  have hitems := congrArg Order.items (h.order b)
  exact hitems

theorem start (hs : app.Reachable s) (ht : s.trap = none) (hp : s.pending = []) : Unsent s s := by
  refine ⟨rfl, rfl, fun _ => rfl, fun b => orderID_none hs ht hp b, fun c hc => ?_, hp, rfl, rfl⟩
  rw [hp] at hc
  cases hc

/-! ## Basket actions -/

theorem setOrder (h : Unsent s u) (b : Basket) {o o' : Order} (ho : o.bare = o'.bare)
    (hid : o.orderID = none) : Unsent (s.setOrder b o) (u.setOrder b o') where
  __ := h
  login := by rw [login_setOrder, login_setOrder, h.login]
  order c := by
    rw [order_setOrder, order_setOrder]
    split
    · exact ho
    · exact h.order c
  new c := by
    rw [order_setOrder]
    split
    · exact hid
    · exact h.new c

theorem crash (h : Unsent s u) (t : Trap) : Unsent (s.crash t) (u.crash t) :=
  { h with login := congrArg (App.crash · t) h.login }

theorem addItem (h : Unsent s u) (b : Basket) (x : OrderItem) :
    Unsent (s.addItem b x) (u.addItem b x) := by
  have hitem : s.stored x = u.stored x := by
    unfold stored
    rw [h.nextRef, h.uid]
  have hbare : ((s.order b).addItem (s.stored x)).bare = ((u.order b).addItem (u.stored x)).bare := by
    rw [hitem]
    exact congrArg (Order.addItem · (u.stored x)) (h.order b)
  have hset := h.setOrder b hbare (h.new b)
  exact { hset with nextRef := congrArg (· + 1) h.nextRef }

theorem removeItemAt (h : Unsent s u) (index : Nat) :
    Unsent (s.removeItemAt index) (u.removeItemAt index) := by
  have hlocate : s.user.locate index = u.user.locate index := by
    have hcafe : s.user.cafeOrder.items = u.user.cafeOrder.items := h.items .cafe
    unfold User.locate
    rw [hcafe]
  rw [removeItemAt_locate, removeItemAt_locate, hlocate]
  generalize u.user.locate index = p
  obtain ⟨b, i⟩ := p
  dsimp only
  rw [h.items b]
  cases hx : (u.order b).items[i]? with
  | none => exact h.crash _
  | some x =>
    let f : Order → Order := fun o => { o with price := o.price - x.price, items := o.items.eraseIdx i }
    have hbare : (f (s.order b)).bare = (f (u.order b)).bare := congrArg f (h.order b)
    show Unsent (s.removed b i x) (u.removed b i x)
    exact { h.setOrder b hbare (h.new b) with }

theorem note (h : Unsent s u) (text : Option String) :
    Unsent (s.textFieldDidEndEditing text) (u.textFieldDidEndEditing text) where
  __ := h
  login := h.login
  order b := by
    have hbare := congrArg (fun o : Order => { o with note := text }) (h.order b)
    cases b with
    | cafe => exact hbare
    | bar => exact hbare
  new b := by rw [orderID_textFieldDidEndEditing]; exact h.new b
  noteBy := by
    show (fun _ => text.bind fun _ => s.user.uid) = fun _ => text.bind fun _ => u.user.uid
    rw [h.uid]

/-! ## Sending -/

theorem sent (h : Unsent s u) (b : Basket) {o : Order} (ho : o.bare = (u.order b).bare)
    (hid : o.orderID = none) : Unsent ({ s with nextID := s.nextID + 1 }.setOrder b o) u where
  __ := h
  login := (login_setOrder _ b o).trans h.login
  order c := by
    rw [order_setOrder]
    split
    · rename_i hc; subst hc; exact ho
    · exact h.order c
  new c := by
    rw [order_setOrder]
    split
    · exact hid
    · exact h.new c

theorem issue (h : Unsent s u) {c : Callback} (hc : c.isCreate = true) : Unsent (s.issue c) u where
  __ := h
  login := h.login
  creates k hk := by
    rcases (mem_issue s).mp hk with hk | rfl
    · exact h.creates k hk
    · exact hc

theorem turn {t : App} {call : Nat} {now : Basket → Date} {b : Basket} (h : Unsent s u)
    (hs : Submit s call now b t) (ht : t.trap = none) : Unsent t u := by
  cases hs with
  | skip => exact h
  | trap => cases ht
  | create =>
    have hset : Unsent ({ s with nextID := s.nextID + 1 }.setOrder b (s.savedOrder (now b) b)) u :=
      h.sent b (h.order b) (h.new b)
    have hcreate : (Callback.create (s.createWrite call (now b) b)).isCreate = true := rfl
    exact hset.issue hcreate
  | update _ _ _ doc hid =>
    rw [h.new b] at hid
    cases hid

theorem checkout {now : Basket → Date} (h : Unsent s u) (ht : (s.checkout now).trap = none) :
    Unsent (s.checkout now) u := by
  have h0 : Unsent { s with calls := s.calls + 1 } u := { h with login := h.login }
  have h1 := h0.turn (cafe_turn s now) ((bar_turn s now).turn.trap ht)
  exact h1.turn (bar_turn s now) ht

/-- A create that fails leaves nothing to do: its order has no ID. -/
theorem reply (h : Unsent s u) {c : Callback} {l₁ l₂ : List Callback}
    (hp : s.pending = l₁ ++ c :: l₂) : Unsent (s.reply l₁.length false) u := by
  have hc := h.creates c (mem_of_split hp)
  rw [reply_eq hp false]
  cases c with
  | create w =>
    have hid : ((s.answered (.create w) false (l₁ ++ l₂)).order w.basket).orderID = none :=
      h.new w.basket
    have hskip : (s.answered (.create w) false (l₁ ++ l₂)).addToPreviousOrders w.call w.basket =
        s.answered (.create w) false (l₁ ++ l₂) := by
      simp only [App.addToPreviousOrders, hid]
    simp only [App.settle, App.follow, hskip]
    exact { h with
      login := h.login
      creates := fun k hk => h.creates k (rest_subset hp hk) }
  | update w => cases hc
  | history => cases hc

/-! ## Runs -/

theorem session (h : Unsent s u) {e : Ev} (he : e.isSession = true) :
    Unsent (s.fire e) (u.fire e) := by
  have f := session_frame s he
  have f' := session_frame u he
  refine ⟨?_, ?_, fun b => ?_, fun b => ?_, ?_, ?_, ?_, ?_⟩
  · rw [login_fire s he, login_fire u he, h.login]
  · rw [f.orders, f'.orders]; exact h.orders
  · rw [f.order, f'.order]; exact h.order b
  · rw [f.order]; exact h.new b
  · rw [f.pending]; exact h.creates
  · rw [f'.pending]; exact h.pending
  · rw [f.noteBy, f'.noteBy]; exact h.noteBy
  · rw [f.nextRef, f'.nextRef]; exact h.nextRef

/-- A step of the user's is one of the app that has not sent. -/
theorem kept {t : App} {e : Ev} (h : Unsent s u) (hs : s.step e = some t)
    (he : e.isSend = false) : u.step e = some (u.fire e) ∧ Unsent t (u.fire e) := by
  obtain ⟨ht, hen, rfl⟩ := step_iff.mp hs
  have hauth : s.auth = u.auth := congrArg (fun a => a.1) h.account
  have hen' : u.enabled e = true := by
    cases e with
    | reply => cases he
    | authSignIn => rfl
    | signInReply => simpa [enabled, h.signIns] using hen
    | _ => simpa [enabled, h.uid, hauth] using hen
  refine ⟨step_iff.mpr ⟨h.trap.symm.trans ht, hen', rfl⟩, ?_⟩
  cases e with
  | addItem b x => exact h.addItem b x
  | removeItemAt index => exact h.removeItemAt index
  | textFieldDidEndEditing text => exact h.note text
  | checkout => cases he
  | reply => cases he
  | _ => exact h.session rfl

theorem dropped {t : App} {e : Ev} (h : Unsent s u) (hs : s.step e = some t) (he : e.isSend = true)
    (hf : ∀ i, e ≠ .reply i true) (ht : t.trap = none) : Unsent t u := by
  obtain ⟨-, hen, rfl⟩ := step_iff.mp hs
  cases e with
  | checkout now => exact h.checkout ht
  | reply i ok =>
    cases ok with
    | true => exact absurd rfl (hf i)
    | false =>
      obtain ⟨c, l₁, l₂, hp, rfl⟩ := reply_split hen
      exact h.reply hp
  | _ => cases he

theorem unwinds : Unwinds App.step app (fun _ e => if !e.isSend then some e else none)
    (fun e => ∀ i, e ≠ .reply i true) fun s u => s.trap = none → Unsent s u where
  kept s u t e k _ hR hs hk := by
    obtain ⟨he, ⟨⟩⟩ := Option.ite_none_right_eq_some.mp hk
    obtain ⟨hu, h⟩ := (hR (step_iff.mp hs).1).kept hs (by simpa using he)
    exact ⟨_, hu, fun _ => h⟩
  dropped s u t e hf hR hs hk ht :=
    (hR (step_iff.mp hs).1).dropped hs (by simpa using hk) hf ht

end Unsent

/-- No document has an ID that is still to be handed out. -/
theorem orders_fresh {s : App} (h : app.Reachable s) (k : Nat) : s.orders (s.nextID + k) = none := by
  cases ho : s.orders (s.nextID + k) with
  | none => rfl
  | some w => exact absurd ((docs_reachable h).stored _ w ho) (Nat.not_lt_of_le (Nat.le_add_right _ _))

theorem twin_idle {s u : App} (hs : app.Reachable s) (hu : app.Reachable u) (ht : s.trap = none)
    (ht' : u.trap = none) (ha : s.account = u.account) (ho : ∀ b, (s.order b).core = (u.order b).core)
    (hp : s.pending = []) (hp' : u.pending = []) : Twin s u s u := by
  refine ⟨ht.trans ht'.symm, ha, fun b => ?_, ?_, ⟨0, rfl, rfl⟩, fun k => ?_, fun _ _ => rfl,
    fun _ _ => rfl⟩
  · exact .refl_core (ho b) (orderID_none hs ht hp b) (orderID_none hu ht' hp' b)
  · rw [hp, hp']; exact .nil
  · rw [orders_fresh hs, orders_fresh hu]

theorem Twin.sameDocuments {s u : App} (h : Twin s u s u) : SameDocuments s u := by
  intro ls₁ ls₂ u₁ hls hn hr
  obtain ⟨u₂, hr₂, hu⟩ := h.run hls hn hr
  exact ⟨u₂, hr₂, hu.docs⟩

/-- With nothing in flight the two apps are the same start. -/
theorem Unsent.sameDocuments {s u : App} (h : Unsent s u) (hs : app.Reachable s)
    (hu : app.Reachable u) (ht : s.trap = none) (hp : s.pending = []) :
    SameDocuments s u ∧ SameDocuments u s := by
  have hcore : ∀ b, (s.order b).core = (u.order b).core := fun b =>
    congrArg (fun o : Order => { o with
      orderID := none
      items := o.items.map OrderItem.untag }) (h.order b)
  have ht' : u.trap = none := h.trap.symm.trans ht
  exact ⟨(twin_idle hs hu ht ht' h.account hcore hp h.pending).sameDocuments,
    (twin_idle hu hs ht' ht h.account.symm (fun b => (hcore b).symm) h.pending hp).sameDocuments⟩

/-- **Failures leave no trace.** With nothing in flight at the start and no
success among the answers, the checkouts and answers of a run can be left out.
Once nothing is in flight again, the same acts from either end write the same
documents. -/
theorem failures_unsent {s t : App} {ls : List Ev} (hs : app.Reachable s) (hp : s.pending = [])
    (hr : app.Run s ls t) (hf : ∀ i, .reply i true ∉ ls) (ht : t.trap = none) :
    ∃ u, app.Run s (ls.filter fun e => !e.isSend) u ∧ Unsent t u ∧
      (t.pending = [] → SameDocuments t u ∧ SameDocuments u t) := by
  have hfalse : ∀ e ∈ ls, ∀ i, e ≠ .reply i true := by
    rintro e he i rfl
    exact hf i he
  obtain ⟨u, hu, hR⟩ := Unsent.unwinds.run hr hfalse fun ht => .start hs ht hp
  rw [purge_filter hr] at hu
  have h := hR ht
  exact ⟨u, hu, h, h.sameDocuments (hs.run hr) (hs.run hu) ht⟩

/-- A tea that is sent twice in vain, the second time with an ale. -/
def vainTea : List Ev :=
  [.checkout fun _ => 0, .addItem .bar (plainItem "ale" "Bar"), .checkout fun _ => 1,
    .reply 2 false, .reply 0 false, .reply 0 false]

theorem vain_unsent : ∃ s t u, app.Run {} (teaWith none) s ∧ app.Run s vainTea t ∧
    app.Run s [.addItem .bar (plainItem "ale" "Bar")] u ∧ Unsent t u ∧ SameDocuments t u := by
  obtain ⟨s, hs, t, hr, ht, hp, hp'⟩ : ∃ s, app.Run {} (teaWith none) s ∧
      ∃ t, app.Run s vainTea t ∧ t.trap = none ∧ t.pending = [] ∧ s.pending = [] :=
    ⟨_, LTS.run_of_exec rfl, _, LTS.run_of_exec rfl, rfl, rfl, rfl⟩
  have hf : ∀ i, .reply i true ∉ vainTea := by
    intro i hi
    simp [vainTea] at hi
  obtain ⟨u, hu, h, hsame⟩ := failures_unsent (hs.reachable launch_default) hp' hr hf ht
  exact ⟨s, t, u, hs, hr, hu, h, (hsame hp).1⟩

end App

end QadsCafe
