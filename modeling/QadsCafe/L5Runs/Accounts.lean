import QadsCafe.L4App.Invariant
import QadsCafe.L5Runs.NoLostItem
import QadsCafe.L5Runs.Relaunch
import QadsCafe.L5Runs.Totals

/-!
# Baskets and accounts

`signOut` resets the account data of the user object ("Reset data") but not
its two orders, and so does the answer to a sign-in. The next account finds
the items and the note in the basket and sends them under its own name
(`basket_handed_over`); and callbacks still pending act on its orders.

`LeftClean` leaves out the steps that take an account away (`Replaces`) and
leave anything behind. Without them every document holds what was entered
under the account that sent it (`Owned`), and the next account finds the app
as with new orders (`alike_emptied`), after a sign-out as after a new launch
on the same server. After any other such step another account sends what was
left, or loses an item to a late callback (`crossed_of_leftovers`); the latter
is a run of the model only where Firestore holds the callback back.
-/
namespace QadsCafe

open Core

namespace App

/-- An account goes only with empty orders, no note and no callback pending. -/
def LeftClean (s : App) (e : Ev) : Prop :=
  Replaces s e → s.pending = [] ∧ ∀ b, (s.order b).items = [] ∧ (s.order b).note = none

/-- The order holds only what `uid` entered. -/
structure OwnedBy (uid noteBy : Option String) (o : Order) : Prop where
  items : ∀ x ∈ o.items, x.tag.uid = uid
  note : noteBy = o.note.bind fun _ => uid
  out : uid = none → o.items = [] ∧ o.note = none
  marks : o.archived = false ∧ o.cancelled = false ∧ o.flagged = false ∧ o.userCRSID = none

/-- The document was sent by the account that entered its items and its note. -/
def SentByOwner (w : Write) : Prop :=
  (∀ x ∈ w.built, x.tag.uid = w.uid) ∧ (w.data.note ≠ none → w.noteBy = w.uid)

structure Owned (s : App) : Prop where
  basket : ∀ b, OwnedBy s.user.uid (s.noteBy b) (s.order b)
  issued : ∀ c w, .issued c ∈ s.log → c.write? = some w → SentByOwner w

theorem OwnedBy.fresh (uid : Option String) : OwnedBy uid none {} := by
  refine ⟨fun x hx => ?_, rfl, fun _ => ⟨rfl, rfl⟩, rfl, rfl, rfl, rfl⟩
  cases hx

theorem OwnedBy.congr {uid noteBy : Option String} {o o' : Order} (h : OwnedBy uid noteBy o)
    (hi : o'.items ⊆ o.items) (hn : o'.note = o.note)
    (hm : o'.archived = o.archived ∧ o'.cancelled = o.cancelled ∧ o'.flagged = o.flagged ∧
      o'.userCRSID = o.userCRSID) : OwnedBy uid noteBy o' := by
  refine ⟨fun x hx => h.items x (hi hx), by rw [hn]; exact h.note, fun hu => ?_, ?_⟩
  · obtain ⟨hi', hn'⟩ := h.out hu
    rw [hi'] at hi
    exact ⟨List.subset_nil.mp hi, hn.trans hn'⟩
  · obtain ⟨h1, h2, h3, h4⟩ := hm
    rw [h1, h2, h3, h4]; exact h.marks

/-- An order with nothing in it belongs to anyone. -/
theorem OwnedBy.vacant {uid noteBy : Option String} {o : Order} (h : OwnedBy uid noteBy o)
    (hi : o.items = []) (hn : o.note = none) (uid' : Option String) : OwnedBy uid' noteBy o := by
  refine ⟨?_, ?_, fun _ => ⟨hi, hn⟩, h.marks⟩
  · intro x hx; rw [hi] at hx; cases hx
  · rw [h.note, hn]; rfl

/-- What is sent from an order is what its owner entered. -/
theorem OwnedBy.sent {s : App} {b : Basket} (h : OwnedBy s.user.uid (s.noteBy b) (s.order b)) {w : Write}
    (hb : w.built = (s.order b).items) (hn : w.data.note = (s.order b).note) (hu : w.uid = s.user.uid)
    (hby : w.noteBy = s.noteBy b) : SentByOwner w := by
  refine ⟨fun x hx => ?_, fun hne => ?_⟩
  · rw [hb] at hx; rw [hu]; exact h.items x hx
  · obtain ⟨n, hsome⟩ := Option.ne_none_iff_exists'.mp (hn ▸ hne)
    rw [hby, h.note, hsome, hu]; rfl

theorem Owned.congr {s t : App} (h : Owned s) (hu : t.user.uid = s.user.uid)
    (hb : ∀ b, t.noteBy b = s.noteBy b ∧ (t.order b).items ⊆ (s.order b).items ∧
      (t.order b).note = (s.order b).note ∧ (t.order b).archived = (s.order b).archived ∧
      (t.order b).cancelled = (s.order b).cancelled ∧ (t.order b).flagged = (s.order b).flagged ∧
      (t.order b).userCRSID = (s.order b).userCRSID)
    (hl : ∀ c, .issued c ∈ t.log → .issued c ∈ s.log) : Owned t := by
  refine ⟨fun b => ?_, fun c w hc => h.issued c w (hl c hc)⟩
  obtain ⟨hby, hi, hn, hm⟩ := hb b
  rw [hu, hby]
  exact (h.basket b).congr hi hn hm

theorem Owned.issue {s : App} (h : Owned s) {c : Callback}
    (hc : ∀ w, c.write? = some w → SentByOwner w) : Owned (s.issue c) := by
  refine ⟨h.basket, fun k w hk => ?_⟩
  simp only [log_issue, List.mem_append, List.mem_singleton, Obs.issued.injEq] at hk
  rcases hk with hk | rfl
  · exact h.issued k w hk
  · exact hc w

/-- An order whose items, note and marks are kept. -/
theorem Owned.setOrder {s : App} (h : Owned s) {b : Basket} {o : Order}
    (hi : o.items = (s.order b).items) (hn : o.note = (s.order b).note)
    (hm : o.archived = (s.order b).archived ∧ o.cancelled = (s.order b).cancelled ∧
      o.flagged = (s.order b).flagged ∧ o.userCRSID = (s.order b).userCRSID) :
    Owned (s.setOrder b o) := by
  refine h.congr (User.uid_setOrder _ _ _) (fun c => ⟨rfl, ?_⟩) fun _ hc => hc
  rw [order_setOrder]
  split
  · rename_i hc; subst hc
    exact ⟨by rw [hi]; exact List.Subset.refl _, hn, hm⟩
  · exact ⟨List.Subset.refl _, rfl, rfl, rfl, rfl, rfl⟩

theorem Owned.submit {s t : App} {call : Nat} {now : Basket → Date} {b : Basket} (h : Owned s)
    (hs : Submit s call now b t) : Owned t := by
  cases hs with
  | skip => exact h
  | trap => exact ⟨h.basket, h.issued⟩
  | create =>
    have h1 : Owned { s with nextID := s.nextID + 1 } := ⟨h.basket, h.issued⟩
    refine (h1.setOrder (b := b) (o := s.savedOrder (now b) b) rfl rfl ⟨rfl, rfl, rfl, rfl⟩).issue
      fun w hw => ?_
    cases hw
    exact (h.basket b).sent rfl rfl rfl rfl
  | update _ _ _ doc =>
    refine (h.setOrder (o := s.updatedOrder b) rfl rfl ⟨rfl, rfl, rfl, rfl⟩).issue fun w hw => ?_
    cases hw
    exact (h.basket b).sent rfl rfl rfl rfl

theorem Owned.settle {s : App} (h : Owned s) (c : Callback) (ok : Bool) : Owned (s.settle c ok) := by
  cases ok with
  | false => cases c <;> exact h
  | true =>
    cases c with
    | create w =>
      have h1 : Owned (s.store w) := ⟨h.basket, h.issued⟩
      exact h1.setOrder rfl rfl ⟨rfl, rfl, rfl, rfl⟩
    | update w => exact ⟨h.basket, h.issued⟩
    | history call b uid ids => exact ⟨h.basket, h.issued⟩

theorem Owned.resetAndComplete {s : App} (h : Owned s) (call : Nat) (b : Basket) :
    Owned (s.resetAndComplete call b) := by
  refine ⟨fun c => ?_, fun c w hc => h.issued c w ?_⟩
  · have hu : (s.resetAndComplete call b).user.uid = s.user.uid := User.uid_setOrder _ _ _
    have hby : (s.resetAndComplete call b).noteBy c = if c = b then none else s.noteBy c := rfl
    rw [hu, hby, order_resetAndComplete]
    split
    · exact .fresh _
    · exact h.basket c
  · simpa using hc

theorem Owned.append {s : App} (h : Owned s) (doc : Nat) : Owned (s.append doc) := by
  refine ⟨fun b => ?_, fun c w hc => h.issued c w ?_⟩
  · rw [order_append]; exact h.basket b
  · simpa using hc

theorem Owned.follow {s : App} (h : Owned s) (c : Callback) : Owned (s.follow c) := by
  cases c with
  | create w =>
    refine follow_create s w fun t ha => ?_
    cases ha with
    | skip => exact h
    | trap doc => exact ⟨(h.append doc).basket, (h.append doc).issued⟩
    | issue doc uid => exact (h.append doc).issue fun w hw => by cases hw
  | update w => exact h.resetAndComplete _ _
  | history call b uid ids => exact h.resetAndComplete _ _

/-- Another account may sign in to orders with nothing in them. -/
theorem Owned.session {s t : App} (h : Owned s) (f : Frame s t)
    (hv : ∀ b, (s.order b).items = [] ∧ (s.order b).note = none) : Owned t := by
  refine ⟨fun b => ?_, by rw [f.log]; exact h.issued⟩
  rw [f.order, f.noteBy]
  exact (h.basket b).vacant (hv b).1 (hv b).2 _

theorem Owned.step {s t : App} {e : Ev} (h : Owned s) (hs : s.step e = some t) (hC : LeftClean s e) :
    Owned t := by
  obtain ⟨-, he, hf⟩ := step_cases hs
  cases hf with
  | addItem b x =>
    have hout := Option.isSome_iff_ne_none.mp (show s.user.uid.isSome = true from he)
    refine ⟨fun c => ?_, fun c w hc => h.issued c w ?_⟩
    · have huid : (s.addItem b x).user.uid = s.user.uid := User.uid_setOrder _ _ _
      have hc := h.basket c
      rw [huid, order_addItem]
      split
      · rename_i hcb; subst hcb
        refine ⟨fun y hy => ?_, hc.note, fun hn => absurd hn hout, hc.marks⟩
        rcases List.mem_append.mp hy with hy | hy
        · exact hc.items y hy
        · rw [List.mem_singleton.mp hy]; rfl
      · exact hc
    · simpa using hc
  | badIndex => exact ⟨h.basket, h.issued⟩
  | removeItemAt index b i x =>
    refine h.congr (User.uid_setOrder _ _ _) (fun c => ⟨rfl, ?_⟩) fun c hc => ?_
    · rw [order_removed]
      split
      · rename_i hcb; subst hcb
        exact ⟨List.eraseIdx_subset, rfl, rfl, rfl, rfl, rfl⟩
      · exact ⟨List.Subset.refl _, rfl, rfl, rfl, rfl, rfl⟩
    · simpa using hc
  | textFieldDidEndEditing text =>
    have hout := Option.isSome_iff_ne_none.mp (show s.user.uid.isSome = true from he)
    refine ⟨fun b => ?_, h.issued⟩
    cases b with
    | cafe => exact ⟨(h.basket .cafe).items, rfl, fun hn => absurd hn hout, (h.basket .cafe).marks⟩
    | bar => exact ⟨(h.basket .bar).items, rfl, fun hn => absurd hn hout, (h.basket .bar).marks⟩
  | checkout now =>
    have h0 : Owned { s with calls := s.calls + 1 } := ⟨h.basket, h.issued⟩
    exact (h0.submit (cafe_turn s now)).submit (bar_turn s now)
  | reply i ok c l₁ l₂ =>
    have hset := h.settle c ok
    have hans : Owned ((s.settle c ok).answered c ok (l₁ ++ l₂)) := by
      refine ⟨hset.basket, fun k w hk => hset.issued k w ?_⟩
      simpa using hk
    exact hans.follow c
  | session e hsess f =>
    by_cases hrep : Replaces s e
    · exact h.session f (hC hrep).2
    rcases uid_of_not_replaces (session_cases s hsess) hrep with hn | hsame
    · exact h.session f fun b => (h.basket b).out hn
    · exact h.congr hsame (fun b => ⟨by rw [f.noteBy], by rw [f.order]; simp⟩)
        fun c hc => by rw [f.log] at hc; exact hc

theorem Owned.launch {s : App} (h : Launch s) : Owned s := by
  refine ⟨fun b => ?_, fun c w hc => by rw [h.log] at hc; cases hc⟩
  rw [h.order, h.noteBy]; exact .fresh _

theorem owned_reachable {s : App} (h : (app.when LeftClean).Reachable s) : Owned s :=
  h.invariant (fun _ => Owned.launch) fun _ _ _ _ hi hs => hi.step hs.1 hs.2

/-! ## As with new orders -/

/-- The app with nothing in its baskets and no callback pending. -/
def emptied (s : App) : App :=
  { s.withOrders (fun _ => {}) with pending := [], noteBy := fun _ => none }

/-- After a clean step the orders differ from new ones in stamps at most. -/
theorem alike_emptied {s t : App} {e : Ev} (hr : (app.when LeftClean).Reachable s)
    (hs : (app.when LeftClean).step s e t) (hrep : Replaces s e) (ht : t.trap = none) :
    emptied t = t.withOrders (fun _ => {}) ∧ Alike t fun _ => {} := by
  obtain ⟨hpend, hleft⟩ := hs.2 hrep
  have hrt := hr.step hs
  have hown := owned_reachable hrt
  have hsum := summed_reachable hrt.of_when
  obtain ⟨-, -, rfl⟩ := step_iff.mp hs.1
  have hf := session_frame s hrep.isSession
  have hnew := orderID_none hrt.of_when ht (hf.pending.trans hpend)
  have hby : (s.fire e).noteBy = fun _ => none := by
    funext b
    have hn := (hown.basket b).note
    rw [hf.order, (hleft b).2] at hn
    exact hn
  constructor
  · unfold emptied App.withOrders
    rw [← hby, ← hf.pending.trans hpend]
  · intro b
    refine .inr ⟨?_, hnew b, fun c hc => ?_⟩
    · have hprice : ((s.fire e).order b).price = prices _ := hsum.order b
      have hitems := (hleft b).1
      have hnote := (hleft b).2
      obtain ⟨h1, h2, h3, h4⟩ := (hown.basket b).marks
      have hid := hnew b
      rw [← hf.order] at hitems hnote
      generalize (s.fire e).order b = o at *
      obtain ⟨_, _, _, _, _, _, _, _, _, _, _, _⟩ := o
      simp only at hprice hitems hnote h1 h2 h3 h4 hid
      subst hitems hnote h1 h2 h3 h4 hid hprice
      rfl
    · rw [hf.pending, hpend] at hc; cases hc

/-- After a sign-out that is a new launch. -/
theorem emptied_signOut {s t : App} {ok : Bool} (hs : s.step (.signOut ok) = some t)
    (ht : t.trap = none) (hr : s.signIns = []) : emptied t = relaunched t := by
  obtain ⟨-, -, rfl⟩ := step_iff.mp hs
  have hout : s.fire (.signOut ok) = { s with
      auth := if ok then none else s.auth
      user := s.user.populate {} } := signOut_eq ht
  unfold emptied relaunched App.withOrders
  rw [hout, ← hr]
  rfl

/-- `u'` is `u` up to stamps that the next checkout sets again. -/
def SameBaskets (u u' : App) : Prop :=
  ∃ o, u' = u.withOrders o ∧ ∀ b, (o b).bare = (u.order b).bare

theorem Alike.sameBaskets {s t : App} {o : Basket → Order} {ls : List Ev} (h : Alike s o)
    (hrun : app.Run s ls t) : ∃ t', app.Run (s.withOrders o) ls t' ∧ SameBaskets t t' := by
  obtain ⟨o', hrun', h'⟩ := h.run hrun
  exact ⟨_, hrun', o', rfl, fun b => (h' b).bare⟩

/-! ## What is left behind -/

/-- Some document was sent by another account than entered its items or its
note. -/
def Crossed (s : App) : Prop :=
  ∃ c w, .issued c ∈ s.log ∧ c.write? = some w ∧ ¬ SentByOwner w

/-- Another account signs up. -/
theorem sign_up_run {t : App} (ht : t.trap = none) (v : String) :
    ∃ ls u, app.Run t ls u ∧ u.trap = none ∧ u.user.uid = some v ∧ Frame t u := by
  let a : Account := ⟨v, some ""⟩
  let t₁ : App := { t with auth := some a }
  let t₂ : App := t₁.make none none
  have h₁ : t.step (.authSignIn a) = some t₁ := step_iff.mpr ⟨ht, rfl, rfl⟩
  have h₂ : t₁.step (.make none none) = some t₂ := step_iff.mpr ⟨ht, rfl, rfl⟩
  have hlast : t₂.signIns[t.signIns.length]? = some (.form a none none) := by
    show (t.signIns ++ [_])[t.signIns.length]? = _
    simp
  have hfire : t₂.fire (.signInReply t.signIns.length true) =
      (t₂.taken t.signIns.length).made a none none true := by
    simp only [fire, signInReply, hlast]
  have h₃ : t₂.step (.signInReply t.signIns.length true) =
      some ((t₂.taken t.signIns.length).made a none none true) := by
    refine step_iff.mpr ⟨ht, ?_, hfire.symm⟩
    exact decide_eq_true (List.getElem?_eq_some_iff.mp hlast).1
  refine ⟨_, _, .cons h₁ (.cons h₂ (.cons h₃ (.nil _))), ht, rfl, ?_⟩
  refine ((session_frame t (show (Ev.authSignIn a).isSession = true from rfl)).trans
    (session_frame t₁ (show (Ev.make none none).isSession = true from rfl))).trans ?_
  exact (signIns_frame t₂ _).trans (made_frame _ _ _ _ _)

/-- The account that came signs out again. -/
theorem sign_out_run {s t : App} {e : Ev} (hs : s.step e = some t) (ht : t.trap = none)
    (hrep : Replaces s e) : ∃ ls u, app.Run t ls u ∧ u.trap = none ∧ u.user.uid = none ∧ Frame t u := by
  cases hu : t.user.uid with
  | none => exact ⟨_, t, .nil t, ht, hu, Frame.refl t⟩
  | some v =>
    have hc := crsid_of_replaces hs ht hrep (by rw [hu]; rfl)
    have hout : t.signOut true = { t with auth := none, user := t.user.populate {} } :=
      if_pos ⟨by rw [hu]; rfl, hc⟩
    have hstep : t.step (.signOut true) = some (t.signOut true) :=
      step_iff.mpr ⟨ht, by simp [enabled, hu], rfl⟩
    refine ⟨_, _, .cons hstep (.nil _), by rw [hout]; exact ht, by rw [hout]; rfl, ?_⟩
    exact session_frame t (show (Ev.signOut true).isSession = true from rfl)

theorem exists_other (uid : Option String) : ∃ v : String, uid ≠ some v := by
  by_cases h : uid = some "a"
  · exact ⟨"b", by rw [h]; decide⟩
  · exact ⟨"a", h⟩

/-- The next checkout sends what the order of `b` holds. -/
theorem crossed_of_checkout {s : App} (ht : s.trap = none) (hu : s.user.uid.isSome = true)
    (he : ∀ b, Encodable (s.order b).items) {b : Basket} (hi : (s.order b).items ≠ [])
    (hx : (∃ x ∈ (s.order b).items, x.tag.uid ≠ s.user.uid) ∨
      ((s.order b).note ≠ none ∧ s.noteBy b ≠ s.user.uid)) :
    app.Run s [.checkout fun _ => 0] (s.checkout fun _ => 0) ∧ Crossed (s.checkout fun _ => 0) := by
  have hstep : s.step (.checkout fun _ => 0) = some (s.checkout fun _ => 0) :=
    step_iff.mpr ⟨ht, hu, rfl⟩
  obtain ⟨c, w, hsent, -, hlog⟩ := checkout_sent ((checkout_trap (fun _ => 0) he).trans ht) hi
  refine ⟨.cons hstep (.nil _), c, w, hlog, hsent.write, fun hown => ?_⟩
  rcases hx with ⟨x, hx, hne⟩ | ⟨hn, hne⟩
  · rw [← hsent.uid] at hne
    exact hne (hown.1 x (by rw [hsent.built]; exact hx))
  · rw [← hsent.note] at hn
    rw [← hsent.uid, ← hsent.noteBy] at hne
    exact hne (hown.2 hn)

/-- The next account finds an item in an order. -/
theorem crossed_of_item {t : App} (ht : t.trap = none)
    (he : ∀ b, Encodable (t.order b).items) {b : Basket} (hb : (t.order b).items ≠ []) :
    ∃ ls u, app.Run t ls u ∧ Crossed u := by
  obtain ⟨x, hx⟩ := List.exists_mem_of_ne_nil _ hb
  obtain ⟨v, hv⟩ := exists_other x.tag.uid
  obtain ⟨_, u, hrun, hut, huu, huf⟩ := sign_up_run ht v
  obtain ⟨hrun', hcr⟩ := crossed_of_checkout hut (by rw [huu]; rfl)
    (fun c => by rw [huf.order]; exact he c) (by rw [huf.order]; exact hb)
    (.inl ⟨x, by rw [huf.order]; exact hx, by rw [huu]; exact hv⟩)
  exact ⟨_, _, hrun.append hrun', hcr⟩

theorem addItem_step {s : App} (ht : s.trap = none) (hu : s.user.uid.isSome = true) (b : Basket)
    (x : OrderItem) : app.step s (.addItem b x) (s.addItem b x) := step_iff.mpr ⟨ht, hu, rfl⟩

/-- It finds a note in an empty order. -/
theorem crossed_of_note {t : App} (ht : t.trap = none)
    (he : ∀ b, (t.order b).items = []) {b : Basket} (hn : (t.order b).note ≠ none) :
    ∃ ls u, app.Run t ls u ∧ Crossed u := by
  obtain ⟨v, hv⟩ := exists_other (t.noteBy b)
  obtain ⟨_, u, hrun, hut, huu, huf⟩ := sign_up_run ht v
  have hsome : u.user.uid.isSome = true := by rw [huu]; rfl
  let x := plainItem "tea" "Cafe"
  have huid : (u.addItem b x).user.uid = u.user.uid := User.uid_setOrder _ _ _
  have hitems : ∀ c, ∀ y ∈ ((u.addItem b x).order c).items, y = u.stored x := by
    intro c y hy
    rw [order_addItem] at hy
    split at hy
    · simp only [Order.addItem, huf.order, he, List.nil_append, List.mem_singleton] at hy
      exact hy
    · rw [huf.order, he] at hy; cases hy
  obtain ⟨hrun', hcr⟩ := crossed_of_checkout (s := u.addItem b x) (b := b) hut
    (by rw [huid]; exact hsome)
    (fun c y hy => by rw [hitems c y hy]; exact Int.le_refl 1)
    (by rw [order_addItem, if_pos rfl]; simp [Order.addItem])
    (.inr ⟨by rw [order_addItem, if_pos rfl]; show (u.order b).note ≠ none; rw [huf.order]; exact hn, by
      show u.noteBy b ≠ _
      rw [huid, huf.noteBy, huu]; exact hv⟩)
  exact ⟨_, _, (hrun.append (.cons (addItem_step hut hsome b x) (.nil _))).append hrun', hcr⟩

/-- **Leftovers.** After any other such step another account can send what was
left in the orders, or loses an item it added to a late callback. -/
theorem crossed_of_leftovers {s t : App} {e : Ev} (hr : (app.when Sold).Reachable s)
    (hs : app.step s e t) (ht : t.trap = none) (hn : ¬ LeftClean s e) :
    ∃ ls u, app.Run t ls u ∧ (Crossed u ∨
      ∃ r, t.nextRef ≤ r ∧ Alive u r ∧ ¬ InBasket u r ∧ ¬ InDocument u r) := by
  have hrep : Replaces s e := by
    by_contra hno
    exact hn fun h => absurd h hno
  have hrt := hr.of_when.step hs
  have he := encodable_reachable hr
  have hf : Frame s t := by
    obtain ⟨-, -, rfl⟩ := step_iff.mp hs
    exact session_frame s hrep.isSession
  obtain ⟨out, v, hout, hvt, -, hvf⟩ := sign_out_run hs ht hrep
  have hfv := hf.trans hvf
  suffices hv : ∃ ls u, app.Run v ls u ∧ (Crossed u ∨
      ∃ r, v.nextRef ≤ r ∧ Alive u r ∧ ¬ InBasket u r ∧ ¬ InDocument u r) by
    obtain ⟨ls, u, hrun, hu⟩ := hv
    rw [hvf.nextRef] at hu
    exact ⟨out ++ ls, u, hout.append hrun, hu⟩
  have hrv := hrt.run hout
  by_cases hitems : ∃ b, (v.order b).items ≠ []
  · obtain ⟨b, hb⟩ := hitems
    obtain ⟨ls, u, hrun, hcr⟩ := crossed_of_item hvt (fun c => by rw [hfv.order]; exact he c) hb
    exact ⟨ls, u, hrun, .inl hcr⟩
  simp only [not_exists, not_not] at hitems
  by_cases hnote : ∃ b, (v.order b).note ≠ none
  · obtain ⟨b, hb⟩ := hnote
    obtain ⟨ls, u, hrun, hcr⟩ := crossed_of_note hvt hitems hb
    exact ⟨ls, u, hrun, .inl hcr⟩
  simp only [not_exists, not_not] at hnote
  have hpend : v.pending ≠ [] := by
    intro hp
    refine hn fun _ => ⟨hfv.pending.symm.trans hp, fun b => ?_⟩
    rw [← hfv.order]; exact ⟨hitems b, hnote b⟩
  obtain ⟨c, hc⟩ := List.exists_mem_of_ne_nil _ hpend
  obtain ⟨_, u, hrun, hut, huu, huf⟩ := sign_up_run hvt "a"
  have hadd := addItem_step hut (by rw [huu]; rfl) c.basket (plainItem "tea" "Cafe")
  have hlate : ¬ AddSettled u (.addItem c.basket (plainItem "tea" "Cafe")) := fun h =>
    h _ _ rfl c (by rw [huf.pending]; exact hc) rfl
  obtain ⟨ls, u', hrun', -, hlost⟩ := late_add_lost (hrv.run hrun) hadd hlate
  refine ⟨_, u', (hrun.append (.cons hadd (.nil _))).append hrun', .inr ⟨_, ?_, hlost⟩⟩
  rw [huf.nextRef]

/-! ## The result -/

/-- **Accounts.** In every run whose accounts go with nothing left behind,
every document holds only what its sender entered, and the next account finds
the app as with new orders, after a sign-out as after a new launch. After any
other such step something crosses. -/
theorem baskets_stay_with_account (s : App) :
    ((app.when LeftClean).Reachable s →
      ∀ c w, .issued c ∈ s.log → c.write? = some w →
        w.data.items = w.built.flatMap units ∧ SentByOwner w) ∧
    (∀ e t, (app.when LeftClean).Reachable s → (app.when LeftClean).step s e t → Replaces s e →
      t.trap = none →
      (∀ ls u, app.Run t ls u → ∃ u', app.Run (emptied t) ls u' ∧ SameBaskets u u') ∧
      (∀ ls u, app.Run (emptied t) ls u → ∃ u', app.Run t ls u' ∧ SameBaskets u u') ∧
      (∀ ok, e = .signOut ok → s.signIns = [] → emptied t = relaunched t)) ∧
    (∀ e t, (app.when Sold).Reachable s → app.step s e t → t.trap = none → ¬ LeftClean s e →
      ∃ ls u, app.Run t ls u ∧ (Crossed u ∨
        ∃ r, t.nextRef ≤ r ∧ Alive u r ∧ ¬ InBasket u r ∧ ¬ InDocument u r)) := by
  refine ⟨fun hs c w hc hw => ?_, fun e t hr hs hrep ht => ?_, fun e t hr hs ht hn =>
    crossed_of_leftovers hr hs ht hn⟩
  · exact ⟨(total_of_issued (summed_reachable hs.of_when) hc hw).1, (owned_reachable hs).issued c w hc hw⟩
  · obtain ⟨heq, hal⟩ := alike_emptied hr hs hrep ht
    refine ⟨?_, ?_, fun ok he hnone => ?_⟩
    · rw [heq]
      exact fun ls u hrun => hal.sameBaskets hrun
    · rw [heq]
      exact fun ls u hrun => hal.symm.sameBaskets hrun
    · subst he
      exact emptied_signOut hs.1 ht hnone

/-- **The next account sends the basket it finds.** -/
theorem basket_handed_over : ∃ s, app.Run {} (signUp ++ [.addItem .cafe (plainItem "tea" "Cafe"),
    .textFieldDidEndEditing (some "no milk"), .signOut true,
    .authSignIn ⟨"u2", some "cd34@cam.ac.uk"⟩, .make (some "Alan") (some "Kay"),
    .signInReply 0 true, .checkout fun _ => 0]) s ∧ Crossed s := by
  refine ⟨_, LTS.run_of_exec rfl, _, _, List.mem_of_getElem? (i := 1) rfl, rfl, fun h => ?_⟩
  have huid := h.1 _ (List.mem_of_getElem? (i := 0) rfl)
  revert huid
  decide

end App

end QadsCafe
