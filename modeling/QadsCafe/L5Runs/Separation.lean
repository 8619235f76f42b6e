import QadsCafe.Core.Purge
import QadsCafe.L4App.Replies
import QadsCafe.L5Runs.CarryOver

/-!
# Each outlet by itself

The two orders of a user share the account, the counter of document IDs, the
list of previous orders, the row numbers of the basket screen and the loop of
`checkout`. `outlet_alone`: still, what one outlet gets does not depend on the
other. Of every run that does not trap, leave out what is done with the other
outlet's items and requests (`purge (keep b)`); the rest is a run, after which
the order, the requests in flight and the documents of the outlet are the
same, but for the document IDs and the identities of objects.

`Mirror b ids s u` relates a state of the run with one of the purged run; `ids`
pairs, one to one, the IDs of the documents that were created for the outlet.
-/
namespace QadsCafe

open Core

/-- The order without its ID and the identities of its items. -/
def Order.plain (o : Order) : Order :=
  { o with orderID := none, items := o.items.map OrderItem.untag }

/-- The profile without what the orders write to it. -/
def Profile.bare (p : Profile) : Profile := { p with previousOrders := [] }

/-- The step as the outlet of `b` alone takes it: a row is counted from its own
items, a request among its own. -/
def keep (b : Basket) (s : App) : Ev → Option Ev
  | .addItem c x => if c = b then some (.addItem c x) else none
  | .removeItemAt index =>
    if (s.user.locate index).1 = b then some (.removeItemAt (s.user.locate index).2) else none
  | .reply i ok =>
    s.pending[i]?.bind fun c =>
      if c.basket = b then
        some (.reply ((s.pending.take i).filter fun k => k.basket = b).length ok)
      else none
  | e => some e

section
variable (ids : List (Nat × Nat))

structure OrderMirror (o o' : Order) : Prop where
  plain : o.plain = o'.plain
  orderID : Option.Rel (fun d d' => (d, d') ∈ ids) o.orderID o'.orderID

/-- Requests of one basket; creates and updates have the same content. A history
write lists the orders of both outlets, so its list is not compared. -/
inductive CallbackMirror (b : Basket) : Callback → Callback → Prop
  | create {w w' : Write} (hb : w.basket = b) (hb' : w'.basket = b) (doc : (w.doc, w'.doc) ∈ ids)
      (data : w.data = w'.data) : CallbackMirror b (.create w) (.create w')
  | update {w w' : Write} (hb : w.basket = b) (hb' : w'.basket = b) (doc : (w.doc, w'.doc) ∈ ids)
      (data : w.data = w'.data) : CallbackMirror b (.update w) (.update w')
  | history (call call' : Nat) (uid : String) (l l' : List Nat) :
      CallbackMirror b (.history call b uid l) (.history call' b uid l')

end

namespace App

/-- The state `u` of the outlet of `b` alone is `s` as far as it goes. -/
structure Mirror (b : Basket) (ids : List (Nat × Nat)) (s u : App) : Prop where
  trap : u.trap = none
  account : s.account = u.account
  signIns : s.signIns = u.signIns
  users : ∀ uid, (s.users uid).map Profile.bare = (u.users uid).map Profile.bare
  order : OrderMirror ids (s.order b) (u.order b)
  pending : List.Forall₂ (CallbackMirror ids b) (s.pendingOf b) u.pending
  /-- of the other outlet there is nothing -/
  alone : ∀ c, c ≠ b → (u.order c).items = []
  one : ∀ p ∈ ids, ∀ q ∈ ids, p.1 = q.1 ↔ p.2 = q.2
  fresh : ∀ p ∈ ids, p.1 < s.nextID ∧ p.2 < u.nextID
  docs : ∀ p ∈ ids, (s.orders p.1).map (·.data) = (u.orders p.2).map (·.data)
  own : ∀ d w, s.orders d = some w → (w.basket = b ↔ ∃ d', (d, d') ∈ ids)
  sent : ∀ c ∈ s.pending, ∀ w, c.write? = some w → (w.basket = b ↔ ∃ d', (w.doc, d') ∈ ids)
  all : ∀ d' w', u.orders d' = some w' → ∃ d, (d, d') ∈ ids

end App

/-! ## Orders -/

theorem lastLocation_untag (location : Option String) (l : List OrderItem) :
    lastLocation location (l.map OrderItem.untag) = lastLocation location l := by
  rw [lastLocation, lastLocation, List.getLast?_map, Option.map_map]
  rfl

namespace OrderMirror

variable {ids : List (Nat × Nat)} {o o' : Order}

theorem of_plain (h : o.plain = o'.plain) (hid : o.orderID = none) (hid' : o'.orderID = none) :
    OrderMirror ids o o' := ⟨h, by rw [hid, hid']; exact .none⟩

theorem mono {ids' : List (Nat × Nat)} (h : OrderMirror ids o o') (hsub : ids ⊆ ids') :
    OrderMirror ids' o o' := by
  refine ⟨h.plain, ?_⟩
  have hrel := h.orderID
  generalize o.orderID = d at hrel ⊢
  generalize o'.orderID = d' at hrel ⊢
  cases hrel with
  | some hd => exact .some (hsub hd)
  | none => exact .none

theorem items (h : OrderMirror ids o o') :
    o.items.map OrderItem.untag = o'.items.map OrderItem.untag := congrArg Order.items h.plain

theorem length (h : OrderMirror ids o o') : o.items.length = o'.items.length := by
  have := congrArg List.length h.items
  simpa using this

theorem nil_iff (h : OrderMirror ids o o') : o.items = [] ↔ o'.items = [] := by
  rw [← List.length_eq_zero_iff, ← List.length_eq_zero_iff, h.length]

theorem encodable (h : OrderMirror ids o o') : Encodable o.items ↔ Encodable o'.items := by
  rw [← encodable_untag, h.items, encodable_untag]

theorem new (h : OrderMirror ids o o') (hid : o.orderID = none) : o'.orderID = none := by
  have hrel := h.orderID
  rw [hid] at hrel
  generalize o'.orderID = d' at hrel
  cases hrel
  rfl

theorem named (h : OrderMirror ids o o') {d : Nat} (hid : o.orderID = some d) :
    ∃ d', o'.orderID = some d' ∧ (d, d') ∈ ids := by
  have hrel := h.orderID
  rw [hid] at hrel
  generalize o'.orderID = d' at hrel
  cases hrel with
  | some hd => exact ⟨_, rfl, hd⟩

theorem addItem (h : OrderMirror ids o o') {x x' : OrderItem} (hx : x.untag = x'.untag) :
    OrderMirror ids (o.addItem x) (o'.addItem x') := by
  have hplain : ∀ (o : Order) (x : OrderItem), (o.addItem x).plain =
      { o.plain with price := o.plain.price + x.untag.price, items := o.plain.items ++ [x.untag] } := by
    intro o x
    simp [Order.plain, Order.addItem, OrderItem.untag]
  exact ⟨by rw [hplain, hplain, h.plain, hx], h.orderID⟩

theorem removed (h : OrderMirror ids o o') (i : Nat) {x x' : OrderItem} (hx : x.untag = x'.untag) :
    OrderMirror ids { o with price := o.price - x.price, items := o.items.eraseIdx i }
      { o' with price := o'.price - x'.price, items := o'.items.eraseIdx i } := by
  have hplain : ∀ (o : Order) (x : OrderItem),
      ({ o with price := o.price - x.price, items := o.items.eraseIdx i } : Order).plain =
      { o.plain with
        price := o.plain.price - x.untag.price, items := o.plain.items.eraseIdx i } := by
    intro o x
    simp [Order.plain, OrderItem.untag, List.eraseIdx_map]
  exact ⟨by rw [hplain, hplain, h.plain, hx], h.orderID⟩

/-- The same edit of both, which reads no identity. -/
theorem edit (h : OrderMirror ids o o') (f : Order → Order)
    (hplain : ∀ o : Order, (f o).plain = f o.plain) (hid : ∀ o, (f o).orderID = o.orderID) :
    OrderMirror ids (f o) (f o') :=
  ⟨by rw [hplain, hplain, h.plain], by rw [hid, hid]; exact h.orderID⟩

/-- The location that the encoding of an order leaves in it. -/
theorem located (h : OrderMirror ids o o') :
    OrderMirror ids { o with location := lastLocation o.location o.items }
      { o' with location := lastLocation o'.location o'.items } := by
  refine h.edit (fun o => { o with location := lastLocation o.location o.items }) (fun o => ?_)
    fun _ => rfl
  simp only [Order.plain, lastLocation_untag]

theorem docOf (h : OrderMirror ids o o') (crsid : Option String) :
    docOf crsid o = docOf crsid o' := by
  have hplain : ∀ o : Order, QadsCafe.docOf crsid o.plain = QadsCafe.docOf crsid o := by
    intro o
    have hitems : (o.items.map OrderItem.untag).flatMap units = o.items.flatMap units :=
      List.flatMap_map _ _ _
    show OrderDoc.mk _ _ _ _ ((o.items.map OrderItem.untag).flatMap units)
      (lastLocation o.location (o.items.map OrderItem.untag)) _ _ _ _ _ = _
    rw [hitems, lastLocation_untag]
    rfl
  rw [← hplain, h.plain, hplain]

end OrderMirror

theorem CallbackMirror.mono {ids ids' : List (Nat × Nat)} {b : Basket} {c c' : Callback}
    (h : CallbackMirror ids b c c') (hsub : ids ⊆ ids') : CallbackMirror ids' b c c' := by
  cases h with
  | create hb hb' doc data => exact .create hb hb' (hsub doc) data
  | update hb hb' doc data => exact .update hb hb' (hsub doc) data
  | history call call' uid l l' => exact .history call call' uid l l'

theorem CallbackMirror.basket {ids : List (Nat × Nat)} {b : Basket} {c c' : Callback}
    (h : CallbackMirror ids b c c') : c.basket = b := by
  cases h with
  | create hb => exact hb
  | update hb => exact hb
  | history => rfl

theorem CallbackMirror.doc {ids : List (Nat × Nat)} {b : Basket} {c c' : Callback}
    (h : CallbackMirror ids b c c') {w : Write} (hw : c.write? = some w) :
    w.basket = b ∧ ∃ d', (w.doc, d') ∈ ids := by
  cases h with
  | create hb _ doc => cases hw; exact ⟨hb, _, doc⟩
  | update hb _ doc => cases hw; exact ⟨hb, _, doc⟩
  | history => cases hw

namespace App

namespace Mirror

variable {b : Basket} {ids : List (Nat × Nat)} {s u : App}

theorem uid (h : Mirror b ids s u) : s.user.uid = u.user.uid := congrArg (fun a => a.2.1) h.account

theorem start (h : Launch s) : Mirror b [] s s := by
  have hord := h.order
  refine ⟨h.trap, rfl, rfl, fun _ => rfl, .of_plain rfl ?_ ?_, ?_, fun c _ => ?_, ?_, ?_, ?_, ?_, ?_, ?_⟩
  · rw [hord]
  · rw [hord]
  · rw [pendingOf, h.pending]; exact .nil
  · rw [hord]
  · intro p hp; cases hp
  · intro p hp; cases hp
  · intro p hp; cases hp
  · intro d w hw; rw [h.orders] at hw; cases hw
  · intro c hc; rw [h.pending] at hc; cases hc
  · intro d w hw; rw [h.orders] at hw; cases hw

/-! ## Basket actions -/

theorem setOrder (h : Mirror b ids s u) {o o' : Order} (ho : OrderMirror ids o o') :
    Mirror b ids (s.setOrder b o) (u.setOrder b o') where
  __ := h
  account := by rw [account_setOrder, account_setOrder, h.account]
  order := by rw [order_setOrder, order_setOrder, if_pos rfl, if_pos rfl]; exact ho
  alone c hc := by rw [order_setOrder, if_neg hc]; exact h.alone c hc

/-- The order of the other outlet is not seen. -/
theorem setOther (h : Mirror b ids s u) {c : Basket} (hc : c ≠ b) (o : Order) :
    Mirror b ids (s.setOrder c o) u where
  __ := h
  account := by rw [account_setOrder, h.account]
  order := by rw [order_setOrder, if_neg (Ne.symm hc)]; exact h.order

theorem addItem (h : Mirror b ids s u) (x : OrderItem) :
    Mirror b ids (s.addItem b x) (u.addItem b x) := by
  have hitem : (s.stored x).untag = (u.stored x).untag := rfl
  exact { h.setOrder (h.order.addItem hitem) with }

theorem addOther (h : Mirror b ids s u) {c : Basket} (hc : c ≠ b) (x : OrderItem) :
    Mirror b ids (s.addItem c x) u :=
  { h.setOther hc ((s.order c).addItem (s.stored x)) with }

theorem removed (h : Mirror b ids s u) (i : Nat) {x x' : OrderItem} (hx : x.untag = x'.untag) :
    Mirror b ids (s.removed b i x) (u.removed b i x') :=
  { h.setOrder (h.order.removed i hx) with }

theorem removedOther (h : Mirror b ids s u) {c : Basket} (hc : c ≠ b) (i : Nat) (x : OrderItem) :
    Mirror b ids (s.removed c i x) u := { h.setOther hc _ with }

theorem note (h : Mirror b ids s u) (text : Option String) :
    Mirror b ids (s.textFieldDidEndEditing text) (u.textFieldDidEndEditing text) where
  __ := h
  account := h.account
  order := by
    have hord := h.order.edit (fun o => { o with note := text }) (fun _ => rfl) fun _ => rfl
    cases b with
    | cafe => exact hord
    | bar => exact hord
  alone c hc := by
    have hnil := h.alone c hc
    cases c with
    | cafe => exact hnil
    | bar => exact hnil

/-- The rows of the outlet start at the top of the purged screen. -/
theorem locate (h : Mirror b ids s u) {index : Nat} (hb : (s.user.locate index).1 = b) :
    u.user.locate (s.user.locate index).2 = (b, (s.user.locate index).2) := by
  subst hb
  have hlen := h.order.length
  have halone := h.alone
  unfold User.locate at *
  by_cases hi : index < s.user.cafeOrder.items.length
  · rw [if_pos hi] at hlen ⊢
    have hlt : index < u.user.cafeOrder.items.length := Nat.lt_of_lt_of_eq hi hlen
    exact if_pos hlt
  · rw [if_neg hi] at halone ⊢
    have hne : Basket.cafe ≠ .bar := by decide
    have hnil : u.user.cafeOrder.items = [] := halone .cafe hne
    dsimp only
    rw [hnil]
    rfl

theorem removeItemAt (h : Mirror b ids s u) {index : Nat} (hb : (s.user.locate index).1 = b)
    (ht : (s.removeItemAt index).trap = none) :
    Mirror b ids (s.removeItemAt index) (u.removeItemAt (s.user.locate index).2) := by
  have hget : ((s.order b).items[(s.user.locate index).2]?).map OrderItem.untag =
      ((u.order b).items[(s.user.locate index).2]?).map OrderItem.untag := by
    rw [← List.getElem?_map, ← List.getElem?_map, h.order.items]
  rw [removeItemAt_locate, hb] at ht ⊢
  rw [removeItemAt_locate, h.locate hb]
  dsimp only
  cases hx : (s.order b).items[(s.user.locate index).2]? with
  | none => rw [hx] at ht; cases ht
  | some x =>
    rw [hx] at hget
    obtain ⟨x', hx', hu⟩ := Option.map_eq_some_iff.mp hget.symm
    rw [hx']
    exact h.removed _ hu.symm

theorem removeOther (h : Mirror b ids s u) {index : Nat} (hb : (s.user.locate index).1 ≠ b)
    (ht : (s.removeItemAt index).trap = none) : Mirror b ids (s.removeItemAt index) u := by
  rw [removeItemAt_locate] at ht ⊢
  split at ht
  · cases ht
  · exact h.removedOther hb _ _

/-! ## Checkout -/

/-- The next document of both apps. -/
theorem grow (h : Mirror b ids s u) (hd : Docs s) :
    Mirror b (ids ++ [(s.nextID, u.nextID)]) { s with nextID := s.nextID + 1 }
      { u with nextID := u.nextID + 1 } := by
  have hsub : ids ⊆ ids ++ [(s.nextID, u.nextID)] := List.subset_append_left _ _
  have hnew : ∀ d < s.nextID,
      (∃ d', (d, d') ∈ ids ++ [(s.nextID, u.nextID)]) ↔ ∃ d', (d, d') ∈ ids := by
    intro d hlt
    constructor
    · rintro ⟨d', hd'⟩
      rcases List.mem_append.mp hd' with hd' | hd'
      · exact ⟨d', hd'⟩
      · cases List.mem_singleton.mp hd'
        exact absurd hlt (Nat.lt_irrefl _)
    · rintro ⟨d', hd'⟩
      exact ⟨d', hsub hd'⟩
  have hu : u.orders u.nextID = none := by
    cases ho : u.orders u.nextID with
    | none => rfl
    | some w =>
      obtain ⟨d, hd'⟩ := h.all _ w ho
      exact absurd (h.fresh _ hd').2 (Nat.lt_irrefl _)
  have hs : s.orders s.nextID = none := by
    cases ho : s.orders s.nextID with
    | none => rfl
    | some w => exact absurd (hd.stored _ w ho) (Nat.lt_irrefl _)
  refine ⟨h.trap, h.account, h.signIns, h.users, h.order.mono hsub, ?_, h.alone, ?_, ?_, ?_, ?_, ?_, ?_⟩
  · exact h.pending.imp fun _ _ hc => hc.mono hsub
  · intro p hp q hq
    rcases List.mem_append.mp hp with hp | hp <;> rcases List.mem_append.mp hq with hq | hq
    · exact h.one p hp q hq
    · rw [List.mem_singleton.mp hq]
      have hlt := h.fresh p hp
      exact ⟨fun he => absurd he (Nat.ne_of_lt hlt.1), fun he => absurd he (Nat.ne_of_lt hlt.2)⟩
    · rw [List.mem_singleton.mp hp]
      have hlt := h.fresh q hq
      exact ⟨fun he => absurd he (Nat.ne_of_gt hlt.1), fun he => absurd he (Nat.ne_of_gt hlt.2)⟩
    · rw [List.mem_singleton.mp hp, List.mem_singleton.mp hq]
      exact ⟨fun _ => rfl, fun _ => rfl⟩
  · intro p hp
    rcases List.mem_append.mp hp with hp | hp
    · exact ⟨Nat.lt_succ_of_lt (h.fresh p hp).1, Nat.lt_succ_of_lt (h.fresh p hp).2⟩
    · rw [List.mem_singleton.mp hp]
      exact ⟨Nat.lt_succ_self _, Nat.lt_succ_self _⟩
  · intro p hp
    rcases List.mem_append.mp hp with hp | hp
    · exact h.docs p hp
    · rw [List.mem_singleton.mp hp]
      show (s.orders s.nextID).map _ = (u.orders u.nextID).map _
      rw [hs, hu]
  · intro d w hw
    rw [hnew d (hd.stored d w hw)]
    exact h.own d w hw
  · intro c hc w hw
    rw [hnew _ (hd.write_lt hc hw)]
    exact h.sent c hc w hw
  · intro d' w hw
    obtain ⟨d, hd'⟩ := h.all d' w hw
    exact ⟨d, hsub hd'⟩

theorem issue (h : Mirror b ids s u) {c c' : Callback} (hc : CallbackMirror ids b c c') :
    Mirror b ids (s.issue c) (u.issue c') where
  __ := h
  account := h.account
  pending := by
    rw [pendingOf_issue_self s hc.basket]
    exact List.rel_append h.pending (.cons hc .nil)
  sent k hk w hw := by
    rcases (mem_issue s).mp hk with hk | rfl
    · exact h.sent k hk w hw
    · have hdoc := hc.doc hw
      exact ⟨fun _ => hdoc.2, fun _ => hdoc.1⟩

theorem issueOther (h : Mirror b ids s u) {c : Callback} (hc : c.basket ≠ b)
    (hdoc : ∀ w, c.write? = some w → w.basket ≠ b ∧ ¬ ∃ d', (w.doc, d') ∈ ids) :
    Mirror b ids (s.issue c) u where
  __ := h
  account := h.account
  pending := by
    rw [pendingOf_issue_other s hc]
    exact h.pending
  sent k hk w hw := by
    rcases (mem_issue s).mp hk with hk | rfl
    · exact h.sent k hk w hw
    · have hnot := hdoc w hw
      exact ⟨fun hb => absurd hb hnot.1, fun hd => absurd hd hnot.2⟩

theorem stamp (h : Mirror b ids s u) (date : Option Date → Option Date) :
    OrderMirror ids { s.stamp b with orderDate := date (s.order b).orderDate }
      { u.stamp b with orderDate := date (u.order b).orderDate } := by
  have hauth : s.auth = u.auth := congrArg (fun a => a.1) h.account
  have hfirst : s.user.firstName = u.user.firstName := congrArg (fun a => a.2.2.2.1) h.account
  have hlast : s.user.lastName = u.user.lastName := congrArg (fun a => a.2.2.2.2) h.account
  have hord := h.order.edit (fun o => { o with
    email := s.auth.bind (·.email)
    name := some (s.user.firstName.getD "" ++ " " ++ s.user.lastName.getD "")
    orderDate := date o.orderDate }) (fun _ => rfl) fun _ => rfl
  unfold App.stamp
  rw [← hauth, ← hfirst, ← hlast]
  exact hord

theorem docOf (h : Mirror b ids s u) (date : Option Date → Option Date) :
    docOf s.user.crsid { s.stamp b with orderDate := date (s.order b).orderDate } =
      docOf u.user.crsid { u.stamp b with orderDate := date (u.order b).orderDate } := by
  have hcrsid : s.user.crsid = u.user.crsid := congrArg (fun a => a.2.2.1) h.account
  rw [hcrsid]
  exact (h.stamp date).docOf _

theorem saved (h : Mirror b ids s u) (hd : Docs s) (call call' : Nat) (now : Date) :
    Mirror b (ids ++ [(s.nextID, u.nextID)]) (s.saved call now b) (u.saved call' now b) := by
  have hgrow := h.grow hd
  have hord : OrderMirror (ids ++ [(s.nextID, u.nextID)]) (s.savedOrder now b) (u.savedOrder now b) :=
    ((h.stamp fun _ => some now).mono (List.subset_append_left _ _)).located
  refine (hgrow.setOrder hord).issue (.create rfl rfl ?_ (h.docOf fun _ => some now))
  exact List.mem_append_right _ (List.mem_singleton.mpr rfl)

theorem updated (h : Mirror b ids s u) (call call' : Nat) {doc doc' : Nat}
    (hdoc : (doc, doc') ∈ ids) : Mirror b ids (s.updated call b doc) (u.updated call' b doc') :=
  (h.setOrder (h.stamp id).located).issue (.update rfl rfl hdoc (h.docOf id))

/-- **One turn of `checkout`.** The outlet's is taken by both apps; there is
nothing to send for the other in the purged one. -/
theorem turn {t : App} {call : Nat} {now : Basket → Date} {c : Basket} (h : Mirror b ids s u)
    (hd : Docs s) (hs : Submit s call now c t) (ht : t.trap = none) (call' : Nat) :
    ∃ ids', Mirror b ids' t (App.submit call' now c u) := by
  by_cases hc : c = b
  · subst hc
    have hord := h.order
    cases hs with
    | skip hi =>
      rw [submit_skip call' now fun _ => hord.nil_iff.mp (hi ht)]
      exact ⟨ids, h⟩
    | trap => cases ht
    | create _ hi he hid =>
      rw [submit_saved call' now h.trap (fun hnil => hi (hord.nil_iff.mpr hnil)) (hord.encodable.mp he)
        (hord.new hid)]
      exact ⟨_, h.saved hd call call' _⟩
    | update _ hi he doc hid =>
      obtain ⟨doc', hid', hdoc⟩ := hord.named hid
      rw [submit_updated call' now h.trap (fun hnil => hi (hord.nil_iff.mpr hnil))
        (hord.encodable.mp he) hid']
      exact ⟨ids, h.updated call call' hdoc⟩
  · rw [submit_skip call' now fun _ => h.alone c hc]
    refine ⟨ids, ?_⟩
    cases hs with
    | skip => exact h
    | trap => cases ht
    | create =>
      have hgrow : Mirror b ids { s with nextID := s.nextID + 1 } u :=
        { h with fresh := fun p hp => ⟨Nat.lt_succ_of_lt (h.fresh p hp).1, (h.fresh p hp).2⟩ }
      refine (hgrow.setOther hc (s.savedOrder (now c) c)).issueOther hc fun w hw => ?_
      cases hw
      refine ⟨hc, ?_⟩
      rintro ⟨d', hd'⟩
      exact absurd (h.fresh _ hd').1 (Nat.lt_irrefl _)
    | update _ _ _ doc hid =>
      refine (h.setOther hc (s.updatedOrder c)).issueOther hc fun w hw => ?_
      cases hw
      obtain ⟨v, hv, hvc⟩ := hd.order c doc hid
      refine ⟨hc, fun hmem => ?_⟩
      exact hc (hvc.symm.trans ((h.own doc v hv).mpr hmem))

theorem checkout {now : Basket → Date} (h : Mirror b ids s u) (hd : Docs s)
    (ht : (s.checkout now).trap = none) :
    ∃ ids', Mirror b ids' (s.checkout now) (u.checkout now) := by
  have hcafe := cafe_turn s now
  have hbar := bar_turn s now
  have h0 : Mirror b ids { s with calls := s.calls + 1 } { u with calls := u.calls + 1 } := { h with }
  have hd0 : Docs { s with calls := s.calls + 1 } := hd.congr rfl rfl rfl fun _ => rfl
  obtain ⟨ids₁, h1⟩ := h0.turn hd0 hcafe (hbar.turn.trap ht) u.calls
  exact h1.turn (hd0.submit hcafe) hbar ht u.calls

/-! ## Callbacks -/

theorem store (h : Mirror b ids s u) {w w' : Write} (hb : w.basket = b)
    (hdoc : (w.doc, w'.doc) ∈ ids) (hdata : w.data = w'.data) :
    Mirror b ids (s.store w) (u.store w') where
  __ := h
  account := h.account
  docs p hp := by
    have hone := h.one p hp _ hdoc
    by_cases hd : p.1 = w.doc
    · rw [(orders_store s).mpr (.inl ⟨hd, rfl⟩), (orders_store u).mpr (.inl ⟨hone.mp hd, rfl⟩)]
      exact congrArg some hdata
    · rw [orders_store_of_ne s hd, orders_store_of_ne u fun he => hd (hone.mpr he)]
      exact h.docs p hp
  own d v hv := by
    rcases (orders_store s).mp hv with ⟨rfl, rfl⟩ | ⟨-, hv⟩
    · exact ⟨fun _ => ⟨_, hdoc⟩, fun _ => hb⟩
    · exact h.own d v hv
  all d' v hv := by
    rcases (orders_store u).mp hv with ⟨rfl, -⟩ | ⟨-, hv⟩
    · exact ⟨_, hdoc⟩
    · exact h.all d' v hv

/-- A write for the other outlet goes to none of the documents. -/
theorem storeOther (h : Mirror b ids s u) {c : Callback} (hc : c ∈ s.pending) {w : Write}
    (hw : c.write? = some w) (hb : w.basket ≠ b) : Mirror b ids (s.store w) u where
  __ := h
  account := h.account
  docs p hp := by
    have hne : p.1 ≠ w.doc := by
      intro he
      exact hb ((h.sent c hc w hw).mpr ⟨p.2, he ▸ hp⟩)
    rw [orders_store_of_ne s hne]
    exact h.docs p hp
  own d v hv := by
    rcases (orders_store s).mp hv with ⟨rfl, rfl⟩ | ⟨-, hv⟩
    · exact h.sent c hc v hw
    · exact h.own d v hv

theorem bare_storeHistory (s : App) (uid : String) (l : List Nat) (v : String) :
    ((s.storeHistory uid l).users v).map Profile.bare = (s.users v).map Profile.bare := by
  show (Function.update s.users uid _ v).map _ = _
  rw [Function.update_apply]
  split
  · rename_i hv
    subst hv
    rw [Option.map_map]
    rfl
  · rfl

theorem settle (h : Mirror b ids s u) {c c' : Callback} (hc : CallbackMirror ids b c c') (ok : Bool) :
    Mirror b ids (s.settle c ok) (u.settle c' ok) := by
  cases ok with
  | false => cases hc <;> exact h
  | true =>
    cases hc with
    | @create w w' hb hb' doc data =>
      simp only [App.settle, App.created, hb, hb']
      exact (h.store hb doc data).setOrder ⟨h.order.plain, .some doc⟩
    | update hb _ doc data => exact h.store hb doc data
    | history call call' uid l l' =>
      refine { h with users := fun v => ?_ }
      simp only [App.settle, bare_storeHistory]
      exact h.users v

theorem settleOther (h : Mirror b ids s u) {c : Callback} (hc : c ∈ s.pending) (hb : c.basket ≠ b)
    (ok : Bool) : Mirror b ids (s.settle c ok) u := by
  cases ok with
  | false => cases c <;> exact h
  | true =>
    cases c with
    | create w => exact (h.storeOther hc rfl hb).setOther hb _
    | update w => exact h.storeOther hc rfl hb
    | history call c uid l =>
      refine { h with users := fun v => ?_ }
      simp only [App.settle, bare_storeHistory]
      exact h.users v

theorem append (h : Mirror b ids s u) (doc doc' : Nat) :
    Mirror b ids (s.append doc) (u.append doc') where
  __ := h
  account := h.account
  order := by rw [order_append, order_append]; exact h.order
  alone c hc := by rw [order_append]; exact h.alone c hc

theorem appendOther (h : Mirror b ids s u) (doc : Nat) : Mirror b ids (s.append doc) u where
  __ := h
  account := h.account
  order := by rw [order_append]; exact h.order

theorem addToPreviousOrders (h : Mirror b ids s u) (call call' : Nat)
    (ht : (s.addToPreviousOrders call b).trap = none) :
    Mirror b ids (s.addToPreviousOrders call b) (u.addToPreviousOrders call' b) := by
  cases hid : (s.order b).orderID with
  | none =>
    simp only [App.addToPreviousOrders, hid, h.order.new hid]
    exact h
  | some doc =>
    obtain ⟨doc', hid', -⟩ := h.order.named hid
    cases hu : s.user.uid with
    | none =>
      rw [addToPreviousOrders_trap hid hu] at ht
      cases ht
    | some uid =>
      rw [addToPreviousOrders_issue hid hu, addToPreviousOrders_issue hid' (h.uid.symm.trans hu)]
      exact (h.append doc doc').issue (.history _ _ uid _ _)

theorem resetAndComplete (h : Mirror b ids s u) (call call' : Nat) :
    Mirror b ids (s.resetAndComplete call b) (u.resetAndComplete call' b) := by
  have hreset : OrderMirror ids (s.order b).resetOrder (u.order b).resetOrder := .of_plain rfl rfl rfl
  exact { h.setOrder hreset with }

theorem follow (h : Mirror b ids s u) {c c' : Callback} (hc : CallbackMirror ids b c c')
    (ht : (s.follow c).trap = none) : Mirror b ids (s.follow c) (u.follow c') := by
  cases hc with
  | create hb hb' =>
    simp only [App.follow, hb, hb'] at ht ⊢
    exact h.addToPreviousOrders _ _ ht
  | update hb hb' =>
    simp only [App.follow, hb, hb']
    exact h.resetAndComplete _ _
  | history call call' => exact h.resetAndComplete call call'

theorem followOther (h : Mirror b ids s u) {c : Callback} (hb : c.basket ≠ b)
    (ht : (s.follow c).trap = none) : Mirror b ids (s.follow c) u := by
  cases c with
  | create w =>
    revert ht
    refine follow_create s w fun t ha ht => ?_
    cases ha with
    | skip => exact h
    | trap => cases ht
    | issue doc uid =>
      refine (h.appendOther doc).issueOther hb fun w hw => ?_
      cases hw
  | update w => exact { h.setOther hb (s.order w.basket).resetOrder with }
  | history call c uid l => exact { h.setOther hb (s.order c).resetOrder with }

/-- The request that answers in the purged app. -/
theorem split (h : Mirror b ids s u) {c : Callback} {l₁ l₂ : List Callback}
    (hp : s.pending = l₁ ++ c :: l₂) (hb : c.basket = b) :
    ∃ m₁ c' m₂, u.pending = m₁ ++ c' :: m₂ ∧
      m₁.length = (l₁.filter fun k => k.basket = b).length ∧ CallbackMirror ids b c c' ∧
      List.Forall₂ (CallbackMirror ids b) ((l₁ ++ l₂).filter fun k => k.basket = b) (m₁ ++ m₂) := by
  have hpend := h.pending
  rw [pendingOf, hp, List.filter_append, List.filter_cons_of_pos (by simp [hb])] at hpend
  rw [List.filter_append]
  exact forall₂_split hpend

theorem reply (h : Mirror b ids s u) {c : Callback} {l₁ l₂ : List Callback}
    (hp : s.pending = l₁ ++ c :: l₂) (hb : c.basket = b) {ok : Bool}
    (ht : (s.reply l₁.length ok).trap = none) :
    Mirror b ids (s.reply l₁.length ok) (u.reply (l₁.filter fun k => k.basket = b).length ok) := by
  obtain ⟨m₁, c', m₂, hu, hlen, hc, hrest⟩ := h.split hp hb
  rw [← hlen, reply_eq hu ok]
  rw [reply_eq hp ok] at ht ⊢
  have hset := h.settle hc ok
  have hans : Mirror b ids ((s.settle c ok).answered c ok (l₁ ++ l₂))
      ((u.settle c' ok).answered c' ok (m₁ ++ m₂)) :=
    { hset with
      pending := hrest
      sent := fun k hk => h.sent k (rest_subset hp hk) }
  exact hans.follow hc ht

theorem replyOther (h : Mirror b ids s u) {c : Callback} {l₁ l₂ : List Callback}
    (hp : s.pending = l₁ ++ c :: l₂) (hb : c.basket ≠ b) {ok : Bool}
    (ht : (s.reply l₁.length ok).trap = none) : Mirror b ids (s.reply l₁.length ok) u := by
  rw [reply_eq hp ok] at ht ⊢
  have hset := h.settleOther (mem_of_split hp) hb ok
  have hrest : (l₁ ++ l₂).filter (fun k => k.basket = b) = s.pendingOf b :=
    (pendingOf_rest hp b).1 (Ne.symm hb)
  have hans : Mirror b ids ((s.settle c ok).answered c ok (l₁ ++ l₂)) u :=
    { hset with
      pending := by
        show List.Forall₂ _ ((l₁ ++ l₂).filter _) _
        rw [hrest]
        exact h.pending
      sent := fun k hk => h.sent k (rest_subset hp hk) }
  exact hans.followOther hb ht

/-! ## Signing in and out -/

theorem frame (h : Mirror b ids s u) {t v : App} (f : Frame s t) (f' : Frame u v)
    (ht : v.trap = none) (ha : t.account = v.account) (hr : t.signIns = v.signIns)
    (hu : ∀ uid, (t.users uid).map Profile.bare = (v.users uid).map Profile.bare) :
    Mirror b ids t v := by
  refine ⟨ht, ha, hr, hu, ?_, ?_, fun c hc => ?_, h.one, ?_, ?_, ?_, ?_, ?_⟩
  · rw [f.order, f'.order]; exact h.order
  · rw [pendingOf, f.pending, f'.pending]; exact h.pending
  · rw [f'.order]; exact h.alone c hc
  · rw [f.nextID, f'.nextID]; exact h.fresh
  · rw [f.orders, f'.orders]; exact h.docs
  · rw [f.orders]; exact h.own
  · rw [f.pending]; exact h.sent
  · rw [f'.orders]; exact h.all

end Mirror

/-- What the sign-in events read and write is the same in both. -/
structure SameAccount (s u : App) : Prop where
  trap : u.trap = none
  account : s.account = u.account
  signIns : s.signIns = u.signIns
  users : ∀ uid, (s.users uid).map Profile.bare = (u.users uid).map Profile.bare

theorem signIn_eq {s : App} (ht : s.signIn.trap = none) :
    (s.user.uid.isSome ∧ s.user.crsid.isSome) ∧ s.signIn = s := by
  unfold signIn at ht ⊢
  split
  · rename_i h; exact ⟨h, rfl⟩
  · rename_i h; rw [if_neg h] at ht; cases ht

namespace SameAccount

variable {s u : App}

theorem subscribed (h : SameAccount s u) (hs : s.user.uid.isSome ∧ s.user.crsid.isSome) :
    u.user.uid.isSome ∧ u.user.crsid.isSome := by
  have huid : s.user.uid = u.user.uid := congrArg (fun a => a.2.1) h.account
  have hcrsid : s.user.crsid = u.user.crsid := congrArg (fun a => a.2.2.1) h.account
  rw [← huid, ← hcrsid]
  exact hs

theorem signIn (h : SameAccount s u) (ht : s.signIn.trap = none) : SameAccount s.signIn u.signIn := by
  obtain ⟨hs, heq⟩ := signIn_eq ht
  rw [heq, show u.signIn = u from if_pos (h.subscribed hs)]
  exact h

theorem signOut (h : SameAccount s u) {ok : Bool} (ht : (s.signOut ok).trap = none) :
    SameAccount (s.signOut ok) (u.signOut ok) := by
  have hauth : s.auth = u.auth := congrArg (fun a => a.1) h.account
  unfold App.signOut at ht ⊢
  split
  · rename_i hs
    rw [if_pos (h.subscribed hs), hauth]
    exact ⟨h.trap, rfl, h.signIns, h.users⟩
  · rename_i hs
    rw [if_neg hs] at ht
    cases ht

theorem populate (h : SameAccount s u) {p p' : Profile} (hp : p.bare = p'.bare) :
    SameAccount { s with user := s.user.populate p } { u with user := u.user.populate p' } := by
  have hauth : s.auth = u.auth := congrArg (fun a => a.1) h.account
  refine ⟨h.trap, ?_, h.signIns, h.users⟩
  show (s.auth, p.bare.uid, p.bare.crsid, p.bare.firstName, p.bare.lastName) = _
  rw [hauth, hp]
  rfl

theorem populateAsCurrentUser (h : SameAccount s u) :
    SameAccount s.populateAsCurrentUser u.populateAsCurrentUser := by
  have hauth : s.auth = u.auth := congrArg (fun a => a.1) h.account
  cases ha : s.auth with
  | none =>
    rw [populateAsCurrentUser_none ha, populateAsCurrentUser_none (hauth.symm.trans ha)]
    exact h
  | some a =>
    rw [populateAsCurrentUser_some ha, populateAsCurrentUser_some (hauth.symm.trans ha)]
    exact ⟨h.trap, h.account, congrArg (· ++ [.read a.uid]) h.signIns, h.users⟩

theorem make (h : SameAccount s u) (firstName lastName : Option String) :
    SameAccount (s.make firstName lastName) (u.make firstName lastName) := by
  have hauth : s.auth = u.auth := congrArg (fun a => a.1) h.account
  cases ha : s.auth with
  | none =>
    rw [make_none ha, make_none (hauth.symm.trans ha)]
    exact h
  | some a =>
    rw [make_some ha, make_some (hauth.symm.trans ha)]
    refine ⟨h.trap, ?_, congrArg (· ++ [.form a firstName lastName]) h.signIns, h.users⟩
    exact congrArg (fun x => (x.1, x.2.1, x.2.2.1, firstName, lastName)) h.account

theorem taken (h : SameAccount s u) (i : Nat) : SameAccount (s.taken i) (u.taken i) :=
  ⟨h.trap, h.account, congrArg (List.eraseIdx · i) h.signIns, h.users⟩

/-- A profile read finds the same but for the list. -/
theorem load (h : SameAccount s u) (uid : String) (ok : Bool) :
    SameAccount (s.load uid ok) (u.load uid ok) := by
  have hread := h.users uid
  unfold App.load
  cases hp : s.users uid with
  | none =>
    rw [hp] at hread
    rw [Option.map_eq_none_iff.mp hread.symm]
    exact h
  | some p =>
    rw [hp] at hread
    obtain ⟨p', hp', hbare⟩ := Option.map_eq_some_iff.mp hread.symm
    rw [hp']
    cases ok with
    | false => exact h
    | true => exact h.populate hbare.symm

theorem populated (h : SameAccount s u) {uid : String} {ok : Bool}
    (ht : (s.populated uid ok).trap = none) :
    SameAccount (s.populated uid ok) (u.populated uid ok) := by
  have hload := h.load uid ok
  have huid : (s.load uid ok).user.uid = (u.load uid ok).user.uid :=
    congrArg (fun a => a.2.1) hload.account
  unfold App.populated at ht ⊢
  rw [← huid]
  split
  · exact hload
  · rename_i hn
    rw [if_neg hn] at ht
    exact hload.signIn ht

theorem made (h : SameAccount s u) {a : Account} {firstName lastName : Option String} {ok : Bool}
    (ht : (s.made a firstName lastName ok).trap = none) :
    SameAccount (s.made a firstName lastName ok) (u.made a firstName lastName ok) := by
  refine signIn ⟨h.trap, ?_, h.signIns, fun uid => ?_⟩ ht
  · exact congrArg (fun x => (x.1, some a.uid, a.email.map crsidOf, x.2.2.2)) h.account
  · cases ok with
    | false => exact h.users uid
    | true =>
      show (Function.update s.users a.uid _ uid).map _ = (Function.update u.users a.uid _ uid).map _
      rw [Function.update_apply, Function.update_apply]
      split
      · rfl
      · exact h.users uid

theorem signInReply (h : SameAccount s u) {i : Nat} {ok : Bool}
    (ht : (s.signInReply i ok).trap = none) :
    SameAccount (s.signInReply i ok) (u.signInReply i ok) := by
  unfold App.signInReply at ht ⊢
  rw [← h.signIns]
  split
  · exact h
  · rename_i uid hr
    rw [hr] at ht
    exact (h.taken i).populated ht
  · rename_i a firstName lastName hr
    rw [hr] at ht
    exact (h.taken i).made ht

theorem fire (h : SameAccount s u) {e : Ev} (he : e.isSession = true) (ht : (s.fire e).trap = none) :
    SameAccount (s.fire e) (u.fire e) := by
  cases e with
  | signOut ok => exact h.signOut ht
  | authSignIn a =>
    refine ⟨h.trap, ?_, h.signIns, h.users⟩
    exact congrArg (fun x => (some a, x.2)) h.account
  | populateAsCurrentUser => exact h.populateAsCurrentUser
  | make firstName lastName => exact h.make firstName lastName
  | signInReply i ok => exact h.signInReply ht
  | _ => cases he

end SameAccount

theorem Mirror.session {b : Basket} {ids : List (Nat × Nat)} {s u : App} (h : Mirror b ids s u)
    {e : Ev} (he : e.isSession = true) (ht : (s.fire e).trap = none) :
    Mirror b ids (s.fire e) (u.fire e) := by
  have hsame : SameAccount s u := ⟨h.trap, h.account, h.signIns, h.users⟩
  have hfire := hsame.fire he ht
  exact h.frame (session_frame s he) (session_frame u he) hfire.trap hfire.account hfire.signIns
    hfire.users

/-! ## Runs -/

/-- While the app has not trapped, `u` is its part of the outlet. -/
def Part (b : Basket) (s u : App) : Prop :=
  app.Reachable s ∧ (s.trap = none → ∃ ids, Mirror b ids s u)

variable {b : Basket} {ids : List (Nat × Nat)} {s t u : App} {e : Ev}

theorem keep_reply {c : Callback} {l₁ l₂ : List Callback} (hp : s.pending = l₁ ++ c :: l₂) (ok : Bool) :
    keep b s (.reply l₁.length ok) =
      if c.basket = b then some (.reply (l₁.filter fun k => k.basket = b).length ok) else none := by
  simp [keep, hp]

/-- A step for the outlet is one of the purged app. -/
theorem Mirror.enabled (h : Mirror b ids s u) {k : Ev} (hs : s.step e = some t)
    (hk : keep b s e = some k) : u.enabled k = true := by
  have hen := (step_iff.mp hs).2.1
  have hauth : s.auth = u.auth := congrArg (fun a => a.1) h.account
  have huid := h.uid
  cases e with
  | addItem c x =>
    obtain ⟨-, ⟨⟩⟩ := Option.ite_none_right_eq_some.mp hk
    simpa [App.enabled, huid] using hen
  | removeItemAt index =>
    obtain ⟨-, ⟨⟩⟩ := Option.ite_none_right_eq_some.mp hk
    simpa [App.enabled, huid] using hen
  | reply i ok =>
    obtain ⟨c, l₁, l₂, hp, rfl⟩ := reply_split hen
    rw [keep_reply hp] at hk
    obtain ⟨hb, ⟨⟩⟩ := Option.ite_none_right_eq_some.mp hk
    obtain ⟨m₁, c', m₂, hu, hlen, -⟩ := h.split hp hb
    simp [App.enabled, ← hlen, hu]
  | authSignIn => cases hk; rfl
  | signInReply => cases hk; simpa [App.enabled, h.signIns] using hen
  | _ =>
    cases hk
    simpa [App.enabled, huid, hauth] using hen

theorem Mirror.fire (h : Mirror b ids s u) (hd : Docs s) {k : Ev} (hs : s.step e = some t)
    (hk : keep b s e = some k) (ht : t.trap = none) : ∃ ids', Mirror b ids' t (u.fire k) := by
  obtain ⟨-, hen, rfl⟩ := step_iff.mp hs
  cases e with
  | addItem c x =>
    obtain ⟨rfl, ⟨⟩⟩ := Option.ite_none_right_eq_some.mp hk
    exact ⟨ids, h.addItem x⟩
  | removeItemAt index =>
    obtain ⟨hb, ⟨⟩⟩ := Option.ite_none_right_eq_some.mp hk
    exact ⟨ids, h.removeItemAt hb ht⟩
  | textFieldDidEndEditing text => cases hk; exact ⟨ids, h.note text⟩
  | checkout now => cases hk; exact h.checkout hd ht
  | reply i ok =>
    obtain ⟨c, l₁, l₂, hp, rfl⟩ := reply_split hen
    rw [keep_reply hp] at hk
    obtain ⟨hb, ⟨⟩⟩ := Option.ite_none_right_eq_some.mp hk
    exact ⟨ids, h.reply hp hb ht⟩
  | _ => cases hk; exact ⟨ids, h.session rfl ht⟩

/-- A step for the other outlet is not seen. -/
theorem Mirror.dropped (h : Mirror b ids s u) (hs : s.step e = some t) (hk : keep b s e = none)
    (ht : t.trap = none) : Mirror b ids t u := by
  obtain ⟨-, hen, rfl⟩ := step_iff.mp hs
  cases e with
  | addItem c x => exact h.addOther (by simpa [keep] using hk) x
  | removeItemAt index => exact h.removeOther (by simpa [keep] using hk) ht
  | reply i ok =>
    obtain ⟨c, l₁, l₂, hp, rfl⟩ := reply_split hen
    rw [keep_reply hp] at hk
    exact h.replyOther hp (by simpa using hk) ht
  | _ => cases hk

theorem part_unwinds (b : Basket) : Unwinds App.step app (keep b) (fun _ => True) (Part b) where
  kept s u t e k _ hR hs hk := by
    obtain ⟨ids, h⟩ := hR.2 (step_iff.mp hs).1
    refine ⟨u.fire k, step_iff.mpr ⟨h.trap, h.enabled hs hk, rfl⟩, hR.1.step hs, fun ht => ?_⟩
    exact h.fire (docs_reachable hR.1) hs hk ht
  dropped s u t e _ hR hs hk := by
    refine ⟨hR.1.step hs, fun ht => ?_⟩
    obtain ⟨ids, h⟩ := hR.2 (step_iff.mp hs).1
    exact ⟨ids, h.dropped hs hk ht⟩

/-- **Each outlet by itself.** What is done with the other outlet's items and
requests can be left out of a run: the outlet gets the same. -/
theorem outlet_alone {ls : List Ev} (hl : Launch s) (hr : app.Run s ls t) (ht : t.trap = none)
    (b : Basket) : ∃ ids u, app.Run s (purge App.step (keep b) s ls) u ∧ Mirror b ids t u := by
  have hpart : Part b s s := ⟨.init hl, fun _ => ⟨[], .start hl⟩⟩
  obtain ⟨u, hu, hR⟩ := (part_unwinds b).run hr (fun _ _ => trivial) hpart
  obtain ⟨ids, hids⟩ := hR.2 ht
  exact ⟨ids, u, hu, hids⟩

/-- The ale, without the tea that was ordered with it. -/
theorem ale_alone : ∃ ids t u, app.Run {} (teaAndAle ++ [.checkout fun _ => 0, .reply 0 true,
      .reply 0 true]) t ∧
    app.Run {} (signUp ++ [.addItem .bar (plainItem "ale" "Bar"), .checkout fun _ => 0,
      .reply 0 true]) u ∧ Mirror .bar ids t u := by
  have hr : app.Run {} (teaAndAle ++ [.checkout fun _ => 0, .reply 0 true, .reply 0 true]) _ :=
    LTS.run_of_exec rfl
  obtain ⟨ids, u, hu, hm⟩ := outlet_alone launch_default hr rfl .bar
  exact ⟨ids, _, u, hr, hu, hm⟩

end App

end QadsCafe
