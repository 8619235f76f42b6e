import QadsCafe.L4App.Refs

/-!
# No item is lost while no item is added under a pending write

The closure of a checkout resets the live order, whatever it holds when the
callback arrives, and `updateOrder` calls it on failure too. An item added to
an order between a request and its last callback is therefore dropped without
ever having been sent (`late_item_lost`, and `late_add_lost` for every state).

`AddSettled` leaves exactly those additions out. Without them every write of
an order that is still pending carries all of the order's items, so a reset
only drops items that a stored document holds. `Kept` is that invariant; it
also says that a pending update of a document carries every item the document
is still needed for, so no later write overwrites an item away.
-/
namespace QadsCafe

open Core

namespace App

/-- An item is added to an order only while no callback of that order is
pending. -/
def AddSettled (s : App) (e : Ev) : Prop :=
  ∀ b x, e = .addItem b x → ∀ c ∈ s.pending, c.basket ≠ b

/-- Some stored document of order `b` was built from the item. -/
def StoredFor (s : App) (b : Basket) (r : Nat) : Prop :=
  ∃ d w, s.orders d = some w ∧ w.basket = b ∧ r ∈ w.refs

/-- A stored document was built from the item, and every pending update of
that document carries it. -/
def Safe (s : App) (r : Nat) : Prop :=
  ∃ d w, s.orders d = some w ∧ r ∈ w.refs ∧
    ∀ u, .update u ∈ s.pending → u.doc = d → r ∈ u.refs

structure Kept (s : App) : Prop where
  /-- a pending write carries what is in its order -/
  sent : ∀ c ∈ s.pending, ∀ w, c.write? = some w → s.refs w.basket ⊆ w.refs
  /-- and, of the items still wanted, nothing else -/
  sentOnly : ∀ c ∈ s.pending, ∀ w, c.write? = some w → s.refs w.basket ≠ [] →
    ∀ r ∈ w.refs, Alive s r → r ∈ s.refs w.basket
  /-- so does the document an order's ID names -/
  named : ∀ b d w, (s.order b).orderID = some d → s.orders d = some w → s.refs b ⊆ w.refs
  namedOnly : ∀ b d w, (s.order b).orderID = some d → s.orders d = some w → s.refs b ≠ [] →
    ∀ r ∈ w.refs, Alive s r → r ∈ s.refs b
  /-- before a reset the items of the order are stored -/
  covered : ∀ c ∈ s.pending, c.isCreate = false → ∀ r ∈ s.refs c.basket, StoredFor s c.basket r
  safe : ∀ r, Alive s r → InBasket s r ∨ Safe s r

theorem Safe.congr {s t : App} {r : Nat} (h : Safe s r) (ho : t.orders = s.orders)
    (hp : t.pending ⊆ s.pending) : Safe t r := by
  obtain ⟨d, w, hd, hr, hu⟩ := h
  exact ⟨d, w, by rw [ho]; exact hd, hr, fun u hm => hu u (hp hm)⟩

theorem Kept.congr {s t : App} (h : Kept s) (hr : ∀ b, t.refs b = s.refs b)
    (hi : ∀ b, (t.order b).orderID = (s.order b).orderID) (ho : t.orders = s.orders)
    (hp : t.pending ⊆ s.pending) (hl : ∀ r, Alive t r → Alive s r) : Kept t := by
  refine ⟨?_, ?_, ?_, ?_, ?_, ?_⟩
  · intro c hc w hw; rw [hr]; exact h.sent c (hp hc) w hw
  · intro c hc w hw hne r hm ha
    rw [hr] at hne ⊢
    exact h.sentOnly c (hp hc) w hw hne r hm (hl r ha)
  · intro b d w hd hs; rw [hr]; rw [hi] at hd; rw [ho] at hs; exact h.named b d w hd hs
  · intro b d w hd hs hne r hm ha
    rw [hr] at hne ⊢; rw [hi] at hd; rw [ho] at hs
    exact h.namedOnly b d w hd hs hne r hm (hl r ha)
  · intro c hc hn r hm
    rw [hr] at hm
    unfold StoredFor; rw [ho]
    exact h.covered c (hp hc) hn r hm
  · intro r ha
    rcases h.safe r (hl r ha) with ⟨b, hb⟩ | hs
    · exact .inl ⟨b, by rw [hr]; exact hb⟩
    · exact .inr (hs.congr ho hp)

/-! ## User actions -/

theorem alive_addItem {s : App} {b : Basket} {x : OrderItem} {r : Nat}
    (h : Alive (s.addItem b x) r) : Alive s r ∨ r = s.nextRef := by
  simp only [Alive, log_addItem, List.mem_append, List.mem_singleton,
    Obs.added.injEq, reduceCtorEq, or_false] at h
  rcases h.1 with h1 | h1
  · exact .inl ⟨h1, h.2⟩
  · exact .inr h1

theorem alive_removed {s : App} {b : Basket} {i : Nat} {x : OrderItem} {r : Nat}
    (h : Alive (s.removed b i x) r) : Alive s r ∧ r ≠ x.tag.ref := by
  simp only [Alive, log_removed, List.mem_append, List.mem_singleton,
    Obs.removed.injEq, reduceCtorEq, or_false, not_or] at h
  exact ⟨⟨h.1, h.2.1⟩, h.2.2⟩

theorem Kept.addItem {s : App} (h : Kept s) (hrefs : Refs s) (hw : Waits s) (ht : s.trap = none)
    {b : Basket} (hb : ∀ c ∈ s.pending, c.basket ≠ b) (x : OrderItem) : Kept (s.addItem b x) := by
  have hsame : ∀ c, c ≠ b → (s.addItem b x).refs c = s.refs c := fun c hc => by
    rw [refs_addItem, if_neg hc]
  have hmono : ∀ c, s.refs c ⊆ (s.addItem b x).refs c := fun c => by
    rw [refs_addItem]; split
    · exact List.subset_append_left _ _
    · exact List.Subset.refl _
  have hwrite : ∀ c ∈ s.pending, ∀ w, c.write? = some w → w.basket ≠ b := by
    intro c hc w hcw
    have := hb c hc
    cases c <;> cases hcw <;> exact this
  -- with nothing pending for it, the order has no ID
  have hnew : ∀ c d, (s.order c).orderID = some d → c ≠ b := by
    intro c d hd he
    obtain ⟨k, hk, hkb, -⟩ := hw ht c d hd
    exact hb k hk (hkb.trans he)
  refine ⟨?_, ?_, ?_, ?_, ?_, ?_⟩
  · intro c hc w hcw
    rw [hsame _ (hwrite c hc w hcw)]
    exact h.sent c hc w hcw
  · intro c hc w hcw hne r hm ha
    rw [hsame _ (hwrite c hc w hcw)] at hne ⊢
    rcases alive_addItem ha with ha | rfl
    · exact h.sentOnly c hc w hcw hne r hm ha
    · exact absurd (hrefs.pending c hc w hcw _ hm) (Nat.lt_irrefl _)
  · intro c d w hd hs
    rw [orderID_addItem] at hd
    rw [hsame c (hnew c d hd)]
    exact h.named c d w hd hs
  · intro c d w hd hs hne r hm ha
    rw [orderID_addItem] at hd
    rw [hsame c (hnew c d hd)] at hne ⊢
    rcases alive_addItem ha with ha | rfl
    · exact h.namedOnly c d w hd hs hne r hm ha
    · exact absurd (hrefs.stored d w hs _ hm) (Nat.lt_irrefl _)
  · intro c hc hn r hm
    rw [hsame _ (hb c hc)] at hm
    exact h.covered c hc hn r hm
  · intro r ha
    rcases alive_addItem ha with ha | rfl
    · rcases h.safe r ha with ⟨c, hc⟩ | hs
      · exact .inl ⟨c, hmono c hc⟩
      · exact .inr (hs.congr rfl (List.Subset.refl _))
    · exact .inl ⟨b, by rw [refs_addItem, if_pos rfl]; simp⟩

theorem mem_eraseIdx_of_ne {l : List Nat} {i r a : Nat} (hi : l[i]? = some a) (hr : r ∈ l)
    (hne : r ≠ a) : r ∈ l.eraseIdx i := by
  rw [List.mem_eraseIdx_iff_getElem?]
  obtain ⟨j, hj⟩ := List.mem_iff_getElem?.mp hr
  refine ⟨j, ?_, hj⟩
  rintro rfl
  rw [hi] at hj
  exact hne (Option.some.inj hj).symm

theorem Kept.removed {s : App} (h : Kept s) {b : Basket} {i : Nat} {x : OrderItem}
    (hx : (s.order b).items[i]? = some x) : Kept (s.removed b i x) := by
  have hsub : ∀ c, (s.removed b i x).refs c ⊆ s.refs c := fun c => by
    rw [refs_removed]; split
    · exact List.eraseIdx_subset
    · exact List.Subset.refl _
  have hkeep : ∀ c r, r ≠ x.tag.ref → r ∈ s.refs c → r ∈ (s.removed b i x).refs c := by
    intro c r hne hr
    rw [refs_removed]; split
    · rename_i hc; subst hc
      refine mem_eraseIdx_of_ne (a := x.tag.ref) ?_ hr hne
      simp [refs, itemRefs, hx]
    · exact hr
  have hne' : ∀ c, (s.removed b i x).refs c ≠ [] → s.refs c ≠ [] := by
    intro c hc he
    have := hsub c
    rw [he] at this
    exact hc (List.subset_nil.mp this)
  refine ⟨?_, ?_, ?_, ?_, ?_, ?_⟩
  · intro c hc w hw; exact List.Subset.trans (hsub _) (h.sent c hc w hw)
  · intro c hc w hw hne r hm ha
    obtain ⟨ha, hr⟩ := alive_removed ha
    exact hkeep _ r hr (h.sentOnly c hc w hw (hne' _ hne) r hm ha)
  · intro c d w hd hs
    rw [orderID_removed] at hd
    exact List.Subset.trans (hsub c) (h.named c d w hd hs)
  · intro c d w hd hs hne r hm ha
    rw [orderID_removed] at hd
    obtain ⟨ha, hr⟩ := alive_removed ha
    exact hkeep c r hr (h.namedOnly c d w hd hs (hne' c hne) r hm ha)
  · intro c hc hn r hm; exact h.covered c hc hn r (hsub _ hm)
  · intro r ha
    obtain ⟨ha, hr⟩ := alive_removed ha
    rcases h.safe r ha with ⟨c, hc⟩ | hs
    · exact .inl ⟨c, hkeep c r hr hc⟩
    · exact .inr (hs.congr rfl (List.Subset.refl _))

/-! ## Requests and their outcomes -/

theorem Kept.issue {s : App} (h : Kept s) {c : Callback}
    (hw : ∀ w, c.write? = some w → w.refs = s.refs w.basket)
    (hcov : c.isCreate = false → ∀ r ∈ s.refs c.basket, StoredFor s c.basket r)
    (hover : ∀ u, c = .update u → ∀ w, s.orders u.doc = some w → ∀ r ∈ w.refs, Alive s r → r ∈ u.refs) :
    Kept (s.issue c) := by
  have halive : ∀ r, Alive (s.issue c) r → Alive s r := fun r ha => by
    simpa [Alive] using ha
  refine ⟨?_, ?_, h.named, ?_, ?_, ?_⟩
  · intro k hk w hkw
    rcases (mem_issue s).mp hk with hk | rfl
    · exact h.sent k hk w hkw
    · rw [hw w hkw]; exact List.Subset.refl _
  · intro k hk w hkw hne r hr ha
    rcases (mem_issue s).mp hk with hk | rfl
    · exact h.sentOnly k hk w hkw hne r hr (halive r ha)
    · rw [hw w hkw] at hr; exact hr
  · intro b d w hd hs hne r hr ha
    exact h.namedOnly b d w hd hs hne r hr (halive r ha)
  · intro k hk hn r hr
    rcases (mem_issue s).mp hk with hk | rfl
    · exact h.covered k hk hn r hr
    · exact hcov hn r hr
  · intro r ha
    rcases h.safe r (halive r ha) with hb | ⟨d, w, hd, hr, hu⟩
    · exact .inl hb
    · refine .inr ⟨d, w, hd, hr, fun u hm hud => ?_⟩
      rcases (mem_issue s).mp hm with hm | he
      · exact hu u hm hud
      · subst hud; exact hover u he.symm w hd r hr (halive r ha)

/-- The document an order's ID names holds the items of the order. -/
theorem Kept.storedFor {s : App} (h : Kept s) (hd : Docs s) {b : Basket} {d : Nat}
    (hid : (s.order b).orderID = some d) {r : Nat} (hr : r ∈ s.refs b) : StoredFor s b r := by
  obtain ⟨w, hw, hb⟩ := hd.order b d hid
  exact ⟨d, w, hw, hb, h.named b d w hid hw hr⟩

theorem Kept.submit {s t : App} {call : Nat} {now : Basket → Date} {b : Basket} (h : Kept s)
    (hd : Docs s) (hs : Submit s call now b t) : Kept t := by
  cases hs with
  | skip => exact h
  | trap => exact h.congr (fun _ => rfl) (fun _ => rfl) rfl (List.Subset.refl _) fun _ ha => ha
  | create =>
    have h' : Kept ({ s with nextID := s.nextID + 1 }.setOrder b (s.savedOrder (now b) b)) :=
      h.congr (refs_saved s call (now b) b) (orderID_saved s call (now b) b) rfl (List.Subset.refl _) fun _ ha => ha
    refine h'.issue (fun w hw => ?_) (fun hn => ?_) (fun u hu => ?_)
    · cases hw
      exact (refs_saved s call (now b) b b).symm
    · cases hn
    · cases hu
  | update _ hi _ doc hdoc =>
    have hrefs := fun c => refs_updated s call b c doc
    have h' : Kept (s.setOrder b (s.updatedOrder b)) :=
      h.congr hrefs (fun c => orderID_updated s call b doc c) rfl (List.Subset.refl _) fun _ ha => ha
    refine h'.issue (fun w hw => ?_) (fun _ r hr => ?_) (fun u hu w hw r hr ha => ?_)
    · cases hw
      exact (hrefs b).symm
    · have hr' : r ∈ s.refs b := by rw [← hrefs b]; exact hr
      exact h.storedFor hd hdoc hr'
    · cases hu
      have hne : s.refs b ≠ [] := by simpa [refs, itemRefs] using hi
      exact h.namedOnly b doc w hdoc hw hne r hr ha

/-- An update of a document is applied. -/
theorem Kept.store {s : App} (h : Kept s) (hd : Docs s) {u : Write} (hu : .update u ∈ s.pending) :
    Kept (s.store u) := by
  obtain ⟨v, hv, hvb⟩ := hd.update u hu
  have hself : (s.store u).orders u.doc = some u := (orders_store s).mpr (.inl ⟨rfl, rfl⟩)
  have hother : ∀ d w, d ≠ u.doc → s.orders d = some w → (s.store u).orders d = some w :=
    fun d w hne hw => (orders_store s).mpr (.inr ⟨hne, hw⟩)
  -- an order whose ID names the document is the order the update came from
  have hsame : ∀ b, (s.order b).orderID = some u.doc → u.basket = b := by
    intro b hb
    obtain ⟨v', hv', hb'⟩ := hd.order b _ hb
    rw [hv] at hv'; cases hv'
    rw [← hvb, hb']
  refine ⟨h.sent, h.sentOnly, ?_, ?_, ?_, ?_⟩
  · intro b d w hid hw
    rcases (orders_store s).mp hw with ⟨rfl, rfl⟩ | ⟨-, hw⟩
    · rw [← hsame b hid]; exact h.sent _ hu w rfl
    · exact h.named b d w hid hw
  · intro b d w hid hw hne r hr ha
    rcases (orders_store s).mp hw with ⟨rfl, rfl⟩ | ⟨-, hw⟩
    · have hb := hsame b hid; subst hb
      exact h.sentOnly _ hu w rfl hne r hr ha
    · exact h.namedOnly b d w hid hw hne r hr ha
  · intro c hc hn r hr
    obtain ⟨d, w, hw, hwb, hrw⟩ := h.covered c hc hn r hr
    by_cases he : d = u.doc
    · subst he
      rw [hv] at hw; cases hw
      have hb : u.basket = c.basket := hvb.symm.trans hwb
      refine ⟨u.doc, u, hself, hb, h.sent _ hu u rfl ?_⟩
      rw [hb]; exact hr
    · exact ⟨d, w, hother d w he hw, hwb, hrw⟩
  · intro r ha
    rcases h.safe r ha with hb | ⟨d, w, hw, hr, hall⟩
    · exact .inl hb
    · by_cases he : d = u.doc
      · subst he; exact .inr ⟨u.doc, u, hself, hall u hu rfl, hall⟩
      · exact .inr ⟨d, w, hother d w he hw, hr, hall⟩

/-- A create is applied, and its document named by the order's ID. -/
theorem Kept.created {s : App} (h : Kept s) (hd : Docs s) {w : Write}
    (hw : .create w ∈ s.pending) : Kept (s.created w) := by
  have hnone := (hd.create w hw).1
  have hgrow : ∀ d v, s.orders d = some v → (s.created w).orders d = some v := by
    intro d v hv
    have hne : d ≠ w.doc := by intro he; rw [he, hnone] at hv; cases hv
    exact (orders_store s).mpr (.inr ⟨hne, hv⟩)
  have hnew : (s.created w).orders w.doc = some w := (orders_store s).mpr (.inl ⟨rfl, rfl⟩)
  have hnamed : ∀ b d v, ((s.created w).order b).orderID = some d → (s.created w).orders d = some v →
      (b = w.basket ∧ v = w) ∨ ((s.order b).orderID = some d ∧ s.orders d = some v) := by
    intro b d v hid hv
    simp only [App.created, order_setOrder] at hid
    split at hid
    · rename_i hb
      cases hid; rw [hnew] at hv; cases hv
      exact .inl ⟨hb, rfl⟩
    · have hid' : (s.order b).orderID = some d := hid
      obtain ⟨v', hv', -⟩ := hd.order b d hid'
      rw [hgrow d v' hv'] at hv; cases hv
      exact .inr ⟨hid', hv'⟩
  refine ⟨?_, ?_, ?_, ?_, ?_, ?_⟩
  · intro c hc v hv; rw [refs_created]; exact h.sent c hc v hv
  · intro c hc v hv; rw [refs_created]; exact h.sentOnly c hc v hv
  · intro b d v hid hv
    rw [refs_created]
    rcases hnamed b d v hid hv with ⟨rfl, rfl⟩ | ⟨hid, hv⟩
    · exact h.sent _ hw v rfl
    · exact h.named b d v hid hv
  · intro b d v hid hv
    rw [refs_created]
    rcases hnamed b d v hid hv with ⟨rfl, rfl⟩ | ⟨hid, hv⟩
    · exact h.sentOnly _ hw v rfl
    · exact h.namedOnly b d v hid hv
  · intro c hc hn r hr
    rw [refs_created] at hr
    obtain ⟨d, v, hv, hvb, hrv⟩ := h.covered c hc hn r hr
    exact ⟨d, v, hgrow d v hv, hvb, hrv⟩
  · intro r ha
    rcases h.safe r ha with ⟨b, hb⟩ | ⟨d, v, hv, hr, hall⟩
    · exact .inl ⟨b, by rw [refs_created]; exact hb⟩
    · exact .inr ⟨d, v, hgrow d v hv, hr, hall⟩

theorem Kept.settle {s : App} (h : Kept s) (hd : Docs s) {c : Callback} (hc : c ∈ s.pending)
    (ok : Bool) : Kept (s.settle c ok) := by
  cases ok with
  | false => cases c <;> exact h
  | true =>
    cases c with
    | create w => exact h.created hd hc
    | update w => exact h.store hd hc
    | history call b uid ids =>
      exact h.congr (fun _ => rfl) (fun _ => rfl) rfl (List.Subset.refl _) fun _ ha => ha

theorem Kept.appends {s t : App} {call : Nat} {b : Basket} (h : Kept s) (hd : Docs s)
    (ha : Appends s call b t) : Kept t := by
  have happend : ∀ doc, Kept (s.append doc) := fun doc =>
    h.congr (refs_append s doc) (fun c => by rw [order_append]) rfl (List.Subset.refl _)
      fun r hr => by simpa [Alive] using hr
  cases ha with
  | skip => exact h
  | trap doc =>
    exact (happend doc).congr (fun _ => rfl) (fun _ => rfl) rfl (List.Subset.refl _) fun _ hr => hr
  | issue doc uid hid =>
    refine (happend doc).issue (fun w hw => ?_) (fun _ r hr => ?_) (fun u hu => ?_)
    · cases hw
    · have hr' : r ∈ s.refs b := by rw [← refs_append s doc b]; exact hr
      exact h.storedFor hd hid hr'
    · cases hu

/-- A reset drops items that a stored document holds, and no pending update
takes them out of it again. -/
theorem Kept.resetAndComplete {s : App} (h : Kept s) (hd : Docs s) {call : Nat} {b : Basket}
    (hb : ∀ r ∈ s.refs b, StoredFor s b r) : Kept (s.resetAndComplete call b) := by
  have hempty : (s.resetAndComplete call b).refs b = [] := by rw [refs_resetAndComplete, if_pos rfl]
  have hother : ∀ c, c ≠ b → (s.resetAndComplete call b).refs c = s.refs c := fun c hc => by
    rw [refs_resetAndComplete, if_neg hc]
  have halive : ∀ r, Alive (s.resetAndComplete call b) r → Alive s r := fun r ha => by
    simpa [Alive] using ha
  have hid : ∀ c d, ((s.resetAndComplete call b).order c).orderID = some d →
      c ≠ b ∧ (s.order c).orderID = some d := by
    intro c d hcd
    rw [order_resetAndComplete] at hcd
    split at hcd
    · cases hcd
    · rename_i hc; exact ⟨hc, hcd⟩
  refine ⟨?_, ?_, ?_, ?_, ?_, ?_⟩
  · intro c hc w hw
    by_cases he : w.basket = b
    · rw [he, hempty]; exact List.nil_subset _
    · rw [hother _ he]; exact h.sent c hc w hw
  · intro c hc w hw hne r hr ha
    by_cases he : w.basket = b
    · rw [he] at hne; exact absurd hempty hne
    · rw [hother _ he] at hne ⊢; exact h.sentOnly c hc w hw hne r hr (halive r ha)
  · intro c d w hcd hw
    obtain ⟨hc, hcd⟩ := hid c d hcd
    rw [hother c hc]; exact h.named c d w hcd hw
  · intro c d w hcd hw hne r hr ha
    obtain ⟨hc, hcd⟩ := hid c d hcd
    rw [hother c hc] at hne ⊢; exact h.namedOnly c d w hcd hw hne r hr (halive r ha)
  · intro c hc hn r hr
    by_cases he : c.basket = b
    · rw [he, hempty] at hr; cases hr
    · rw [hother _ he] at hr; exact h.covered c hc hn r hr
  · intro r ha
    rcases h.safe r (halive r ha) with ⟨c, hc⟩ | hs
    · by_cases he : c = b
      · subst he
        obtain ⟨d, w, hw, hwb, hr⟩ := hb r hc
        refine .inr ⟨d, w, hw, hr, fun u hu hud => ?_⟩
        obtain ⟨v, hv, hvb⟩ := hd.update u hu
        rw [hud, hw] at hv; cases hv
        refine h.sent _ hu u rfl ?_
        rw [← hvb, hwb]; exact hc
      · exact .inl ⟨c, by rw [hother c he]; exact hc⟩
    · exact .inr hs

theorem Kept.reply {s : App} (h : Kept s) (hd : Docs s) {c : Callback} {l₁ l₂ : List Callback}
    (hp : s.pending = l₁ ++ c :: l₂) (ok : Bool) :
    Kept (((s.settle c ok).answered c ok (l₁ ++ l₂)).follow c) := by
  have hc := mem_of_split hp
  have hset : Kept (s.settle c ok) := h.settle hd hc ok
  have hsub : l₁ ++ l₂ ⊆ (s.settle c ok).pending := by
    rw [pending_settle]; exact rest_subset hp
  have hans : Kept ((s.settle c ok).answered c ok (l₁ ++ l₂)) :=
    hset.congr (fun _ => rfl) (fun _ => rfl) rfl hsub
      fun r hr => by simpa [Alive] using hr
  have hdans : Docs ((s.settle c ok).answered c ok (l₁ ++ l₂)) := by
    rw [← settle_answered]; exact hd.settle hp ok
  have hcov : c.isCreate = false → ∀ r ∈ (s.settle c ok).refs c.basket,
      StoredFor (s.settle c ok) c.basket r :=
    hset.covered c (by rw [pending_settle]; exact hc)
  cases c with
  | create w => exact hans.appends hdans (appends_cases _ _ _)
  | update w => exact hans.resetAndComplete hdans (hcov rfl)
  | history call b uid ids => exact hans.resetAndComplete hdans (hcov rfl)

/-! ## Runs -/

theorem Kept.step {s t : App} {e : Ev} (h : Kept s) (hr : app.Reachable s) (ha : AddSettled s e)
    (hs : s.step e = some t) : Kept t := by
  have hd := docs_reachable hr
  obtain ⟨ht, -, hf⟩ := step_cases hs
  cases hf with
  | addItem b x => exact h.addItem (refs_reachable hr) (waits_reachable hr) ht (ha b x rfl) x
  | badIndex => exact h.congr (fun _ => rfl) (fun _ => rfl) rfl (List.Subset.refl _) fun _ ha => ha
  | removeItemAt index b i x hx => exact h.removed hx
  | textFieldDidEndEditing text =>
    exact h.congr (refs_textFieldDidEndEditing s text) (orderID_textFieldDidEndEditing s text) rfl
      (List.Subset.refl _) fun _ ha => ha
  | checkout now =>
    have h0 : Kept { s with calls := s.calls + 1 } :=
      h.congr (fun _ => rfl) (fun _ => rfl) rfl (List.Subset.refl _) fun _ ha => ha
    have hd0 : Docs { s with calls := s.calls + 1 } := hd.congr rfl rfl rfl fun _ => rfl
    have hcafe := cafe_turn s now
    exact (h0.submit hd0 hcafe).submit (hd0.submit hcafe) (bar_turn s now)
  | reply i ok c l₁ l₂ hp => exact h.reply hd hp ok
  | session _ _ f =>
    refine h.congr (fun b => ?_) (fun b => by rw [f.order]) f.orders ?_ fun r hr => ?_
    · unfold refs; rw [f.order]
    · rw [f.pending]; exact List.Subset.refl _
    · unfold Alive at hr ⊢; rwa [f.log] at hr

theorem Kept.launch {s : App} (h : Launch s) : Kept s := by
  have hid : ∀ b, (s.order b).orderID = none := fun b => by rw [h.order]
  refine ⟨?_, ?_, ?_, ?_, ?_, ?_⟩
  · intro c hc; rw [h.pending] at hc; cases hc
  · intro c hc; rw [h.pending] at hc; cases hc
  · intro b d w hd; rw [hid] at hd; cases hd
  · intro b d w hd; rw [hid] at hd; cases hd
  · intro c hc; rw [h.pending] at hc; cases hc
  · intro r ha; have := ha.1; rw [h.log] at this; cases this

theorem kept_reachable {s : App} (h : (app.when AddSettled).Reachable s) : Kept s :=
  h.invariant (fun _ => Kept.launch) fun _ _ _ hr hi hs => hi.step hr.of_when hs.2 hs.1

/-! ## A late addition can be lost -/

/-- The item is wanted, in basket `b` at most, and in no document. -/
structure OnlyIn (s : App) (b : Basket) (r : Nat) : Prop where
  alive : Alive s r
  other : ∀ c, c ≠ b → r ∉ s.refs c
  unstored : ¬ InDocument s r

/-- The reset of the order drops the item. -/
theorem OnlyIn.lost {s : App} {c : Callback} {r : Nat} (h : OnlyIn s c.basket r)
    (ht : s.trap = none) (hc : c.isCreate = false) {l₁ l₂ : List Callback}
    (hp : s.pending = l₁ ++ c :: l₂) :
    ∃ u, app.step s (.reply l₁.length false) u ∧ Alive u r ∧ ¬ InBasket u r ∧ ¬ InDocument u r := by
  have hreset : ∃ call, (((s.settle c false).answered c false (l₁ ++ l₂)).follow c) =
      (s.answered c false (l₁ ++ l₂)).resetAndComplete call c.basket := by
    cases c with
    | create w => cases hc
    | update w => exact ⟨w.call, rfl⟩
    | history call b uid ids => exact ⟨call, rfl⟩
  obtain ⟨call, hreset⟩ := hreset
  refine ⟨_, reply_step ht hp false, ?_⟩
  rw [hreset]
  refine ⟨?_, ?_, h.unstored⟩
  · simpa [Alive] using h.alive
  · rintro ⟨b, hb⟩
    rw [refs_resetAndComplete] at hb
    split at hb
    · cases hb
    · rename_i hne; exact h.other b hne hb

/-- After a successful create the reset is still to come. -/
theorem OnlyIn.created {s : App} {w : Write} {r : Nat} (h : OnlyIn s w.basket r)
    (ht : s.trap = none) {uid : String} (hu : s.user.uid = some uid) (hw : r ∉ w.refs)
    {l₁ l₂ : List Callback} (hp : s.pending = l₁ ++ .create w :: l₂) :
    ∃ u c, app.step s (.reply l₁.length true) u ∧ u.trap = none ∧ u.pending = l₁ ++ l₂ ++ [c] ∧
      c.basket = w.basket ∧ c.isCreate = false ∧ OnlyIn u w.basket r := by
  refine ⟨_, .history w.call w.basket uid (s.user.previousOrders ++ [w.doc]), create_step ht hu hp,
    ht, rfl, rfl, rfl, ?_, ?_, ?_⟩
  · simpa [Alive] using h.alive
  · intro c hc
    show r ∉ (((s.created w).answered _ _ _).append w.doc).refs c
    rw [refs_append]
    show r ∉ (s.created w).refs c
    rw [refs_created]
    exact h.other c hc
  · rintro ⟨d, v, hv, hr⟩
    rcases (orders_store s).mp hv with ⟨-, rfl⟩ | ⟨-, hv⟩
    · exact hw hr
    · exact h.unstored ⟨d, v, hv, hr⟩

/-- Any addition that `AddSettled` leaves out is lost if the callbacks arrive
before the next checkout. -/
theorem late_add_lost {s t : App} {b : Basket} {x : OrderItem} (hr : app.Reachable s)
    (hs : app.step s (.addItem b x) t) (hn : ¬ AddSettled s (.addItem b x)) :
    ∃ ls u, app.Run t ls u ∧ (∀ e ∈ ls, e.isReply = true) ∧
      Alive u s.nextRef ∧ ¬ InBasket u s.nextRef ∧ ¬ InDocument u s.nextRef := by
  obtain ⟨ht, he, rfl⟩ := step_iff.mp hs
  have hrefs := refs_reachable hr
  have hpend : ∃ c ∈ s.pending, c.basket = b := by
    by_contra hno
    apply hn
    intro b' x' heq c hc hcb
    cases heq
    exact hno ⟨c, hc, hcb⟩
  obtain ⟨c, hc, rfl⟩ := hpend
  obtain ⟨uid, hu⟩ := Option.isSome_iff_exists.mp (show s.user.uid.isSome = true from he)
  have honly : OnlyIn (s.addItem c.basket x) c.basket s.nextRef := by
    refine ⟨⟨?_, ?_⟩, ?_, ?_⟩
    · simp
    · intro hm
      have := hrefs.logged s.nextRef
        (.inr (by simpa using hm))
      omega
    · intro k hk hm
      rw [refs_addItem, if_neg hk] at hm
      have := hrefs.basket k _ hm
      omega
    · rintro ⟨d, w, hd, hm⟩
      have := hrefs.stored d w hd _ hm
      omega
  obtain ⟨l₁, l₂, hp⟩ := List.append_of_mem hc
  have hp' : (s.addItem c.basket x).pending = l₁ ++ c :: l₂ := hp
  by_cases hcreate : c.isCreate = true
  · cases c with
    | create w =>
      have hw : s.nextRef ∉ w.refs := fun hm => by
        have := hrefs.pending _ hc w rfl _ hm
        omega
      have hu' : (s.addItem w.basket x).user.uid = some uid := by
        show (s.user.setOrder w.basket _).uid = some uid
        rw [User.uid_setOrder, hu]
      obtain ⟨u, k, hstep, htu, hpu, hkb, hk, honly'⟩ := honly.created ht hu' hw hp'
      rw [← hkb] at honly'
      obtain ⟨v, hstep', hlost⟩ := honly'.lost htu hk (show u.pending = l₁ ++ l₂ ++ k :: [] from hpu)
      refine ⟨_, v, .cons hstep (.cons hstep' (.nil v)), ?_, hlost⟩
      intro e he
      simp only [List.mem_cons, List.not_mem_nil, or_false] at he
      rcases he with rfl | rfl <;> rfl
    | _ => cases hcreate
  · simp only [Bool.not_eq_true] at hcreate
    obtain ⟨u, hstep, hlost⟩ := honly.lost ht hcreate hp'
    refine ⟨_, u, .cons hstep (.nil u), ?_, hlost⟩
    intro e he
    simp only [List.mem_cons, List.not_mem_nil, or_false] at he
    subst he; rfl

/-! ## The result -/

/-- **No lost item.** In every run that adds to an order only while no callback
of that order is pending, every item that was added and not deleted is in a
basket or in a stored document. Any other addition can be lost. -/
theorem no_lost_item (s : App) :
    ((app.when AddSettled).Reachable s → ∀ r, Alive s r → InBasket s r ∨ InDocument s r) ∧
    (∀ t b x, app.Reachable s → app.step s (.addItem b x) t → ¬ AddSettled s (.addItem b x) →
      ∃ ls u, app.Run t ls u ∧ (∀ e ∈ ls, e.isReply = true) ∧
        Alive u s.nextRef ∧ ¬ InBasket u s.nextRef ∧ ¬ InDocument u s.nextRef) := by
  refine ⟨fun hs r ha => ?_, fun t b x hr hs hn => late_add_lost hr hs hn⟩
  rcases (kept_reachable hs).safe r ha with hb | ⟨d, w, hd, hr, -⟩
  · exact .inl hb
  · exact .inr ⟨d, w, hd, hr⟩

/-- One order, an addition while its create is pending, both callbacks. -/
def lateAdd : List Ev :=
  signUp ++ [.addItem .cafe (plainItem "tea" "Cafe"), .checkout fun _ => 0,
    .addItem .cafe (plainItem "scone" "Cafe"), .reply 0 true, .reply 0 true]

/-- **An addition between the create and its callbacks is lost.** -/
theorem late_item_lost :
    ∃ s, app.Run {} lateAdd s ∧ Alive s 1 ∧ ¬ InBasket s 1 ∧ ¬ InDocument s 1 := by
  have hrun : app.Run {} lateAdd _ := LTS.run_of_exec rfl
  refine ⟨_, hrun, by decide, by decide, ?_⟩
  rw [(docs_reachable (hrun.reachable launch_default)).inDocument_iff]
  decide

end App

end QadsCafe
