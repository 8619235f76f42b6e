import QadsCafe.L4App.Refs

/-!
# No order is sent twice while no second create is in flight

Whether `checkout` creates or updates depends on `orderID`, which stays nil
until the create's callback arrives. A second checkout in between creates a
second document with the same items (`second_create_duplicates`, and
`duplicates_of_second_create` for every state).

`OneCreate` leaves exactly those checkouts out. Without them an order has at
most one create pending, and none once it has an ID, so the items of an order
that were sent at all were sent to the document its ID names or its pending
create is for. `Once` is that invariant.
-/
namespace QadsCafe

open Core

namespace App

/-- `checkout` creates a document for an order only while no create of that
order is pending. -/
def OneCreate (s : App) (e : Ev) : Prop :=
  ∀ now, e = .checkout now → ∀ b, (s.order b).items ≠ [] → (s.order b).orderID = none →
    ∀ c ∈ s.pending, c.isCreate = true → c.basket ≠ b

/-- The item is in document `d`, or on its way there. -/
def Carried (s : App) (r d : Nat) : Prop :=
  (∃ w, s.orders d = some w ∧ r ∈ w.refs) ∨
  ∃ c ∈ s.pending, ∃ w, c.write? = some w ∧ w.doc = d ∧ r ∈ w.refs

structure Once (s : App) : Prop where
  /-- an order with a create pending is new -/
  new : ∀ w, .create w ∈ s.pending → (s.order w.basket).orderID = none
  creates : ((s.pending.filter Callback.isCreate).map Callback.basket).Nodup
  apart : ∀ r b c, r ∈ s.refs b → r ∈ s.refs c → b = c
  target : ∀ b r d, r ∈ s.refs b → Carried s r d →
    (s.order b).orderID = some d ∨ ∃ w, .create w ∈ s.pending ∧ w.basket = b ∧ w.doc = d
  unique : ∀ r d d', Carried s r d → Carried s r d' → d = d'

theorem Carried.congr {s t : App} {r d : Nat} (h : Carried t r d) (ho : t.orders = s.orders)
    (hp : t.pending ⊆ s.pending) : Carried s r d := by
  rcases h with ⟨w, hw, hr⟩ | ⟨c, hc, hw⟩
  · exact .inl ⟨w, by rw [← ho]; exact hw, hr⟩
  · exact .inr ⟨c, hp hc, hw⟩

/-- Nothing new is sent, no create appears or goes, and an order keeps its ID
or is emptied. -/
theorem Once.mono {s t : App} (h : Once s) (hr : ∀ b, t.refs b ⊆ s.refs b)
    (hi : ∀ b, (t.order b).orderID = (s.order b).orderID ∨
      ((t.order b).orderID = none ∧ t.refs b = []))
    (hf : t.pending.filter Callback.isCreate = s.pending.filter Callback.isCreate)
    (hc : ∀ r d, Carried t r d → Carried s r d) : Once t := by
  have hmem : ∀ w, .create w ∈ t.pending ↔ .create w ∈ s.pending := by
    intro w
    have h1 : .create w ∈ t.pending ↔ .create w ∈ t.pending.filter Callback.isCreate := by
      simp [Callback.isCreate]
    have h2 : .create w ∈ s.pending ↔ .create w ∈ s.pending.filter Callback.isCreate := by
      simp [Callback.isCreate]
    rw [h1, h2, hf]
  refine ⟨?_, ?_, ?_, ?_, ?_⟩
  · intro w hw
    rcases hi w.basket with hb | ⟨hb, -⟩
    · rw [hb]; exact h.new w ((hmem w).mp hw)
    · exact hb
  · rw [hf]; exact h.creates
  · intro r b c hb hc; exact h.apart r b c (hr b hb) (hr c hc)
  · intro b r d hb hcar
    rcases hi b with hid | ⟨-, hnil⟩
    · rcases h.target b r d (hr b hb) (hc r d hcar) with hd | ⟨w, hw, hwb⟩
      · exact .inl (hid.trans hd)
      · exact .inr ⟨w, (hmem w).mpr hw, hwb⟩
    · rw [hnil] at hb; cases hb
  · intro r d d' h1 h2; exact h.unique r d d' (hc r d h1) (hc r d' h2)

theorem Once.congr {s t : App} (h : Once s) (hr : ∀ b, t.refs b ⊆ s.refs b)
    (hi : ∀ b, (t.order b).orderID = (s.order b).orderID) (ho : t.orders = s.orders)
    (hp : t.pending = s.pending) : Once t :=
  h.mono hr (fun b => .inl (hi b)) (by rw [hp]) fun _ _ hc =>
    hc.congr ho (by rw [hp]; exact List.Subset.refl _)

theorem Once.addItem {s : App} (h : Once s) (hrefs : Refs s) (b : Basket) (x : OrderItem) :
    Once (s.addItem b x) := by
  have hnew : ∀ d, ¬ Carried s s.nextRef d := by
    intro d hcar
    rcases hcar with ⟨w, hw, hr⟩ | ⟨c, hc, w, hw, -, hr⟩
    · have := hrefs.stored d w hw _ hr; omega
    · have := hrefs.pending c hc w hw _ hr; omega
  have hmem : ∀ c r, r ∈ (s.addItem b x).refs c → r ∈ s.refs c ∨ (r = s.nextRef ∧ c = b) := by
    intro c r hr
    rw [refs_addItem] at hr
    split at hr
    · rename_i hc
      simp only [List.mem_append, List.mem_singleton] at hr
      rcases hr with hr | hr
      · exact .inl hr
      · exact .inr ⟨hr, hc⟩
    · exact .inl hr
  refine ⟨?_, h.creates, ?_, ?_, fun r d d' h1 h2 => h.unique r d d' h1 h2⟩
  · intro w hw; rw [orderID_addItem]; exact h.new w hw
  · intro r c c' hc hc'
    rcases hmem c r hc with hr | ⟨he, hb⟩ <;> rcases hmem c' r hc' with hr' | ⟨he', hb'⟩
    · exact h.apart r c c' hr hr'
    · have := hrefs.basket c r hr; omega
    · have := hrefs.basket c' r hr'; omega
    · rw [hb, hb']
  · intro c r d hc hcar
    have hcar' : Carried s r d := hcar
    rw [orderID_addItem]
    rcases hmem c r hc with hr | ⟨rfl, -⟩
    · exact h.target c r d hr hcar'
    · exact absurd hcar' (hnew d)

/-! ## Checkout -/

theorem carried_issue {s : App} {c : Callback} {w : Write} (hw : c.write? = some w) {r d : Nat}
    (h : Carried (s.issue c) r d) : Carried s r d ∨ (d = w.doc ∧ r ∈ w.refs) := by
  rcases h with hs | ⟨k, hk, v, hv, hd, hr⟩
  · exact .inl (.inl hs)
  · rcases (mem_issue s).mp hk with hk | rfl
    · exact .inl (.inr ⟨k, hk, v, hv, hd, hr⟩)
    · rw [hw] at hv; cases hv
      exact .inr ⟨hd.symm, hr⟩

/-- The items of basket `b` are sent to document `d`: to the only one they can
be on the way to. -/
theorem Once.send {s t : App} {b : Basket} {d : Nat} (h : Once s) (hrefs : ∀ c, t.refs c = s.refs c)
    (hid : ∀ c, (t.order c).orderID = (s.order c).orderID) (hpend : s.pending ⊆ t.pending)
    (hnew : ∀ w, .create w ∈ t.pending → (t.order w.basket).orderID = none)
    (hcreates : ((t.pending.filter Callback.isCreate).map Callback.basket).Nodup)
    (hcar : ∀ r d', Carried t r d' → Carried s r d' ∨ (d' = d ∧ r ∈ s.refs b))
    (honly : ∀ r d', r ∈ s.refs b → Carried s r d' → d' = d)
    (htarget : (t.order b).orderID = some d ∨
      ∃ w, .create w ∈ t.pending ∧ w.basket = b ∧ w.doc = d) : Once t := by
  refine ⟨hnew, hcreates, fun r c c' hc hc' => ?_, fun c r d' hr hc => ?_, fun r d₁ d₂ h1 h2 => ?_⟩
  · rw [hrefs] at hc hc'
    exact h.apart r c c' hc hc'
  · rw [hrefs] at hr
    rcases hcar r d' hc with hc | ⟨rfl, hrb⟩
    · rcases h.target c r d' hr hc with hd | ⟨w, hw, hwb⟩
      · exact .inl ((hid c).trans hd)
      · exact .inr ⟨w, hpend hw, hwb⟩
    · obtain rfl : b = c := h.apart r b c hrb hr
      exact htarget
  · rcases hcar r d₁ h1 with h1' | ⟨hd₁, hrb⟩ <;> rcases hcar r d₂ h2 with h2' | ⟨hd₂, hrb'⟩
    · exact h.unique r d₁ d₂ h1' h2'
    · rw [hd₂]; exact honly r d₁ hrb' h1'
    · rw [hd₁]; exact (honly r d₂ hrb h2').symm
    · rw [hd₁, hd₂]

theorem Once.saved {s : App} (h : Once s) {b : Basket} (hnone : (s.order b).orderID = none)
    (hno : ∀ c ∈ s.pending, c.isCreate = true → c.basket ≠ b) (call : Nat) (now : Date) :
    Once (s.saved call now b) := by
  have hpend : (s.saved call now b).pending = s.pending ++ [.create (s.createWrite call now b)] := rfl
  -- a new order without a create pending is on its way nowhere
  have hfree : ∀ r d, r ∈ s.refs b → ¬ Carried s r d := by
    intro r d hr hc
    rcases h.target b r d hr hc with hd | ⟨w, hw, hwb, -⟩
    · rw [hnone] at hd; cases hd
    · exact hno _ hw rfl hwb
  refine h.send (b := b) (d := s.nextID) (refs_saved s call now b) (orderID_saved s call now b)
    (by rw [hpend]; exact List.subset_append_left _ _) (fun w hw => ?_) ?_ (fun r d hc => ?_)
    (fun r d hr hc => absurd hc (hfree r d hr)) (.inr ⟨s.createWrite call now b, ?_, rfl, rfl⟩)
  · rw [orderID_saved]
    rw [hpend, List.mem_append, List.mem_singleton] at hw
    rcases hw with hw | hw
    · exact h.new w hw
    · cases hw; exact hnone
  · rw [hpend, List.filter_append, List.map_append, List.nodup_append]
    refine ⟨h.creates, List.nodup_singleton b, ?_⟩
    intro k hk k' hk'
    have hb : k' = b := List.mem_singleton.mp hk'
    simp only [List.mem_map, List.mem_filter] at hk
    obtain ⟨c, ⟨hc, hcc⟩, rfl⟩ := hk
    rw [hb]
    exact hno c hc hcc
  · rcases carried_issue rfl hc with hc | ⟨hd, hr⟩
    · exact .inl (hc.congr rfl (List.Subset.refl _))
    · exact .inr ⟨hd, hr⟩
  · rw [hpend]; simp

theorem Once.updated {s : App} (h : Once s) {b : Basket} {doc : Nat}
    (hdoc : (s.order b).orderID = some doc) (call : Nat) : Once (s.updated call b doc) := by
  have hpend : (s.updated call b doc).pending =
      s.pending ++ [.update (s.updateWrite call b doc)] := rfl
  have hid := fun c => orderID_updated s call b doc c
  refine h.send (b := b) (d := doc) (fun c => refs_updated s call b c doc) hid
    (by rw [hpend]; exact List.subset_append_left _ _) (fun w hw => ?_) ?_ (fun r d hc => ?_)
    (fun r d hr hc => ?_) (.inl ((hid b).trans hdoc))
  · rw [hid]
    simp only [hpend, List.mem_append, List.mem_singleton, reduceCtorEq, or_false] at hw
    exact h.new w hw
  · simpa [hpend, Callback.isCreate] using h.creates
  · rcases carried_issue rfl hc with hc | ⟨hd, hr⟩
    · exact .inl (hc.congr rfl (List.Subset.refl _))
    · exact .inr ⟨hd, hr⟩
  · -- an order with an ID has no create pending
    rcases h.target b r d hr hc with hd | ⟨w, hw, hwb, -⟩
    · rw [hdoc] at hd; cases hd; rfl
    · have hn := h.new w hw
      rw [hwb, hdoc] at hn; cases hn

theorem Once.submit {s t : App} {call : Nat} {now : Basket → Date} {b : Basket} (h : Once s)
    (hone : (s.order b).items ≠ [] → (s.order b).orderID = none →
      ∀ c ∈ s.pending, c.isCreate = true → c.basket ≠ b)
    (hs : Submit s call now b t) : Once t := by
  cases hs with
  | skip => exact h
  | trap => exact h.congr (fun _ => List.Subset.refl _) (fun _ => rfl) rfl rfl
  | create _ hi _ hnone => exact h.saved hnone (hone hi hnone) call (now b)
  | update _ _ _ doc hdoc => exact h.updated hdoc call

/-! ## Callbacks -/

theorem Once.answered {s : App} (h : Once s) {c : Callback} {l₁ l₂ : List Callback}
    (hp : s.pending = l₁ ++ c :: l₂) (hc : c.isCreate = false) (ok : Bool) :
    Once (s.answered c ok (l₁ ++ l₂)) := by
  refine h.mono (fun _ => List.Subset.refl _) (fun _ => .inl rfl) ?_ fun r d hcar => ?_
  · show (l₁ ++ l₂).filter Callback.isCreate = _
    rw [hp, List.filter_append, List.filter_append, List.filter_cons_of_neg (by rw [hc]; simp)]
  · refine hcar.congr rfl ?_
    exact rest_subset hp

/-- The update of a document is applied. -/
theorem Once.store {s : App} (h : Once s) {u : Write} (hu : .update u ∈ s.pending) :
    Once (s.store u) := by
  refine h.mono (fun _ => List.Subset.refl _) (fun _ => .inl rfl) rfl fun r d hcar => ?_
  rcases hcar with ⟨w, hw, hr⟩ | hc
  · rcases (orders_store s).mp hw with ⟨rfl, rfl⟩ | ⟨-, hw⟩
    · exact .inr ⟨_, hu, w, rfl, rfl, hr⟩
    · exact .inl ⟨w, hw, hr⟩
  · exact .inr hc

/-- A create leaves the pending list: it was the only one of its order, and
no document holds what it carried. -/
theorem once_create {s : App} (h : Once s) (hd : Docs s) {w : Write} {l₁ l₂ : List Callback}
    (hp : s.pending = l₁ ++ .create w :: l₂) {t : App} (ht : t.pending = l₁ ++ l₂) :
    (∀ v, .create v ∈ t.pending → .create v ∈ s.pending ∧ v.basket ≠ w.basket) ∧
    ((t.pending.filter Callback.isCreate).map Callback.basket).Nodup ∧
    (∀ v, .create v ∈ s.pending → v = w ∨ .create v ∈ t.pending) ∧
    (t.orders = s.orders → ∀ r, ¬ Carried t r w.doc) := by
  have hn := h.creates
  rw [hp, List.filter_append, List.filter_cons_of_pos (by rfl), List.map_append, List.map_cons,
    List.nodup_middle, List.nodup_cons, ← List.map_append, ← List.filter_append, ← ht] at hn
  have hsub : t.pending ⊆ s.pending := by rw [ht]; exact rest_subset hp
  refine ⟨fun v hv => ⟨hsub hv, fun hb => ?_⟩, hn.2, fun v hv => ?_, fun ho r hcar => ?_⟩
  · apply hn.1
    rw [List.mem_map]
    exact ⟨.create v, List.mem_filter.mpr ⟨hv, rfl⟩, hb⟩
  · rw [hp] at hv
    rw [ht]
    simp only [List.mem_append, List.mem_cons, Callback.create.injEq] at hv ⊢
    rcases hv with hv | hv | hv
    · exact .inr (.inl hv)
    · exact .inl hv
    · exact .inr (.inr hv)
  · have hnone := (hd.create w (mem_of_split hp)).1
    rcases hcar with ⟨v, hv, -⟩ | ⟨c, hc, v, hv, hvd, -⟩
    · rw [ho, hnone] at hv; cases hv
    · cases c with
      | create v' =>
        cases hv
        rw [ht] at hc
        exact create_once hd hp v hc hvd
      | update v' =>
        cases hv
        obtain ⟨u, hu, -⟩ := hd.update v (hsub hc)
        rw [hvd, hnone] at hu; cases hu
      | history => cases hv

theorem Once.failed {s : App} (h : Once s) (hd : Docs s) {w : Write} {l₁ l₂ : List Callback}
    (hp : s.pending = l₁ ++ .create w :: l₂) : Once (s.answered (.create w) false (l₁ ++ l₂)) := by
  have hsub := rest_subset hp
  obtain ⟨hsame, hnodup, hback, hgone⟩ :=
    once_create h hd hp (t := s.answered (.create w) false (l₁ ++ l₂)) rfl
  have hcar : ∀ r d, Carried (s.answered (.create w) false (l₁ ++ l₂)) r d → Carried s r d :=
    fun r d hc => hc.congr rfl hsub
  refine ⟨fun v hv => h.new v (hsame v hv).1, hnodup, h.apart, ?_,
    fun r d d' h1 h2 => h.unique r d d' (hcar r d h1) (hcar r d' h2)⟩
  intro b r d hr hc
  rcases h.target b r d hr (hcar r d hc) with hid | ⟨v, hv, hvb, hvd⟩
  · exact .inl hid
  · rcases hback v hv with rfl | hv'
    · subst hvd; exact absurd hc (hgone rfl r)
    · exact .inr ⟨v, hv', hvb, hvd⟩

theorem Once.created {s : App} (h : Once s) (hd : Docs s) {w : Write} {l₁ l₂ : List Callback}
    (hp : s.pending = l₁ ++ .create w :: l₂) :
    Once ((s.answered (.create w) true (l₁ ++ l₂)).created w) := by
  have hw := mem_of_split hp
  have hsub := rest_subset hp
  obtain ⟨hsame, hnodup, hback, -⟩ :=
    once_create h hd hp (t := (s.answered (.create w) true (l₁ ++ l₂)).created w) rfl
  have hrefs : ∀ b, ((s.answered (.create w) true (l₁ ++ l₂)).created w).refs b = s.refs b :=
    fun b => refs_created _ w b
  have hid : ∀ b, (((s.answered (.create w) true (l₁ ++ l₂)).created w).order b).orderID =
      if b = w.basket then some w.doc else (s.order b).orderID := by
    intro b
    rw [App.created, order_setOrder]
    split <;> rfl
  have hcar : ∀ r d, Carried ((s.answered (.create w) true (l₁ ++ l₂)).created w) r d →
      Carried s r d := by
    intro r d hc
    rcases hc with ⟨v, hv, hr⟩ | ⟨c, hc, hv⟩
    · rcases (orders_store _).mp hv with ⟨rfl, rfl⟩ | ⟨-, hv⟩
      · exact .inr ⟨_, hw, v, rfl, rfl, hr⟩
      · exact .inl ⟨v, hv, hr⟩
    · exact .inr ⟨c, hsub hc, hv⟩
  refine ⟨?_, hnodup, ?_, ?_, fun r d d' h1 h2 => h.unique r d d' (hcar r d h1) (hcar r d' h2)⟩
  · intro v hv
    obtain ⟨hv, hb⟩ := hsame v hv
    rw [hid, if_neg hb]
    exact h.new v hv
  · intro r b c hb hc
    rw [hrefs] at hb hc
    exact h.apart r b c hb hc
  · intro b r d hr hc
    rw [hrefs] at hr
    rw [hid]
    by_cases hb : b = w.basket
    · subst hb
      rw [if_pos rfl]
      -- the order was new, so the item was on its way in this create
      have hcw : Carried s r d := hcar r d hc
      rcases h.target _ r d hr hcw with hd' | ⟨v, hv, hvb, hvd⟩
      · rw [h.new w hw] at hd'; cases hd'
      · rcases hback v hv with rfl | hv'
        · exact .inl (by rw [hvd])
        · exact absurd hvb (hsame v hv').2
    · rw [if_neg hb]
      rcases h.target b r d hr (hcar r d hc) with hd' | ⟨v, hv, hvb, hvd⟩
      · exact .inl hd'
      · rcases hback v hv with rfl | hv'
        · exact absurd hvb.symm hb
        · exact .inr ⟨v, hv', hvb, hvd⟩

theorem Once.appends {s t : App} {call : Nat} {b : Basket} (h : Once s) (ha : Appends s call b t) :
    Once t := by
  have happend : ∀ doc, Once (s.append doc) := fun doc =>
    h.congr (fun c => by rw [refs_append]; exact List.Subset.refl _)
      (fun c => by rw [order_append]) rfl rfl
  cases ha with
  | skip => exact h
  | trap doc =>
    exact (happend doc).congr (fun _ => List.Subset.refl _) (fun _ => rfl) rfl rfl
  | issue doc uid =>
    refine (happend doc).mono (fun _ => List.Subset.refl _) (fun _ => .inl rfl) ?_ fun r d hc => ?_
    · simp only [App.issue, List.filter_append]
      exact List.append_nil _
    · rcases hc with hs | ⟨c, hc, w, hw, hd⟩
      · exact .inl hs
      · rcases (mem_issue _).mp hc with hc | rfl
        · exact .inr ⟨c, hc, w, hw, hd⟩
        · cases hw

theorem Once.resetAndComplete {s : App} (h : Once s) (call : Nat) (b : Basket) :
    Once (s.resetAndComplete call b) := by
  refine h.mono (fun c => ?_) (fun c => ?_) rfl fun r d hc => hc
  · rw [refs_resetAndComplete]
    split
    · exact List.nil_subset _
    · exact List.Subset.refl _
  · by_cases hc : c = b
    · right
      exact ⟨by rw [order_resetAndComplete, if_pos hc], by rw [refs_resetAndComplete, if_pos hc]⟩
    · left
      rw [order_resetAndComplete, if_neg hc]

theorem Once.reply {s : App} (h : Once s) (hd : Docs s) {c : Callback} {l₁ l₂ : List Callback}
    (hp : s.pending = l₁ ++ c :: l₂) (ok : Bool) :
    Once (((s.settle c ok).answered c ok (l₁ ++ l₂)).follow c) := by
  have hc := mem_of_split hp
  rw [← settle_answered]
  cases c with
  | create w =>
    refine Once.appends ?_ (appends_cases _ _ _)
    cases ok with
    | false => exact h.failed hd hp
    | true => exact h.created hd hp
  | update w =>
    refine Once.resetAndComplete ?_ _ _
    cases ok with
    | false => exact h.answered hp rfl false
    | true =>
      rw [settle_answered]
      exact (h.store hc).answered hp rfl true
  | history call b uid ids =>
    refine Once.resetAndComplete ?_ _ _
    cases ok with
    | false => exact h.answered hp rfl false
    | true =>
      exact (h.answered hp rfl true).congr (fun _ => List.Subset.refl _) (fun _ => rfl) rfl rfl

/-! ## Runs -/

theorem Once.step {s t : App} {e : Ev} (h : Once s) (hr : app.Reachable s) (hone : OneCreate s e)
    (hs : s.step e = some t) : Once t := by
  have hd := docs_reachable hr
  obtain ⟨-, -, hf⟩ := step_cases hs
  cases hf with
  | addItem b x => exact h.addItem (refs_reachable hr) b x
  | badIndex => exact h.congr (fun _ => List.Subset.refl _) (fun _ => rfl) rfl rfl
  | removeItemAt index b i x =>
    refine h.congr (fun c => ?_) (orderID_removed s b · i x) rfl rfl
    rw [refs_removed]
    split
    · exact List.eraseIdx_subset
    · exact List.Subset.refl _
  | textFieldDidEndEditing text =>
    refine h.congr (fun c => ?_) (orderID_textFieldDidEndEditing s text) rfl rfl
    rw [refs_textFieldDidEndEditing]; exact List.Subset.refl _
  | checkout now =>
    have h0 : Once { s with calls := s.calls + 1 } :=
      h.congr (fun _ => List.Subset.refl _) (fun _ => rfl) rfl rfl
    have hcafe := cafe_turn s now
    refine (h0.submit (hone now rfl .cafe) hcafe).submit ?_ (bar_turn s now)
    intro hi hid c hc hcc hb
    rw [hcafe.turn.order .bar (by decide)] at hi hid
    exact hone now rfl .bar hi hid c (hcafe.turn.other hc (by rw [hb]; decide)) hcc hb
  | reply i ok c l₁ l₂ hp => exact h.reply hd hp ok
  | session _ _ f =>
    refine h.congr (fun b => ?_) (fun b => by rw [f.order]) f.orders f.pending
    unfold refs; rw [f.order]; exact List.Subset.refl _

theorem Once.launch {s : App} (h : Launch s) : Once s := by
  have hnil : ∀ b, s.refs b = [] := fun b => by rw [refs, h.order]; rfl
  have hcar : ∀ r d, ¬ Carried s r d := by
    intro r d hc
    rcases hc with ⟨w, hw, -⟩ | ⟨c, hc, -⟩
    · rw [h.orders] at hw; cases hw
    · rw [h.pending] at hc; cases hc
  refine ⟨?_, ?_, ?_, ?_, ?_⟩
  · intro w hw; rw [h.pending] at hw; cases hw
  · rw [h.pending]; exact List.nodup_nil
  · intro r b c hb; rw [hnil] at hb; cases hb
  · intro b r d hb; rw [hnil] at hb; cases hb
  · intro r d d' h1; exact absurd h1 (hcar r d)

theorem once_reachable {s : App} (h : (app.when OneCreate).Reachable s) : Once s :=
  h.invariant (fun _ => Once.launch) fun _ _ _ hr hi hs => hi.step hr.of_when hs.2 hs.1

/-! ## A second create duplicates the order -/

/-- Two pending creates can both succeed. -/
theorem both_created {s : App} (ht : s.trap = none) {uid : String} (hu : s.user.uid = some uid)
    {w v : Write} (hw : .create w ∈ s.pending) (hv : .create v ∈ s.pending) (hne : w.doc ≠ v.doc) :
    ∃ ls u, app.Run s ls u ∧ (∀ e ∈ ls, e.isReply = true) ∧
      u.orders w.doc = some w ∧ u.orders v.doc = some v := by
  obtain ⟨l₁, l₂, hp⟩ := List.append_of_mem hw
  have hstep := create_step ht hu hp
  generalize hs' : (((s.created w).answered (.create w) true (l₁ ++ l₂)).append w.doc).issue
    (.history w.call w.basket uid (s.user.previousOrders ++ [w.doc])) = s' at hstep
  have ht' : s'.trap = none := by rw [← hs']; exact ht
  have hu' : s'.user.uid = some uid := by
    rw [← hs']
    show (s.user.setOrder w.basket _).uid = some uid
    rw [User.uid_setOrder, hu]
  have ho' : s'.orders w.doc = some w := by
    rw [← hs']
    exact (orders_store s).mpr (.inl ⟨rfl, rfl⟩)
  have hv' : .create v ∈ s'.pending := by
    rw [hp] at hv
    simp only [← hs', App.issue, App.append, App.answered, observe, List.mem_append,
      List.mem_cons, Callback.create.injEq] at hv ⊢
    rcases hv with hv | rfl | hv
    · exact .inl (.inl hv)
    · exact absurd rfl hne
    · exact .inl (.inr hv)
  obtain ⟨m₁, m₂, hp'⟩ := List.append_of_mem hv'
  have hstep' := create_step ht' hu' hp'
  refine ⟨_, _, .cons hstep (.cons hstep' (.nil _)), ?_, ?_, ?_⟩
  · intro e he
    simp only [List.mem_cons, List.not_mem_nil, or_false] at he
    rcases he with rfl | rfl <;> rfl
  · exact (orders_store s').mpr (.inr ⟨hne, ho'⟩)
  · exact (orders_store s').mpr (.inl ⟨rfl, rfl⟩)

/-- Any second create that still carries an item of the first can duplicate it. -/
theorem duplicates_of_second_create {s t : App} {now : Basket → Date} (hr : app.Reachable s)
    (hs : app.step s (.checkout now) t) (ht : t.trap = none) {w : Write}
    (hw : .create w ∈ s.pending) (hid : (s.order w.basket).orderID = none) {r : Nat}
    (hrb : r ∈ s.refs w.basket) (hrw : r ∈ w.refs) :
    ∃ ls u d d', app.Run t ls u ∧ (∀ e ∈ ls, e.isReply = true) ∧ d ≠ d' ∧
      u.holds d r = true ∧ u.holds d' r = true := by
  obtain ⟨-, he, rfl⟩ := step_iff.mp hs
  have hi : (s.order w.basket).items ≠ [] := by
    intro hnil
    simp [refs, itemRefs, hnil] at hrb
  obtain ⟨c, v, hsent, hv, -⟩ := checkout_sent ht hi
  obtain ⟨rfl, hvdoc⟩ := hsent.create hid
  have hvrefs : v.refs = s.refs w.basket := congrArg itemRefs hsent.built
  have hcafe := (cafe_turn s now).turn
  have hbar := (bar_turn s now).turn
  obtain ⟨uid, hu⟩ := Option.isSome_iff_exists.mp (show s.user.uid.isSome = true from he)
  have hu' : (s.checkout now).user.uid = some uid := by
    rw [← hu]; exact hbar.uid.trans hcafe.uid
  have hw' : .create w ∈ (s.checkout now).pending := hbar.subset (hcafe.subset hw)
  have hlt := ((docs_reachable hr).create w hw).2
  have hne : w.doc ≠ v.doc := by omega
  obtain ⟨ls, u, hrun, hls, hdw, hdv⟩ := both_created ht hu' hw' hv hne
  refine ⟨ls, u, w.doc, v.doc, hrun, hls, hne, ?_, ?_⟩
  · simp only [holds, hdw, Option.any_some, decide_eq_true_eq]; exact hrw
  · simp only [holds, hdv, Option.any_some, decide_eq_true_eq, hvrefs]; exact hrb

/-- **No duplicated order.** In every run that creates a document for an order
only while no create of that order is pending, every item is in at most one
document. Any other checkout can put the items it shares with the pending
create into two. -/
theorem no_duplicate (s : App) :
    ((app.when OneCreate).Reachable s →
      ∀ r d d', s.holds d r = true → s.holds d' r = true → d = d') ∧
    (∀ t now w r, app.Reachable s → app.step s (.checkout now) t → t.trap = none →
      .create w ∈ s.pending → (s.order w.basket).orderID = none → r ∈ s.refs w.basket → r ∈ w.refs →
      ∃ ls u d d', app.Run t ls u ∧ (∀ e ∈ ls, e.isReply = true) ∧ d ≠ d' ∧
        u.holds d r = true ∧ u.holds d' r = true) := by
  refine ⟨fun hs r d d' hd hd' => ?_, fun t now w r hr hs ht hw hid hrb hrw =>
    duplicates_of_second_create hr hs ht hw hid hrb hrw⟩
  simp only [holds, Option.any_eq_true, decide_eq_true_eq] at hd hd'
  exact (once_reachable hs).unique r d d' (.inl hd) (.inl hd')

/-- One order, checked out twice before the first create is answered. -/
def twoCheckouts : List Ev :=
  signUp ++ [.addItem .cafe (plainItem "tea" "Cafe"), .checkout fun _ => 0, .checkout fun _ => 1,
    .reply 0 true, .reply 0 true]

/-- **A second checkout in flight creates a second document.** -/
theorem second_create_duplicates :
    ∃ s, app.Run {} twoCheckouts s ∧ s.holds 0 0 = true ∧ s.holds 1 0 = true :=
  ⟨_, LTS.run_of_exec rfl, by decide, by decide⟩

end App

end QadsCafe
