import QadsCafe.Core.Ranking
import QadsCafe.L5Runs.CarryOver
import QadsCafe.L5Runs.Crashes

/-!
# What is left when everything in flight has been answered

From any state of a run, with any number of checkouts in flight, the callbacks
are delivered in any order and with any outcomes and nothing else happens. A
create may bring one more request, its history write; nothing else brings any.
So the deliveries come to an end, and while an account is signed in none of
them traps.

`drains` says what is left then: an order for which a request other than a
create was in flight, or whose create made it to the server, is as new; any
other order is as it was, with its items and its note.
-/
namespace QadsCafe

open Core

/-- How many deliveries a request is good for. -/
def Callback.deliveries (c : Callback) : Nat := if c.isCreate then 2 else 1

namespace App

/-- How many callbacks can still be delivered. -/
def outstanding (s : App) : Nat := (s.pending.map Callback.deliveries).sum

/-- The next delivery has the outcome the request is to have. -/
def Answers (outcome : Callback → Bool) (s : App) (e : Ev) : Prop :=
  ∃ i c, s.pending[i]? = some c ∧ e = .reply i (outcome c)

/-- A request for the order of `b` was in flight at `s` that was no create, or
its document exists at `t`. -/
def Landed (s t : App) (b : Basket) : Prop :=
  ∃ c ∈ s.pending, c.basket = b ∧ ∀ w, c = .create w → (t.orders w.doc).isSome = true

/-! ## One delivery -/

/-- What the delivery of `c` does while an account is signed in. -/
inductive Answer (s v : App) (c : Callback) (ok : Bool) (rest : List Callback) : Prop
  | reset (h : c.isCreate = false) (pending : v.pending = rest) (order : v.order c.basket = {})
  | ended (h : c.isCreate = true) (fails : ok = false) (pending : v.pending = rest)
      (order : v.order c.basket = s.order c.basket)
  | history (h : c.isCreate = true)
      (id : ok = true ∨ ∃ d, (s.order c.basket).orderID = some d) (k : Callback)
      (hk : k.isCreate = false) (hb : k.basket = c.basket) (pending : v.pending = rest ++ [k])

theorem follow_answer {s : App} {uid : String} (hu : s.user.uid = some uid) (ht : s.trap = none)
    (c : Callback) (ok : Bool) (rest : List Callback) :
    (((s.settle c ok).answered c ok rest).follow c).trap = none ∧
      Answer s (((s.settle c ok).answered c ok rest).follow c) c ok rest := by
  have htrap : ((s.settle c ok).answered c ok rest).trap = none := (trap_settle s c ok).trans ht
  cases hc : c.isCreate with
  | false =>
    have hreset : (((s.settle c ok).answered c ok rest).follow c).order c.basket = {} := by
      rw [order_follow, if_pos ⟨hc, rfl⟩]
    cases c with
    | create w => cases hc
    | update w => exact ⟨htrap, .reset hc rfl hreset⟩
    | history call b uid ids => exact ⟨htrap, .reset hc rfl hreset⟩
  | true =>
    cases c with
    | update w => cases hc
    | history call b uid ids => cases hc
    | create w =>
      have huid : ((s.settle (.create w) ok).answered (.create w) ok rest).user.uid = some uid :=
        (uid_settle s (.create w) ok).trans hu
      have ha := appends_cases ((s.settle (.create w) ok).answered (.create w) ok rest) w.call w.basket
      simp only [App.follow]
      generalize App.addToPreviousOrders _ w.call w.basket = v at ha
      cases ha with
      | skip hnone =>
        cases ok with
        | true =>
          -- the ID was just set
          have hid : ((s.created w).order w.basket).orderID = none := hnone
          rw [created, order_setOrder, if_pos rfl] at hid
          cases hid
        | false => exact ⟨htrap, .ended hc rfl rfl rfl⟩
      | trap doc _ hnil =>
        rw [huid] at hnil
        cases hnil
      | issue doc uid' hid =>
        refine ⟨htrap, .history hc ?_ (.history w.call w.basket uid' _) rfl rfl rfl⟩
        cases ok with
        | true => exact .inl rfl
        | false => exact .inr ⟨doc, hid⟩

theorem reply_answer {s v : App} {i : Nat} {ok : Bool} (hs : s.step (.reply i ok) = some v)
    (hu : s.user.uid.isSome = true) :
    ∃ c l₁ l₂, s.pending = l₁ ++ c :: l₂ ∧ s.pending[i]? = some c ∧ v.trap = none ∧
      v.user.uid = s.user.uid ∧ v.orders = (s.settle c ok).orders ∧
      Answer s v c ok (l₁ ++ l₂) := by
  obtain ⟨uid, huid⟩ := Option.isSome_iff_exists.mp hu
  have hacc := congrArg (fun a => a.2.1) (account_reply hs)
  obtain ⟨c, l₁, l₂, hp, hi, rfl⟩ := reply_cases hs
  obtain ⟨htrap, ha⟩ := follow_answer huid (step_iff.mp hs).1 c ok (l₁ ++ l₂)
  exact ⟨c, l₁, l₂, hp, by rw [hp, hi]; simp, htrap, hacc, follow_orders _ c, ha⟩

/-! ## The deliveries come to an end -/

theorem outstanding_split {s : App} {c : Callback} {l₁ l₂ : List Callback}
    (hp : s.pending = l₁ ++ c :: l₂) :
    s.outstanding = ((l₁ ++ l₂).map Callback.deliveries).sum + c.deliveries := by
  rw [outstanding, hp]
  simp only [List.map_append, List.map_cons, List.sum_append, List.sum_cons]
  omega

/-- Each delivery leaves fewer to come. -/
theorem Answer.outstanding {s v : App} {c : Callback} {ok : Bool} {l₁ l₂ : List Callback}
    (h : Answer s v c ok (l₁ ++ l₂)) (hp : s.pending = l₁ ++ c :: l₂) :
    v.outstanding < s.outstanding := by
  rw [outstanding_split hp]
  cases h with
  | reset hc pending =>
    rw [App.outstanding, pending, Callback.deliveries, hc]
    simp
  | ended hc _ pending =>
    rw [App.outstanding, pending, Callback.deliveries, hc]
    simp
  | history hc _ k hk _ pending =>
    rw [App.outstanding, pending, List.map_append, List.sum_append, Callback.deliveries, hc]
    simp [Callback.deliveries, hk]

/-! ## What a delivery stores -/

/-- The outcome of a request creates its own document at most. -/
theorem orders_settle {s : App} (hd : Docs s) {c : Callback} (hc : c ∈ s.pending) (ok : Bool)
    (d : Nat) : ((s.settle c ok).orders d).isSome = true ↔
      (s.orders d).isSome = true ∨ (ok = true ∧ c.createDoc = some d) := by
  cases ok with
  | false =>
    have hsame : (s.settle c false).orders = s.orders := by cases c <;> rfl
    rw [hsame]
    simp
  | true =>
    cases c with
    | create w =>
      show ((s.store w).orders d).isSome = true ↔ _
      by_cases h : d = w.doc
      · subst h
        simp [store, Callback.createDoc]
      · rw [orders_store_of_ne s h]
        simp [Callback.createDoc, Ne.symm h]
    | update w =>
      obtain ⟨v, hv, -⟩ := hd.update w hc
      show ((s.store w).orders d).isSome = true ↔ _
      by_cases h : d = w.doc
      · subst h
        simp [store, hv]
      · rw [orders_store_of_ne s h]
        simp [Callback.createDoc]
    | history call b uid ids =>
      show (s.orders d).isSome = true ↔ _
      simp [Callback.createDoc]

/-- Two creates in flight for one document are the same. -/
theorem create_unique {s : App} (hd : Docs s) {v w : Write} (hv : .create v ∈ s.pending)
    (hw : .create w ∈ s.pending) (h : v.doc = w.doc) : v = w := by
  obtain ⟨l₁, l₂, hp⟩ := List.append_of_mem hw
  by_contra hne
  refine create_once hd hp v ?_ h
  rw [hp, List.mem_append, List.mem_cons, Callback.create.injEq] at hv
  rcases hv with hv | hv | hv
  · exact List.mem_append_left _ hv
  · exact absurd hv hne
  · exact List.mem_append_right _ hv

/-! ## What is left -/

/-- `u` is on the way from `s`, with only deliveries since. -/
structure Draining (s : App) (b : Basket) (u : App) : Prop where
  reachable : app.Reachable u
  trap : u.trap = none
  uid : u.user.uid.isSome = true
  creates : ∀ w, .create w ∈ u.pending → .create w ∈ s.pending
  left : (Landed s u b ∧ (u.order b = {} ∨ ∃ c ∈ u.pending, c.basket = b ∧ c.isCreate = false)) ∨
    (¬ Landed s u b ∧ u.order b = s.order b ∧ ∀ c ∈ u.pending, c.basket = b → c.isCreate = true)

theorem Landed.mono {s t u : App} {b : Basket} (h : Landed s t b)
    (hd : ∀ d, (t.orders d).isSome = true → (u.orders d).isSome = true) : Landed s u b := by
  obtain ⟨c, hc, hb, hw⟩ := h
  exact ⟨c, hc, hb, fun w hcw => hd w.doc (hw w hcw)⟩

theorem Draining.start {s : App} (h : app.Reachable s) (ht : s.trap = none)
    (hu : s.user.uid.isSome = true) (b : Basket) : Draining s b s := by
  refine ⟨h, ht, hu, fun w hw => hw, ?_⟩
  by_cases hc : ∃ c ∈ s.pending, c.basket = b ∧ c.isCreate = false
  · obtain ⟨c, hmem, hb, hn⟩ := hc
    refine .inl ⟨⟨c, hmem, hb, fun w hw => ?_⟩, .inr ⟨c, hmem, hb, hn⟩⟩
    rw [hw] at hn
    cases hn
  · have hall : ∀ c ∈ s.pending, c.basket = b → c.isCreate = true := by
      intro c hmem hb
      by_contra hn
      exact hc ⟨c, hmem, hb, by simpa using hn⟩
    refine .inr ⟨?_, rfl, hall⟩
    rintro ⟨c, hmem, hb, hw⟩
    cases c with
    | create w =>
      have hsome := hw w rfl
      rw [((docs_reachable h).create w hmem).1] at hsome
      cases hsome
    | update w => cases hall _ hmem hb
    | history call b uid ids => cases hall _ hmem hb

/-- What a delivery for another order does to the document IDs of this one. -/
theorem landed_other {s u v : App} {b : Basket} (hs : Docs s) (h : Draining s b u) {c : Callback}
    (hc : c ∈ u.pending) {ok : Bool} (ho : v.orders = (u.settle c ok).orders)
    (hb : c.basket ≠ b) : Landed s v b ↔ Landed s u b := by
  have hd := docs_reachable h.reachable
  constructor
  · rintro ⟨k, hk, hkb, hw⟩
    refine ⟨k, hk, hkb, fun w hkw => ?_⟩
    have hsome := hw w hkw
    rw [ho, orders_settle hd hc] at hsome
    rcases hsome with hsome | ⟨-, hdoc⟩
    · exact hsome
    · cases c with
      | create w' =>
        subst hkw
        have hww : w' = w :=
          create_unique hs (h.creates w' hc) hk (Option.some.inj hdoc)
        rw [hww] at hb
        exact absurd hkb hb
      | update w' => cases hdoc
      | history call b' uid ids => cases hdoc
  · intro hl
    refine hl.mono fun d hsome => ?_
    rw [ho, orders_settle hd hc]
    exact .inl hsome

/-- While no request but creates is in flight, the order has no ID. -/
theorem landed_of_orderID {s u : App} {b : Basket} (h : Draining s b u) {d : Nat}
    (hd : (u.order b).orderID = some d) : Landed s u b := by
  obtain ⟨c, hc, hb, hn⟩ := waits_reachable h.reachable h.trap b d hd
  rcases h.left with ⟨hl, -⟩ | ⟨-, -, hall⟩
  · exact hl
  · rw [hall c hc hb] at hn
    cases hn

theorem Draining.own {s u v : App} {c : Callback} {ok : Bool} {l₁ l₂ : List Callback}
    (h : Draining s c.basket u) (hp : u.pending = l₁ ++ c :: l₂)
    (ho : v.orders = (u.settle c ok).orders) (ha : Answer u v c ok (l₁ ++ l₂)) :
    (Landed s v c.basket ∧
      (v.order c.basket = {} ∨ ∃ k ∈ v.pending, k.basket = c.basket ∧ k.isCreate = false)) ∨
    (¬ Landed s v c.basket ∧ v.order c.basket = s.order c.basket ∧
      ∀ k ∈ v.pending, k.basket = c.basket → k.isCreate = true) := by
  have hd := docs_reachable h.reachable
  have hc := mem_of_split hp
  have hmono : Landed s u c.basket → Landed s v c.basket := fun hl => by
    refine hl.mono fun d hsome => ?_
    rw [ho, orders_settle hd hc]
    exact .inl hsome
  cases ha with
  | reset hn pending order =>
    refine .inl ⟨hmono ?_, .inl order⟩
    rcases h.left with ⟨hl, -⟩ | ⟨-, -, hall⟩
    · exact hl
    · rw [hall c hc rfl] at hn
      cases hn
  | ended hcr hfails pending order =>
    rw [pending, order]
    rcases h.left with ⟨hl, hleft⟩ | ⟨hl, hord, hall⟩
    · refine .inl ⟨hmono hl, ?_⟩
      rcases hleft with hnil | ⟨k, hk, hkb, hkn⟩
      · exact .inl hnil
      · refine .inr ⟨k, ?_, hkb, hkn⟩
        rw [hp, List.mem_append, List.mem_cons] at hk
        rcases hk with hk | rfl | hk
        · exact List.mem_append_left _ hk
        · rw [hcr] at hkn
          cases hkn
        · exact List.mem_append_right _ hk
    · refine .inr ⟨fun hlv => hl ?_, hord, fun k hk => hall k (rest_subset hp hk)⟩
      refine hlv.mono fun d hsome => ?_
      rw [ho, orders_settle hd hc] at hsome
      rcases hsome with hsome | ⟨hok, -⟩
      · exact hsome
      · rw [hfails] at hok
        cases hok
  | history hcr hid k hk hkb pending =>
    refine .inl ⟨?_, .inr ⟨k, by rw [pending]; simp, hkb, hk⟩⟩
    rcases hid with hok | ⟨d, hd'⟩
    · cases c with
      | create w =>
        refine ⟨.create w, h.creates w hc, rfl, fun w' hw' => ?_⟩
        cases hw'
        rw [ho, orders_settle hd hc]
        exact .inr ⟨hok, rfl⟩
      | update w => cases hcr
      | history call b uid ids => cases hcr
    · exact hmono (landed_of_orderID h hd')

theorem Draining.step {s u v : App} {b : Basket} {i : Nat} {ok : Bool} (hs₀ : Docs s)
    (h : Draining s b u) (hs : u.step (.reply i ok) = some v) : Draining s b v := by
  obtain ⟨c, l₁, l₂, hp, hi, htrap, huid, ho, ha⟩ := reply_answer hs h.uid
  have hcreates : ∀ w, .create w ∈ v.pending → .create w ∈ u.pending := by
    intro w hw
    cases ha with
    | reset _ pending => exact rest_subset hp (pending ▸ hw)
    | ended _ _ pending => exact rest_subset hp (pending ▸ hw)
    | history _ _ k hk _ pending =>
      rw [pending, List.mem_append, List.mem_singleton] at hw
      rcases hw with hw | rfl
      · exact rest_subset hp hw
      · cases hk
  refine ⟨h.reachable.step hs, htrap, huid ▸ h.uid, fun w hw => h.creates w (hcreates w hw), ?_⟩
  by_cases hb : c.basket = b
  · subst hb
    exact h.own hp ho ha
  · obtain ⟨hord, hpend⟩ := reply_other hs hi hb
    rw [landed_other hs₀ h (mem_of_split hp) ho hb, hord]
    rcases h.left with ⟨hl, hleft⟩ | ⟨hl, hsame, hall⟩
    · refine .inl ⟨hl, hleft.imp_right ?_⟩
      rintro ⟨k, hk, hkb, hkn⟩
      exact ⟨k, (hpend k hkb).mpr hk, hkb, hkn⟩
    · exact .inr ⟨hl, hsame, fun k hk hkb => hall k ((hpend k hkb).mp hk) hkb⟩

/-- Deliveries, whatever their order and outcomes, come to an end. -/
theorem ranked_replies {s : App} (hs₀ : Docs s) :
    Ranked (app.when fun _ e => e.isReply = true) (fun u => ∀ b, Draining s b u) outstanding := by
  refine ⟨fun u e v h hs => ?_, fun u e v h hs => ?_⟩
  · obtain ⟨hs, he⟩ := hs
    cases e with
    | reply i ok => exact fun b => (h b).step hs₀ hs
    | _ => cases he
  · obtain ⟨hs, he⟩ := hs
    cases e with
    | reply i ok =>
      obtain ⟨c, l₁, l₂, hp, -, -, -, -, ha⟩ := reply_answer hs (h .cafe).uid
      exact ha.outstanding hp
    | _ => cases he

/-- **What is left.** From every state of a run with an account signed in:
deliveries only never trap and there are at most `outstanding` of them;
whatever outcomes the requests are to have, some run delivers them all; and
then an order is as new if something of it landed, and else as it was. -/
theorem drains {s : App} (h : app.Reachable s) (ht : s.trap = none) (hu : s.user.uid.isSome = true) :
    (∀ ls t, app.Run s ls t → (∀ e ∈ ls, e.isReply = true) →
      t.trap = none ∧ ls.length ≤ s.outstanding ∧
      (t.pending = [] → ∀ b, (Landed s t b → t.order b = {}) ∧
        (¬ Landed s t b → t.order b = s.order b))) ∧
    ∀ outcome, ∃ ls t, (app.when (Answers outcome)).Run s ls t ∧ t.pending = [] := by
  have hd := docs_reachable h
  have hstart : ∀ b, Draining s b s := Draining.start h ht hu
  constructor
  · intro ls t hr hls
    obtain ⟨hend, hlen⟩ := (ranked_replies hd).run (hr.when fun e he _ => hls e he) hstart
    refine ⟨(hend .cafe).trap, by omega, fun hnil b => ?_⟩
    rcases (hend b).left with ⟨hl, hnew | ⟨k, hk, -⟩⟩ | ⟨hl, hsame, -⟩
    · exact ⟨fun _ => hnew, fun hn => absurd hl hn⟩
    · rw [hnil] at hk
      cases hk
    · exact ⟨fun hy => absurd hy hl, fun _ => hsame⟩
  · intro outcome
    have hranked : Ranked (app.when (Answers outcome)) (fun u => ∀ b, Draining s b u)
        outstanding := by
      constructor
      · rintro u e v hu ⟨hs, i, c, -, rfl⟩
        exact (ranked_replies hd).keeps u _ v hu ⟨hs, rfl⟩
      · rintro u e v hu ⟨hs, i, c, -, rfl⟩
        exact (ranked_replies hd).lowers u _ v hu ⟨hs, rfl⟩
    refine hranked.reaches (fun u hu hne => ?_) hstart
    obtain ⟨c, rest, hp⟩ := List.exists_cons_of_ne_nil hne
    have hfirst : u.pending = [] ++ c :: rest := hp
    exact ⟨_, _, reply_step (hu .cafe).trap hfirst (outcome c), 0, c, by rw [hp]; rfl, rfl⟩

/-- Two creates in flight: the first fails, its order is left alone. -/
theorem drains_teaAndAle : ∃ s t, app.Run {} (teaAndAle ++ [.checkout fun _ => 0]) s ∧
    app.Run s [.reply 0 false, .reply 0 true, .reply 0 true] t ∧
    t.order .cafe = s.order .cafe ∧ t.order .bar = {} := by
  obtain ⟨s, hs, ht, hu, w₁, w₂, hp, hb, t, hr, hnil, hnone, hsome⟩ :
      ∃ s, app.Run {} (teaAndAle ++ [.checkout fun _ => 0]) s ∧ s.trap = none ∧
        s.user.uid.isSome = true ∧ ∃ w₁ w₂, s.pending = [.create w₁, .create w₂] ∧
        (w₁.basket = .cafe ∧ w₂.basket = .bar) ∧
        ∃ t, app.Run s [.reply 0 false, .reply 0 true, .reply 0 true] t ∧ t.pending = [] ∧
          t.orders w₁.doc = none ∧ (t.orders w₂.doc).isSome = true :=
    ⟨_, LTS.run_of_exec rfl, rfl, rfl, _, _, rfl, ⟨rfl, rfl⟩, _, LTS.run_of_exec rfl, rfl, rfl, rfl⟩
  have hleft := ((drains (hs.reachable launch_default) ht hu).1 _ t hr (by decide)).2.2 hnil
  refine ⟨s, t, hs, hr, (hleft .cafe).2 ?_, (hleft .bar).1 ?_⟩
  · rintro ⟨c, hc, hcb, hw⟩
    simp only [hp, List.mem_cons, List.not_mem_nil, or_false] at hc
    rcases hc with rfl | rfl
    · have := hw w₁ rfl
      rw [hnone] at this
      cases this
    · have hbar : w₂.basket = .cafe := hcb
      rw [hb.2] at hbar
      cases hbar
  · refine ⟨.create w₂, by rw [hp]; simp, hb.2, fun w hw => ?_⟩
    cases hw
    exact hsome

end App

end QadsCafe
