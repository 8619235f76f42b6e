import QadsCafe.L4App.Sync

/-!
# When a placed order is final

A document of the `orders` collection is overwritten by an update of the order
that still has its ID. The order loses the ID when it is reset, at the end of
its callbacks; an update that is in flight by then may still land.

`document_final`: once no callback of an outlet is pending, the documents of
that outlet stay as they are, whatever is ordered, answered, signed in or out
later. `Final` is the invariant behind it.
-/
namespace QadsCafe

open Core

namespace App

/-- Nothing writes document `d` any more: no request in flight is for it, and
no order has its ID. -/
structure Final (s : App) (d : Nat) : Prop where
  past : Past s d
  update : ∀ w, .update w ∈ s.pending → w.doc ≠ d
  order : ∀ b, (s.order b).orderID ≠ some d

theorem Final.congr {s t : App} {d : Nat} (h : Final s d) (hf : Fresher s t)
    (hp : ∀ w, .update w ∈ t.pending → .update w ∈ s.pending)
    (hi : ∀ b, (t.order b).orderID = (s.order b).orderID ∨ (t.order b).orderID = none) :
    Final t d := by
  refine ⟨h.past.mono hf, fun w hw => h.update w (hp w hw), fun b hb => ?_⟩
  rcases hi b with hsame | hnone
  · exact h.order b (hsame.symm.trans hb)
  · rw [hnone] at hb
    cases hb

/-- An update that is sent is for the ID of its order, another one. -/
theorem Final.submit {s t : App} {call : Nat} {now : Basket → Date} {b : Basket} {d : Nat}
    (h : Final s d) (hs : Submit s call now b t) : Final t d := by
  have hf := hs.fresher
  cases hs with
  | skip => exact h
  | trap => exact h.congr hf (fun _ hw => hw) fun _ => .inl rfl
  | create =>
    refine h.congr hf (fun w hw => ?_) fun c => .inl (orderID_saved s call (now b) b c)
    rcases (mem_issue _).mp hw with hw | hw
    · exact hw
    · cases hw
  | update _ _ _ doc hdoc =>
    refine ⟨h.past.mono hf, fun w hw => ?_, fun c hc => ?_⟩
    · rcases (mem_issue _).mp hw with hw | hw
      · exact h.update w hw
      · cases hw
        intro he
        have he' : doc = d := he
        exact h.order b (he' ▸ hdoc)
    · rw [orderID_updated] at hc
      exact h.order c hc

theorem Final.settle {s : App} {d : Nat} (h : Final s d) {c : Callback} (hc : c ∈ s.pending)
    (ok : Bool) : Final (s.settle c ok) d := by
  have hf : Fresher s (s.settle c ok) :=
    .congr (settle_nextID s c ok) (by rw [pending_settle]; exact List.Subset.refl _)
  refine ⟨h.past.mono hf, by rw [pending_settle]; exact h.update, fun b hb => ?_⟩
  by_cases hcb : c.isCreate = true ∧ c.basket = b
  · cases c with
    | create w =>
      cases ok with
      | false => exact h.order b hb
      | true =>
        obtain rfl := hcb.2
        have hb' : ((s.created w).order w.basket).orderID = some d := hb
        rw [created, order_setOrder, if_pos rfl] at hb'
        exact h.past.2 w hc (Option.some.inj hb')
    | update w => cases hcb.1
    | history call b' uid ids => cases hcb.1
  · rw [orderID_settle s ok fun hcr he => hcb ⟨hcr, he⟩] at hb
    exact h.order b hb

theorem Final.follow {s : App} {d : Nat} (h : Final s d) (c : Callback) : Final (s.follow c) d := by
  have hf := follow_fresher s c
  have hreset : ∀ call b', ∀ b, ((s.resetAndComplete call b').order b).orderID = (s.order b).orderID ∨
      ((s.resetAndComplete call b').order b).orderID = none := by
    intro call b' b
    rw [order_resetAndComplete]
    split
    · exact .inr rfl
    · exact .inl rfl
  cases c with
  | create w =>
    simp only [App.follow] at hf ⊢
    have ha := appends_cases s w.call w.basket
    generalize s.addToPreviousOrders w.call w.basket = t at ha hf
    cases ha with
    | skip => exact h
    | trap doc => exact h.congr hf (fun _ hw => hw) fun b => .inl (congrArg _ (order_append s b doc))
    | issue doc uid =>
      refine h.congr hf (fun v hv => ?_) fun b => .inl (congrArg _ (order_append s b doc))
      rcases (mem_issue _).mp hv with hv | hv
      · exact hv
      · cases hv
  | update w => exact h.congr hf (fun _ hw => hw) (hreset w.call w.basket)
  | history call b uid ids => exact h.congr hf (fun _ hw => hw) (hreset call b)

/-- **One step** leaves a final document alone, and final. -/
theorem Final.step {s t : App} {e : Ev} {d : Nat} (h : Final s d) (hs : s.step e = some t) :
    Final t d ∧ t.orders d = s.orders d := by
  have hf := fresher_step hs
  constructor
  · cases (step_cases hs).2.2 with
    | addItem b x => exact h.congr hf (fun _ hw => hw) fun c => .inl (orderID_addItem s b c x)
    | badIndex => exact h.congr hf (fun _ hw => hw) fun _ => .inl rfl
    | removeItemAt index b i x => exact h.congr hf (fun _ hw => hw) fun c => .inl (orderID_removed s b c i x)
    | textFieldDidEndEditing text =>
      exact h.congr hf (fun _ hw => hw) fun c => .inl (orderID_textFieldDidEndEditing s text c)
    | checkout now =>
      have h0 : Final { s with calls := s.calls + 1 } d := ⟨h.past, h.update, h.order⟩
      exact (h0.submit (cafe_turn s now)).submit (bar_turn s now)
    | session _ _ f =>
      exact h.congr hf (by rw [f.pending]; exact fun _ hw => hw) fun b => .inl (by rw [f.order])
    | reply i ok c l₁ l₂ hp =>
      have hset := h.settle (mem_of_split hp) ok
      refine Final.follow ?_ c
      refine hset.congr (.congr rfl ?_) (fun w hw => ?_) fun _ => .inl rfl
      · rw [pending_settle]
        exact rest_subset hp
      · rw [pending_settle]
        exact rest_subset hp hw
  · rcases orders_step hs d with hsame | ⟨w, hw | hw, hd, -⟩
    · exact hsame
    · exact absurd hd (h.past.2 w hw)
    · exact absurd hd (h.update w hw)

theorem Final.run {s t : App} {ls : List Ev} {d : Nat} (h : Final s d) (hr : app.Run s ls t) :
    t.orders d = s.orders d := by
  have hend : Final t d ∧ t.orders d = s.orders d := by
    refine hr.invariant (I := fun u => Final u d ∧ u.orders d = s.orders d) (P := fun _ => True)
      (fun u e v _ hu hs => ?_) (fun _ _ => trivial) ⟨h, rfl⟩
    obtain ⟨hv, hsame⟩ := hu.1.step hs
    exact ⟨hv, hsame.trans hu.2⟩
  exact hend.2

/-- **A placed order is final** once no callback of its outlet is pending: its
document stays as it is in every run from there. -/
theorem document_final {s t : App} {ls : List Ev} {d : Nat} {w : Write} (h : app.Reachable s)
    (ht : s.trap = none) (hw : s.orders d = some w) (hp : ∀ c ∈ s.pending, c.basket ≠ w.basket)
    (hr : app.Run s ls t) : t.orders d = some w := by
  have hd := docs_reachable h
  have hfinal : Final s d := by
    refine ⟨⟨hd.stored d w hw, fun v hv hvd => ?_⟩, fun v hv hvd => ?_, fun b hb => ?_⟩
    · rw [← hvd, (hd.create v hv).1] at hw
      cases hw
    · obtain ⟨u, hu, hub⟩ := hd.update v hv
      rw [hvd, hw] at hu
      cases hu
      exact hp _ hv hub.symm
    · obtain ⟨u, hu, hub⟩ := hd.order b d hb
      rw [hw] at hu
      cases hu
      obtain ⟨c, hc, hcb, -⟩ := waits_reachable h ht b d hb
      exact hp c hc (hcb.trans hub.symm)
  rw [hfinal.run hr]
  exact hw

/-- A second tea is ordered after the first one was. -/
theorem document_final_tea : ∃ s t w,
    app.Run {} (teaAndAle ++ [.checkout fun _ => 0, .reply 0 true, .reply 1 true]) s ∧
    s.orders 0 = some w ∧
    app.Run s [.addItem .cafe (plainItem "tea" "Cafe"), .checkout fun _ => 1, .reply 1 true] t ∧
    t.orders 0 = some w := by
  obtain ⟨s, hs, ht, w, hw, hb, v, hp, hvb, t, hr⟩ : ∃ s,
      app.Run {} (teaAndAle ++ [.checkout fun _ => 0, .reply 0 true, .reply 1 true]) s ∧
      s.trap = none ∧ ∃ w, s.orders 0 = some w ∧ w.basket = .cafe ∧
      ∃ v, s.pending = [.create v] ∧ v.basket = .bar ∧
      ∃ t, app.Run s [.addItem .cafe (plainItem "tea" "Cafe"), .checkout fun _ => 1, .reply 1 true] t :=
    ⟨_, LTS.run_of_exec rfl, rfl, _, rfl, rfl, _, rfl, rfl, _, LTS.run_of_exec rfl⟩
  refine ⟨s, t, w, hs, hw, hr, document_final (hs.reachable launch_default) ht hw (fun c hc => ?_) hr⟩
  rw [hp, List.mem_singleton] at hc
  rw [hc, hb]
  show v.basket ≠ .cafe
  rw [hvb]
  decide

end App

end QadsCafe
