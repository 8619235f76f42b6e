import QadsCafe.L4App.Steps

/-!
# What holds of every reachable state

* `Docs`: a pending create is for a document that does not exist yet, and no
  two are for the same one; a pending update, and the `orderID` of an order,
  name a stored document of that order.
* `Waits`: while an order has an `orderID`, a callback that will reset it is
  still pending. So an order is new again as soon as nothing is pending
  (`orderID_none`).
* `Refs`: object identities are handed out in increasing order.
-/
namespace QadsCafe

open Core

/-- The document a pending create is for. -/
def Callback.createDoc : Callback → Option Nat
  | .create w => some w.doc
  | _ => none

namespace App

/-! ## Documents -/

structure Docs (s : App) : Prop where
  stored : ∀ d w, s.orders d = some w → d < s.nextID
  create : ∀ w, .create w ∈ s.pending → s.orders w.doc = none ∧ w.doc < s.nextID
  once : (s.pending.filterMap Callback.createDoc).Nodup
  update : ∀ w, .update w ∈ s.pending → ∃ v, s.orders w.doc = some v ∧ v.basket = w.basket
  order : ∀ b d, (s.order b).orderID = some d → ∃ v, s.orders d = some v ∧ v.basket = b

theorem Docs.congr {s t : App} (h : Docs s) (ho : t.orders = s.orders) (hp : t.pending = s.pending)
    (hn : t.nextID = s.nextID) (hi : ∀ b, (t.order b).orderID = (s.order b).orderID) : Docs t := by
  refine ⟨?_, ?_, ?_, ?_, ?_⟩
  · rw [ho, hn]; exact h.stored
  · rw [ho, hp, hn]; exact h.create
  · rw [hp]; exact h.once
  · rw [ho, hp]; exact h.update
  · intro b d hd
    rw [ho]; rw [hi] at hd
    exact h.order b d hd

theorem Docs.frame {s t : App} (h : Docs s) (f : Frame s t) : Docs t :=
  h.congr f.orders f.pending f.nextID fun b => by rw [f.order]

theorem Docs.crash {s : App} (h : Docs s) (t : Trap) : Docs (s.crash t) :=
  h.congr rfl rfl rfl fun _ => rfl

theorem Docs.setOrder {s : App} (h : Docs s) {b : Basket} {o : Order}
    (ho : o.orderID = (s.order b).orderID ∨ o.orderID = none) : Docs (s.setOrder b o) := by
  refine ⟨h.stored, h.create, h.once, h.update, ?_⟩
  intro c d hd
  rw [order_setOrder] at hd
  split at hd
  · rename_i hc; subst hc
    rcases ho with ho | ho
    · rw [ho] at hd; exact h.order c d hd
    · rw [ho] at hd; cases hd
  · exact h.order c d hd

theorem Docs.issueCreate {s : App} (h : Docs s) {w : Write} (hw : w.doc = s.nextID) :
    Docs ({ s with nextID := s.nextID + 1 }.issue (.create w)) := by
  refine ⟨?_, ?_, ?_, ?_, h.order⟩
  · intro d v hd; exact Nat.lt_succ_of_lt (h.stored d v hd)
  · intro v hv
    have hn : ({ s with nextID := s.nextID + 1 }.issue (.create w)).nextID = s.nextID + 1 := rfl
    rw [hn]
    rcases (mem_issue _).mp hv with hv | hv
    · have := h.create v hv
      exact ⟨this.1, by omega⟩
    · cases hv
      refine ⟨?_, by omega⟩
      show s.orders w.doc = none
      cases ho : s.orders w.doc with
      | none => rfl
      | some u => have := h.stored _ _ ho; omega
  · simp only [App.issue, List.filterMap_append, List.nodup_append]
    refine ⟨h.once, by simp [Callback.createDoc], ?_⟩
    intro d hd e he
    simp only [List.mem_filterMap] at hd
    obtain ⟨c, hc, hcd⟩ := hd
    simp only [List.filterMap_cons, Callback.createDoc, List.filterMap_nil,
      List.mem_singleton] at he
    cases c <;> simp only [Callback.createDoc, Option.some.injEq, reduceCtorEq] at hcd
    have := (h.create _ hc).2
    omega
  · intro v hv
    rcases (mem_issue _).mp hv with hv | hv
    · exact h.update v hv
    · cases hv

/-- A request that creates nothing. -/
theorem Docs.issue {s : App} (h : Docs s) {c : Callback} (hc : c.isCreate = false)
    (hu : ∀ w, c = .update w → ∃ v, s.orders w.doc = some v ∧ v.basket = w.basket) :
    Docs (s.issue c) := by
  have hnone : c.createDoc = none := by cases c <;> first | rfl | cases hc
  refine ⟨h.stored, ?_, ?_, ?_, h.order⟩
  · intro v hv
    rcases (mem_issue s).mp hv with hv | rfl
    · exact h.create v hv
    · cases hc
  · simpa [App.issue, List.filterMap_append, List.filterMap_cons, hnone] using h.once
  · intro v hv
    rcases (mem_issue s).mp hv with hv | hv
    · exact h.update v hv
    · exact hu v hv.symm

theorem Docs.submit {s t : App} {call : Nat} {now : Basket → Date} {b : Basket} (h : Docs s)
    (hs : Submit s call now b t) : Docs t := by
  cases hs with
  | skip => exact h
  | trap => exact h.crash _
  | create _ _ _ hid =>
    have h1 : Docs (s.setOrder b (s.savedOrder (now b) b)) := h.setOrder (.inl rfl)
    exact h1.issueCreate rfl
  | update _ _ _ doc hid =>
    have h1 : Docs (s.setOrder b (s.updatedOrder b)) := h.setOrder (.inl rfl)
    refine h1.issue rfl fun w hw => ?_
    cases hw
    exact h.order b doc hid

theorem Docs.answered {s : App} (h : Docs s) {c : Callback} {l₁ l₂ : List Callback}
    (hp : s.pending = l₁ ++ c :: l₂) (ok : Bool) : Docs (s.answered c ok (l₁ ++ l₂)) := by
  have hsub : (l₁ ++ l₂).Sublist s.pending := by
    rw [hp]; exact (List.sublist_cons_self c l₂).append_left l₁
  refine ⟨h.stored, fun w hw => h.create w (hsub.subset hw), ?_,
    fun w hw => h.update w (hsub.subset hw), h.order⟩
  exact (hsub.filterMap _).nodup h.once

theorem Docs.store {s : App} (h : Docs s) {w : Write}
    (hw : ∃ v, s.orders w.doc = some v ∧ v.basket = w.basket) : Docs (s.store w) := by
  obtain ⟨u, hu, hb⟩ := hw
  -- a document that exists under `u` keeps its basket under `w`
  have hkeep : ∀ d b, (∃ v, s.orders d = some v ∧ v.basket = b) →
      ∃ v, (s.store w).orders d = some v ∧ v.basket = b := by
    rintro d b ⟨v, hv, hvb⟩
    by_cases he : d = w.doc
    · subst he
      rw [hu] at hv; cases hv
      exact ⟨w, (orders_store s).mpr (.inl ⟨rfl, rfl⟩), hb ▸ hvb⟩
    · exact ⟨v, (orders_store s).mpr (.inr ⟨he, hv⟩), hvb⟩
  refine ⟨?_, ?_, h.once, fun v hv => hkeep _ _ (h.update v hv), fun b d hd => hkeep _ _ (h.order b d hd)⟩
  · intro d v hd
    rcases (orders_store s).mp hd with ⟨rfl, -⟩ | ⟨-, hd⟩
    · exact h.stored _ _ hu
    · exact h.stored d v hd
  · intro v hv
    obtain ⟨hnone, hlt⟩ := h.create v hv
    have hne : v.doc ≠ w.doc := by intro he; rw [he, hu] at hnone; cases hnone
    exact ⟨(orders_store_of_ne s hne).trans hnone, hlt⟩

theorem Docs.created {s : App} (h : Docs s) {w : Write} (hlt : w.doc < s.nextID)
    (hnone : s.orders w.doc = none) (hne : ∀ v, .create v ∈ s.pending → v.doc ≠ w.doc) :
    Docs (s.created w) := by
  have hkeep : ∀ d v, s.orders d = some v → (s.created w).orders d = some v := by
    intro d v hv
    have hd : d ≠ w.doc := by intro he; rw [he, hnone] at hv; cases hv
    exact (orders_store s).mpr (.inr ⟨hd, hv⟩)
  refine ⟨?_, ?_, h.once, ?_, ?_⟩
  · intro d v hd
    rcases (orders_store s).mp hd with ⟨rfl, -⟩ | ⟨-, hd⟩
    · exact hlt
    · exact h.stored d v hd
  · intro v hv
    obtain ⟨hnew, hvlt⟩ := h.create v hv
    exact ⟨(orders_store_of_ne s (hne v hv)).trans hnew, hvlt⟩
  · intro v hv
    obtain ⟨u, hu, hb⟩ := h.update v hv
    exact ⟨u, hkeep _ _ hu, hb⟩
  · intro b d hd
    simp only [App.created, order_setOrder] at hd
    split at hd
    · rename_i hb; cases hd
      exact ⟨w, (orders_store s).mpr (.inl ⟨rfl, rfl⟩), hb.symm⟩
    · obtain ⟨u, hu, hub⟩ := h.order b d hd
      exact ⟨u, hkeep _ _ hu, hub⟩

theorem Docs.appends {s t : App} {call : Nat} {b : Basket} (h : Docs s) (ha : Appends s call b t) :
    Docs t := by
  have happend : ∀ doc, Docs (s.append doc) := fun doc => h.congr rfl rfl rfl fun c => by
    rw [order_append]
  cases ha with
  | skip => exact h
  | trap doc => exact (happend doc).crash _
  | issue doc uid => exact (happend doc).issue rfl fun w hw => by cases hw

theorem Docs.resetAndComplete {s : App} (h : Docs s) (call : Nat) (b : Basket) :
    Docs (s.resetAndComplete call b) :=
  (h.setOrder (b := b) (o := (s.order b).resetOrder) (.inr rfl)).congr rfl rfl rfl fun _ => rfl

theorem create_once {s : App} (h : Docs s) {w : Write} {l₁ l₂ : List Callback}
    (hp : s.pending = l₁ ++ .create w :: l₂) :
    ∀ v, .create v ∈ l₁ ++ l₂ → v.doc ≠ w.doc := by
  intro v hv he
  have hn := h.once
  rw [hp, List.filterMap_append, List.filterMap_cons] at hn
  simp only [Callback.createDoc, List.nodup_middle, List.nodup_cons, ← List.filterMap_append] at hn
  apply hn.1
  rw [List.mem_filterMap]
  exact ⟨.create v, hv, by simp [Callback.createDoc, he]⟩

theorem Docs.settle {s : App} (h : Docs s) {c : Callback} {l₁ l₂ : List Callback}
    (hp : s.pending = l₁ ++ c :: l₂) (ok : Bool) :
    Docs ((s.answered c ok (l₁ ++ l₂)).settle c ok) := by
  have ha := h.answered hp ok
  have hc := mem_of_split hp
  cases ok with
  | false => cases c <;> exact ha
  | true =>
    cases c with
    | create w =>
      have hw := h.create w hc
      exact ha.created hw.2 hw.1 (create_once h hp)
    | update w => exact ha.store (h.update w hc)
    | history call b uid ids => exact ha.congr rfl rfl rfl fun _ => rfl

theorem Docs.follow {s : App} (h : Docs s) (c : Callback) : Docs (s.follow c) := by
  cases c with
  | create w => exact h.appends (appends_cases _ _ _)
  | update w => exact h.resetAndComplete _ _
  | history call b uid ids => exact h.resetAndComplete _ _

theorem Docs.step {s t : App} {e : Ev} (h : Docs s) (hs : s.step e = some t) : Docs t := by
  obtain ⟨-, -, hf⟩ := step_cases hs
  cases hf with
  | addItem b x => exact h.congr rfl rfl rfl fun c => orderID_addItem s b c x
  | badIndex => exact h.crash _
  | removeItemAt index b i x => exact h.congr rfl rfl rfl fun c => orderID_removed s b c i x
  | textFieldDidEndEditing text =>
    exact h.congr rfl rfl rfl fun c => orderID_textFieldDidEndEditing s text c
  | checkout now =>
    have h0 : Docs { s with calls := s.calls + 1 } := h.congr rfl rfl rfl fun _ => rfl
    exact (h0.submit (cafe_turn s now)).submit (bar_turn s now)
  | reply i ok c l₁ l₂ hp =>
    rw [← settle_answered]
    exact (h.settle hp ok).follow c
  | session _ _ f => exact h.frame f

theorem Docs.launch {s : App} (h : Launch s) : Docs s := by
  refine ⟨?_, ?_, ?_, ?_, ?_⟩
  · intro d w hw; rw [h.orders] at hw; cases hw
  · intro w hw; rw [h.pending] at hw; cases hw
  · rw [h.pending]; exact List.nodup_nil
  · intro w hw; rw [h.pending] at hw; cases hw
  · intro b d hd
    rw [h.order] at hd
    cases hd

theorem docs_reachable {s : App} (h : app.Reachable s) : Docs s :=
  h.invariant (fun _ => Docs.launch) fun _ _ _ _ hi hs => hi.step hs

/-! ## An order with an ID waits for a reset -/

def Waits (s : App) : Prop :=
  s.trap = none → ∀ b d, (s.order b).orderID = some d →
    ∃ c ∈ s.pending, c.basket = b ∧ c.isCreate = false

theorem Waits.congr {s t : App} (h : Waits s) (ht : s.trap = none) (hp : s.pending ⊆ t.pending)
    (hi : ∀ b, (t.order b).orderID = (s.order b).orderID) : Waits t := by
  intro _ b d hd
  rw [hi] at hd
  obtain ⟨c, hc, hb⟩ := h ht b d hd
  exact ⟨c, hp hc, hb⟩

theorem Waits.of_trap {s : App} (h : s.trap ≠ none) : Waits s := fun ht => absurd ht h

theorem Waits.submit {s t : App} {call : Nat} {now : Basket → Date} {b : Basket} (h : Waits s)
    (hs : Submit s call now b t) : Waits t := by
  cases hs with
  | skip => exact h
  | trap => exact .of_trap (by simp [crash])
  | create ht =>
    exact h.congr ht (List.subset_append_left _ _) (orderID_saved s call (now b) b)
  | update ht _ _ doc =>
    exact h.congr ht (List.subset_append_left _ _) fun c => orderID_updated s call b doc c

/-- Removing the delivered callback leaves the other order's reset pending. -/
theorem waits_rest {s : App} (h : Waits s) (ht : s.trap = none) {c : Callback}
    {l₁ l₂ : List Callback} (hp : s.pending = l₁ ++ c :: l₂) {b : Basket} {d : Nat}
    (hd : (s.order b).orderID = some d) (hc : c.isCreate = true ∨ c.basket ≠ b) :
    ∃ c' ∈ l₁ ++ l₂, c'.basket = b ∧ c'.isCreate = false := by
  obtain ⟨c', hm, hb, hn⟩ := h ht b d hd
  refine ⟨c', ?_, hb, hn⟩
  rw [hp] at hm
  simp only [List.mem_append, List.mem_cons] at hm ⊢
  rcases hm with hm | rfl | hm
  · exact .inl hm
  · rcases hc with hc | hc
    · rw [hc] at hn; cases hn
    · exact absurd hb hc
  · exact .inr hm

theorem Waits.appends {s t : App} {call : Nat} {b : Basket}
    (h : ∀ c d, c ≠ b → (s.order c).orderID = some d →
      ∃ k ∈ s.pending, k.basket = c ∧ k.isCreate = false)
    (ha : Appends s call b t) : Waits t := by
  cases ha with
  | skip hn =>
    intro _ c d hd
    by_cases hc : c = b
    · subst hc; rw [hn] at hd; cases hd
    · exact h c d hc hd
  | trap => exact .of_trap (by simp [crash])
  | issue doc uid hd hu =>
    intro _ c d hd'
    by_cases hc : c = b
    · exact ⟨.history call b uid _, List.mem_append_right _ (List.mem_singleton.mpr rfl), hc.symm, rfl⟩
    · have hd'' : (s.order c).orderID = some d := by cases c <;> exact hd'
      obtain ⟨k, hk, hkb⟩ := h c d hc hd''
      exact ⟨k, List.mem_append_left _ hk, hkb⟩

theorem Waits.resetAndComplete {s : App} {call : Nat} {b : Basket}
    (h : ∀ c d, c ≠ b → (s.order c).orderID = some d →
      ∃ k ∈ s.pending, k.basket = c ∧ k.isCreate = false) : Waits (s.resetAndComplete call b) := by
  intro _ c d hd
  rw [order_resetAndComplete] at hd
  split at hd
  · cases hd
  · rename_i hc
    exact h c d hc hd

/-- The outcome of a request for `c` changes the ID of no other order. -/
theorem orderID_settle (s : App) {c : Callback} (ok : Bool) {b : Basket}
    (h : c.isCreate = true → c.basket ≠ b) :
    ((s.settle c ok).order b).orderID = (s.order b).orderID := by
  cases ok with
  | false => cases c <;> rfl
  | true =>
    cases c with
    | create w =>
      have hb : b ≠ w.basket := fun he => h rfl he.symm
      simp only [settle, created, order_setOrder, if_neg hb]
      rfl
    | update w => rfl
    | history call b uid ids => rfl

theorem Waits.reply {s : App} (h : Waits s) (ht : s.trap = none) {c : Callback}
    {l₁ l₂ : List Callback} (hp : s.pending = l₁ ++ c :: l₂) (ok : Bool) :
    Waits (((s.settle c ok).answered c ok (l₁ ++ l₂)).follow c) := by
  have hrest : ∀ b d, b ≠ c.basket →
      (((s.settle c ok).answered c ok (l₁ ++ l₂)).order b).orderID = some d →
      ∃ k ∈ l₁ ++ l₂, k.basket = b ∧ k.isCreate = false := by
    intro b d hb hd
    have hd' : ((s.settle c ok).order b).orderID = some d := hd
    rw [orderID_settle s ok fun _ he => hb he.symm] at hd'
    exact waits_rest h ht hp hd' (.inr fun he => hb he.symm)
  cases c with
  | create w => exact Waits.appends hrest (appends_cases _ _ _)
  | update w => exact Waits.resetAndComplete hrest
  | history call b uid ids => exact Waits.resetAndComplete hrest

theorem Waits.step {s t : App} {e : Ev} (h : Waits s) (hs : s.step e = some t) : Waits t := by
  obtain ⟨ht, -, hf⟩ := step_cases hs
  cases hf with
  | addItem b x => exact h.congr ht (fun _ hc => hc) fun c => orderID_addItem s b c x
  | badIndex => exact .of_trap (by simp [crash])
  | removeItemAt index b i x => exact h.congr ht (fun _ hc => hc) fun c => orderID_removed s b c i x
  | textFieldDidEndEditing text =>
    exact h.congr ht (fun _ hc => hc) fun c => orderID_textFieldDidEndEditing s text c
  | checkout now =>
    have h0 : Waits { s with calls := s.calls + 1 } := h
    exact (h0.submit (cafe_turn s now)).submit (bar_turn s now)
  | reply i ok c l₁ l₂ hp => exact h.reply ht hp ok
  | session _ _ f =>
    exact h.congr ht (by rw [f.pending]; exact fun _ hc => hc) fun b => by rw [f.order]

theorem waits_reachable {s : App} (h : app.Reachable s) : Waits s := by
  refine h.invariant (fun s hl => ?_) fun _ _ _ _ hi hs => hi.step hs
  intro _ b d hd
  rw [hl.order] at hd
  cases hd

/-- With nothing pending every order is new. -/
theorem orderID_none {s : App} (h : app.Reachable s) (ht : s.trap = none) (hp : s.pending = [])
    (b : Basket) : (s.order b).orderID = none := by
  cases hd : (s.order b).orderID with
  | none => rfl
  | some d =>
    obtain ⟨c, hc, -⟩ := waits_reachable h ht b d hd
    rw [hp] at hc; cases hc

end App

end QadsCafe
