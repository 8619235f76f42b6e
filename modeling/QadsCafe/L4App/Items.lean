import QadsCafe.L4App.Refs

/-!
# The items of an order through a run

`items_step` says what one step does to the items of an order: an addition, a
deletion, the reset at the end of a callback chain (`Resets`), or nothing.
So an object is in one basket only, and once in it (`apart_reachable`).
-/
namespace QadsCafe

open Core

namespace App

/-- The step delivers a callback that ends in `resetOrder` of basket `b`. -/
def Resets (s : App) (b : Basket) (e : Ev) : Prop :=
  ∃ i ok c, e = .reply i ok ∧ s.pending[i]? = some c ∧ c.isCreate = false ∧ c.basket = b

/-- What a step does to the items of basket `b`. -/
inductive Items (s : App) (b : Basket) : Ev → List OrderItem → Prop
  | kept (e : Ev) (h : ¬ Resets s b e) : Items s b e (s.order b).items
  | added (x : OrderItem) : Items s b (.addItem b x) ((s.order b).items ++ [s.stored x])
  | removed (index i : Nat) (x : OrderItem) (h : (s.order b).items[i]? = some x) :
      Items s b (.removeItemAt index) ((s.order b).items.eraseIdx i)
  | reset (e : Ev) (h : Resets s b e) : Items s b e []

theorem not_resets {s : App} {b : Basket} {e : Ev} (he : e.isReply = false) : ¬ Resets s b e := by
  rintro ⟨i, ok, c, rfl, -⟩
  cases he

theorem resets_iff {s : App} {b : Basket} {i : Nat} {ok : Bool} {c : Callback}
    (hc : s.pending[i]? = some c) :
    Resets s b (.reply i ok) ↔ c.isCreate = false ∧ c.basket = b := by
  constructor
  · rintro ⟨j, ok', c', he, hc', h⟩
    cases he
    rw [hc] at hc'; cases hc'
    exact h
  · rintro ⟨h, hb⟩
    exact ⟨i, ok, c, rfl, hc, h, hb⟩

theorem items_setOrder {s : App} {b c : Basket} {o : Order} (h : o.items = (s.order b).items) :
    ((s.setOrder b o).order c).items = (s.order c).items := by
  rw [order_setOrder]
  split
  · rename_i hc; subst hc; exact h
  · rfl

theorem Submit.items {s t : App} {call : Nat} {now : Basket → Date} {b : Basket}
    (h : Submit s call now b t) (c : Basket) : (t.order c).items = (s.order c).items := by
  cases h with
  | skip => rfl
  | trap => rfl
  | create => exact items_setOrder (s := { s with nextID := s.nextID + 1 }) rfl
  | update _ _ _ doc => exact items_setOrder rfl

theorem items_checkout (s : App) (now : Basket → Date) (b : Basket) :
    ((s.checkout now).order b).items = (s.order b).items :=
  ((bar_turn s now).items b).trans ((cafe_turn s now).items b)

theorem items_settle (s : App) (c : Callback) (ok : Bool) (b : Basket) :
    ((s.settle c ok).order b).items = (s.order b).items := by
  cases ok with
  | false => cases c <;> rfl
  | true =>
    cases c with
    | create w => exact items_setOrder (s := s.store w) rfl
    | _ => rfl

/-- A closure resets its own order or changes none. -/
theorem order_follow (s : App) (c : Callback) (b : Basket) :
    (s.follow c).order b =
      if c.isCreate = false ∧ c.basket = b then {} else s.order b := by
  have hreset : ∀ call b', (s.resetAndComplete call b').order b = if b' = b then {} else s.order b := by
    intro call b'
    rw [order_resetAndComplete]
    by_cases hb : b = b'
    · subst hb; simp
    · rw [if_neg hb, if_neg (Ne.symm hb)]
  cases c with
  | create w =>
    rw [if_neg (by simp [Callback.isCreate])]
    refine follow_create s w fun t ha => ?_
    cases ha with
    | skip => rfl
    | trap doc => exact order_append s b doc
    | issue doc uid => exact order_append s b doc
  | update w =>
    simp only [Callback.isCreate, true_and]
    exact hreset w.call w.basket
  | history call b' uid ids =>
    simp only [Callback.isCreate, true_and]
    exact hreset call b'

theorem items_follow (s : App) (c : Callback) (b : Basket) :
    ((s.follow c).order b).items =
      if c.isCreate = false ∧ c.basket = b then [] else (s.order b).items := by
  rw [order_follow]
  split <;> rfl

theorem items_step {s t : App} {e : Ev} (hs : s.step e = some t) (b : Basket) :
    Items s b e (t.order b).items := by
  have hf := (step_cases hs).2.2
  cases hf with
  | addItem c x =>
    rw [order_addItem]
    split
    · rename_i hb; subst hb; exact .added x
    · exact .kept _ (not_resets rfl)
  | badIndex => exact .kept _ (not_resets rfl)
  | removeItemAt index c i x hx =>
    rw [order_removed]
    split
    · rename_i hb; subst hb; exact .removed index i x hx
    · exact .kept _ (not_resets rfl)
  | textFieldDidEndEditing text =>
    cases b <;> exact .kept _ (not_resets rfl)
  | checkout now => rw [items_checkout]; exact .kept _ (not_resets rfl)
  | session _ he f =>
    rw [f.order]
    refine .kept _ (not_resets ?_)
    cases e <;> first | rfl | cases he
  | reply i ok c l₁ l₂ hp =>
    obtain ⟨k, m₁, m₂, hk, hi, ht⟩ := reply_cases hs
    have hget : s.pending[i]? = some k := by rw [hk, hi]; simp
    rw [ht, items_follow]
    show Items s b (.reply i ok) (if k.isCreate = false ∧ k.basket = b then []
      else ((s.settle k ok).order b).items)
    rw [items_settle]
    split
    · rename_i h; exact .reset _ ((resets_iff hget).mpr h)
    · rename_i h; exact .kept _ fun hr => h ((resets_iff hget).mp hr)

end App

/-- The user adds an item or deletes one. -/
def Ev.isEdit : Ev → Bool
  | .addItem .. | .removeItemAt _ => true
  | _ => false

namespace App

/-- Between edits an order keeps its items or is reset. -/
theorem items_unedited {s t : App} {e : Ev} (hs : s.step e = some t) (he : e.isEdit = false)
    (b : Basket) : (¬ Resets s b e ∧ (t.order b).items = (s.order b).items) ∨
      (Resets s b e ∧ (t.order b).items = []) := by
  have hi := items_step hs b
  generalize (t.order b).items = l at hi
  cases hi with
  | kept _ h => exact .inl ⟨h, rfl⟩
  | added x => cases he
  | removed index i x => cases he
  | reset _ h => exact .inr ⟨h, rfl⟩

/-! ## Each object is in one place -/

structure Apart (s : App) : Prop where
  once : ∀ b, (s.refs b).Nodup
  apart : ∀ r b c, r ∈ s.refs b → r ∈ s.refs c → b = c

/-- Without an addition the baskets lose objects at most. -/
theorem Apart.mono {s t : App} (h : Apart s) (hr : ∀ b, (t.refs b).Sublist (s.refs b)) : Apart t :=
  ⟨fun b => (hr b).nodup (h.once b),
    fun r b c hb hc => h.apart r b c ((hr b).subset hb) ((hr c).subset hc)⟩

theorem Apart.addItem {s : App} (h : Apart s) (hrefs : Refs s) (b : Basket) (x : OrderItem) :
    Apart (s.addItem b x) := by
  have hfresh : ∀ c, s.nextRef ∉ s.refs c := fun c hc => by
    have := hrefs.basket c _ hc; omega
  have hmem : ∀ c r, r ∈ (s.addItem b x).refs c → r ∈ s.refs c ∨ (r = s.nextRef ∧ c = b) := by
    intro c r hr
    rw [refs_addItem] at hr
    split at hr
    · rename_i hc
      rcases List.mem_append.mp hr with hr | hr
      · exact .inl hr
      · exact .inr ⟨List.mem_singleton.mp hr, hc⟩
    · exact .inl hr
  refine ⟨fun c => ?_, fun r c c' hc hc' => ?_⟩
  · rw [refs_addItem]
    split
    · rw [List.nodup_append]
      refine ⟨h.once c, List.nodup_singleton _, fun q hq q' hq' he => ?_⟩
      rw [he, List.mem_singleton.mp hq'] at hq
      exact hfresh c hq
    · exact h.once c
  · rcases hmem c r hc with hr | ⟨he, hb⟩ <;> rcases hmem c' r hc' with hr' | ⟨he', hb'⟩
    · exact h.apart r c c' hr hr'
    · rw [he'] at hr; exact absurd hr (hfresh c)
    · rw [he] at hr'; exact absurd hr' (hfresh c')
    · rw [hb, hb']

theorem Apart.step {s t : App} {e : Ev} (h : Apart s) (hrefs : Refs s) (hs : s.step e = some t) :
    Apart t := by
  by_cases he : ∃ b x, e = .addItem b x
  · obtain ⟨b, x, rfl⟩ := he
    rw [(step_iff.mp hs).2.2]
    exact h.addItem hrefs b x
  · refine h.mono fun b => ?_
    have hi := items_step hs b
    unfold refs
    generalize (t.order b).items = l at hi
    cases hi with
    | kept => exact List.Sublist.refl _
    | added x => exact absurd ⟨b, x, rfl⟩ he
    | removed index i x => exact (List.eraseIdx_sublist _ _).map _
    | reset => exact List.nil_sublist _

theorem apart_reachable {s : App} (h : app.Reachable s) : Apart s := by
  refine h.invariant (fun s hl => ?_) fun _ _ _ hr hi hs => hi.step (refs_reachable hr) hs
  have hnil : ∀ b, s.refs b = [] := fun b => by rw [refs, hl.order]; rfl
  refine ⟨fun b => ?_, fun r b c hb => ?_⟩
  · rw [hnil]; exact List.nodup_nil
  · rw [hnil] at hb; cases hb

end App

end QadsCafe
