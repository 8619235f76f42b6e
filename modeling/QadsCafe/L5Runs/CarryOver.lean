import QadsCafe.L4App.Items
import QadsCafe.L5Runs.Totals
import QadsCafe.L5Runs.Twins

/-!
# What one checkout leaves to the next

The note of the basket footer is written to both orders; `checkout` sends, and
later resets, only those with items. The other order keeps the note and sends
it with the next items put in it (`note_carried_over`).

`NoNoteLeft` leaves exactly those checkouts out. After a checkout that settled
both orders are as new, but for a note that was left (`Settles.core`), so two
apps that are used the same way from then on are `Twin`s.
-/
namespace QadsCafe

open Core

def Order.marks (o : Order) : Bool × Bool × Bool × Option String :=
  (o.archived, o.cancelled, o.flagged, o.userCRSID)

namespace App

/-- A checkout whose writes, and all others in flight, succeeded and were
delivered. -/
structure Settles (s : App) (now : Basket → Date) (t : App) : Prop where
  reachable : app.Reachable s
  run : ∃ ls, app.Run s (.checkout now :: ls) t ∧ ∀ e ∈ ls, ∃ i, e = .reply i true
  trap : t.trap = none
  pending : t.pending = []

/-- `checkout` sends nothing for the order, and no reset of it is on its way. -/
def LeftOut (s : App) (b : Basket) : Prop :=
  (s.order b).items = [] ∧ ∀ c ∈ s.pending, c.basket ≠ b

/-- `checkout` leaves out no order with a note. -/
def NoNoteLeft (s : App) : Prop := ∀ b, LeftOut s b → (s.order b).note = none

/-- The same acts from both states, at any times, write the same documents, as
long as nobody signs in or out. -/
def SameDocuments (t₁ t₂ : App) : Prop :=
  ∀ ls₁ ls₂ u₁, ls₁.map Ev.untimed = ls₂.map Ev.untimed → (∀ e ∈ ls₁, e.isSession = false) →
    app.Run t₁ ls₁ u₁ → ∃ u₂, app.Run t₂ ls₂ u₂ ∧ SameDocs t₁ t₂ u₁.orders u₂.orders

/-- Every note on its way to a document was entered since `t`. -/
def NotesFresh (t : App) : Prop :=
  ∀ ls u, app.Run t ls u → ∀ c ∈ u.pending, ∀ w, c.write? = some w → ∀ n, w.data.note = some n →
    .textFieldDidEndEditing (some n) ∈ ls

/-! ## What a step does to the rest of an order -/

/-- Marks and note are kept, or the note is entered, or the order is reset. -/
def Retained (e : Ev) (o o' : Order) : Prop :=
  o' = {} ∨ (o'.marks = o.marks ∧ (o'.note = o.note ∨ e = .textFieldDidEndEditing o'.note))

theorem Retained.of_eq {e : Ev} {o o' : Order} (hm : o'.marks = o.marks) (hn : o'.note = o.note) :
    Retained e o o' := .inr ⟨hm, .inl hn⟩

theorem retained_setOrder {s : App} {b : Basket} {o : Order} (hm : o.marks = (s.order b).marks)
    (hn : o.note = (s.order b).note) (c : Basket) :
    ((s.setOrder b o).order c).marks = (s.order c).marks ∧
      ((s.setOrder b o).order c).note = (s.order c).note := by
  rw [order_setOrder]
  split
  · rename_i hc; subst hc; exact ⟨hm, hn⟩
  · exact ⟨rfl, rfl⟩

theorem Submit.retained {s t : App} {call : Nat} {now : Basket → Date} {b : Basket}
    (h : Submit s call now b t) (c : Basket) :
    (t.order c).marks = (s.order c).marks ∧ (t.order c).note = (s.order c).note := by
  cases h with
  | skip => exact ⟨rfl, rfl⟩
  | trap => exact ⟨rfl, rfl⟩
  | create =>
    exact retained_setOrder (s := { s with nextID := s.nextID + 1 }) (b := b)
      (o := s.savedOrder (now b) b)
      rfl rfl c
  | update _ _ _ doc => exact retained_setOrder (s := s) (b := b) (o := s.updatedOrder b) rfl rfl c

theorem settle_retained (s : App) (c : Callback) (ok : Bool) (b : Basket) :
    ((s.settle c ok).order b).marks = (s.order b).marks ∧
      ((s.settle c ok).order b).note = (s.order b).note := by
  cases ok with
  | false => cases c <;> exact ⟨rfl, rfl⟩
  | true =>
    cases c with
    | create w =>
      exact retained_setOrder (s := s.store w) (b := w.basket)
        (o := { s.order w.basket with orderID := some w.doc }) rfl rfl b
    | _ => exact ⟨rfl, rfl⟩

theorem retained_step {s t : App} {e : Ev} (hs : s.step e = some t) (b : Basket) :
    Retained e (s.order b) (t.order b) := by
  have hf := (step_cases hs).2.2
  cases hf with
  | addItem c x =>
    obtain ⟨hm, hn⟩ :=
      retained_setOrder (s := s) (b := c) (o := (s.order c).addItem (s.stored x)) rfl rfl b
    exact .of_eq hm hn
  | badIndex => exact .of_eq rfl rfl
  | removeItemAt index c i x =>
    obtain ⟨hm, hn⟩ := retained_setOrder (s := s) (b := c) (o := { s.order c with
      price := (s.order c).price - x.price
      items := (s.order c).items.eraseIdx i }) rfl rfl b
    exact .of_eq hm hn
  | textFieldDidEndEditing text => cases b <;> exact .inr ⟨rfl, .inr rfl⟩
  | checkout now =>
    obtain ⟨hm₁, hn₁⟩ := (cafe_turn s now).retained b
    obtain ⟨hm₂, hn₂⟩ := (bar_turn s now).retained b
    exact .of_eq (hm₂.trans hm₁) (hn₂.trans hn₁)
  | reply i ok c l₁ l₂ =>
    rw [order_follow]
    split
    · exact .inl rfl
    · obtain ⟨hm, hn⟩ := settle_retained s c ok b
      exact .of_eq hm hn
  | session _ _ f => rw [f.order]; exact .of_eq rfl rfl

theorem marks_reachable {s : App} (h : app.Reachable s) (b : Basket) :
    (s.order b).marks = ({} : Order).marks := by
  refine h.invariant (I := fun s => (s.order b).marks = ({} : Order).marks) (fun s hl => ?_)
    fun u e v _ hu hs => ?_
  · rw [hl.order]
  · rcases retained_step hs b with hv | ⟨hm, -⟩
    · rw [hv]
    · rw [hm]; exact hu

/-! ## The settled checkout -/

theorem pending_follow (s : App) (c : Callback) :
    s.pending ⊆ (s.follow c).pending ∧
      ∀ k ∈ (s.follow c).pending, k ∈ s.pending ∨ k.basket = c.basket := by
  cases c with
  | create w =>
    refine follow_create s w fun t ha => ?_
    cases ha with
    | skip => exact ⟨List.Subset.refl _, fun _ hk => .inl hk⟩
    | trap doc => exact ⟨List.Subset.refl _, fun _ hk => .inl hk⟩
    | issue doc uid =>
      refine ⟨List.subset_append_left _ _, fun k hk => ?_⟩
      rcases (mem_issue _).mp hk with hk | rfl
      · exact .inl hk
      · exact .inr rfl
  | _ => exact ⟨List.Subset.refl _, fun _ hk => .inl hk⟩

/-- What is pending after a reply: what was, and a history write at most. -/
theorem mem_pending_reply {s : App} {c : Callback} {ok : Bool} {rest : List Callback} {k : Callback}
    (hk : k ∈ (((s.settle c ok).answered c ok rest).follow c).pending) :
    k ∈ rest ∨ ∃ call b uid ids, k = .history call b uid ids := by
  cases c with
  | create w =>
    have ha := appends_cases ((s.settle (.create w) ok).answered (.create w) ok rest) w.call w.basket
    simp only [App.follow] at hk
    generalize App.addToPreviousOrders _ w.call w.basket = t at ha hk
    cases ha with
    | skip => exact .inl hk
    | trap doc => exact .inl hk
    | issue doc uid =>
      rcases (mem_issue _).mp hk with hk | rfl
      · exact .inl hk
      · exact .inr ⟨_, _, _, _, rfl⟩
  | _ => exact .inl hk

theorem order_settle {s : App} {c : Callback} {b : Basket} (h : c.basket ≠ b) (ok : Bool) :
    (s.settle c ok).order b = s.order b := by
  cases ok with
  | false => cases c <;> rfl
  | true =>
    cases c with
    | create w =>
      show ((s.store w).setOrder w.basket _).order b = _
      have hb : b ≠ w.basket := Ne.symm h
      rw [order_setOrder, if_neg hb]
      rfl
    | _ => rfl

/-- A delivery for another order leaves order `b` and its callbacks alone. -/
theorem reply_other {s t : App} {i : Nat} {ok : Bool} (hs : s.step (.reply i ok) = some t)
    {c : Callback} (hc : s.pending[i]? = some c) {b : Basket} (hb : c.basket ≠ b) :
    t.order b = s.order b ∧ ∀ k : Callback, k.basket = b → (k ∈ t.pending ↔ k ∈ s.pending) := by
  obtain ⟨c', l₁, l₂, hp, hi, rfl⟩ := reply_cases hs
  obtain rfl : c' = c := by
    rw [hp, hi] at hc
    simpa using hc
  refine ⟨?_, fun k hk => ?_⟩
  · rw [order_follow, if_neg fun h => hb h.2]
    exact order_settle hb ok
  · obtain ⟨hsub, hnew⟩ := pending_follow ((s.settle c' ok).answered c' ok (l₁ ++ l₂)) c'
    constructor
    · intro hk'
      rcases hnew k hk' with hk' | hk'
      · exact rest_subset hp hk'
      · exact absurd (hk'.symm.trans hk) hb
    · intro hk'
      apply hsub
      show k ∈ l₁ ++ l₂
      rw [hp] at hk'
      simp only [List.mem_append, List.mem_cons] at hk' ⊢
      rcases hk' with hk' | rfl | hk'
      · exact .inl hk'
      · exact absurd hk hb
      · exact .inr hk'

/-- A successful delivery for order `b` resets it, or leaves its history write
in flight. -/
theorem reply_own {s t : App} {i : Nat} (hs : s.step (.reply i true) = some t)
    (hu : s.user.uid.isSome = true) {c : Callback} (hc : s.pending[i]? = some c) :
    t.order c.basket = {} ∨ ∃ k ∈ t.pending, k.basket = c.basket := by
  obtain ⟨c', l₁, l₂, hp, hi, rfl⟩ := reply_cases hs
  obtain rfl : c' = c := by
    rw [hp, hi] at hc
    simpa using hc
  cases c' with
  | create w =>
    obtain ⟨uid, huid⟩ := Option.isSome_iff_exists.mp hu
    have hstep := create_step (step_iff.mp hs).1 huid hp
    rw [reply_step (step_iff.mp hs).1 hp true, Option.some.injEq] at hstep
    rw [hstep]
    exact .inr ⟨_, (mem_issue _).mpr (.inr rfl), rfl⟩
  | update w =>
    left
    rw [order_follow, if_pos ⟨rfl, rfl⟩]
  | history call b uid ids =>
    left
    rw [order_follow, if_pos ⟨rfl, rfl⟩]

theorem reply_get {s t : App} {i : Nat} {ok : Bool} (hs : s.step (.reply i ok) = some t) :
    ∃ c ∈ s.pending, s.pending[i]? = some c := by
  obtain ⟨c, l₁, l₂, hp, hi, -⟩ := reply_cases hs
  exact ⟨c, mem_of_split hp, by rw [hp, hi]; simp⟩

section
variable {s t : App} {ls : List Ev} (hr : app.Run s ls t) (hls : ∀ e ∈ ls, ∃ i, e = .reply i true)
include hr hls

theorem account_delivered : t.account = s.account := by
  refine hr.invariant (I := fun u => u.account = s.account) (P := fun e => ∃ i, e = .reply i true)
    (fun u e v he hu hs => ?_) hls rfl
  obtain ⟨i, rfl⟩ := he
  exact (account_reply hs).trans hu

/-- Once all is delivered, an order something was pending for is reset. -/
theorem reset_delivered (hu : s.user.uid.isSome = true) (ht : t.pending = []) {b : Basket}
    (h : ∃ c ∈ s.pending, c.basket = b) : t.order b = {} := by
  have hend : t.user.uid.isSome = true ∧ (t.order b = {} ∨ ∃ c ∈ t.pending, c.basket = b) := by
    refine hr.invariant (I := fun u => u.user.uid.isSome = true ∧
      (u.order b = {} ∨ ∃ c ∈ u.pending, c.basket = b)) (P := fun e => ∃ i, e = .reply i true)
      (fun u e v he hu hs => ?_) hls ⟨hu, .inr h⟩
    obtain ⟨i, rfl⟩ := he
    have huid : v.user.uid = u.user.uid := congrArg (fun a => a.2.1) (account_reply hs)
    refine ⟨by rw [huid]; exact hu.1, ?_⟩
    obtain ⟨c, -, hc⟩ := reply_get hs
    by_cases hb : c.basket = b
    · subst hb
      exact reply_own hs hu.1 hc
    · obtain ⟨hord, hpend⟩ := reply_other hs hc hb
      rcases hu.2 with hnil | ⟨k, hk, hkb⟩
      · exact .inl (hord.trans hnil)
      · exact .inr ⟨k, (hpend k hkb).mpr hk, hkb⟩
  rcases hend.2 with hnil | ⟨c, hc, -⟩
  · exact hnil
  · rw [ht] at hc; cases hc

/-- An order nothing is pending for stays as it is. -/
theorem same_delivered {b : Basket} (h : ∀ c ∈ s.pending, c.basket ≠ b) : t.order b = s.order b := by
  have hend : (∀ c ∈ t.pending, c.basket ≠ b) ∧ t.order b = s.order b := by
    refine hr.invariant (I := fun u => (∀ c ∈ u.pending, c.basket ≠ b) ∧ u.order b = s.order b)
      (P := fun e => ∃ i, e = .reply i true) (fun u e v he hu hs => ?_) hls ⟨h, rfl⟩
    obtain ⟨i, rfl⟩ := he
    obtain ⟨c, hmem, hc⟩ := reply_get hs
    obtain ⟨hord, hpend⟩ := reply_other hs hc (hu.1 c hmem)
    refine ⟨fun k hk hkb => ?_, hord.trans hu.2⟩
    exact hu.1 k ((hpend k hkb).mp hk) hkb
  exact hend.2

end

/-- `checkout` does nothing to an order without items. -/
theorem Submit.empty {s t : App} {call : Nat} {now : Basket → Date} {b' : Basket}
    (h : Submit s call now b' t) {b : Basket} (hi : (s.order b).items = []) :
    t.order b = s.order b ∧ ∀ c : Callback, c.basket = b → c ∈ t.pending → c ∈ s.pending := by
  by_cases hb : b = b'
  · subst hb
    cases h with
    | skip => exact ⟨rfl, fun _ _ hc => hc⟩
    | trap => exact ⟨rfl, fun _ _ hc => hc⟩
    | create _ hne => exact absurd hi hne
    | update _ hne => exact absurd hi hne
  · exact ⟨h.turn.order b hb, fun c hc hm => h.turn.other hm (by rw [hc]; exact hb)⟩

theorem checkout_empty {s : App} (now : Basket → Date) {b : Basket} (hi : (s.order b).items = []) :
    (s.checkout now).order b = s.order b ∧
      ∀ c : Callback, c.basket = b → c ∈ (s.checkout now).pending → c ∈ s.pending := by
  have hcafe := (cafe_turn s now).empty (b := b) hi
  have hbar := (bar_turn s now).empty (b := b) (((cafe_turn s now).items b).trans hi)
  exact ⟨hbar.1.trans hcafe.1, fun c hb hc => hcafe.2 c hb (hbar.2 c hb hc)⟩

namespace Settles

variable {s t : App} {now : Basket → Date}

theorem trap_checkout (h : Settles s now t) : (s.checkout now).trap = none := by
  obtain ⟨ls, hr, -⟩ := h.run
  cases hr with
  | cons hs hr =>
    obtain ⟨-, -, rfl⟩ := step_iff.mp hs
    cases hr with
    | nil => exact h.trap
    | cons hs' _ => exact (step_iff.mp hs').1

theorem delivered (h : Settles s now t) : ∃ ls, app.Run (s.checkout now) ls t ∧
    (∀ e ∈ ls, ∃ i, e = .reply i true) ∧ (s.checkout now).user.uid.isSome = true := by
  obtain ⟨ls, hr, hls⟩ := h.run
  cases hr with
  | cons hs hr =>
    obtain ⟨-, he, rfl⟩ := step_iff.mp hs
    refine ⟨ls, hr, hls, ?_⟩
    show (s.checkout now).user.uid.isSome = true
    rw [(bar_turn s now).turn.uid, (cafe_turn s now).turn.uid]
    exact he

theorem uid (h : Settles s now t) : t.user.uid.isSome = true := by
  obtain ⟨ls, hr, hls, hu⟩ := h.delivered
  have huid : t.user.uid = (s.checkout now).user.uid :=
    congrArg (fun a => a.2.1) (account_delivered hr hls)
  rw [huid]; exact hu

theorem reachable_end (h : Settles s now t) : app.Reachable t := by
  obtain ⟨ls, hr, -⟩ := h.run
  exact h.reachable.run hr

theorem left (h : Settles s now t) {b : Basket} (hl : LeftOut s b) : t.order b = s.order b := by
  obtain ⟨ls, hr, hls, -⟩ := h.delivered
  obtain ⟨hord, hpend⟩ := checkout_empty now hl.1
  rw [same_delivered hr hls fun c hc hb => hl.2 c (hpend c hb hc) hb]
  exact hord

theorem reset (h : Settles s now t) {b : Basket} (hl : ¬ LeftOut s b) : t.order b = {} := by
  obtain ⟨ls, hr, hls, hu⟩ := h.delivered
  refine reset_delivered hr hls hu h.pending ?_
  by_cases hi : (s.order b).items = []
  · have hex : ∃ c ∈ s.pending, c.basket = b := by
      by_contra hn
      exact hl ⟨hi, fun c hc hb => hn ⟨c, hc, hb⟩⟩
    obtain ⟨c, hc, hb⟩ := hex
    have hsub := List.Subset.trans (cafe_turn s now).turn.subset (bar_turn s now).turn.subset
    exact ⟨c, hsub hc, hb⟩
  · obtain ⟨c, w, hsent, hc, -⟩ := checkout_sent h.trap_checkout hi
    refine ⟨c, hc, ?_⟩
    rw [← hsent.basket]
    have hw := hsent.write
    cases c with
    | history => cases hw
    | _ => cases hw; rfl

theorem items (h : Settles s now t) (b : Basket) : (t.order b).items = [] := by
  by_cases hl : LeftOut s b
  · rw [h.left hl]; exact hl.1
  · rw [h.reset hl]

/-- An order after the checkout: as new, but for a note that was left. -/
theorem core (h : Settles s now t) (b : Basket) :
    (t.order b).core = { ({} : Order) with note := (t.order b).note } := by
  have hi := h.items b
  have hp : (t.order b).price = 0 := by
    have hsum : (t.order b).price = prices (t.order b).items := (summed_reachable h.reachable_end).order b
    rw [hsum, hi]; rfl
  have hm := marks_reachable h.reachable_end b
  simp only [Order.marks, Prod.mk.injEq] at hm
  obtain ⟨h1, h2, h3, h4⟩ := hm
  simp only [Order.core, Order.bare, hi, hp, h1, h2, h3, h4, List.map_nil]

theorem note_iff (h : Settles s now t) : (∀ b, (t.order b).note = none) ↔ NoNoteLeft s := by
  constructor
  · intro hn b hl
    rw [← h.left hl]; exact hn b
  · intro hn b
    by_cases hl : LeftOut s b
    · rw [h.left hl]; exact hn b hl
    · rw [h.reset hl]

end Settles

/-- Two settled checkouts that left no note are the same start. -/
theorem twin_of_settled {s₁ s₂ t₁ t₂ : App} {now₁ now₂ : Basket → Date} (h₁ : Settles s₁ now₁ t₁)
    (h₂ : Settles s₂ now₂ t₂) (ha : t₁.account = t₂.account) (hn₁ : NoNoteLeft s₁)
    (hn₂ : NoNoteLeft s₂) : Twin t₁ t₂ t₁ t₂ := by
  have hfree : ∀ {t : App}, app.Reachable t → ∀ k, t.orders (t.nextID + k) = none := by
    intro t ht k
    cases ho : t.orders (t.nextID + k) with
    | none => rfl
    | some w =>
      have := (docs_reachable ht).stored _ w ho
      omega
  refine ⟨h₁.trap.trans h₂.trap.symm, ha, fun b => ?_, ?_, ⟨0, rfl, rfl⟩, fun k => ?_, fun _ _ => rfl,
    fun _ _ => rfl⟩
  · refine .refl_core ?_ (orderID_none h₁.reachable_end h₁.trap h₁.pending b)
      (orderID_none h₂.reachable_end h₂.trap h₂.pending b)
    rw [h₁.core b, h₂.core b, h₁.note_iff.mpr hn₁ b, h₂.note_iff.mpr hn₂ b]
  · rw [h₁.pending, h₂.pending]; exact .nil
  · rw [hfree h₁.reachable_end, hfree h₂.reachable_end]

/-! ## Notes -/

/-- Every note in an order or in flight is one of `N`. -/
structure Noted (N : String → Prop) (s : App) : Prop where
  order : ∀ b n, (s.order b).note = some n → N n
  pending : ∀ c ∈ s.pending, ∀ w, c.write? = some w → ∀ n, w.data.note = some n → N n

theorem Noted.submit {N : String → Prop} {s t : App} {call : Nat} {now : Basket → Date} {b : Basket}
    (h : Noted N s) (hs : Submit s call now b t) : Noted N t := by
  refine ⟨fun c n hn => h.order c n (by rw [← (hs.retained c).2]; exact hn), fun c hc w hw n hn => ?_⟩
  cases hs with
  | skip => exact h.pending c hc w hw n hn
  | trap => exact h.pending c hc w hw n hn
  | create =>
    rcases (mem_issue _).mp hc with hc | rfl
    · exact h.pending c hc w hw n hn
    · cases hw; exact h.order b n hn
  | update _ _ _ doc =>
    rcases (mem_issue _).mp hc with hc | rfl
    · exact h.pending c hc w hw n hn
    · cases hw; exact h.order b n hn

theorem Noted.step {N : String → Prop} {s t : App} {e : Ev} (h : Noted N s) (hs : s.step e = some t)
    (hN : ∀ n, e = .textFieldDidEndEditing (some n) → N n) : Noted N t := by
  have horder : ∀ b n, (t.order b).note = some n → N n := by
    intro b n hn
    rcases retained_step hs b with ht | ⟨-, ht | ht⟩
    · rw [ht] at hn; cases hn
    · exact h.order b n (by rw [← ht]; exact hn)
    · rw [hn] at ht; exact hN n ht
  refine ⟨horder, ?_⟩
  have hf := (step_cases hs).2.2
  cases hf with
  | checkout now =>
    have h0 : Noted N { s with calls := s.calls + 1 } := ⟨h.order, h.pending⟩
    exact ((h0.submit (cafe_turn s now)).submit (bar_turn s now)).pending
  | reply i ok c l₁ l₂ hp =>
    intro k hk w hw
    rcases mem_pending_reply hk with hk | ⟨call, b, uid, ids, rfl⟩
    · exact h.pending k (rest_subset hp hk) w hw
    · cases hw
  | session _ _ f => rw [f.pending]; exact h.pending
  | _ => exact h.pending

theorem Settles.notesFresh {s t : App} {now : Basket → Date} (h : Settles s now t)
    (hn : NoNoteLeft s) : NotesFresh t := by
  intro ls u hr
  have h0 : Noted (fun n => .textFieldDidEndEditing (some n) ∈ ls) t := by
    refine ⟨fun b n hb => ?_, fun c hc => ?_⟩
    · rw [h.note_iff.mpr hn b] at hb; cases hb
    · rw [h.pending] at hc; cases hc
  have hend := hr.invariant (I := Noted fun n => .textFieldDidEndEditing (some n) ∈ ls)
    (P := fun e => e ∈ ls) (fun u e v he hu hs => hu.step hs fun n hen => hen ▸ he) (fun _ he => he) h0
  exact hend.pending

/-- A note that was left is sent with the next item of its order. -/
theorem Settles.noNoteLeft {s t : App} {now : Basket → Date} (h : Settles s now t)
    (hf : NotesFresh t) : NoNoteLeft s := by
  rw [← h.note_iff]
  intro b
  cases hn : (t.order b).note with
  | none => rfl
  | some n =>
    let x := plainItem "tea" "Cafe"
    have hadd : t.step (.addItem b x) = some (t.addItem b x) := step_iff.mpr ⟨h.trap, h.uid, rfl⟩
    have huid : (t.addItem b x).user.uid.isSome = true := by
      rw [show (t.addItem b x).user.uid = t.user.uid from User.uid_setOrder _ _ _]
      exact h.uid
    have hsend : (t.addItem b x).step (.checkout now) = some ((t.addItem b x).checkout now) :=
      step_iff.mpr ⟨h.trap, huid, rfl⟩
    have hitems : ∀ c, ((t.addItem b x).order c).items = if c = b then [t.stored x] else [] := by
      intro c
      rw [order_addItem]
      split
      · show (t.order b).items ++ [t.stored x] = _
        rw [h.items b]; rfl
      · exact h.items c
    have hencode : ∀ c, Encodable ((t.addItem b x).order c).items := by
      intro c y hy
      rw [hitems] at hy
      split at hy
      · rw [List.mem_singleton.mp hy]
        exact Int.le_refl 1
      · cases hy
    have hne : ((t.addItem b x).order b).items ≠ [] := by rw [hitems, if_pos rfl]; simp
    obtain ⟨c, w, hsent, hc, -⟩ := checkout_sent ((checkout_trap now hencode).trans h.trap) hne
    have hnote : w.data.note = some n := by
      rw [hsent.note, order_addItem, if_pos rfl]
      exact hn
    have hmem := hf _ _ (.cons hadd (.cons hsend (.nil _))) c hc w hsent.write n hnote
    simp at hmem

/-- **Nothing carries over** from two settled checkouts of one account iff
neither left a note in an order it did not send. -/
theorem carries_nothing_iff {s₁ s₂ t₁ t₂ : App} {now₁ now₂ : Basket → Date}
    (h₁ : Settles s₁ now₁ t₁) (h₂ : Settles s₂ now₂ t₂) (ha : t₁.account = t₂.account) :
    (SameDocuments t₁ t₂ ∧ NotesFresh t₁ ∧ NotesFresh t₂) ↔ NoNoteLeft s₁ ∧ NoNoteLeft s₂ := by
  constructor
  · rintro ⟨-, hf₁, hf₂⟩
    exact ⟨h₁.noNoteLeft hf₁, h₂.noNoteLeft hf₂⟩
  · rintro ⟨hn₁, hn₂⟩
    refine ⟨fun ls₁ ls₂ u₁ hls hn hr => ?_, h₁.notesFresh hn₁, h₂.notesFresh hn₂⟩
    obtain ⟨u₂, hr₂, hu⟩ := (twin_of_settled h₁ h₂ ha hn₁ hn₂).run hls hn hr
    exact ⟨u₂, hr₂, hu.docs⟩

/-- A tea, with a note or without. -/
def teaWith (note : Option String) : List Ev :=
  signUp ++ [.addItem .cafe (plainItem "tea" "Cafe"), .textFieldDidEndEditing note]

def delivered : List Ev := [.checkout fun _ => 0, .reply 0 true, .reply 0 true]

theorem delivered_replies : ∀ e ∈ delivered.tail, ∃ i, e = .reply i true := by
  intro e he
  simp only [delivered, List.tail_cons, List.mem_cons, List.not_mem_nil, or_false, or_self] at he
  exact ⟨0, he⟩

theorem teaWith_settles : ∃ s t, Settles s (fun _ => 0) t ∧ NoNoteLeft s ∧
    ((SameDocuments t t ∧ NotesFresh t ∧ NotesFresh t) ↔ NoNoteLeft s ∧ NoNoteLeft s) := by
  obtain ⟨s, hs, hnote, t, ht, htrap, hp⟩ : ∃ s, app.Run {} (teaWith none) s ∧
      (s.user.cafeOrder.note = none ∧ s.user.barOrder.note = none) ∧
      ∃ t, app.Run s delivered t ∧ t.trap = none ∧ t.pending = [] :=
    ⟨_, LTS.run_of_exec rfl, ⟨rfl, rfl⟩, _, LTS.run_of_exec rfl, rfl, rfl⟩
  have h : Settles s (fun _ => 0) t :=
    ⟨hs.reachable launch_default, ⟨_, ht, delivered_replies⟩, htrap, hp⟩
  refine ⟨s, t, h, fun b _ => ?_, carries_nothing_iff h h rfl⟩
  cases b with
  | cafe => exact hnote.1
  | bar => exact hnote.2

/-- An ale, ordered later. -/
def aleLater : List Ev := [.addItem .bar (plainItem "ale" "Bar"), .checkout fun _ => 1, .reply 0 true]

/-- **A note carries over.** It was entered for the tea and is sent with the ale. -/
theorem note_carried_over : ∃ s₁ s₂ t₁ t₂, Settles s₁ (fun _ => 0) t₁ ∧ Settles s₂ (fun _ => 0) t₂ ∧
    t₁.account = t₂.account ∧ ¬ SameDocuments t₁ t₂ ∧ ¬ NotesFresh t₁ := by
  have h₁ : app.Run {} (teaWith (some "no milk")) _ := LTS.run_of_exec rfl
  have h₂ : app.Run {} (teaWith none) _ := LTS.run_of_exec rfl
  have hs₁ : Settles _ (fun _ => 0) _ :=
    ⟨h₁.reachable launch_default, ⟨_, LTS.run_of_exec rfl, delivered_replies⟩, rfl, rfl⟩
  have hs₂ : Settles _ (fun _ => 0) _ :=
    ⟨h₂.reachable launch_default, ⟨_, LTS.run_of_exec rfl, delivered_replies⟩, rfl, rfl⟩
  refine ⟨_, _, _, _, hs₁, hs₂, rfl, ?_, ?_⟩
  · intro h
    obtain ⟨u₂, hr₂, hdocs⟩ := h aleLater aleLater _ rfl (by decide) (LTS.run_of_exec rfl)
    cases LTS.exec_of_run hr₂
    have hnote := congrArg (Option.map (·.note)) (hdocs.since 0)
    revert hnote
    decide
  · intro h
    have hmem := h (aleLater.take 2) _ (LTS.run_of_exec rfl) _ (List.mem_singleton.mpr rfl) _ rfl
      "no milk" rfl
    simp [aleLater] at hmem

end App

end QadsCafe
