import QadsCafe.L4App.Sync
import QadsCafe.L5Runs.CarryOver

/-!
# Where the documents come from

`documents_recorded`: the content of every order document is what one checkout
of the run encoded for the outlet, as the order, the account and the profile
were in the state of that checkout: a new document for an order without an
ID, an update of the document that the order's ID names.

What the turn for one outlet does to the app is not seen by the turn for the
other (`snapshot_afterCafe`), so the state before the checkout decides both.
-/
namespace QadsCafe

open Core

namespace App

/-- What a checkout encodes for the order of basket `b`. -/
def snapshot (s : App) (now : Basket → Date) (b : Basket) : OrderDoc :=
  docOf s.user.crsid { s.stamp b with
    orderDate := if (s.order b).orderID.isNone then some (now b) else (s.order b).orderDate }

/-- A checkout at `s` makes the write. -/
structure Encoded (s : App) (now : Basket → Date) (w : Write) : Prop where
  signedIn : s.user.uid.isSome = true
  items : (s.order w.basket).items ≠ []
  doc : (s.order w.basket).orderID = none ∧ s.nextID ≤ w.doc ∨ (s.order w.basket).orderID = some w.doc
  data : w.data = s.snapshot now w.basket

/-- A checkout of the run `ls` makes the write. -/
def Recorded (s₀ : App) (ls : List Ev) (w : Write) : Prop :=
  ∃ ls₁ now ls₂ s, ls = ls₁ ++ .checkout now :: ls₂ ∧ app.Run s₀ ls₁ s ∧ Encoded s now w

theorem Recorded.snoc {s₀ : App} {ls : List Ev} {w : Write} (h : Recorded s₀ ls w) (e : Ev) :
    Recorded s₀ (ls ++ [e]) w := by
  obtain ⟨ls₁, now, ls₂, s, rfl, hr, hw⟩ := h
  exact ⟨ls₁, now, ls₂ ++ [e], s, by rw [List.append_assoc]; rfl, hr, hw⟩

/-! ## The checkout -/

theorem snapshot_of_account {s t : App} {now : Basket → Date} {b : Basket} (ha : t.account = s.account)
    (ho : t.order b = s.order b) : t.snapshot now b = s.snapshot now b := by
  have hauth : t.auth = s.auth := congrArg (fun a => a.1) ha
  have hcrsid : t.user.crsid = s.user.crsid := congrArg (fun a => a.2.2.1) ha
  have hfirst : t.user.firstName = s.user.firstName := congrArg (fun a => a.2.2.2.1) ha
  have hlast : t.user.lastName = s.user.lastName := congrArg (fun a => a.2.2.2.2) ha
  unfold snapshot stamp
  rw [hauth, hcrsid, hfirst, hlast, ho]

theorem snapshot_afterCafe (s : App) (now : Basket → Date) :
    (s.afterCafe now).snapshot now .bar = s.snapshot now .bar :=
  snapshot_of_account (cafe_turn s now).account ((cafe_turn s now).turn.order .bar (by decide))

theorem Submit.encoded {s t : App} {call : Nat} {now : Basket → Date} {b : Basket}
    (h : Submit s call now b t) (hu : s.user.uid.isSome = true) {c : Callback} (hc : c ∈ t.pending)
    {w : Write} (hw : c.write? = some w) : c ∈ s.pending ∨ (w.basket = b ∧ Encoded s now w) := by
  cases h with
  | skip => exact .inl hc
  | trap => exact .inl hc
  | create _ hi _ hid =>
    rcases (mem_issue _).mp hc with hc | rfl
    · exact .inl hc
    · cases hw
      refine .inr ⟨rfl, hu, hi, .inl ⟨hid, Nat.le_refl _⟩, ?_⟩
      show docOf _ _ = docOf _ { s.stamp b with
        orderDate := if (s.order b).orderID.isNone then some (now b) else (s.order b).orderDate }
      rw [hid]
      rfl
  | update _ hi _ doc hid =>
    rcases (mem_issue _).mp hc with hc | rfl
    · exact .inl hc
    · cases hw
      refine .inr ⟨rfl, hu, hi, .inr hid, ?_⟩
      show docOf _ _ = docOf _ { s.stamp b with
        orderDate := if (s.order b).orderID.isNone then some (now b) else (s.order b).orderDate }
      rw [hid]
      rfl

theorem checkout_encoded {s : App} {now : Basket → Date} (hu : s.user.uid.isSome = true) {c : Callback}
    (hc : c ∈ (s.checkout now).pending) {w : Write} (hw : c.write? = some w) :
    c ∈ s.pending ∨ Encoded s now w := by
  have hturn := (cafe_turn s now).turn
  have hu' : (s.afterCafe now).user.uid.isSome = true := by rw [hturn.uid]; exact hu
  rcases (bar_turn s now).encoded hu' hc hw with hc | ⟨hb, henc⟩
  · rcases (cafe_turn s now).encoded hu hc hw with hc | ⟨-, henc⟩
    · exact .inl hc
    · exact .inr ⟨henc.signedIn, henc.items, henc.doc, henc.data⟩
  · have hord : (s.afterCafe now).order w.basket = s.order w.basket := by
      rw [hb]
      exact hturn.order .bar (by decide)
    refine .inr ⟨hu, by rw [← hord]; exact henc.items, ?_, ?_⟩
    · rw [← hord]
      rcases henc.doc with ⟨hid, hle⟩ | hid
      · exact .inl ⟨hid, Nat.le_trans hturn.nextID hle⟩
      · exact .inr hid
    · rw [henc.data, hb, snapshot_afterCafe]

/-! ## Runs -/

/-- Every write of the run is one of its checkouts'. -/
structure Traced (s₀ : App) (ls : List Ev) (s : App) : Prop where
  pending : ∀ c ∈ s.pending, ∀ w, c.write? = some w → Recorded s₀ ls w
  orders : ∀ d w, s.orders d = some w → w.doc = d ∧ Recorded s₀ ls w

theorem Traced.step {s₀ s t : App} {ls : List Ev} {e : Ev} (h : Traced s₀ ls s) (hr : app.Run s₀ ls s)
    (hs : s.step e = some t) : Traced s₀ (ls ++ [e]) t := by
  refine ⟨fun c hc w hw => ?_, fun d w hw => ?_⟩
  · have hold : c ∈ s.pending → Recorded s₀ (ls ++ [e]) w := fun hc => (h.pending c hc w hw).snoc e
    obtain ⟨-, hen, hf⟩ := step_cases hs
    cases hf with
    | checkout now =>
      rcases checkout_encoded hen hc hw with hc | henc
      · exact hold hc
      · exact ⟨ls, now, [], s, rfl, hr, henc⟩
    | reply i ok k l₁ l₂ hp =>
      rcases mem_pending_reply hc with hc | ⟨call, b, uid, ids, rfl⟩
      · exact hold (rest_subset hp hc)
      · cases hw
    | session _ _ f =>
      rw [f.pending] at hc
      exact hold hc
    | _ => exact hold hc
  · rcases orders_step hs d with hsame | ⟨v, hv, hd, hnew⟩
    · rw [hsame] at hw
      exact ⟨(h.orders d w hw).1, (h.orders d w hw).2.snoc e⟩
    · rw [hnew] at hw
      cases hw
      rcases hv with hv | hv
      · exact ⟨hd, (h.pending _ hv w rfl).snoc e⟩
      · exact ⟨hd, (h.pending _ hv w rfl).snoc e⟩

/-- **Provenance.** Every order document is what a checkout of the run encoded. -/
theorem documents_recorded {s₀ t : App} {ls : List Ev} (hl : Launch s₀) (hr : app.Run s₀ ls t) {d : Nat}
    {w : Write} (hw : t.orders d = some w) : w.doc = d ∧ Recorded s₀ ls w := by
  have hstart : Traced s₀ [] s₀ := by
    refine ⟨fun c hc => ?_, fun d w hw => ?_⟩
    · rw [hl.pending] at hc
      cases hc
    · rw [hl.orders] at hw
      cases hw
  have h : Traced s₀ ls t := hr.history hstart fun ls s e t hr h hs => h.step hr hs
  exact h.orders d w hw

/-- The tea is in the document, the ale that was added later is not. -/
theorem document_of_tea : ∃ t w, app.Run {} (teaWith none ++ [.checkout fun _ => 0,
      .addItem .cafe (plainItem "ale" "Cafe"), .reply 0 true]) t ∧
    t.orders 0 = some w ∧ (t.order .cafe).items.length = 2 ∧ w.data.items.length = 1 ∧
    Recorded {} (teaWith none ++ [.checkout fun _ => 0, .addItem .cafe (plainItem "ale" "Cafe"),
      .reply 0 true]) w := by
  obtain ⟨t, hr, w, hw, hlen, hdoc⟩ : ∃ t, app.Run {} (teaWith none ++ [.checkout fun _ => 0,
      .addItem .cafe (plainItem "ale" "Cafe"), .reply 0 true]) t ∧
      ∃ w, t.orders 0 = some w ∧ (t.order .cafe).items.length = 2 ∧ w.data.items.length = 1 :=
    ⟨_, LTS.run_of_exec rfl, _, rfl, rfl, rfl⟩
  exact ⟨t, w, hr, hw, hlen, hdoc, (documents_recorded launch_default hr hw).2⟩

end App

end QadsCafe
