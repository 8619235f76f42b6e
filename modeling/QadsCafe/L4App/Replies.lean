import QadsCafe.L4App.Steps

/-!
# A checkout and its callbacks

What happens after one `checkout` if nothing but its callbacks follows. Each
order goes through its own stages (`Stage`), and `Snap` computes from the two
stages everything such a run changes: the orders, the requests in flight, and
the appended IDs, completions and create replies in the log. One reply takes
one order one stage further (`Snap.step`), `checkout_started` gives the
stages to start from.

The write of an order is fixed by the checkout; `Snap` takes it as a
parameter, and the state right after the checkout as `t₀`.
-/
namespace QadsCafe

open Core

/-! ## Projections of the log -/

def Obs.appended? : Obs → Option Nat
  | .appended _ doc => some doc
  | _ => none

def Obs.completed? : Obs → Option Nat
  | .completed call => some call
  | _ => none

def Obs.replied? : Obs → Option (Callback × Bool)
  | .replied c ok => some (c, ok)
  | _ => none

def Callback.create? : Callback → Option Write
  | .create w => some w
  | _ => none

def appendedDocs (l : List Obs) : List Nat := l.filterMap Obs.appended?

def completions (l : List Obs) : List Nat := l.filterMap Obs.completed?

def replies (l : List Obs) : List (Callback × Bool) := l.filterMap Obs.replied?

/-- The writes of the answered creates, with their outcomes. -/
def createReplies (l : List Obs) : List (Write × Bool) :=
  (replies l).filterMap fun r => r.1.create?.map fun w => (w, r.2)

@[simp] theorem appendedDocs_append (l m : List Obs) :
    appendedDocs (l ++ m) = appendedDocs l ++ appendedDocs m := List.filterMap_append

@[simp] theorem completions_append (l m : List Obs) :
    completions (l ++ m) = completions l ++ completions m := List.filterMap_append

@[simp] theorem replies_append (l m : List Obs) : replies (l ++ m) = replies l ++ replies m :=
  List.filterMap_append

@[simp] theorem createReplies_append (l m : List Obs) :
    createReplies (l ++ m) = createReplies l ++ createReplies m := by
  simp [createReplies]

/-! ## Stages -/

/-- How far the requests of an order have got: not made, a create in flight,
failed, its history in flight, finished; or an update in flight, finished. -/
inductive Stage where
  | idle | sent | failed | created | done | updating | updated
  deriving DecidableEq, Repr

namespace Stage

/-- The order, from how the checkout left it. -/
def order (o : Order) (w : Write) : Stage → Order
  | created => { o with orderID := some w.doc }
  | done | updated => {}
  | _ => o

/-- The callbacks of the order that are pending. -/
def Pends (w : Write) (l : List Callback) : Stage → Prop
  | sent => l = [.create w]
  | updating => l = [.update w]
  | created => ∃ uid ids, l = [.history w.call w.basket uid ids]
  | _ => l = []

def appends (w : Write) : Stage → List Nat
  | created | done => [w.doc]
  | _ => []

def completes (w : Write) : Stage → List Nat
  | done | updated => [w.call]
  | _ => []

/-- The stage the order started from. -/
def origin : Stage → Stage
  | idle => idle
  | sent | failed | created | done => sent
  | updating | updated => updating

def outcome (w : Write) : Stage → List (Write × Bool)
  | failed => [(w, false)]
  | created | done => [(w, true)]
  | _ => []

end Stage

/-- One value for each order. -/
def pick {α : Type} (cafe bar : α) : Basket → α
  | .cafe => cafe
  | .bar => bar

/-- A per-order list, for both orders. -/
def both {α : Type} (f : Basket → List α) : List α := f .cafe ++ f .bar

theorem both_update {α : Type} {f g : Basket → List α} {b : Basket} {l : List α}
    (hb : g b = f b ++ l) (hother : ∀ c, c ≠ b → g c = f c) : (both f ++ l).Perm (both g) := by
  unfold both
  cases b with
  | cafe =>
    rw [hb, hother .bar (by decide), List.append_assoc, List.append_assoc]
    exact (List.Perm.append_left _ List.perm_append_comm)
  | bar => rw [hb, hother .cafe (by decide), List.append_assoc]

/-- The pending callbacks of an order. -/
def App.pendingOf (s : App) (b : Basket) : List Callback := s.pending.filter fun c => c.basket = b

namespace App

/-- Where a run of replies starts: at most one request of each order is
pending, a create for a new order or an update. -/
structure Started (t₀ : App) (w : Basket → Write) (σ₀ : Basket → Stage) : Prop where
  trap : t₀.trap = none
  uid : t₀.user.uid.isSome = true
  basket : ∀ b, (w b).basket = b
  origin : ∀ b, (σ₀ b).origin = σ₀ b
  pending : ∀ b, (σ₀ b).Pends (w b) (t₀.pendingOf b)
  new : ∀ b, σ₀ b = .sent → (t₀.order b).orderID = none

/-- The state `t` after some replies, from the stages of the two orders. -/
structure Snap (t₀ : App) (w : Basket → Write) (σ₀ σ : Basket → Stage) (new : List Obs) (t : App) :
    Prop where
  trap : t.trap = none
  uid : t.user.uid = t₀.user.uid
  log : t.log = t₀.log ++ new
  origin : ∀ b, (σ b).origin = σ₀ b
  order : ∀ b, t.order b = (σ b).order (t₀.order b) (w b)
  pending : ∀ b, (σ b).Pends (w b) (t.pendingOf b)
  history : t.user.previousOrders = t₀.user.previousOrders ++ appendedDocs new
  appended : (appendedDocs new).Perm (both fun b => (σ b).appends (w b))
  completed : (completions new).Perm (both fun b => (σ b).completes (w b))
  outcomes : (createReplies new).Perm (both fun b => (σ b).outcome (w b))
  issued : ∀ c, .issued c ∈ new → σ₀ c.basket ≠ .idle

/-- With nothing pending no order waits for a reply. -/
theorem Snap.pends_nil {t₀ t : App} {w : Basket → Write} {σ₀ σ : Basket → Stage} {new : List Obs}
    (h : Snap t₀ w σ₀ σ new t) (hp : t.pending = []) (b : Basket) : (σ b).Pends (w b) [] := by
  have hnil : t.pendingOf b = [] := by rw [pendingOf, hp]; rfl
  rw [← hnil]
  exact h.pending b

theorem Stage.origin_self {st : Stage} (h : st.origin = st) :
    st = .idle ∨ st = .sent ∨ st = .updating := by
  cases st <;> simp [Stage.origin] at h ⊢

theorem Stage.origin_idle {st : Stage} (h : st.origin = .idle) : st = .idle := by
  cases st <;> simp [Stage.origin] at h ⊢

theorem Started.snap {t₀ : App} {w : Basket → Write} {σ₀ : Basket → Stage} (h : Started t₀ w σ₀) :
    Snap t₀ w σ₀ σ₀ [] t₀ := by
  have hself := fun b => Stage.origin_self (h.origin b)
  have horder : ∀ b, t₀.order b = (σ₀ b).order (t₀.order b) (w b) := fun b => by
    rcases hself b with hσ | hσ | hσ <;> rw [hσ] <;> rfl
  have hnil : ∀ {α : Type} (f : Basket → Stage → List α),
      (∀ b, f b .idle = [] ∧ f b .sent = [] ∧ f b .updating = []) →
      ([] : List α).Perm (both fun b => f b (σ₀ b)) := by
    intro α f hf
    have hf' : ∀ b, f b (σ₀ b) = [] := fun b => by
      rcases hself b with hσ | hσ | hσ <;> rw [hσ]
      · exact (hf b).1
      · exact (hf b).2.1
      · exact (hf b).2.2
    rw [both, hf', hf']; exact .refl _
  refine ⟨h.trap, rfl, by simp, h.origin, horder, h.pending, by simp [appendedDocs], ?_, ?_, ?_, ?_⟩
  · exact hnil (fun b st => st.appends (w b)) fun b => ⟨rfl, rfl, rfl⟩
  · exact hnil (fun b st => st.completes (w b)) fun b => ⟨rfl, rfl, rfl⟩
  · exact hnil (fun b st => st.outcome (w b)) fun b => ⟨rfl, rfl, rfl⟩
  · intro c hc; cases hc

/-- One order moves to stage `st`, the log grows by `seg`. -/
structure Advance (w : Basket → Write) (σ : Basket → Stage) (t t' : App) (b : Basket) (st : Stage)
    (seg : List Obs) : Prop where
  trap : t'.trap = none
  uid : t'.user.uid = t.user.uid
  log : t'.log = t.log ++ seg
  other : ∀ c, c ≠ b → t'.order c = t.order c ∧ t'.pendingOf c = t.pendingOf c
  pending : st.Pends (w b) (t'.pendingOf b)
  history : t'.user.previousOrders = t.user.previousOrders ++ appendedDocs seg
  appended : st.appends (w b) = (σ b).appends (w b) ++ appendedDocs seg
  completed : st.completes (w b) = (σ b).completes (w b) ++ completions seg
  outcomes : st.outcome (w b) = (σ b).outcome (w b) ++ createReplies seg
  issued : ∀ c, .issued c ∈ seg → c.basket = b
  origin : st.origin = (σ b).origin ∧ σ b ≠ .idle

theorem Snap.advance {t₀ t t' : App} {w : Basket → Write} {σ₀ σ : Basket → Stage}
    {new seg : List Obs} {b : Basket} {st : Stage} (h : Snap t₀ w σ₀ σ new t)
    (a : Advance w σ t t' b st seg) (ho : t'.order b = st.order (t₀.order b) (w b)) :
    Snap t₀ w σ₀ (Function.update σ b st) (new ++ seg) t' := by
  have hσ : ∀ c, c ≠ b → Function.update σ b st c = σ c := fun c hc => Function.update_of_ne hc _ _
  have hself : Function.update σ b st b = st := Function.update_self b st σ
  have hperm : ∀ {α : Type} (f : Basket → Stage → List α) {l m : List α},
      l.Perm (both fun c => f c (σ c)) → f b st = f b (σ b) ++ m →
      (l ++ m).Perm (both fun c => f c (Function.update σ b st c)) := by
    intro α f l m hl hm
    have hb : f b (Function.update σ b st b) = f b (σ b) ++ m := by rw [hself]; exact hm
    refine (hl.append_right m).trans (both_update hb fun c hc => ?_)
    rw [hσ c hc]
  refine ⟨a.trap, a.uid.trans h.uid, ?_, fun c => ?_, fun c => ?_, fun c => ?_, ?_, ?_, ?_, ?_, ?_⟩
  · rw [a.log, h.log, List.append_assoc]
  · by_cases hc : c = b
    · subst hc; rw [hself, a.origin.1]; exact h.origin c
    · rw [hσ c hc]; exact h.origin c
  · by_cases hc : c = b
    · subst hc; rw [hself]; exact ho
    · rw [hσ c hc, (a.other c hc).1]; exact h.order c
  · by_cases hc : c = b
    · subst hc; rw [hself]; exact a.pending
    · rw [hσ c hc, (a.other c hc).2]; exact h.pending c
  · rw [a.history, h.history, appendedDocs_append, List.append_assoc]
  · rw [appendedDocs_append]
    exact hperm (fun c st => st.appends (w c)) h.appended a.appended
  · rw [completions_append]
    exact hperm (fun c st => st.completes (w c)) h.completed a.completed
  · rw [createReplies_append]
    exact hperm (fun c st => st.outcome (w c)) h.outcomes a.outcomes
  · intro c hc
    rcases List.mem_append.mp hc with hc | hc
    · exact h.issued c hc
    · rw [a.issued c hc]
      intro hidle
      exact a.origin.2 (Stage.origin_idle ((h.origin b).trans hidle))

/-! ## One reply -/

/-- The delivered callback was the only one of its order. -/
theorem pendingOf_rest {s : App} {c : Callback} {l₁ l₂ : List Callback}
    (hp : s.pending = l₁ ++ c :: l₂) (b : Basket) :
    (b ≠ c.basket → (l₁ ++ l₂).filter (fun k => k.basket = b) = s.pendingOf b) ∧
    ∀ k, s.pendingOf c.basket = [k] →
      k = c ∧ (l₁ ++ l₂).filter (fun k => k.basket = c.basket) = [] := by
  constructor
  · intro hb
    have hc : ¬ c.basket = b := fun he => hb he.symm
    simp [pendingOf, hp, hc]
  · intro k hk
    rw [pendingOf, hp, List.filter_append, List.filter_cons_of_pos (by simp)] at hk
    rw [List.filter_append]
    have hlen := congrArg List.length hk
    simp only [List.length_append, List.length_cons, List.length_nil] at hlen
    have h1 : l₁.filter (fun k => k.basket = c.basket) = [] :=
      List.length_eq_zero_iff.mp (by omega)
    have h2 : l₂.filter (fun k => k.basket = c.basket) = [] :=
      List.length_eq_zero_iff.mp (by omega)
    rw [h1, h2] at hk ⊢
    simp only [List.nil_append, List.cons.injEq, and_true] at hk
    exact ⟨hk.symm, rfl⟩

/-- A reset after the callback `c` of the order's last request. -/
theorem advance_reset (w : Basket → Write) {σ : Basket → Stage} {t : App} {c : Callback} (ok : Bool)
    {rest : List Callback} {st : Stage} (ht : t.trap = none) (hc : c.isCreate = false)
    (hrest : ∀ b, b ≠ c.basket → rest.filter (fun k => k.basket = b) = t.pendingOf b)
    (hnone : rest.filter (fun k => k.basket = c.basket) = [])
    (hst : (σ c.basket = .created ∧ st = .done) ∨ (σ c.basket = .updating ∧ st = .updated)) :
    Advance w σ t (((t.settle c ok).answered c ok rest).resetAndComplete (w c.basket).call c.basket)
      c.basket st [.replied c ok, .completed (w c.basket).call] := by
  have hsettle : (t.settle c ok).trap = t.trap ∧ (t.settle c ok).user = t.user ∧
      (t.settle c ok).log = t.log := by
    cases c with
    | create w => cases hc
    | update w => cases ok <;> exact ⟨rfl, rfl, rfl⟩
    | history call b uid ids => cases ok <;> exact ⟨rfl, rfl, rfl⟩
  obtain ⟨htrap, huser, hlog⟩ := hsettle
  have hcreate : c.create? = none := by cases c <;> first | rfl | cases hc
  refine ⟨?_, ?_, ?_, fun b hb => ⟨?_, hrest b hb⟩, ?_, ?_, ?_, ?_, ?_, ?_, ?_⟩
  · exact htrap.trans ht
  · show ((t.settle c ok).user.setOrder c.basket _).uid = _
    rw [User.uid_setOrder, huser]
  · show ((t.settle c ok).log ++ [Obs.replied c ok]) ++ [Obs.completed _] = _
    rw [hlog, List.append_assoc]; rfl
  · rw [order_resetAndComplete, if_neg hb]
    show (t.settle c ok).user.order b = _
    rw [huser]; rfl
  · show st.Pends (w c.basket) (rest.filter fun k => k.basket = c.basket)
    rw [hnone]
    rcases hst with ⟨-, rfl⟩ | ⟨-, rfl⟩ <;> rfl
  · show ((t.settle c ok).user.setOrder c.basket _).previousOrders = _
    rw [User.previousOrders_setOrder, huser]; simp [appendedDocs, Obs.appended?]
  · rcases hst with ⟨h1, rfl⟩ | ⟨h1, rfl⟩ <;> rw [h1] <;> rfl
  · rcases hst with ⟨h1, rfl⟩ | ⟨h1, rfl⟩ <;> rw [h1] <;> rfl
  · have hnil : createReplies [Obs.replied c ok, .completed (w c.basket).call] = [] := by
      simp [createReplies, replies, Obs.replied?, hcreate]
    rw [hnil]
    rcases hst with ⟨h1, rfl⟩ | ⟨h1, rfl⟩ <;> rw [h1] <;> rfl
  · intro k hk; simp at hk
  · rcases hst with ⟨h1, rfl⟩ | ⟨h1, rfl⟩ <;> rw [h1] <;> exact ⟨rfl, by decide⟩

theorem advance_created {w : Basket → Write} {σ : Basket → Stage} {t : App} {b : Basket}
    {uid : String} {rest : List Callback} (ht : t.trap = none) (hb : (w b).basket = b)
    (hrest : ∀ c, c ≠ b → rest.filter (fun k => k.basket = c) = t.pendingOf c)
    (hnone : rest.filter (fun k => k.basket = b) = []) (hσ : σ b = .sent) :
    Advance w σ t
      ((((t.created (w b)).answered (.create (w b)) true rest).append (w b).doc).issue
        (.history (w b).call (w b).basket uid (t.user.previousOrders ++ [(w b).doc])))
      b .created [.replied (.create (w b)) true, .appended t.user.uid (w b).doc,
        .issued (.history (w b).call (w b).basket uid (t.user.previousOrders ++ [(w b).doc]))] := by
  have huid : ((t.created (w b)).answered (.create (w b)) true rest).user.uid = t.user.uid :=
    User.uid_setOrder _ _ _
  refine ⟨ht, huid, ?_, fun c hc => ⟨?_, ?_⟩, ?_, ?_, ?_, ?_, ?_, ?_, ?_⟩
  · simp only [App.issue, App.append, huid]
    simp [App.answered, observe, App.created, App.store, App.setOrder]
  · show ((t.created (w b)).order c) = _
    rw [App.created, order_setOrder, if_neg (by rw [hb]; exact hc)]; rfl
  · show (rest ++ [_]).filter (fun k : Callback => k.basket = c) = _
    rw [List.filter_append, hrest c hc]
    simp [Callback.basket, hb, Ne.symm hc]
  · refine ⟨uid, t.user.previousOrders ++ [(w b).doc], ?_⟩
    show (rest ++ [_]).filter (fun k : Callback => k.basket = b) = _
    rw [List.filter_append, hnone]
    simp [Callback.basket, hb]
  · show (t.user.setOrder _ _).previousOrders ++ [(w b).doc] = _
    rw [User.previousOrders_setOrder]; rfl
  · rw [hσ]; rfl
  · rw [hσ]; rfl
  · rw [hσ]; rfl
  · intro k hk
    simp only [List.mem_cons, Obs.issued.injEq, reduceCtorEq, List.not_mem_nil, or_false,
      false_or] at hk
    subst hk; exact hb
  · rw [hσ]; exact ⟨rfl, by decide⟩

theorem advance_failed {w : Basket → Write} {σ : Basket → Stage} {t : App} {b : Basket}
    {rest : List Callback} (ht : t.trap = none)
    (hrest : ∀ c, c ≠ b → rest.filter (fun k => k.basket = c) = t.pendingOf c)
    (hnone : rest.filter (fun k => k.basket = b) = []) (hσ : σ b = .sent) :
    Advance w σ t (t.answered (.create (w b)) false rest) b .failed
      [.replied (.create (w b)) false] := by
  refine ⟨ht, rfl, rfl, fun c hc => ⟨rfl, hrest c hc⟩, hnone, ?_, ?_, ?_, ?_, ?_, ?_⟩
  · simp [App.answered, observe, appendedDocs, Obs.appended?]
  · rw [hσ]; rfl
  · rw [hσ]; rfl
  · rw [hσ]; rfl
  · intro k hk; simp at hk
  · rw [hσ]; exact ⟨rfl, by decide⟩

/-- The closures of a history write and of an update reset their order. -/
theorem follow_reset {w : Basket → Write} (hb : ∀ b, (w b).basket = b) {c : Callback}
    (hc : (∃ uid ids, .history (w c.basket).call (w c.basket).basket uid ids = c) ∨
      .update (w c.basket) = c) (s : App) :
    s.follow c = s.resetAndComplete (w c.basket).call c.basket := by
  rcases hc with ⟨uid, ids, hc⟩ | hc
  · conv_lhs => rw [← hc]
    rw [App.follow, hb]
  · conv_lhs => rw [← hc]
    rw [App.follow, hb]

/-- **One reply** takes its order one stage further. -/
theorem Snap.step {t₀ t t' : App} {w : Basket → Write} {σ₀ σ : Basket → Stage} {new : List Obs}
    {i : Nat} {ok : Bool} (h₀ : Started t₀ w σ₀) (h : Snap t₀ w σ₀ σ new t)
    (hs : t.step (.reply i ok) = some t') :
    ∃ b st seg, Snap t₀ w σ₀ (Function.update σ b st) (new ++ seg) t' := by
  have hb := h₀.basket
  obtain ⟨ht, -, hf⟩ := step_cases hs
  cases hf with
  | session _ he => cases he
  | reply _ _ c l₁ l₂ hp =>
  have hpend := h.pending c.basket
  have hrest := fun b hne => (pendingOf_rest hp b).1 hne
  have hmem : c ∈ t.pendingOf c.basket := by
    rw [pendingOf, List.mem_filter, hp]; simp
  have hempty : t.pendingOf c.basket ≠ [] := List.ne_nil_of_mem hmem
  have honly := (pendingOf_rest hp c.basket).2
  have hord := h.order c.basket
  cases hσ : σ c.basket with
  | idle => rw [hσ] at hpend; exact absurd hpend hempty
  | failed => rw [hσ] at hpend; exact absurd hpend hempty
  | done => rw [hσ] at hpend; exact absurd hpend hempty
  | updated => rw [hσ] at hpend; exact absurd hpend hempty
  | sent =>
    rw [hσ] at hpend hord
    obtain ⟨hc, hnone⟩ := honly _ hpend
    generalize c.basket = b at *
    subst hc
    have hidn := h₀.new b ((h.origin b).symm.trans (by rw [hσ]; rfl))
    cases ok with
    | true =>
      obtain ⟨uid, huid⟩ := Option.isSome_iff_exists.mp h₀.uid
      have hstep := create_step ht (h.uid.trans huid) hp
      rw [reply_step ht hp true] at hstep
      rw [Option.some.inj hstep]
      refine ⟨b, .created, _, h.advance (advance_created ht (hb b) hrest hnone hσ) ?_⟩
      show (t.created (w b)).order b = _
      rw [App.created, order_setOrder, if_pos (hb b).symm, hb b]
      show { t.order b with orderID := some (w b).doc } = _
      rw [hord]; rfl
    | false =>
      have hid : (t.order (w b).basket).orderID = none := by
        rw [hb b, hord]; exact hidn
      have hskip : ((t.settle (.create (w b)) false).answered (.create (w b)) false (l₁ ++ l₂)).follow
          (.create (w b)) = t.answered (.create (w b)) false (l₁ ++ l₂) := by
        have hid' : ((t.answered (.create (w b)) false (l₁ ++ l₂)).order (w b).basket).orderID =
          none := hid
        simp only [App.settle, App.follow, addToPreviousOrders, hid']
      rw [hskip]
      exact ⟨b, .failed, _, h.advance (advance_failed ht hrest hnone hσ) hord⟩
  | created =>
    rw [hσ] at hpend
    obtain ⟨uid, ids, hpend⟩ := hpend
    obtain ⟨hc, hnone⟩ := honly _ hpend
    have hadv := advance_reset w ok ht (by rw [← hc]; rfl) hrest hnone (.inl ⟨hσ, rfl⟩)
    rw [follow_reset hb (.inl ⟨uid, ids, hc⟩)]
    exact ⟨_, _, _, h.advance hadv (by rw [order_resetAndComplete, if_pos rfl]; rfl)⟩
  | updating =>
    rw [hσ] at hpend
    obtain ⟨hc, hnone⟩ := honly _ hpend
    have hadv := advance_reset w ok ht (by rw [← hc]; rfl) hrest hnone (.inr ⟨hσ, rfl⟩)
    rw [follow_reset hb (.inr hc)]
    exact ⟨_, _, _, h.advance hadv (by rw [order_resetAndComplete, if_pos rfl]; rfl)⟩

/-- A run of replies. -/
theorem Started.run {t₀ t : App} {w : Basket → Write} {σ₀ : Basket → Stage} {ls : List Ev}
    (h : Started t₀ w σ₀) (hrun : app.Run t₀ ls t) (hls : ∀ e ∈ ls, e.isReply = true) :
    ∃ σ new, Snap t₀ w σ₀ σ new t := by
  refine hrun.invariant (I := fun t => ∃ σ new, Snap t₀ w σ₀ σ new t)
    (P := fun e => e.isReply = true) (fun u e v he hu hs => ?_) hls ⟨σ₀, [], h.snap⟩
  obtain ⟨σ, new, hsnap⟩ := hu
  cases e with
  | reply i ok =>
    obtain ⟨b, st, seg, hsnap'⟩ := hsnap.step h hs
    exact ⟨_, _, hsnap'⟩
  | _ => cases he

theorem settle_log (s : App) (c : Callback) (ok : Bool) : (s.settle c ok).log = s.log := by
  cases c <;> cases ok <;> rfl

/-- What a closure adds to the log: no reply, and a completion unless it
answers a create. -/
theorem follow_log (s : App) (c : Callback) :
    ∃ tail, (s.follow c).log = s.log ++ tail ∧ replies tail = [] ∧
      (c.isCreate = true → completions tail = []) ∧
      (c.isCreate = false → ∃ call, tail = [.completed call]) := by
  cases c with
  | create w =>
    refine follow_create s w fun t ha => ?_
    cases ha with
    | skip => exact ⟨[], by simp, rfl, fun _ => rfl, fun h => by cases h⟩
    | trap doc => exact ⟨[.appended s.user.uid doc], rfl, rfl, fun _ => rfl, fun h => by cases h⟩
    | issue doc uid =>
      refine ⟨[.appended s.user.uid doc,
        .issued (.history w.call w.basket uid (s.append doc).user.previousOrders)], ?_, rfl,
        fun _ => rfl, fun h => by cases h⟩
      simp only [App.issue, App.append, List.append_assoc]
      rfl
  | update w =>
    refine ⟨[.completed w.call], rfl, rfl, fun h => ?_, fun _ => ⟨_, rfl⟩⟩
    cases h
  | history call b uid ids =>
    refine ⟨[.completed call], rfl, rfl, fun h => ?_, fun _ => ⟨_, rfl⟩⟩
    cases h

/-- What one reply adds to the log. -/
theorem reply_log (s : App) (c : Callback) (ok : Bool) (rest : List Callback) :
    ∃ tail, (((s.settle c ok).answered c ok rest).follow c).log = s.log ++ .replied c ok :: tail ∧
      replies tail = [] ∧ (c.isCreate = true → completions tail = []) ∧
      (c.isCreate = false → ∃ call, tail = [.completed call]) := by
  obtain ⟨tail, hlog, hrest⟩ := follow_log ((s.settle c ok).answered c ok rest) c
  refine ⟨tail, ?_, hrest⟩
  rw [hlog]
  show ((s.settle c ok).log ++ [_]) ++ tail = _
  rw [settle_log, List.append_assoc]
  rfl

/-- Where no update was sent none is pending. -/
theorem Snap.no_update {t₀ t : App} {w : Basket → Write} {σ₀ σ : Basket → Stage} {new : List Obs}
    (h : Snap t₀ w σ₀ σ new t) (hno : ∀ b, σ₀ b ≠ .updating) (v : Write) :
    .update v ∉ t.pending := by
  intro hv
  have hmem : .update v ∈ t.pendingOf v.basket := by
    rw [pendingOf, List.mem_filter]
    exact ⟨hv, by simp [Callback.basket]⟩
  have hpend := h.pending v.basket
  have horig := h.origin v.basket
  cases hσ : σ v.basket <;> rw [hσ] at hpend horig
  case updating => exact hno _ horig.symm
  case created =>
    obtain ⟨uid, ids, hl⟩ := hpend
    rw [hl] at hmem
    simp at hmem
  all_goals
    have hl := hpend
    simp only [Stage.Pends] at hl
    rw [hl] at hmem
    simp at hmem

theorem mem_both {α : Type} {f : Basket → List α} {a : α} : a ∈ both f ↔ ∃ b, a ∈ f b := by
  rw [both, List.mem_append]
  constructor
  · rintro (h | h)
    · exact ⟨_, h⟩
    · exact ⟨_, h⟩
  · rintro ⟨b, h⟩
    cases b with
    | cafe => exact .inl h
    | bar => exact .inr h

theorem Stage.outcome_fst {w v : Write} {ok : Bool} {st : Stage} (h : (v, ok) ∈ st.outcome w) :
    v = w := by
  cases st <;> simp [Stage.outcome] at h <;> exact h.1

/-- The replies to the creates of one order are those of its stage. -/
theorem Snap.reply_iff {t₀ t : App} {w : Basket → Write} {σ₀ σ : Basket → Stage} {new : List Obs}
    (h : Snap t₀ w σ₀ σ new t) (hb : ∀ b, (w b).basket = b) {b : Basket} {v : Write}
    (hv : v.basket = b) (ok : Bool) :
    (v, ok) ∈ createReplies new ↔ (v, ok) ∈ (σ b).outcome (w b) := by
  rw [h.outcomes.mem_iff, mem_both]
  constructor
  · rintro ⟨c, hc⟩
    have hcb : c = b := by
      rw [← hb c, ← Stage.outcome_fst hc, hv]
    rw [← hcb]; exact hc
  · intro hm; exact ⟨b, hm⟩

/-! ## The checkout -/

/-- How the checkout started the order of basket `b`. -/
structure Placed (s t : App) (call : Nat) (now : Basket → Date) (b : Basket) (w : Write)
    (st : Stage) : Prop where
  basket : w.basket = b
  call : w.call = call
  origin : st.origin = st
  idle : st = .idle ↔ (s.order b).items = []
  new : st = .sent → (s.order b).orderID = none
  old : st = .updating → (s.order b).orderID ≠ none
  kept : st = .idle → t.order b = s.order b
  items : (t.order b).items = (s.order b).items
  price : (t.order b).price = (s.order b).price
  orderID : (t.order b).orderID = (s.order b).orderID
  pending : st.Pends w (t.pendingOf b)
  data : st = .sent → s.nextID ≤ w.doc ∧ ∃ o,
    { s.stamp b with orderDate := some (now b) }.makeDataDictionary s.user.crsid = some (w.data, o)

theorem Placed.items_ne {s t : App} {call : Nat} {now : Basket → Date} {b : Basket} {w : Write}
    {st : Stage} (h : Placed s t call now b w st) (hst : st ≠ .idle) : (s.order b).items ≠ [] :=
  fun hi => hst (h.idle.mpr hi)

/-- What a turn for one order leaves alone, besides `Turn`. -/
structure Quiet (s t : App) (b : Basket) (st : Stage) : Prop where
  trap : t.trap = none
  log : ∃ cs : List Callback, t.log = s.log ++ cs.map Obs.issued ∧
    ∀ c ∈ cs, c.basket = b ∧ st ≠ .idle
  previousOrders : t.user.previousOrders = s.user.previousOrders
  crsid : t.user.crsid = s.user.crsid
  stamp : ∀ c, c ≠ b → t.stamp c = s.stamp c
  other : ∀ c, c ≠ b → t.pendingOf c = s.pendingOf c

theorem stamp_setOrder (s : App) {b c : Basket} (o : Order) (h : c ≠ b) :
    (s.setOrder b o).stamp c = s.stamp c := by
  cases b <;> cases c <;> first | rfl | exact absurd rfl h

theorem pendingOf_issue_self (s : App) {c : Callback} {b : Basket} (h : c.basket = b) :
    (s.issue c).pendingOf b = s.pendingOf b ++ [c] := by
  simp [App.issue, pendingOf, h]

theorem pendingOf_issue_other (s : App) {c : Callback} {b : Basket} (h : c.basket ≠ b) :
    (s.issue c).pendingOf b = s.pendingOf b := by
  simp [App.issue, pendingOf, h]

theorem Submit.placed {s t : App} {call : Nat} {now : Basket → Date} {b : Basket}
    (h : Submit s call now b t) (ht : s.trap = none) (he : Encodable (s.order b).items)
    (hp : s.pendingOf b = []) :
    ∃ w st, Placed s t call now b w st ∧ Quiet s t b st := by
  cases h with
  | skip hi =>
    refine ⟨⟨call, b, 0, docOf none {}, [], none, none⟩, .idle, ?_, ?_⟩
    · exact ⟨rfl, rfl, rfl, ⟨fun _ => hi ht, fun _ => rfl⟩, nofun,
        nofun, fun _ => rfl, rfl, rfl, rfl, hp, nofun⟩
    · exact ⟨ht, ⟨[], by simp, by simp⟩, rfl, rfl, fun _ _ => rfl, fun _ _ => rfl⟩
  | trap _ hn => exact absurd he hn
  | create _ hi _ hid =>
    have hquiet : ∀ c, c ≠ b → (s.saved call (now b) b).pendingOf c = s.pendingOf c :=
      fun c hc => pendingOf_issue_other _ (Ne.symm hc)
    have hpend : (s.saved call (now b) b).pendingOf b = [.create (s.createWrite call (now b) b)] := by
      have hb : (Callback.create (s.createWrite call (now b) b)).basket = b := rfl
      rw [App.saved, pendingOf_issue_self _ hb]
      show s.pendingOf b ++ _ = _
      rw [hp]; rfl
    have hord : (s.saved call (now b) b).order b = s.savedOrder (now b) b := by
      show ({ s with nextID := s.nextID + 1 }.setOrder b (s.savedOrder (now b) b)).order b = _
      rw [order_setOrder, if_pos rfl]
    refine ⟨s.createWrite call (now b) b, .sent, ?_, ?_⟩
    · refine ⟨rfl, rfl, rfl, ⟨nofun, fun h => absurd h hi⟩, fun _ => hid,
        nofun, nofun, ?_, ?_, ?_, hpend, fun _ => ⟨Nat.le_refl _, ?_⟩⟩
      · rw [hord]; rfl
      · rw [hord]; rfl
      · rw [hord]; rfl
      · exact ⟨_, makeDataDictionary_eq _ _
          (show Encodable { s.stamp b with orderDate := some (now b) }.items from he)⟩
    · refine ⟨ht, ⟨[.create (s.createWrite call (now b) b)], rfl, ?_⟩, User.previousOrders_setOrder _ _ _,
        User.crsid_setOrder _ _ _, fun c hc => ?_, hquiet⟩
      · intro c hc
        rw [List.mem_singleton] at hc
        subst hc; exact ⟨rfl, by decide⟩
      · exact stamp_setOrder { s with nextID := s.nextID + 1 } _ hc
  | update _ hi _ doc hid =>
    have hquiet : ∀ c, c ≠ b → (s.updated call b doc).pendingOf c = s.pendingOf c :=
      fun c hc => pendingOf_issue_other _ (Ne.symm hc)
    have hpend : (s.updated call b doc).pendingOf b = [.update (s.updateWrite call b doc)] := by
      have hb : (Callback.update (s.updateWrite call b doc)).basket = b := rfl
      rw [App.updated, pendingOf_issue_self _ hb]
      show s.pendingOf b ++ _ = _
      rw [hp]; rfl
    have hord : (s.updated call b doc).order b = s.updatedOrder b := by
      show (s.setOrder b (s.updatedOrder b)).order b = _
      rw [order_setOrder, if_pos rfl]
    refine ⟨s.updateWrite call b doc, .updating, ?_, ?_⟩
    · refine ⟨rfl, rfl, rfl, ⟨nofun, fun h => absurd h hi⟩, nofun,
        fun _ hn => ?_, nofun, ?_, ?_, ?_, hpend, nofun⟩
      · rw [hid] at hn; cases hn
      · rw [hord]; rfl
      · rw [hord]; rfl
      · rw [hord]; rfl
    · refine ⟨ht, ⟨[.update (s.updateWrite call b doc)], rfl, ?_⟩, User.previousOrders_setOrder _ _ _,
        User.crsid_setOrder _ _ _, fun c hc => stamp_setOrder s _ hc, hquiet⟩
      intro c hc
      rw [List.mem_singleton] at hc
      subst hc; exact ⟨rfl, by decide⟩

/-- **A checkout with nothing pending.** Both orders start as `Placed` says,
and the log grows by their requests. -/
theorem checkout_started {s : App} (now : Basket → Date) (ht : s.trap = none)
    (hu : s.user.uid.isSome = true) (hp : s.pending = []) (he : ∀ b, Encodable (s.order b).items) :
    ∃ w σ₀, Started (s.checkout now) w σ₀ ∧
      (∀ b, Placed s (s.checkout now) s.calls now b (w b) (σ₀ b)) ∧
      (∃ cs : List Callback, (s.checkout now).log = s.log ++ cs.map Obs.issued ∧
        ∀ c ∈ cs, σ₀ c.basket ≠ .idle) ∧
      (s.checkout now).user.previousOrders = s.user.previousOrders ∧
      (s.checkout now).orders = s.orders := by
  have hpend : ∀ b, s.pendingOf b = [] := fun b => by rw [pendingOf, hp]; rfl
  have hcafe := cafe_turn s now
  have hbar := bar_turn s now
  have hct := hcafe.turn
  have hbt := hbar.turn
  obtain ⟨w₁, st₁, hpl₁, hq₁⟩ := hcafe.placed ht (he .cafe) (hpend .cafe)
  have hord : (s.afterCafe now).order .bar = s.order .bar := hct.order .bar (by decide)
  have hord' : (s.checkout now).order .cafe = (s.afterCafe now).order .cafe :=
    hbt.order .cafe (by decide)
  have hp' : (s.afterCafe now).pendingOf .bar = [] := (hq₁.other .bar (by decide)).trans (hpend .bar)
  obtain ⟨w₂, st₂, hpl₂, hq₂⟩ := hbar.placed hq₁.trap (by rw [hord]; exact he .bar) hp'
  have hstamp : (s.afterCafe now).stamp .bar = s.stamp .bar := hq₁.stamp .bar (by decide)
  have hplaced : ∀ b, Placed s (s.checkout now) s.calls now b (pick w₁ w₂ b) (pick st₁ st₂ b) := by
    intro b
    cases b with
    | cafe =>
      refine ⟨hpl₁.basket, hpl₁.call, hpl₁.origin, hpl₁.idle, hpl₁.new, hpl₁.old, ?_, ?_, ?_, ?_, ?_,
        hpl₁.data⟩
      · intro h; rw [hord']; exact hpl₁.kept h
      · rw [hord']; exact hpl₁.items
      · rw [hord']; exact hpl₁.price
      · rw [hord']; exact hpl₁.orderID
      · rw [hq₂.other .cafe (by decide)]; exact hpl₁.pending
    | bar =>
      refine ⟨hpl₂.basket, hpl₂.call, hpl₂.origin, ?_, ?_, ?_, ?_, ?_, ?_, ?_, hpl₂.pending, ?_⟩
      · rw [← hord]; exact hpl₂.idle
      · rw [← hord]; exact hpl₂.new
      · rw [← hord]; exact hpl₂.old
      · rw [← hord]; exact hpl₂.kept
      · rw [← hord]; exact hpl₂.items
      · rw [← hord]; exact hpl₂.price
      · rw [← hord]; exact hpl₂.orderID
      · intro h
        obtain ⟨hdoc, o, ho⟩ := hpl₂.data h
        rw [hstamp, hq₁.crsid] at ho
        exact ⟨Nat.le_trans hct.nextID hdoc, o, ho⟩
  refine ⟨_, _, ⟨hq₂.trap, ?_, fun b => (hplaced b).basket, fun b => (hplaced b).origin,
    fun b => (hplaced b).pending, fun b h => ?_⟩, hplaced, ?_, ?_, ?_⟩
  · rw [hbt.uid, hct.uid]; exact hu
  · rw [(hplaced b).orderID]; exact (hplaced b).new h
  · obtain ⟨cs₁, hl₁, hb₁⟩ := hq₁.log
    obtain ⟨cs₂, hl₂, hb₂⟩ := hq₂.log
    refine ⟨cs₁ ++ cs₂, ?_, fun c hc => ?_⟩
    · rw [hl₂, hl₁, List.map_append, List.append_assoc]
    · rcases List.mem_append.mp hc with hc | hc
      · rw [(hb₁ c hc).1]; exact (hb₁ c hc).2
      · rw [(hb₂ c hc).1]; exact (hb₂ c hc).2
  · rw [hq₂.previousOrders, hq₁.previousOrders]
  · rw [hbt.orders, hct.orders]

theorem replies_issued (cs : List Callback) : replies (cs.map Obs.issued) = [] := by
  simp [replies, Obs.replied?]

theorem completions_issued (cs : List Callback) : completions (cs.map Obs.issued) = [] := by
  simp [completions, Obs.completed?]

theorem appendedDocs_issued (cs : List Callback) : appendedDocs (cs.map Obs.issued) = [] := by
  simp [appendedDocs, Obs.appended?]

end App

end QadsCafe
