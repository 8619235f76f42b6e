import QadsCafe.L4App.Baskets
import QadsCafe.L4App.Invariant
import QadsCafe.L4App.Replies

/-!
# One checkout is all or nothing per outlet

From a state with nothing pending, one checkout and its callbacks leave each
order in one of three ways (`Settled`): untouched because it was empty, sent
and reset because its create succeeded, or kept for a retry because it failed.
Which one is decided by the reply to the order's own create; the other order,
the history writes and the order of the replies do not matter.

With nothing pending every order is new (`orderID_none`), so a checkout only
creates. `Stored` says which documents the replies add.
-/
namespace QadsCafe

open Core

namespace App

/-- The documents of `t` are those of `s` and those whose create succeeded. -/
def Stored (s t : App) (new : List Obs) : Prop :=
  ∀ d v, t.orders d = some v ↔ s.orders d = some v ∨ ((v, true) ∈ createReplies new ∧ v.doc = d)

theorem Stored.reply {s t : App} {new : List Obs} (h : Stored s t new) (hd : Docs t) {c : Callback}
    {ok : Bool} {l₁ l₂ : List Callback} (hp : t.pending = l₁ ++ c :: l₂)
    (hno : ∀ v, .update v ∉ t.pending) {tail : List Obs} (htail : replies tail = []) :
    Stored s (((t.settle c ok).answered c ok (l₁ ++ l₂)).follow c) (new ++ .replied c ok :: tail) := by
  have hc := mem_of_split hp
  have hreplies : createReplies (.replied c ok :: tail) =
      (c.create?.map fun w => (w, ok)).toList := by
    have hr : replies (.replied c ok :: tail) = [(c, ok)] := by
      show (c, ok) :: replies tail = _
      rw [htail]
    rw [createReplies, hr]
    cases c <;> rfl
  intro d v
  rw [follow_orders, createReplies_append, hreplies, List.mem_append]
  have hsame : (t.settle c ok).orders = t.orders → (v, true) ∉ (c.create?.map fun w => (w, ok)).toList →
      ((t.settle c ok).orders d = some v ↔
        s.orders d = some v ∨ ((v, true) ∈ createReplies new ∨
          (v, true) ∈ (c.create?.map fun w => (w, ok)).toList) ∧ v.doc = d) := by
    intro ho hn
    rw [ho, h d v]
    simp [hn]
  cases c with
  | create w =>
    cases ok with
    | false => exact hsame rfl (by simp [Callback.create?])
    | true =>
      have hnone := (hd.create w hc).1
      have hmem : (v, true) ∈ ((Callback.create w).create?.map fun w => (w, true)).toList ↔ v = w := by
        simp [Callback.create?]
      rw [hmem]
      show (t.created w).orders d = some v ↔ _
      -- the document is new, so no write of `t` is overwritten
      have hne : t.orders d = some v → d ≠ w.doc := by
        rintro hv rfl
        rw [hnone] at hv; cases hv
      refine (orders_store t).trans ⟨?_, ?_⟩
      · rintro (⟨rfl, rfl⟩ | ⟨-, hv⟩)
        · exact .inr ⟨.inr rfl, rfl⟩
        · rcases (h d v).mp hv with hs | ⟨hm, hvd⟩
          · exact .inl hs
          · exact .inr ⟨.inl hm, hvd⟩
      · rintro (hs | ⟨hm | rfl, hvd⟩)
        · have hv := (h d v).mpr (.inl hs)
          exact .inr ⟨hne hv, hv⟩
        · have hv := (h d v).mpr (.inr ⟨hm, hvd⟩)
          exact .inr ⟨hne hv, hv⟩
        · exact .inl ⟨hvd.symm, rfl⟩
  | update w => exact absurd hc (hno w)
  | history call b uid ids => cases ok <;> exact hsame rfl (by simp [Callback.create?])

/-- The stages and the documents after some replies to creates. -/
theorem stored_run {t₀ t : App} {w : Basket → Write} {σ₀ : Basket → Stage} {ls : List Ev}
    (hr : app.Reachable t₀) (h : Started t₀ w σ₀) (hno : ∀ b, σ₀ b ≠ .updating)
    (hrun : app.Run t₀ ls t) (hls : ∀ e ∈ ls, e.isReply = true) :
    ∃ σ new, Snap t₀ w σ₀ σ new t ∧ Stored t₀ t new := by
  have hbase : Stored t₀ t₀ [] := fun d v => by simp [createReplies, replies]
  have hinv : app.Reachable t ∧ ∃ σ new, Snap t₀ w σ₀ σ new t ∧ Stored t₀ t new := by
    refine hrun.invariant (I := fun t => app.Reachable t ∧ ∃ σ new, Snap t₀ w σ₀ σ new t ∧ Stored t₀ t new)
      (P := fun e => e.isReply = true) (fun u e v he hu hs => ?_) hls ⟨hr, σ₀, [], h.snap, hbase⟩
    obtain ⟨hru, σ, new, hsnap, hst⟩ := hu
    refine ⟨hru.step hs, ?_⟩
    cases e with
    | reply i ok =>
      obtain ⟨b, st, seg, hsnap'⟩ := hsnap.step h hs
      obtain ⟨-, -, hf⟩ := step_cases hs
      cases hf with
      | session _ he => cases he
      | reply _ _ c l₁ l₂ hp =>
      obtain ⟨tail, hlog, htail, -⟩ := reply_log u c ok (l₁ ++ l₂)
      have hseg : new ++ seg = new ++ .replied c ok :: tail := by
        have h1 := hsnap'.log
        rw [hlog, hsnap.log, List.append_assoc] at h1
        exact (List.append_cancel_left h1).symm
      rw [hseg] at hsnap'
      exact ⟨_, _, hsnap', hst.reply (docs_reachable hru) hp (hsnap.no_update hno) htail⟩
    | _ => cases he
  exact hinv.2

/-! ## The three outcomes -/

/-- The document of the order of basket `b`, encoded at the call. -/
def Encodes (s : App) (now : Basket → Date) (b : Basket) (data : OrderDoc) : Prop :=
  ∃ o, { s.stamp b with orderDate := some (now b) }.makeDataDictionary s.user.crsid = some (data, o)

/-- The only create of basket `b` that was answered is `w`'s. -/
def OnlyReply (new : List Obs) (b : Basket) (w : Write) (ok : Bool) : Prop :=
  ∀ v ok', v.basket = b → ((v, ok') ∈ createReplies new ↔ v = w ∧ ok' = ok)

/-- How the order of basket `b` came out, and the IDs it added to the history. -/
inductive Settled (s t : App) (now : Basket → Date) (new : List Obs) (b : Basket) : List Nat → Prop
  | empty (items : (s.order b).items = []) (order : t.order b = s.order b)
      (silent : ∀ c, .issued c ∈ new → c.basket ≠ b)
      (reply : ∀ v ok, v.basket = b → (v, ok) ∉ createReplies new)
      (docs : ∀ d v, v.basket = b → (t.orders d = some v ↔ s.orders d = some v)) :
      Settled s t now new b []
  | created (w : Write) (items : (s.order b).items ≠ []) (basket : w.basket = b)
      (data : Encodes s now b w.data) (reply : OnlyReply new b w true) (order : t.order b = {})
      (fresh : s.orders w.doc = none)
      (docs : ∀ d v, v.basket = b →
        (t.orders d = some v ↔ s.orders d = some v ∨ (v = w ∧ d = w.doc)))
      (history : (appendedDocs new).count w.doc = 1) : Settled s t now new b [w.doc]
  | failed (w : Write) (items : (s.order b).items ≠ []) (basket : w.basket = b)
      (data : Encodes s now b w.data) (reply : OnlyReply new b w false)
      (kept : (t.order b).items = (s.order b).items ∧ (t.order b).price = (s.order b).price ∧
        (t.order b).orderID = none)
      (docs : ∀ d v, v.basket = b → (t.orders d = some v ↔ s.orders d = some v))
      (history : w.doc ∉ appendedDocs new) : Settled s t now new b []

/-- Two creates in flight are for different documents. -/
theorem Started.apart {t₀ : App} {w : Basket → Write} {σ₀ : Basket → Stage} (h : Started t₀ w σ₀)
    (hd : Docs t₀) {b c : Basket} (hbc : b ≠ c) (hb : σ₀ b = .sent) (hc : σ₀ c = .sent) :
    (w c).doc ≠ (w b).doc := by
  have hmem : ∀ k, σ₀ k = .sent → .create (w k) ∈ t₀.pending := by
    intro k hk
    have hp := h.pending k
    rw [hk] at hp
    have hm : .create (w k) ∈ t₀.pendingOf k := by
      rw [show t₀.pendingOf k = [.create (w k)] from hp]; simp
    exact (List.mem_filter.mp hm).1
  obtain ⟨l₁, l₂, hp⟩ := List.append_of_mem (hmem b hb)
  have hcm := hmem c hc
  refine create_once hd hp (w c) ?_
  rw [hp] at hcm
  simp only [List.mem_append, List.mem_cons, Callback.create.injEq] at hcm ⊢
  rcases hcm with hm | he | hm
  · exact .inl hm
  · have := congrArg Write.basket he
    rw [h.basket, h.basket] at this
    exact absurd this.symm hbc
  · exact .inr hm

/-- How often the history lists the document of a create. -/
theorem Snap.count_appended {t₀ t : App} {w : Basket → Write} {σ₀ σ : Basket → Stage}
    {new : List Obs} (h : Snap t₀ w σ₀ σ new t) (h₀ : Started t₀ w σ₀) (hd : Docs t₀) {b : Basket}
    (hb : σ₀ b = .sent) (hno : ∀ b, σ₀ b ≠ .updating) :
    (appendedDocs new).count (w b).doc = ((σ b).appends (w b)).count (w b).doc := by
  have hother : ∀ c, c ≠ b → ((σ c).appends (w c)).count (w b).doc = 0 := by
    intro c hc
    rw [List.count_eq_zero]
    intro hm
    have hsent : σ₀ c = .sent := by
      rcases Stage.origin_self (h₀.origin c) with hi | hs | hu
      · have := Stage.origin_idle ((h.origin c).trans hi)
        rw [this] at hm; cases hm
      · exact hs
      · exact absurd hu (hno c)
    have hne := h₀.apart hd (Ne.symm hc) hb hsent
    have hdoc : (w b).doc = (w c).doc := by
      cases hσ : σ c <;> rw [hσ] at hm <;> simp [Stage.appends] at hm <;> exact hm
    exact hne hdoc.symm
  rw [h.appended.count_eq, both, List.count_append]
  cases b with
  | cafe => rw [hother .bar (by decide), Nat.add_zero]
  | bar => rw [hother .cafe (by decide), Nat.zero_add]

/-- A create is for a document that is not in the store. -/
theorem Placed.fresh {s t : App} {call : Nat} {now : Basket → Date} {b : Basket} {w : Write}
    {st : Stage} (h : Placed s t call now b w st) (hst : st = .sent) (hd : Docs s) :
    s.orders w.doc = none := by
  cases ho : s.orders w.doc with
  | none => rfl
  | some v =>
    have hlt := hd.stored _ v ho
    have hge := (h.data hst).1
    omega

/-- **All or nothing per outlet.** After one checkout from a reachable state
with nothing pending, once all its callbacks are delivered, each order has
settled in one of the three ways, and what was appended to the history is what
the two orders added: the document of a successful create, and nothing for an
empty order or a failed one. -/
theorem checkout_all_or_nothing {s t : App} {now : Basket → Date} {ls : List Ev}
    (hr : (app.when Sold).Reachable s) (hp : s.pending = [])
    (hrun : app.Run s (.checkout now :: ls) t) (hls : ∀ e ∈ ls, e.isReply = true)
    (hend : t.pending = []) :
    t.trap = none ∧ ∃ new ids, t.log = s.log ++ new ∧
      t.user.previousOrders = s.user.previousOrders ++ appendedDocs new ∧
      (appendedDocs new).Perm (both ids) ∧ ∀ b, Settled s t now new b (ids b) := by
  obtain - | ⟨hstep, hrest⟩ := hrun
  obtain ⟨ht, hu, rfl⟩ := step_iff.mp hstep
  have hr₀ : app.Reachable (s.checkout now) := hr.of_when.step hstep
  replace hrest : app.Run (s.checkout now) ls t := hrest
  have hnew := orderID_none hr.of_when ht hp
  obtain ⟨w, σ₀, h₀, hplaced, ⟨cs, hlog, hcs⟩, hprev, horders⟩ :=
    checkout_started now ht hu hp (encodable_reachable hr)
  have hno : ∀ b, σ₀ b ≠ .updating := fun b hb => (hplaced b).old hb (hnew b)
  obtain ⟨σ, new, hsnap, hstored⟩ := stored_run hr₀ h₀ hno hrest hls
  have hreplies : createReplies (cs.map Obs.issued ++ new) = createReplies new := by
    rw [createReplies_append, createReplies, replies_issued]; rfl
  have happended : appendedDocs (cs.map Obs.issued ++ new) = appendedDocs new := by
    rw [appendedDocs_append, appendedDocs_issued]; rfl
  refine ⟨hsnap.trap, cs.map Obs.issued ++ new, fun b => (σ b).appends (w b), ?_, ?_, ?_, fun b => ?_⟩
  · rw [hsnap.log, hlog, List.append_assoc]
  · rw [hsnap.history, hprev, happended]
  · rw [happended]; exact hsnap.appended
  have hpl := hplaced b
  have hpend := hsnap.pends_nil hend b
  have horig := hsnap.origin b
  have hdocs : ∀ d v, v.basket = b → (t.orders d = some v ↔
      s.orders d = some v ∨ ((v, true) ∈ (σ b).outcome (w b) ∧ v.doc = d)) := by
    intro d v hv
    rw [hstored d v, horders, hsnap.reply_iff h₀.basket hv]
  have hreply : ∀ v ok, v.basket = b → ((v, ok) ∈ createReplies (cs.map Obs.issued ++ new) ↔
      (v, ok) ∈ (σ b).outcome (w b)) := by
    intro v ok hv
    rw [hreplies, hsnap.reply_iff h₀.basket hv]
  have hord := hsnap.order b
  have hcount := fun hb : σ₀ b = .sent => hsnap.count_appended h₀ (docs_reachable hr₀) hb hno
  show Settled s t now (cs.map Obs.issued ++ new) b ((σ b).appends (w b))
  cases hσ : σ b <;> rw [hσ] at hpend horig hord hdocs hreply hcount
  case sent => cases hpend
  case created => obtain ⟨_, _, hl⟩ := hpend; cases hl
  case updating => exact absurd horig.symm (hno b)
  case updated => exact absurd horig.symm (hno b)
  case idle =>
    refine .empty (hpl.idle.mp horig.symm) (hord.trans (hpl.kept horig.symm)) ?_ (fun v ok hv => ?_)
      fun d v hv => ?_
    · intro c hc hcb
      rcases List.mem_append.mp hc with hc | hc
      · obtain ⟨k, hk, he⟩ := List.mem_map.mp hc
        cases he
        exact hcs c hk (by rw [hcb]; exact horig.symm)
      · exact hsnap.issued c hc (by rw [hcb]; exact horig.symm)
    · rw [hreply v ok hv]; simp [Stage.outcome]
    · rw [hdocs d v hv]; simp [Stage.outcome]
  case failed =>
    have hsent : σ₀ b = .sent := horig.symm
    have hbusy : σ₀ b ≠ .idle := by rw [hsent]; decide
    refine .failed (w b) (hpl.items_ne hbusy) hpl.basket (hpl.data hsent).2 ?_ ⟨?_, ?_, ?_⟩
      (fun d v hv => ?_) ?_
    · intro v ok hv
      rw [hreply v ok hv]; simp [Stage.outcome]
    · rw [hord]; exact hpl.items
    · rw [hord]; exact hpl.price
    · rw [hord]; exact hpl.orderID.trans (hnew b)
    · rw [hdocs d v hv]; simp [Stage.outcome]
    · rw [happended, ← List.count_eq_zero, hcount hsent]; rfl
  case done =>
    have hsent : σ₀ b = .sent := horig.symm
    have hbusy : σ₀ b ≠ .idle := by rw [hsent]; decide
    have hfresh := hpl.fresh hsent (docs_reachable hr.of_when)
    refine .created (w b) (hpl.items_ne hbusy) hpl.basket (hpl.data hsent).2 ?_ hord hfresh
      (fun d v hv => ?_) ?_
    · intro v ok hv
      rw [hreply v ok hv]; simp [Stage.outcome]
    · rw [hdocs d v hv]
      simp only [Stage.outcome, List.mem_singleton, Prod.mk.injEq, and_true]
      constructor
      · rintro (h | ⟨rfl, rfl⟩)
        · exact .inl h
        · exact .inr ⟨rfl, rfl⟩
      · rintro (h | ⟨rfl, rfl⟩)
        · exact .inl h
        · exact .inr ⟨rfl, rfl⟩
    · rw [happended, hcount hsent]; simp [Stage.appends]

/-- The create of the bar order fails, the cafe order goes through. -/
def barFails : List Ev := [.reply 1 false, .reply 0 true, .reply 0 true]

theorem teaAndAle_settled : ∃ s t, app.Run {} teaAndAle s ∧
    app.Run s (.checkout (fun _ => 0) :: barFails) t ∧
    ∃ new ids, t.log = s.log ++ new ∧ (appendedDocs new).Perm (both ids) ∧
      ∀ b, Settled s t (fun _ => 0) new b (ids b) := by
  obtain ⟨s, hrun, hp, t, hcheckout, hend⟩ : ∃ s, app.Run {} teaAndAle s ∧ s.pending = [] ∧
      ∃ t, app.Run s (.checkout (fun _ => 0) :: barFails) t ∧ t.pending = [] :=
    ⟨_, LTS.run_of_exec rfl, rfl, _, LTS.run_of_exec rfl, rfl⟩
  have hsold : ∀ e ∈ teaAndAle, ∀ s, Sold s e := by
    intro e he s b x hx
    subst hx
    simp only [teaAndAle, signUp, List.mem_append, List.mem_cons, List.not_mem_nil, or_false,
      reduceCtorEq, Ev.addItem.injEq, false_or] at he
    rcases he with ⟨-, rfl⟩ | ⟨-, rfl⟩ <;> decide
  have hr : (app.when Sold).Reachable s := (hrun.when hsold).reachable launch_default
  obtain ⟨-, new, ids, hlog, -, hperm, hsettled⟩ :=
    checkout_all_or_nothing hr hp hcheckout (by decide) hend
  exact ⟨s, t, hrun, hcheckout, new, ids, hlog, hperm, hsettled⟩

end App

end QadsCafe
