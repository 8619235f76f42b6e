import QadsCafe.L4App.Baskets
import QadsCafe.L4App.Replies

/-!
# How often a checkout reports back

The completion closure given to `checkout` presents the confirmation. It is
called at the end of each order's chain of callbacks, so once per order and
not once per checkout; a failed create ends the chain early, in the `return`
of `addToPreviousOrders`, without it.

One checkout therefore reports back exactly once, after everything has
settled, iff exactly one of the two orders finishes its chain (`Finishes`) and
the other one does not have its create fail after that (`FailsLast`). Whether
the orders have IDs does not matter, nor do the outcomes of the updates and of
the history writes.
-/
namespace QadsCafe

open Core

namespace App

/-- The completion of `call` is called exactly once, and no callback is
delivered after it. -/
def ReportsOnce (call : Nat) (new : List Obs) : Prop :=
  (completions new).count call = 1 ∧
    ∀ pre post, new = pre ++ .completed call :: post → replies post = []

/-- The order of `b` has something to send, and no create of it fails. -/
def Finishes (s : App) (new : List Obs) (b : Basket) : Prop :=
  (s.order b).items ≠ [] ∧ ∀ w, w.basket = b → (w, false) ∉ createReplies new

/-- The callback delivered last is that of a failed create. -/
def FailsLast (new : List Obs) : Prop := ∃ w, (replies new).getLast? = some (.create w, false)

/-! ## The last reply -/

/-- How a run of replies ends. -/
inductive Ends (t : App) : List Obs → Prop
  | start (new : List Obs) (hc : completions new = []) : Ends t new
  | create (pre : List Obs) (w : Write) (ok : Bool) (tail : List Obs) (hr : replies tail = [])
      (hc : completions tail = []) (hp : ok = true → t.pending ≠ []) :
      Ends t (pre ++ .replied (.create w) ok :: tail)
  | completed (pre : List Obs) (c : Callback) (ok : Bool) (call : Nat) (hc : c.isCreate = false) :
      Ends t (pre ++ [.replied c ok, .completed call])

theorem ends_run {t₀ t : App} {w : Basket → Write} {σ₀ : Basket → Stage} {ls : List Ev}
    (h : Started t₀ w σ₀) (hrun : app.Run t₀ ls t) (hls : ∀ e ∈ ls, e.isReply = true) :
    ∃ σ new, Snap t₀ w σ₀ σ new t ∧ Ends t new := by
  refine hrun.invariant (I := fun t => ∃ σ new, Snap t₀ w σ₀ σ new t ∧ Ends t new)
    (P := fun e => e.isReply = true) (fun u e v he hu hs => ?_) hls ⟨σ₀, [], h.snap, .start [] rfl⟩
  obtain ⟨σ, new, hsnap, -⟩ := hu
  cases e with
  | reply i ok =>
    obtain ⟨b, st, seg, hsnap'⟩ := hsnap.step h hs
    obtain ⟨ht, -, hf⟩ := step_cases hs
    cases hf with
    | session _ he => cases he
    | reply _ _ c l₁ l₂ hp =>
    obtain ⟨tail, hlog, htail, hcreate, hother⟩ := reply_log u c ok (l₁ ++ l₂)
    have hseg : seg = .replied c ok :: tail := by
      have h1 := hsnap'.log
      rw [hlog, hsnap.log, List.append_assoc] at h1
      exact (List.append_cancel_left (List.append_cancel_left h1)).symm
    subst hseg
    refine ⟨_, _, hsnap', ?_⟩
    cases hc : c.isCreate with
    | false =>
      obtain ⟨call, rfl⟩ := hother hc
      exact .completed new c ok call hc
    | true =>
      cases c with
      | create v =>
        refine .create new v ok tail htail (hcreate rfl) fun hok => ?_
        subst hok
        -- a successful create leaves its history write pending
        obtain ⟨uid, huid⟩ := Option.isSome_iff_exists.mp h.uid
        have hstep := create_step ht (hsnap.uid.trans huid) hp
        rw [reply_step ht hp true] at hstep
        rw [Option.some.inj hstep]
        exact List.append_ne_nil_of_right_ne_nil _ (List.cons_ne_nil _ _)
      | _ => cases hc
  | _ => cases he

/-- What the log held before the replies does not matter. -/
theorem Ends.prepend {t : App} {new l : List Obs} (h : Ends t new) (hl : completions l = []) :
    Ends t (l ++ new) := by
  cases h with
  | start new hc => exact .start _ (by rw [completions_append, hl, hc]; rfl)
  | create pre w ok tail hr hc hp =>
    rw [← List.append_assoc]; exact .create (l ++ pre) w ok tail hr hc hp
  | completed pre c ok call hc =>
    rw [← List.append_assoc]; exact .completed (l ++ pre) c ok call hc

theorem completed_mem {call : Nat} {new : List Obs} : .completed call ∈ new ↔ call ∈ completions new := by
  rw [completions, List.mem_filterMap]
  constructor
  · intro h; exact ⟨_, h, rfl⟩
  · rintro ⟨o, ho, he⟩
    cases o <;> cases he
    exact ho

theorem replies_cons (c : Callback) (ok : Bool) (l : List Obs) :
    replies (.replied c ok :: l) = (c, ok) :: replies l := rfl

theorem completions_replied (c : Callback) (ok : Bool) (l : List Obs) :
    completions (.replied c ok :: l) = completions l := rfl

/-- A single completion comes after everything else iff the run does not end
with a failed create. -/
theorem Ends.timely {t : App} {new : List Obs} (h : Ends t new) (hp : t.pending = []) {call : Nat}
    (h1 : completions new = [call]) :
    (∀ pre post, new = pre ++ .completed call :: post → replies post = []) ↔ ¬ FailsLast new := by
  cases h with
  | start _ hc => rw [hc] at h1; cases h1
  | create pre w ok tail hr hc hnp =>
    have hok : ok = false := by
      cases ok with
      | false => rfl
      | true => exact absurd hp (hnp rfl)
    subst hok
    have hlast : FailsLast (pre ++ .replied (.create w) false :: tail) := by
      refine ⟨w, ?_⟩
      rw [replies_append, replies_cons, hr, List.getLast?_concat]
    have hpre : completions pre = [call] := by
      rw [completions_append, completions_replied, hc, List.append_nil] at h1
      exact h1
    obtain ⟨l, m, hl⟩ := List.append_of_mem (completed_mem.mpr (by rw [hpre]; simp : call ∈ completions pre))
    constructor
    · intro htimely
      have hnil := htimely l (m ++ .replied (.create w) false :: tail) (by rw [hl]; simp)
      rw [replies_append, replies_cons] at hnil
      simp at hnil
    · intro hn; exact absurd hlast hn
  | completed pre c ok last hc =>
    have hsplit : completions pre = [] ∧ last = call := by
      rw [completions_append] at h1
      have hlen := congrArg List.length h1
      have htail : completions [.replied c ok, .completed last] = [last] := rfl
      rw [htail] at h1 hlen
      simp only [List.length_append, List.length_cons, List.length_nil] at hlen
      have hnil : completions pre = [] := List.length_eq_zero_iff.mp (by omega)
      rw [hnil] at h1
      simp only [List.nil_append, List.cons.injEq, and_true] at h1
      exact ⟨hnil, h1⟩
    refine ⟨fun _ hf => ?_, fun _ l m hlm => ?_⟩
    · obtain ⟨w, hw⟩ := hf
      have hlast : (replies (pre ++ [.replied c ok, .completed last])).getLast? = some (c, ok) := by
        rw [replies_append]
        exact List.getLast?_concat
      rw [hlast] at hw
      cases hw; cases hc
    · rcases List.eq_nil_or_concat m with rfl | ⟨m', o, rfl⟩
      · rfl
      · -- the completion would stand before the last one
        have hinit : pre ++ [.replied c ok] = l ++ .completed call :: m' := by
          have h2 : (pre ++ [.replied c ok]) ++ [.completed last] =
              (l ++ .completed call :: m') ++ [o] := by simpa using hlm
          exact List.append_inj_left' h2 rfl
        have hmem : call ∈ completions (pre ++ [.replied c ok]) := by
          rw [hinit]; exact completed_mem.mp (by simp)
        rw [completions_append, hsplit.1] at hmem
        cases hmem

/-! ## How often -/

theorem existsUnique_basket {P : Basket → Prop} : (∃! b, P b) ↔ (P .cafe ↔ ¬ P .bar) := by
  constructor
  · rintro ⟨b, hb, hu⟩
    constructor
    · intro hcafe hbar
      have he : Basket.cafe = .bar := (hu _ hcafe).trans (hu _ hbar).symm
      cases he
    · intro hn
      cases b with
      | cafe => exact hb
      | bar => exact absurd hb hn
  · intro h
    by_cases hbar : P .bar
    · refine ⟨.bar, hbar, fun b hb => ?_⟩
      cases b with
      | cafe => exact absurd hbar (h.mp hb)
      | bar => rfl
    · refine ⟨.cafe, h.mpr hbar, fun b hb => ?_⟩
      cases b with
      | cafe => rfl
      | bar => exact absurd hb hbar

/-- Once settled, an order has completed the call once if it finishes and
never otherwise. -/
theorem completes_settled {s t₀ t : App} {w : Basket → Write} {σ₀ σ : Basket → Stage}
    {new : List Obs} {now : Basket → Date} (h : Snap t₀ w σ₀ σ new t) (h₀ : Started t₀ w σ₀)
    {b : Basket} (hpl : Placed s t₀ s.calls now b (w b) (σ₀ b)) (hp : t.pending = []) :
    (Finishes s new b ∧ (σ b).completes (w b) = [s.calls]) ∨
      (¬ Finishes s new b ∧ (σ b).completes (w b) = []) := by
  have hpend := h.pends_nil hp b
  have horig := h.origin b
  have hreply := fun v hv => h.reply_iff h₀.basket (b := b) (v := v) hv false
  cases hσ : σ b <;> rw [hσ] at hpend horig hreply
  case sent => cases hpend
  case created => obtain ⟨_, _, hl⟩ := hpend; cases hl
  case updating => cases hpend
  case idle => exact .inr ⟨fun hf => hf.1 (hpl.idle.mp horig.symm), rfl⟩
  case failed =>
    refine .inr ⟨fun hf => hf.2 (w b) (h₀.basket b) ?_, rfl⟩
    rw [hreply _ (h₀.basket b)]; simp [Stage.outcome]
  case done =>
    refine .inl ⟨⟨hpl.items_ne ?_, fun v hv => ?_⟩, by rw [← hpl.call]; rfl⟩
    · rw [← horig]; decide
    · rw [hreply v hv]; simp [Stage.outcome]
  case updated =>
    refine .inl ⟨⟨hpl.items_ne ?_, fun v hv => ?_⟩, by rw [← hpl.call]; rfl⟩
    · rw [← horig]; decide
    · rw [hreply v hv]; simp [Stage.outcome]

theorem count_one_iff {s t₀ t : App} {w : Basket → Write} {σ₀ σ : Basket → Stage}
    {new : List Obs} {now : Basket → Date} (h : Snap t₀ w σ₀ σ new t) (h₀ : Started t₀ w σ₀)
    (hpl : ∀ b, Placed s t₀ s.calls now b (w b) (σ₀ b)) (hp : t.pending = []) :
    ((completions new).count s.calls = 1 ↔ ∃! b, Finishes s new b) ∧
      ((completions new).count s.calls = 1 → completions new = [s.calls]) := by
  have hperm : (completions new).Perm
      ((σ .cafe).completes (w .cafe) ++ (σ .bar).completes (w .bar)) := h.completed
  rw [existsUnique_basket]
  rcases completes_settled h h₀ (hpl .cafe) hp with ⟨hc, h1⟩ | ⟨hc, h1⟩ <;>
    rcases completes_settled h h₀ (hpl .bar) hp with ⟨hb, h2⟩ | ⟨hb, h2⟩ <;>
    rw [h1, h2] at hperm
  · rw [hperm.count_eq]; simp [hc, hb]
  · rw [List.perm_singleton.mp hperm]; simp [hc, hb]
  · rw [List.perm_singleton.mp hperm]; simp [hc, hb]
  · rw [List.perm_nil.mp hperm]; simp [hc, hb]

/-- **Reporting back.** One checkout and all its callbacks, whatever their
outcomes and their order: the completion is called exactly once and last iff
exactly one order finishes and the last callback is not a failed create's. -/
theorem reports_once_iff {s t : App} {now : Basket → Date} {ls : List Ev} (hp : s.pending = [])
    (he : ∀ b, Encodable (s.order b).items) (hrun : app.Run s (.checkout now :: ls) t)
    (hls : ∀ e ∈ ls, e.isReply = true) (hend : t.pending = []) :
    ∃ new, t.log = s.log ++ new ∧
      (ReportsOnce s.calls new ↔ (∃! b, Finishes s new b) ∧ ¬ FailsLast new) := by
  obtain - | ⟨hstep, hrest⟩ := hrun
  obtain ⟨ht, hu, rfl⟩ := step_iff.mp hstep
  replace hrest : app.Run (s.checkout now) ls t := hrest
  obtain ⟨w, σ₀, h₀, hplaced, ⟨cs, hlog, -⟩, -, -⟩ := checkout_started now ht hu hp he
  obtain ⟨σ, new, hsnap, hends⟩ := ends_run h₀ hrest hls
  have hc : completions (cs.map Obs.issued ++ new) = completions new := by
    rw [completions_append, completions_issued]; rfl
  have hr : replies (cs.map Obs.issued ++ new) = replies new := by
    rw [replies_append, replies_issued]; rfl
  have hfinishes : Finishes s (cs.map Obs.issued ++ new) = Finishes s new := by
    funext b; simp only [Finishes, createReplies, hr]
  obtain ⟨hcount, hsingle⟩ := count_one_iff hsnap h₀ hplaced hend
  have htimely := fun h1 => (hends.prepend (completions_issued cs)).timely hend
    (hc.trans (hsingle h1))
  refine ⟨cs.map Obs.issued ++ new, by rw [hsnap.log, hlog, List.append_assoc], ?_⟩
  rw [ReportsOnce, hfinishes, ← hcount, hc]
  constructor
  · rintro ⟨h1, hlast⟩
    exact ⟨h1, (htimely h1).mp hlast⟩
  · rintro ⟨h1, hlast⟩
    exact ⟨h1, (htimely h1).mpr hlast⟩

/-- Only the cafe order has an item. -/
def teaOnly : List Ev := signUp ++ [.addItem .cafe (plainItem "tea" "Cafe")]

theorem teaOnly_reported : ∃ s t new, app.Run {} teaOnly s ∧
    app.Run s [.checkout fun _ => 0, .reply 0 true, .reply 0 false] t ∧ t.log = s.log ++ new ∧
    (ReportsOnce s.calls new ↔ (∃! b, Finishes s new b) ∧ ¬ FailsLast new) := by
  obtain ⟨s, hrun, hp, t, hcheckout, hend⟩ : ∃ s, app.Run {} teaOnly s ∧ s.pending = [] ∧
      ∃ t, app.Run s [.checkout fun _ => 0, .reply 0 true, .reply 0 false] t ∧ t.pending = [] :=
    ⟨_, LTS.run_of_exec rfl, rfl, _, LTS.run_of_exec rfl, rfl⟩
  have hsold : ∀ e ∈ teaOnly, ∀ s, Sold s e := by
    intro e he s b x hx
    subst hx
    simp only [teaOnly, signUp, List.mem_append, List.mem_cons, List.not_mem_nil, or_false,
      reduceCtorEq, Ev.addItem.injEq, false_or] at he
    rw [he.2]; decide
  have hr : (app.when Sold).Reachable s := (hrun.when hsold).reachable launch_default
  obtain ⟨new, hlog, hiff⟩ := reports_once_iff hp (encodable_reachable hr) hcheckout (by decide) hend
  exact ⟨s, t, new, hrun, hcheckout, hlog, hiff⟩

/-- **Twice or never.** With an item in each order and every write accepted the
completion is called twice; if both creates fail it is not called. -/
theorem reports_twice_or_never : ∃ s, app.Run {} teaAndAle s ∧ completions s.log = [] ∧
    (∃ t, app.Run s [.checkout fun _ => 0, .reply 0 true, .reply 0 true, .reply 0 true,
      .reply 0 true] t ∧ t.pending = [] ∧ completions t.log = [s.calls, s.calls]) ∧
    ∃ t, app.Run s [.checkout fun _ => 0, .reply 0 false, .reply 0 false] t ∧ t.pending = [] ∧
      completions t.log = [] :=
  ⟨_, LTS.run_of_exec rfl, rfl, ⟨_, LTS.run_of_exec rfl, rfl, rfl⟩, _, LTS.run_of_exec rfl, rfl, rfl⟩

end App

end QadsCafe
