import QadsCafe.L4App.Replies
import QadsCafe.L4App.Sync

/-!
# The order history in memory

`saveOrder` runs its completion with either outcome, and the completion
appends the ID the order has by then. While the order is new after a failed
create nothing is appended; but an overlapping create of the same order may
have set the ID already, and then the failed one appends it a second time
(`failed_create_appended`).

`FailsNew` leaves exactly those deliveries out. `Grown` is what a run without
sign-in events does to the list, in terms of the log; `history_exact_iff` says
that the list is exact after such a run iff each of its steps met `FailsNew`.
-/
namespace QadsCafe

open Core

/-- The documents of the creates that were answered with success. -/
def createdDocs (l : List Obs) : List Nat :=
  (createReplies l).filterMap fun r => if r.2 then some r.1.doc else none

@[simp] theorem createdDocs_append (l m : List Obs) :
    createdDocs (l ++ m) = createdDocs l ++ createdDocs m := by
  simp [createdDocs]

namespace App

/-- A create is answered with failure only while its order has no ID. -/
def FailsNew (s : App) (e : Ev) : Prop :=
  ∀ i, e = .reply i false → ∀ w, s.pending[i]? = some (.create w) →
    (s.order w.basket).orderID = none

/-- From `s` to `t`, `previousOrders` grew by the documents whose create
succeeded in between, each of them once and none listed before. -/
def HistoryExact (s t : App) : Prop :=
  ∃ new, t.log = s.log ++ new ∧
    t.user.previousOrders = s.user.previousOrders ++ createdDocs new ∧
    (createdDocs new).Nodup ∧ ∀ d ∈ createdDocs new, d ∉ s.user.previousOrders

/-! ## What a run appends -/

structure Grown (s t : App) (new : List Obs) : Prop where
  log : t.log = s.log ++ new
  list : t.user.previousOrders = s.user.previousOrders ++ appendedDocs new
  length : (createdDocs new).length ≤ (appendedDocs new).length
  fresh : ∀ d ∈ createdDocs new, ¬ Past s d ∧ Past t d
  once : (createdDocs new).Nodup

theorem Grown.quiet {s t : App} {new : List Obs} (hl : t.log = s.log ++ new)
    (hp : t.user.previousOrders = s.user.previousOrders) (ha : appendedDocs new = [])
    (hc : createdDocs new = []) : Grown s t new := by
  refine ⟨hl, by rw [hp, ha, List.append_nil], by simp [ha, hc], fun d hd => ?_, ?_⟩
  · rw [hc] at hd; cases hd
  · rw [hc]; exact List.nodup_nil

theorem Grown.trans {s t u : App} {new later : List Obs} (h : Grown s t new) (h' : Grown t u later)
    (hst : ∀ d, Past s d → Past t d) (htu : ∀ d, Past t d → Past u d) :
    Grown s u (new ++ later) := by
  refine ⟨by rw [h'.log, h.log, List.append_assoc], ?_, ?_, fun d hd => ?_, ?_⟩
  · rw [h'.list, h.list, appendedDocs_append, List.append_assoc]
  · have h1 := h.length
    have h2 := h'.length
    simp only [createdDocs_append, appendedDocs_append, List.length_append]
    omega
  · rw [createdDocs_append, List.mem_append] at hd
    rcases hd with hd | hd
    · exact ⟨(h.fresh d hd).1, htu d (h.fresh d hd).2⟩
    · exact ⟨fun hp => (h'.fresh d hd).1 (hst d hp), (h'.fresh d hd).2⟩
  · rw [createdDocs_append, List.nodup_append]
    refine ⟨h.once, h'.once, ?_⟩
    rintro d hd _ hd' rfl
    exact (h'.fresh d hd').1 (h.fresh d hd).2

/-- The completion of a create appends the ID of its order, if it has one. -/
theorem Appends.grown {s t : App} {call : Nat} {b : Basket} (h : Appends s call b t) :
    ∃ tail, t.log = s.log ++ tail ∧ createdDocs tail = [] ∧
      t.user.previousOrders = s.user.previousOrders ++ appendedDocs tail ∧
      appendedDocs tail = (s.order b).orderID.toList := by
  cases h with
  | skip hn => exact ⟨[], by simp, rfl, by simp [appendedDocs], by rw [hn]; rfl⟩
  | trap doc hd =>
    exact ⟨[.appended s.user.uid doc], rfl, rfl, rfl, by rw [hd]; rfl⟩
  | issue doc uid hd =>
    refine ⟨[.appended s.user.uid doc,
      .issued (.history call b uid (s.append doc).user.previousOrders)], ?_, rfl, rfl, by rw [hd]; rfl⟩
    simp only [log_issue, log_append, List.append_assoc]
    rfl

theorem submit_log {s t : App} {call : Nat} {now : Basket → Date} {b : Basket}
    (h : Submit s call now b t) : ∃ cs : List Callback, t.log = s.log ++ cs.map Obs.issued := by
  cases h with
  | skip => exact ⟨[], by simp⟩
  | trap => exact ⟨[], by simp [crash]⟩
  | create => exact ⟨[_], rfl⟩
  | update _ _ _ doc => exact ⟨[_], rfl⟩

theorem createdDocs_issued (cs : List Callback) : createdDocs (cs.map Obs.issued) = [] := by
  rw [createdDocs, createReplies, replies_issued]; rfl

theorem checkout_grown (s : App) (now : Basket → Date) : ∃ new, Grown s (s.checkout now) new ∧
    appendedDocs new = [] ∧ createdDocs new = [] := by
  obtain ⟨cs₁, hl₁⟩ := submit_log (cafe_turn s now)
  obtain ⟨cs₂, hl₂⟩ := submit_log (bar_turn s now)
  have hnew : (s.checkout now).log = s.log ++ (cs₁ ++ cs₂).map Obs.issued := by
    rw [hl₂, hl₁, List.map_append, List.append_assoc]
  have hids : (s.checkout now).user.previousOrders = s.user.previousOrders := by
    rw [(bar_turn s now).lists.2.1, (cafe_turn s now).lists.2.1]
  have ha := appendedDocs_issued (cs₁ ++ cs₂)
  have hc := createdDocs_issued (cs₁ ++ cs₂)
  exact ⟨_, .quiet hnew hids ha hc, ha, hc⟩

/-- The answer to a create: with success its own ID is appended, with failure
the ID the order has from another create, if any. -/
theorem create_grown {s : App} (hd : Docs s) {w : Write} {l₁ l₂ : List Callback}
    (hp : s.pending = l₁ ++ .create w :: l₂) (ok : Bool) :
    ∃ new, Grown s (((s.settle (.create w) ok).answered (.create w) ok (l₁ ++ l₂)).follow (.create w)) new ∧
      createdDocs new = (if ok then [w.doc] else []) ∧
      appendedDocs new = if ok then [w.doc] else (s.order w.basket).orderID.toList := by
  have hmem : .create w ∈ s.pending := mem_of_split hp
  have hdocs : Docs ((s.settle (.create w) ok).answered (.create w) ok (l₁ ++ l₂)) := by
    rw [← settle_answered]; exact hd.settle hp ok
  obtain ⟨tail, hlog, hnone, hlist, htail⟩ := Appends.grown
    (appends_cases ((s.settle (.create w) ok).answered (.create w) ok (l₁ ++ l₂)) w.call w.basket)
  have hcreated : createdDocs (.replied (.create w) ok :: tail) = if ok then [w.doc] else [] := by
    rw [← List.singleton_append, createdDocs_append, hnone]
    cases ok <;> rfl
  have hid : ((s.settle (.create w) ok).order w.basket).orderID =
      if ok then some w.doc else (s.order w.basket).orderID := by
    cases ok with
    | false => rfl
    | true => simp only [settle, created, order_setOrder, if_true]
  have happended : appendedDocs (.replied (.create w) ok :: tail) =
      if ok then [w.doc] else (s.order w.basket).orderID.toList := by
    have hrest : appendedDocs (.replied (.create w) ok :: tail) = appendedDocs tail := rfl
    rw [hrest, htail]
    show ((s.settle (.create w) ok).order w.basket).orderID.toList = _
    rw [hid]
    cases ok <;> rfl
  refine ⟨.replied (.create w) ok :: tail, ⟨?_, ?_, ?_, fun d hdm => ?_, ?_⟩, hcreated, happended⟩
  · show _ = _
    rw [App.follow, hlog, log_answered, settle_log, List.append_assoc]
    rfl
  · rw [App.follow, hlist]
    congr 1
    cases ok with
    | false => rfl
    | true => exact User.previousOrders_setOrder _ _ _
  · rw [hcreated, happended]
    cases ok <;> simp
  · rw [hcreated] at hdm
    cases ok with
    | false => cases hdm
    | true =>
      obtain rfl := List.mem_singleton.mp hdm
      refine ⟨fun hpast => hpast.2 w hmem rfl, ?_⟩
      refine Past.mono ?_ (follow_fresher _ _)
      exact hdocs.past (b := w.basket) hid
  · rw [hcreated]
    cases ok <;> simp

theorem update_grown {s : App} {c : Callback} (hc : c.isCreate = false) (ok : Bool)
    (rest : List Callback) : ∃ new,
      Grown s (((s.settle c ok).answered c ok rest).follow c) new ∧
      appendedDocs new = [] ∧ createdDocs new = [] := by
  obtain ⟨tail, hlog, -, -, hdone⟩ := reply_log s c ok rest
  obtain ⟨call, rfl⟩ := hdone hc
  have ha : appendedDocs [.replied c ok, .completed call] = [] := rfl
  have hcd : createdDocs [.replied c ok, .completed call] = [] := by
    cases c with
    | create w => cases hc
    | _ => rfl
  have hids : (((s.settle c ok).answered c ok rest).follow c).user.previousOrders =
      s.user.previousOrders := by
    have hset : (s.settle c ok).user.previousOrders = s.user.previousOrders := by
      cases ok with
      | false => cases c <;> rfl
      | true =>
        cases c with
        | create w => cases hc
        | _ => rfl
    cases c with
    | create w => cases hc
    | _ => exact (User.previousOrders_setOrder _ _ _).trans hset
  exact ⟨_, .quiet hlog hids ha hcd, ha, hcd⟩

theorem failsNew_of_not_reply {s : App} {e : Ev} (he : e.isReply = false) : FailsNew s e := by
  rintro i rfl
  cases he

theorem failsNew_of_success (s : App) (i : Nat) : FailsNew s (.reply i true) := by
  intro j hj
  cases hj

theorem failsNew_of_no_create {s : App} {i : Nat} {ok : Bool} {c : Callback}
    (hc : s.pending[i]? = some c) (hn : c.isCreate = false) : FailsNew s (.reply i ok) := by
  rintro j hj w hw
  cases hj
  rw [hc] at hw
  cases hw; cases hn

theorem grown_reply {s t : App} {i : Nat} {ok : Bool} (hd : Docs s)
    (hs : s.step (.reply i ok) = some t) :
    ∃ new, Grown s t new ∧ (FailsNew s (.reply i ok) ↔ appendedDocs new = createdDocs new) := by
  obtain ⟨c, l₁, l₂, hp, hi, rfl⟩ := reply_cases hs
  have hget : s.pending[i]? = some c := by rw [hp, hi]; simp
  cases c with
  | create w =>
    obtain ⟨new, hg, hc, ha⟩ := create_grown hd hp ok
    refine ⟨new, hg, ?_⟩
    rw [hc, ha]
    cases ok with
    | true => exact ⟨fun _ => rfl, fun _ => failsNew_of_success s i⟩
    | false =>
      show FailsNew s (.reply i false) ↔ (s.order w.basket).orderID.toList = []
      rw [Option.toList_eq_nil_iff]
      constructor
      · intro h; exact h i rfl w hget
      · rintro h j hj v hv
        cases hj
        rw [hget] at hv; cases hv
        exact h
  | update w =>
    obtain ⟨new, hg, ha, hc⟩ := update_grown (s := s) (c := .update w) rfl ok (l₁ ++ l₂)
    exact ⟨new, hg, by rw [ha, hc]; exact ⟨fun _ => rfl, fun _ => failsNew_of_no_create hget rfl⟩⟩
  | history call b uid ids =>
    obtain ⟨new, hg, ha, hc⟩ :=
      update_grown (s := s) (c := .history call b uid ids) rfl ok (l₁ ++ l₂)
    exact ⟨new, hg, by rw [ha, hc]; exact ⟨fun _ => rfl, fun _ => failsNew_of_no_create hget rfl⟩⟩

/-- **One step.** What it appends is what was created iff it meets `FailsNew`. -/
theorem grown_step {s t : App} {e : Ev} (hd : Docs s) (hs : s.step e = some t)
    (he : e.isSession = false) :
    ∃ new, Grown s t new ∧ (FailsNew s e ↔ appendedDocs new = createdDocs new) := by
  -- the steps that append nothing and answer no create
  have hquiet : ∀ {u : App}, FailsNew s e → (∃ new, Grown s u new ∧ appendedDocs new = [] ∧
      createdDocs new = []) →
      ∃ new, Grown s u new ∧ (FailsNew s e ↔ appendedDocs new = createdDocs new) := by
    rintro u hf ⟨new, hg, ha, hc⟩
    exact ⟨new, hg, by rw [ha, hc]; exact ⟨fun _ => rfl, fun _ => hf⟩⟩
  have hf := (step_cases hs).2.2
  cases hf with
  | addItem b x =>
    exact hquiet (failsNew_of_not_reply rfl)
      ⟨[.added s.nextRef], .quiet rfl (User.previousOrders_setOrder _ _ _) rfl rfl, rfl, rfl⟩
  | badIndex =>
    exact hquiet (failsNew_of_not_reply rfl) ⟨[], .quiet (by simp [crash]) rfl rfl rfl, rfl, rfl⟩
  | removeItemAt index b i x =>
    exact hquiet (failsNew_of_not_reply rfl)
      ⟨[.removed x.tag.ref], .quiet rfl (User.previousOrders_setOrder _ _ _) rfl rfl, rfl, rfl⟩
  | textFieldDidEndEditing text =>
    exact hquiet (failsNew_of_not_reply rfl)
      ⟨[], .quiet (by simp [App.textFieldDidEndEditing]) rfl rfl rfl, rfl, rfl⟩
  | checkout now => exact hquiet (failsNew_of_not_reply rfl) (checkout_grown s now)
  | reply i ok c l₁ l₂ hp => exact grown_reply hd hs
  | session _ hses => rw [he] at hses; cases hses

/-- **A run.** -/
theorem grown_run {s t : App} {ls : List Ev} (hs : app.Reachable s) (hr : app.Run s ls t)
    (hls : ∀ e ∈ ls, e.isSession = false) :
    ∃ new, Grown s t new ∧
      ((app.when FailsNew).Run s ls t ↔ appendedDocs new = createdDocs new) ∧
      ∀ d, Past s d → Past t d := by
  induction hr with
  | nil s => exact ⟨[], .quiet (by simp) rfl rfl rfl, ⟨fun _ => rfl, fun _ => .nil s⟩, fun _ => id⟩
  | @cons s u t e ls h hr ih =>
    have hdocs := docs_reachable hs
    obtain ⟨new₁, hg₁, hiff₁⟩ := grown_step hdocs h (hls e List.mem_cons_self)
    obtain ⟨new₂, hg₂, hiff₂, hpast⟩ := ih (hs.step h) fun e he => hls e (List.mem_cons_of_mem _ he)
    have hstep : ∀ d, Past s d → Past u d := fun d hd => hd.mono (fresher_step h)
    refine ⟨new₁ ++ new₂, hg₁.trans hg₂ hstep hpast, ?_, fun d hd => hpast d (hstep d hd)⟩
    rw [run_when_cons h, hiff₁, hiff₂, appendedDocs_append, createdDocs_append]
    constructor
    · rintro ⟨he₁, he₂⟩
      rw [he₁, he₂]
    · intro he
      -- neither part created more than it appended, so both agree
      have hlen := congrArg List.length he
      have hl₁ := hg₁.length
      have hl₂ := hg₂.length
      simp only [List.length_append] at hlen
      exact List.append_inj he (by omega)

/-! ## The exact condition -/

/-- **The history in memory.** After any run of a session the list is exact
iff every create that failed found its order without an ID. -/
theorem history_exact_iff {s t : App} {ls : List Ev} (hs : app.Reachable s) (hr : app.Run s ls t)
    (hls : ∀ e ∈ ls, e.isSession = false) :
    HistoryExact s t ↔ (app.when FailsNew).Run s ls t := by
  obtain ⟨new, hg, hiff, -⟩ := grown_run hs hr hls
  rw [hiff]
  constructor
  · rintro ⟨new', hlog, hlist, -⟩
    obtain rfl : new' = new := List.append_cancel_left (hlog.symm.trans hg.log)
    exact List.append_cancel_left (hg.list.symm.trans hlist)
  · intro he
    refine ⟨new, hg.log, by rw [hg.list, he], hg.once, fun d hd hmem => ?_⟩
    exact (hg.fresh d hd).1 ((histories_reachable hs).current d hmem)

/-- Two checkouts of one item overlap. -/
def overlapping : List Ev :=
  [.addItem .cafe (plainItem "tea" "Cafe"), .checkout fun _ => 0, .checkout fun _ => 1, .reply 0 true]

theorem overlapping_exact : ∃ s t, app.Run {} signUp s ∧ app.Run s (overlapping ++ [.reply 0 true]) t ∧
    (HistoryExact s t ↔ (app.when FailsNew).Run s (overlapping ++ [.reply 0 true]) t) := by
  obtain ⟨s, hs, t, ht⟩ : ∃ s, app.Run {} signUp s ∧
      ∃ t, app.Run s (overlapping ++ [.reply 0 true]) t :=
    ⟨_, LTS.run_of_exec rfl, _, LTS.run_of_exec rfl⟩
  exact ⟨s, t, hs, ht, history_exact_iff (hs.reachable launch_default) ht (by decide)⟩

/-- **A failed create is appended**, under the ID that the other one got. -/
theorem failed_create_appended : ∃ s t, app.Run {} signUp s ∧
    app.Run s (overlapping ++ [.reply 0 false]) t ∧ t.user.previousOrders = [0, 0] ∧
    ¬ HistoryExact s t := by
  refine ⟨_, _, LTS.run_of_exec rfl, LTS.run_of_exec rfl, rfl, ?_⟩
  rintro ⟨new, -, hlist, hnodup, -⟩
  have hnew : [0, 0] = createdDocs new := hlist
  rw [← hnew] at hnodup
  exact absurd hnodup (by decide)

end App

end QadsCafe
