import QadsCafe.L4App.Invariant

/-!
# Document IDs that are used up

A pending create is for a document that does not exist yet; once its ID has
been appended to a list of orders it is of the `Past`: no later create is for
it. `fresher_step` is all that one step can do to the creates in flight, and
`Histories` the invariant that follows: the lists of order IDs in memory, on
the server and on their way to it hold IDs of the past.
-/
namespace QadsCafe

open Core

namespace App

/-- No later create is for document `d`. -/
def Past (s : App) (d : Nat) : Prop := d < s.nextID ∧ ∀ w, .create w ∈ s.pending → w.doc ≠ d

/-- `t` has the creates of `s` and new ones for fresh documents. -/
def Fresher (s t : App) : Prop :=
  s.nextID ≤ t.nextID ∧ ∀ w, .create w ∈ t.pending → .create w ∈ s.pending ∨ s.nextID ≤ w.doc

theorem Past.mono {s t : App} {d : Nat} (h : Past s d) (hf : Fresher s t) : Past t d := by
  refine ⟨Nat.lt_of_lt_of_le h.1 hf.1, fun w hw => ?_⟩
  rcases hf.2 w hw with hw | hw
  · exact h.2 w hw
  · have := h.1; omega

theorem Fresher.congr {s t : App} (hn : t.nextID = s.nextID) (hp : t.pending ⊆ s.pending) :
    Fresher s t := ⟨by omega, fun _ hw => .inl (hp hw)⟩

theorem Fresher.trans {s t u : App} (h : Fresher s t) (h' : Fresher t u) : Fresher s u := by
  refine ⟨Nat.le_trans h.1 h'.1, fun w hw => ?_⟩
  rcases h'.2 w hw with hw | hw
  · exact h.2 w hw
  · have := h.1; exact .inr (by omega)

/-- A request that is no create. -/
theorem fresher_issue (s : App) {c : Callback} (hc : c.isCreate = false) : Fresher s (s.issue c) := by
  refine ⟨Nat.le_refl _, fun w hw => ?_⟩
  rcases (mem_issue s).mp hw with hw | rfl
  · exact .inl hw
  · cases hc

theorem Submit.fresher {s t : App} {call : Nat} {now : Basket → Date} {b : Basket}
    (h : Submit s call now b t) : Fresher s t := by
  cases h with
  | skip => exact .congr rfl (List.Subset.refl _)
  | trap => exact .congr rfl (List.Subset.refl _)
  | create =>
    refine ⟨Nat.le_succ _, fun w hw => ?_⟩
    rcases (mem_issue _).mp hw with hw | hw
    · exact .inl hw
    · cases hw; exact .inr (Nat.le_refl _)
  | update _ _ _ doc => exact fresher_issue (s.setOrder b (s.updatedOrder b)) rfl

theorem follow_fresher (s : App) (c : Callback) : Fresher s (s.follow c) := by
  cases c with
  | create w =>
    refine follow_create s w fun t ha => ?_
    cases ha with
    | skip => exact .congr rfl (List.Subset.refl _)
    | trap => exact .congr rfl (List.Subset.refl _)
    | issue doc uid => exact fresher_issue (s.append doc) rfl
  | update w => exact .congr rfl (List.Subset.refl _)
  | history => exact .congr rfl (List.Subset.refl _)

theorem settle_nextID (s : App) (c : Callback) (ok : Bool) : (s.settle c ok).nextID = s.nextID := by
  cases c <;> cases ok <;> rfl

theorem answered_fresher {s : App} {c : Callback} {l₁ l₂ : List Callback}
    (hp : s.pending = l₁ ++ c :: l₂) (ok : Bool) :
    Fresher s ((s.settle c ok).answered c ok (l₁ ++ l₂)) :=
  .congr (settle_nextID s c ok) (rest_subset hp)

theorem fresher_step {s t : App} {e : Ev} (h : s.step e = some t) : Fresher s t := by
  obtain ⟨-, -, hf⟩ := step_cases h
  cases hf with
  | addItem b x => exact .congr rfl (List.Subset.refl _)
  | badIndex => exact .congr rfl (List.Subset.refl _)
  | removeItemAt => exact .congr rfl (List.Subset.refl _)
  | textFieldDidEndEditing => exact .congr rfl (List.Subset.refl _)
  | checkout now =>
    have h0 : Fresher s { s with calls := s.calls + 1 } := .congr rfl (List.Subset.refl _)
    exact (h0.trans (cafe_turn s now).fresher).trans (bar_turn s now).fresher
  | reply i ok c l₁ l₂ hp => exact (answered_fresher hp ok).trans (follow_fresher _ c)
  | session _ _ f => exact .congr f.nextID (by rw [f.pending]; exact List.Subset.refl _)

theorem Docs.past {s : App} (h : Docs s) {b : Basket} {d : Nat} (hd : (s.order b).orderID = some d) :
    Past s d := by
  obtain ⟨v, hv, -⟩ := h.order b d hd
  refine ⟨h.stored d v hv, ?_⟩
  rintro w hw rfl
  rw [(h.create w hw).1] at hv
  cases hv

/-- The writes in flight are for documents whose ID is handed out. -/
theorem Docs.write_lt {s : App} (h : Docs s) {c : Callback} (hc : c ∈ s.pending) {w : Write}
    (hw : c.write? = some w) : w.doc < s.nextID := by
  cases c with
  | create v => cases hw; exact (h.create w hc).2
  | update v =>
    cases hw
    obtain ⟨v, hv, -⟩ := h.update w hc
    exact h.stored _ v hv
  | history => cases hw

/-- Every list of order IDs is of the past. -/
structure Histories (s : App) : Prop where
  current : ∀ d ∈ s.user.previousOrders, Past s d
  stored : ∀ uid p, s.users uid = some p → ∀ d ∈ p.previousOrders, Past s d
  written : ∀ call b uid ids, .history call b uid ids ∈ s.pending → ∀ d ∈ ids, Past s d

theorem Histories.mono {s t : App} (h : Histories s) (hf : Fresher s t)
    (hc : t.user.previousOrders = s.user.previousOrders) (hu : t.users = s.users)
    (hp : ∀ call b uid ids, .history call b uid ids ∈ t.pending →
      .history call b uid ids ∈ s.pending) : Histories t := by
  refine ⟨fun d hd => ?_, fun uid p hu' d hd => ?_, fun call b uid ids hi d hd => ?_⟩
  · rw [hc] at hd
    exact (h.current d hd).mono hf
  · rw [hu] at hu'
    exact (h.stored uid p hu' d hd).mono hf
  · exact (h.written call b uid ids (hp _ _ _ _ hi) d hd).mono hf

theorem Histories.submit {s t : App} {call : Nat} {now : Basket → Date} {b : Basket}
    (h : Histories s) (hs : Submit s call now b t) : Histories t := by
  have hf := hs.fresher
  cases hs with
  | skip => exact h
  | trap => exact h.mono hf rfl rfl fun _ _ _ _ hi => hi
  | create =>
    refine h.mono hf (User.previousOrders_setOrder _ _ _) rfl fun _ _ _ _ hi => ?_
    rcases (mem_issue _).mp hi with hi | hi
    · exact hi
    · cases hi
  | update _ _ _ doc =>
    refine h.mono hf (User.previousOrders_setOrder _ _ _) rfl fun _ _ _ _ hi => ?_
    rcases (mem_issue _).mp hi with hi | hi
    · exact hi
    · cases hi

theorem Histories.answered {s : App} (h : Histories s) {c : Callback} {l₁ l₂ : List Callback}
    (hp : s.pending = l₁ ++ c :: l₂) (ok : Bool) :
    Histories ((s.settle c ok).answered c ok (l₁ ++ l₂)) := by
  have hf := answered_fresher hp ok
  have hkeep : ∀ call b uid ids, .history call b uid ids ∈ l₁ ++ l₂ →
      .history call b uid ids ∈ s.pending := fun _ _ _ _ hi => rest_subset hp hi
  cases ok with
  | false => cases c <;> exact h.mono hf rfl rfl hkeep
  | true =>
    cases c with
    | create w => exact h.mono hf (User.previousOrders_setOrder _ _ _) rfl hkeep
    | update w => exact h.mono hf rfl rfl hkeep
    | history call b uid ids =>
      refine ⟨fun d hd => (h.current d hd).mono hf, fun u p hu d hd => ?_,
        fun call' b' u ids' hi d hd => (h.written call' b' u ids' (hkeep _ _ _ _ hi) d hd).mono hf⟩
      rcases profile_of_history hu with hu' | ⟨-, q, -, rfl⟩
      · exact (h.stored u p hu' d hd).mono hf
      · exact (h.written call b uid ids (mem_of_split hp) d hd).mono hf

theorem Histories.follow {s : App} (h : Histories s) (hd : Docs s) (c : Callback) :
    Histories (s.follow c) := by
  have hf := follow_fresher s c
  cases c with
  | create w =>
    have ha := appends_cases s w.call w.basket
    simp only [App.follow] at hf ⊢
    generalize s.addToPreviousOrders w.call w.basket = t at ha hf
    -- the list with the appended ID
    have hlist : ∀ doc, (s.order w.basket).orderID = some doc →
        ∀ d ∈ s.user.previousOrders ++ [doc], Past t d := by
      intro doc hdoc d hmem
      rcases List.mem_append.mp hmem with hmem | hmem
      · exact (h.current d hmem).mono hf
      · rw [List.mem_singleton.mp hmem]
        exact (hd.past hdoc).mono hf
    cases ha with
    | skip => exact h
    | trap doc hdoc =>
      exact ⟨hlist doc hdoc, fun uid p hu d hm => (h.stored uid p hu d hm).mono hf,
        fun call b uid ids hi d hm => (h.written call b uid ids hi d hm).mono hf⟩
    | issue doc uid hdoc =>
      refine ⟨hlist doc hdoc, fun u p hu d hm => (h.stored u p hu d hm).mono hf,
        fun call b u ids hi d hm => ?_⟩
      rcases (mem_issue _).mp hi with hi | hi
      · exact (h.written call b u ids hi d hm).mono hf
      · cases hi; exact hlist doc hdoc d hm
  | update w => exact h.mono hf (User.previousOrders_setOrder _ _ _) rfl fun _ _ _ _ hi => hi
  | history => exact h.mono hf (User.previousOrders_setOrder _ _ _) rfl fun _ _ _ _ hi => hi

theorem Histories.session {s t : App} {e : Ev} (h : Histories s) (hf : Fresher s t)
    (hp : t.pending = s.pending) (hs : Session s t e) : Histories t := by
  have hwritten : ∀ call b uid ids, .history call b uid ids ∈ t.pending → ∀ d ∈ ids, Past t d := by
    intro call b uid ids hi d hd
    rw [hp] at hi
    exact (h.written call b uid ids hi d hd).mono hf
  have hstored : t.users = s.users → ∀ uid p, t.users uid = some p → ∀ d ∈ p.previousOrders, Past t d := by
    intro hu uid p hup d hd
    rw [hu] at hup
    exact (h.stored uid p hup d hd).mono hf
  cases hs with
  | kept _ _ hids hu => exact h.mono hf hids hu fun _ _ _ _ hi => hp ▸ hi
  | signOut _ _ hids hu =>
    refine ⟨fun d hd => ?_, hstored hu, hwritten⟩
    rw [hids] at hd; cases hd
  | populated _ u data _ hdata _ hids hu =>
    refine ⟨fun d hd => ?_, hstored hu, hwritten⟩
    rw [hids] at hd
    exact (h.stored u data hdata d hd).mono hf
  | made _ a _ _ _ data _ hu hdata _ hids =>
    refine ⟨fun d hd => ?_, fun uid p hup d hd => ?_, hwritten⟩
    · rw [hids] at hd
      exact (h.current d hd).mono hf
    · rcases profile_of_form hu hup with hup | ⟨-, rfl⟩
      · exact (h.stored uid p hup d hd).mono hf
      · rw [hdata.2] at hd; cases hd

theorem Histories.step {s t : App} {e : Ev} (h : Histories s) (hd : Docs s)
    (hs : s.step e = some t) : Histories t := by
  have hfresh := fresher_step hs
  obtain ⟨-, -, hf⟩ := step_cases hs
  cases hf with
  | addItem b x => exact h.mono hfresh (User.previousOrders_setOrder _ _ _) rfl fun _ _ _ _ hi => hi
  | badIndex => exact h.mono hfresh rfl rfl fun _ _ _ _ hi => hi
  | removeItemAt => exact h.mono hfresh (User.previousOrders_setOrder _ _ _) rfl fun _ _ _ _ hi => hi
  | textFieldDidEndEditing => exact h.mono hfresh rfl rfl fun _ _ _ _ hi => hi
  | checkout now =>
    have h0 : Histories { s with calls := s.calls + 1 } := ⟨h.current, h.stored, h.written⟩
    exact (h0.submit (cafe_turn s now)).submit (bar_turn s now)
  | reply i ok c l₁ l₂ hp =>
    have hdocs : Docs ((s.settle c ok).answered c ok (l₁ ++ l₂)) := by
      rw [← settle_answered]; exact hd.settle hp ok
    exact (h.answered hp ok).follow hdocs c
  | session _ he f => exact h.session hfresh f.pending (session_cases s he)

theorem Histories.launch {s : App} (h : Launch s) : Histories s := by
  have hpast : ∀ d, d < s.nextID → Past s d := by
    intro d hd
    refine ⟨hd, fun w hw => ?_⟩
    rw [h.pending] at hw; cases hw
  refine ⟨fun d hd => ?_, fun uid p hu d hd => hpast d (h.old uid p hu d hd),
    fun call b uid ids hi => ?_⟩
  · rw [h.user] at hd; cases hd
  · rw [h.pending] at hi; cases hi

theorem histories_reachable {s : App} (h : app.Reachable s) : Histories s :=
  h.invariant (fun _ => Histories.launch) fun _ _ _ hr hi hs => hi.step (docs_reachable hr) hs

end App

end QadsCafe
