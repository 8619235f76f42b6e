import QadsCafe.L4App.Past

/-!
# The account and the order list of a session

`account` is what the app holds of the signed-in account; only the sign-in
events change it (`account_step`). `Moved` is what a step whose requests
succeed does to the list of order IDs in memory, to the lists on their way to
the profile (`App.sent`) and to the profile that is stored. `OfAccount` holds of
a session of an account whose requests succeed; other sessions of the account
on the same database leave it true (`OfAccount.other`).
-/
namespace QadsCafe

open Core

/-- The list that a history write sends, and to whose profile. -/
def Callback.sent : Callback → Option (String × List Nat)
  | .history _ _ uid ids => some (uid, ids)
  | _ => none

namespace App

/-- A request of the event succeeds, and the oldest one is answered; the
profile is loaded once, and nobody signs up or out. -/
def succeeds (s : App) : Ev → Bool
  | .reply i ok => decide (i = 0) && ok
  | .signInReply _ ok => ok && s.user.uid.isNone
  | .signOut _ | .authSignIn _ | .make .. => false
  | _ => true

/-- What the app holds of the signed-in account. -/
def account (s : App) :
    Option Account × Option String × Option String × Option String × Option String :=
  (s.auth, s.user.uid, s.user.crsid, s.user.firstName, s.user.lastName)

/-- The lists on their way to a profile, oldest first. -/
def sent (s : App) : List (String × List Nat) := s.pending.filterMap Callback.sent

@[simp] theorem sent_issue (s : App) (c : Callback) : (s.issue c).sent = s.sent ++ c.sent.toList := by
  unfold App.sent issue
  rw [List.filterMap_append]
  cases c <;> rfl

theorem sent_of_pending {s : App} {c : Callback} {rest : List Callback} (h : s.pending = c :: rest) :
    s.sent = c.sent.toList ++ rest.filterMap Callback.sent := by
  unfold App.sent
  rw [h]
  cases c <;> rfl

/-! ## The account -/

theorem account_setOrder (s : App) (b : Basket) (o : Order) :
    (s.setOrder b o).account = s.account := by cases b <;> rfl

theorem Submit.account {s t : App} {call : Nat} {now : Basket → Date} {b : Basket}
    (h : Submit s call now b t) : t.account = s.account := by
  cases h with
  | skip => rfl
  | trap => rfl
  | create => exact account_setOrder { s with nextID := s.nextID + 1 } b (s.savedOrder (now b) b)
  | update => exact account_setOrder s b (s.updatedOrder b)

theorem account_reply {s t : App} {i : Nat} {ok : Bool} (hs : s.step (.reply i ok) = some t) :
    t.account = s.account := by
  obtain ⟨c, l₁, l₂, -, -, rfl⟩ := reply_cases hs
  have hset : (s.settle c ok).account = s.account := by
    cases ok with
    | false => cases c <;> rfl
    | true =>
      cases c with
      | create w => exact account_setOrder (s.store w) w.basket _
      | _ => rfl
  have hfollow : ∀ u : App, (u.follow c).account = u.account := by
    intro u
    cases c with
    | create w =>
      refine follow_create u w fun v ha => ?_
      cases ha <;> rfl
    | update w => exact account_setOrder u w.basket _
    | history call b uid ids => exact account_setOrder u b _
  exact (hfollow _).trans hset

theorem account_step {s t : App} {e : Ev} (hs : s.step e = some t) (he : e.isSession = false) :
    t.account = s.account := by
  have hf := (step_cases hs).2.2
  cases hf with
  | addItem b x => exact account_setOrder s b _
  | badIndex => rfl
  | removeItemAt index b i x => exact account_setOrder s b _
  | textFieldDidEndEditing => rfl
  | checkout now => exact (bar_turn s now).account.trans (cafe_turn s now).account
  | reply => exact account_reply hs
  | session _ hses => rw [he] at hses; cases hses

/-! ## The order list -/

theorem Submit.lists {s t : App} {call : Nat} {now : Basket → Date} {b : Basket}
    (h : Submit s call now b t) : t.users = s.users ∧
      t.user.previousOrders = s.user.previousOrders ∧ t.sent = s.sent := by
  cases h with
  | skip => exact ⟨rfl, rfl, rfl⟩
  | trap => exact ⟨rfl, rfl, rfl⟩
  | create =>
    refine ⟨rfl, User.previousOrders_setOrder _ _ _, ?_⟩
    exact (sent_issue _ _).trans (List.append_nil _)
  | update =>
    refine ⟨rfl, User.previousOrders_setOrder _ _ _, ?_⟩
    exact (sent_issue _ _).trans (List.append_nil _)

/-- A step changes an order document only by a write in flight. -/
theorem orders_step {s t : App} {e : Ev} (hs : s.step e = some t) (d : Nat) :
    t.orders d = s.orders d ∨ ∃ w, (.create w ∈ s.pending ∨ .update w ∈ s.pending) ∧ w.doc = d ∧
      t.orders d = some w := by
  have hf := (step_cases hs).2.2
  cases hf with
  | addItem => exact .inl rfl
  | badIndex => exact .inl rfl
  | removeItemAt => exact .inl rfl
  | textFieldDidEndEditing => exact .inl rfl
  | checkout now =>
    left
    rw [(bar_turn s now).turn.orders, (cafe_turn s now).turn.orders]
  | session _ _ f => rw [f.orders]; exact .inl rfl
  | reply i ok c l₁ l₂ hp =>
    have hmem := mem_of_split hp
    rw [follow_orders]
    show (s.settle c ok).orders d = s.orders d ∨ _
    have hstore : ∀ w, (.create w ∈ s.pending ∨ .update w ∈ s.pending) →
        (s.store w).orders d = s.orders d ∨ ∃ v, (.create v ∈ s.pending ∨ .update v ∈ s.pending) ∧
          v.doc = d ∧ (s.store w).orders d = some v := by
      intro w hw
      by_cases hd : d = w.doc
      · exact .inr ⟨w, hw, hd.symm, (orders_store s).mpr (.inl ⟨hd, rfl⟩)⟩
      · exact .inl (orders_store_of_ne s hd)
    cases ok with
    | false => cases c <;> exact .inl rfl
    | true =>
      cases c with
      | create w => exact hstore w (.inl hmem)
      | update w => exact hstore w (.inr hmem)
      | history => exact .inl rfl

/-- What a succeeding step does to the order list in memory, to the lists on
their way, and to what is stored. -/
inductive Moved (s t : App) : Ev → Prop
  | kept (e : Ev) (hne : ∀ w rest, s.pending = .create w :: rest → e ≠ .reply 0 true)
      (account : t.account = s.account) (users : t.users = s.users)
      (ids : t.user.previousOrders = s.user.previousOrders) (sent : t.sent = s.sent)
      (orders : ∀ d, (t.orders d).isSome = (s.orders d).isSome)
      (idle : s.user.uid = none → t.pending = s.pending) : Moved s t e
  | created (w : Write) (rest : List Callback) (uid : String) (hp : s.pending = .create w :: rest)
      (hu : s.user.uid = some uid) (account : t.account = s.account) (users : t.users = s.users)
      (ids : t.user.previousOrders = s.user.previousOrders ++ [w.doc])
      (sent : t.sent = s.sent ++ [(uid, s.user.previousOrders ++ [w.doc])])
      (orders : t.orders = Function.update s.orders w.doc (some w)) : Moved s t (.reply 0 true)
  | landed (call : Nat) (b : Basket) (uid : String) (ids : List Nat) (rest : List Callback)
      (hp : s.pending = .history call b uid ids :: rest) (account : t.account = s.account)
      (users : t.users = (s.storeHistory uid ids).users)
      (list : t.user.previousOrders = s.user.previousOrders) (sent : s.sent = (uid, ids) :: t.sent)
      (orders : t.orders = s.orders) : Moved s t (.reply 0 true)
  | loaded (i : Nat) (u : String) (p : Profile) (hr : s.signIns[i]? = some (.read u))
      (hp : s.users u = some p) (hu : s.user.uid = none) (auth : t.auth = s.auth)
      (uid : t.user.uid = p.uid) (users : t.users = s.users)
      (ids : t.user.previousOrders = p.previousOrders) (pending : t.pending = s.pending)
      (orders : t.orders = s.orders) : Moved s t (.signInReply i true)

/-- An event of the baskets is no reply, and needs somebody signed in. -/
theorem Moved.of_edit {s t : App} {e : Ev} (hs : s.step e = some t) (he : e.isSession = false)
    (hr : e.isReply = false) (hl : t.users = s.users ∧
      t.user.previousOrders = s.user.previousOrders ∧ t.sent = s.sent) (ho : t.orders = s.orders) :
    Moved s t e := by
  refine .kept e ?_ (account_step hs he) hl.1 hl.2.1 hl.2.2 (fun d => by rw [ho]) fun hu => ?_
  · rintro w rest - rfl
    cases hr
  · have hen := (step_iff.mp hs).2.1
    cases e <;> simp_all [Ev.isSession, Ev.isReply, enabled]

theorem moved_reply {s t : App} (hs : s.step (.reply 0 true) = some t) (hd : Docs s)
    (hu : s.pending ≠ [] → s.user.uid ≠ none) : Moved s t (.reply 0 true) := by
  obtain ⟨c, l₁, rest, hp, hi, ht⟩ := reply_cases hs
  obtain rfl : l₁ = [] := List.length_eq_zero_iff.mp hi.symm
  rw [List.nil_append] at hp
  have hacc := account_reply hs
  cases c with
  | create w =>
    obtain ⟨uid, huid⟩ := Option.ne_none_iff_exists'.mp (hu (by rw [hp]; exact List.cons_ne_nil _ _))
    have hfirst : s.pending = [] ++ .create w :: rest := hp
    have hnext := create_step (step_iff.mp hs).1 huid hfirst
    obtain rfl := Option.some.inj (hs.symm.trans hnext)
    refine .created w rest uid hp huid hacc rfl ?_ ?_ rfl
    · exact congrArg (· ++ [w.doc]) (User.previousOrders_setOrder s.user w.basket _)
    · rw [sent_issue, sent_of_pending hp]
      rfl
  | update w =>
    subst ht
    refine .kept _ ?_ hacc rfl (User.previousOrders_setOrder _ _ _) ?_ (fun d => ?_) fun hnone => ?_
    · intro v l hv
      rw [hp] at hv
      cases hv
    · rw [sent_of_pending hp]
      rfl
    · obtain ⟨v, hv, -⟩ := hd.update w (by rw [hp]; exact List.mem_cons_self)
      show ((s.store w).orders d).isSome = _
      by_cases h : d = w.doc
      · rw [h, hv]; simp [store]
      · rw [orders_store_of_ne s h]
    · exact absurd hnone (hu (by rw [hp]; exact List.cons_ne_nil _ _))
  | history call b uid ids =>
    subst ht
    exact .landed call b uid ids rest hp hacc rfl (User.previousOrders_setOrder _ _ _)
      (sent_of_pending hp) rfl

/-- A read that is answered while no profile is loaded. -/
theorem moved_read {s t : App} {i : Nat} {u : String} (hr : s.signIns[i]? = some (.read u))
    (hu : s.user.uid = none) (hs : s.step (.signInReply i true) = some t) :
    Moved s t (.signInReply i true) := by
  obtain ⟨-, -, rfl⟩ := step_iff.mp hs
  have hfire : s.fire (.signInReply i true) = (s.taken i).populated u true := by
    simp only [fire, signInReply, hr]
  rw [hfire, populated]
  rcases load_cases (s.taken i) u true with ⟨p, hp, -, hload⟩ | hload
  · rw [hload]
    split
    · exact .loaded i u p hr hp hu rfl rfl rfl rfl rfl rfl
    · unfold signIn
      split <;> exact .loaded i u p hr hp hu rfl rfl rfl rfl rfl rfl
  · have hnone : (s.taken i).user.uid.isNone := by
      show s.user.uid.isNone
      rw [hu]; rfl
    rw [hload, if_pos hnone]
    exact .kept _ (fun _ _ _ => by simp) rfl rfl rfl rfl (fun _ => rfl) fun _ => rfl

theorem moved_step {s t : App} {e : Ev} (hs : s.step e = some t) (he : s.succeeds e = true)
    (hd : Docs s) (hu : s.pending ≠ [] → s.user.uid ≠ none)
    (hreads : ∀ r ∈ s.signIns, ∃ u, r = .read u) : Moved s t e := by
  have hf := (step_cases hs).2.2
  cases hf with
  | addItem => exact .of_edit hs rfl rfl ⟨rfl, User.previousOrders_setOrder _ _ _, rfl⟩ rfl
  | badIndex => exact .of_edit hs rfl rfl ⟨rfl, rfl, rfl⟩ rfl
  | removeItemAt => exact .of_edit hs rfl rfl ⟨rfl, User.previousOrders_setOrder _ _ _, rfl⟩ rfl
  | textFieldDidEndEditing => exact .of_edit hs rfl rfl ⟨rfl, rfl, rfl⟩ rfl
  | checkout now =>
    have h₁ := (cafe_turn s now).lists
    have h₂ := (bar_turn s now).lists
    refine .of_edit hs rfl rfl ⟨h₂.1.trans h₁.1, h₂.2.1.trans h₁.2.1, h₂.2.2.trans h₁.2.2⟩ ?_
    rw [(bar_turn s now).turn.orders, (cafe_turn s now).turn.orders]
  | reply i ok c l₁ l₂ hp =>
    simp only [succeeds, Bool.and_eq_true, decide_eq_true_eq] at he
    obtain ⟨rfl, rfl⟩ := he
    exact moved_reply hs hd hu
  | session _ hses =>
    cases e with
    | populateAsCurrentUser =>
      have hkept : Moved s (s.fire .populateAsCurrentUser) .populateAsCurrentUser := by
        simp only [fire, populateAsCurrentUser]
        split <;> exact .kept _ (fun _ _ _ => by simp) rfl rfl rfl rfl (fun _ => rfl) fun _ => rfl
      exact hkept
    | signInReply i ok =>
      simp only [succeeds, Bool.and_eq_true, Option.isNone_iff_eq_none] at he
      obtain ⟨rfl, hnone⟩ := he
      have hlt := (step_iff.mp hs).2.1
      simp only [enabled, decide_eq_true_eq] at hlt
      obtain ⟨u, hr⟩ := hreads _ (List.getElem_mem hlt)
      exact moved_read (by rw [List.getElem?_eq_getElem hlt, hr]) hnone hs
    | signOut => cases he
    | authSignIn => cases he
    | make => cases he
    | _ => cases hses

/-! ## Sessions of one account -/

/-- A session of account `a`: with nobody loaded nothing is in flight, and what
it reads and writes is the account's own profile. -/
structure OfAccount (a : Account) (s : App) : Prop where
  docs : Docs s
  auth : s.auth = some a
  reads : ∀ r ∈ s.signIns, r = .read a.uid
  idle : s.user.uid = none → s.pending = []
  uid : ∀ u, s.user.uid = some u → u = a.uid ∧ (s.users a.uid).isSome
  own : ∀ p, s.users a.uid = some p → p.uid = some a.uid
  sent : ∀ x ∈ s.sent, x.1 = a.uid

variable {a : Account} {s t u : App} {e : Ev}

theorem OfAccount.moved (h : OfAccount a s) (hs : s.step e = some t) (he : s.succeeds e = true) :
    Moved s t e :=
  moved_step hs he h.docs (fun hp hu => hp (h.idle hu)) fun r hr => ⟨_, h.reads r hr⟩

/-- It asks for no other profile. -/
theorem OfAccount.reads_step (h : OfAccount a s) (hs : s.step e = some t)
    (he : s.succeeds e = true) : ∀ r ∈ t.signIns, r = .read a.uid := by
  intro r hr
  rcases signIns_step hs hr with hr | ⟨b, rfl, hb, rfl⟩ | ⟨b, f, l, rfl, -⟩
  · exact h.reads r hr
  · obtain rfl : b = a := Option.some.inj (hb.symm.trans h.auth)
    rfl
  · cases he

/-- A write of the history keeps the profile and its `uid`. -/
theorem OfAccount.profile (h : OfAccount a s) (hm : Moved s t e) :
    (t.users a.uid).map (·.uid) = (s.users a.uid).map (·.uid) := by
  cases hm with
  | kept _ _ _ users => rw [users]
  | created _ _ _ _ _ _ users => rw [users]
  | loaded _ _ _ _ _ _ _ _ users => rw [users]
  | landed call b uid ids rest hp account users list sent =>
    obtain rfl : uid = a.uid := h.sent (uid, ids) (by rw [sent]; exact List.mem_cons_self)
    rw [users]
    simp only [storeHistory, Function.update_self, Option.map_map]
    rfl

/-- The profile as another step left it. -/
theorem OfAccount.own_of_profile (h : OfAccount a s)
    (hp : (t.users a.uid).map (·.uid) = (s.users a.uid).map (·.uid)) :
    (∀ p, t.users a.uid = some p → p.uid = some a.uid) ∧
      (t.users a.uid).isSome = (s.users a.uid).isSome := by
  refine ⟨fun p hpt => ?_, ?_⟩
  · rw [hpt] at hp
    obtain ⟨q, hq, hqu⟩ := Option.map_eq_some_iff.mp hp.symm
    exact hqu.symm.trans (h.own q hq)
  · have hsome := congrArg Option.isSome hp
    simpa using hsome

theorem OfAccount.step (h : OfAccount a s) (hs : s.step e = some t) (he : s.succeeds e = true) :
    OfAccount a t := by
  have hm := h.moved hs he
  have hreads := h.reads_step hs he
  obtain ⟨hown, hsome⟩ := h.own_of_profile (h.profile hm)
  have hdocs := h.docs.step hs
  have hauth : t.account = s.account → t.auth = some a := fun hacc =>
    (congrArg Prod.fst hacc).trans h.auth
  have huid : t.account = s.account → t.user.uid = s.user.uid := fun hacc => congrArg (·.2.1) hacc
  have hkeep : t.account = s.account → ∀ u, t.user.uid = some u →
      u = a.uid ∧ (t.users a.uid).isSome := by
    intro hacc u hu
    rw [hsome]
    exact h.uid u ((huid hacc).symm.trans hu)
  cases hm with
  | kept _ _ account _ _ sent _ idle =>
    refine ⟨hdocs, hauth account, hreads, fun hu => ?_, hkeep account, hown, ?_⟩
    · rw [huid account] at hu
      rw [idle hu]
      exact h.idle hu
    · rw [sent]; exact h.sent
  | created w rest uid _ hu account _ _ sent =>
    refine ⟨hdocs, hauth account, hreads, fun hnone => ?_, hkeep account, hown, fun x hx => ?_⟩
    · rw [huid account, hu] at hnone
      cases hnone
    · rw [sent, List.mem_append, List.mem_singleton] at hx
      rcases hx with hx | rfl
      · exact h.sent x hx
      · exact (h.uid uid hu).1
  | landed call b uid ids rest hp account _ _ sent =>
    refine ⟨hdocs, hauth account, hreads, fun hnone => ?_, hkeep account, hown, fun x hx => ?_⟩
    · rw [huid account] at hnone
      have hidle := h.idle hnone
      rw [hp] at hidle
      cases hidle
    · exact h.sent x (by rw [sent]; exact List.mem_cons_of_mem _ hx)
  | loaded i u p hr hp hu auth uid users _ pending =>
    cases h.reads _ (List.mem_of_getElem? hr)
    refine ⟨hdocs, auth.trans h.auth, hreads, fun _ => pending.trans (h.idle hu), fun v hv => ?_,
      hown, ?_⟩
    · rw [hsome, hp]
      refine ⟨?_, rfl⟩
      rw [uid, h.own p hp] at hv
      exact (Option.some.inj hv).symm
    · unfold App.sent
      rw [pending]
      exact h.sent

/-- Other orders were written, none that this session is about to create. -/
theorem Docs.other (h : Docs u) {orders : Nat → Option Write} {nextID : Nat}
    {users : String → Option Profile} (hlt : ∀ d w, orders d = some w → d < nextID)
    (hn : u.nextID ≤ nextID)
    (hkeep : ∀ d v, u.orders d = some v → ∃ w, orders d = some w ∧ w.basket = v.basket)
    (hnew : ∀ w, .create w ∈ u.pending → orders w.doc = none) :
    Docs { u with orders, users, nextID } := by
  have hpast : ∀ d b, (∃ v, u.orders d = some v ∧ v.basket = b) →
      ∃ w, orders d = some w ∧ w.basket = b := by
    rintro d b ⟨v, hv, hb⟩
    obtain ⟨w, hw, hwb⟩ := hkeep d v hv
    exact ⟨w, hw, hwb.trans hb⟩
  refine ⟨hlt, fun w hw => ⟨hnew w hw, ?_⟩, h.once, fun w hw => ?_, fun b d hd => ?_⟩
  · exact Nat.lt_of_lt_of_le (h.create w hw).2 hn
  · exact hpast _ _ (h.update w hw)
  · exact hpast _ _ (h.order b d hd)

/-- A step of another session on the same database. -/
theorem OfAccount.other (h : OfAccount a u) (h' : OfAccount a s) (hs : s.step e = some t)
    (he : s.succeeds e = true) (ho : u.orders = s.orders) (hu : u.users = s.users)
    (hn : u.nextID = s.nextID)
    (hapart : ∀ w v, .create w ∈ s.pending → .create v ∈ u.pending → w.doc ≠ v.doc) :
    OfAccount a { u with orders := t.orders, users := t.users, nextID := t.nextID } := by
  have hprofile := h'.profile (h'.moved hs he)
  obtain ⟨hown, hsome⟩ := h'.own_of_profile hprofile
  refine ⟨?_, h.auth, h.reads, h.idle, fun v hv => ?_, hown, h.sent⟩
  · refine h.docs.other (h'.docs.step hs).stored ?_ (fun d v hd => ?_) fun w hw => ?_
    · rw [hn]; exact (fresher_step hs).1
    · rw [ho] at hd
      rcases orders_step hs d with hsame | ⟨w, hw, rfl, hnew⟩
      · exact ⟨v, hsame.trans hd, rfl⟩
      · refine ⟨w, hnew, ?_⟩
        rcases hw with hw | hw
        · rw [(h'.docs.create w hw).1] at hd
          cases hd
        · obtain ⟨v', hv', hb⟩ := h'.docs.update w hw
          obtain rfl : v' = v := Option.some.inj (hv'.symm.trans hd)
          exact hb.symm
    · have hnone : s.orders w.doc = none := by rw [← ho]; exact (h.docs.create w hw).1
      rcases orders_step hs w.doc with hsame | ⟨v, hv, hdoc, -⟩
      · exact hsame.trans hnone
      · rcases hv with hv | hv
        · exact absurd hdoc (hapart v w hv hw)
        · obtain ⟨v', hv', -⟩ := h'.docs.update v hv
          rw [hdoc, hnone] at hv'
          cases hv'
  · refine ⟨(h.uid v hv).1, ?_⟩
    show (t.users a.uid).isSome
    rw [hsome, ← hu]
    exact (h.uid v hv).2

end App

end QadsCafe
