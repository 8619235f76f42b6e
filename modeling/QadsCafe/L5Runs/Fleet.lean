import QadsCafe.Core.Replicas
import QadsCafe.L4App.Sync

/-!
# Several devices of one account

Every session of the account is an `App` of its own; the order documents, the
profiles and the choice of a new document ID are shared. `step` lets any
session take its next step on what is stored (`view`), with every request
succeeding and the writes of a session applied in the order issued.

`addToPreviousOrders` sends the whole list in memory, which is the stored one
as it was when the session read it, so the sessions are `Core.Replicas` of one
list (`replicas`, `simulates`). No order is lost iff every created order is
listed `Alone` (`history_complete_iff`).
-/
namespace QadsCafe

open Core

structure Fleet (ι : Type) where
  session : ι → App
  orders : Nat → Option Write
  users : String → Option Profile
  nextID : Nat

namespace Fleet

variable {ι : Type} [DecidableEq ι]

/-- A session with the database as it is now. -/
def view (f : Fleet ι) (i : ι) : App :=
  { f.session i with orders := f.orders, users := f.users, nextID := f.nextID }

def save (f : Fleet ι) (i : ι) (t : App) : Fleet ι where
  session := Function.update f.session i t
  orders := t.orders
  users := t.users
  nextID := t.nextID

def step (f : Fleet ι) (l : ι × Ev) : Option (Fleet ι) :=
  if (f.view l.1).succeeds l.2 then ((f.view l.1).step l.2).map (f.save l.1) else none

/-- Every session has just been launched with account `a` signed in, whose
profile is its own. No document has been written since. -/
structure Launched (a : Account) (f : Fleet ι) : Prop where
  user : ∀ i, (f.session i).user = {}
  auth : ∀ i, (f.session i).auth = some a
  pending : ∀ i, (f.session i).pending = []
  signIns : ∀ i, (f.session i).signIns = []
  orders : f.orders = fun _ => none
  own : ∀ p, f.users a.uid = some p → p.uid = some a.uid
  old : ∀ p, f.users a.uid = some p → ∀ d ∈ p.previousOrders, d < f.nextID

/-- `previous_orders` of the account. -/
def history (a : Account) (f : Fleet ι) : List Nat :=
  match f.users a.uid with
  | none => []
  | some p => p.previousOrders

/-- No write is in flight. -/
def Quiet (f : Fleet ι) : Prop := ∀ i, (f.session i).pending = []

/-- The stored history has every document created since `f₀` and every ID it
held then. -/
def Complete (a : Account) (f₀ f : Fleet ι) : Prop :=
  ∀ d, (f.orders d).isSome ∨ d ∈ f₀.history a → d ∈ f.history a

/-- A session learns that its order was created only while no other one has a
list on its way and its own list has every ID that is stored. -/
def Alone (a : Account) (f : Fleet ι) (l : ι × Ev) : Prop :=
  ∀ w rest, l.2 = .reply 0 true → (f.session l.1).pending = .create w :: rest →
    (∀ j, j ≠ l.1 → (f.session j).sent = []) ∧
      ∀ d ∈ f.history a, d ∈ (f.session l.1).user.previousOrders

end Fleet

def fleet (ι : Type) [DecidableEq ι] (a : Account) : LTS (Fleet ι) (ι × Ev) :=
  LTS.ofFn (Fleet.Launched a) Fleet.step

namespace Fleet

variable {ι : Type} [DecidableEq ι] {a : Account} {f₀ f g : Fleet ι}

theorem view_save_self (f : Fleet ι) (i : ι) (t : App) : (f.save i t).view i = t := by
  unfold view save
  simp only [Function.update_self]

theorem session_save_of_ne (f : Fleet ι) {i j : ι} (t : App) (h : j ≠ i) :
    (f.save i t).session j = f.session j := Function.update_of_ne h _ _

theorem view_save_of_ne (f : Fleet ι) {i j : ι} (t : App) (h : j ≠ i) : (f.save i t).view j =
    { f.view j with orders := t.orders, users := t.users, nextID := t.nextID } := by
  unfold view
  rw [session_save_of_ne f t h]
  rfl

theorem step_cases {l : ι × Ev} (h : f.step l = some g) : (f.view l.1).succeeds l.2 = true ∧
    ∃ t, (f.view l.1).step l.2 = some t ∧ g = f.save l.1 t := by
  unfold step at h
  split at h
  · rename_i he
    obtain ⟨t, ht, rfl⟩ := Option.map_eq_some_iff.mp h
    exact ⟨he, t, ht, rfl⟩
  · cases h

/-! ## What holds in every run -/

/-- The orders that the sessions are about to create are new, and all different. -/
structure Held (a : Account) (f₀ f : Fleet ι) : Prop where
  owned : ∀ i, (f.view i).OfAccount a
  old : ∀ d ∈ f₀.history a, d < f₀.nextID
  later : f₀.nextID ≤ f.nextID
  fresh : ∀ i w, .create w ∈ (f.session i).pending → f₀.nextID ≤ w.doc
  apart : ∀ i j, i ≠ j → ∀ w v, .create w ∈ (f.session i).pending →
    .create v ∈ (f.session j).pending → w.doc ≠ v.doc

omit [DecidableEq ι] in
theorem Held.launched (h : Launched a f) : Held a f f := by
  have hp : ∀ i w, .create w ∉ (f.session i).pending := fun i w hw => by
    rw [h.pending] at hw
    cases hw
  refine ⟨fun i => ?_, fun d hd => ?_, Nat.le_refl _, fun i w hw => absurd hw (hp i w),
    fun i _ _ w _ hw => absurd hw (hp i w)⟩
  · have hidle : (f.view i).pending = [] := h.pending i
    have huser : (f.view i).user = {} := h.user i
    have horders : (f.view i).orders = fun _ => none := h.orders
    have hreads : (f.view i).signIns = [] := h.signIns i
    refine ⟨⟨?_, ?_, ?_, ?_, ?_⟩, h.auth i, ?_, fun _ => hidle, ?_, h.own, ?_⟩
    · intro d w hd; rw [horders] at hd; cases hd
    · intro w hw; exact absurd hw (hp i w)
    · rw [hidle]; exact List.nodup_nil
    · intro w hw; rw [hidle] at hw; cases hw
    · intro b d hd
      unfold App.order at hd
      rw [huser] at hd
      cases b <;> cases hd
    · intro r hr; rw [hreads] at hr; cases hr
    · intro u hu; rw [huser] at hu; cases hu
    · intro x hx
      unfold App.sent at hx
      rw [hidle] at hx
      cases hx
  · unfold history at hd
    split at hd
    · cases hd
    · rename_i p hp'
      exact h.old p hp' d hd

theorem Held.step (h : Held a f₀ f) {l : ι × Ev} (hs : f.step l = some g) : Held a f₀ g := by
  obtain ⟨i, e⟩ := l
  obtain ⟨he, t, ht, rfl⟩ := step_cases hs
  obtain ⟨hn, hcreates⟩ := App.fresher_step ht
  have hlater : f₀.nextID ≤ t.nextID := Nat.le_trans h.later hn
  have hself : (f.save i t).session i = t := Function.update_self _ _ _
  -- a create of the session that moved is an earlier one or for a new document
  have hcase : ∀ w, .create w ∈ t.pending → .create w ∈ (f.session i).pending ∨ f.nextID ≤ w.doc :=
    hcreates
  have hapart : ∀ j, j ≠ i → ∀ w v, .create w ∈ t.pending → .create v ∈ (f.session j).pending →
      w.doc ≠ v.doc := by
    intro j hj w v hw hv
    rcases hcase w hw with hw | hw
    · exact h.apart i j (Ne.symm hj) w v hw hv
    · have hlt : v.doc < f.nextID := ((h.owned j).docs.create v hv).2
      omega
  refine ⟨fun j => ?_, h.old, hlater, fun j w hw => ?_, fun j k hjk w v hw hv => ?_⟩
  · by_cases hj : j = i
    · subst hj
      rw [view_save_self]
      exact (h.owned j).step ht he
    · rw [view_save_of_ne f t hj]
      exact (h.owned j).other (h.owned i) ht he rfl rfl rfl fun w v hw hv =>
        h.apart i j (Ne.symm hj) w v hw hv
  · by_cases hj : j = i
    · subst hj
      rw [hself] at hw
      rcases hcase w hw with hw | hw
      · exact h.fresh j w hw
      · exact Nat.le_trans h.later hw
    · rw [session_save_of_ne f t hj] at hw
      exact h.fresh j w hw
  · by_cases hj : j = i
    · subst hj
      rw [hself] at hw
      rw [session_save_of_ne f t (Ne.symm hjk)] at hv
      exact hapart k (Ne.symm hjk) w v hw hv
    · rw [session_save_of_ne f t hj] at hw
      by_cases hk : k = i
      · subst hk
        rw [hself] at hv
        exact fun heq => hapart j hj v w hv hw heq.symm
      · rw [session_save_of_ne f t hk] at hv
        exact h.apart j k hjk w v hw hv

/-! ## Replicas of one list -/

def replicas (a : Account) (f₀ f : Fleet ι) : Replicas ι Nat where
  stored := f.history a
  copy i := (f.session i).user.previousOrders
  queue i := (f.session i).sent.map Prod.snd
  known := { d | (f.orders d).isSome ∨ d ∈ f₀.history a }

omit [DecidableEq ι] in
theorem replicas_start (h : Launched a f₀) : (replicas a f₀ f₀).Start := by
  refine ⟨fun i => ?_, fun i => ?_, fun d => ?_⟩
  · show (f₀.session i).sent.map Prod.snd = []
    unfold App.sent
    rw [h.pending i]
    rfl
  · show (f₀.session i).user.previousOrders = []
    rw [h.user i]
  · show ((f₀.orders d).isSome ∨ d ∈ f₀.history a) ↔ d ∈ f₀.history a
    rw [h.orders]
    simp

omit [DecidableEq ι] in
theorem replicas_quiet (h : f.Quiet) : (replicas a f₀ f).Quiet := fun i => by
  show (f.session i).sent.map Prod.snd = []
  unfold App.sent
  rw [h i]
  rfl

/-- Only the list and the queue of the session that moved change. -/
theorem replicas_save (f : Fleet ι) (i : ι) (t : App) : replicas a f₀ (f.save i t) =
    { stored := (f.save i t).history a
      copy := Function.update (replicas a f₀ f).copy i t.user.previousOrders
      queue := Function.update (replicas a f₀ f).queue i (t.sent.map Prod.snd)
      known := { d | (t.orders d).isSome ∨ d ∈ f₀.history a } } := by
  have hcopy := Function.comp_update (fun u : App => u.user.previousOrders) f.session i t
  have hqueue := Function.comp_update (fun u : App => u.sent.map Prod.snd) f.session i t
  unfold replicas
  congr 1

theorem history_save (f : Fleet ι) (i : ι) {t : App} (h : t.users = f.users) :
    (f.save i t).history a = f.history a := by
  unfold history save
  rw [h]

/-- The session that moved did nothing to the list. -/
theorem replicas_kept (f : Fleet ι) {i : ι} {t : App} (hu : t.users = f.users)
    (hids : t.user.previousOrders = (f.session i).user.previousOrders)
    (hsent : t.sent = (f.session i).sent) (ho : ∀ d, (t.orders d).isSome = (f.orders d).isSome) :
    replicas a f₀ (f.save i t) = replicas a f₀ f := by
  have hcopy := Function.update_eq_self i (replicas a f₀ f).copy
  have hqueue := Function.update_eq_self i (replicas a f₀ f).queue
  rw [replicas_save, history_save f i hu, hids, hsent]
  simp only [ho]
  congr 1

theorem replicas_created (f : Fleet ι) {i : ι} {t : App} {w : Write} {uid : String}
    (hu : t.users = f.users)
    (hids : t.user.previousOrders = (f.session i).user.previousOrders ++ [w.doc])
    (hsent : t.sent = (f.session i).sent ++ [(uid, (f.session i).user.previousOrders ++ [w.doc])])
    (ho : t.orders = Function.update f.orders w.doc (some w)) :
    replicas a f₀ (f.save i t) = (replicas a f₀ f).add i w.doc := by
  have hknown : { d | (t.orders d).isSome ∨ d ∈ f₀.history a } =
      insert w.doc { d | (f.orders d).isSome ∨ d ∈ f₀.history a } := by
    ext d
    rw [ho]
    by_cases hd : d = w.doc
    · simp [hd]
    · simp [hd]
  rw [replicas_save, history_save f i hu, hids, hsent, hknown, List.map_append]
  rfl

theorem replicas_landed (f : Fleet ι) {i : ι} {t : App} {ids : List Nat} {p : Profile}
    (hp : f.users a.uid = some p) (hu : t.users = ((f.view i).storeHistory a.uid ids).users)
    (hids : t.user.previousOrders = (f.session i).user.previousOrders)
    (ho : t.orders = f.orders) :
    replicas a f₀ (f.save i t) = (replicas a f₀ f).land i ids (t.sent.map Prod.snd) := by
  have hcopy := Function.update_eq_self i (replicas a f₀ f).copy
  have hlist : (f.save i t).history a = ids := by
    have hview : (f.view i).users a.uid = some p := hp
    unfold history save
    rw [hu]
    simp only [App.storeHistory, Function.update_self, hview, Option.map_some]
  rw [replicas_save, hlist, hids, ho]
  unfold Replicas.land
  congr 1

theorem replicas_loaded (f : Fleet ι) {i : ι} {t : App} {p : Profile}
    (hp : f.users a.uid = some p) (hu : t.users = f.users)
    (hids : t.user.previousOrders = p.previousOrders) (hsent : t.sent = (f.session i).sent)
    (ho : t.orders = f.orders) : replicas a f₀ (f.save i t) = (replicas a f₀ f).load i := by
  have hqueue := Function.update_eq_self i (replicas a f₀ f).queue
  have hlist : f.history a = p.previousOrders := by unfold history; rw [hp]
  rw [replicas_save, history_save f i hu, hids, hsent, ho, ← hlist]
  unfold Replicas.load
  congr 1

omit [DecidableEq ι] in
/-- The delivery of a create is alone iff the addition is. -/
theorem alone_iff {i : ι} {w : Write} {rest : List Callback}
    (hp : (f.session i).pending = .create w :: rest) :
    Alone a f (i, .reply 0 true) ↔ (replicas a f₀ f).Alone (.add i w.doc) := by
  have hnil : ∀ j, (f.session j).sent = [] ↔ (replicas a f₀ f).queue j = [] := fun j =>
    List.map_eq_nil_iff.symm
  constructor
  · rintro h _ _ ⟨⟩
    obtain ⟨hothers, hids⟩ := h w rest rfl hp
    exact ⟨fun j hj => (hnil j).mp (hothers j hj), hids⟩
  · intro h v l _ _
    obtain ⟨hothers, hids⟩ := h i w.doc rfl
    exact ⟨fun j hj => (hnil j).mpr (hothers j hj), hids⟩

/-- **One step** of the fleet is one of the replicas, or does nothing to the list. -/
theorem simulates (h : Held a f₀ f) {l : ι × Ev} (hs : f.step l = some g) :
    (replicas a f₀ g = replicas a f₀ f ∧ Alone a f l) ∨
    ∃ op, Replicas.Step (replicas a f₀ f) op (replicas a f₀ g) ∧
      (Alone a f l ↔ (replicas a f₀ f).Alone op) := by
  obtain ⟨i, e⟩ := l
  obtain ⟨he, t, ht, rfl⟩ := step_cases hs
  have howned := h.owned i
  have hm := howned.moved ht he
  cases hm with
  | kept _ hne _ users ids sent orders =>
    refine .inl ⟨replicas_kept f users ids sent orders, fun w rest heq hp => ?_⟩
    exact absurd heq (hne w rest hp)
  | created w rest uid hp _ _ users ids sent orders =>
    right
    have hp : (f.session i).pending = .create w :: rest := hp
    refine ⟨.add i w.doc, ?_, alone_iff hp⟩
    rw [replicas_created f users ids sent orders]
    refine .add i w.doc fun hknown => ?_
    have hmem : .create w ∈ (f.session i).pending := by rw [hp]; exact List.mem_cons_self
    rcases hknown with hstored | hold
    · have hnone : f.orders w.doc = none := (howned.docs.create w hmem).1
      rw [hnone] at hstored
      cases hstored
    · have hlt := h.old w.doc hold
      have hge := h.fresh i w hmem
      omega
  | landed call b uid ids rest hp _ users list sent orders =>
    obtain rfl : uid = a.uid := howned.sent (uid, ids) (by rw [sent]; exact List.mem_cons_self)
    have hp : (f.session i).pending = .history call b a.uid ids :: rest := hp
    have hloaded : (f.session i).user.uid ≠ none := fun hnone => by
      have hidle : (f.session i).pending = [] := howned.idle hnone
      rw [hp] at hidle
      cases hidle
    obtain ⟨u, hu⟩ := Option.ne_none_iff_exists'.mp hloaded
    obtain ⟨p, hprofile⟩ := Option.isSome_iff_exists.mp (howned.uid u hu).2
    have halone : Alone a f (i, .reply 0 true) := fun w l _ hp' => by
      rw [hp] at hp'
      cases hp'
    refine .inr ⟨.land i, ?_, iff_of_true halone fun _ _ hop => by cases hop⟩
    rw [replicas_landed f hprofile users list orders]
    exact .land i _ _ (congrArg (List.map Prod.snd) sent)
  | loaded j u p hr hp hu _ _ users ids pending orders =>
    cases howned.reads _ (List.mem_of_getElem? hr)
    have halone : Alone a f (i, .signInReply j true) := fun w l heq => by cases heq
    refine .inr ⟨.load i, ?_, iff_of_true halone fun _ _ hop => by cases hop⟩
    have hsent : t.sent = (f.session i).sent := by unfold App.sent; rw [pending]; rfl
    rw [replicas_loaded f hp users ids hsent orders]
    refine .load i ?_
    show (f.session i).sent.map Prod.snd = []
    have hidle : (f.session i).pending = [] := howned.idle hu
    unfold App.sent
    rw [hidle]
    rfl

/-! ## Which runs lose an order -/

theorem replicas_run {ls : List (ι × Ev)} (h : Held a f₀ f) (hr : (fleet ι a).Run f ls g) :
    ∃ ops, (Replicas.lts ι Nat).Run (replicas a f₀ f) ops (replicas a f₀ g) := by
  refine hr.simulate (I := Held a f₀) ?_ ?_ h
  · intro f l g h hs
    exact h.step hs
  · intro f l g h hs
    rcases simulates h hs with ⟨heq, -⟩ | ⟨op, hop, -⟩
    · exact .inl heq
    · exact .inr ⟨op, hop⟩

theorem replicas_step_alone {l : ι × Ev} (h : Held a f₀ f)
    (hr : ((Replicas.lts ι Nat).when Replicas.Alone).Reachable (replicas a f₀ f))
    (hs : f.step l = some g) (ha : Alone a f l) :
    ((Replicas.lts ι Nat).when Replicas.Alone).Reachable (replicas a f₀ g) := by
  rcases simulates h hs with ⟨heq, -⟩ | ⟨op, hop, hiff⟩
  · rw [heq]; exact hr
  · exact hr.step ⟨hop, hiff.mp ha⟩

/-- A quiet state reached with every created order listed alone. -/
theorem complete_of_alone {ls : List (ι × Ev)} (h₀ : Launched a f₀)
    (hr : ((fleet ι a).when (Alone a)).Run f₀ ls f) (hq : f.Quiet) : Complete a f₀ f := by
  have hboth : Held a f₀ f ∧
      ((Replicas.lts ι Nat).when Replicas.Alone).Reachable (replicas a f₀ f) := by
    refine hr.invariant (P := fun _ => True) (I := fun g => Held a f₀ g ∧
      ((Replicas.lts ι Nat).when Replicas.Alone).Reachable (replicas a f₀ g)) ?_
      (fun _ _ => trivial) ⟨.launched h₀, .init (replicas_start h₀)⟩
    rintro f l g - ⟨h, hreach⟩ ⟨hs, ha⟩
    exact ⟨h.step hs, replicas_step_alone h hreach hs ha⟩
  exact Replicas.complete_of_alone hboth.2 (replicas_quiet hq)

/-- The end of a run holds everything only if it was alone throughout. -/
theorem alone_of_complete {ls : List (ι × Ev)} (hr : (fleet ι a).Run f ls g) (h : Held a f₀ f)
    (hreach : ((Replicas.lts ι Nat).when Replicas.Alone).Reachable (replicas a f₀ f))
    (hc : Complete a f₀ g) : ((fleet ι a).when (Alone a)).Run f ls g := by
  induction hr with
  | nil => exact .nil _
  | @cons f f' g l ls hs hr ih =>
    have hs' : f.step l = some f' := hs
    have ha : Alone a f l := by
      by_contra hn
      rcases simulates h hs' with ⟨-, ha⟩ | ⟨op, hop, hiff⟩
      · exact hn ha
      · obtain ⟨ops, hops⟩ := replicas_run (h.step hs') hr
        exact Replicas.incomplete_of_not_alone hreach.of_when hop (fun ha => hn (hiff.mpr ha)) hops hc
    exact .cons ⟨hs, ha⟩ (ih (h.step hs') (replicas_step_alone h hreach hs' ha) hc)

/-- **No lost update.** Once no write is in flight, the stored history has
every order created by any session, and every ID from before, iff every created
order was listed alone. -/
theorem history_complete_iff {ls : List (ι × Ev)} (h₀ : Launched a f₀)
    (hr : (fleet ι a).Run f₀ ls f) (hq : f.Quiet) :
    Complete a f₀ f ↔ ((fleet ι a).when (Alone a)).Run f₀ ls f := by
  constructor
  · intro hc
    exact alone_of_complete hr (.launched h₀) (.init (replicas_start h₀)) hc
  · intro hr
    exact complete_of_alone h₀ hr hq

def ada : Account := ⟨"u1", some "ab12@cam.ac.uk"⟩

/-- Two devices of an account that has one order so far. -/
def devices : Fleet Bool where
  session _ := { auth := some ada }
  orders _ := none
  users uid := if uid = "u1" then
      some { uid := some "u1", crsid := some "ab12", previousOrders := [0] }
    else none
  nextID := 1

theorem devices_launched : Launched ada devices := by
  refine ⟨fun _ => rfl, fun _ => rfl, fun _ => rfl, fun _ => rfl, rfl, ?_, ?_⟩
  · rintro p ⟨⟩
    rfl
  · rintro p ⟨⟩ d hd
    have hd0 : d = 0 := List.mem_singleton.mp hd
    subst hd0
    exact Nat.one_pos

/-- A device loads the profile and orders a tea. -/
def orderTea (i : Bool) : List (Bool × Ev) :=
  [(i, .populateAsCurrentUser), (i, .signInReply 0 true),
    (i, .addItem .cafe (plainItem "tea" "Cafe")), (i, .checkout fun _ => 0)]

/-- The order and then the list are stored. -/
def answers (i : Bool) : List (Bool × Ev) := [(i, .reply 0 true), (i, .reply 0 true)]

theorem devices_in_turn : ∃ f, f.Quiet ∧ f.history ada = [0, 1, 2] ∧
    (Complete ada devices f ↔ ((fleet Bool ada).when (Alone ada)).Run devices
      (orderTea true ++ answers true ++ orderTea false ++ answers false) f) := by
  obtain ⟨f, hr, hq, hl⟩ : ∃ f, (fleet Bool ada).Run devices
      (orderTea true ++ answers true ++ orderTea false ++ answers false) f ∧
      f.Quiet ∧ f.history ada = [0, 1, 2] :=
    ⟨_, LTS.run_of_exec rfl, fun i => by cases i <;> rfl, rfl⟩
  exact ⟨f, hq, hl, history_complete_iff devices_launched hr hq⟩

/-- **A lost order.** Both devices read the history before either has written
it: the list of the second replaces that of the first. -/
theorem devices_lose_order : ∃ f, (fleet Bool ada).Run devices
    (orderTea true ++ orderTea false ++ answers true ++ answers false) f ∧ f.Quiet ∧
    (f.orders 1).isSome ∧ f.history ada = [0, 2] ∧ ¬ Complete ada devices f := by
  refine ⟨_, LTS.run_of_exec rfl, fun i => by cases i <;> rfl, rfl, rfl, fun hc => ?_⟩
  exact absurd (hc 1 (.inl rfl)) (by decide)

end Fleet

end QadsCafe
