import QadsCafe.L4App.Steps

/-!
# Orders are credited to the account that placed them

The callback of a create appends the order's ID to the history of whoever the
user object holds when it arrives, and unwraps `self.uid!`. A sign-out in
between makes it trap (`late_create_traps`); the answer to another account's
sign-in makes it credit that account (`late_create_credited`).

`CreatesDone` leaves exactly those out, and the sign-up forms that take over
the list of another account. Without them a pending create was issued by the
account of the user object. `Ledger` is that invariant, with what it gives for
the three places that list an account's orders (`Listed`): the user object,
the stored profiles, the history writes.

A profile read at sign-in says which account it belongs to; `OwnProfiles`
states that those on the server at launch say so rightly.
-/
namespace QadsCafe

open Core

namespace App

/-- An account goes only while no create is pending, and leaves no list behind
for the account of a sign-up form. -/
def CreatesDone (s : App) (e : Ev) : Prop :=
  Replaces s e → (∀ w, .create w ∉ s.pending) ∧
    ∀ i ok a f l, e = .signInReply i ok → s.signIns[i]? = some (.form a f l) →
      s.user.previousOrders = []

/-- A profile holds the key it is stored under, as `make` writes it. -/
def OwnProfiles (s : App) : Prop := ∀ uid p, s.users uid = some p → p.uid = some uid

/-- Document `d` was created under no other account than `uid`. -/
def PlacedBy (s : App) (d : Nat) (uid : String) : Prop :=
  ∀ w, .issued (.create w) ∈ s.log → w.doc = d → w.uid = some uid

/-- `ids` are listed as the orders of account `uid`. -/
inductive Listed (s : App) (uid : String) : List Nat → Prop
  | current (h : s.user.uid = some uid) : Listed s uid s.user.previousOrders
  | stored (p : Profile) (h : s.users uid = some p) : Listed s uid p.previousOrders
  | written (call : Nat) (b : Basket) (ids : List Nat)
      (h : .issued (.history call b uid ids) ∈ s.log) : Listed s uid ids

structure Ledger (s : App) : Prop where
  created : ∀ w, .issued (.create w) ∈ s.log → w.doc < s.nextID
  unique : ∀ v w, .issued (.create v) ∈ s.log → .issued (.create w) ∈ s.log → v.doc = w.doc →
    v.uid = w.uid
  issued : ∀ c ∈ s.pending, .issued c ∈ s.log
  /-- a pending create was issued by the account that is signed in -/
  sender : ∀ w, .create w ∈ s.pending → s.user.uid.isSome = true ∧ w.uid = s.user.uid
  /-- and its order has no ID but one of the same account -/
  named : ∀ w d, .create w ∈ s.pending → (s.order w.basket).orderID = some d →
    ∃ v, .issued (.create v) ∈ s.log ∧ v.doc = d ∧ v.uid = s.user.uid
  profiles : OwnProfiles s
  empty : s.user.uid = none → s.user.previousOrders = []
  listed : ∀ uid ids, Listed s uid ids → ∀ d ∈ ids, d < s.nextID ∧ PlacedBy s d uid
  appended : ∀ uid d, .appended uid d ∈ s.log →
    uid.isSome = true ∧ ∃ v, .issued (.create v) ∈ s.log ∧ v.doc = d ∧ v.uid = uid

/-! ## What a step does to the ledger -/

/-- The observations the ledger is about. -/
def isEntry : Obs → Bool
  | .issued _ | .appended .. => true
  | _ => false

theorem mem_append_note {l : List Obs} {n : Obs} (hn : isEntry n = false) (o : Obs)
    (ho : isEntry o = true) : o ∈ l ++ [n] ↔ o ∈ l := by
  rw [List.mem_append, List.mem_singleton]
  constructor
  · rintro (h | rfl)
    · exact h
    · rw [ho] at hn; cases hn
  · exact .inl

theorem Ledger.congr {s t : App} (h : Ledger s) (hp : t.pending ⊆ s.pending)
    (hn : t.nextID = s.nextID) (hl : ∀ o, isEntry o = true → (o ∈ t.log ↔ o ∈ s.log))
    (hu : t.user.uid = s.user.uid) (hids : t.user.previousOrders = s.user.previousOrders)
    (husers : t.users = s.users)
    (ho : ∀ b, (t.order b).orderID = (s.order b).orderID ∨ (t.order b).orderID = none) : Ledger t := by
  have hiss : ∀ c, .issued c ∈ t.log ↔ .issued c ∈ s.log := fun c => hl _ rfl
  refine ⟨?_, ?_, ?_, ?_, ?_, ?_, ?_, ?_, ?_⟩
  · intro w hw
    rw [hn]; exact h.created w ((hiss _).mp hw)
  · intro v w hv hw
    exact h.unique v w ((hiss _).mp hv) ((hiss _).mp hw)
  · intro c hc
    exact (hiss c).mpr (h.issued c (hp hc))
  · intro w hw
    rw [hu]; exact h.sender w (hp hw)
  · intro w d hw hd
    rcases ho w.basket with he | he
    · obtain ⟨v, hv, hvd⟩ := h.named w d (hp hw) (by rw [← he]; exact hd)
      exact ⟨v, (hiss _).mpr hv, by rw [hu]; exact hvd⟩
    · rw [he] at hd; cases hd
  · unfold OwnProfiles; rw [husers]; exact h.profiles
  · rw [hu, hids]; exact h.empty
  · intro uid ids hlist d hd
    have hlist' : Listed s uid ids := by
      cases hlist with
      | current hc => rw [hids]; exact .current (by rw [← hu]; exact hc)
      | stored p hc => exact .stored p (by rw [← husers]; exact hc)
      | written call b _ hc => exact .written call b ids ((hiss _).mp hc)
    obtain ⟨hlt, hby⟩ := h.listed uid ids hlist' d hd
    exact ⟨by rw [hn]; exact hlt, fun w hw => hby w ((hiss _).mp hw)⟩
  · intro uid d hd
    obtain ⟨hsome, v, hv, hvd⟩ := h.appended uid d ((hl _ rfl).mp hd)
    exact ⟨hsome, v, (hiss _).mpr hv, hvd⟩

/-- The account in the user object changes while no create is pending. -/
theorem Ledger.session {s t : App} (h : Ledger s) (f : Frame s t)
    (hc : ∀ w, .create w ∈ s.pending → t.user.uid = s.user.uid)
    (hprof : OwnProfiles t) (hempty : t.user.uid = none → t.user.previousOrders = [])
    (hlisted : ∀ uid ids, Listed t uid ids → ids = [] ∨ Listed s uid ids) : Ledger t := by
  refine ⟨?_, ?_, ?_, ?_, ?_, hprof, hempty, ?_, ?_⟩
  · rw [f.log, f.nextID]; exact h.created
  · rw [f.log]; exact h.unique
  · rw [f.log, f.pending]; exact h.issued
  · intro w hw
    rw [f.pending] at hw
    rw [hc w hw]; exact h.sender w hw
  · intro w d hw hd
    rw [f.pending] at hw
    rw [f.order] at hd
    rw [f.log, hc w hw]; exact h.named w d hw hd
  · intro uid ids hlist d hd
    rcases hlisted uid ids hlist with rfl | hlist
    · cases hd
    · unfold PlacedBy
      rw [f.log, f.nextID]; exact h.listed uid ids hlist d hd
  · rw [f.log]; exact h.appended

/-- A request that is no create; the list it writes is right. -/
theorem Ledger.issue {s : App} (h : Ledger s) {c : Callback} (hc : c.isCreate = false)
    (hh : ∀ call b uid ids, c = .history call b uid ids → ∀ d ∈ ids, d < s.nextID ∧ PlacedBy s d uid) :
    Ledger (s.issue c) := by
  have hmem : ∀ k, .issued k ∈ (s.issue c).log ↔ .issued k ∈ s.log ∨ k = c := by
    intro k; simp
  have hcreate : ∀ w, .issued (.create w) ∈ (s.issue c).log ↔ .issued (.create w) ∈ s.log := by
    intro w
    rw [hmem]
    constructor
    · rintro (hw | rfl)
      · exact hw
      · cases hc
    · exact .inl
  have hpend : ∀ w, .create w ∈ (s.issue c).pending → .create w ∈ s.pending := by
    intro w hw
    rcases List.mem_append.mp hw with hw | hw
    · exact hw
    · rw [← List.mem_singleton.mp hw] at hc; cases hc
  have hby : ∀ d uid, PlacedBy (s.issue c) d uid ↔ PlacedBy s d uid := fun d uid =>
    forall_congr' fun w => by rw [hcreate]
  refine ⟨?_, ?_, ?_, fun w hw => h.sender w (hpend w hw), ?_, h.profiles, h.empty, ?_, ?_⟩
  · intro w hw; exact h.created w ((hcreate w).mp hw)
  · intro v w hv hw; exact h.unique v w ((hcreate v).mp hv) ((hcreate w).mp hw)
  · intro k hk
    rw [hmem]
    rcases List.mem_append.mp hk with hk | hk
    · exact .inl (h.issued k hk)
    · exact .inr (List.mem_singleton.mp hk)
  · intro w d hw hd
    obtain ⟨v, hv, hvd⟩ := h.named w d (hpend w hw) hd
    exact ⟨v, (hcreate v).mpr hv, hvd⟩
  · intro uid ids hlist d hd
    rw [hby]
    cases hlist with
    | current hu => exact h.listed uid _ (.current hu) d hd
    | stored p hu => exact h.listed uid _ (.stored p hu) d hd
    | written call b _ hu =>
      rcases (hmem _).mp hu with hu | hu
      · exact h.listed uid ids (.written call b ids hu) d hd
      · exact hh call b uid ids hu.symm d hd
  · intro uid d hd
    have hd' : .appended uid d ∈ s.log := by simpa using hd
    obtain ⟨hsome, v, hv, hvd⟩ := h.appended uid d hd'
    exact ⟨hsome, v, (hcreate v).mpr hv, hvd⟩

/-- A create of a fresh document for a new order. -/
theorem Ledger.saved {s : App} (h : Ledger s) (hu : s.user.uid.isSome = true) {b : Basket}
    (hid : (s.order b).orderID = none) (call : Nat) (now : Date) : Ledger (s.saved call now b) := by
  have hmem : ∀ k, .issued k ∈ (s.saved call now b).log ↔
      .issued k ∈ s.log ∨ k = .create (s.createWrite call now b) := by
    intro k; simp [App.saved, App.issue, App.setOrder]
  have huser : (s.saved call now b).user.uid = s.user.uid := User.uid_setOrder _ _ _
  have hids : (s.saved call now b).user.previousOrders = s.user.previousOrders :=
    User.previousOrders_setOrder _ _ _
  have hnext : (s.saved call now b).nextID = s.nextID + 1 := rfl
  have hdoc : (s.createWrite call now b).doc = s.nextID := rfl
  have hcreate : ∀ w, .issued (.create w) ∈ (s.saved call now b).log →
      .issued (.create w) ∈ s.log ∨ w = s.createWrite call now b := by
    intro w hw
    rcases (hmem _).mp hw with hw | hw
    · exact .inl hw
    · cases hw; exact .inr rfl
  have hpend : ∀ w, .create w ∈ (s.saved call now b).pending →
      .create w ∈ s.pending ∨ w = s.createWrite call now b := by
    intro w hw
    rcases List.mem_append.mp hw with hw | hw
    · exact .inl hw
    · cases List.mem_singleton.mp hw; exact .inr rfl
  refine ⟨?_, ?_, ?_, ?_, ?_, h.profiles, ?_, ?_, ?_⟩
  · intro w hw
    rw [hnext]
    rcases hcreate w hw with hw | rfl
    · have := h.created w hw; omega
    · omega
  · intro v w hv hw he
    rcases hcreate v hv with hv | rfl <;> rcases hcreate w hw with hw | rfl
    · exact h.unique v w hv hw he
    · have := h.created v hv; omega
    · have := h.created w hw; omega
    · rfl
  · intro k hk
    rw [hmem]
    rcases List.mem_append.mp hk with hk | hk
    · exact .inl (h.issued k hk)
    · exact .inr (List.mem_singleton.mp hk)
  · intro w hw
    rw [huser]
    rcases hpend w hw with hw | rfl
    · exact h.sender w hw
    · exact ⟨hu, rfl⟩
  · intro w d hw hd
    rw [orderID_saved] at hd
    rcases hpend w hw with hw | rfl
    · obtain ⟨v, hv, hvd⟩ := h.named w d hw hd
      exact ⟨v, (hmem _).mpr (.inl hv), by rw [huser]; exact hvd⟩
    · have hd' : (s.order b).orderID = some d := hd
      rw [hid] at hd'; cases hd'
  · rw [huser, hids]; exact h.empty
  · intro uid ids hlist d hd
    have hlist' : Listed s uid ids := by
      cases hlist with
      | current hc => rw [hids]; exact .current (by rw [← huser]; exact hc)
      | stored p hc => exact .stored p hc
      | written call b _ hc =>
        rcases (hmem _).mp hc with hc | hc
        · exact .written call b ids hc
        · cases hc
    obtain ⟨hlt, hby⟩ := h.listed uid ids hlist' d hd
    refine ⟨by omega, fun w hw he => ?_⟩
    rcases hcreate w hw with hw | rfl
    · exact hby w hw he
    · omega
  · intro uid d hd
    have hd' : .appended uid d ∈ s.log := by simpa [App.saved, App.issue, App.setOrder] using hd
    obtain ⟨hsome, v, hv, hvd⟩ := h.appended uid d hd'
    exact ⟨hsome, v, (hmem _).mpr (.inl hv), hvd⟩

theorem Ledger.submit {s t : App} {call : Nat} {now : Basket → Date} {b : Basket} (h : Ledger s)
    (hu : s.user.uid.isSome = true) (hs : Submit s call now b t) : Ledger t := by
  cases hs with
  | skip => exact h
  | trap =>
    exact h.congr (List.Subset.refl _) rfl (fun _ _ => Iff.rfl) rfl rfl rfl fun _ => .inl rfl
  | create _ _ _ hid => exact h.saved hu hid call (now b)
  | update _ _ _ doc =>
    have hset : Ledger (s.setOrder b (s.updatedOrder b)) :=
      h.congr (List.Subset.refl _) rfl (fun _ _ => Iff.rfl) (User.uid_setOrder _ _ _)
        (User.previousOrders_setOrder _ _ _) rfl fun c => .inl (orderID_updated s call b doc c)
    exact hset.issue rfl nofun

/-! ## Callbacks -/

theorem Ledger.answered {s : App} (h : Ledger s) {c : Callback} {l₁ l₂ : List Callback}
    (hp : s.pending = l₁ ++ c :: l₂) (ok : Bool) : Ledger (s.answered c ok (l₁ ++ l₂)) :=
  h.congr (rest_subset hp) rfl (mem_append_note rfl) rfl rfl rfl fun _ => .inl rfl

theorem Ledger.stored {s : App} (h : Ledger s) {call : Nat} {b : Basket} {uid : String}
    {ids : List Nat} (hi : .issued (.history call b uid ids) ∈ s.log) :
    Ledger (s.storeHistory uid ids) := by
  refine ⟨h.created, h.unique, h.issued, h.sender, h.named, ?_, h.empty, ?_, h.appended⟩
  · intro u p hp
    rcases profile_of_history hp with hp | ⟨-, q, hq, rfl⟩
    · exact h.profiles u p hp
    · exact h.profiles u q hq
  · intro u ids' hlist
    cases hlist with
    | current hu => exact h.listed u _ (.current hu)
    | stored p hp =>
      rcases profile_of_history hp with hp | ⟨rfl, q, -, rfl⟩
      · exact h.listed u _ (.stored p hp)
      · exact h.listed u _ (.written call b _ hi)
    | written call' b' _ hw => exact h.listed u _ (.written call' b' _ hw)

theorem Ledger.settle {s : App} (h : Ledger s) {c : Callback} (hi : .issued c ∈ s.log)
    (hc : ∀ w, c = .create w → w.uid = s.user.uid) (ok : Bool) : Ledger (s.settle c ok) := by
  cases ok with
  | false => cases c <;> exact h
  | true =>
    cases c with
    | create w =>
      have huid : (s.created w).user.uid = s.user.uid := User.uid_setOrder _ _ _
      have hids : (s.created w).user.previousOrders = s.user.previousOrders :=
        User.previousOrders_setOrder _ _ _
      refine ⟨h.created, h.unique, h.issued, ?_, ?_, h.profiles, ?_, ?_, h.appended⟩
      · show ∀ v, .create v ∈ s.pending → _
        simp only [App.settle]
        rw [huid]; exact h.sender
      · intro v d hv hd
        simp only [App.settle] at hd ⊢
        rw [huid]
        rw [App.created, order_setOrder] at hd
        split at hd
        · cases hd
          exact ⟨w, hi, rfl, hc w rfl⟩
        · exact h.named v d hv hd
      · simp only [App.settle]
        rw [huid, hids]; exact h.empty
      · intro u ids hlist
        cases hlist with
        | current hu =>
          simp only [App.settle] at hu ⊢
          rw [hids]; exact h.listed u _ (.current (by rw [← huid]; exact hu))
        | stored p hp => exact h.listed u _ (.stored p hp)
        | written call b _ hw => exact h.listed u _ (.written call b _ hw)
    | update w =>
      exact h.congr (List.Subset.refl _) rfl (fun _ _ => Iff.rfl) rfl rfl rfl fun _ => .inl rfl
    | history call b uid ids => exact h.stored hi

/-- An ID of the signed-in account is appended to its list. -/
theorem Ledger.append {s : App} (h : Ledger s) (hu : s.user.uid.isSome = true) {doc : Nat}
    (hv : ∃ v, .issued (.create v) ∈ s.log ∧ v.doc = doc ∧ v.uid = s.user.uid) :
    Ledger (s.append doc) := by
  obtain ⟨v, hv, hdoc, huid⟩ := hv
  have hiss : ∀ c, .issued c ∈ (s.append doc).log ↔ .issued c ∈ s.log := by
    intro c; simp
  refine ⟨?_, ?_, ?_, h.sender, ?_, h.profiles, ?_, ?_, ?_⟩
  · intro w hw; exact h.created w ((hiss _).mp hw)
  · intro w w' hw hw'; exact h.unique w w' ((hiss _).mp hw) ((hiss _).mp hw')
  · intro c hc; exact (hiss c).mpr (h.issued c hc)
  · intro w d hw hd
    rw [order_append] at hd
    obtain ⟨v', hv', hvd⟩ := h.named w d hw hd
    exact ⟨v', (hiss _).mpr hv', hvd⟩
  · intro hn
    have hn' : s.user.uid = none := hn
    rw [hn'] at hu; cases hu
  · intro uid ids hlist d hd
    have hby : d < s.nextID ∧ PlacedBy s d uid := by
      cases hlist with
      | current hc =>
        have hc' : s.user.uid = some uid := hc
        have hd' : d ∈ s.user.previousOrders ++ [doc] := hd
        rcases List.mem_append.mp hd' with hd' | hd'
        · exact h.listed uid _ (.current hc') d hd'
        · rw [List.mem_singleton.mp hd', ← hdoc]
          refine ⟨h.created v hv, fun w hw he => ?_⟩
          rw [h.unique w v hw hv he, huid, hc']
      | stored p hp => exact h.listed uid _ (.stored p hp) d hd
      | written call b _ hw => exact h.listed uid _ (.written call b _ ((hiss _).mp hw)) d hd
    exact ⟨hby.1, fun w hw => hby.2 w ((hiss _).mp hw)⟩
  · intro uid d hd
    have hd' : .appended uid d ∈ s.log ∨ (uid = s.user.uid ∧ d = doc) := by
      simpa using hd
    rcases hd' with hd' | ⟨rfl, rfl⟩
    · obtain ⟨hsome, w, hw, hwd⟩ := h.appended uid d hd'
      exact ⟨hsome, w, (hiss _).mpr hw, hwd⟩
    · exact ⟨hu, v, (hiss _).mpr hv, hdoc, huid⟩

theorem Ledger.resetAndComplete {s : App} (h : Ledger s) (call : Nat) (b : Basket) :
    Ledger (s.resetAndComplete call b) := by
  refine h.congr (List.Subset.refl _) rfl (mem_append_note rfl) (User.uid_setOrder _ _ _)
    (User.previousOrders_setOrder _ _ _) rfl fun c => ?_
  rw [order_resetAndComplete]
  split
  · exact .inr rfl
  · exact .inl rfl

/-- The callback of a create appends an ID of the signed-in account, and does
not trap. -/
theorem Ledger.appends {s t : App} (h : Ledger s) {call : Nat} {b : Basket}
    (hu : s.user.uid.isSome = true)
    (hv : ∀ d, (s.order b).orderID = some d →
      ∃ v, .issued (.create v) ∈ s.log ∧ v.doc = d ∧ v.uid = s.user.uid)
    (ha : Appends s call b t) : Ledger t ∧ t.trap = s.trap := by
  cases ha with
  | skip => exact ⟨h, rfl⟩
  | trap doc _ hn => rw [hn] at hu; cases hu
  | issue doc uid hd hs =>
    have happ := h.append hu (hv doc hd)
    refine ⟨happ.issue rfl ?_, rfl⟩
    rintro call' b' uid' ids he
    cases he
    exact happ.listed uid _ (.current hs)

/-- **One callback** keeps the ledger and does not trap. -/
theorem Ledger.reply {s : App} (h : Ledger s) {c : Callback} {l₁ l₂ : List Callback}
    (hp : s.pending = l₁ ++ c :: l₂) (ok : Bool) :
    Ledger (((s.settle c ok).answered c ok (l₁ ++ l₂)).follow c) ∧
      (((s.settle c ok).answered c ok (l₁ ++ l₂)).follow c).trap = s.trap := by
  have hc := mem_of_split hp
  have hi := h.issued c hc
  have hsettle := h.settle hi (fun w hw => (h.sender w (hw ▸ hc)).2) ok
  have hans : Ledger ((s.settle c ok).answered c ok (l₁ ++ l₂)) :=
    hsettle.answered (by rw [pending_settle]; exact hp) ok
  cases c with
  | create w =>
    obtain ⟨hu, hw⟩ := h.sender w hc
    have huid : (s.settle (.create w) ok).user.uid = s.user.uid := by
      cases ok
      · rfl
      · exact User.uid_setOrder _ _ _
    have hnamed : ∀ d, ((s.settle (.create w) ok).order w.basket).orderID = some d →
        ∃ v, .issued (.create v) ∈ ((s.settle (.create w) ok).answered (.create w) ok (l₁ ++ l₂)).log ∧
          v.doc = d ∧ v.uid = (s.settle (.create w) ok).user.uid := by
      intro d hd
      obtain ⟨v, hv, hvd⟩ := hsettle.named w d (by rw [pending_settle]; exact hc) hd
      exact ⟨v, (mem_append_note rfl _ rfl).mpr hv, hvd⟩
    obtain ⟨hled, htrap⟩ := hans.appends
      (show (s.settle (.create w) ok).user.uid.isSome = true by rw [huid]; exact hu) hnamed
      (appends_cases _ w.call w.basket)
    refine ⟨hled, htrap.trans ?_⟩
    cases ok <;> rfl
  | update w =>
    refine ⟨hans.resetAndComplete _ _, ?_⟩
    cases ok <;> rfl
  | history call b uid ids =>
    refine ⟨hans.resetAndComplete _ _, ?_⟩
    cases ok <;> rfl

/-! ## Runs -/

/-- A pending create keeps its account. -/
theorem Ledger.kept {s t : App} {e : Ev} (h : Ledger s) (hsc : Session s t e) (hC : CreatesDone s e)
    (w : Write) (hw : .create w ∈ s.pending) : t.user.uid = s.user.uid := by
  have hn : ¬ Replaces s e := fun hrep => (hC hrep).1 w hw
  rcases uid_of_not_replaces hsc hn with hnone | hsame
  · have hsome := (h.sender w hw).1
    rw [hnone] at hsome; cases hsome
  · exact hsame

theorem Ledger.sessionStep {s t : App} {e : Ev} (h : Ledger s) (f : Frame s t) (hsc : Session s t e)
    (hC : CreatesDone s e) : Ledger t := by
  have hkept := h.kept hsc hC
  have hstored : t.users = s.users → OwnProfiles t := by
    intro husers
    unfold OwnProfiles
    rw [husers]; exact h.profiles
  cases hsc with
  | kept _ hu hids husers =>
    exact h.congr (by rw [f.pending]; exact List.Subset.refl _) f.nextID
      (fun o _ => by rw [f.log]) hu hids husers fun b => .inl (by rw [f.order])
  | signOut ok hu hids husers =>
    refine h.session f hkept (hstored husers) (fun _ => hids) fun uid ids hlist => ?_
    cases hlist with
    | current hc => rw [hids]; exact .inl rfl
    | stored p hp => exact .inr (.stored p (by rw [← husers]; exact hp))
    | written call b _ hw => exact .inr (.written call b ids (by rw [← f.log]; exact hw))
  | populated i u data hr hdata hu hids husers =>
    have huid := h.profiles u data hdata
    refine h.session f hkept (hstored husers) (fun hn => ?_) fun uid ids hlist => ?_
    · rw [hu, huid] at hn; cases hn
    · cases hlist with
      | current hc =>
        rw [hu, huid] at hc
        rw [hids]; exact .inr (.stored data (by rw [← Option.some.inj hc]; exact hdata))
      | stored p hp => exact .inr (.stored p (by rw [← husers]; exact hp))
      | written call b _ hw => exact .inr (.written call b ids (by rw [← f.log]; exact hw))
  | made i a firstName lastName ok data hr husers hdata hu hids =>
    refine h.session f hkept (fun uid p hp => ?_) (fun hn => ?_) fun uid ids hlist => ?_
    · rcases profile_of_form husers hp with hp | ⟨rfl, rfl⟩
      · exact h.profiles uid p hp
      · exact hdata.1
    · rw [hu] at hn; cases hn
    · cases hlist with
      | current hc =>
        rw [hids]
        -- the list of the form's own account, or none
        cases hs : s.user.uid with
        | none => exact .inl (h.empty hs)
        | some v =>
          by_cases hv : some a.uid = s.user.uid
          · exact .inr (.current (by rw [← hv, ← hu]; exact hc))
          · exact .inl ((hC (.form i a firstName lastName ok hr (by rw [hs]; rfl) hv)).2 i ok a firstName
              lastName rfl hr)
      | stored p hp =>
        rcases profile_of_form husers hp with hp | ⟨-, rfl⟩
        · exact .inr (.stored p hp)
        · exact .inl hdata.2
      | written call b _ hw => exact .inr (.written call b ids (by rw [← f.log]; exact hw))

theorem Ledger.step {s t : App} {e : Ev} (h : Ledger s) (hs : s.step e = some t)
    (hC : CreatesDone s e) : Ledger t := by
  obtain ⟨-, he, hf⟩ := step_cases hs
  cases hf with
  | addItem b x =>
    exact h.congr (List.Subset.refl _) rfl (mem_append_note rfl) (User.uid_setOrder _ _ _)
      (User.previousOrders_setOrder _ _ _) rfl fun c => .inl (orderID_addItem s b c x)
  | badIndex =>
    exact h.congr (List.Subset.refl _) rfl (fun _ _ => Iff.rfl) rfl rfl rfl fun _ => .inl rfl
  | removeItemAt index b i x =>
    exact h.congr (List.Subset.refl _) rfl (mem_append_note rfl) (User.uid_setOrder _ _ _)
      (User.previousOrders_setOrder _ _ _) rfl fun c => .inl (orderID_removed s b c i x)
  | textFieldDidEndEditing text =>
    exact h.congr (List.Subset.refl _) rfl (fun _ _ => Iff.rfl) rfl rfl rfl
      fun c => .inl (orderID_textFieldDidEndEditing s text c)
  | checkout now =>
    have h0 : Ledger { s with calls := s.calls + 1 } :=
      h.congr (List.Subset.refl _) rfl (fun _ _ => Iff.rfl) rfl rfl rfl fun _ => .inl rfl
    have hcafe := cafe_turn s now
    refine (h0.submit he hcafe).submit ?_ (bar_turn s now)
    rw [hcafe.turn.uid]; exact he
  | reply i ok c l₁ l₂ hp => exact (h.reply hp ok).1
  | session _ hsess f => exact h.sessionStep f (session_cases s hsess) hC

theorem Ledger.launch {s : App} (h : Launch s) (hp : OwnProfiles s) : Ledger s := by
  refine ⟨?_, ?_, ?_, ?_, ?_, hp, ?_, ?_, ?_⟩
  · intro w hw; rw [h.log] at hw; cases hw
  · intro v w hv; rw [h.log] at hv; cases hv
  · intro c hc; rw [h.pending] at hc; cases hc
  · intro w hw; rw [h.pending] at hw; cases hw
  · intro w d hw; rw [h.pending] at hw; cases hw
  · intro _; rw [h.user]
  · intro uid ids hlist d hd
    have hby : PlacedBy s d uid := fun w hw => by rw [h.log] at hw; cases hw
    cases hlist with
    | current hu => rw [h.user] at hu; cases hu
    | stored p hs => exact ⟨h.old uid p hs d hd, hby⟩
    | written call b _ hw => rw [h.log] at hw; cases hw
  · intro uid d hd; rw [h.log] at hd; cases hd

/-- After a sign-out the success of a create traps. -/
theorem late_create_traps {s t : App} {ok : Bool} (hs : s.step (.signOut ok) = some t)
    (ht : t.trap = none) {w : Write} (hw : .create w ∈ s.pending) :
    ∃ i u, t.step (.reply i true) = some u ∧ u.trap = some .nilUnwrap := by
  obtain ⟨-, -, rfl⟩ := step_iff.mp hs
  have hpend : (s.fire (.signOut ok)).pending = s.pending := (session_frame s rfl).pending
  have hu : (s.fire (.signOut ok)).user.uid = none := signOut_uid ht
  generalize s.fire (.signOut ok) = t at *
  rw [← hpend] at hw
  obtain ⟨l₁, l₂, hp⟩ := List.append_of_mem hw
  refine ⟨l₁.length, _, reply_step ht hp true, ?_⟩
  have hid : (((t.created w).answered (.create w) true (l₁ ++ l₂)).order w.basket).orderID =
      some w.doc := by
    show ((t.created w).order w.basket).orderID = some w.doc
    rw [App.created, order_setOrder, if_pos rfl]
  have hu' : ((t.created w).answered (.create w) true (l₁ ++ l₂)).user.uid = none :=
    (User.uid_setOrder _ _ _).trans hu
  simp only [App.settle, App.follow, addToPreviousOrders_trap hid hu' w.call]
  rfl

/-- The account that an answered sign-in puts in the place of another one. -/
theorem uid_of_replaces {s : App} {i : Nat} {ok : Bool} (hp : OwnProfiles s)
    (h : Replaces s (.signInReply i ok)) :
    ∃ v, (s.fire (.signInReply i ok)).user.uid = some v ∧ s.user.uid ≠ some v := by
  cases h with
  | read _ u data hr hdata _ hne =>
    have huid := hp u data hdata
    refine ⟨u, ?_, fun hs => hne (huid.trans hs.symm)⟩
    simp only [fire, signInReply, hr]
    rw [(populated_user _ u true).1, load_found (show (s.taken i).users u = some data from hdata)]
    exact huid
  | form _ a firstName lastName _ hr _ hne =>
    refine ⟨a.uid, ?_, fun hs => hne hs.symm⟩
    simp only [fire, signInReply, hr, made]
    rw [(signIn_user _).1]

/-- After the answer to another account's sign-in it is credited to that one. -/
theorem Ledger.late_create {s t : App} {i : Nat} {ok : Bool} (h : Ledger s)
    (hs : s.step (.signInReply i ok) = some t) (ht : t.trap = none)
    (hrep : Replaces s (.signInReply i ok)) {w : Write} (hw : .create w ∈ s.pending) :
    ∃ j u v, t.step (.reply j true) = some u ∧ .appended (some v) w.doc ∈ u.log ∧ w.uid ≠ some v := by
  obtain ⟨-, -, rfl⟩ := step_iff.mp hs
  obtain ⟨v, hv, hne⟩ := uid_of_replaces h.profiles hrep
  have hpend := (session_frame s (show (Ev.signInReply i ok).isSession = true from rfl)).pending
  rw [← hpend] at hw
  obtain ⟨l₁, l₂, hp⟩ := List.append_of_mem hw
  refine ⟨l₁.length, _, v, create_step ht hv hp, ?_, ?_⟩
  · rw [← hv]
    simp only [log_issue, log_append, List.mem_append, List.mem_singleton]
    refine .inl (.inr ?_)
    show Obs.appended _ _ = Obs.appended (((s.fire _).created w).user.uid) _
    rw [App.created, App.setOrder, User.uid_setOrder]
    rfl
  · rw [hpend] at hw
    rw [(h.sender w hw).2]; exact hne

/-- What is credited is credited to the account that placed it: the IDs that
were appended, and the lists in the user object, the profiles and the writes. -/
structure Credited (s : App) : Prop where
  appended : ∀ uid d, .appended uid d ∈ s.log →
    (∃ w, .issued (.create w) ∈ s.log ∧ w.doc = d) ∧ ∃ u, uid = some u ∧ PlacedBy s d u
  listed : ∀ uid ids, Listed s uid ids → ∀ d ∈ ids, PlacedBy s d uid

theorem ledger_run {s₀ s : App} {ls : List Ev} (hl : Launch s₀) (hp : OwnProfiles s₀)
    (hr : (app.when CreatesDone).Run s₀ ls s) : Ledger s :=
  hr.invariant (I := Ledger) (P := fun _ => True)
    (fun _ _ _ _ hi (hs : (app.when CreatesDone).step _ _ _) => hi.step hs.1 hs.2)
    (fun _ _ => trivial) (.launch hl hp)

/-- **Credit.** In every run whose accounts go only with no create pending,
every order is credited to the account that placed it and no callback traps.
After any other sign-out the success of the create traps; after any other
answer to a sign-in it is credited to the account that came. -/
theorem credited_to_placer (s : App) :
    (∀ s₀ ls, Launch s₀ → OwnProfiles s₀ → (app.when CreatesDone).Run s₀ ls s →
      Credited s ∧ ∀ i ok t, app.step s (.reply i ok) t → t.trap = none) ∧
    (∀ t ok, app.step s (.signOut ok) t → t.trap = none → ¬ CreatesDone s (.signOut ok) →
      ∃ i u, app.step t (.reply i true) u ∧ u.trap = some .nilUnwrap) ∧
    (∀ s₀ ls, Launch s₀ → OwnProfiles s₀ → (app.when CreatesDone).Run s₀ ls s →
      ∀ i ok t w, app.step s (.signInReply i ok) t → t.trap = none → Replaces s (.signInReply i ok) →
        .create w ∈ s.pending → ∃ j u v, app.step t (.reply j true) u ∧
          .appended (some v) w.doc ∈ u.log ∧ w.uid ≠ some v) := by
  refine ⟨fun s₀ ls hl hp hrun => ?_, fun t ok hs ht hn => ?_,
    fun s₀ ls hl hp hrun i ok t w hs ht hrep hw => (ledger_run hl hp hrun).late_create hs ht hrep hw⟩
  · have hled := ledger_run hl hp hrun
    refine ⟨⟨fun uid d hd => ?_, fun uid ids hlist d hd => (hled.listed uid ids hlist d hd).2⟩,
      fun i ok t hs => ?_⟩
    · obtain ⟨hsome, v, hv, hdoc, hvu⟩ := hled.appended uid d hd
      obtain ⟨u, rfl⟩ := Option.isSome_iff_exists.mp hsome
      refine ⟨⟨v, hv, hdoc⟩, u, rfl, fun w hw he => ?_⟩
      rw [hled.unique w v hw hv (he.trans hdoc.symm), hvu]
    · obtain ⟨ht, -, hf⟩ := step_cases hs
      cases hf with
      | session _ he => cases he
      | reply _ _ c l₁ l₂ hp => rw [(hled.reply hp ok).2, ht]
  · have hw : ∃ w, .create w ∈ s.pending := by
      by_contra hno
      simp only [not_exists] at hno
      exact hn fun _ => ⟨hno, fun i ok a f l he => by cases he⟩
    obtain ⟨w, hw⟩ := hw
    exact late_create_traps hs ht hw

/-- A server with two accounts. -/
def accounts : App where
  users uid :=
    if uid = "u1" then some { uid := some "u1", crsid := some "ab12" }
    else if uid = "u2" then some { uid := some "u2", crsid := some "cd34" }
    else none

/-- Both sign in before either profile is read. The first one orders a tea,
then the second profile is read. -/
def overlappingSignIns : List Ev :=
  [.authSignIn ⟨"u1", some "ab12@cam.ac.uk"⟩, .populateAsCurrentUser,
    .authSignIn ⟨"u2", some "cd34@cam.ac.uk"⟩, .populateAsCurrentUser, .signInReply 0 true,
    .addItem .cafe (plainItem "tea" "Cafe"), .checkout fun _ => 0, .signInReply 0 true]

theorem launch_accounts : Launch accounts := by
  refine ⟨rfl, rfl, rfl, rfl, rfl, rfl, rfl, fun uid p hp d hd => ?_⟩
  have hids : p.previousOrders = [] := by
    simp only [accounts] at hp
    split at hp
    · cases hp; rfl
    split at hp
    · cases hp; rfl
    · cases hp
  rw [hids] at hd; cases hd

/-- **A late create** traps after a sign-out, here one that Firebase refused,
and is credited to the account that came, in memory and on the server. -/
theorem late_create_credited :
    (∃ s, app.Run {} (signUp ++ [.addItem .cafe (plainItem "tea" "Cafe"), .checkout fun _ => 0,
      .signOut false, .reply 0 true]) s ∧ s.trap = some .nilUnwrap) ∧
    Launch accounts ∧ ∃ s w, app.Run accounts (overlappingSignIns ++ [.reply 0 true, .reply 0 true]) s ∧
      .issued (.create w) ∈ s.log ∧ w.uid = some "u1" ∧ w.data.user = some "ab12" ∧
      .appended (some "u2") w.doc ∈ s.log ∧ (s.users "u2").map (·.previousOrders) = some [w.doc] :=
  ⟨⟨_, LTS.run_of_exec rfl, rfl⟩, launch_accounts, _, _, LTS.run_of_exec rfl,
    List.mem_of_getElem? (i := 1) rfl, rfl, rfl, List.mem_of_getElem? (i := 3) rfl, rfl⟩

end App

end QadsCafe
