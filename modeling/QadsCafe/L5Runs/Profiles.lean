import QadsCafe.L4App.SignInSteps

/-!
# Stored profiles and sign-up forms

A sign-up form sets the whole document of its account, so it destroys the
order history of an account that has one. The form is shown to such an
account whenever its profile was not read: `populateAsCurrentUser` runs its
completion after a failed read too, and the completion takes a missing `uid`
for a new account.
-/
namespace QadsCafe.Device

open Core

/-! ## The stored histories -/

def storedOrders (s : Device) (uid : String) : List String :=
  ((s.users uid).map fun data => (populate data).previousOrders).getD []

/-- No order ID stored in `s` is missing in `t`. -/
def KeepsOrders (s t : Device) : Prop := ∀ uid, ∀ d ∈ s.storedOrders uid, d ∈ t.storedOrders uid

/-- A sign-up form is applied only to a document that lists no order. -/
def SparesOrders (s : Device) (e : Event) : Prop :=
  ∀ a f l, Lands s (.write a f l) e → s.storedOrders a.uid = []

theorem storedOrders_made {s : Device} {uid : String} {a : Account} {f l : Option String}
    (h : s.users uid = some (makeDocument a f l)) : s.storedOrders uid = [] := by
  simp [storedOrders, h, populate_makeDocument]

theorem storedOrders_congr {s t : Device} {uid : String} (h : t.users uid = s.users uid) :
    t.storedOrders uid = s.storedOrders uid := by rw [storedOrders, h, storedOrders]

/-- Nothing is added to a history. -/
theorem storedOrders_subset {s t : Device} {e : Event} (h : s.step e = some t) (uid : String) :
    t.storedOrders uid ⊆ s.storedOrders uid := by
  rcases users_step h uid with ⟨hsame, -⟩ | ⟨a, f, l, -, -, hset⟩
  · rw [storedOrders_congr hsame]
    exact List.Subset.refl _
  · rw [storedOrders_made hset]
    exact List.nil_subset _

/-- **One step** keeps every stored history iff it meets the condition. -/
theorem keepsOrders_iff {s t : Device} {e : Event} (h : s.step e = some t) :
    KeepsOrders s t ↔ SparesOrders s e := by
  constructor
  · intro hk a f l hl
    rcases users_step h a.uid with ⟨-, hnone⟩ | ⟨a', f', l', -, -, hset⟩
    · exact absurd rfl (hnone a f l hl)
    · rw [List.eq_nil_iff_forall_not_mem]
      intro d hd
      have := hk a.uid d hd
      rw [storedOrders_made hset] at this
      cases this
  · intro hc uid d hd
    rcases users_step h uid with ⟨hsame, -⟩ | ⟨a, f, l, hl, rfl, -⟩
    · rw [storedOrders_congr hsame]
      exact hd
    · rw [hc a f l hl] at hd
      cases hd

/-- **Signing in never destroys a stored profile** iff every sign-up form that
is applied in the run was that of an account without orders. -/
theorem keeps_orders_iff {s₀ s : Device} {ls : List Event} (hr : device.Run s₀ ls s) :
    (∀ ms u, ms <+: ls → device.Run s₀ ms u → KeepsOrders s₀ u) ↔
      (device.when SparesOrders).Run s₀ ls s := by
  induction hr with
  | nil s₀ =>
    refine ⟨fun _ => .nil s₀, fun _ ms u hms hu => ?_⟩
    rw [List.prefix_nil.mp hms] at hu
    cases hu
    exact fun uid d hd => hd
  | @cons s₀ v s e ls hs hrest ih =>
    constructor
    · intro h
      have hv : KeepsOrders s₀ v := h [e] v ⟨ls, rfl⟩ (.cons hs (.nil v))
      refine .cons ⟨hs, (keepsOrders_iff hs.1).mp hv⟩ (ih.mp fun ms u hms hu => ?_)
      -- what is stored in `v` was stored in `s₀`
      exact fun uid d hd => h (e :: ms) u (List.cons_prefix_cons.mpr ⟨rfl, hms⟩) (.cons hs hu) uid d
        (storedOrders_subset hs.1 uid hd)
    · intro h ms u hms hu
      cases h with
      | @cons _ v' _ _ _ hs' hrest' =>
        obtain rfl : v' = v := Option.some.inj (hs'.1.1.symm.trans hs.1)
        cases hu with
        | nil => exact fun uid d hd => hd
        | @cons _ w _ _ ms hw hu =>
          obtain ⟨rfl, htail⟩ := List.cons_prefix_cons.mp hms
          obtain rfl : w = v' := Option.some.inj (hw.1.symm.trans hs.1)
          have hv : KeepsOrders s₀ w := (keepsOrders_iff hs.1).mpr hs'.2
          exact fun uid d hd => ih.mpr hrest' ms u htail hu uid d (hv uid d hd)

/-- The account of the concrete runs, and its document with one order. -/
def ada : Account := ⟨"u1", some "ab12@cam.ac.uk"⟩

def adaDocument : Dict Value :=
  makeDocument ada (some "Ada") (some "Byron") ++ [("previous_orders", .array [.string "o1"])]

def adaStored : Device := { users := fun uid => if uid = "u1" then some adaDocument else none }

/-- A sign-in whose profile read fails, and the form it leads to. -/
def signUpAgain (ok : Bool) : List Event :=
  [.launch [], .signInTapped .google, .authReply 0 (.success ada false), .readReply 0 .error,
    .signUpButton (typed "Ada") (typed "Byron"), .writeReply 0 ok]

theorem signUpAgain_run (ok : Bool) : ∃ s, device.Run adaStored (signUpAgain ok) s ∧
    s.users = if ok then Function.update adaStored.users "u1" (some (makeDocument ada (some "Ada") (some "Byron")))
      else adaStored.users := by
  cases ok with
  | false =>
    exact ⟨_, .cons ⟨rfl, trivial⟩ <| .cons ⟨rfl, trivial⟩ <| .cons ⟨rfl, trivial⟩ <|
      .cons ⟨rfl, fun _ _ _ => trivial⟩ <| .cons ⟨rfl, trivial⟩ <| .cons ⟨rfl, trivial⟩ <| .nil _, rfl⟩
  | true =>
    exact ⟨_, .cons ⟨rfl, trivial⟩ <| .cons ⟨rfl, trivial⟩ <| .cons ⟨rfl, trivial⟩ <|
      .cons ⟨rfl, fun _ _ _ => trivial⟩ <| .cons ⟨rfl, trivial⟩ <| .cons ⟨rfl, trivial⟩ <| .nil _, rfl⟩

theorem failed_form_keeps : ∃ s, device.Run adaStored (signUpAgain false) s ∧
    ((∀ ms u, ms <+: signUpAgain false → device.Run adaStored ms u → KeepsOrders adaStored u) ↔
      (device.when SparesOrders).Run adaStored (signUpAgain false) s) := by
  obtain ⟨s, hs, -⟩ := signUpAgain_run false
  exact ⟨s, hs, keeps_orders_iff hs⟩

/-- **A failed read costs the history**: order "o1" is stored, and gone after
the form. -/
theorem failed_read_destroys : Installed adaStored ∧ ∃ s, device.Run adaStored (signUpAgain true) s ∧
    adaStored.storedOrders "u1" = ["o1"] ∧ s.storedOrders "u1" = [] := by
  obtain ⟨s, hs, hu⟩ := signUpAgain_run true
  exact ⟨⟨rfl, rfl, rfl, rfl, rfl⟩, s, hs, rfl, storedOrders_made (congrFun hu "u1")⟩

/-! ## The profile held and the profile stored -/

/-- Everything but the order history. -/
structure SameProfile (u v : User) : Prop where
  uid : u.uid = v.uid
  crsid : u.crsid = v.crsid
  email : u.email = v.email
  firstName : u.firstName = v.firstName
  lastName : u.lastName = v.lastName

/-- The document of the user exists, and `populate` reads the profile held. -/
def Agrees (users : String → Option (Dict Value)) (u : User) : Prop :=
  ∃ uid data, u.uid = some uid ∧ users uid = some data ∧ SameProfile (populate data) u

/-- The tab bar is the root screen. -/
def CanOrder (s : Device) : Prop := s.trap = none ∧ s.screen = .main

/-- A document that is read holds its own key as `uid`, or none. A read that
gives no document is not answered over a sign-up form while another profile is
loaded. A sign-up form is answered with success, before another one or a read
has changed the names. -/
def Faithful (s : Device) : Event → Prop
  | .readReply i r => ∀ uid reader, s.pending[i]? = some (.read uid reader) →
    match r with
    | .found data => (populate data).uid = none ∨ (populate data).uid = some uid
    | .missing | .error => s.screen = .signUp → s.user.uid = none
  | .writeReply i ok => ∀ a f l, s.pending[i]? = some (.write a f l) → a.email.isSome →
    ok = true ∧ s.user.firstName = f ∧ s.user.lastName = l
  | _ => True

/-- A loaded profile agrees, except behind a sign-up form. -/
structure Agreeing (s : Device) : Prop where
  loaded : s.user.uid.isSome → s.screen ≠ .signUp → Agrees s.users s.user
  main : s.screen = .main → s.user.uid.isSome

theorem Agreeing.of_uid_none {s : Device} (hu : s.user.uid = none) (hs : s.screen ≠ .main) :
    Agreeing s := by
  refine ⟨fun h => ?_, fun h => absurd h hs⟩
  rw [hu] at h
  cases h

theorem Agreeing.enter {s : Device} (h : Agrees s.users s.user) : Agreeing s.enter := by
  refine ⟨fun _ _ => by simpa using h, fun _ => ?_⟩
  obtain ⟨uid, data, hu, -, -⟩ := h
  simp [hu]

/-- The fields the agreement is about. -/
theorem Agreeing.congr {s t : Device} (h : Agreeing s) (husers : t.users = s.users)
    (hu : t.user = s.user) (hs : t.screen = s.screen) : Agreeing t :=
  ⟨fun h1 h2 => by rw [husers, hu]; exact h.loaded (hu ▸ h1) (hs ▸ h2),
    fun h1 => by rw [hu]; exact h.main (hs ▸ h1)⟩

theorem Agreeing.readReply {s : Device} (h : Agreeing s) {i : Nat} {r : ReadResult} {uid : String}
    {reader : Reader} (hi : s.pending[i]? = some (.read uid reader)) (hst : Stored s (.readReply i r))
    (hc : Faithful s (.readReply i r)) : Agreeing ((s.answered i).readReply reader r) := by
  refine readReply_cases (s.answered i) reader r (fun hu => ?_) fun hu => ?_
  · refine .of_uid_none hu ?_
    cases reader <;> exact Screen.noConfusion
  · refine Agreeing.enter ?_
    have hkept : s.user.uid ≠ none → (s.screen = .signUp → s.user.uid = none) →
        Agrees s.users s.user := fun hne hs =>
      h.loaded (Option.isSome_iff_ne_none.mpr hne) fun he => hne (hs he)
    cases r with
    | found data =>
      rcases hc uid reader hi with hnone | hkey
      · exact absurd hnone hu
      · exact ⟨uid, data, hkey, hst uid reader hi, rfl, rfl, rfl, rfl, rfl⟩
    | missing => exact hkept hu (hc uid reader hi)
    | error => exact hkept hu (hc uid reader hi)

theorem agrees_writeReply {s : Device} {a : Account} {f l : Option String} {email : String}
    (he : a.email = some email) (hf : s.user.firstName = f) (hl : s.user.lastName = l) :
    Agrees (applyWrite s.users (.write a f l))
      { s.user with uid := some a.uid, email := a.email, crsid := a.email.map App.crsidOf } := by
  refine ⟨a.uid, makeDocument a f l, rfl, applyWrite_self _ a f l, ?_⟩
  rw [populate_makeDocument, he]
  exact ⟨rfl, rfl, rfl, hf.symm, hl.symm⟩

theorem agreeing_step {s t : Device} {e : Event} (h : s.trap = none → Agreeing s)
    (hs : s.step e = some t) (hst : Stored s e) (hc : Faithful s e) (htrap : t.trap = none) :
    Agreeing t := by
  cases step_cases hs with
  | launch landed =>
    unfold launch
    dsimp only
    split
    · exact .of_uid_none rfl Screen.noConfusion
    · unfold populateAsCurrentUser
      split <;> exact .of_uid_none rfl Screen.noConfusion
  | signInTapped p ht => exact (h ht).congr rfl rfl rfl
  | authReply i r p ht =>
    cases r with
    | cancelled => exact (h ht).congr rfl rfl rfl
    | error =>
      cases p with
      | google => cases htrap
      | apple => exact (h ht).congr rfl rfl rfl
    | success a isNewUser =>
      cases isNewUser with
      | true => exact ⟨fun _ hne => absurd rfl hne, fun hm => Screen.noConfusion hm⟩
      | false => exact (h ht).congr rfl rfl rfl
  | readReply i r uid reader ht hi => exact (h ht).readReply hi hst hc
  | signUpButton f l ht hscreen =>
    have hsame : (s.signUpButton f l).screen = .signUp := by
      rw [← hscreen]
      unfold signUpButton make
      split
      · rfl
      · dsimp only; split <;> rfl
    exact ⟨fun _ hne => absurd hsame hne, fun hm => by rw [hsame] at hm; cases hm⟩
  | writeReply i ok a f l ht hi =>
    obtain ⟨uid, crsid, -, hcrsid⟩ := enter_untrapped htrap
    obtain ⟨email, he, -⟩ := Option.map_eq_some_iff.mp hcrsid
    obtain ⟨rfl, hf, hl⟩ := hc a f l hi (by rw [he]; rfl)
    exact Agreeing.enter (agrees_writeReply he hf hl)
  | layout ht =>
    unfold layout at htrap ⊢
    split
    · exact h ht
    · rename_i hn; rw [if_neg hn] at htrap; cases htrap
  | signOutTapped ok ht =>
    unfold signOutTapped at htrap ⊢
    split
    · exact .of_uid_none rfl Screen.noConfusion
    · rename_i hu hcr; simp only [hu, hcr] at htrap; cases htrap
    · rename_i hu; simp only [hu] at htrap; cases htrap

/-- **The profile held is the profile stored** while orders can be placed, in
every run whose answers meet the condition. -/
theorem profile_agrees {s : Device} (hr : (device.when Faithful).Reachable s) (hm : s.CanOrder) :
    Agrees s.users s.user := by
  have hinv : s.trap = none → Agreeing s := by
    refine hr.invariant (I := fun s => s.trap = none → Agreeing s) (fun s hi _ => ?_) ?_
    · have hi' : Installed s := hi
      exact .of_uid_none (by rw [hi'.user]) (by rw [hi'.screen]; exact Screen.noConfusion)
    · rintro s e t - h ⟨⟨hs, hst⟩, hc⟩ ht
      exact agreeing_step h hs hst hc ht
  have hag := hinv hm.1
  exact hag.loaded (hag.main hm.2) (by rw [hm.2]; exact Screen.noConfusion)

/-- A first sign-in, and the form. -/
def firstSignUp (ok : Bool) : List Event :=
  [.launch [], .signInTapped .google, .authReply 0 (.success ada true), .signUpButton (typed "Ada") (typed "Byron"),
    .writeReply 0 ok]

theorem firstSignUp_agrees : ∃ s, (device.when Faithful).Run {} (firstSignUp true) s ∧ s.CanOrder ∧
    Agrees s.users s.user := by
  obtain ⟨s, hs, hm⟩ : ∃ s, (device.when Faithful).Run {} (firstSignUp true) s ∧ s.CanOrder := by
    refine ⟨_, .cons ⟨⟨rfl, trivial⟩, trivial⟩ <| .cons ⟨⟨rfl, trivial⟩, trivial⟩ <|
      .cons ⟨⟨rfl, trivial⟩, trivial⟩ <| .cons ⟨⟨rfl, trivial⟩, trivial⟩ <|
      .cons ⟨⟨rfl, trivial⟩, fun a f l h _ => ?_⟩ <| .nil _, rfl, rfl⟩
    cases h
    exact ⟨rfl, rfl, rfl⟩
  exact ⟨s, hs, hm, profile_agrees (hs.reachable ⟨rfl, rfl, rfl, rfl, rfl⟩) hm⟩

/-- **A failed form leads to the tab bar**: no document is stored. -/
theorem failed_form_enters : Installed {} ∧ ∃ s, device.Run {} (firstSignUp false) s ∧ s.CanOrder ∧
    s.users "u1" = none ∧ ¬ Agrees s.users s.user := by
  refine ⟨⟨rfl, rfl, rfl, rfl, rfl⟩, _, .cons ⟨rfl, trivial⟩ <| .cons ⟨rfl, trivial⟩ <|
    .cons ⟨rfl, trivial⟩ <| .cons ⟨rfl, trivial⟩ <| .cons ⟨rfl, trivial⟩ <| .nil _, ⟨rfl, rfl⟩, rfl, ?_⟩
  rintro ⟨uid, data, -, hd, -⟩
  cases hd

end QadsCafe.Device
