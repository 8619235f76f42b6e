import QadsCafe.L5Runs.Profiles

/-!
# Notification topics

`signIn` subscribes the device to the topics of the profile it holds,
`signOut` unsubscribes it from those of the profile it holds then. A launch
whose profile read fails leaves the tab bar without a sign-out, and the next
sign-in replaces the account: the topics of the earlier one stay.

The condition under which they do not is about earlier steps: `holding`
records whom `signIn` was last called for with no sign-out since, and
`Separate` lets nobody else sign in.
-/
namespace QadsCafe.Device

open Core

/-- The `crsid` that `make` stores for an account. -/
def accountCrsid (a : Account) : String := (a.email.map App.crsidOf).getD "UNKNOWN"

def topicsOf (a : Account) : Finset String := {a.uid, accountCrsid a}

/-- The topics of the account signed in. -/
def ownTopics (s : Device) : Finset String :=
  match s.auth with
  | none => ∅
  | some a => topicsOf a

/-- Whom `signIn` was last called for, unless a sign-out came after it. -/
def holder (s : Device) : Event → Option Account → Option Account
  | .readReply _ r, g => if (load s.user r).uid.isSome then s.auth else g
  | .writeReply _ _, _ => s.auth
  | .signOutTapped _, g => if s.user.uid.isSome && s.user.crsid.isSome then none else g
  | _, g => g

/-- The sessions, with the account that `signIn` was last called for. -/
def holding : LTS (Device × Option Account) Event := sessions.record none holder

/-- Between the entries of two accounts there is a sign-out. A profile that is
read is that of the account signed in, as `make` writes it; a form is answered
while its account is signed in. -/
def Separate (p : Device × Option Account) : Event → Prop
  | .authReply _ (.success a _) => p.2 = none ∨ p.2 = some a
  | .readReply _ (.found data) => (populate data).uid = none ∨
    ∃ a, p.1.auth = some a ∧ (populate data).uid = some a.uid ∧
      ((populate data).crsid = none ∨ (populate data).crsid = some (accountCrsid a))
  | .writeReply i _ => ∀ a f l, p.1.pending[i]? = some (.write a f l) → p.1.auth = some a
  | _ => True

/-- The topics that the holder brought along. -/
def heldTopics (g : Option Account) : Finset String := g.elim ∅ topicsOf

/-- The device is subscribed to nothing but the holder's topics, and with a
profile loaded to exactly those of the profile. The holder is signed in. -/
structure Subscribed (s : Device) (g : Option Account) : Prop where
  held : s.topics ⊆ heldTopics g
  auth : ∀ a, g = some a → s.auth = some a
  loaded : s.trap = none → ∀ uid, s.user.uid = some uid →
    ∃ crsid, s.user.crsid = some crsid ∧ s.topics = {uid, crsid}

theorem Subscribed.own {s : Device} {g : Option Account} (h : Subscribed s g) :
    s.topics ⊆ s.ownTopics := by
  cases g with
  | none => exact h.held.trans (Finset.empty_subset _)
  | some a =>
    rw [ownTopics, h.auth a rfl]
    exact h.held

/-- The topics before are those of the account signed in, whoever it is. -/
theorem Subscribed.of_auth {s : Device} {g : Option Account} (h : Subscribed s g) {a : Account}
    (ha : s.auth = some a) : s.topics ⊆ topicsOf a := by
  have hown := h.own
  rw [ownTopics, ha] at hown
  exact hown

/-- With a profile loaded the holder is the account signed in. -/
theorem Subscribed.holder_eq {s : Device} {g : Option Account} (h : Subscribed s g)
    (ht : s.trap = none) (hu : s.user.uid ≠ none) : s.auth = g := by
  obtain ⟨uid, huid⟩ := Option.ne_none_iff_exists'.mp hu
  obtain ⟨crsid, -, htopics⟩ := h.loaded ht uid huid
  cases g with
  | none =>
    have hmem : uid ∈ s.topics := by rw [htopics]; exact Finset.mem_insert_self _ _
    exact absurd (h.held hmem) (Finset.notMem_empty _)
  | some a => exact h.auth a rfl

theorem Subscribed.congr {s t : Device} {g : Option Account} (h : Subscribed s g)
    (ht : t.topics = s.topics) (ha : t.auth = s.auth) (hu : t.user = s.user)
    (htrap : t.trap = none → s.trap = none) : Subscribed t g := by
  refine ⟨?_, fun a hg => ?_, fun hn => ?_⟩
  · rw [ht]; exact h.held
  · rw [ha]; exact h.auth a hg
  · rw [ht, hu]; exact h.loaded (htrap hn)

/-- Without a profile. -/
theorem Subscribed.of_uid_none {s : Device} {g : Option Account} (h : s.topics ⊆ heldTopics g)
    (ha : ∀ a, g = some a → s.auth = some a) (hu : s.user.uid = none) : Subscribed s g :=
  ⟨h, ha, fun _ uid hs => by rw [hu] at hs; cases hs⟩

theorem pair_of_subset {topics : Finset String} {x y : String} (h : topics ⊆ {x, y}) :
    insert y (insert x topics) = {x, y} := by
  ext z
  simp only [Finset.mem_insert, Finset.mem_singleton]
  constructor
  · rintro (rfl | rfl | hz)
    · exact .inr rfl
    · exact .inl rfl
    · simpa using h hz
  · rintro (rfl | rfl)
    · exact .inr (.inl rfl)
    · exact .inl rfl

/-- **Entering the tab bar** with a profile of the account signed in, who
holds the topics from then on. -/
theorem Subscribed.enter {s : Device} {a : Account} (h : s.topics ⊆ topicsOf a) (ha : s.auth = some a)
    (hu : s.user.uid = some a.uid) (hc : s.user.crsid = none ∨ s.user.crsid = some (accountCrsid a)) :
    Subscribed s.enter (some a) := by
  refine ⟨fun topic ht => ?_, fun a' hg => ?_, fun hn uid huid => ?_⟩
  · show topic ∈ topicsOf a
    rcases enter_topics_subset s hu topic ht with hold | rfl | hcrsid
    · exact h hold
    · simp [topicsOf]
    · rcases hc with hc | hc
      · rw [hc] at hcrsid; cases hcrsid
      · rw [hc] at hcrsid
        cases hcrsid
        simp [topicsOf]
  · rw [enter_auth, ha, hg]
  · rcases hc with hc | hc
    · rw [enter_trap_of_no_crsid hc] at hn; cases hn
    · rw [enter_user, hu] at huid
      cases huid
      refine ⟨accountCrsid a, by rw [enter_user, hc], ?_⟩
      simp only [Device.enter, signIn, hu, hc, subscribe]
      exact pair_of_subset h

/-- A read that leaves the loaded profile as it is enters the tab bar again. -/
theorem Subscribed.enter_again {s : Device} {g : Option Account} (h : Subscribed s g)
    (htrap : s.trap = none) (hu : s.user.uid ≠ none) : Subscribed s.enter s.auth := by
  obtain ⟨uid, huid⟩ := Option.ne_none_iff_exists'.mp hu
  obtain ⟨crsid, hcrsid, htopics⟩ := h.loaded htrap uid huid
  rw [h.holder_eq htrap hu, enter_of_crsid huid hcrsid htrap]
  refine h.congr ?_ rfl rfl fun _ => htrap
  show insert crsid (insert uid s.topics) = s.topics
  rw [htopics]
  exact pair_of_subset (Finset.Subset.refl _)

theorem Subscribed.readReply {s : Device} {g : Option Account} (h : Subscribed s g)
    (htrap : s.trap = none) {i : Nat} {r : ReadResult} (hc : Separate (s, g) (.readReply i r))
    (reader : Reader) :
    Subscribed ((s.answered i).readReply reader r) (holder s (.readReply i r) g) := by
  have hans : Subscribed (s.answered i) g := h.congr rfl rfl rfl id
  refine readReply_cases (s.answered i) reader r (fun hu => ?_) fun hu => ?_
  · have hu' : (load s.user r).uid = none := hu
    rw [holder, hu']
    exact .of_uid_none h.held h.auth hu
  · have hsome : (load s.user r).uid.isSome = true := Option.isSome_iff_ne_none.mpr hu
    rw [holder, if_pos hsome]
    cases r with
    | found data =>
      rcases hc with hnone | ⟨a, ha, huid, hcrsid⟩
      · exact absurd hnone hu
      · have ha' : s.auth = some a := ha
        rw [ha']
        exact Subscribed.enter (h.of_auth ha) ha huid hcrsid
    | missing => exact hans.enter_again htrap hu
    | error => exact hans.enter_again htrap hu

theorem Subscribed.signOutTapped {s : Device} {g : Option Account} (h : Subscribed s g)
    (htrap : s.trap = none) (ok : Bool) :
    Subscribed (s.signOutTapped ok) (holder s (.signOutTapped ok) g) := by
  unfold Device.signOutTapped holder
  cases huid : s.user.uid with
  | none => exact h.congr rfl rfl rfl fun hn => by cases hn
  | some uid =>
    obtain ⟨crsid, hcrsid, htopics⟩ := h.loaded htrap uid huid
    simp only [hcrsid]
    refine .of_uid_none (fun topic ht => ?_) (fun a hg => by cases hg) rfl
    simp only [unsubscribe, htopics, Finset.mem_erase, Finset.mem_insert, Finset.mem_singleton] at ht
    obtain ⟨h1, h2, rfl | rfl⟩ := ht
    · exact absurd rfl h2
    · exact absurd rfl h1

theorem Subscribed.step {s t : Device} {e : Event} {g : Option Account} (h : Subscribed s g)
    (hs : s.step e = some t) (hc : Separate (s, g) e) : Subscribed t (holder s e g) := by
  cases step_cases hs with
  | launch landed =>
    unfold launch
    dsimp only
    split
    · exact .of_uid_none h.held h.auth rfl
    · unfold populateAsCurrentUser
      split <;> exact .of_uid_none h.held h.auth rfl
  | signInTapped p => exact h.congr rfl rfl rfl id
  | authReply i r p ht =>
    cases r with
    | cancelled => exact h.congr rfl rfl rfl id
    | error =>
      cases p with
      | google => exact h.congr rfl rfl rfl fun hn => by cases hn
      | apple => exact h.congr rfl rfl rfl id
    | success a isNewUser =>
      have hauth : ∀ b, g = some b → some a = some b := by
        rintro b rfl
        rcases hc with hn | hb
        · cases hn
        · exact hb.symm
      cases isNewUser <;> exact ⟨h.held, hauth, h.loaded⟩
  | readReply i r uid reader ht => exact h.readReply ht hc reader
  | signUpButton f l ht =>
    unfold signUpButton make
    split
    · exact h
    · dsimp only
      split
      · exact ⟨h.held, h.auth, fun hn => by cases hn⟩
      · exact ⟨h.held, h.auth, h.loaded⟩
  | writeReply i ok a f l ht hi =>
    have ha : s.auth = some a := hc a f l hi
    have hholder : holder s (.writeReply i ok) g = some a := ha
    rw [hholder]
    refine Subscribed.enter (h.of_auth ha) ha rfl ?_
    unfold accountCrsid
    cases a.email with
    | none => exact .inl rfl
    | some email => exact .inr rfl
  | layout =>
    unfold layout
    split
    · exact h
    · exact h.congr rfl rfl rfl fun hn => by cases hn
  | signOutTapped ok ht => exact h.signOutTapped ht ok

/-- **Topics follow the signed-in account** in every run that meets the
condition. -/
theorem topics_own {s : Device} {g : Option Account} (hr : (holding.when Separate).Reachable (s, g)) :
    s.topics ⊆ s.ownTopics := by
  have hsub : Subscribed (s, g).1 (s, g).2 := by
    refine hr.invariant (I := fun p => Subscribed p.1 p.2) ?_ ?_
    · rintro ⟨s, g⟩ ⟨hi, rfl⟩
      have hi' : Installed s := hi
      exact .of_uid_none (by rw [hi'.topics]; exact Finset.empty_subset _) (fun a hg => by cases hg)
        (by rw [hi'.user])
    · rintro ⟨s, g⟩ e ⟨t, g'⟩ - h ⟨⟨hs, hg⟩, hc⟩
      obtain rfl : g' = holder s e g := hg
      exact h.step hs hc
  exact hsub.own

/-! ## Two accounts on one device -/

def bob : Account := ⟨"u2", some "cd34@cam.ac.uk"⟩

def adaSignsIn : List Event :=
  [.launch [], .signInTapped .google, .authReply 0 (.success ada false),
    .readReply 0 (.found adaDocument)]

theorem holding_step {s t : Device} {e : Event} {g : Option Account} (hs : s.step e = some t)
    (hc : Separate (s, g) e) : (holding.when Separate).step (s, g) e (t, holder s e g) := ⟨⟨hs, rfl⟩, hc⟩

theorem adaSignsIn_own : ∃ s, sessions.Run adaStored adaSignsIn s ∧ s.screen = .main ∧
    s.topics ⊆ s.ownTopics := by
  obtain ⟨s, g, hs, hm⟩ : ∃ s g, (holding.when Separate).Run (adaStored, none) adaSignsIn (s, g) ∧
      s.screen = .main :=
    ⟨_, _, .cons (holding_step rfl trivial) <| .cons (holding_step rfl trivial) <|
      .cons (holding_step rfl (.inl rfl)) <|
      .cons (holding_step rfl (.inr ⟨ada, rfl, rfl, .inr rfl⟩)) <| .nil _, rfl⟩
  have hinit : (holding.when Separate).init (adaStored, none) := ⟨⟨rfl, rfl, rfl, rfl, rfl⟩, rfl⟩
  exact ⟨s, LTS.run_record_iff.mpr ⟨g, hs.of_when⟩, hm, topics_own (hs.reachable hinit)⟩

/-- **The earlier account's topics stay**: a launch whose read fails, then a
sign-in and a form of another account. -/
theorem earlier_topics_stay : Installed adaStored ∧ ∃ s, device.Run adaStored (adaSignsIn ++
    [.launch [], .readReply 0 .error, .signInTapped .google, .authReply 0 (.success bob true),
      .signUpButton (typed "Bob") (typed "Brown"), .writeReply 0 true]) s ∧
    s.screen = .main ∧ s.auth = some bob ∧ "u1" ∈ s.topics ∧ ¬ s.topics ⊆ s.ownTopics := by
  refine ⟨⟨rfl, rfl, rfl, rfl, rfl⟩, _, .cons ⟨rfl, trivial⟩ <| .cons ⟨rfl, trivial⟩ <|
    .cons ⟨rfl, trivial⟩ <| .cons ⟨rfl, fun _ _ h => ?_⟩ <| .cons ⟨rfl, trivial⟩ <|
    .cons ⟨rfl, fun _ _ _ => trivial⟩ <| .cons ⟨rfl, trivial⟩ <| .cons ⟨rfl, trivial⟩ <|
    .cons ⟨rfl, trivial⟩ <| .cons ⟨rfl, trivial⟩ <| .nil _, rfl, rfl, by decide, by decide⟩
  cases h
  rfl

end QadsCafe.Device
