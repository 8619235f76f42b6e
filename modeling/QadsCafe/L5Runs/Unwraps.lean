import QadsCafe.L4App.SignInSteps

/-!
# Forced unwraps of the session values

`signIn`, `signOut`, `make`, the Google handler and the basket footer unwrap
what their callers have not checked: the check before `signIn` is of `uid`
only, and `populate` decodes each field on its own. `Provided` says what has
to be there when a request is answered; it is exact, since any other answer
traps at once or lets the next tap trap.
-/
namespace QadsCafe.Device

open Core

/-- What the closure of an answered request goes on to use is there: the
Google sign-in has a result; a profile with a `uid` has a `crsid` and both
names, and one without leads to the form with somebody signed in; an account
that submitted the form has an email, and its names have not been cleared. -/
def Provided (s : Device) : Event → Prop
  | .authReply i .error => s.pending[i]? ≠ some (.auth .google)
  | .readReply i r => ∀ uid reader, s.pending[i]? = some (.read uid reader) →
    match r with
    | .found data =>
      if (populate data).uid.isSome then
        (populate data).crsid.isSome ∧ (populate data).firstName.isSome ∧ (populate data).lastName.isSome
      else reader = .handler → s.auth.isSome
    | .missing | .error => s.user.uid = none → reader = .handler → s.auth.isSome
  | .writeReply i _ => ∀ a f l, s.pending[i]? = some (.write a f l) →
    a.email.isSome ∧ s.user.firstName.isSome ∧ s.user.lastName.isSome
  | _ => True

/-- Nothing that is unwrapped is missing. -/
structure Sound (s : Device) : Prop where
  trap : s.trap = none
  loaded : s.user.uid.isSome → s.user.crsid.isSome ∧ s.user.firstName.isSome ∧ s.user.lastName.isSome
  main : s.screen = .main → s.user.uid.isSome
  signUp : s.screen = .signUp → s.auth.isSome

theorem Sound.congr {s t : Device} (h : Sound s) (ht : t.trap = s.trap) (hu : t.user = s.user)
    (hs : t.screen = s.screen) (ha : t.auth = s.auth) : Sound t :=
  ⟨ht.trans h.trap, by rw [hu]; exact h.loaded, by rw [hs, hu]; exact h.main,
    by rw [hs, ha]; exact h.signUp⟩

/-- On a screen that uses nothing. -/
theorem Sound.of_uid_none {s : Device} (ht : s.trap = none) (hu : s.user.uid = none)
    (hm : s.screen ≠ .main) (ha : s.screen = .signUp → s.auth.isSome) : Sound s := by
  refine ⟨ht, fun h => ?_, fun h => absurd h hm, ha⟩
  rw [hu] at h
  cases h

theorem Sound.enter {s : Device} (ht : s.trap = none) (hu : s.user.uid.isSome)
    (hl : s.user.crsid.isSome ∧ s.user.firstName.isSome ∧ s.user.lastName.isSome) : Sound s.enter := by
  obtain ⟨uid, huid⟩ := Option.isSome_iff_exists.mp hu
  obtain ⟨crsid, hc⟩ := Option.isSome_iff_exists.mp hl.1
  rw [enter_of_crsid huid hc ht]
  exact ⟨ht, fun _ => hl, fun _ => hu, fun h => Screen.noConfusion h⟩

theorem Sound.readReply {s : Device} (h : Sound s) {i : Nat} {r : ReadResult} {uid : String}
    {reader : Reader} (hi : s.pending[i]? = some (.read uid reader))
    (hc : Provided s (.readReply i r)) : Sound ((s.answered i).readReply reader r) := by
  refine readReply_cases (s.answered i) reader r (fun hu => ?_) fun hu => ?_
  · refine .of_uid_none h.trap hu ?_ fun hsign => ?_
    · cases reader <;> exact Screen.noConfusion
    · have hreader : reader = .handler := by cases reader <;> first | rfl | cases hsign
      cases r with
      | found data =>
        have hp := hc uid reader hi
        dsimp only at hp
        rw [if_neg (by simpa [load] using hu)] at hp
        exact hp hreader
      | missing => exact hc uid reader hi hu hreader
      | error => exact hc uid reader hi hu hreader
  · have hsome := Option.isSome_iff_ne_none.mpr hu
    refine Sound.enter h.trap hsome ?_
    cases r with
    | found data =>
      have hp := hc uid reader hi
      have hfound : (populate data).uid.isSome = true := hsome
      dsimp only at hp
      rw [if_pos hfound] at hp
      exact hp
    | missing => exact h.loaded hsome
    | error => exact h.loaded hsome

theorem Sound.signUpButton {s : Device} (h : Sound s) (hs : s.screen = .signUp)
    (firstName lastName : FieldText) : Sound (s.signUpButton firstName lastName) := by
  obtain ⟨a, ha⟩ := Option.isSome_iff_exists.mp (h.signUp hs)
  unfold Device.signUpButton make
  split
  · exact h
  · simp only [ha]
    exact ⟨h.trap, fun hu => ⟨(h.loaded hu).1, rfl, rfl⟩, h.main, fun _ => rfl⟩

theorem Sound.signOutTapped {s : Device} (h : Sound s) (hs : s.screen = .main) (ok : Bool) :
    Sound (s.signOutTapped ok) := by
  have hu := h.main hs
  obtain ⟨uid, huid⟩ := Option.isSome_iff_exists.mp hu
  obtain ⟨crsid, hc⟩ := Option.isSome_iff_exists.mp (h.loaded hu).1
  unfold Device.signOutTapped
  simp only [huid, hc]
  exact .of_uid_none h.trap rfl Screen.noConfusion fun hsign => Screen.noConfusion hsign

theorem Sound.layout {s : Device} (h : Sound s) (hs : s.screen = .main) : Sound s.layout := by
  unfold Device.layout
  rw [if_pos (h.loaded (h.main hs)).2]
  exact h

theorem sound_launch (s : Device) (landed : List Bool) : Sound (s.launch landed) := by
  unfold launch
  dsimp only
  split
  · exact .of_uid_none rfl rfl Screen.noConfusion fun hsign => Screen.noConfusion hsign
  · unfold populateAsCurrentUser
    split <;> exact .of_uid_none rfl rfl Screen.noConfusion fun hsign => Screen.noConfusion hsign

theorem Sound.step {s t : Device} {e : Event} (h : Sound s) (hs : s.step e = some t)
    (hc : Provided s e) : Sound t := by
  cases step_cases hs with
  | launch landed => exact sound_launch s landed
  | signInTapped p => exact h.congr rfl rfl rfl rfl
  | authReply i r p ht hi =>
    cases r with
    | cancelled => exact h.congr rfl rfl rfl rfl
    | error =>
      cases p with
      | google => exact absurd hi hc
      | apple => exact h.congr rfl rfl rfl rfl
    | success a isNewUser =>
      cases isNewUser with
      | true => exact ⟨ht, h.loaded, fun hm => Screen.noConfusion hm, fun _ => rfl⟩
      | false => exact ⟨ht, h.loaded, h.main, fun _ => rfl⟩
  | readReply i r uid reader ht hi => exact h.readReply hi hc
  | signUpButton f l ht hscreen => exact h.signUpButton hscreen f l
  | writeReply i ok a f l ht hi =>
    obtain ⟨he, hnames⟩ := hc a f l hi
    exact Sound.enter ht rfl ⟨by simpa using he, hnames⟩
  | layout ht hscreen => exact h.layout hscreen
  | signOutTapped ok ht hscreen => exact h.signOutTapped hscreen ok

/-! ## The converse -/

/-- No run from here traps. -/
def Safe (s : Device) : Prop := ∀ ls t, sessions.Run s ls t → t.trap = none

theorem Safe.trap {s : Device} (h : Safe s) : s.trap = none := h [] s (.nil s)

theorem Safe.step {s t : Device} {e : Event} (h : Safe s) (hs : s.step e = some t) : Safe t :=
  fun ls u hu => h (e :: ls) u (.cons hs hu)

/-- The basket can be opened on the tab bar. -/
theorem Safe.names {s : Device} (h : Safe s) (hs : s.screen = .main) :
    s.user.firstName.isSome ∧ s.user.lastName.isSome := by
  have ht := h.trap
  have hstep : s.step .layout = some s.layout := by simp [Device.step, act, ht, hs]
  have hl := (h.step hstep).trap
  unfold Device.layout at hl
  split at hl
  · assumption
  · cases hl

/-- The form can be submitted. -/
theorem Safe.auth {s : Device} (h : Safe s) (hs : s.screen = .signUp) : s.auth.isSome := by
  have ht := h.trap
  have hstep : s.step (.signUpButton (typed "Ada") (typed "Byron")) =
      some (s.signUpButton (typed "Ada") (typed "Byron")) := by
    simp [Device.step, act, ht, hs]
  have hm := (h.step hstep).trap
  have hvalid : validateFields (typed "Ada") (typed "Byron") = none := by decide
  simp only [Device.signUpButton, hvalid, make] at hm
  split at hm
  · cases hm
  · rename_i a ha
    have ha' : s.auth = some a := ha
    rw [ha']
    rfl

theorem Safe.enter {s : Device} (h : Safe s.enter) :
    s.user.crsid.isSome ∧ s.user.firstName.isSome ∧ s.user.lastName.isSome := by
  obtain ⟨uid, crsid, -, hc⟩ := enter_untrapped h.trap
  have hmain : s.enter.screen = .main := by
    have ht := h.trap
    have ht' : s.signIn.trap = none := ht
    simp [Device.enter, ht']
  have hnames := h.names hmain
  rw [enter_user] at hnames
  exact ⟨by rw [hc]; rfl, hnames⟩

theorem Safe.readReply {s : Device} {reader : Reader} {r : ReadResult} (h : Safe (s.readReply reader r)) :
    if (load s.user r).uid.isSome then
      (load s.user r).crsid.isSome ∧ (load s.user r).firstName.isSome ∧ (load s.user r).lastName.isSome
    else reader = .handler → s.auth.isSome := by
  revert h
  refine readReply_cases s reader r (fun hu h => ?_) fun hu h => ?_
  · rw [if_neg (by simp [hu])]
    rintro rfl
    exact h.auth rfl
  · rw [if_pos (Option.isSome_iff_ne_none.mpr hu)]
    exact h.enter

/-- Any other answer traps, at once or at the next tap. -/
theorem provided_of_safe {s t : Device} {e : Event} (hs : s.step e = some t) (h : Safe t) :
    Provided s e := by
  cases step_cases hs with
  | launch | signInTapped | signUpButton | layout | signOutTapped => trivial
  | authReply i r p ht hi =>
    cases r with
    | cancelled => trivial
    | success => trivial
    | error =>
      intro hgoogle
      obtain rfl : p = .google := by
        rw [hi] at hgoogle
        cases hgoogle
        rfl
      cases h.trap
  | readReply i r uid reader ht hi =>
    intro uid' reader' hi'
    obtain ⟨rfl, rfl⟩ : uid = uid' ∧ reader = reader' := by
      rw [hi] at hi'
      cases hi'
      exact ⟨rfl, rfl⟩
    have hr := Safe.readReply h
    cases r with
    | found data => exact hr
    | missing =>
      intro hu
      rw [if_neg (by simpa [load, answered] using hu)] at hr
      exact hr
    | error =>
      intro hu
      rw [if_neg (by simpa [load, answered] using hu)] at hr
      exact hr
  | writeReply i ok a f l ht hi =>
    intro a' f' l' hi'
    obtain rfl : a = a' := by
      rw [hi] at hi'
      cases hi'
      rfl
    have hw := Safe.enter h
    exact ⟨by simpa using hw.1, hw.2⟩

/-- **No unwrap of a missing value** in a run whose answers are all provided;
after any other answer some continuation traps. -/
theorem unwraps_provided {s : Device} (hr : (sessions.when Provided).Reachable s) :
    s.trap = none ∧ ∀ e t, s.step e = some t → ¬ Provided s e →
      ∃ ls u, sessions.Run t ls u ∧ u.trap.isSome := by
  constructor
  · refine Sound.trap (hr.invariant (fun s hi => ?_) ?_)
    · have hi' : Installed s := hi
      refine .of_uid_none hi'.trap (by rw [hi'.user]) ?_ fun hsign => ?_
      · rw [hi'.screen]; exact Screen.noConfusion
      · rw [hi'.screen] at hsign; cases hsign
    · rintro s e t - h ⟨hs, hc⟩
      exact h.step hs hc
  · intro e t hs hn
    by_contra hno
    refine hn (provided_of_safe hs fun ls u hu => ?_)
    by_contra hu'
    exact hno ⟨ls, u, hu, Option.isSome_iff_ne_none.mpr hu'⟩

/-- An Apple sign-in and the form, up to the basket. -/
def appleSignUp : List Event :=
  [.launch [], .signInTapped .apple, .authReply 0 (.success ⟨"u1", some "ab12@cam.ac.uk"⟩ true),
    .signUpButton (typed "Ada") (typed "Byron"), .writeReply 0 true, .layout]

theorem appleSignUp_provided : ∃ s, (sessions.when Provided).Run {} appleSignUp s ∧ s.screen = .main ∧
    s.trap = none := by
  obtain ⟨s, hs, hm⟩ : ∃ s, (sessions.when Provided).Run {} appleSignUp s ∧ s.screen = .main := by
    refine ⟨_, .cons ⟨rfl, trivial⟩ <| .cons ⟨rfl, trivial⟩ <| .cons ⟨rfl, trivial⟩ <|
      .cons ⟨rfl, trivial⟩ <| .cons ⟨rfl, fun a f l h => ?_⟩ <| .cons ⟨rfl, trivial⟩ <| .nil _, rfl⟩
    cases h
    exact ⟨rfl, rfl, rfl⟩
  exact ⟨s, hs, hm, (unwraps_provided (hs.reachable ⟨rfl, rfl, rfl, rfl, rfl⟩)).1⟩

/-- **Three unwraps of nil**: a Google sign-in that ends in an error, the form
of an account without an email, the basket of a profile without names. -/
theorem unwraps_nil : Installed {} ∧
    (∃ s, sessions.Run {} [.launch [], .signInTapped .google, .authReply 0 .error] s ∧
      s.trap = some .nilUnwrap) ∧
    (∃ s, sessions.Run {} [.launch [], .signInTapped .apple, .authReply 0 (.success ⟨"u2", none⟩ true),
      .signUpButton (typed "Ada") (typed "Byron"), .writeReply 0 true] s ∧ s.trap = some .nilUnwrap) ∧
    ∃ s, sessions.Run {} [.launch [], .signInTapped .apple, .authReply 0 (.success ⟨"u3", none⟩ false),
      .readReply 0 (.found [("uid", .string "u3"), ("crsid", .string "c3")]), .layout] s ∧
      s.trap = some .nilUnwrap :=
  ⟨⟨rfl, rfl, rfl, rfl, rfl⟩, ⟨_, LTS.run_of_exec rfl, rfl⟩, ⟨_, LTS.run_of_exec rfl, rfl⟩,
    ⟨_, LTS.run_of_exec rfl, rfl⟩⟩

end QadsCafe.Device
