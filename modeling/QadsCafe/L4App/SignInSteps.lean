import QadsCafe.L4App.SignIn
import QadsCafe.L4App.Steps

/-!
# What the sign-in events do

`step_cases` inverts `step` into one case for each event. The rest is what the
closures behind the requests change: `enter` the topics, the screen and the
trap; a read the profile; a write the stored document, which `populate`
decodes to the account's own fields (`populate_makeDocument`).
-/
namespace QadsCafe.Device

open Core

/-! ## Encoding and decoding -/

theorem populate_makeDocument (a : Account) (firstName lastName : Option String) :
    populate (makeDocument a firstName lastName) =
      { uid := some a.uid
        crsid := some ((a.email.map App.crsidOf).getD "UNKNOWN")
        email := some (a.email.getD "UNKNOWN")
        firstName, lastName } := by
  cases firstName <;> cases lastName <;> rfl

/-- The profile that `App.made` stores is the decoded document. -/
theorem made_profile (s : App) (a : Account) (firstName lastName : Option String) :
    ∃ p, (s.made a firstName lastName true).users a.uid = some p ∧
      p.previousOrders = [] ∧ populate (makeDocument a firstName lastName) =
        { uid := p.uid, crsid := p.crsid, email := p.email, firstName := p.firstName,
          lastName := p.lastName } := by
  simp only [App.made, (App.signIn_user _).2, if_true, Function.update_self, Option.some.injEq,
    exists_eq_left']
  exact ⟨trivial, populate_makeDocument a firstName lastName⟩

/-! ## Entering the tab bar -/

section Enter

variable (s : Device)

@[simp] theorem signIn_auth : s.signIn.auth = s.auth := by unfold signIn; split <;> rfl
@[simp] theorem signIn_users : s.signIn.users = s.users := by unfold signIn; split <;> rfl
@[simp] theorem signIn_user : s.signIn.user = s.user := by unfold signIn; split <;> rfl
@[simp] theorem signIn_pending : s.signIn.pending = s.pending := by unfold signIn; split <;> rfl
@[simp] theorem enter_auth : s.enter.auth = s.auth := s.signIn_auth
@[simp] theorem enter_users : s.enter.users = s.users := s.signIn_users
@[simp] theorem enter_user : s.enter.user = s.user := s.signIn_user
@[simp] theorem enter_pending : s.enter.pending = s.pending := s.signIn_pending

end Enter

theorem enter_of_crsid {s : Device} {uid crsid : String} (hu : s.user.uid = some uid)
    (hc : s.user.crsid = some crsid) (ht : s.trap = none) :
    s.enter = { s with topics := insert crsid (insert uid s.topics), screen := .main } := by
  simp [enter, signIn, hu, hc, subscribe, ht]

theorem enter_trap_of_no_crsid {s : Device} (h : s.user.crsid = none) :
    s.enter.trap = some .nilUnwrap := by
  simp only [enter, signIn, h]
  split
  · rename_i hc; cases hc
  · rfl
  · rfl

theorem enter_trap_of_no_uid {s : Device} (h : s.user.uid = none) :
    s.enter.trap = some .nilUnwrap := by
  simp only [enter, signIn, h]
  rfl

/-- The tab bar is entered with a `uid` and a `crsid` only. -/
theorem enter_untrapped {s : Device} (h : s.enter.trap = none) :
    ∃ uid crsid, s.user.uid = some uid ∧ s.user.crsid = some crsid := by
  cases hu : s.user.uid with
  | none => rw [enter_trap_of_no_uid hu] at h; cases h
  | some uid =>
    cases hc : s.user.crsid with
    | none => rw [enter_trap_of_no_crsid hc] at h; cases h
    | some crsid => exact ⟨uid, crsid, rfl, rfl⟩

theorem enter_topics_subset (s : Device) {uid : String} (hu : s.user.uid = some uid) :
    ∀ topic ∈ s.enter.topics, topic ∈ s.topics ∨ topic = uid ∨ s.user.crsid = some topic := by
  intro topic ht
  simp only [enter, signIn, hu] at ht
  split at ht
  · rename_i uid' crsid he hc
    cases he
    simp only [subscribe, Finset.mem_insert] at ht
    rcases ht with rfl | rfl | ht
    · exact .inr (.inr hc)
    · exact .inr (.inl rfl)
    · exact .inl ht
  · rename_i uid' he hc
    cases he
    simp only [subscribe, crash, Finset.mem_insert] at ht
    rcases ht with rfl | ht
    · exact .inr (.inl rfl)
    · exact .inl ht
  · rename_i he; cases he

/-- An answered read leaves nobody loaded, or goes on to the tab bar. -/
@[elab_as_elim]
theorem readReply_cases {motive : Device → Prop} (s : Device) (reader : Reader) (r : ReadResult)
    (back : (load s.user r).uid = none →
      motive { s with user := load s.user r, screen := reader.fallback })
    (enter : (load s.user r).uid ≠ none → motive { s with user := load s.user r }.enter) :
    motive (s.readReply reader r) := by
  by_cases hu : (load s.user r).uid = none
  · have hback : s.readReply reader r =
        { s with user := load s.user r, screen := reader.fallback } := by simp [readReply, hu]
    rw [hback]
    exact back hu
  · have henter : s.readReply reader r = { s with user := load s.user r }.enter := by
      simp [readReply, hu]
    rw [henter]
    exact enter hu

/-! ## One step -/

/-- What the events do. -/
inductive Fired (s : Device) : Event → Device → Prop
  | launch (landed : List Bool) : Fired s (.launch landed) (s.launch landed)
  | signInTapped (p : Provider) (ht : s.trap = none) (hs : s.screen = .signIn) :
      Fired s (.signInTapped p) (s.request (.auth p))
  | authReply (i : Nat) (r : AuthResult) (p : Provider) (ht : s.trap = none)
      (hi : s.pending[i]? = some (.auth p)) :
      Fired s (.authReply i r) ((s.answered i).authReply p r)
  | readReply (i : Nat) (r : ReadResult) (uid : String) (reader : Reader) (ht : s.trap = none)
      (hi : s.pending[i]? = some (.read uid reader)) :
      Fired s (.readReply i r) ((s.answered i).readReply reader r)
  | signUpButton (firstName lastName : FieldText) (ht : s.trap = none) (hs : s.screen = .signUp) :
      Fired s (.signUpButton firstName lastName) (s.signUpButton firstName lastName)
  | writeReply (i : Nat) (ok : Bool) (a : Account) (firstName lastName : Option String)
      (ht : s.trap = none) (hi : s.pending[i]? = some (.write a firstName lastName)) :
      Fired s (.writeReply i ok) ((s.answered i).writeReply a firstName lastName ok)
  | layout (ht : s.trap = none) (hs : s.screen = .main) : Fired s .layout s.layout
  | signOutTapped (ok : Bool) (ht : s.trap = none) (hs : s.screen = .main) :
      Fired s (.signOutTapped ok) (s.signOutTapped ok)

theorem step_cases {s t : Device} {e : Event} (h : s.step e = some t) : Fired s e t := by
  by_cases hl : ∃ landed, e = .launch landed
  · obtain ⟨landed, rfl⟩ := hl
    cases h
    exact .launch landed
  · obtain ⟨ht, ha⟩ : s.trap = none ∧ s.act e = some t := by
      cases e with
      | launch landed => exact absurd ⟨landed, rfl⟩ hl
      | _ =>
        simp only [step] at h
        split at h
        · cases h
        · rename_i ht; exact ⟨by simpa using ht, h⟩
    cases e with
    | launch landed => exact absurd ⟨landed, rfl⟩ hl
    | signInTapped p =>
      obtain ⟨hs, rfl⟩ := Option.ite_some_none_eq_some.mp ha
      exact .signInTapped p ht hs
    | authReply i r =>
      simp only [act] at ha
      split at ha
      · rename_i p hi; cases ha; exact .authReply i r p ht hi
      · cases ha
    | readReply i r =>
      simp only [act] at ha
      split at ha
      · rename_i uid reader hi; cases ha; exact .readReply i r uid reader ht hi
      · cases ha
    | signUpButton firstName lastName =>
      obtain ⟨hs, rfl⟩ := Option.ite_some_none_eq_some.mp ha
      exact .signUpButton firstName lastName ht hs
    | writeReply i ok =>
      simp only [act] at ha
      split at ha
      · rename_i a firstName lastName hi; cases ha; exact .writeReply i ok a firstName lastName ht hi
      · cases ha
    | layout =>
      obtain ⟨hs, rfl⟩ := Option.ite_some_none_eq_some.mp ha
      exact .layout ht hs
    | signOutTapped ok =>
      obtain ⟨hs, rfl⟩ := Option.ite_some_none_eq_some.mp ha
      exact .signOutTapped ok ht hs

/-! ## Stored documents -/

/-- The step applies a write. -/
def Lands (s : Device) (r : Request) : Event → Prop
  | .writeReply i ok => ok = true ∧ s.pending[i]? = some r
  | .launch landed => (r, true) ∈ s.pending.zip landed
  | _ => False

theorem applyWrite_self (users : String → Option (Dict Value)) (a : Account)
    (firstName lastName : Option String) :
    applyWrite users (.write a firstName lastName) a.uid = some (makeDocument a firstName lastName) :=
  Function.update_self _ _ _

theorem applyWrite_of_ne {uid : String} (users : String → Option (Dict Value)) {r : Request}
    (h : ∀ a f l, r = .write a f l → a.uid ≠ uid) : applyWrite users r uid = users uid := by
  cases r with
  | auth p => rfl
  | read u reader => rfl
  | write a f l => exact Function.update_of_ne (h a f l rfl).symm _ _

/-- After some writes a document is as it was, or as one of them set it. -/
theorem foldl_applyWrite (uid : String) (rs : List (Request × Bool)) :
    ∀ users : String → Option (Dict Value),
      (rs.foldl (fun users r => if r.2 then applyWrite users r.1 else users) users uid = users uid ∧
        ∀ a f l, (.write a f l, true) ∈ rs → a.uid ≠ uid) ∨
      ∃ a f l, (.write a f l, true) ∈ rs ∧ a.uid = uid ∧
        rs.foldl (fun users r => if r.2 then applyWrite users r.1 else users) users uid =
          some (makeDocument a f l) := by
  induction rs with
  | nil => intro users; exact .inl ⟨rfl, fun a f l h => by cases h⟩
  | cons r rs ih =>
    intro users
    rw [List.foldl_cons]
    rcases ih (if r.2 then applyWrite users r.1 else users) with
      ⟨hsame, hnone⟩ | ⟨a, f, l, hmem, ha, hset⟩
    · by_cases hr : ∃ a f l, r = (.write a f l, true) ∧ a.uid = uid
      · obtain ⟨a, f, l, rfl, rfl⟩ := hr
        refine .inr ⟨a, f, l, List.mem_cons_self, rfl, ?_⟩
        rw [hsame, if_pos rfl, applyWrite_self]
      · refine .inl ⟨?_, fun a f l h => ?_⟩
        · rw [hsame]
          split
          · rename_i hb
            refine applyWrite_of_ne users fun a f l he ha => hr ⟨a, f, l, ?_, ha⟩
            rw [← he, ← hb]
          · rfl
        · rcases List.mem_cons.mp h with rfl | h
          · exact fun ha => hr ⟨a, f, l, rfl, ha⟩
          · exact hnone a f l h
    · exact .inr ⟨a, f, l, List.mem_cons_of_mem _ hmem, ha, hset⟩

@[simp] theorem populateAsCurrentUser_users (s : Device) (reader : Reader) :
    (s.populateAsCurrentUser reader).users = s.users := by
  unfold populateAsCurrentUser; split <;> rfl

/-- **Only a sign-up form changes a stored document**, and the step that
applies it sets it whole. -/
theorem users_step {s t : Device} {e : Event} (h : s.step e = some t) (uid : String) :
    (t.users uid = s.users uid ∧ ∀ a f l, Lands s (.write a f l) e → a.uid ≠ uid) ∨
      ∃ a f l, Lands s (.write a f l) e ∧ a.uid = uid ∧ t.users uid = some (makeDocument a f l) := by
  have hsame : ∀ {u : Device} {e : Event}, u.users = s.users → (∀ r, ¬ Lands s r e) →
      (u.users uid = s.users uid ∧ ∀ a f l, Lands s (.write a f l) e → a.uid ≠ uid) ∨
        ∃ a f l, Lands s (.write a f l) e ∧ a.uid = uid ∧ u.users uid = some (makeDocument a f l) :=
    fun hu hn => .inl ⟨by rw [hu], fun a f l hl => absurd hl (hn _)⟩
  cases step_cases h with
  | launch landed =>
    have hland : (s.launch landed).users = s.land landed := by
      unfold launch; dsimp only; split <;> simp
    rw [hland]
    exact foldl_applyWrite uid (s.pending.zip landed) s.users
  | signInTapped p => exact hsame rfl fun _ => id
  | authReply i r p =>
    refine hsame ?_ fun _ => id
    cases r with
    | cancelled => rfl
    | error => cases p <;> rfl
    | success a isNewUser => simp only [authReply]; split <;> simp [answered]
  | readReply i r u reader =>
    refine hsame ?_ fun _ => id
    refine readReply_cases (s.answered i) reader r (fun _ => ?_) fun _ => ?_
    · rfl
    · rw [enter_users]; rfl
  | signUpButton f l =>
    refine hsame ?_ fun _ => id
    unfold signUpButton make; split
    · rfl
    · dsimp only; split <;> rfl
  | writeReply i ok a f l ht hi =>
    have husers : ((s.answered i).writeReply a f l ok).users =
        if ok then applyWrite s.users (.write a f l) else s.users := by
      simp [writeReply, answered]
    rw [husers]
    cases ok with
    | false =>
      exact .inl ⟨rfl, fun a f l hl => by cases hl.1⟩
    | true =>
      rw [if_pos rfl]
      by_cases ha : a.uid = uid
      · subst ha
        exact .inr ⟨a, f, l, ⟨rfl, hi⟩, rfl, applyWrite_self _ a f l⟩
      · have honly : ∀ a' f' l', Request.write a f l = .write a' f' l' → a'.uid ≠ uid := by
          intro a' f' l' he
          cases he
          exact ha
        refine .inl ⟨applyWrite_of_ne _ honly, fun a' f' l' hl => honly a' f' l' ?_⟩
        exact Option.some.inj (hi.symm.trans hl.2)
  | layout => refine hsame ?_ fun _ => id; unfold layout; split <;> rfl
  | signOutTapped ok => refine hsame ?_ fun _ => id; unfold signOutTapped; split <;> rfl

end QadsCafe.Device
