import QadsCafe.L4App.Baskets
import QadsCafe.L4App.BasketScreen
import QadsCafe.L4App.Sync

/-!
# Where a run crashes

The app indexes rows (`removeItemAt`), forms ranges (`1...quantity`) and
unwraps the `uid` and the `crsid` of the account in several places. Where the
stepper keeps the quantities at 1 or more, accounts come with an email and a
whole profile and no option has a name that Firestore refuses, two of these
are left: a deletion of a row that is not there any more, and a create that is
answered after a sign-out, once its order has an ID. `crash_sources` says so
of every run: it is alive iff it took no such step.

The screens have traps of their own, which are not about `App`: the sign-in
handlers (`Device`), the rows of the basket screen (`User.cellForItemAt`), the
menus.
-/
namespace QadsCafe

open Core

namespace App

/-- Whatever has a `uid` has a `crsid`, and the accounts have an email to make
one from. -/
structure Complete (s : App) : Prop where
  user : s.user.uid.isSome = true → s.user.crsid.isSome = true
  users : ∀ uid p, s.users uid = some p → p.uid.isSome = true → p.crsid.isSome = true
  auth : ∀ a, s.auth = some a → a.email.isSome = true
  forms : ∀ a f l, .form a f l ∈ s.signIns → a.email.isSome = true

theorem Complete.taken {s : App} (h : Complete s) (i : Nat) : Complete (s.taken i) :=
  ⟨h.user, h.users, h.auth, fun a f l hr => h.forms a f l (List.mem_of_mem_eraseIdx hr)⟩

theorem Complete.load {s : App} (h : Complete s) (uid : String) (ok : Bool) :
    Complete (s.load uid ok) := by
  rcases load_cases s uid ok with ⟨p, hp, -, hload⟩ | hload
  · rw [hload]
    exact ⟨h.users uid p hp, h.users, h.auth, h.forms⟩
  · rw [hload]
    exact h

theorem Complete.congr {s t : App} (h : Complete s) (ha : t.account = s.account)
    (hr : t.signIns = s.signIns)
    (hu : ∀ uid p, t.users uid = some p → p.uid.isSome = true → p.crsid.isSome = true) : Complete t := by
  have hauth : t.auth = s.auth := congrArg (fun a => a.1) ha
  have huid : t.user.uid = s.user.uid := congrArg (fun a => a.2.1) ha
  have hcrsid : t.user.crsid = s.user.crsid := congrArg (fun a => a.2.2.1) ha
  exact ⟨by rw [huid, hcrsid]; exact h.user, hu, by rw [hauth]; exact h.auth, by rw [hr]; exact h.forms⟩

/-- A history write keeps the `uid` and the `crsid` of its profile. -/
theorem Complete.settle {s : App} (h : Complete s) (c : Callback) (ok : Bool) (uid : String)
    (p : Profile) (hp : (s.settle c ok).users uid = some p) (hu : p.uid.isSome = true) :
    p.crsid.isSome = true := by
  cases ok with
  | false =>
    have hsame : (s.settle c false).users = s.users := by cases c <;> rfl
    rw [hsame] at hp
    exact h.users uid p hp hu
  | true =>
    cases c with
    | create w => exact h.users uid p hp hu
    | update w => exact h.users uid p hp hu
    | history call b uid' ids =>
      rcases profile_of_history hp with hp | ⟨-, q, hq, rfl⟩
      · exact h.users uid p hp hu
      · exact h.users uid q hq hu

theorem Complete.reply {s t : App} {i : Nat} {ok : Bool} (h : Complete s)
    (hs : s.step (.reply i ok) = some t) : Complete t := by
  have hacc := account_reply hs
  have hreads := signIns_kept hs rfl
  obtain ⟨c, l₁, l₂, -, -, rfl⟩ := reply_cases hs
  have hfollow : (((s.settle c ok).answered c ok (l₁ ++ l₂)).follow c).users = (s.settle c ok).users := by
    cases c with
    | create w =>
      refine follow_create _ w fun v ha => ?_
      cases ha <;> rfl
    | update w => rfl
    | history call b uid ids => rfl
  exact h.congr hacc hreads (by rw [hfollow]; exact h.settle c ok)

theorem signIn_auth (s : App) : s.signIn.auth = s.auth := by
  unfold signIn
  split <;> rfl

theorem Complete.signIn {s : App} (h : Complete s) : Complete s.signIn := by
  obtain ⟨huser, husers⟩ := signIn_user s
  refine ⟨?_, ?_, ?_, ?_⟩
  · rw [huser]; exact h.user
  · rw [husers]; exact h.users
  · rw [signIn_auth]; exact h.auth
  · rw [signIns_signIn]; exact h.forms

/-- The form of an account with an email gives a `crsid`. -/
theorem Complete.made {s : App} (h : Complete s) {a : Account} (ha : a.email.isSome = true)
    (firstName lastName : Option String) (ok : Bool) : Complete (s.made a firstName lastName ok) := by
  refine Complete.signIn ⟨fun _ => by simpa using ha, fun uid p hp hu => ?_, h.auth, h.forms⟩
  cases ok with
  | false => exact h.users uid p hp hu
  | true =>
    simp only [if_true, Function.update_apply] at hp
    split at hp
    · cases hp
      rfl
    · exact h.users uid p hp hu

theorem Complete.session {s : App} (h : Complete s) {e : Ev} (he : e.isSession = true)
    (hen : s.enabled e = true) (ha : ∀ a, e = .authSignIn a → a.email.isSome = true) :
    Complete (s.fire e) := by
  cases e with
  | signOut ok =>
    have hu : s.user.uid.isSome = true := hen
    simp only [fire, signOut, if_pos (And.intro hu (h.user hu))]
    refine ⟨fun hn => Bool.noConfusion hn, h.users, fun a hauth => ?_, h.forms⟩
    cases ok with
    | true => cases hauth
    | false => exact h.auth a hauth
  | authSignIn a =>
    refine ⟨h.user, h.users, fun a' hauth => ?_, h.forms⟩
    cases hauth
    exact ha a rfl
  | populateAsCurrentUser =>
    simp only [fire, populateAsCurrentUser]
    split
    · exact h
    · refine ⟨h.user, h.users, h.auth, fun a f l hr => ?_⟩
      rcases List.mem_append.mp hr with hr | hr
      · exact h.forms a f l hr
      · cases List.mem_singleton.mp hr
  | make firstName lastName =>
    simp only [fire, make]
    split
    · exact h
    · rename_i a hauth
      refine ⟨h.user, h.users, h.auth, fun a' f l hr => ?_⟩
      rcases List.mem_append.mp hr with hr | hr
      · exact h.forms a' f l hr
      · cases List.mem_singleton.mp hr
        exact h.auth a hauth
  | signInReply i ok =>
    simp only [fire, signInReply]
    split
    · exact h
    · rename_i uid hr
      have hload := (h.taken i).load uid ok
      unfold populated
      split
      · exact hload
      · exact hload.signIn
    · rename_i a firstName lastName hr
      exact (h.taken i).made (h.forms a _ _ (List.mem_of_getElem? hr)) firstName lastName ok
  | _ => cases he

theorem Complete.step {s t : App} {e : Ev} (h : Complete s) (hs : s.step e = some t)
    (ha : ∀ a, e = .authSignIn a → a.email.isSome = true) : Complete t := by
  obtain ⟨-, hen, hf⟩ := step_cases hs
  cases hf with
  | addItem b x => exact h.congr (account_step hs rfl) rfl h.users
  | badIndex => exact h.congr (account_step hs rfl) rfl h.users
  | removeItemAt index b i x => exact h.congr (account_step hs rfl) rfl h.users
  | textFieldDidEndEditing text => exact h.congr (account_step hs rfl) rfl h.users
  | checkout now =>
    have husers := (bar_turn s now).lists.1.trans (cafe_turn s now).lists.1
    exact h.congr (account_step hs rfl) (signIns_kept hs rfl) (by rw [husers]; exact h.users)
  | reply => exact h.reply hs
  | session _ he => exact h.session he hen ha

end App

end QadsCafe
