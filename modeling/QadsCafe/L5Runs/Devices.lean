import QadsCafe.Core.Tokens
import QadsCafe.L4App.Items
import QadsCafe.L5Runs.CarryOver
import QadsCafe.L5Runs.Fleet

/-!
# Any devices of any accounts

`anyFleet` is the fleet without its assumptions: the devices may belong to
different accounts, sign in and out, and their requests may fail or be
answered in any order. The IDs of the order documents are `Core.Tokens`: a
device learns one from its own creates only.

`only_writer`: an order document that one device has been about to write is
written by no other, in the rest of every run.
-/
namespace QadsCafe

open Core

namespace App

/-- The document is that of an order or of a write on its way. -/
def Knows (s : App) (d : Nat) : Prop :=
  (∃ c ∈ s.pending, ∃ w, c.write? = some w ∧ w.doc = d) ∨ ∃ b, (s.order b).orderID = some d

theorem Knows.congr {s t : App} {d : Nat} (h : Knows t d) (hp : t.pending ⊆ s.pending)
    (hid : ∀ b, (t.order b).orderID = (s.order b).orderID) : Knows s d := by
  rcases h with ⟨c, hc, hw⟩ | ⟨b, hb⟩
  · exact .inl ⟨c, hp hc, hw⟩
  · exact .inr ⟨b, by rw [← hid]; exact hb⟩

theorem Docs.known {s : App} (h : Docs s) {d : Nat} (hk : Knows s d) : d < s.nextID := by
  rcases hk with ⟨c, hc, w, hw, rfl⟩ | ⟨b, hb⟩
  · exact h.write_lt hc hw
  · exact (h.past hb).1

theorem Submit.known {s t : App} {call : Nat} {now : Basket → Date} {b : Basket}
    (h : Submit s call now b t) {d : Nat} (hk : Knows t d) : Knows s d ∨ s.nextID ≤ d := by
  cases h with
  | skip => exact .inl hk
  | trap => exact .inl hk
  | create =>
    rcases hk with ⟨c, hc, w, hw, rfl⟩ | ⟨b', hb'⟩
    · rcases (mem_issue _).mp hc with hc | rfl
      · exact .inl (.inl ⟨c, hc, w, hw, rfl⟩)
      · cases hw
        exact .inr (Nat.le_refl _)
    · rw [orderID_saved] at hb'
      exact .inl (.inr ⟨b', hb'⟩)
  | update _ _ _ doc hid =>
    left
    rcases hk with ⟨c, hc, w, hw, rfl⟩ | ⟨b', hb'⟩
    · rcases (mem_issue _).mp hc with hc | rfl
      · exact .inl ⟨c, hc, w, hw, rfl⟩
      · cases hw
        exact .inr ⟨b, hid⟩
    · rw [orderID_updated] at hb'
      exact .inr ⟨b', hb'⟩

theorem known_reply {s : App} {c : Callback} {l₁ l₂ : List Callback} (hp : s.pending = l₁ ++ c :: l₂)
    {ok : Bool} {d : Nat} (hk : Knows (((s.settle c ok).answered c ok (l₁ ++ l₂)).follow c) d) :
    Knows s d := by
  rcases hk with ⟨k, hk, w, hw, rfl⟩ | ⟨b, hb⟩
  · rcases mem_pending_reply hk with hk | ⟨call, b, uid, ids, rfl⟩
    · exact .inl ⟨k, rest_subset hp hk, w, hw, rfl⟩
    · cases hw
  · rw [order_follow] at hb
    split at hb
    · cases hb
    · have hb' : ((s.settle c ok).order b).orderID = some d := hb
      cases ok with
      | false => cases c <;> exact .inr ⟨b, hb'⟩
      | true =>
        cases c with
        | create w =>
          rw [settle, created, order_setOrder] at hb'
          split at hb'
          · cases hb'
            exact .inl ⟨_, mem_of_split hp, w, rfl, rfl⟩
          · exact .inr ⟨b, hb'⟩
        | _ => exact .inr ⟨b, hb'⟩

/-- A device learns of a document only as it makes it. -/
theorem known_step {s t : App} {e : Ev} (hs : s.step e = some t) {d : Nat} (hk : Knows t d) :
    Knows s d ∨ s.nextID ≤ d := by
  have hf := (step_cases hs).2.2
  cases hf with
  | addItem b x => exact .inl (hk.congr (List.Subset.refl _) fun c => orderID_addItem s b c x)
  | badIndex => exact .inl hk
  | removeItemAt index b i x =>
    exact .inl (hk.congr (List.Subset.refl _) fun c => orderID_removed s b c i x)
  | textFieldDidEndEditing text =>
    exact .inl (hk.congr (List.Subset.refl _) fun c => orderID_textFieldDidEndEditing s text c)
  | checkout now =>
    rcases (bar_turn s now).known hk with hk | hnew
    · exact (cafe_turn s now).known hk
    · exact .inr (Nat.le_trans (cafe_turn s now).turn.nextID hnew)
  | reply i ok c l₁ l₂ hp => exact .inl (known_reply hp hk)
  | session _ _ f =>
    exact .inl (hk.congr (by rw [f.pending]; exact List.Subset.refl _) fun b => by rw [f.order])

/-- A step changes no document that is not known. -/
theorem orders_known {s t : App} {e : Ev} (hs : s.step e = some t) {d : Nat} (hk : ¬ Knows s d) :
    t.orders d = s.orders d := by
  rcases orders_step hs d with hsame | ⟨w, hw, rfl, -⟩
  · exact hsame
  · rcases hw with hw | hw
    · exact absurd (.inl ⟨_, hw, w, rfl, rfl⟩) hk
    · exact absurd (.inl ⟨_, hw, w, rfl, rfl⟩) hk

/-- What a step of another app on the same documents leaves true. -/
theorem Docs.step_other {u s t : App} {e : Ev} (h : Docs u) (h' : Docs s) (hs : s.step e = some t)
    (ho : u.orders = s.orders) (hn : u.nextID = s.nextID) (hapart : ∀ d, Knows u d → ¬ Knows s d) :
    Docs { u with orders := t.orders, users := t.users, nextID := t.nextID } := by
  have hnext : u.nextID ≤ t.nextID := by rw [hn]; exact (fresher_step hs).1
  refine h.other (h'.step hs).stored hnext (fun d v hv => ?_) fun w hw => ?_
  · rw [ho] at hv
    rcases orders_step hs d with hsame | ⟨w, hw, rfl, hnew⟩
    · exact ⟨v, hsame.trans hv, rfl⟩
    · refine ⟨w, hnew, ?_⟩
      rcases hw with hw | hw
      · rw [(h'.create w hw).1] at hv
        cases hv
      · obtain ⟨v', hv', hb⟩ := h'.update w hw
        obtain rfl : v' = v := Option.some.inj (hv'.symm.trans hv)
        exact hb.symm
  · rw [orders_known hs (hapart _ (.inl ⟨_, hw, w, rfl, rfl⟩)), ← ho]
    exact (h.create w hw).1

end App

namespace Fleet

variable {ι : Type} [DecidableEq ι] {f g k : Fleet ι}

def anyStep (f : Fleet ι) (l : ι × Ev) : Option (Fleet ι) :=
  ((f.view l.1).step l.2).map (f.save l.1)

/-- Every device has just been launched. -/
def Started (f : Fleet ι) : Prop := ∀ i, App.Launch (f.view i)

end Fleet

def anyFleet (ι : Type) [DecidableEq ι] : LTS (Fleet ι) (ι × Ev) :=
  LTS.ofFn Fleet.Started Fleet.anyStep

namespace Fleet

variable {ι : Type} [DecidableEq ι] {f g k : Fleet ι}

def knows (f : Fleet ι) (i : ι) (d : Nat) : Prop := App.Knows (f.session i) d

/-- The documents of the devices are in order, and no two devices know the same. -/
structure Shared (f : Fleet ι) : Prop where
  docs : ∀ i, App.Docs (f.view i)
  apart : Tokens.Apart knows f

theorem anyStep_cases {l : ι × Ev} (h : f.anyStep l = some g) :
    ∃ t, (f.view l.1).step l.2 = some t ∧ g = f.save l.1 t := by
  obtain ⟨t, ht, rfl⟩ := Option.map_eq_some_iff.mp h
  exact ⟨t, ht, rfl⟩

theorem tokens : Tokens (anyFleet ι) Shared knows Fleet.nextID where
  bound f i d hI hk := (hI.docs i).known hk
  mono f l g hI hs := by
    obtain ⟨t, ht, rfl⟩ := anyStep_cases hs
    exact (App.fresher_step ht).1
  own f i e g d hI hs hk := by
    obtain ⟨t, ht, rfl⟩ := anyStep_cases hs
    have hself : (f.save i t).session i = t := Function.update_self _ _ _
    unfold knows at hk
    rw [hself] at hk
    exact App.known_step ht hk
  other f i e g j d hs hj hk := by
    obtain ⟨t, ht, rfl⟩ := anyStep_cases hs
    unfold knows at hk
    rw [session_save_of_ne f t hj] at hk
    exact hk

omit [DecidableEq ι] in
theorem Shared.started (h : Started f) : Shared f := by
  refine ⟨fun i => .launch (h i), fun i j d _ hk => ?_⟩
  rcases hk with ⟨c, hc, -⟩ | ⟨b, hb⟩
  · have hp : (f.session i).pending = [] := (h i).pending
    rw [hp] at hc
    cases hc
  · have hord : (f.session i).order b = {} := (h i).order b
    rw [hord] at hb
    cases hb

theorem Shared.step (h : Shared f) {l : ι × Ev} (hs : f.anyStep l = some g) : Shared g := by
  refine ⟨fun j => ?_, tokens.apart h hs h.apart⟩
  obtain ⟨i, e⟩ := l
  obtain ⟨t, ht, rfl⟩ := anyStep_cases hs
  by_cases hj : j = i
  · subst hj
    rw [view_save_self]
    exact (h.docs j).step ht
  · rw [view_save_of_ne f t hj]
    exact (h.docs j).step_other (h.docs i) ht rfl rfl fun d => h.apart j i d hj

theorem shared_reachable (hr : (anyFleet ι).Reachable f) : Shared f :=
  hr.invariant (fun _ h => .started h) fun _ _ _ _ h hs => h.step hs

/-- **One writer.** An order document that a device has been about to write is
written by no other device, then or later. -/
theorem only_writer {ls : List (ι × Ev)} {i j : ι} {e : Ev} {d : Nat} (hr : (anyFleet ι).Reachable f)
    (hk : App.Knows (f.session i) d) (hrun : (anyFleet ι).Run f ls g) (hj : j ≠ i)
    (hs : g.anyStep (j, e) = some k) : k.orders d = g.orders d := by
  have h := shared_reachable hr
  have hg : Tokens.Only knows Fleet.nextID i d g :=
    (tokens.only_run (fun _ _ _ hI hs => hI.step hs) hrun h (tokens.only h h.apart hk)).2
  obtain ⟨t, ht, rfl⟩ := anyStep_cases hs
  exact App.orders_known ht (hg.2 j hj)

/-- A device on which an account signs up and orders a tea. -/
def buysTea (i : Bool) (uid : String) : List (Bool × Ev) :=
  [(i, .authSignIn ⟨uid, some "ab12@cam.ac.uk"⟩), (i, .make none none), (i, .signInReply 0 true),
    (i, .addItem .cafe (plainItem "tea" "Cafe")), (i, .checkout fun _ => 0)]

/-- Two devices, just launched. -/
def twoDevices : Fleet Bool := ⟨fun _ => {}, fun _ => none, fun _ => none, 0⟩

theorem tea_written_once : ∃ f g k, (anyFleet Bool).Run twoDevices (buysTea false "u1") f ∧
    (anyFleet Bool).Run f (buysTea true "u2" ++ [(false, .reply 0 true)]) g ∧
    g.anyStep (true, .reply 0 true) = some k ∧ (g.orders 0).isSome ∧ (k.orders 1).isSome ∧
    k.orders 0 = g.orders 0 := by
  have hstart : Started twoDevices := fun _ => App.launch_default
  obtain ⟨f, hr, hk, g, hrun, k, hs, h0, h1⟩ : ∃ f,
      (anyFleet Bool).Run twoDevices (buysTea false "u1") f ∧ App.Knows (f.session false) 0 ∧
      ∃ g, (anyFleet Bool).Run f (buysTea true "u2" ++ [(false, .reply 0 true)]) g ∧
      ∃ k, g.anyStep (true, .reply 0 true) = some k ∧ (g.orders 0).isSome ∧ (k.orders 1).isSome :=
    ⟨_, LTS.run_of_exec rfl, .inl ⟨_, .head _, _, rfl, rfl⟩, _, LTS.run_of_exec rfl, _, rfl, rfl, rfl⟩
  exact ⟨f, g, k, hr, hrun, hs, h0, h1, only_writer (hr.reachable hstart) hk hrun (by decide) hs⟩

end Fleet

end QadsCafe
