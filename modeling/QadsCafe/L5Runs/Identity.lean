import Mathlib.Data.List.TakeWhile
import QadsCafe.L4App.SignInSteps

/-!
# What an account is filed under

`make` files an account under the part of its email before the first "@", and
under "UNKNOWN" without an email. Its order documents and its topic take the
same string, so two accounts are kept apart exactly when these parts differ.
-/
namespace QadsCafe.Device

open Core

/-- `l` is the email up to its first "@"; "UNKNOWN" stands for no email. -/
def LocalPart (a : Account) (l : String) : Prop :=
  match a.email with
  | none => l = "UNKNOWN"
  | some email => '@' ∉ l.toList ∧ (email = l ∨ ∃ domain, email = l ++ "@" ++ domain)

theorem crsidOf_of_no_at {l : String} (h : '@' ∉ l.toList) : App.crsidOf l = l := by
  have hall : l.toList.takeWhile (fun c => c ≠ '@') = l.toList := by
    rw [List.takeWhile_eq_self_iff]
    intro c hc
    rw [decide_eq_true_eq]
    rintro rfl
    exact h hc
  rw [App.crsidOf, hall, String.ofList_toList]

theorem crsidOf_append {l domain : String} (h : '@' ∉ l.toList) :
    App.crsidOf (l ++ "@" ++ domain) = l := by
  have hcut : (l ++ "@" ++ domain).toList.takeWhile (fun c => c ≠ '@') = l.toList := by
    rw [String.toList_append, String.toList_append, List.append_assoc, List.takeWhile_append_of_pos]
    · simp
    · intro c hc
      rw [decide_eq_true_eq]
      rintro rfl
      exact h hc
  rw [App.crsidOf, hcut, String.ofList_toList]

theorem LocalPart.crsid {a : Account} {l email : String} (h : LocalPart a l)
    (he : a.email = some email) : App.crsidOf email = l := by
  unfold LocalPart at h
  rw [he] at h
  rcases h.2 with rfl | ⟨domain, rfl⟩
  · exact crsidOf_of_no_at h.1
  · exact crsidOf_append h.1

/-- Every account has a local part. -/
theorem exists_localPart (a : Account) : ∃ l, LocalPart a l := by
  unfold LocalPart
  cases a.email with
  | none => exact ⟨_, rfl⟩
  | some email =>
    dsimp only
    refine ⟨App.crsidOf email, fun hat => ?_, ?_⟩
    · have := List.mem_takeWhile_imp (String.toList_ofList ▸ hat)
      simp at this
    · have hsplit := List.takeWhile_append_dropWhile (p := fun c => c ≠ '@') (l := email.toList)
      cases hrest : email.toList.dropWhile (fun c => c ≠ '@') with
      | nil =>
        left
        rw [hrest, List.append_nil] at hsplit
        rw [App.crsidOf, hsplit, String.ofList_toList]
      | cons c rest =>
        right
        have hc : c = '@' := by
          have := List.head?_dropWhile_not (fun c => decide (c ≠ '@')) email.toList
          rw [hrest] at this
          simpa using this
        have hjoin : (App.crsidOf email ++ "@" ++ String.ofList rest).toList = email.toList := by
          simp only [String.toList_append, App.crsidOf, String.toList_ofList, List.append_assoc]
          rw [hrest, hc] at hsplit
          exact hsplit
        exact ⟨String.ofList rest, (String.toList_inj.mp hjoin).symm⟩

/-- The document `make` stores. -/
theorem LocalPart.stored {a : Account} {l : String} (h : LocalPart a l) (f g : Option String) :
    (populate (makeDocument a f g)).crsid = some l := by
  rw [populate_makeDocument]
  cases he : a.email with
  | none =>
    unfold LocalPart at h
    rw [he] at h
    rw [h]
    rfl
  | some email => simp [h.crsid he]

/-- The `crsid` that `make` keeps. -/
theorem LocalPart.kept {a : Account} {l : String} (h : LocalPart a l) (s : Device)
    (f g : Option String) (ok : Bool) :
    (s.writeReply a f g ok).user.crsid = if a.email.isSome then some l else none := by
  rw [writeReply, enter_user]
  cases he : a.email with
  | none => rfl
  | some email => simp [h.crsid he]

/-- The topics of the profile. -/
theorem LocalPart.topics {a : Account} {l : String} (h : LocalPart a l) {s : Device}
    {f g : Option String} (hu : s.user = populate (makeDocument a f g)) :
    s.signIn.topics = insert l (insert a.uid s.topics) := by
  have huid : s.user.uid = some a.uid := by rw [hu, populate_makeDocument]
  have hc : s.user.crsid = some l := by rw [hu, h.stored f g]
  simp [signIn, huid, hc, subscribe]

/-- The order document of a profile that was read. -/
theorem LocalPart.orderUser {a : Account} {l : String} (h : LocalPart a l) {f g : Option String}
    {o o' : Order} {doc : OrderDoc}
    (hd : o.makeDataDictionary (populate (makeDocument a f g)).crsid = some (doc, o')) :
    doc.user = some l := by
  rw [h.stored f g] at hd
  by_cases henc : Encodable o.items
  · rw [makeDataDictionary_eq _ _ henc] at hd
    cases hd
    rfl
  · rw [makeDataDictionary_none henc] at hd
    cases hd

/-- **Filed under the local part.** Two accounts share the `crsid` that `make`
stores, the `user` of their order documents and their `crsid` topic iff the
parts of their emails before the first "@" are equal. The one that `make` keeps
is the same, or none without an email. -/
theorem filed_under_local_part {a b : Account} {l m : String} (ha : LocalPart a l)
    (hb : LocalPart b m) (f g f' g' : Option String) :
    ((populate (makeDocument a f g)).crsid = (populate (makeDocument b f' g')).crsid ↔ l = m) ∧
    (∀ (s t : Device) (ok ok' : Bool),
      ((s.writeReply a f g ok).user.crsid = (t.writeReply b f' g' ok').user.crsid ↔
        a.email.isSome = b.email.isSome ∧ (a.email.isSome → l = m))) ∧
    (∀ (o o' p p' : Order) (doc doc' : OrderDoc),
      o.makeDataDictionary (populate (makeDocument a f g)).crsid = some (doc, o') →
      p.makeDataDictionary (populate (makeDocument b f' g')).crsid = some (doc', p') →
      (doc.user = doc'.user ↔ l = m)) ∧
    ∀ s t : Device, s.user = populate (makeDocument a f g) → t.user = populate (makeDocument b f' g') →
      s.topics = ∅ → t.topics = ∅ → s.signIn.topics = {l, a.uid} ∧ t.signIn.topics = {m, b.uid} := by
  refine ⟨?_, fun s t ok ok' => ?_, fun o o' p p' doc doc' hd hd' => ?_, fun s t hs ht hs₀ ht₀ => ?_⟩
  · rw [ha.stored, hb.stored, Option.some.injEq]
  · rw [ha.kept, hb.kept]
    cases a.email with
    | none => cases b.email <;> simp
    | some email => cases b.email <;> simp
  · rw [ha.orderUser hd, hb.orderUser hd', Option.some.injEq]
  · rw [ha.topics hs, hb.topics ht, hs₀, ht₀]
    exact ⟨rfl, rfl⟩

/-! ## Three accounts -/

def camAccount : Account := ⟨"u1", some "ab12@cam.ac.uk"⟩

/-- The same local part at another domain. -/
def mailAccount : Account := ⟨"u2", some "ab12@example.com"⟩

def otherAccount : Account := ⟨"u3", some "cd34@cam.ac.uk"⟩

theorem camAccount_localPart : LocalPart camAccount "ab12" := ⟨by decide, .inr ⟨"cam.ac.uk", rfl⟩⟩

theorem otherAccount_localPart : LocalPart otherAccount "cd34" := ⟨by decide, .inr ⟨"cam.ac.uk", rfl⟩⟩

theorem otherAccount_apart : (populate (makeDocument camAccount none none)).crsid ≠
    (populate (makeDocument otherAccount none none)).crsid :=
  (filed_under_local_part camAccount_localPart otherAccount_localPart none none none none).1.not.mpr
    (by decide)

def signsUp (a : Account) : List Event :=
  [.launch [], .signInTapped .google, .authReply 0 (.success a true), .signUpButton (typed "Ada") (typed "Byron"),
    .writeReply 0 true]

/-- **Two accounts under one crsid**: signed up on two devices, they have the
same `crsid`, the same `user` in their order documents and one topic in common.
Two accounts without an email are stored under "UNKNOWN" both. -/
theorem accounts_share_crsid : camAccount.uid ≠ mailAccount.uid ∧
    (∃ s t, sessions.Run {} (signsUp camAccount) s ∧ sessions.Run {} (signsUp mailAccount) t ∧
      s.user.crsid = t.user.crsid ∧ "ab12" ∈ s.topics ∧ "ab12" ∈ t.topics ∧
      ∃ o o' doc doc', Order.makeDataDictionary s.user.crsid {} = some (doc, o) ∧
        Order.makeDataDictionary t.user.crsid {} = some (doc', o') ∧ doc.user = doc'.user) ∧
    (populate (makeDocument ⟨"u4", none⟩ none none)).crsid =
      (populate (makeDocument ⟨"u5", none⟩ none none)).crsid :=
  ⟨by decide, ⟨_, _, LTS.run_of_exec rfl, LTS.run_of_exec rfl, rfl, by decide, by decide,
    _, _, _, _, rfl, rfl, rfl⟩, rfl⟩

end QadsCafe.Device
