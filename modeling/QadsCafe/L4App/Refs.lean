import QadsCafe.L4App.Invariant

/-!
# Object identities through a run

`App.refs b` are the identities of the items in basket `b`, `Write.refs` those
of the items a document was built from; one lemma per operation says how they
change. `Refs` is the invariant that every identity in use is below `nextRef`,
so an added item is in no earlier write. An item is `Alive` from the moment it
is added until the user deletes it.
-/
namespace QadsCafe

open Core

def itemRefs (l : List OrderItem) : List Nat := l.map (·.tag.ref)

def Write.refs (w : Write) : List Nat := itemRefs w.built

namespace App

def refs (s : App) (b : Basket) : List Nat := itemRefs (s.order b).items

theorem refs_setOrder (s : App) (b c : Basket) (o : Order) :
    (s.setOrder b o).refs c = if c = b then itemRefs o.items else s.refs c := by
  unfold refs
  rw [order_setOrder]
  split <;> rfl

theorem refs_addItem (s : App) (b c : Basket) (x : OrderItem) :
    (s.addItem b x).refs c = if c = b then s.refs c ++ [s.nextRef] else s.refs c := by
  cases b <;> cases c <;> simp [addItem, observe, setOrder, refs, order, User.setOrder, User.order,
    Order.addItem, itemRefs]

theorem refs_removed (s : App) (b c : Basket) (i : Nat) (x : OrderItem) :
    (s.removed b i x).refs c = if c = b then (s.refs c).eraseIdx i else s.refs c := by
  cases b <;> cases c <;> simp [removed, observe, setOrder, refs, order, User.setOrder, User.order,
    itemRefs, List.eraseIdx_map]

theorem refs_textFieldDidEndEditing (s : App) (text : Option String) (c : Basket) :
    (s.textFieldDidEndEditing text).refs c = s.refs c := by cases c <;> rfl

theorem refs_saved (s : App) (call : Nat) (now : Date) (b c : Basket) :
    (s.saved call now b).refs c = s.refs c := by
  cases b <;> cases c <;> rfl

theorem refs_updated (s : App) (call : Nat) (b c : Basket) (doc : Nat) :
    (s.updated call b doc).refs c = s.refs c := by
  cases b <;> cases c <;> rfl

theorem refs_created (s : App) (w : Write) (c : Basket) : (s.created w).refs c = s.refs c := by
  rw [created, refs_setOrder]
  split
  · rename_i h; subst h; rfl
  · rfl

theorem refs_append (s : App) (doc : Nat) (c : Basket) : (s.append doc).refs c = s.refs c := by
  cases c <;> rfl

theorem refs_resetAndComplete (s : App) (call : Nat) (b c : Basket) :
    (s.resetAndComplete call b).refs c = if c = b then [] else s.refs c := by
  cases b <;> cases c <;> rfl

/-! ## Identities are handed out in order -/

/-- The log says that the item was added, or deleted. -/
def Logged (s : App) (r : Nat) : Prop := .added r ∈ s.log ∨ .removed r ∈ s.log

/-- Every identity in use is below the next one. -/
structure Refs (s : App) : Prop where
  basket : ∀ b, ∀ r ∈ s.refs b, r < s.nextRef
  pending : ∀ c ∈ s.pending, ∀ w, c.write? = some w → ∀ r ∈ w.refs, r < s.nextRef
  stored : ∀ d w, s.orders d = some w → ∀ r ∈ w.refs, r < s.nextRef
  logged : ∀ r, Logged s r → r < s.nextRef

theorem Refs.congr {s t : App} (h : Refs s) (hr : ∀ b, t.refs b ⊆ s.refs b)
    (hp : t.pending ⊆ s.pending) (ho : t.orders = s.orders) (hn : t.nextRef = s.nextRef)
    (hl : ∀ r, Logged t r → Logged s r) : Refs t := by
  refine ⟨fun b r hb => ?_, fun c hc => ?_, fun d => ?_, fun r hm => ?_⟩
  · rw [hn]; exact h.basket b r (hr b hb)
  · rw [hn]; exact h.pending c (hp hc)
  · rw [hn, ho]; exact h.stored d
  · rw [hn]; exact h.logged r (hl r hm)

theorem Refs.issue {s : App} (h : Refs s) {c : Callback}
    (hc : ∀ w, c.write? = some w → ∀ r ∈ w.refs, r < s.nextRef) : Refs (s.issue c) := by
  refine ⟨h.basket, ?_, h.stored, ?_⟩
  · intro k hk
    rcases (mem_issue s).mp hk with hk | rfl
    · exact h.pending k hk
    · exact hc
  · intro r hr
    exact h.logged r (by simpa [Logged] using hr)

theorem Refs.store {s : App} (h : Refs s) {w : Write} (hw : ∀ r ∈ w.refs, r < s.nextRef) :
    Refs (s.store w) := by
  refine ⟨h.basket, h.pending, ?_, h.logged⟩
  intro d v hd
  rcases (orders_store s).mp hd with ⟨-, rfl⟩ | ⟨-, hd⟩
  · exact hw
  · exact h.stored d v hd

theorem Refs.created {s : App} (h : Refs s) {w : Write} (hw : ∀ r ∈ w.refs, r < s.nextRef) :
    Refs (s.created w) := by
  have hs : Refs (s.store w) := h.store hw
  refine hs.congr (fun c => ?_) (List.Subset.refl _) rfl rfl fun _ hr => hr
  rw [refs_created]
  exact List.Subset.refl _

theorem Refs.submit {s t : App} {call : Nat} {now : Basket → Date} {b : Basket} (h : Refs s)
    (hs : Submit s call now b t) : Refs t := by
  cases hs with
  | skip => exact h
  | trap => exact ⟨h.basket, h.pending, h.stored, h.logged⟩
  | create =>
    refine Refs.issue (s := { s with nextID := s.nextID + 1 }.setOrder b _) ?_ ?_
    · exact h.congr (fun c => by rw [← refs_saved s call (now b) b c]; exact List.Subset.refl _)
        (List.Subset.refl _) rfl rfl fun _ hr => hr
    · intro w hw; cases hw; exact h.basket b
  | update _ _ _ doc =>
    refine Refs.issue (s := s.setOrder b _) ?_ ?_
    · exact h.congr (fun c => by rw [← refs_updated s call b c doc]; exact List.Subset.refl _)
        (List.Subset.refl _) rfl rfl fun _ hr => hr
    · intro w hw; cases hw; exact h.basket b

theorem Refs.appends {s t : App} {call : Nat} {b : Basket} (h : Refs s) (ha : Appends s call b t) :
    Refs t := by
  have happend : ∀ doc, Refs (s.append doc) := fun doc =>
    h.congr (fun c => by rw [refs_append]; exact List.Subset.refl _) (List.Subset.refl _) rfl rfl
      fun r hr => by simpa [Logged] using hr
  cases ha with
  | skip => exact h
  | trap doc => exact ⟨(happend doc).basket, h.pending, h.stored, (happend doc).logged⟩
  | issue doc uid => exact (happend doc).issue fun w hw => by cases hw

theorem Refs.resetAndComplete {s : App} (h : Refs s) (call : Nat) (b : Basket) :
    Refs (s.resetAndComplete call b) := by
  refine h.congr (fun c => ?_) (List.Subset.refl _) rfl rfl fun r hr => ?_
  · rw [refs_resetAndComplete]
    split
    · exact List.nil_subset _
    · exact List.Subset.refl _
  · simpa [Logged] using hr

theorem Refs.settle {s : App} (h : Refs s) {c : Callback} (hc : c ∈ s.pending) (ok : Bool) :
    Refs (s.settle c ok) := by
  cases ok with
  | false => cases c <;> exact h
  | true =>
    cases c with
    | create w => exact h.created (h.pending _ hc w rfl)
    | update w => exact h.store (h.pending _ hc w rfl)
    | history call b uid ids => exact ⟨h.basket, h.pending, h.stored, h.logged⟩

theorem Refs.follow {s : App} (h : Refs s) (c : Callback) : Refs (s.follow c) := by
  cases c with
  | create w => exact h.appends (appends_cases _ _ _)
  | update w => exact h.resetAndComplete _ _
  | history call b uid ids => exact h.resetAndComplete _ _

theorem Refs.answered {s : App} (h : Refs s) {l : List Callback} (hl : l ⊆ s.pending)
    (c : Callback) (ok : Bool) : Refs (s.answered c ok l) := by
  refine h.congr (fun _ => List.Subset.refl _) hl rfl rfl fun r hr => ?_
  simpa [Logged] using hr

theorem Refs.addItem {s : App} (h : Refs s) (b : Basket) (x : OrderItem) : Refs (s.addItem b x) := by
  have hn : (s.addItem b x).nextRef = s.nextRef + 1 := rfl
  refine ⟨?_, ?_, ?_, ?_⟩
  · intro c r hr
    rw [refs_addItem] at hr
    rw [hn]
    split at hr
    · simp only [List.mem_append, List.mem_singleton] at hr
      rcases hr with hr | rfl
      · have := h.basket c r hr; omega
      · omega
    · have := h.basket c r hr; omega
  · intro c hc w hw r hr
    have := h.pending c hc w hw r hr
    rw [hn]; omega
  · intro d w hd r hr
    have := h.stored d w hd r hr
    rw [hn]; omega
  · intro r hr
    have hr' : r = s.nextRef ∨ Logged s r := by
      simp only [Logged, log_addItem, List.mem_append, List.mem_singleton,
        Obs.added.injEq, reduceCtorEq, or_false] at hr
      rcases hr with (hr | hr) | hr
      · exact .inr (.inl hr)
      · exact .inl hr
      · exact .inr (.inr hr)
    rw [hn]
    rcases hr' with rfl | hr
    · omega
    · have := h.logged r hr; omega

theorem Refs.step {s t : App} {e : Ev} (h : Refs s) (hs : s.step e = some t) : Refs t := by
  obtain ⟨-, -, hf⟩ := step_cases hs
  cases hf with
  | addItem b x => exact h.addItem b x
  | badIndex => exact ⟨h.basket, h.pending, h.stored, h.logged⟩
  | removeItemAt index b i x hx =>
    refine ⟨fun c r hr => ?_, h.pending, h.stored, fun r hr => ?_⟩
    · rw [refs_removed] at hr
      split at hr
      · exact h.basket c r (List.eraseIdx_subset hr)
      · exact h.basket c r hr
    · have hxr : x.tag.ref ∈ s.refs b := List.mem_map_of_mem (List.mem_of_getElem? hx)
      simp only [Logged, log_removed, List.mem_append, List.mem_singleton,
        Obs.removed.injEq, reduceCtorEq, or_false] at hr
      rcases hr with hr | hr | rfl
      · exact h.logged r (.inl hr)
      · exact h.logged r (.inr hr)
      · exact h.basket b _ hxr
  | textFieldDidEndEditing text =>
    exact h.congr (fun c => by rw [refs_textFieldDidEndEditing]; exact List.Subset.refl _)
      (List.Subset.refl _) rfl rfl fun _ hr => hr
  | checkout now =>
    have h0 : Refs { s with calls := s.calls + 1 } := ⟨h.basket, h.pending, h.stored, h.logged⟩
    exact (h0.submit (cafe_turn s now)).submit (bar_turn s now)
  | reply i ok c l₁ l₂ hp =>
    refine ((h.settle (mem_of_split hp) ok).answered ?_ c ok).follow c
    rw [pending_settle]; exact rest_subset hp
  | session _ _ f =>
    refine h.congr (fun b => ?_) ?_ f.orders f.nextRef fun r hr => ?_
    · unfold refs; rw [f.order]; exact List.Subset.refl _
    · rw [f.pending]; exact List.Subset.refl _
    · unfold Logged at hr ⊢; rwa [f.log] at hr

theorem Refs.launch {s : App} (h : Launch s) : Refs s := by
  refine ⟨?_, ?_, ?_, ?_⟩
  · intro b r hr
    rw [refs, h.order] at hr
    cases hr
  · intro c hc; rw [h.pending] at hc; cases hc
  · intro d w hd; rw [h.orders] at hd; cases hd
  · intro r hr
    unfold Logged at hr
    rw [h.log] at hr
    rcases hr with hr | hr <;> cases hr

theorem refs_reachable {s : App} (h : app.Reachable s) : Refs s :=
  h.invariant (fun _ => Refs.launch) fun _ _ _ _ hi hs => hi.step hs

theorem nextRef_reply (s : App) (c : Callback) (ok : Bool) (l : List Callback) :
    (((s.settle c ok).answered c ok l).follow c).nextRef = s.nextRef := by
  have hset : (s.settle c ok).nextRef = s.nextRef := by cases ok <;> cases c <;> rfl
  cases c with
  | create w =>
    refine follow_create _ w fun t ha => ?_
    cases ha <;> exact hset
  | update w => exact hset
  | history => exact hset

theorem Submit.nextRef {s t : App} {call : Nat} {now : Basket → Date} {b : Basket}
    (h : Submit s call now b t) : t.nextRef = s.nextRef := by
  cases h <;> rfl

theorem nextRef_step {s t : App} {e : Ev} (hs : s.step e = some t) : s.nextRef ≤ t.nextRef := by
  have hf := (step_cases hs).2.2
  cases hf with
  | addItem b x => exact Nat.le_succ _
  | checkout now => exact Nat.le_of_eq ((bar_turn s now).nextRef.trans (cafe_turn s now).nextRef).symm
  | reply i ok c l₁ l₂ => exact Nat.le_of_eq (nextRef_reply s c ok (l₁ ++ l₂)).symm
  | session _ _ f => exact Nat.le_of_eq f.nextRef.symm
  | _ => exact Nat.le_refl _

/-! ## Items the user added and did not delete -/

def Alive (s : App) (r : Nat) : Prop := .added r ∈ s.log ∧ .removed r ∉ s.log

def InBasket (s : App) (r : Nat) : Prop := ∃ b, r ∈ s.refs b

/-- Some stored order document was built from the item. -/
def InDocument (s : App) (r : Nat) : Prop := ∃ d w, s.orders d = some w ∧ r ∈ w.refs

/-- The identities the log says were added, and deleted. -/
def addedRefs (s : App) : List Nat :=
  s.log.filterMap fun o => match o with | .added r => some r | _ => none

def removedRefs (s : App) : List Nat :=
  s.log.filterMap fun o => match o with | .removed r => some r | _ => none

theorem alive_iff (s : App) (r : Nat) : Alive s r ↔ r ∈ s.addedRefs ∧ r ∉ s.removedRefs := by
  have h1 : .added r ∈ s.log ↔ r ∈ s.addedRefs := by
    simp only [addedRefs, List.mem_filterMap]
    refine ⟨fun h => ⟨_, h, rfl⟩, ?_⟩
    rintro ⟨o, ho, hr⟩
    cases o <;> cases hr; exact ho
  have h2 : .removed r ∈ s.log ↔ r ∈ s.removedRefs := by
    simp only [removedRefs, List.mem_filterMap]
    refine ⟨fun h => ⟨_, h, rfl⟩, ?_⟩
    rintro ⟨o, ho, hr⟩
    cases o <;> cases hr; exact ho
  rw [Alive, h1, h2]

instance (s : App) (r : Nat) : Decidable (Alive s r) := decidable_of_iff' _ (alive_iff s r)

theorem inBasket_iff (s : App) (r : Nat) : InBasket s r ↔ r ∈ s.refs .cafe ∨ r ∈ s.refs .bar := by
  refine ⟨?_, ?_⟩
  · rintro ⟨b, hb⟩
    cases b with
    | cafe => exact .inl hb
    | bar => exact .inr hb
  · rintro (h | h)
    · exact ⟨_, h⟩
    · exact ⟨_, h⟩

instance (s : App) (r : Nat) : Decidable (InBasket s r) := decidable_of_iff' _ (inBasket_iff s r)

/-- Document `d` is stored and was built from the item. -/
def holds (s : App) (d r : Nat) : Bool := (s.orders d).any fun w => decide (r ∈ w.refs)

theorem Docs.inDocument_iff {s : App} (h : Docs s) (r : Nat) :
    InDocument s r ↔ ∃ d ∈ List.range s.nextID, s.holds d r = true := by
  simp only [List.mem_range, holds, Option.any_eq_true, decide_eq_true_eq]
  refine ⟨?_, ?_⟩
  · rintro ⟨d, w, hw, hr⟩
    exact ⟨d, h.stored d w hw, w, hw, hr⟩
  · rintro ⟨d, -, w, hw, hr⟩
    exact ⟨d, w, hw, hr⟩

end App

end QadsCafe
