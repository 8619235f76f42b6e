import QadsCafe.Core.Splice
import QadsCafe.L4App.BasketScreen
import QadsCafe.L4App.Items

/-!
# Deleting a row of the basket screen

The rows of the basket screen are the items of the cafe order followed by
those of the bar order, as they were when the screen was drawn. A tap on the
delete button captures the index of the row; the confirmed alert hands it to
`removeItemAt`, which looks it up in the baskets of that moment.

In between anything can happen. A callback resets an order; and each tab
pushes a basket screen of its own, which is not drawn anew when an item is
added or deleted under another tab. What a step does to the rows is one edit
of the list (`edits`), and `tracking` follows the row of the item shown
through it. `deletes_shown_iff`: the confirmed deletion deletes the item shown
iff that row is back where it was.
-/
namespace QadsCafe

open Core

namespace App

/-- From `s` to `t` the object `x` left its basket, if it was in one, nothing
else changed, and nothing trapped. -/
structure DeletesShown (s t : App) (x : OrderItem) : Prop where
  trap : t.trap = none
  items : ∀ b, (t.order b).items = (s.order b).items.filter fun y => y.tag.ref ≠ x.tag.ref

/-- What a step does to the rows of the basket: an item comes at the end of its
order, a row is deleted, or an order is reset. -/
def edits (s : App) : Ev → Splice
  | .addItem .cafe _ => ⟨s.user.cafeOrder.items.length, 0, 1⟩
  | .addItem .bar _ => ⟨s.user.basket.length, 0, 1⟩
  | .removeItemAt index => ⟨index, 1, 0⟩
  | .reply i _ =>
    match s.pending[i]? with
    | some (.update w) => reset w.basket
    | some (.history _ b _ _) => reset b
    | _ => ⟨0, 0, 0⟩
  | _ => ⟨0, 0, 0⟩
where
  reset : Basket → Splice
    | .cafe => ⟨0, s.user.cafeOrder.items.length, 0⟩
    | .bar => ⟨s.user.cafeOrder.items.length, s.user.barOrder.items.length, 0⟩

/-- The row that an item is in, if it is in one. -/
def follows (s : App) (e : Ev) (row : Option Nat) : Option Nat := row.bind (s.edits e).track

/-- The app, with the row that the item of row `index` is in. -/
def tracking (index : Nat) : LTS (App × Option Nat) Ev := app.record (some index) follows

/-! ## One step -/

/-- The objects that a step puts in a basket. -/
def newItems (s : App) : Ev → List OrderItem
  | .addItem _ x => [s.stored x]
  | _ => []

theorem basket_addItem (s : App) (b : Basket) (x : OrderItem) :
    (s.addItem b x).user.basket = (s.edits (.addItem b x)).apply [s.stored x] s.user.basket := by
  cases b with
  | cafe =>
    have h := Splice.apply_middle s.user.cafeOrder.items [] s.user.barOrder.items [s.stored x] 1
    rw [List.append_nil] at h
    exact h.symm
  | bar =>
    have h := Splice.apply_middle s.user.basket [] [] [s.stored x] 1
    rw [List.append_nil, List.append_nil, List.append_nil] at h
    refine Eq.trans ?_ h.symm
    exact (List.append_assoc _ _ _).symm

theorem basket_removeItemAt (s : App) (index : Nat) :
    (s.removeItemAt index).user.basket = s.user.basket.eraseIdx index := by
  have hget := User.getItemAt_basket s.user index
  cases hx : s.user.basket[index]? with
  | none =>
    rw [hx] at hget
    have hcrash : s.removeItemAt index = s.crash .indexOutOfRange := by
      simp only [App.removeItemAt, hget]
    rw [hcrash, List.eraseIdx_of_length_le (List.getElem?_eq_none_iff.mp hx)]
    rfl
  | some x =>
    rw [hx] at hget
    obtain ⟨v, hv, hd⟩ := User.removeItemAt_deleted hx
    have hfire : s.removeItemAt index = { s with user := v }.observe (.removed x.tag.ref) := by
      simp only [App.removeItemAt, hget, hv]
    rw [hfire]
    exact hd.items

theorem basket_same {s t : App} (h : ∀ b, (t.order b).items = (s.order b).items) :
    t.user.basket = s.user.basket := congrArg₂ _ (h .cafe) (h .bar)

theorem basket_reset {s t : App} {b : Basket} (hb : (t.order b).items = [])
    (ho : ∀ c, c ≠ b → (t.order c).items = (s.order c).items) :
    t.user.basket = (edits.reset s b).apply [] s.user.basket := by
  cases b with
  | cafe =>
    have hbar := ho .bar (by decide)
    have h := Splice.apply_middle [] s.user.cafeOrder.items s.user.barOrder.items [] 0
    exact (congrArg₂ _ hb hbar).trans h.symm
  | bar =>
    have hcafe := ho .cafe (by decide)
    have h := Splice.apply_middle s.user.cafeOrder.items s.user.barOrder.items [] [] 0
    simp only [List.append_nil] at h
    refine (congrArg₂ _ hcafe hb).trans ?_
    exact (List.append_nil _).trans h.symm

theorem basket_reply {s t : App} {i : Nat} {ok : Bool} (hs : s.step (.reply i ok) = some t) :
    t.user.basket = (s.edits (.reply i ok)).apply [] s.user.basket := by
  have hlt := (step_iff.mp hs).2.1
  simp only [enabled, decide_eq_true_eq] at hlt
  obtain ⟨c, hc⟩ : ∃ c, s.pending[i]? = some c := ⟨_, List.getElem?_eq_getElem hlt⟩
  have hitems : ∀ b, (t.order b).items =
      if c.isCreate = false ∧ c.basket = b then [] else (s.order b).items := by
    intro b
    rcases items_unedited hs rfl b with ⟨hr, hi⟩ | ⟨hr, hi⟩
    · rw [resets_iff hc] at hr
      rw [if_neg hr, hi]
    · rw [resets_iff hc] at hr
      rw [if_pos hr, hi]
  have hreset : ∀ b, c.isCreate = false → c.basket = b →
      t.user.basket = (edits.reset s b).apply [] s.user.basket := by
    rintro b hn rfl
    refine basket_reset ?_ fun c' hc' => ?_
    · rw [hitems, if_pos ⟨hn, rfl⟩]
    · rw [hitems, if_neg fun h => hc' h.2.symm]
  cases c with
  | create w =>
    have hedits : s.edits (.reply i ok) = ⟨0, 0, 0⟩ := by simp only [edits, hc]
    rw [hedits, Splice.apply_nil_of_removed_zero]
    exact basket_same fun b => by rw [hitems, if_neg (by simp [Callback.isCreate])]
  | update w =>
    have hedits : s.edits (.reply i ok) = edits.reset s w.basket := by simp only [edits, hc]
    rw [hedits]
    exact hreset w.basket rfl rfl
  | history call b uid ids =>
    have hedits : s.edits (.reply i ok) = edits.reset s b := by simp only [edits, hc]
    rw [hedits]
    exact hreset b rfl rfl

/-- **One step** is one edit of the rows. -/
theorem basket_step {s t : App} {e : Ev} (hs : s.step e = some t) :
    t.user.basket = (s.edits e).apply (s.newItems e) s.user.basket := by
  have hquiet : e.isEdit = false → (∀ b, ¬ Resets s b e) → t.user.basket = s.user.basket := by
    intro he hr
    refine basket_same fun b => ?_
    rcases items_unedited hs he b with ⟨-, hi⟩ | ⟨h, -⟩
    · exact hi
    · exact absurd h (hr b)
  cases e with
  | addItem b x =>
    rw [(step_iff.mp hs).2.2]
    exact basket_addItem s b x
  | removeItemAt index =>
    rw [(step_iff.mp hs).2.2]
    exact (basket_removeItemAt s index).trans (Splice.apply_eraseIdx index _).symm
  | reply i ok => exact basket_reply hs
  | _ =>
    rw [hquiet rfl fun b => not_resets rfl]
    exact (Splice.apply_nil_of_removed_zero 0 0 _).symm

/-! ## The row of the item shown -/

theorem nodup_basket {s : App} (h : Apart s) : (s.user.basket.map fun y => y.tag.ref).Nodup := by
  rw [User.basket, List.map_append, List.nodup_append]
  refine ⟨h.once .cafe, h.once .bar, fun r hr q hq he => ?_⟩
  cases h.apart r .cafe .bar hr (he ▸ hq)

/-- `x` is in the row, or in no basket any more. -/
def InRow (x : OrderItem) (s : App) : Option Nat → Prop
  | some row => s.user.basket[row]? = some x
  | none => ∀ y ∈ s.user.basket, y.tag.ref ≠ x.tag.ref

/-- The row of an object that was added is followed. -/
structure Followed (x : OrderItem) (s : App) (row : Option Nat) : Prop where
  old : x.tag.ref < s.nextRef
  inRow : InRow x s row

theorem Followed.step {x : OrderItem} {s t : App} {e : Ev} {row : Option Nat}
    (h : Followed x s row) (ha : Apart s) (hs : s.step e = some t) :
    Followed x t (follows s e row) := by
  -- an item that comes has a new name
  have hnew : ∀ y ∈ s.newItems e, y.tag.ref ≠ x.tag.ref := by
    intro y hy
    cases e with
    | addItem b z =>
      rw [List.mem_singleton.mp hy]
      exact Nat.ne_of_gt h.old
    | _ => cases hy
  have hlen : (s.newItems e).length = (s.edits e).added := by
    cases e with
    | addItem b z => cases b <;> rfl
    | reply i ok =>
      simp only [edits]
      split
      · rename_i w _; cases w.basket <;> rfl
      · rename_i b _ _ _; cases b <;> rfl
      · rfl
    | _ => rfl
  refine ⟨Nat.lt_of_lt_of_le h.old (nextRef_step hs), ?_⟩
  cases row with
  | none =>
    intro y hy
    rw [basket_step hs] at hy
    rcases Splice.mem_apply hy with hy | hy
    · exact hnew y hy
    · exact h.inRow y hy
  | some row =>
    have hx : s.user.basket[row]? = some x := h.inRow
    show InRow x t ((s.edits e).track row)
    cases hrow : (s.edits e).track row with
    | some row' =>
      show t.user.basket[row']? = some x
      rw [basket_step hs]
      exact Splice.getElem?_track hlen hx hrow
    | none =>
      intro y hy
      rw [basket_step hs] at hy
      exact Splice.not_mem_of_track (nodup_basket ha) hnew hx hrow y hy

/-- **A run.** -/
theorem followed_run {s₀ s : App} {ls : List Ev} {index : Nat} {row : Option Nat} {x : OrderItem}
    (h₀ : app.Reachable s₀) (hx : s₀.user.getItemAt index = some x)
    (hr : (tracking index).Run (s₀, some index) ls (s, row)) : app.Reachable s ∧ Followed x s row := by
  rw [User.getItemAt_basket] at hx
  have hold : x.tag.ref < s₀.nextRef := by
    rcases List.mem_append.mp (List.mem_of_getElem? hx) with hmem | hmem
    · exact (refs_reachable h₀).basket .cafe _ (List.mem_map_of_mem hmem)
    · exact (refs_reachable h₀).basket .bar _ (List.mem_map_of_mem hmem)
  refine hr.invariant (P := fun _ => True) (I := fun p => app.Reachable p.1 ∧ Followed x p.1 p.2)
    ?_ (fun _ _ => trivial) (show app.Reachable s₀ ∧ Followed x s₀ (some index) from ⟨h₀, hold, hx⟩)
  rintro ⟨s, row⟩ e ⟨t, row'⟩ - ⟨hreach, h⟩ ⟨hs, hrow⟩
  obtain rfl : row' = follows s e row := hrow
  exact ⟨hreach.step hs, h.step (apart_reachable hreach) hs⟩

/-! ## The confirmed deletion -/

/-- If the row still shows `x`, exactly `x` is deleted. -/
theorem deletes_shown {s t : App} {index : Nat} {x : OrderItem} (ha : Apart s)
    (hx : s.user.getItemAt index = some x) (ht : s.step (.removeItemAt index) = some t) :
    DeletesShown s t x := by
  obtain ⟨htrap, -, rfl⟩ := step_iff.mp ht
  rw [User.getItemAt_eq] at hx
  have hx' : (s.order (s.user.locate index).1).items[(s.user.locate index).2]? = some x := hx
  have hfire : s.fire (.removeItemAt index) =
      s.removed (s.user.locate index).1 (s.user.locate index).2 x := by
    simp only [fire, removeItemAt_locate, hx']
  rw [hfire]
  refine ⟨htrap, fun b => ?_⟩
  rw [order_removed]
  split
  · rename_i hb
    rw [hb]
    exact eraseIdx_eq_filter (f := fun y : OrderItem => y.tag.ref) (ha.once _) hx'
  · rename_i hb
    symm
    rw [List.filter_eq_self]
    intro y hy
    rw [decide_eq_true_eq]
    intro he
    refine hb (ha.apart x.tag.ref b _ ?_ (List.mem_map_of_mem (List.mem_of_getElem? hx')))
    rw [← he]
    exact List.mem_map_of_mem hy

/-- A deletion erases a row of the basket, or traps. -/
theorem erased_of_deletes {s t : App} {index : Nat} {x : OrderItem} (h : DeletesShown s t x)
    (ht : s.step (.removeItemAt index) = some t) : index < s.user.basket.length ∧
      s.user.basket.eraseIdx index = s.user.basket.filter fun y => y.tag.ref ≠ x.tag.ref := by
  obtain ⟨-, -, rfl⟩ := step_iff.mp ht
  have hcafe := h.items .cafe
  have hbar := h.items .bar
  refine ⟨?_, ?_⟩
  · by_contra hge
    have hnone : s.user.getItemAt index = none := by
      rw [User.getItemAt_basket, List.getElem?_eq_none_iff]
      omega
    have htrap := h.trap
    simp only [fire, App.removeItemAt, hnone] at htrap
    cases htrap
  · rw [User.basket, List.filter_append]
    exact (basket_removeItemAt s index).symm.trans (congrArg₂ _ hcafe hbar)

/-- **The item deleted is the item shown** iff its row, followed from the draw
to the confirmation, is the one it was drawn in. -/
theorem deletes_shown_iff {s₀ s t : App} {ls : List Ev} {index : Nat} {row : Option Nat}
    {x : OrderItem} (h₀ : app.Reachable s₀) (hx : s₀.user.getItemAt index = some x)
    (hr : (tracking index).Run (s₀, some index) ls (s, row))
    (ht : s.step (.removeItemAt index) = some t) : DeletesShown s t x ↔ row = some index := by
  obtain ⟨hreach, hf⟩ := followed_run h₀ hx hr
  constructor
  · intro h
    obtain ⟨hlt, herase⟩ := erased_of_deletes h ht
    obtain ⟨z, hz, hzx⟩ := exists_of_eraseIdx_eq (f := fun y : OrderItem => y.tag.ref) hlt herase
    cases row with
    | none => exact absurd hzx (hf.inRow z hz)
    | some row => rw [row_of_eraseIdx_eq (f := fun y : OrderItem => y.tag.ref) hf.inRow herase]
  · rintro rfl
    have hx' : s.user.getItemAt index = some x := (User.getItemAt_basket _ _).trans hf.inRow
    exact deletes_shown (apart_reachable hreach) hx' ht

/-- With the ale on the screen a cake comes above it, and the tea goes. -/
def cakeForTea : List Ev := [.addItem .cafe (plainItem "cake" "Cafe"), .removeItemAt 0]

theorem ale_followed : ∃ s₀ s x t, app.Run {} teaAndAle s₀ ∧ s₀.user.getItemAt 1 = some x ∧
    (tracking 1).Run (s₀, some 1) cakeForTea (s, some 1) ∧ s.step (.removeItemAt 1) = some t ∧
    DeletesShown s t x := by
  obtain ⟨s₀, h₀, x, hx, s, hs, t, ht⟩ : ∃ s₀, app.Run {} teaAndAle s₀ ∧ ∃ x,
      s₀.user.getItemAt 1 = some x ∧ ∃ s, (tracking 1).Run (s₀, some 1) cakeForTea (s, some 1) ∧
      ∃ t, s.step (.removeItemAt 1) = some t :=
    ⟨_, LTS.run_of_exec rfl, _, rfl, _, LTS.run_record_of_exec rfl, _, rfl⟩
  exact ⟨s₀, s, x, t, h₀, hx, hs, ht,
    (deletes_shown_iff (h₀.reachable launch_default) hx hs ht).mpr rfl⟩

/-- Both orders are sent; the cafe order is reset. -/
def teaReset : List Ev := [.checkout fun _ => 0, .reply 0 true, .reply 1 true]

/-- **Another item is deleted.** Row 0 shows the tea; once the cafe order is
reset it is the row of the ale. -/
theorem stale_row_deletes_other : ∃ s₀ s t x, app.Run {} teaAndAle s₀ ∧
    s₀.user.getItemAt 0 = some x ∧ app.Run s₀ teaReset s ∧ s.step (.removeItemAt 0) = some t ∧
    ¬ DeletesShown s t x := by
  refine ⟨_, _, _, _, LTS.run_of_exec rfl, rfl, LTS.run_of_exec rfl, rfl, fun h => ?_⟩
  have hbar := congrArg List.length (h.items .bar)
  revert hbar
  decide

/-- **A row below the reset order traps.** -/
theorem stale_row_traps : ∃ s₀ s t x, app.Run {} teaAndAle s₀ ∧
    s₀.user.getItemAt 1 = some x ∧ app.Run s₀ teaReset s ∧ s.step (.removeItemAt 1) = some t ∧
    t.trap = some .indexOutOfRange :=
  ⟨_, _, _, _, LTS.run_of_exec rfl, rfl, LTS.run_of_exec rfl, rfl, rfl⟩

end App

end QadsCafe
