import QadsCafe.Core.View
import QadsCafe.L2Detail.Labels

/-!
# What is on screen stays up to date

No cell of the item-detail screen watches the order item. A tap on a row
reloads the rows that `switchSelectedTo` returns and, through `optionTapped`,
the last row of the collection view if it is on screen; a stepper updates its
own cell; the allergy cell is written again when the picker goes away.

`display P item names` is the session with what is on screen: the rows of the
options and types, the labels of the allergy cell and of the checkout cell, and
the rows of the allergy picker. Scrolling shows and hides any of them at any
time; the screen behind the picker is not touched while it is presented.

A cell is made when it comes on screen and given up when it leaves. UIKit may
also make one ahead, or reuse one whose table still shows the rows it had:
`setUp` does not reload them and `optionTapped` looks for visible cells only.
Such cells are left out here.

Results:
* `Display.act_edits`: what the screen does to the order item is a session.
* `Display.current_reachable`: with no such cell everything on screen is at all
  times what the order item would be drawn as; only the label of the allergy
  cell may lag behind, while the picker is in front of it.
-/
namespace QadsCafe

open Core

/-- The table cell of a row.
mirrors OptionsCollectionViewCell.swift:56-77 -/
def OptionsCell.cellForRowAt (c : OptionsCell) (row : Nat) (x : OrderItem) : Option OptionCell := do
  let _ ← (← c.getOptionList x)[row]?
  let option ← c.makeCell row x {}
  return makeOptionCell option

/-- `reloadRows(at:)`: of these rows the visible ones are made again. -/
def OptionsCell.reloadRows (c : OptionsCell) (list : OptionList) (rows : List Nat) (x : OrderItem)
    (view : View (OptionList × Nat) OptionCell) : View (OptionList × Nat) OptionCell :=
  view.refresh (fun k => c.cellForRowAt k.2 x) fun k => k.1 = list ∧ k.2 ∈ rows

/-- mirrors ItemDetailsViewController.swift:56-59 -/
def OrderItem.numberOfItemsInSection (x : OrderItem) : Nat := x.types.length + 4

structure Display where
  item : OrderItem
  rows : View (OptionList × Nat) OptionCell := fun _ => none
  allergyCell : Option String := none
  checkoutCell : Option CheckoutCell := none
  /-- the rows of the picker, while it is presented -/
  picker : Option (View Nat AllergyCell) := none

/-- The cells of options and types are made from a reused one. `dismissed` is
false for a swipe that is given up. -/
inductive DisplayEvent where
  | showRow (reused : OptionsCell) (cell row : Nat)
  | hideRow (list : OptionList) (row : Nat)
  | tapRow (reused : OptionsCell) (cell row : Nat)
  | quantityStepper (row : Nat) (value : Int)
  | showAllergyCell
  | hideAllergyCell
  | showCheckoutCell
  | hideCheckoutCell
  | stepperTapped (value : Int)
  | chooseAllergiesTapped
  | showAllergy (row : Nat)
  | hideAllergy (row : Nat)
  | didSelectAllergy (row : Nat)
  | viewWillDisappear (dismissed : Bool)

namespace DisplayEvent

/-- The events of the picker. -/
def inPicker : DisplayEvent → Bool
  | .showAllergy _ | .hideAllergy _ | .didSelectAllergy _ | .viewWillDisappear _ => true
  | _ => false

end DisplayEvent

namespace Display

/-- The cell of the last row is set up again, if it is on screen and is the
checkout cell.
mirrors ItemDetailsViewController.swift:169-177 -/
def optionTapped (stock : Option Bool) (s : Display) : Display :=
  let n := s.item.numberOfItemsInSection - 1
  if getCellType s.item n = .checkoutCell then
    { s with checkoutCell := s.checkoutCell.map fun _ => s.item.setUp stock }
  else s

def act (P : Prepend) (stock : Option Bool) (s : Display) : DisplayEvent → Option Display
  | .showRow reused cell row => do
    let c ← cellForItemAt reused s.item cell
    let list ← cellList s.item cell
    let made ← c.cellForRowAt row s.item
    return { s with rows := Function.update s.rows (list, row) (some made) }
  | .hideRow list row => some { s with rows := Function.update s.rows (list, row) none }
  | .tapRow reused cell row => do
    let c ← cellForItemAt reused s.item cell
    let list ← cellList s.item cell
    let _ ← s.rows (list, row)
    let option ← (← c.getOptionList s.item)[row]?
    if option.canHaveMultiple then
      return { s with rows := c.reloadRows list [row] s.item s.rows }
    let (item, refreshedIndexes) ← c.switchSelectedTo row s.item
    return optionTapped stock
      { s with item, rows := c.reloadRows list refreshedIndexes item s.rows }
  | .quantityStepper row value => do
    let _ ← s.rows (.options, row)
    let option ← s.item.options[row]?
    if option.canHaveMultiple ∧ 0 ≤ value ∧ value ≤ 20 then
      let item ← s.item.quantityStepper row value
      let made := item.options[row]?.map makeOptionCell
      return optionTapped stock { s with item, rows := Function.update s.rows (.options, row) made }
    else none
  | .showAllergyCell => some { s with allergyCell := some (s.item.setChosenAllergies P) }
  | .hideAllergyCell => some { s with allergyCell := none }
  | .showCheckoutCell => some { s with checkoutCell := some (s.item.setUp stock) }
  | .hideCheckoutCell => some { s with checkoutCell := none }
  | .stepperTapped value => do
    let _ ← s.checkoutCell
    if 1 ≤ value ∧ value ≤ 10 then
      let item := s.item.stepperTapped value
      return { s with item, checkoutCell := some (item.setUp stock) }
    else none
  | .chooseAllergiesTapped => s.allergyCell.map fun _ => { s with picker := some fun _ => none }
  | .showAllergy row => do
    let view ← s.picker
    let allergy ← s.item.allergies[row]?
    return { s with picker := some (Function.update view row (some (makeAllergyCell allergy))) }
  | .hideAllergy row => s.picker.map fun view =>
    { s with picker := some (Function.update view row none) }
  | .didSelectAllergy row => do
    let view ← s.picker
    let _ ← view row
    let item ← s.item.toggleAllergy row
    let render := fun row => item.allergies[row]?.map makeAllergyCell
    return { s with item, picker := some (view.refresh render fun r => r = row) }
  | .viewWillDisappear dismissed => s.picker.map fun view =>
    -- onDismiss
    { s with
      allergyCell := s.allergyCell.map fun _ => s.item.setChosenAllergies P
      picker := if dismissed then none else some view }

/-- The screen behind the picker is not touched. -/
def step (P : Prepend) (stock : Option Bool) (s : Display) (e : DisplayEvent) : Option Display :=
  if s.picker.isSome = e.inPicker then s.act P stock e else none

end Display

/-- A session, with nothing on screen yet. -/
def display (P : Prepend) (item : Item) (allergyNames : List String) : LTS Display DisplayEvent :=
  LTS.ofFn (fun s => ∃ x₀, createOrderItem item allergyNames = some x₀ ∧ s = { item := x₀ })
    (Display.step P item.stock)

/-- How a row is drawn now. -/
def drawnRow (x : OrderItem) (k : OptionList × Nat) : Option OptionCell :=
  ((x.getList k.1).bind fun l => l[k.2]?).map makeOptionCell

def drawnAllergy (x : OrderItem) (row : Nat) : Option AllergyCell := x.allergies[row]?.map makeAllergyCell

/-- Everything on screen is up to date. -/
structure Display.Current (P : Prepend) (stock : Option Bool) (s : Display) : Prop where
  rows : View.Current (drawnRow s.item) s.rows
  checkout : ∀ c, s.checkoutCell = some c → c = s.item.setUp stock
  picker : ∀ view, s.picker = some view → View.Current (drawnAllergy s.item) view
  allergy : s.picker = none → ∀ t, s.allergyCell = some t → t = s.item.setChosenAllergies P

/-! ## Drawing a row -/

/-- The last row, and no other, is the checkout cell. -/
theorem getCellType_checkout {x : OrderItem} {p : Nat} (hp : p < x.numberOfItemsInSection) :
    getCellType x p = .checkoutCell ↔ p = x.numberOfItemsInSection - 1 := by
  unfold OrderItem.numberOfItemsInSection at hp ⊢
  unfold getCellType
  dsimp only
  split
  · simp only [reduceCtorEq, false_iff]; omega
  split
  · simp only [reduceCtorEq, false_iff]; omega
  split
  · simp only [reduceCtorEq, false_iff]; omega
  split
  · simp only [reduceCtorEq, false_iff]; omega
  · simp only [true_iff]; omega

theorem optionTapped_eq (stock : Option Bool) (s : Display) :
    s.optionTapped stock = { s with checkoutCell := s.checkoutCell.map fun _ => s.item.setUp stock } := by
  have hn : s.item.numberOfItemsInSection - 1 < s.item.numberOfItemsInSection := by
    unfold OrderItem.numberOfItemsInSection; omega
  exact if_pos ((getCellType_checkout hn).mpr rfl)

theorem getCellType_congr {x y : OrderItem} (h : y.types.length = x.types.length) (p : Nat) :
    getCellType y p = getCellType x p := by
  unfold getCellType
  rw [h]

theorem cellForItemAt_congr {x y : OrderItem} (h : y.types.length = x.types.length)
    (reused : OptionsCell) (p : Nat) : cellForItemAt reused y p = cellForItemAt reused x p := by
  unfold cellForItemAt
  rw [getCellType_congr h]

theorem cellList_congr {x y : OrderItem} (h : y.types.length = x.types.length) (p : Nat) :
    cellList y p = cellList x p := by
  unfold cellList
  rw [getCellType_congr h]

theorem length_types_setList (x : OrderItem) (list : OptionList) (l : List ItemOption) :
    (x.setList list l).updatePrice.types.length = x.types.length := by
  cases list with
  | options => rfl
  | choices i => exact List.length_modify _ _ _

/-- A row is drawn from the list of its cell. -/
theorem cellForRowAt_eq {x : OrderItem} {reused c : OptionsCell} {p : Nat} {list : OptionList}
    (hc : cellForItemAt reused x p = some c) (hlist : cellList x p = some list) (row : Nat) :
    c.cellForRowAt row x = drawnRow x (list, row) := by
  obtain ⟨r, hr, hget, -⟩ := cellForItemAt_list hc
  obtain rfl := Option.some.inj (hr.symm.trans hlist)
  unfold OptionsCell.cellForRowAt drawnRow
  dsimp only
  cases hl : x.getList r with
  | none => rw [hget, hl]; rfl
  | some l =>
    rw [makeCell_eq hc (hget.trans hl) row {}, hget, hl]
    cases ho : l[row]? with
    | none => simp [ho]
    | some o => simp [ho]

theorem reloadRows_eq {x : OrderItem} {reused c : OptionsCell} {p : Nat} {list : OptionList}
    (hc : cellForItemAt reused x p = some c) (hlist : cellList x p = some list) (rows : List Nat)
    (view : View (OptionList × Nat) OptionCell) :
    c.reloadRows list rows x view = view.refresh (drawnRow x) fun k => k.1 = list ∧ k.2 ∈ rows := by
  refine View.refresh_congr ?_
  rintro ⟨l, j⟩ ⟨rfl, -⟩
  exact cellForRowAt_eq hc hlist j

/-- A tap on one row leaves what it does not report as it was drawn. -/
theorem drawnRow_tapped {x : OrderItem} (hg : RadioGroups x) {list : OptionList} {l : List ItemOption}
    (hl : x.getList list = some l) {row : Nat} {o : ItemOption} (ho : l[row]? = some o)
    (hm : o.canHaveMultiple = false) {k : OptionList × Nat}
    (hk : ¬ (k.1 = list ∧ k.2 ∈ reported o row l)) :
    drawnRow (x.setList list (tapped row l)).updatePrice k = drawnRow x k := by
  obtain ⟨r, j⟩ := k
  have hlist : (x.setList list (tapped row l)).updatePrice.getList r =
      if list = r then (x.getList r).map fun _ => tapped row l else x.getList r :=
    getList_setList x list r (tapped row l)
  unfold drawnRow
  dsimp only
  rw [hlist]
  split
  · rename_i hr
    subst hr
    have hsame : (tapped row l)[j]? = l[j]? := by
      rw [getElem?_tapped ho]
      cases ha : l[j]? with
      | none => rfl
      | some a =>
        have hquantity : a.quantity = (tappedAt o row j a).quantity := by
          by_contra hne
          refine hk ⟨rfl, ((hg list l hl).mem_reported ho hm j).mpr ⟨a, tappedAt o row j a, ha, ?_, hne⟩⟩
          rw [getElem?_tapped ho, ha, Option.map_some]
        have hblank : (tappedAt o row j a).blank = a.blank := by
          unfold tappedAt
          split
          · rfl
          split
          · rfl
          · exact blank_deselected a
        rw [Option.map_some, ItemOption.ext_blank hblank hquantity.symm]
    rw [hl, Option.map_some, Option.bind_some, Option.bind_some, hsame]
  · rfl

/-! ## One event -/

namespace Display

variable {P : Prepend} {stock : Option Bool} {s t : Display}

/-- What a tap on a row does. -/
inductive Tapped (stock : Option Bool) (s : Display) (reused : OptionsCell) (cell row : Nat) :
    Display → Prop
  | reload (c : OptionsCell) (list : OptionList) (hc : cellForItemAt reused s.item cell = some c)
      (hlist : cellList s.item cell = some list) :
      Tapped stock s reused cell row { s with rows := c.reloadRows list [row] s.item s.rows }
  | switch (c : OptionsCell) (list : OptionList) (l : List ItemOption) (o : ItemOption)
      (hc : cellForItemAt reused s.item cell = some c) (hlist : cellList s.item cell = some list)
      (hl : s.item.getList list = some l) (ho : l[row]? = some o) (hm : o.canHaveMultiple = false)
      (y : OrderItem) (hy : y = (s.item.setList list (tapped row l)).updatePrice)
      (he : Shown s.item (.tapRow reused cell row) ∧ edit s.item (.tapRow reused cell row) = some y) :
      Tapped stock s reused cell row (optionTapped stock
        { s with item := y, rows := c.reloadRows list (reported o row l) y s.rows })

theorem act_tapRow {reused : OptionsCell} {cell row : Nat}
    (h : s.act P stock (.tapRow reused cell row) = some t) : Tapped stock s reused cell row t := by
  simp only [act, Option.bind_eq_bind, Option.bind_eq_some_iff] at h
  obtain ⟨c, hc, list, hlist, _, -, l, hget, o, ho, h⟩ := h
  split at h
  · cases h
    exact .reload c list hc hlist
  · rename_i hm
    obtain ⟨r, hr, hlr, hsave⟩ := cellForItemAt_list hc
    obtain rfl := Option.some.inj (hr.symm.trans hlist)
    have hm' : o.canHaveMultiple = false := by simpa using hm
    rw [switchSelectedTo_some hget ho, hsave] at h
    cases h
    refine .switch c r l o hc hlist (hlr.symm.trans hget) ho hm' _ rfl ⟨?_, ?_⟩
    · refine ⟨l, ?_, (List.getElem?_eq_some_iff.mp ho).1⟩
      unfold shownList
      rw [hc, Option.bind_some, hget]
    · show (cellForItemAt reused s.item cell).bind _ = _
      rw [hc, Option.bind_some, didSelectRowAt_eq hget ho, hm', hsave]
      rfl

/-- **One event** is at most one edit of a session. -/
theorem act_edits {e : DisplayEvent} (h : s.act P stock e = some t) :
    t.item = s.item ∨ ∃ d, Shown s.item d ∧ edit s.item d = some t.item := by
  cases e with
  | showRow reused cell row =>
    simp only [act, Option.bind_eq_bind, Option.bind_eq_some_iff] at h
    obtain ⟨c, -, list, -, made, -, h⟩ := h
    cases h
    exact .inl rfl
  | tapRow reused cell row =>
    cases act_tapRow h with
    | reload => exact .inl rfl
    | switch c list l o hc hlist hl ho hm y hy he =>
      rw [optionTapped_eq]
      exact .inr ⟨_, he⟩
  | quantityStepper row value =>
    simp only [act, Option.bind_eq_bind, Option.bind_eq_some_iff] at h
    obtain ⟨_, -, o, ho, h⟩ := h
    split at h
    · rename_i hv
      obtain ⟨item, hitem, h⟩ := Option.bind_eq_some_iff.mp h
      cases h
      rw [optionTapped_eq]
      exact .inr ⟨.quantityStepper row value, ⟨⟨o, ho, hv.1⟩, hv.2⟩, hitem⟩
    · cases h
  | stepperTapped value =>
    simp only [act, Option.bind_eq_bind, Option.bind_eq_some_iff] at h
    obtain ⟨_, -, h⟩ := h
    split at h
    · rename_i hv
      cases h
      exact .inr ⟨.stepperTapped value, hv, rfl⟩
    · cases h
  | chooseAllergiesTapped =>
    obtain ⟨_, -, rfl⟩ := Option.map_eq_some_iff.mp h
    exact .inl rfl
  | showAllergy row =>
    simp only [act, Option.bind_eq_bind, Option.bind_eq_some_iff] at h
    obtain ⟨view, -, a, -, h⟩ := h
    cases h
    exact .inl rfl
  | hideAllergy row =>
    obtain ⟨_, -, rfl⟩ := Option.map_eq_some_iff.mp h
    exact .inl rfl
  | didSelectAllergy row =>
    simp only [act, Option.bind_eq_bind, Option.bind_eq_some_iff] at h
    obtain ⟨view, -, _, -, item, hitem, h⟩ := h
    cases h
    refine .inr ⟨.tapAllergy row, ?_, hitem⟩
    unfold OrderItem.toggleAllergy at hitem
    split at hitem
    · rename_i hrow
      exact hrow
    · cases hitem
  | viewWillDisappear dismissed =>
    obtain ⟨_, -, rfl⟩ := Option.map_eq_some_iff.mp h
    exact .inl rfl
  | _ => cases h; exact .inl rfl

theorem setChosenAllergies_congr {x y : OrderItem} (h : y.allergies = x.allergies) :
    y.setChosenAllergies P = x.setChosenAllergies P := by
  unfold OrderItem.setChosenAllergies
  rw [h]

/-- The order item changed, and with it the rows; the checkout cell is set up again. -/
theorem Current.optionTapped (h : s.Current P stock) {y : OrderItem}
    {rows : View (OptionList × Nat) OptionCell} (hy : y.allergies = s.item.allergies)
    (hrows : View.Current (drawnRow y) rows) :
    (Display.optionTapped stock { s with item := y, rows }).Current P stock := by
  rw [optionTapped_eq]
  refine ⟨hrows, fun c hc => ?_, fun view hv => ?_, fun hp t ht => ?_⟩
  · obtain ⟨_, -, rfl⟩ := Option.map_eq_some_iff.mp hc
    rfl
  · have hdrawn : drawnAllergy y = drawnAllergy s.item := by
      unfold drawnAllergy
      rw [hy]
    show View.Current (drawnAllergy y) view
    rw [hdrawn]
    exact h.picker view hv
  · rw [h.allergy hp t ht]
    exact (setChosenAllergies_congr hy).symm

/-- **One event** leaves everything on screen up to date. -/
theorem Current.act {e : DisplayEvent} (h : s.Current P stock) (hg : RadioGroups s.item)
    (hpick : s.picker.isSome = e.inPicker) (ha : s.act P stock e = some t) : t.Current P stock := by
  have hnone : e.inPicker = false → s.picker = none := fun he =>
    Option.isNone_iff_eq_none.mp (by rw [← Option.not_isSome, hpick, he]; rfl)
  cases e with
  | showRow reused cell row =>
    simp only [Display.act, Option.bind_eq_bind, Option.bind_eq_some_iff] at ha
    obtain ⟨c, hc, list, hlist, made, hmade, ha⟩ := ha
    cases ha
    have hrows := h.rows.draw (list, row)
    rw [← cellForRowAt_eq hc hlist row, hmade] at hrows
    exact ⟨hrows, h.checkout, h.picker, h.allergy⟩
  | hideRow list row =>
    cases ha
    exact ⟨h.rows.hide _, h.checkout, h.picker, h.allergy⟩
  | tapRow reused cell row =>
    cases act_tapRow ha with
    | reload c list hc hlist =>
      refine ⟨?_, h.checkout, h.picker, h.allergy⟩
      dsimp only
      rw [reloadRows_eq hc hlist]
      exact h.rows.refresh_iff.mpr fun _ _ _ => rfl
    | switch c list l o hc hlist hl ho hm y hy =>
      have hlen : y.types.length = s.item.types.length := by
        rw [hy]
        exact length_types_setList s.item list _
      refine h.optionTapped (by rw [hy]; cases list <;> rfl) ?_
      rw [reloadRows_eq ((cellForItemAt_congr hlen reused cell).trans hc)
        ((cellList_congr hlen cell).trans hlist)]
      refine h.rows.refresh_iff.mpr fun k hk _ => ?_
      rw [hy]
      exact drawnRow_tapped hg hl ho hm hk
  | quantityStepper row value =>
    simp only [Display.act, Option.bind_eq_bind, Option.bind_eq_some_iff] at ha
    obtain ⟨_, -, o, ho, ha⟩ := ha
    split at ha
    · obtain ⟨item, hitem, ha⟩ := Option.bind_eq_some_iff.mp ha
      cases ha
      unfold OrderItem.quantityStepper at hitem
      split at hitem
      · cases hitem
        refine h.optionTapped rfl (h.rows.redraw fun k hk => ?_)
        obtain ⟨r, j⟩ := k
        cases r with
        | options =>
          have hj : row ≠ j := fun he => hk (by rw [he])
          unfold drawnRow
          dsimp only [OrderItem.getList, OrderItem.updatePrice]
          rw [Option.bind_some, Option.bind_some, getElem?_setQuantityAt]
          simp only [hj, if_false, Option.map_id']
        | choices i => rfl
      · cases hitem
    · cases ha
  | showAllergyCell =>
    cases ha
    refine ⟨h.rows, h.checkout, h.picker, fun _ t ht => ?_⟩
    cases ht
    rfl
  | hideAllergyCell =>
    cases ha
    refine ⟨h.rows, h.checkout, h.picker, fun _ t ht => ?_⟩
    cases ht
  | showCheckoutCell =>
    cases ha
    refine ⟨h.rows, fun c hc => ?_, h.picker, h.allergy⟩
    cases hc
    rfl
  | hideCheckoutCell =>
    cases ha
    refine ⟨h.rows, fun c hc => ?_, h.picker, h.allergy⟩
    cases hc
  | stepperTapped value =>
    simp only [Display.act, Option.bind_eq_bind, Option.bind_eq_some_iff] at ha
    obtain ⟨_, -, ha⟩ := ha
    split at ha
    · cases ha
      refine ⟨h.rows, fun c hc => ?_, h.picker, h.allergy⟩
      cases hc
      rfl
    · cases ha
  | chooseAllergiesTapped =>
    obtain ⟨_, -, rfl⟩ := Option.map_eq_some_iff.mp ha
    refine ⟨h.rows, h.checkout, fun view hv => ?_, fun hp => by cases hp⟩
    cases hv
    exact .none
  | showAllergy row =>
    simp only [Display.act, Option.bind_eq_bind, Option.bind_eq_some_iff] at ha
    obtain ⟨view, hview, a, hallergy, ha⟩ := ha
    cases ha
    refine ⟨h.rows, h.checkout, fun view' hv => ?_, fun hp => by cases hp⟩
    cases hv
    have hdraw := (h.picker view hview).draw row
    rw [drawnAllergy, hallergy] at hdraw
    exact hdraw
  | hideAllergy row =>
    obtain ⟨view, hview, rfl⟩ := Option.map_eq_some_iff.mp ha
    refine ⟨h.rows, h.checkout, fun view' hv => ?_, fun hp => by cases hp⟩
    cases hv
    exact (h.picker view hview).hide row
  | didSelectAllergy row =>
    simp only [Display.act, Option.bind_eq_bind, Option.bind_eq_some_iff] at ha
    obtain ⟨view, hview, _, -, item, hitem, ha⟩ := ha
    cases ha
    unfold OrderItem.toggleAllergy at hitem
    split at hitem
    · cases hitem
      refine ⟨h.rows, h.checkout, fun view' hv => ?_, fun hp => by cases hp⟩
      cases hv
      refine (h.picker view hview).refresh_iff.mpr fun j hj _ => ?_
      have hne : ¬ row = j := fun he => hj he.symm
      unfold drawnAllergy
      rw [List.getElem?_modify]
      simp only [hne, if_false, Option.map_eq_map, Option.map_id']
    · cases hitem
  | viewWillDisappear dismissed =>
    obtain ⟨view, hview, rfl⟩ := Option.map_eq_some_iff.mp ha
    refine ⟨h.rows, h.checkout, fun view' hv => ?_, fun _ t ht => ?_⟩
    · dsimp only at hv
      split at hv
      · cases hv
      · cases hv
        exact h.picker view hview
    · obtain ⟨_, -, rfl⟩ := Option.map_eq_some_iff.mp ht
      rfl

end Display

/-! ## The session -/

/-- **On screen.** In every state of a session, whatever was shown, hidden and
tapped in any order: the order item is one of a session, and every row, label
and check box on screen is what it would be drawn as now. The label of the
allergy cell is so whenever the picker is not in front of it. -/
theorem Display.current_reachable {P : Prepend} {item : Item} {names : List String} {s : Display}
    (h : (display P item names).Reachable s) :
    (detail item names).Reachable s.item ∧ s.Current P item.stock := by
  refine h.invariant
    (I := fun s => (detail item names).Reachable s.item ∧ s.Current P item.stock) ?_ ?_
  · rintro s ⟨x₀, h₀, rfl⟩
    refine ⟨.init h₀, .none, ?_, ?_, ?_⟩
    · intro c hc
      cases hc
    · intro view hv
      cases hv
    · intro _ t ht
      cases ht
  · rintro s e t - ⟨hr, hcur⟩ hs
    have hstep : s.step P item.stock e = some t := hs
    unfold Display.step at hstep
    split at hstep
    · rename_i hpick
      refine ⟨?_, hcur.act (radioGroups_reachable hr) hpick hstep⟩
      rcases Display.act_edits hstep with hitem | ⟨d, hshown, hedit⟩
      · rw [hitem]
        exact hr
      · exact hr.step ⟨hshown, hedit⟩
    · cases hstep

/-- The small size, the large size, then an allergy. -/
def largeNuts : List DisplayEvent :=
  [.showRow {} 2 0, .showRow {} 2 1, .showAllergyCell, .showCheckoutCell, .tapRow {} 2 0,
    .tapRow {} 2 1, .chooseAllergiesTapped, .showAllergy 0, .didSelectAllergy 0, .viewWillDisappear true]

theorem current_largeNuts : ∃ s, (display noPrepend mocha ["Nuts"]).Reachable s ∧
    s.allergyCell = some "Chosen Allergies: Nuts" ∧
    (s.rows (.choices 0, 0)).map (·.mark) = some (.checkBox false) ∧
    (s.rows (.choices 0, 1)).map (·.mark) = some (.checkBox true) ∧
    s.checkoutCell = some ⟨"1", "£3.30", true⟩ := by
  obtain ⟨x₀, h₀⟩ : ∃ x₀, createOrderItem mocha ["Nuts"] = some x₀ := ⟨_, rfl⟩
  obtain ⟨s, hrun, hpicker, hallergy, hsmall, hlarge, hcheckout, hlabel, hbox, hbox', hprice⟩ :
      ∃ s, (display noPrepend mocha ["Nuts"]).Run { item := x₀ } largeNuts s ∧
        s.picker = none ∧ s.allergyCell.isSome ∧ (s.rows (.choices 0, 0)).isSome ∧
        (s.rows (.choices 0, 1)).isSome ∧ s.checkoutCell.isSome ∧
        s.item.setChosenAllergies noPrepend = "Chosen Allergies: Nuts" ∧
        (drawnRow s.item (.choices 0, 0)).map (·.mark) = some (.checkBox false) ∧
        (drawnRow s.item (.choices 0, 1)).map (·.mark) = some (.checkBox true) ∧
        s.item.setUp mocha.stock = ⟨"1", "£3.30", true⟩ := by
    cases h₀
    refine ⟨_, LTS.run_of_exec rfl, rfl, rfl, rfl, rfl, rfl, ?_, rfl, rfl, ?_⟩
    · decide +kernel
    · decide +kernel
  have hreach := hrun.reachable (show ∃ y, createOrderItem mocha ["Nuts"] = some y ∧ _ from ⟨x₀, h₀, rfl⟩)
  obtain ⟨-, hcur⟩ := Display.current_reachable hreach
  obtain ⟨t, ht⟩ := Option.isSome_iff_exists.mp hallergy
  obtain ⟨c, hc⟩ := Option.isSome_iff_exists.mp hcheckout
  obtain ⟨small, hs⟩ := Option.isSome_iff_exists.mp hsmall
  obtain ⟨large, hl⟩ := Option.isSome_iff_exists.mp hlarge
  refine ⟨s, hreach, ?_, ?_, ?_, ?_⟩
  · rw [ht, hcur.allergy hpicker t ht, hlabel]
  · rw [hs, ← hcur.rows _ small hs, hbox]
  · rw [hl, ← hcur.rows _ large hl, hbox']
  · rw [hc, hcur.checkout c hc, hprice]

end QadsCafe
