import QadsCafe.Core.Stepper
import QadsCafe.L2Detail.Taps

/-!
# The steppers of the item-detail screen

The quantity of an option and of the item are each in two places: in the order
item, and in the `UIStepper` of the cell that shows it. `makeCell` and `setUp`
write the order item's quantity on the label but never to the stepper, so a
cell taken from the reuse queue, or a new one, counts from its own value.

`detailScreen item names` is the screen as a transition system over the order
item and the two pools of cells: the cells of the options with a stepper and
the checkout cells. Each pool is a system of `Core.steppers`.
-/
namespace QadsCafe

open Core

/-- mirrors Main.storyboard:379 -/
def optionRange : StepperRange := ⟨0, 20, 0, by decide, by decide, by decide⟩

/-- mirrors Main.storyboard:529 -/
def quantityRange : StepperRange := ⟨1, 10, 1, by decide, by decide, by decide⟩

structure DetailScreen where
  item : OrderItem
  optionCells : List (StepperCell Nat) := []
  checkoutCells : List (StepperCell Unit) := []

/-- Showing a row is also what a reload does. A cell hides when it leaves the
screen. -/
inductive ScreenEvent where
  | tapRow (reused : OptionsCell) (cell row : Nat)
  | tapAllergy (row : Nat)
  | showOption (row : Nat) (reuse : Option Nat)
  | hideOption (i : Nat)
  | pressOption (i : Nat) (p : Press)
  | showCheckout (reuse : Option Nat)
  | hideCheckout (i : Nat)
  | pressQuantity (i : Nat) (p : Press)

namespace DetailScreen

/-- The checkout cell on screen is set up again.
mirrors ItemDetailsViewController.swift:169-177 and CheckoutCollectionViewCell.swift:29 -/
def optionTapped (item : OrderItem) (cells : List (StepperCell Unit)) : List (StepperCell Unit) :=
  cells.map fun c => if c.shows = some () then { c with label := item.quantity } else c

/-- mirrors OptionTableViewCell.swift:36-75, OptionsCollectionViewCell.swift:56-96 and
CheckoutCollectionViewCell.swift:22-53 -/
def step (s : DetailScreen) : ScreenEvent → Option DetailScreen
  | .tapRow reused cell row => do
    let option ← (← shownList s.item reused cell)[row]?
    -- only reloads the row, which is a `showOption`
    if option.canHaveMultiple then return s
    let item ← edit s.item (.tapRow reused cell row)
    return { s with item, checkoutCells := optionTapped item s.checkoutCells }
  | .tapAllergy row => (edit s.item (.tapAllergy row)).map fun item => { s with item }
  | .showOption row reuse => do
    let option ← s.item.options[row]?
    if option.canHaveMultiple then
      (showRow optionRange row option.quantity s.optionCells reuse).map fun optionCells =>
        { s with optionCells }
    else none
  | .hideOption i => some { s with optionCells := hideCell s.optionCells i }
  | .pressOption i p => do
    let c ← s.optionCells[i]?
    let row ← c.shows
    match optionRange.press c.value p with
    | none => return s
    | some value =>
      let item ← s.item.quantityStepper row value
      let option ← item.options[row]?
      return { item
               optionCells := s.optionCells.modify i fun c =>
                 { c with value, label := option.quantity }
               checkoutCells := optionTapped item s.checkoutCells }
  | .showCheckout reuse =>
    (showRow quantityRange () s.item.quantity s.checkoutCells reuse).map fun checkoutCells =>
      { s with checkoutCells }
  | .hideCheckout i => some { s with checkoutCells := hideCell s.checkoutCells i }
  | .pressQuantity i p => do
    let c ← s.checkoutCells[i]?
    let _ ← c.shows
    match quantityRange.press c.value p with
    | none => return s
    | some value =>
      let item := s.item.stepperTapped value
      return { s with
        item, checkoutCells := s.checkoutCells.modify i fun c =>
          { c with value, label := item.quantity } }

end DetailScreen

def detailScreen (item : Item) (allergyNames : List String) : LTS DetailScreen ScreenEvent :=
  LTS.ofFn (fun s => ∃ x₀, createOrderItem item allergyNames = some x₀ ∧ s = { item := x₀ })
    DetailScreen.step

namespace DetailScreen

/-! ## The two pools -/

/-- The quantity of the option at `row`, if it has a stepper. -/
def optionQuantity (x : OrderItem) (row : Nat) : Int :=
  (x.options[row]?.filter (·.canHaveMultiple)).elim 0 (·.quantity)

def optionSteppers (s : DetailScreen) : Steppers Nat := ⟨optionQuantity s.item, s.optionCells⟩

def checkoutSteppers (s : DetailScreen) : Steppers Unit := ⟨fun _ => s.item.quantity, s.checkoutCells⟩

def optionEvent : ScreenEvent → Option (StepperEvent Nat)
  | .showOption row reuse => some (.showRow row reuse)
  | .hideOption i => some (.hide i)
  | .pressOption i p => some (.press i p)
  | _ => none

def checkoutEvent : ScreenEvent → Option (StepperEvent Unit)
  | .showCheckout reuse => some (.showRow () reuse)
  | .hideCheckout i => some (.hide i)
  | .pressQuantity i p => some (.press i p)
  | _ => none

/-- The option at `row` has a stepper. -/
def HasStepper (x : OrderItem) (row : Nat) : Prop :=
  ∃ o, x.options[row]? = some o ∧ o.canHaveMultiple = true

theorem optionQuantity_eq {x : OrderItem} {row : Nat} {o : ItemOption} (ho : x.options[row]? = some o)
    (hm : o.canHaveMultiple = true) : optionQuantity x row = o.quantity := by
  simp [optionQuantity, ho, Option.filter, hm]

/-- An option's stepper after `quantityStepper` on a row that has one. -/
theorem optionQuantity_set {x : OrderItem} {row : Nat} (h : HasStepper x row) (value : Int) :
    optionQuantity (x.setList .options (OptionsCell.setQuantityAt row value x.options)).updatePrice =
      Function.update (optionQuantity x) row value := by
  obtain ⟨o, ho, hm⟩ := h
  funext j
  show ((OptionsCell.setQuantityAt row value x.options)[j]?.filter (·.canHaveMultiple)).elim 0
    (·.quantity) = _
  rw [getElem?_setQuantityAt]
  by_cases hj : j = row
  · subst hj
    simp [ho, Option.filter, hm]
  · rw [Function.update_of_ne hj]
    simp only [Ne.symm hj, if_false, Option.map_id']
    rfl

/-- Options with a stepper that agree have the same quantities. -/
theorem optionQuantity_congr {x y : OrderItem}
    (h : ∀ (j : Nat) (p : ItemOption), p.canHaveMultiple = true →
      (y.options[j]? = some p ↔ x.options[j]? = some p)) : optionQuantity y = optionQuantity x := by
  funext j
  have hsome : ∀ p, y.options[j]?.filter (·.canHaveMultiple) = some p ↔
      x.options[j]?.filter (·.canHaveMultiple) = some p := by
    intro p
    simp only [Option.filter_eq_some_iff]
    constructor
    · rintro ⟨hp, hm⟩
      exact ⟨(h j p hm).mp hp, hm⟩
    · rintro ⟨hp, hm⟩
      exact ⟨(h j p hm).mpr hp, hm⟩
  unfold optionQuantity
  rw [Option.ext hsome]

theorem HasStepper.sameMenu {x y : OrderItem} (h : SameMenu x y) {row : Nat} (hx : HasStepper x row) :
    HasStepper y row := by
  obtain ⟨o, ho, hm⟩ := hx
  have hrow := congrArg (·[row]?) h.options
  simp only [List.getElem?_map, ho, Option.map_some, Option.map_eq_some_iff] at hrow
  obtain ⟨p, hp, hblank⟩ := hrow
  exact ⟨p, hp, (congrArg ItemOption.canHaveMultiple hblank).trans hm⟩

/-! ## One step -/

/-- The pools are sound, and only rows with a stepper are in the option cells. -/
structure Sound (s : DetailScreen) : Prop where
  option : (optionSteppers s).Inv optionRange
  checkout : (checkoutSteppers s).Inv quantityRange
  rows : ∀ (i : Nat) (c : StepperCell Nat) (row : Nat), s.optionCells[i]? = some c →
    c.shows = some row → HasStepper s.item row

/-- What a step of the screen is for one pool. -/
def Follows {R : Type} [DecidableEq R] (r : StepperRange) (k : Option (StepperEvent R))
    (s t : Steppers R) : Prop :=
  match k with
  | none => t = s
  | some k => s.step r k = some t

theorem optionTapped_eq {s : DetailScreen} (hs : (checkoutSteppers s).Inv quantityRange)
    {item : OrderItem} (hq : item.quantity = s.item.quantity) :
    optionTapped item s.checkoutCells = s.checkoutCells := by
  unfold optionTapped
  conv_rhs => rw [← List.map_id s.checkoutCells]
  refine List.map_congr_left fun c hc => ?_
  obtain ⟨i, hi⟩ := List.mem_iff_getElem?.mp hc
  split
  · rename_i hrow
    have hl : c.label = s.item.quantity := hs.label i c () hi hrow
    rw [hq, ← hl]
    rfl
  · rfl

/-- A tap leaves the quantities with a stepper alone. -/
theorem Edited.quantities {x y : OrderItem} {e : Edit} (h : Edited x e y)
    (he : (∃ reused cell row, e = .tapRow reused cell row) ∨ ∃ row, e = .tapAllergy row) :
    optionQuantity y = optionQuantity x ∧ y.quantity = x.quantity := by
  cases h with
  | same => exact ⟨rfl, rfl⟩
  | tap _ _ row r l o hl ho hm =>
    cases r with
    | options =>
      cases hl
      exact ⟨optionQuantity_congr fun j p hpm => tapped_multiple ho hm hpm, rfl⟩
    | choices => exact ⟨rfl, rfl⟩
  | allergy => exact ⟨rfl, rfl⟩
  | option => rcases he with ⟨_, _, _, he⟩ | ⟨_, he⟩ <;> cases he
  | quantity => rcases he with ⟨_, _, _, he⟩ | ⟨_, he⟩ <;> cases he

/-- `pressOption` on a cell that shows a row. -/
theorem pressOption_eq {s : DetailScreen} {i : Nat} {c : StepperCell Nat} {row : Nat}
    (hc : s.optionCells[i]? = some c) (hrow : c.shows = some row) (hm : HasStepper s.item row)
    (p : Press) :
    s.step (.pressOption i p) = some (match optionRange.press c.value p with
      | none => s
      | some value =>
        let item := (s.item.setList .options
          (OptionsCell.setQuantityAt row value s.item.options)).updatePrice
        { item
          optionCells := s.optionCells.modify i fun c => { c with value, label := value }
          checkoutCells := optionTapped item s.checkoutCells }) := by
  obtain ⟨o, ho, -⟩ := hm
  have hlt := (List.getElem?_eq_some_iff.mp ho).1
  simp only [step, hc, hrow, Option.bind_eq_bind, Option.bind_some, Option.pure_def]
  cases optionRange.press c.value p with
  | none => rfl
  | some value =>
    have hopt : (s.item.setList .options
        (OptionsCell.setQuantityAt row value s.item.options)).updatePrice.options[row]? =
          some { o with quantity := value } := by
      show (OptionsCell.setQuantityAt row value s.item.options)[row]? = _
      rw [getElem?_setQuantityAt, ho, Option.map_some, if_pos rfl]
    simp only [OrderItem.quantityStepper, if_pos hlt, Option.bind_some]
    have hopt' : (OrderItem.updatePrice { s.item with
        options := OptionsCell.setQuantityAt row value s.item.options }).options[row]? = _ := hopt
    rw [hopt', Option.bind_some]
    rfl

theorem pressQuantity_eq {s : DetailScreen} {i : Nat} {c : StepperCell Unit}
    (hc : s.checkoutCells[i]? = some c) (hrow : c.shows = some ()) (p : Press) :
    s.step (.pressQuantity i p) = some (match quantityRange.press c.value p with
      | none => s
      | some value =>
        { s with
          item := s.item.stepperTapped value
          checkoutCells := s.checkoutCells.modify i fun c => { c with value, label := value } }) := by
  simp only [step, hc, hrow, Option.bind_eq_bind, Option.bind_some, Option.pure_def]
  cases quantityRange.press c.value p <;> rfl

/-- What a step of the screen is for the two pools and for the menu. -/
structure Pools (s t : DetailScreen) (e : ScreenEvent) : Prop where
  option : Follows optionRange (optionEvent e) s.optionSteppers t.optionSteppers
  checkout : Follows quantityRange (checkoutEvent e) s.checkoutSteppers t.checkoutSteppers
  menu : SameMenu s.item t.item

/-- Taps leave both pools alone, whether or not the checkout cell is set up
again. -/
theorem tap_steppers {s : DetailScreen} {edit : Edit} {item : OrderItem}
    (h : Edited s.item edit item)
    (he : (∃ reused cell row, edit = .tapRow reused cell row) ∨ ∃ row, edit = .tapAllergy row)
    {cells : List (StepperCell Unit)} (hcells : item.quantity = s.item.quantity → cells = s.checkoutCells) :
    (⟨item, s.optionCells, cells⟩ : DetailScreen).optionSteppers = s.optionSteppers ∧
      (⟨item, s.optionCells, cells⟩ : DetailScreen).checkoutSteppers = s.checkoutSteppers := by
  obtain ⟨hopt, hq⟩ := Edited.quantities h he
  constructor
  · show Steppers.mk (optionQuantity item) s.optionCells = ⟨optionQuantity s.item, s.optionCells⟩
    rw [hopt]
  · show Steppers.mk (fun _ => item.quantity) cells = ⟨fun _ => s.item.quantity, s.checkoutCells⟩
    rw [hq, hcells hq]

theorem tapRow_pools {s t : DetailScreen} (hs : s.Sound) {reused : OptionsCell} {cell row : Nat}
    (h : s.step (.tapRow reused cell row) = some t) : Pools s t (.tapRow reused cell row) := by
  simp only [step, Option.bind_eq_bind, Option.bind_eq_some_iff] at h
  obtain ⟨l, hl, o, ho, h⟩ := h
  split at h
  · cases h
    exact ⟨rfl, rfl, .refl _⟩
  · obtain ⟨item, he, h⟩ := Option.bind_eq_some_iff.mp h
    cases h
    have hshown : Shown s.item (.tapRow reused cell row) :=
      ⟨l, hl, (List.getElem?_eq_some_iff.mp ho).1⟩
    have hedited := edit_cases hshown he
    obtain ⟨hopt, hcheckout⟩ :=
      tap_steppers hedited (.inl ⟨_, _, _, rfl⟩) (optionTapped_eq hs.checkout)
    exact ⟨hopt, hcheckout, hedited.sameMenu⟩

theorem tapAllergy_pools {s t : DetailScreen} {row : Nat} (h : s.step (.tapAllergy row) = some t) :
    Pools s t (.tapAllergy row) := by
  obtain ⟨item, he, rfl⟩ := Option.map_eq_some_iff.mp h
  have hshown : Shown s.item (.tapAllergy row) := by
    simp only [edit, OrderItem.toggleAllergy] at he
    split at he
    · assumption
    · cases he
  have hedited := edit_cases hshown he
  obtain ⟨hopt, hcheckout⟩ := tap_steppers hedited (.inr ⟨_, rfl⟩) fun _ => Eq.refl s.checkoutCells
  exact ⟨hopt, hcheckout, hedited.sameMenu⟩

theorem showOption_cases {s t : DetailScreen} {row : Nat} {reuse : Option Nat}
    (h : s.step (.showOption row reuse) = some t) : ∃ o cells, s.item.options[row]? = some o ∧
      o.canHaveMultiple = true ∧ showRow optionRange row o.quantity s.optionCells reuse = some cells ∧
      t = { s with optionCells := cells } := by
  simp only [step, Option.bind_eq_bind, Option.bind_eq_some_iff] at h
  obtain ⟨o, ho, h⟩ := h
  split at h
  · rename_i hm
    obtain ⟨cells, hcells, rfl⟩ := Option.map_eq_some_iff.mp h
    exact ⟨o, cells, ho, hm, hcells, rfl⟩
  · cases h

/-- The stepper of the option acts, and the checkout cell is set up again with
the quantity it had. -/
theorem pressOption_pools {s t : DetailScreen} (hs : s.Sound) {i : Nat} {p : Press}
    (h : s.step (.pressOption i p) = some t) : Pools s t (.pressOption i p) := by
  obtain ⟨c, hc, row, hrow⟩ : ∃ c, s.optionCells[i]? = some c ∧ ∃ row, c.shows = some row := by
    simp only [step, Option.bind_eq_bind, Option.bind_eq_some_iff] at h
    obtain ⟨c, hc, row, hrow, -⟩ := h
    exact ⟨c, hc, row, hrow⟩
  have hm := hs.rows i c row hc hrow
  rw [pressOption_eq hc hrow hm, Option.some.injEq] at h
  have hpressed := Steppers.pressed_eq (s := s.optionSteppers) hc hrow optionRange p
  cases hp : optionRange.press c.value p with
  | none =>
    rw [hp] at h hpressed
    subst h
    exact ⟨hpressed, rfl, .refl _⟩
  | some value =>
    rw [hp] at h hpressed
    subst h
    refine ⟨hpressed.trans ?_, ?_, ?_⟩
    · simp only [Option.map_some, Option.getD_some, Steppers.sent, optionSteppers,
        optionQuantity_set hm]
    · have hq : (s.item.setList .options
          (OptionsCell.setQuantityAt row value s.item.options)).updatePrice.quantity =
            s.item.quantity := rfl
      simp only [Follows, checkoutEvent, checkoutSteppers, optionTapped_eq hs.checkout hq, hq]
    · exact (SameMenu.setList (r := .options) rfl (blank_setQuantityAt row value _)).updatePrice

theorem pressQuantity_pools {s t : DetailScreen} {i : Nat} {p : Press}
    (h : s.step (.pressQuantity i p) = some t) : Pools s t (.pressQuantity i p) := by
  obtain ⟨c, hc, hrow⟩ : ∃ c, s.checkoutCells[i]? = some c ∧ c.shows = some () := by
    simp only [step, Option.bind_eq_bind, Option.bind_eq_some_iff] at h
    obtain ⟨c, hc, row, hrow, -⟩ := h
    exact ⟨c, hc, hrow⟩
  rw [pressQuantity_eq hc hrow, Option.some.injEq] at h
  have hpressed := Steppers.pressed_eq (s := s.checkoutSteppers) hc hrow quantityRange p
  cases hp : quantityRange.press c.value p with
  | none =>
    rw [hp] at h hpressed
    subst h
    exact ⟨rfl, hpressed, .refl _⟩
  | some value =>
    rw [hp] at h hpressed
    subst h
    refine ⟨rfl, hpressed.trans ?_, ?_⟩
    · simp only [Option.map_some, Option.getD_some, Steppers.sent, checkoutSteppers,
        Option.some.injEq, Steppers.mk.injEq, and_true]
      funext u
      rw [Function.update_self]
      rfl
    · have hmenu : SameMenu s.item { s.item with quantity := value } :=
        ⟨rfl, rfl, rfl, rfl, rfl, rfl, rfl, rfl⟩
      exact hmenu.updatePrice

/-- **One step** of the screen is a step of one pool, and keeps the rows that
have a stepper. -/
theorem step_pools {s t : DetailScreen} {e : ScreenEvent} (hs : s.Sound) (h : s.step e = some t) :
    Pools s t e := by
  cases e with
  | tapRow => exact tapRow_pools hs h
  | tapAllergy => exact tapAllergy_pools h
  | showOption row reuse =>
    obtain ⟨o, cells, ho, hm, hcells, rfl⟩ := showOption_cases h
    refine ⟨?_, rfl, .refl _⟩
    rw [← optionQuantity_eq ho hm] at hcells
    simp only [Follows, optionEvent, Steppers.step, optionSteppers, hcells, Option.map_some]
  | pressOption => exact pressOption_pools hs h
  | showCheckout reuse =>
    obtain ⟨cells, hcells, rfl⟩ := Option.map_eq_some_iff.mp h
    refine ⟨rfl, ?_, .refl _⟩
    simp only [Follows, checkoutEvent, Steppers.step, checkoutSteppers, hcells, Option.map_some]
  | pressQuantity => exact pressQuantity_pools h
  | hideOption i | hideCheckout i =>
    cases h
    exact ⟨rfl, rfl, .refl _⟩

/-! ## A whole session -/

theorem Follows.inv {R : Type} [DecidableEq R] {r : StepperRange} {k : Option (StepperEvent R)}
    {s t : Steppers R} (h : Follows r k s t) (hs : s.Inv r) : t.Inv r := by
  cases k with
  | none => rw [show t = s from h]; exact hs
  | some k => exact Steppers.Inv.step hs h

theorem Sound.step {s t : DetailScreen} {e : ScreenEvent} (hs : s.Sound) (h : s.step e = some t) :
    t.Sound := by
  obtain ⟨ho, hc, hmenu⟩ := step_pools hs h
  refine ⟨ho.inv hs.option, hc.inv hs.checkout, fun i c row hcell hrow => ?_⟩
  refine HasStepper.sameMenu hmenu ?_
  cases hk : optionEvent e with
  | none =>
    rw [hk] at ho
    have hcells : t.optionCells = s.optionCells := congrArg Steppers.cells ho
    exact hs.rows i c row (hcells ▸ hcell) hrow
  | some k =>
    rw [hk] at ho
    rcases Steppers.shows_step (t := t.optionSteppers) ho hcell hrow with ⟨reuse, rfl⟩ | ⟨j, a, ha, hra⟩
    · cases e with
      | showOption row' reuse' =>
        cases hk
        obtain ⟨o, -, ho, hm, -⟩ := showOption_cases h
        exact ⟨o, ho, hm⟩
      | _ => cases hk
    · exact hs.rows j a row ha hra

theorem sound_reachable {item : Item} {names : List String} {s : DetailScreen}
    (h : (detailScreen item names).Reachable s) : s.Sound := by
  refine h.invariant (I := Sound) ?_ fun s e t _ hi hs => Sound.step hi hs
  rintro s ⟨x₀, h₀, rfl⟩
  have hc := createOrderItem_created h₀
  refine ⟨⟨fun row => ?_, ?_, ?_, ?_⟩, ⟨fun _ => ?_, ?_, ?_, ?_⟩, ?_⟩
  · have hzero : optionQuantity x₀ row = 0 := by
      unfold optionQuantity
      cases ho : x₀.options[row]?.filter (·.canHaveMultiple) with
      | none => rfl
      | some o => exact hc.option_quantity o (List.mem_of_getElem? (Option.filter_eq_some_iff.mp ho).1)
    show (0 : Int) ≤ optionQuantity x₀ row ∧ optionQuantity x₀ row ≤ 20
    rw [hzero]
    decide
  · intro i c hi; cases hi
  · intro i c row hi; cases hi
  · intro i j c d row hi; cases hi
  · show (1 : Int) ≤ x₀.quantity ∧ x₀.quantity ≤ 10
    rw [hc.quantity]
    decide
  · intro i c hi; cases hi
  · intro i c row hi; cases hi
  · intro i j c d row hi; cases hi
  · intro i c row hi; cases hi

/-- Every row shown, and every reload of one, gets a cell whose stepper has the
quantity on display. -/
def StartsAtQuantity (s : DetailScreen) : ScreenEvent → Prop
  | .showOption row reuse =>
    startValue optionRange s.optionCells reuse = s.item.options[row]?.map (·.quantity)
  | .showCheckout reuse => startValue quantityRange s.checkoutCells reuse = some s.item.quantity
  | _ => True

theorem startsAtQuantity_iff {s t : DetailScreen} {e : ScreenEvent} (h : s.step e = some t) :
    StartsAtQuantity s e ↔
      (∀ k, optionEvent e = some k → ShowsValue optionRange s.optionSteppers k) ∧
      ∀ k, checkoutEvent e = some k → ShowsValue quantityRange s.checkoutSteppers k := by
  cases e with
  | showOption row reuse =>
    obtain ⟨o, -, ho, hm, -⟩ := showOption_cases h
    have hq : s.optionSteppers.quantity row = o.quantity := optionQuantity_eq ho hm
    simp only [StartsAtQuantity, optionEvent, checkoutEvent, ho, Option.map_some, Option.some.injEq,
      forall_eq', reduceCtorEq, false_implies, implies_true, and_true, ShowsValue, hq]
    rfl
  | showCheckout reuse => simp [StartsAtQuantity, optionEvent, checkoutEvent, ShowsValue, checkoutSteppers]
  | _ => simp [StartsAtQuantity, optionEvent, checkoutEvent, ShowsValue]

/-- Both pools count from their labels. -/
def InStep (s : DetailScreen) : Prop := s.optionSteppers.InStep ∧ s.checkoutSteppers.InStep

theorem Follows.inStep {R : Type} [DecidableEq R] {r : StepperRange} {k : Option (StepperEvent R)}
    {s t : Steppers R} (h : Follows r k s t) (hs : s.Inv r) (hin : s.InStep)
    (hk : ∀ e, k = some e → ShowsValue r s e) : t.InStep := by
  cases k with
  | none => rw [show t = s from h]; exact hin
  | some e => exact Steppers.inStep_step hs h hin (hk e rfl)

theorem InStep.step {s t : DetailScreen} {e : ScreenEvent} (hs : s.Sound) (hin : s.InStep)
    (h : s.step e = some t) (hv : StartsAtQuantity s e) : t.InStep := by
  obtain ⟨ho, hc, -⟩ := step_pools hs h
  obtain ⟨hvo, hvc⟩ := (startsAtQuantity_iff h).mp hv
  exact ⟨ho.inStep hs.option hin.1 hvo, hc.inStep hs.checkout hin.2 hvc⟩

theorem not_inStep_step {s t : DetailScreen} {e : ScreenEvent} (hs : s.Sound)
    (h : s.step e = some t) (hv : ¬ StartsAtQuantity s e) : ¬ t.InStep := by
  obtain ⟨ho, hc, -⟩ := step_pools hs h
  rintro ⟨hino, hinc⟩
  refine hv ((startsAtQuantity_iff h).mpr ⟨fun k hk => ?_, fun k hk => ?_⟩)
  · by_contra hn
    rw [hk] at ho
    exact Steppers.not_inStep_step ho hn hino
  · by_contra hn
    rw [hk] at hc
    exact Steppers.not_inStep_step hc hn hinc

/-- A plus press on a cell that displays `q` sets the quantity to `q + 1`, and
a minus press to `q - 1`, up to the ends of the range. -/
structure CountsFromLabel (s : DetailScreen) : Prop where
  option : ∀ (i : Nat) (c : StepperCell Nat) (row : Nat), s.optionCells[i]? = some c →
    c.shows = some row →
    (c.label < 20 → ∃ t, s.step (.pressOption i .plus) = some t ∧
      t.item.options[row]?.map (·.quantity) = some (c.label + 1)) ∧
    (0 < c.label → ∃ t, s.step (.pressOption i .minus) = some t ∧
      t.item.options[row]?.map (·.quantity) = some (c.label - 1))
  quantity : ∀ (i : Nat) (c : StepperCell Unit), s.checkoutCells[i]? = some c → c.shows = some () →
    (c.label < 10 → ∃ t, s.step (.pressQuantity i .plus) = some t ∧ t.item.quantity = c.label + 1) ∧
    (1 < c.label → ∃ t, s.step (.pressQuantity i .minus) = some t ∧ t.item.quantity = c.label - 1)

theorem pressOption_iff {s : DetailScreen} (hs : s.Sound) {i : Nat} {c : StepperCell Nat} {row : Nat}
    (hc : s.optionCells[i]? = some c) (hrow : c.shows = some row) (p : Press) (q : Int) :
    (∃ t, s.step (.pressOption i p) = some t ∧ t.item.options[row]?.map (·.quantity) = some q) ↔
      ∃ t, s.optionSteppers.pressed optionRange i p = some t ∧ t.quantity row = q := by
  have hm := hs.rows i c row hc hrow
  obtain ⟨t, ht⟩ : ∃ t, s.step (.pressOption i p) = some t := ⟨_, pressOption_eq hc hrow hm p⟩
  obtain ⟨hpressed, -, hmenu⟩ := step_pools hs ht
  have hp : s.optionSteppers.pressed optionRange i p = some t.optionSteppers := hpressed
  obtain ⟨o, ho, hom⟩ := HasStepper.sameMenu hmenu hm
  have hq : t.optionSteppers.quantity row = o.quantity := optionQuantity_eq ho hom
  simp only [ht, hp, Option.some.injEq, exists_eq_left', ho, Option.map_some, hq]

theorem pressQuantity_iff {s : DetailScreen} (hs : s.Sound) {i : Nat} {c : StepperCell Unit}
    (hc : s.checkoutCells[i]? = some c) (hrow : c.shows = some ()) (p : Press) (q : Int) :
    (∃ t, s.step (.pressQuantity i p) = some t ∧ t.item.quantity = q) ↔
      ∃ t, s.checkoutSteppers.pressed quantityRange i p = some t ∧ t.quantity () = q := by
  obtain ⟨t, ht⟩ : ∃ t, s.step (.pressQuantity i p) = some t := ⟨_, pressQuantity_eq hc hrow p⟩
  obtain ⟨-, hpressed, -⟩ := step_pools hs ht
  have hp : s.checkoutSteppers.pressed quantityRange i p = some t.checkoutSteppers := hpressed
  simp only [ht, hp, Option.some.injEq, exists_eq_left']
  rfl

theorem countsFromLabel_iff {s : DetailScreen} (hs : s.Sound) : s.CountsFromLabel ↔ s.InStep := by
  unfold InStep
  rw [← Steppers.counts_iff hs.option, ← Steppers.counts_iff hs.checkout]
  constructor
  · rintro ⟨ho, hq⟩
    refine ⟨fun i c row hc hrow => ?_, fun i c row hc hrow => ?_⟩
    · rw [← pressOption_iff hs hc hrow, ← pressOption_iff hs hc hrow]
      exact ho i c row hc hrow
    · rw [← pressQuantity_iff hs hc hrow, ← pressQuantity_iff hs hc hrow]
      exact hq i c hc hrow
  · rintro ⟨ho, hq⟩
    refine ⟨fun i c row hc hrow => ?_, fun i c hc hrow => ?_⟩
    · rw [pressOption_iff hs hc hrow, pressOption_iff hs hc hrow]
      exact ho i c row hc hrow
    · rw [pressQuantity_iff hs hc hrow, pressQuantity_iff hs hc hrow]
      exact hq i c () hc hrow

/-- **Counting from the screen.** In every run that shows each row in a cell
with its quantity, every press counts from the quantity on display; after a
step that shows a row in any other cell, some press does not. -/
theorem counts_from_screen (item : Item) (names : List String) (s : DetailScreen) :
    (((detailScreen item names).when StartsAtQuantity).Reachable s → s.CountsFromLabel) ∧
    ∀ e t, (detailScreen item names).Reachable s → (detailScreen item names).step s e t →
      ¬ StartsAtQuantity s e → ¬ t.CountsFromLabel := by
  refine ⟨fun h => ?_, fun e t hr hs hv => ?_⟩
  · rw [countsFromLabel_iff (sound_reachable h.of_when)]
    refine h.invariant (I := InStep) ?_ fun s e t hr hin hs => ?_
    · rintro s ⟨x₀, -, rfl⟩
      constructor
      · intro i c row hi; cases hi
      · intro i c row hi; cases hi
    · exact InStep.step (sound_reachable hr.of_when) hin hs.1 hs.2
  · have hsound := sound_reachable hr
    rw [countsFromLabel_iff (Sound.step hsound hs)]
    exact not_inStep_step hsound hs hv

/-- Show the extra shots, press plus three times, reload the row in a new cell. -/
def threeShots : List ScreenEvent :=
  [.showOption 0 none, .pressOption 0 .plus, .pressOption 0 .plus, .pressOption 0 .plus,
    .showOption 0 none]

/-- **A reloaded row counts from its cell.** It displays three shots, and a
plus press makes it one. -/
theorem reload_counts_from_cell : ∃ s c t, (detailScreen mocha []).Reachable s ∧
    s.optionCells[1]? = some c ∧ c.shows = some 0 ∧ c.label = 3 ∧
      s.step (.pressOption 1 .plus) = some t ∧ t.item.options[0]?.map (·.quantity) = some 1 := by
  have hrun : (detailScreen mocha []).Run { item := mochaOpened } threeShots _ := LTS.run_of_exec rfl
  exact ⟨_, _, _, hrun.reachable ⟨mochaOpened, rfl, rfl⟩, rfl, rfl, rfl, rfl, rfl⟩

end DetailScreen

end QadsCafe
