import QadsCafe.Core.LTS
import QadsCafe.L1Menu.OrderItem

/-!
# The item-detail screen

One session of `ItemDetailsViewController` owns one `OrderItem`. Its collection
view has a title cell, the options cell, one cell for each type, the allergy
cell and the checkout cell; `getCellType` classifies the rows, and an
`OptionsCell` shows the list its `cellType` and `typeIndex` select.

`edit` is what one user action does to the order item; `none` is a trap (an
index out of range). `Shown` says that the screen offers the action: the row
is on screen, and a stepper sends values inside the range the storyboard
gives it. `detail item names` is the session as a transition system: its
reachable states are the selections a customer can make of `item`.
-/
namespace QadsCafe

open Core

/-- mirrors Helpers/Constants.swift:38-42 -/
inductive CellType where
  | optionCell | allergyCell | typeCell | titleCell | checkoutCell
  deriving DecidableEq, Repr

/-- mirrors ItemDetailsViewController.swift:38-51 -/
def getCellType (x : OrderItem) (row : Nat) : CellType :=
  let typeNum : Int := x.types.length
  if row = 0 then .titleCell
  else if row = 1 then .optionCell
  else if 0 ≤ (row : Int) - 2 ∧ (row : Int) - 2 < typeNum then .typeCell
  else if (row : Int) = typeNum + 2 then .allergyCell
  else .checkoutCell

/-- The state of an `OptionsCollectionViewCell` that its table view reads.
mirrors OptionsCollectionViewCell.swift:18-22 -/
structure OptionsCell where
  cellType : CellType := .optionCell
  typeIndex : Int := -1
  deriving DecidableEq, Repr

/-- The options or type cell shown at `row`, made from a reused cell; `none`
for the other cells.
mirrors ItemDetailsViewController.swift:73-96 and
OptionsCollectionViewCell.swift:25-37 -/
def cellForItemAt (reused : OptionsCell) (x : OrderItem) (row : Nat) : Option OptionsCell :=
  match getCellType x row with
  | .optionCell => some { reused with cellType := .optionCell }
  | .typeCell => some { cellType := .typeCell, typeIndex := (row : Int) - 2 }
  | _ => none

/-- `array[index]`; `none` is the trap of an index out of range. -/
def index {α : Type} (l : List α) (i : Int) : Option α := if 0 ≤ i then l[i.toNat]? else none

namespace OptionsCell

/-- mirrors OptionsCollectionViewCell.swift:39-46 -/
def getOptionList (c : OptionsCell) (x : OrderItem) : Option (List ItemOption) :=
  if c.cellType = .optionCell then some x.options
  else (index x.types c.typeIndex).map (·.choices)

/-- The deselection loop, from row `i` on: the new list and the rows that
were switched off.
mirrors OptionsCollectionViewCell.swift:107-112 -/
def deselectOthers : Nat → List ItemOption → List ItemOption × List Nat
  | _, [] => ([], [])
  | i, o :: os =>
    let (os', switched) := deselectOthers (i + 1) os
    if o.quantity ≠ 0 ∧ !o.canHaveMultiple then ({ o with quantity := 0 } :: os', i :: switched)
    else (o :: os', switched)

def setQuantityAt (row : Nat) (quantity : Int) (l : List ItemOption) : List ItemOption :=
  l.modify row fun o => { o with quantity }

/-- `currentOrderItem.options = l`, or the choices of the cell's type.
mirrors OptionsCollectionViewCell.swift:118-122 -/
def saveList (c : OptionsCell) (x : OrderItem) (l : List ItemOption) : OrderItem :=
  match c.cellType with
  | .optionCell => { x with options := l }
  | .typeCell =>
    { x with types := x.types.modify c.typeIndex.toNat fun t => { t with choices := l } }
  | _ => x

/-- mirrors OptionsCollectionViewCell.swift:98-126 -/
def switchSelectedTo (c : OptionsCell) (row : Nat) (x : OrderItem) :
    Option (OrderItem × List Nat) := do
  let optionList ← c.getOptionList x
  let option ← optionList[row]?
  let (optionList, switched) :=
    if option.quantity > 0 then (setQuantityAt row 0 optionList, [row])
    else
      let (optionList, switched) := deselectOthers 0 optionList
      (setQuantityAt row 1 optionList, switched ++ [row])
  return ((c.saveList x optionList).updatePrice, switched)

/-- mirrors OptionsCollectionViewCell.swift:79-96 -/
def didSelectRowAt (c : OptionsCell) (row : Nat) (x : OrderItem) : Option OrderItem := do
  let option ← (← c.getOptionList x)[row]?
  if option.canHaveMultiple then return x
  return (← c.switchSelectedTo row x).1

end OptionsCell

namespace OrderItem

/-- mirrors OptionTableViewCell.swift:69-75 -/
def quantityStepper (x : OrderItem) (row : Nat) (value : Int) : Option OrderItem :=
  if row < x.options.length then
    some (updatePrice { x with options := OptionsCell.setQuantityAt row value x.options })
  else none

/-- mirrors AllergyPickerViewController.swift:49-56 -/
def toggleAllergy (x : OrderItem) (row : Nat) : Option OrderItem :=
  if row < x.allergies.length then
    some { x with allergies := x.allergies.modify row fun a => { a with isChosen := !a.isChosen } }
  else none

/-- mirrors CheckoutCollectionViewCell.swift:49-53 -/
def stepperTapped (x : OrderItem) (value : Int) : OrderItem :=
  updatePrice { x with quantity := value }

end OrderItem

/-- What the customer can do on the screen: tap a table row of the options or
type cell at `cell` (made from the cell `reused`), step the quantity of an
option, tap an allergy, step the quantity of the item. -/
inductive Edit where
  | tapRow (reused : OptionsCell) (cell row : Nat)
  | quantityStepper (row : Nat) (value : Int)
  | tapAllergy (row : Nat)
  | stepperTapped (value : Int)

/-- The list a tap at `cell` acts on. -/
def shownList (x : OrderItem) (reused : OptionsCell) (cell : Nat) : Option (List ItemOption) :=
  (cellForItemAt reused x cell).bind fun c => c.getOptionList x

/-- The screen offers the action. Only a row that can have multiple shows the
option stepper (0 to 20, Main.storyboard:379); the item's goes from 1 to 10
(Main.storyboard:529). -/
def Shown (x : OrderItem) : Edit → Prop
  | .tapRow reused cell row => ∃ l, shownList x reused cell = some l ∧ row < l.length
  | .quantityStepper row value =>
    (∃ o, x.options[row]? = some o ∧ o.canHaveMultiple = true) ∧ 0 ≤ value ∧ value ≤ 20
  | .tapAllergy row => row < x.allergies.length
  | .stepperTapped value => 1 ≤ value ∧ value ≤ 10

def edit (x : OrderItem) : Edit → Option OrderItem
  | .tapRow reused cell row => (cellForItemAt reused x cell).bind fun c => c.didSelectRowAt row x
  | .quantityStepper row value => x.quantityStepper row value
  | .tapAllergy row => x.toggleAllergy row
  | .stepperTapped value => some (x.stepperTapped value)

/-- One session on `item`, with the allergy names of the settings document. -/
def detail (item : Item) (allergyNames : List String) : LTS OrderItem Edit where
  init x := createOrderItem item allergyNames = some x
  step x e y := Shown x e ∧ edit x e = some y

end QadsCafe
