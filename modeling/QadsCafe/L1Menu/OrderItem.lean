import QadsCafe.Core.Pence
import QadsCafe.L1Menu.Item

/-!
# Order items

An `OrderItem` is what the item-detail screen configures and the basket holds.
`createOrderItem` builds it from a menu item with forced casts: `none` is the
trap of one that fails. The allergy names come from the settings document.

The source's class is a reference type, and one screen session makes one
object, so the object's identity is the ghost `Tag.ref`. The other ghost
fields record where the object came from: the outlet whose menu was open and
the account that put it in a basket. No function of the source reads them.
-/
namespace QadsCafe

open Core

structure Tag where
  ref : Nat := 0
  menu : Outlet := .cafe
  uid : Option String := none
  deriving DecidableEq

/-- mirrors Helpers/Order.swift:199-202 -/
structure Allergy where
  name : String := ""
  isChosen : Bool := false
  deriving DecidableEq

/-- mirrors Helpers/Order.swift:206-211 (`Option`) -/
structure ItemOption where
  name : String := ""
  canHaveMultiple : Bool := false
  extraPrice : ℚ := 0
  quantity : Int := 0
  deriving DecidableEq

/-- mirrors Helpers/Order.swift:216-219 (`type`) -/
structure ItemType where
  name : String := ""
  choices : List ItemOption := []
  deriving DecidableEq

/-- mirrors Helpers/Order.swift:192-220 -/
structure OrderItem where
  refItem : Item := {}
  itemID : Option String := none
  itemName : Option String := none
  location : Option String := none
  allergies : List Allergy := []
  options : List ItemOption := []
  price : ℚ := 0
  quantity : Int := 1
  types : List ItemType := []
  tag : Tag := {}

/-- One entry of `item.options`: the three forced casts.
mirrors Helpers/Order.swift:234-239 -/
def makeOption (optionInfo : Dict Value) : Option ItemOption := do
  let name ← (optionInfo.lookup "name").bind Value.asString
  let canHaveMultiple ← (optionInfo.lookup "can_have_multiple").bind Value.asBool
  let extraPrice ← (optionInfo.lookup "extra_price").bind Value.asDouble
  return { name, canHaveMultiple, extraPrice, quantity := 0 }

/-- One entry of a type: its price is cast to a number.
mirrors Helpers/Order.swift:247-255 -/
def makeChoice (choice : String × Value) : Option ItemOption :=
  choice.2.asDouble.map fun extraPrice =>
    { name := choice.1, canHaveMultiple := false, extraPrice, quantity := 0 }

/-- mirrors Helpers/Order.swift:245-262 -/
def makeType (typ : String × Dict Value) : Option ItemType :=
  (typ.2.mapM makeChoice).map fun choices => { name := typ.1, choices }

/-- mirrors Helpers/Order.swift:223-269 and 296-316 -/
def createOrderItem (item : Item) (allergyNames : List String) : Option OrderItem := do
  let options ← (item.options.getD []).mapM fun entry => makeOption entry.2
  let types ← (item.types.getD []).mapM makeType
  return {
    refItem := item
    itemID := item.id
    itemName := item.name
    price := item.price.getD 0
    location := item.location
    options, types
    allergies := allergyNames.map fun name => { name } }

namespace OrderItem

/-- `price += option.extraPrice * Double(option.quantity)` -/
def addExtra (price : ℚ) (o : ItemOption) : ℚ := price + o.extraPrice * (o.quantity : ℚ)

/-- mirrors Helpers/Order.swift:278-294 -/
def updatePrice (x : OrderItem) : OrderItem :=
  let price := x.refItem.price.getD 0
  let price := x.options.foldl addExtra price
  let price := x.types.foldl (fun p t => t.choices.foldl addExtra p) price
  { x with price := roundPence (price * x.quantity) }

end OrderItem

end QadsCafe
