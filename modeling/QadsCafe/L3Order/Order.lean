import Mathlib.Data.Finmap
import QadsCafe.L1Menu.OrderItem

/-!
# Orders and the order document

`Order` is one of the two baskets of a user. `makeDataDictionary` encodes it
into the document the app writes; it goes through `configureItems`, which
repeats each item `quantity` times and leaves the last item's location on the
order. `none` is a trap: an index out of range, or the range `1...quantity`
with a quantity below 1.
-/
namespace QadsCafe

/-- mirrors Helpers/Order.swift:13-25 -/
structure Order where
  orderID : Option Nat := none
  archived : Bool := false
  cancelled : Bool := false
  email : Option String := none
  flagged : Bool := false
  items : List OrderItem := []
  location : Option String := none
  orderDate : Option Date := none
  price : ℚ := 0
  userCRSID : Option String := none
  note : Option String := none
  name : Option String := none

/-- The value of one key of an options dictionary. -/
structure OptionDic where
  name : String
  quantity : Int
  deriving DecidableEq

abbrev OptionsDic := Finmap fun _ : String => OptionDic

/-- One unit of an order document's "items" list. -/
structure ItemDic where
  id : Option String
  name : Option String
  options : OptionsDic
  deriving DecidableEq

/-- The dictionary handed to Firestore; a missing optional is written as null. -/
structure OrderDoc where
  archived : Bool
  cancelled : Bool
  email : Option String
  flagged : Bool
  items : List ItemDic
  location : Option String
  orderDatetime : Option Date
  price : ℚ
  user : Option String
  note : Option String
  name : Option String
  deriving DecidableEq

/-- The options dictionary: a later option of the same name replaces an
earlier one.
mirrors Helpers/Order.swift:149-155 -/
def optionsDic (options : List ItemOption) : OptionsDic :=
  options.foldl (fun dic o => dic.insert o.name ⟨o.name, o.quantity⟩) ∅

/-- mirrors Helpers/Order.swift:142-156 -/
def itemDic (x : OrderItem) : ItemDic := ⟨x.itemID, x.itemName, optionsDic x.options⟩

/-- The nested loop over items and units; the second component is
`self.location`.
mirrors Helpers/Order.swift:137-162 -/
def configureGo : List OrderItem → Option String → Option (List ItemDic × Option String)
  | [], location => some ([], location)
  | x :: xs, _ =>
    if x.quantity < 1 then none
    else (configureGo xs x.location).map fun r =>
      (List.replicate x.quantity.toNat (itemDic x) ++ r.1, r.2)

namespace Order

/-- mirrors Helpers/Order.swift:29-32 -/
def addItem (o : Order) (x : OrderItem) : Order :=
  { o with price := o.price + x.price, items := o.items ++ [x] }

/-- mirrors Helpers/Order.swift:34-37 -/
def removeItemAt (o : Order) (index : Nat) : Option Order :=
  o.items[index]?.map fun x =>
    { o with price := o.price - x.price, items := o.items.eraseIdx index }

/-- mirrors Helpers/Order.swift:132-164 -/
def configureItems (o : Order) : Option (List ItemDic × Order) :=
  (configureGo o.items o.location).map fun r => (r.1, { o with location := r.2 })

/-- `crsid` is `currentUser.crsid`.
mirrors Helpers/Order.swift:109-130 -/
def makeDataDictionary (crsid : Option String) (o : Order) : Option (OrderDoc × Order) :=
  o.configureItems.map fun (configuredItems, o) =>
    ({ archived := o.archived
       cancelled := o.cancelled
       email := o.email
       flagged := o.flagged
       items := configuredItems
       location := o.location
       orderDatetime := o.orderDate
       price := o.price
       user := crsid
       note := o.note
       name := o.name }, o)

/-- mirrors Helpers/Order.swift:166-184 -/
def resetOrder (o : Order) : Order :=
  let new : Order := {}
  { o with
    orderID := new.orderID
    archived := new.archived
    cancelled := new.cancelled
    email := new.email
    flagged := new.flagged
    items := new.items
    location := new.location
    orderDate := new.orderDate
    price := new.price
    userCRSID := new.userCRSID
    note := new.note
    name := new.name }

end Order

/-! ## What the encoder builds -/

/-- Every item can be encoded: no range `1...quantity` traps. -/
def Encodable (l : List OrderItem) : Prop := ∀ x ∈ l, 1 ≤ x.quantity

def units (x : OrderItem) : List ItemDic := List.replicate x.quantity.toNat (itemDic x)

/-- `self.location` after the loop: the last item's. -/
def lastLocation (location : Option String) (l : List OrderItem) : Option String :=
  (l.getLast?.map (·.location)).getD location

theorem lastLocation_cons (location : Option String) (x : OrderItem) (xs : List OrderItem) :
    lastLocation location (x :: xs) = lastLocation x.location xs := by
  cases xs <;> simp [lastLocation, List.getLast?_cons]

theorem configureGo_eq (l : List OrderItem) : ∀ location : Option String, Encodable l →
    configureGo l location = some (l.flatMap units, lastLocation location l) := by
  induction l with
  | nil => intro location _; rfl
  | cons x xs ih =>
    intro location h
    have hx : ¬ x.quantity < 1 := by have := h x List.mem_cons_self; omega
    have hxs : Encodable xs := fun y hy => h y (List.mem_cons_of_mem _ hy)
    simp [configureGo, hx, ih _ hxs, units, lastLocation_cons]

theorem configureGo_none {l : List OrderItem} (h : ¬ Encodable l) :
    ∀ location : Option String, configureGo l location = none := by
  induction l with
  | nil => exact absurd (by intro x hx; cases hx) h
  | cons x xs ih =>
    intro location
    simp only [configureGo]
    split
    · rfl
    · rename_i hx
      have hxs : ¬ Encodable xs := by
        intro hxs; apply h
        intro y hy
        rcases List.mem_cons.mp hy with rfl | hy
        · omega
        · exact hxs y hy
      simp [ih hxs]

/-- The document of an order, as `makeDataDictionary` lays it out. -/
def docOf (crsid : Option String) (o : Order) : OrderDoc where
  archived := o.archived
  cancelled := o.cancelled
  email := o.email
  flagged := o.flagged
  items := o.items.flatMap units
  location := lastLocation o.location o.items
  orderDatetime := o.orderDate
  price := o.price
  user := crsid
  note := o.note
  name := o.name

/-- **The encoder.** It traps exactly when some item has a quantity below 1;
otherwise it writes `docOf` and changes no field of the order but `location`. -/
theorem makeDataDictionary_eq (crsid : Option String) (o : Order) (h : Encodable o.items) :
    o.makeDataDictionary crsid =
      some (docOf crsid o, { o with location := lastLocation o.location o.items }) := by
  simp [Order.makeDataDictionary, Order.configureItems, configureGo_eq _ _ h, docOf]

theorem makeDataDictionary_none {crsid : Option String} {o : Order} (h : ¬ Encodable o.items) :
    o.makeDataDictionary crsid = none := by
  simp [Order.makeDataDictionary, Order.configureItems, configureGo_none h]

end QadsCafe
