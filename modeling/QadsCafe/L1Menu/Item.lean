import Mathlib.Algebra.Order.Ring.Int
import Mathlib.Data.Rat.Defs

/-!
# Menu items

A menu document is an untyped map. `Item.populateItem` reads the fields the
app knows with conditional casts, so a field of the wrong type reads as
missing.

A `Dict` lists the entries of a Swift dictionary in its iteration order. Two
Swift strings are equal if they are canonically equivalent, so a `String` here
stands for a Swift string up to canonical equivalence; no definition looks at
more than equality except where it says so.

Firestore numbers arrive as `NSNumber`, an integer as one of 64 bits. A cast
takes the number only if the type can hold it exactly; a boolean bridges to
the numbers 0 and 1 and back. Amounts are exact rationals.

The documents of a collection are numbered; a number stands for Firestore's
document ID string. `Date` counts ticks of the clock.
-/
namespace QadsCafe

abbrev Dict (α : Type) := List (String × α)

abbrev Date := Nat

/-- A Firestore field value (`Any`). -/
inductive Value where
  | null
  | bool (b : Bool)
  | integer (n : Int64)
  | double (q : ℚ)
  | string (s : String)
  | array (vs : List Value)
  | map (m : List (String × Value))

namespace Value

/-- `as? String` -/
def asString : Value → Option String
  | .string s => some s
  | _ => none

/-- `as? Bool` -/
def asBool : Value → Option Bool
  | .bool b => some b
  | .integer n => if n = 0 then some false else if n = 1 then some true else none
  | .double q => if q = 0 then some false else if q = 1 then some true else none
  | _ => none

/-- `Double(exactly:)` holds the integer: it is a multiple of a power of two by
at most 2^53. -/
def fitsDouble (n : Int64) : Bool :=
  (List.range 11).any fun k => n.toInt % 2 ^ k = 0 && n.toInt.natAbs ≤ 2 ^ (53 + k)

/-- What Double holds: a significand of at most 53 bits, shifted. -/
theorem fitsDouble_iff (n : Int64) :
    fitsDouble n = true ↔ ∃ m : Int, ∃ k : Nat, m.natAbs ≤ 2 ^ 53 ∧ n.toInt = m * 2 ^ k := by
  simp only [fitsDouble, List.any_eq_true, List.mem_range, Bool.and_eq_true, decide_eq_true_eq]
  have hpow : ∀ k : Nat, ((2 : Int) ^ k).natAbs = 2 ^ k := fun k => by
    rw [Int.natAbs_pow]
    rfl
  constructor
  · rintro ⟨k, -, hdvd, hle⟩
    obtain ⟨m, hm⟩ := Int.dvd_of_emod_eq_zero hdvd
    refine ⟨m, k, ?_, by rw [hm, Int.mul_comm]⟩
    rw [hm, Int.natAbs_mul, hpow, Nat.pow_add, Nat.mul_comm] at hle
    exact Nat.le_of_mul_le_mul_right hle (Nat.two_pow_pos k)
  · rintro ⟨m, k, hm, hn⟩
    rcases Nat.lt_or_ge k 11 with hk | hk
    · refine ⟨k, hk, ?_, ?_⟩
      · rw [hn, Int.mul_emod_left]
      · rw [hn, Int.natAbs_mul, hpow, Nat.pow_add]
        exact Nat.mul_le_mul_right _ hm
    · -- a shift by 10 or more leaves no 64-bit integer out
      refine ⟨10, by decide, ?_, ?_⟩
      · have hsplit : m * 2 ^ k = m * 2 ^ (k - 10) * 2 ^ 10 := by
          rw [Int.mul_assoc, ← Int.pow_add, Nat.sub_add_cancel (by omega)]
        rw [hn, hsplit, Int.mul_emod_left]
      · have hlo := n.le_toInt
        have hhi := n.toInt_lt
        omega

example : fitsDouble 9007199254740993 = false := by decide

/-- `as? Double` -/
def asDouble : Value → Option ℚ
  | .integer n => if fitsDouble n then some n.toInt else none
  | .double q => some q
  | .bool b => some (if b then 1 else 0)
  | _ => none

/-- `as? [String]` -/
def asStrings : Value → Option (List String)
  | .array vs => vs.mapM asString
  | _ => none

/-- `as? [String: Any]` -/
def asMap : Value → Option (Dict Value)
  | .map m => some m
  | _ => none

/-- `as? [String: [String: Any]]` -/
def asMaps : Value → Option (Dict (Dict Value))
  | .map m => m.mapM fun e => e.2.asMap.map fun d => (e.1, d)
  | _ => none

end Value

/-- mirrors Helpers/Item.swift:44-54 -/
structure Item where
  allergens : Option (List String) := none
  category : Option String := none
  desc : Option String := none
  location : Option String := none
  name : Option String := none
  options : Option (Dict (Dict Value)) := none
  types : Option (Dict (Dict Value)) := none
  price : Option ℚ := none
  stock : Option Bool := none
  id : Option String := none

/-- mirrors Helpers/Item.swift:58-69 -/
def Item.populateItem (id : String) (doc : Dict Value) : Item where
  allergens := (doc.lookup "allergens").bind Value.asStrings
  category := (doc.lookup "category").bind Value.asString
  desc := (doc.lookup "description").bind Value.asString
  location := (doc.lookup "location").bind Value.asString
  name := (doc.lookup "name").bind Value.asString
  options := (doc.lookup "options").bind Value.asMaps
  types := (doc.lookup "types").bind Value.asMaps
  price := (doc.lookup "price").bind Value.asDouble
  stock := (doc.lookup "stock").bind Value.asBool
  id := some id

/-- `none` is the trap of `name!`; an item without an ID has no reference.
mirrors Helpers/Item.swift:71-77 -/
def Item.getImageRef (item : Item) : Option (Option String) :=
  if item.id = none then some none
  else item.name.map fun name => some ("menuitems/" ++ name ++ ".jpg")

/-- The outlets the app has a menu tab for; `location` is the string their
view controllers pass to `ItemsViewController`.
mirrors CafeViewController.swift:196, BarViewController.swift:187,
ButteryViewController.swift:187 -/
inductive Outlet where
  | cafe | bar | buttery
  deriving DecidableEq, Repr

def Outlet.location : Outlet → String
  | .cafe => "Cafe"
  | .bar => "Bar"
  | .buttery => "Buttery"

/-- `whereField(key, in: values)` on one document. -/
def Value.fieldIn (doc : Dict Value) (key : String) (values : List String) : Bool :=
  match (doc.lookup key).bind asString with
  | some s => values.contains s
  | none => false

/-- The items a menu lists: the documents filed under `location` or "both".
mirrors Helpers/Item.swift:15-40 -/
def loadItemsFor (menuitems : Dict (Dict Value)) (location category : String) : List Item :=
  (menuitems.filter fun d => Value.fieldIn d.2 "location" [location, "both"] &&
    Value.fieldIn d.2 "category" [category]).map fun d => Item.populateItem d.1 d.2

theorem loadItemsFor_location {menuitems : Dict (Dict Value)} {location category : String}
    {item : Item} (h : item ∈ loadItemsFor menuitems location category) :
    item.location = some location ∨ item.location = some "both" := by
  simp only [loadItemsFor, List.mem_map, List.mem_filter, Bool.and_eq_true] at h
  obtain ⟨d, ⟨-, hl, -⟩, rfl⟩ := h
  unfold Value.fieldIn at hl
  split at hl
  · rename_i s hs
    simp only [Item.populateItem, hs, Option.some.injEq]
    simpa using hl
  · cases hl

end QadsCafe
