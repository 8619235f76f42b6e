import Mathlib.Data.Int.Order.Basic
import QadsCafe.Core.Sorting
import QadsCafe.L1Menu.Item

/-!
# The categories of a menu

The Buttery tab sorts its categories by their `order`, which a document may
lack. The predicate it passes to `sort(by:)` answers `true` when either order
is missing, so a category without one is before itself, and every category is
before it and after it.

Results:
* `sortButteryCategories_iff`: the predicate is one that `sort(by:)` takes, and
  the result is what the name says, exactly on the lists in which every
  category has an order.
* `butteryCategories_eq`: then the tab is the same whichever sort the library
  has.
-/
namespace QadsCafe

open Core

/-- mirrors CategoryList.swift:13-18 -/
structure Category where
  name : Option String := none
  image : Option String := none
  location : Option String := none
  order : Option Int := none
  deriving DecidableEq, Repr

/-- `as? Int`, of 64 bits. -/
def Value.asInt : Value → Option Int
  | .integer n => some n.toInt
  | .double q =>
    if q.den = 1 ∧ -9223372036854775808 ≤ q.num ∧ q.num ≤ 9223372036854775807 then some q.num
    else none
  | .bool b => some (if b then 1 else 0)
  | _ => none

/-- mirrors CategoryList.swift:36-44 -/
def Category.ofDocument (doc : Dict Value) : Category where
  image := (doc.lookup "image").bind Value.asString
  location := (doc.lookup "location").bind Value.asString
  name := (doc.lookup "name").bind Value.asString
  order := (doc.lookup "order").bind Value.asInt

/-- The list when the query is answered; an error lists nothing, as an empty
collection does.
mirrors CategoryList.swift:21-50 -/
def getCategories (categories : Dict (Dict Value)) (location : String) : List Category :=
  (categories.filter fun d => Value.fieldIn d.2 "location" [location]).map fun d =>
    Category.ofDocument d.2

/-- mirrors CategoryList.swift:53-58 -/
def areInIncreasingOrder (s1 s2 : Category) : Bool :=
  match s1.order, s2.order with
  | some o1, some o2 => decide (o1 < o2)
  -- "Error: Cannot sort for non buttery categories"
  | _, _ => true

/-- `sort` is the library's `sort(by:)`.
mirrors CategoryList.swift:52-60 -/
def sortButteryCategories (sort : SortBy Category) (categories : List Category) : List Category :=
  sort.sort areInIncreasingOrder categories

/-- The categories of the Buttery tab.
mirrors ButteryViewController.swift:47-50 -/
def butteryCategories (sort : SortBy Category) (categories : Dict (Dict Value)) : List Category :=
  sortButteryCategories sort (getCategories categories "Buttery")

/-! ## The predicate -/

theorem areInIncreasingOrder_none {c : Category} (h : c.order = none) (d : Category) :
    areInIncreasingOrder c d = true ∧ areInIncreasingOrder d c = true := by
  unfold areInIncreasingOrder
  rw [h]
  exact ⟨rfl, by cases d.order <;> rfl⟩

theorem areInIncreasingOrder_some {c d : Category} {o p : Int} (hc : c.order = some o)
    (hd : d.order = some p) : areInIncreasingOrder c d = true ↔ o < p := by
  unfold areInIncreasingOrder
  rw [hc, hd]
  exact decide_eq_true_iff

/-- On categories that have an order it compares their orders. -/
theorem strictWeakOn_of_order {categories : List Category}
    (h : ∀ c ∈ categories, c.order.isSome) : StrictWeakOn areInIncreasingOrder categories := by
  have hpre : (fun c d : {c // c ∈ categories} => areInIncreasingOrder c d = true) =
      Order.Preimage (fun c : {c // c ∈ categories} => c.1.order.get (h c.1 c.2)) (· < ·) := by
    funext c d
    exact propext (areInIncreasingOrder_some (Option.some_get _).symm (Option.some_get _).symm)
  have hint : IsStrictWeakOrder Int (· < ·) := isStrictWeakOrder_of_isOrderConnected
  unfold StrictWeakOn
  rw [hpre]
  exact Order.Preimage.instIsStrictWeakOrder

/-- The predicate is a strict weak ordering iff no order is missing. -/
theorem strictWeakOn_iff {categories : List Category} :
    StrictWeakOn areInIncreasingOrder categories ↔ ∀ c ∈ categories, c.order.isSome := by
  refine ⟨fun h c hc => ?_, strictWeakOn_of_order⟩
  cases ho : c.order with
  | some o => rfl
  | none => exact absurd (areInIncreasingOrder_none ho c).1 (h.irrefl hc)

/-! ## The sorted list -/

/-- What sorting the categories should do. -/
structure SortsByOrder (sort : SortBy Category) (categories : List Category) : Prop where
  ordering : StrictWeakOn areInIncreasingOrder categories
  perm : (sortButteryCategories sort categories).Perm categories
  increasing : ((sortButteryCategories sort categories).filterMap (·.order)).Pairwise (· ≤ ·)

theorem increasing_of_sorted {categories : List Category}
    (h : categories.Pairwise fun c d => ¬ areInIncreasingOrder d c) :
    (categories.filterMap (·.order)).Pairwise (· ≤ ·) := by
  rw [List.pairwise_filterMap]
  refine h.imp fun hcd o ho p hp => ?_
  rw [areInIncreasingOrder_some hp ho] at hcd
  exact Int.not_lt.mp hcd

theorem sortsByOrder_of_order (sort : SortBy Category) {categories : List Category}
    (h : ∀ c ∈ categories, c.order.isSome) : SortsByOrder sort categories := by
  have hlt := strictWeakOn_of_order h
  have hs := sort.sorts areInIncreasingOrder categories hlt
  exact ⟨hlt, hs.perm, increasing_of_sorted hs.sorted⟩

theorem SortsByOrder.order {sort : SortBy Category} {categories : List Category}
    (h : SortsByOrder sort categories) : ∀ c ∈ categories, c.order.isSome :=
  strictWeakOn_iff.mp h.ordering

/-- **Sorting the categories.** The predicate is a strict weak ordering on the
list, and the result is a permutation of it with the orders in non-decreasing
order, iff every category of the list has an order. -/
theorem sortButteryCategories_iff (sort : SortBy Category) (categories : List Category) :
    SortsByOrder sort categories ↔ ∀ c ∈ categories, c.order.isSome :=
  ⟨SortsByOrder.order, sortsByOrder_of_order sort⟩

def breakfastDocs : Dict (Dict Value) :=
  [("0", [("location", .string "Buttery"), ("name", .string "Cereal"), ("order", .integer 1)]),
    ("1", [("location", .string "Buttery"), ("name", .string "Fruit")]),
    ("2", [("location", .string "Buttery"), ("name", .string "Bread"), ("order", .integer 2)])]

def breakfast : List Category :=
  [{ name := some "Cereal", location := some "Buttery", order := some 1 },
    { name := some "Fruit", location := some "Buttery" },
    { name := some "Bread", location := some "Buttery", order := some 2 }]

/-- **A category without an order.** Fruit has none, so the predicate is no
strict weak ordering, and a merge sort puts the second category first. -/
theorem bread_before_cereal : getCategories breakfastDocs "Buttery" = breakfast ∧
    ¬ StrictWeakOn areInIncreasingOrder breakfast ∧
    (butteryCategories .mergeSort breakfastDocs).map (·.order) = [some 2, none, some 1] := by
  have hlist : getCategories breakfastDocs "Buttery" = breakfast := by decide +kernel
  refine ⟨hlist, ?_, ?_⟩
  · rw [strictWeakOn_iff]
    decide
  · unfold butteryCategories
    rw [hlist]
    simp [sortButteryCategories, SortBy.mergeSort, breakfast, List.mergeSort, before,
      areInIncreasingOrder]

/-! ## The Buttery tab -/

/-- On the documents: each one filed under `location` has an integer order. -/
theorem order_getCategories_iff (categories : Dict (Dict Value)) (location : String) :
    (∀ c ∈ getCategories categories location, c.order.isSome) ↔
      ∀ d ∈ categories, Value.fieldIn d.2 "location" [location] = true →
        ((d.2.lookup "order").bind Value.asInt).isSome := by
  simp only [getCategories, List.forall_mem_map, List.mem_filter, and_imp]
  rfl

/-- With an order in every document the tab does not depend on the sort: it
shows the categories by order, those of one order as the query listed them. -/
theorem butteryCategories_eq (sort : SortBy Category) {categories : Dict (Dict Value)}
    (h : ∀ d ∈ categories, Value.fieldIn d.2 "location" ["Buttery"] = true →
      ((d.2.lookup "order").bind Value.asInt).isSome) :
    butteryCategories sort categories =
      (getCategories categories "Buttery").mergeSort (before areInIncreasingOrder) :=
  sort.sort_eq (strictWeakOn_of_order ((order_getCategories_iff categories "Buttery").mpr h))

end QadsCafe
