import QadsCafe.L2Detail.Selection
import QadsCafe.L4App.Items

/-!
# What the item-detail screen adds to a basket

`addToBasketTapped` adds the item whatever the screen shows: the checkout cell
shows or hides the out-of-stock label, the cell of a type has the title
"Please Select", and neither is read when the button is tapped.

`shop` is the app in which every item comes from a session of the screen
(`Visit`). The baskets hold orderable items in every state of a run iff each
visit was complete: its item in stock, each of its types left with a choice.
-/
namespace QadsCafe

open Core

/-- In stock in the menu document, with one choice selected in each type. -/
def Orderable (x : OrderItem) : Prop := x.refItem.stock = some true ∧ ∀ t ∈ x.types, ∃! j, t.Selected j

/-- A session on `item` that ends with the add button. -/
structure Visit where
  item : Item
  names : List String
  tag : Tag := {}
  x₀ : OrderItem
  edits : List Edit
  x : OrderItem
  opened : createOrderItem item names = some x₀
  run : (detail item names).Run x₀ edits x

namespace Visit

def added (v : Visit) : OrderItem := { v.x with tag := v.tag }

def basket (v : Visit) : Basket := if v.x.location = some "Cafe" then .cafe else .bar

def event (v : Visit) : Ev := addToBasketTapped v.added

theorem event_eq (v : Visit) : v.event = .addItem v.basket v.added := rfl

/-- The taps of each type end in an odd number of taps on one row. -/
def Complete (v : Visit) : Prop :=
  v.item.stock = some true ∧ ∀ i < v.x₀.types.length, lastRun (typeTaps i v.edits) % 2 = 1

theorem refItem (v : Visit) : v.x.refItem = v.item := by
  have hsame := sameMenu_reachable v.opened (v.run.reachable v.opened)
  exact hsame.refItem.trans (createOrderItem_created v.opened).refItem

theorem orderable_iff (v : Visit) : Orderable v.x ↔ v.Complete := by
  unfold Orderable Complete
  rw [v.refItem, selectedOnce_iff v.opened v.run]

end Visit

def Ev.isAddItem : Ev → Bool
  | .addItem .. => true
  | _ => false

inductive Act where
  | visit (v : Visit)
  | other (e : Ev) (h : e.isAddItem = false)

def Act.event : Act → Ev
  | .visit v => v.event
  | .other e _ => e

def shop : LTS App Act := LTS.ofFn App.Launch fun s a => s.step a.event

namespace App

/-- The items of both baskets are orderable. -/
def AllOrderable (s : App) : Prop := ∀ b, ∀ x ∈ (s.order b).items, Orderable x

theorem AllOrderable.other {s t : App} {e : Ev} (h : AllOrderable s) (he : e.isAddItem = false)
    (hs : s.step e = some t) : AllOrderable t := by
  intro b
  have hi := items_step hs b
  generalize (t.order b).items = l at hi ⊢
  cases hi with
  | kept => exact h b
  | added x => cases he
  | removed index i x => exact fun y hy => h b y (List.mem_of_mem_eraseIdx hy)
  | reset => exact fun y hy => by cases hy

theorem items_visit {s t : App} {v : Visit} (hs : s.step v.event = some t) (b : Basket) :
    (t.order b).items =
      if b = v.basket then (s.order b).items ++ [s.stored v.added] else (s.order b).items := by
  rw [v.event_eq] at hs
  obtain ⟨-, -, rfl⟩ := step_iff.mp hs
  simp only [fire, order_addItem]
  split
  · rename_i hb
    rw [hb]
    rfl
  · rfl

theorem AllOrderable.visit {s t : App} {v : Visit} (h : AllOrderable s)
    (hs : s.step v.event = some t) : AllOrderable t ↔ v.Complete := by
  rw [← v.orderable_iff]
  constructor
  · intro ht
    refine ht v.basket (s.stored v.added) ?_
    rw [items_visit hs, if_pos rfl]
    exact List.mem_append_right _ (List.mem_singleton_self _)
  · intro hx b y hy
    rw [items_visit hs] at hy
    split at hy
    · rcases List.mem_append.mp hy with hy | hy
      · exact h b y hy
      · rw [List.mem_singleton.mp hy]
        exact hx
    · exact h b y hy

theorem allOrderable_step {s t : App} {a : Act} (h : AllOrderable s) (hs : shop.step s a t) :
    AllOrderable t ↔ ∀ v, a = .visit v → v.Complete := by
  cases a with
  | visit v =>
    have hs' : s.step v.event = some t := hs
    rw [h.visit hs']
    constructor
    · intro hv w hw
      cases hw
      exact hv
    · exact fun hv => hv v rfl
  | other e he =>
    have hs' : s.step e = some t := hs
    constructor
    · intro _ v hv
      cases hv
    · exact fun _ => h.other he hs'

/-- **Only orderable items enter a basket** iff every visit was complete: in
every state of the run the items of both baskets are orderable. -/
theorem orderable_run_iff {s₀ s : App} {ls : List Act} (h₀ : Launch s₀) (hr : shop.Run s₀ ls s) :
    (∀ ms u, ms <+: ls → shop.Run s₀ ms u → AllOrderable u) ↔ ∀ v, .visit v ∈ ls → v.Complete := by
  have hstart : AllOrderable s₀ := fun b x hx => by rw [h₀.order] at hx; cases hx
  constructor
  · intro h v hv
    obtain ⟨l₁, l₂, rfl⟩ := List.append_of_mem hv
    obtain ⟨u, hu, hrest⟩ := hr.split
    cases hrest with
    | @cons _ w _ _ _ hs _ =>
      have hbefore := h l₁ u (List.prefix_append _ _) hu
      have hafter := h (l₁ ++ [.visit v]) w ⟨l₂, by simp⟩ (hu.append (.cons hs (.nil w)))
      exact (allOrderable_step hbefore hs).mp hafter v rfl
  · intro h ms u hms hu
    refine hu.invariant (P := fun a => ∀ v, a = .visit v → v.Complete) (I := AllOrderable)
      (fun s a t ha hi hs => (allOrderable_step hi hs).mpr ha) (fun a ha v hv => ?_) hstart
    exact h v (hv ▸ hms.subset ha)

/-! ## Two visits -/

/-- A coffee with a choice of milk. -/
def latte (stock : Bool) : Item :=
  Item.populateItem "latte"
    [("name", .string "Latte"), ("location", .string "Cafe"), ("price", .integer 3),
      ("stock", .bool stock),
      ("types", .map [("Milk", .map [("Oat", .double (1 / 2)), ("Soya", .integer 0)])])]

/-- The session on `latte stock` as it opens. -/
def latteOpened (stock : Bool) : OrderItem := (createOrderItem (latte stock) []).getD {}

/-- The customer taps "Oat", then the add button. -/
def oatLatte (stock : Bool) : Visit where
  item := latte stock
  names := []
  x₀ := latteOpened stock
  edits := [.tapRow {} 2 0]
  x := (edit (latteOpened stock) (.tapRow {} 2 0)).getD {}
  opened := rfl
  run := .cons ⟨⟨_, rfl, by decide⟩, rfl⟩ (.nil _)

/-- The customer taps the add button only. -/
def hastyLatte : Visit where
  item := latte true
  names := []
  x₀ := latteOpened true
  edits := []
  x := latteOpened true
  opened := rfl
  run := .nil _

def shopSignUp : List Act :=
  [.other (.authSignIn ⟨"u1", some "ab12@cam.ac.uk"⟩) rfl,
    .other (.make (some "Ada") (some "Byron")) rfl, .other (.signInReply 0 true) rfl]

theorem oatLatte_orderable : ∃ s, shop.Run {} (shopSignUp ++ [.visit (oatLatte true)]) s ∧
    ((∀ ms u, ms <+: shopSignUp ++ [.visit (oatLatte true)] → shop.Run {} ms u → AllOrderable u) ↔
      ∀ v, .visit v ∈ shopSignUp ++ [.visit (oatLatte true)] → v.Complete) := by
  obtain ⟨s, hs⟩ : ∃ s, shop.Run {} (shopSignUp ++ [.visit (oatLatte true)]) s :=
    ⟨_, LTS.run_of_exec rfl⟩
  exact ⟨s, hs, orderable_run_iff launch_default hs⟩

/-- **Both conditions fail**: an item that is out of stock is added, and one
whose milk was not chosen. -/
theorem unorderable_added : ∃ s x y,
    shop.Run {} (shopSignUp ++ [.visit (oatLatte false), .visit hastyLatte]) s ∧
    (s.order .cafe).items = [x, y] ∧ x.refItem.stock = some false ∧
    (∃ t ∈ y.types, ∀ j, ¬ t.Selected j) ∧ ¬ AllOrderable s := by
  refine ⟨_, _, _, LTS.run_of_exec rfl, rfl, rfl, ⟨_, List.mem_singleton.mpr rfl, ?_⟩, fun h => ?_⟩
  · rintro j ⟨o, ho, hq⟩
    have hnone := (createOrderItem_created hastyLatte.opened).choice _ (List.mem_singleton.mpr rfl) o
      (List.mem_of_getElem? ho)
    omega
  · have hstock := (h .cafe _ List.mem_cons_self).1
    cases hstock

end App

end QadsCafe
