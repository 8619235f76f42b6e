import QadsCafe.L1Menu.Allergens
import QadsCafe.L1Menu.Tab
import QadsCafe.L2Detail.Opening
import QadsCafe.L4App.Baskets
import QadsCafe.L4App.Items

/-!
# From the tabs to the basket

The way an item gets into a basket: a tap on a category of a tab pushes an
items screen, a tap on a row of it presents the item-detail screen, and the
button of its last cell adds the order item and dismisses the screen.

`menus menuitems sort P` is the app with these screens over it. `menuitems` is
the collection of menu documents, which the app does not write; the answers to
the other queries are arbitrary. The menus live under the tab bar, which is
replaced after a sign-out, by the sign-up form and after a sign-in.

A reply to a screen that is gone changes nothing on display and is left out, as
are the allergy names that reach an object already in a basket: nothing reads
them there. `presented` keeps the outlet under whose tab the item was opened;
no function of the source reads it.
-/
namespace QadsCafe

open Core

structure Menus where
  app : App
  tabs : Outlet → Tab := fun _ => {}
  /-- the items screen pushed on the tab's stack -/
  items : Outlet → Option ItemsScreen := fun _ => none
  presented : Option (Outlet × Opening) := none
  /-- the code of the screens trapped -/
  crashed : Bool := false

inductive MenuEvent where
  | app (e : Ev)
  | tab (o : Outlet) (e : TabEvent)
  | selectCategory (o : Outlet) (row : Nat)
  | itemsReply (o : Outlet) (ok : Bool)
  | back (o : Outlet)
  | selectItem (o : Outlet) (row : Nat)
  | detail (e : OpeningEvent)
  | cancelTapped
  | addToBasketTapped

/-- The item-detail screen as it comes up: its order item, then the title cell.
mirrors ItemDetailsViewController.swift:24-33 and ItemTitleCollectionViewCell.swift:16-30 -/
def openItem (P : Prepend) (item : Item) : Option OrderItem := do
  let x ← createOrderItem item []
  let _ ← makeAllergenLabel P item.allergens
  let _ ← item.getImageRef
  return x

/-- The root view controller is another one from then on; the form is one.
mirrors CafeViewController.swift:207-216, SignInViewController.swift:108-140 and
SignUpViewController.swift:76-86 -/
def Ev.replacesRoot : Ev → Bool
  | .signOut _ | .make .. | .signInReply .. => true
  | _ => false

/-- The customer acts; otherwise a reply comes in. -/
def TabEvent.isAction : TabEvent → Bool
  | .viewDidLoad | .refreshData => true
  | _ => false

namespace Menus

variable (P : Prepend) (s : Menus)

/-- The tab of `o` is in front. -/
def Shows (o : Outlet) : Prop :=
  s.app.user.uid.isSome = true ∧ s.presented = none ∧ s.items o = none

/-- The items screen of `o` is in front. -/
def ShowsItems (o : Outlet) (screen : ItemsScreen) : Prop :=
  s.app.user.uid.isSome = true ∧ s.presented = none ∧ s.items o = some screen

def after (e : Ev) (app : App) : Menus := if e.replacesRoot then { app } else { s with app }

/-- mirrors CafeViewController.swift:177-201 -/
def selectCategory (o : Outlet) (row : Nat) : Menus :=
  match (s.tabs o).didSelectItemAt o row with
  | none => { s with crashed := true }
  | some none => s
  | some (some screen) => { s with items := Function.update s.items o (some screen) }

/-- mirrors ItemsViewController.swift:77-85 -/
def selectItem (o : Outlet) (screen : ItemsScreen) (row : Nat) : Menus :=
  match screen.itemList.itemAt row with
  | none => { s with crashed := true }
  | some item =>
    match openItem P item with
    | none => { s with crashed := true }
    | some x => { s with presented := some (o, { item := x }) }

/-- mirrors CheckoutCollectionViewCell.swift:39-47 -/
def addEvent (o : Outlet) (d : Opening) : Ev :=
  QadsCafe.addToBasketTapped { d.item with tag := { d.item.tag with menu := o } }

inductive Step (menuitems : Dict (Dict Value)) (sort : SortBy Category) (P : Prepend) (s : Menus) :
    MenuEvent → Menus → Prop
  | app (e : Ev) (t : App) (he : ∀ b x, e ≠ .addItem b x) (h : s.app.step e = some t) :
      Step menuitems sort P s (.app e) (s.after e t)
  | tab (o : Outlet) (e : TabEvent) (t : Tab) (hs : e.isAction = true → s.Shows o)
      (h : (s.tabs o).step o sort e = some t) :
      Step menuitems sort P s (.tab o e) { s with tabs := Function.update s.tabs o t }
  | selectCategory (o : Outlet) (row : Nat) (hs : s.Shows o) (h : row < (s.tabs o).categories.length) :
      Step menuitems sort P s (.selectCategory o row) (s.selectCategory o row)
  | itemsReply (o : Outlet) (ok : Bool) (screen t : ItemsScreen) (hs : s.items o = some screen)
      (h : screen.reply menuitems ok = some t) :
      Step menuitems sort P s (.itemsReply o ok) { s with items := Function.update s.items o (some t) }
  | back (o : Outlet) (screen : ItemsScreen) (hs : s.ShowsItems o screen) :
      Step menuitems sort P s (.back o) { s with items := Function.update s.items o none }
  | selectItem (o : Outlet) (row : Nat) (screen : ItemsScreen) (hs : s.ShowsItems o screen)
      (h : row < screen.itemList.numberOfItemsInSection) :
      Step menuitems sort P s (.selectItem o row) (s.selectItem P o screen row)
  | detail (o : Outlet) (d t : Opening) (e : OpeningEvent) (hs : s.presented = some (o, d))
      (h : d.Step e t) : Step menuitems sort P s (.detail e) { s with presented := some (o, t) }
  | cancelTapped (p : Outlet × Opening) (hs : s.presented = some p) :
      Step menuitems sort P s .cancelTapped { s with presented := none }
  | addToBasketTapped (o : Outlet) (d : Opening) (t : App) (hs : s.presented = some (o, d))
      (h : s.app.step (addEvent o d) = some t) :
      Step menuitems sort P s .addToBasketTapped { s with app := t, presented := none }

end Menus

/-- A trap ends the process, in the app or in its screens. -/
def menus (menuitems : Dict (Dict Value)) (sort : SortBy Category) (P : Prepend) :
    LTS Menus MenuEvent where
  init s := App.Launch s.app ∧ s = { app := s.app }
  step s e t := s.app.trap = none ∧ s.crashed = false ∧ s.Step menuitems sort P e t

/-! ## Who is signed in -/

namespace App

theorem uid_checkout (s : App) (now : Basket → Date) : (s.checkout now).user.uid = s.user.uid :=
  (bar_turn s now).turn.uid.trans (cafe_turn s now).turn.uid

theorem uid_follow (s : App) (c : Callback) : (s.follow c).user.uid = s.user.uid := by
  cases c with
  | create w =>
    refine follow_create s w fun t ha => ?_
    cases ha <;> rfl
  | update w => exact User.uid_setOrder _ _ _
  | history call b uid ids => exact User.uid_setOrder _ _ _

/-- The account changes only with the root. -/
theorem uid_step {s t : App} {e : Ev} (hs : s.step e = some t) (he : e.replacesRoot = false) :
    t.user.uid = s.user.uid := by
  have hf := (step_cases hs).2.2
  cases hf with
  | addItem b x => exact User.uid_setOrder _ _ _
  | badIndex => rfl
  | removeItemAt => exact User.uid_setOrder _ _ _
  | textFieldDidEndEditing => rfl
  | checkout now => exact uid_checkout s now
  | reply i ok c l₁ l₂ => exact (uid_follow _ c).trans (uid_settle s c ok)
  | session _ hses =>
    have hsc := session_cases s hses
    cases hsc with
    | kept _ uid => exact uid
    | _ => cases he

end App

end QadsCafe
