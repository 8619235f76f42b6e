import Mathlib.Logic.Function.Basic
import QadsCafe.Core.LTS
import QadsCafe.L2Detail.Screen
import QadsCafe.L3Order.Order

/-!
# The app: one device, one user object, Firestore

`App` is the global `currentUser` with its two orders, Firebase's signed-in
account, the two Firestore collections the app writes and the requests whose
callbacks have not been delivered. Its events are the user's actions on the
screens, the sign-in flow and the delivery of one callback in flight with
either outcome; callbacks are delivered in any order.

* **Writes.** The content of a write is fixed when it is issued; the write is
  applied iff its callback reports success; each callback is delivered at
  most once. `addDocument` picks a fresh document ID.
* **Closures.** A `Callback` carries what its closure captured: `create` goes
  on to `addToPreviousOrders`, whose own write is `history`; `history` and
  `update` end in `resetOrder` and the completion of the checkout call.
* **Signing in.** A profile read and a sign-up form are requests of their own
  (`SignIn`). Nothing in the sign-in screens waits for an earlier one, so an
  answer fills the user object whoever it holds by then.
* **Traps.** A trap ends the process: it is recorded and no event is enabled
  after it.
* **Screens.** The basket, the menus and sign-out are behind the tab bar,
  which is shown once `currentUser.uid` is set. Which sign-in screen is shown
  is left to `Device`: here they can always be used, a profile read and the
  form once Firebase has an account.

The runs of the app are among these. Firestore holds back the callbacks of an
account's writes while another one is signed in, except those already queued;
`reply` delivers any of them. Left out is that Firestore throws on a map key,
here the name of an option, that is empty or of the form `__x__`.

Ghost state, read by no function of the source: `Write.built` (the items the
document was built from), `Write.uid` and `App.noteBy` (who issued a write,
who typed the current note), the counters of object identities and checkout
calls, and `log`, the run so far in chronological order. `orders` holds the
documents written since launch.
-/
namespace QadsCafe

open Core

/-- `cafeOrder` or `barOrder`. -/
inductive Basket where
  | cafe | bar
  deriving DecidableEq, Repr

/-- `Auth.auth().currentUser` -/
structure Account where
  uid : String
  email : Option String := none
  deriving DecidableEq

/-- A `users/{uid}` document, as `populate` decodes it. -/
structure Profile where
  uid : Option String := none
  crsid : Option String := none
  previousOrders : List Nat := []
  firstName : Option String := none
  lastName : Option String := none
  email : Option String := none
  deriving DecidableEq

/-- mirrors Helpers/User.swift:12-20 -/
structure User where
  uid : Option String := none
  crsid : Option String := none
  firstName : Option String := none
  lastName : Option String := none
  email : Option String := none
  cafeOrder : Order := {}
  barOrder : Order := {}
  previousOrders : List Nat := []

namespace User

def order (u : User) : Basket → Order
  | .cafe => u.cafeOrder
  | .bar => u.barOrder

def setOrder (u : User) (b : Basket) (o : Order) : User :=
  match b with
  | .cafe => { u with cafeOrder := o }
  | .bar => { u with barOrder := o }

/-- mirrors Helpers/User.swift:22-29 -/
def populate (u : User) (data : Profile) : User :=
  { u with
    uid := data.uid
    crsid := data.crsid
    previousOrders := data.previousOrders
    firstName := data.firstName
    lastName := data.lastName
    email := data.email }

/-- mirrors Helpers/User.swift:127-135 -/
def removeItemAt (u : User) (index : Nat) : Option User :=
  if index < u.cafeOrder.items.length then
    (u.cafeOrder.removeItemAt index).map fun o => { u with cafeOrder := o }
  else
    (u.barOrder.removeItemAt (index - u.cafeOrder.items.length)).map fun o => { u with barOrder := o }

/-- mirrors Helpers/User.swift:137-145 -/
def getItemAt (u : User) (index : Nat) : Option OrderItem :=
  if index < u.cafeOrder.items.length then u.cafeOrder.items[index]?
  else u.barOrder.items[index - u.cafeOrder.items.length]?

/-- mirrors BasketViewController.swift:35-38 -/
def setPrice (u : User) : ℚ := u.barOrder.price + u.cafeOrder.price

end User

/-- A create or update of an order document. -/
structure Write where
  call : Nat
  basket : Basket
  doc : Nat
  data : OrderDoc
  built : List OrderItem
  uid : Option String
  noteBy : Option String

inductive Callback where
  | create (w : Write)
  | update (w : Write)
  | history (call : Nat) (basket : Basket) (uid : String) (previousOrders : List Nat)

namespace Callback

def basket : Callback → Basket
  | .create w => w.basket
  | .update w => w.basket
  | .history _ b _ _ => b

/-- The order document the callback answers for, if any. -/
def write? : Callback → Option Write
  | .create w => some w
  | .update w => some w
  | .history .. => none

def isCreate : Callback → Bool
  | .create _ => true
  | _ => false

end Callback

/-- A request of the sign-in screens: the profile read of a returning account
or the write of the sign-up form, with what its closure captured. -/
inductive SignIn where
  | read (uid : String)
  | form (a : Account) (firstName lastName : Option String)

inductive Trap where
  | indexOutOfRange | emptyRange | nilUnwrap
  deriving DecidableEq, Repr

/-- What the run did: an item entered or was deleted by the user, a request
was issued or answered, an order ID was appended to `previousOrders`, a
checkout's completion closure ran. -/
inductive Obs where
  | added (ref : Nat)
  | removed (ref : Nat)
  | issued (c : Callback)
  | replied (c : Callback) (ok : Bool)
  | appended (uid : Option String) (doc : Nat)
  | completed (call : Nat)

structure App where
  auth : Option Account := none
  user : User := {}
  orders : Nat → Option Write := fun _ => none
  users : String → Option Profile := fun _ => none
  pending : List Callback := []
  signIns : List SignIn := []
  trap : Option Trap := none
  nextID : Nat := 0
  nextRef : Nat := 0
  calls : Nat := 0
  noteBy : Basket → Option String := fun _ => none
  log : List Obs := []

inductive Ev where
  | addItem (b : Basket) (x : OrderItem)
  | removeItemAt (index : Nat)
  | textFieldDidEndEditing (text : Option String)
  | checkout (now : Basket → Date)
  | reply (i : Nat) (ok : Bool)
  | signOut (ok : Bool)
  | authSignIn (a : Account)
  | populateAsCurrentUser
  | make (firstName lastName : Option String)
  | signInReply (i : Nat) (ok : Bool)

def Ev.isReply : Ev → Bool
  | .reply .. => true
  | _ => false

namespace App

def order (s : App) (b : Basket) : Order := s.user.order b

def setOrder (s : App) (b : Basket) (o : Order) : App := { s with user := s.user.setOrder b o }

def crash (s : App) (t : Trap) : App := { s with trap := some t }

def observe (s : App) (o : Obs) : App := { s with log := s.log ++ [o] }

def issue (s : App) (c : Callback) : App :=
  { s with pending := s.pending ++ [c], log := s.log ++ [.issued c] }

/-! ## Basket actions -/

/-- `addItem` of a new object to one of the baskets.
mirrors CheckoutCollectionViewCell.swift:39-47 and Helpers/Order.swift:29-32 -/
def addItem (s : App) (b : Basket) (x : OrderItem) : App :=
  let x := { x with tag := { x.tag with ref := s.nextRef, uid := s.user.uid } }
  { (s.setOrder b ((s.order b).addItem x)).observe (.added s.nextRef) with
    nextRef := s.nextRef + 1 }

/-- mirrors Helpers/User.swift:127-135 -/
def removeItemAt (s : App) (index : Nat) : App :=
  match s.user.getItemAt index, s.user.removeItemAt index with
  | some x, some u => { s with user := u }.observe (.removed x.tag.ref)
  | _, _ => s.crash .indexOutOfRange

/-- mirrors DetailsFooterCollectionReusableView.swift:46-49 -/
def textFieldDidEndEditing (s : App) (text : Option String) : App :=
  { s with
    user := { s.user with
      cafeOrder := { s.user.cafeOrder with note := text }
      barOrder := { s.user.barOrder with note := text } }
    noteBy := fun _ => text.bind fun _ => s.user.uid }

/-! ## Checkout -/

def makeWrite (s : App) (call : Nat) (b : Basket) (doc : Nat) (o : Order) (data : OrderDoc) :
    Write :=
  ⟨call, b, doc, data, o.items, s.user.uid, s.noteBy b⟩

/-- mirrors Helpers/Order.swift:61-82, up to the callback -/
def saveOrder (s : App) (call : Nat) (now : Date) (b : Basket) (o : Order) : App :=
  match { o with orderDate := some now }.makeDataDictionary s.user.crsid with
  | none => s.crash .emptyRange
  | some (dataDic, o) =>
    ({ s with nextID := s.nextID + 1 }.setOrder b o).issue
      (.create (s.makeWrite call b s.nextID o dataDic))

/-- mirrors Helpers/Order.swift:84-106, up to the callback -/
def updateOrder (s : App) (call : Nat) (b : Basket) (doc : Nat) (o : Order) : App :=
  match o.makeDataDictionary s.user.crsid with
  | none => s.crash .emptyRange
  | some (dataDic, o) => (s.setOrder b o).issue (.update (s.makeWrite call b doc o dataDic))

/-- The email and name of the signed-in account are put on the order.
mirrors Helpers/User.swift:103-105 -/
def stamp (s : App) (b : Basket) : Order :=
  { s.order b with
    email := s.auth.bind (·.email)
    name := some (s.user.firstName.getD "" ++ " " ++ s.user.lastName.getD "") }

/-- One turn of the loop in `checkout`.
mirrors Helpers/User.swift:96-122 -/
def submit (call : Nat) (now : Basket → Date) (b : Basket) (s : App) : App :=
  if s.trap.isSome then s
  else if (s.order b).items.isEmpty then s
  else
    match (s.order b).orderID with
    | none => s.saveOrder call (now b) b (s.stamp b)
    | some doc => s.updateOrder call b doc (s.stamp b)

/-- mirrors Helpers/User.swift:93-124 -/
def checkout (s : App) (now : Basket → Date) : App :=
  submit s.calls now .bar (submit s.calls now .cafe { s with calls := s.calls + 1 })

/-! ## Callbacks -/

/-- `self.previousOrders.append(order.orderID!)` -/
def append (s : App) (doc : Nat) : App :=
  { s with
    user := { s.user with previousOrders := s.user.previousOrders ++ [doc] }
    log := s.log ++ [Obs.appended s.user.uid doc] }

/-- The ID is appended before `self.uid!` is evaluated.
mirrors Helpers/User.swift:65-90, up to the callback -/
def addToPreviousOrders (s : App) (call : Nat) (b : Basket) : App :=
  match (s.order b).orderID with
  | none => s
  | some doc =>
    match s.user.uid with
    | none => (s.append doc).crash .nilUnwrap
    | some uid => (s.append doc).issue (.history call b uid (s.append doc).user.previousOrders)

/-- `order.resetOrder()`, then `completion()`.
mirrors Helpers/User.swift:111-112 and 118-119 -/
def resetAndComplete (s : App) (call : Nat) (b : Basket) : App :=
  { (s.setOrder b (s.order b).resetOrder).observe (.completed call) with
    noteBy := fun c => if c = b then none else s.noteBy c }

/-- The write of `w` is applied. -/
def store (s : App) (w : Write) : App :=
  { s with orders := Function.update s.orders w.doc (some w) }

/-- `self.orderID = ref!.documentID` after a successful create. -/
def created (s : App) (w : Write) : App :=
  (s.store w).setOrder w.basket { s.order w.basket with orderID := some w.doc }

/-- The write of a history list is applied; updating a missing document fails. -/
def storeHistory (s : App) (uid : String) (previousOrders : List Nat) : App :=
  let profile := (s.users uid).map fun p => { p with previousOrders }
  { s with users := Function.update s.users uid profile }

/-- What the outcome of the request changes: the write is applied, and a
successful create sets the order's ID. -/
def settle (s : App) : Callback → Bool → App
  | .create w, true => s.created w
  | .update w, true => s.store w
  | .history _ _ uid ids, true => s.storeHistory uid ids
  | _, false => s

/-- What the closure goes on to do, with either outcome.
mirrors Helpers/Order.swift:80 and 104, Helpers/User.swift:87 and 109-120 -/
def follow (s : App) : Callback → App
  | .create w => s.addToPreviousOrders w.call w.basket
  | .update w => s.resetAndComplete w.call w.basket
  | .history call b _ _ => s.resetAndComplete call b

/-- The `i`-th pending callback is delivered. -/
def reply (s : App) (i : Nat) (ok : Bool) : App :=
  match s.pending[i]? with
  | none => s
  | some c =>
    (({ s with pending := s.pending.eraseIdx i }.observe (.replied c ok)).settle c ok).follow c

/-! ## Signing in and out -/

/-- `signIn` unwraps `uid` and `crsid` to subscribe to topics.
mirrors Helpers/User.swift:148-152 -/
def signIn (s : App) : App :=
  if s.user.uid.isSome ∧ s.user.crsid.isSome then s else s.crash .nilUnwrap

/-- `ok` is false when Firebase's own sign-out throws.
mirrors Helpers/User.swift:154-169 -/
def signOut (s : App) (ok : Bool) : App :=
  if s.user.uid.isSome ∧ s.user.crsid.isSome then
    { s with
      auth := if ok then none else s.auth
      user := s.user.populate {} }
  else s.crash .nilUnwrap

/-- mirrors Helpers/User.swift:31-43 -/
def populateAsCurrentUser (s : App) : App :=
  match s.auth with
  | none => s
  | some a => { s with signIns := s.signIns ++ [.read a.uid] }

/-- The answer to a profile read.
mirrors Helpers/User.swift:44-58 -/
def load (s : App) (uid : String) (ok : Bool) : App :=
  match s.users uid, ok with
  | some data, true => { s with user := s.user.populate data }
  | _, _ => s

/-- The answer, and what the completion does: the sign-in screens while there
is no `uid`, else the tab bar.
mirrors Helpers/User.swift:59, SignInViewController.swift:121-140 and
SceneDelegate.swift:38-53 -/
def populated (s : App) (uid : String) (ok : Bool) : App :=
  if (s.load uid ok).user.uid.isNone then s.load uid ok else (s.load uid ok).signIn

/-- `email.components(separatedBy: "@")[0]` -/
def crsidOf (email : String) : String := String.ofList (email.toList.takeWhile (· ≠ '@'))

/-- The sign-up form: the names are kept, the profile document is sent.
mirrors SignUpViewController.swift:68-77 and Helpers/User.swift:171-185 -/
def make (s : App) (firstName lastName : Option String) : App :=
  match s.auth with
  | none => s
  | some a =>
    { s with
      user := { s.user with firstName, lastName }
      signIns := s.signIns ++ [.form a firstName lastName] }

/-- The write of the form is answered: the local fields are filled in whether
or not it succeeded.
mirrors Helpers/User.swift:179-197 and SignUpViewController.swift:77-87 -/
def made (s : App) (a : Account) (firstName lastName : Option String) (ok : Bool) : App :=
  let crsid := a.email.map crsidOf
  let data : Profile :=
    { uid := some a.uid
      crsid := some (crsid.getD "UNKNOWN")
      firstName, lastName
      email := some (a.email.getD "UNKNOWN") }
  signIn { s with
    users := if ok then Function.update s.users a.uid (some data) else s.users
    user := { s.user with uid := some a.uid, email := a.email, crsid } }

def taken (s : App) (i : Nat) : App := { s with signIns := s.signIns.eraseIdx i }

/-- The `i`-th sign-in request is answered. -/
def signInReply (s : App) (i : Nat) (ok : Bool) : App :=
  match s.signIns[i]? with
  | none => s
  | some (.read uid) => (s.taken i).populated uid ok
  | some (.form a firstName lastName) => (s.taken i).made a firstName lastName ok

/-! ## The system -/

def enabled (s : App) : Ev → Bool
  | .addItem .. => s.user.uid.isSome
  | .removeItemAt _ => s.user.uid.isSome
  | .textFieldDidEndEditing _ => s.user.uid.isSome
  | .checkout _ => s.user.uid.isSome
  | .reply i _ => decide (i < s.pending.length)
  | .signOut _ => s.user.uid.isSome
  | .authSignIn _ => true
  | .populateAsCurrentUser => s.auth.isSome
  | .make .. => s.auth.isSome
  | .signInReply i _ => decide (i < s.signIns.length)

def fire (s : App) : Ev → App
  | .addItem b x => s.addItem b x
  | .removeItemAt index => s.removeItemAt index
  | .textFieldDidEndEditing text => s.textFieldDidEndEditing text
  | .checkout now => s.checkout now
  | .reply i ok => s.reply i ok
  | .signOut ok => s.signOut ok
  | .authSignIn a => { s with auth := some a }
  | .populateAsCurrentUser => s.populateAsCurrentUser
  | .make firstName lastName => s.make firstName lastName
  | .signInReply i ok => s.signInReply i ok

def step (s : App) (e : Ev) : Option App :=
  if s.trap.isNone ∧ s.enabled e then some (s.fire e) else none

/-- A fresh process: nothing ordered, nothing pending. The stored histories
name only documents that exist already. -/
structure Launch (s : App) : Prop where
  user : s.user = {}
  orders : s.orders = fun _ => none
  pending : s.pending = []
  signIns : s.signIns = []
  trap : s.trap = none
  noteBy : s.noteBy = fun _ => none
  log : s.log = []
  old : ∀ uid p, s.users uid = some p → ∀ d ∈ p.previousOrders, d < s.nextID

end App

def app : LTS App Ev := LTS.ofFn App.Launch App.step

/-- Where `addToBasketTapped` puts the item of a session.
mirrors CheckoutCollectionViewCell.swift:39-47 -/
def addToBasketTapped (x : OrderItem) : Ev :=
  .addItem (if x.location = some "Cafe" then .cafe else .bar) x

/-! ## Data of the concrete runs -/

/-- A first launch on a device: an account signs up. -/
def signUp : List Ev :=
  [.authSignIn ⟨"u1", some "ab12@cam.ac.uk"⟩, .make (some "Ada") (some "Byron"), .signInReply 0 true]

/-- A finished session on an item without options or types. -/
def plainItem (name location : String) : OrderItem :=
  { refItem := { name, location, price := some (3 / 2), id := name }
    itemID := name, itemName := name, location, price := 3 / 2 }

example (name location : String) :
    (detail (plainItem name location).refItem []).Reachable (plainItem name location) := .init rfl

/-- One item in each order. -/
def teaAndAle : List Ev :=
  signUp ++ [.addItem .cafe (plainItem "tea" "Cafe"), .addItem .bar (plainItem "ale" "Bar")]

theorem App.launch_default : Launch {} := by
  refine ⟨rfl, rfl, rfl, rfl, rfl, rfl, rfl, ?_⟩
  intro uid p hp
  cases hp

end QadsCafe
