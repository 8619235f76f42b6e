import Mathlib.Data.Finset.Basic
import Mathlib.Logic.Function.Basic
import QadsCafe.L4App.App

/-!
# Launch, sign-in, sign-up, sign-out

`Device` is one installation of the app over its launches: the account that
Firebase keeps signed in, the stored `users` documents, the notification
topics the device is subscribed to and, of the running process, the profile
part of `currentUser`, the root screen and the requests in flight.

* **Documents.** `App` has a `users` document as `populate` decodes it; here
  it is the untyped map that `make` writes and `populate` reads.
* **Requests.** A tap on a sign-in button, a profile read and the write of the
  sign-up form are requests; each is answered at most once, in any order, by
  an event of its own. A write is applied iff it is answered with success.
* **Launches.** A launch ends the running process. The requests in flight are
  never answered; each write among them has been applied or is lost
  (`landed`). A trap ends the process too, and only a launch follows it.

A provider that is cancelled, or that hands over no token, calls no closure of
the app. A successful sign-in has its `additionalUserInfo`.
-/
namespace QadsCafe

open Core

/-- The root view controller; `closed` before the first launch. -/
inductive Screen where
  | closed | launchScreen | signIn | signUp | main
  deriving DecidableEq, Repr

inductive Provider where
  | google | apple
  deriving DecidableEq, Repr

/-- Whose completion runs after `populateAsCurrentUser`. -/
inductive Reader where
  | scene | handler
  deriving DecidableEq, Repr

/-- Where the completion goes without a `uid`. -/
def Reader.fallback : Reader → Screen
  | .scene => .signIn
  | .handler => .signUp

inductive Request where
  | auth (p : Provider)
  | read (uid : String) (reader : Reader)
  | write (a : Account) (firstName lastName : Option String)

inductive AuthResult where
  | cancelled
  | error
  | success (a : Account) (isNewUser : Bool)

inductive ReadResult where
  | found (data : Dict Value)
  | missing
  | error

/-- A `Character`: the first scalar of a grapheme cluster and the others. -/
structure Grapheme where
  first : Char
  others : List Char := []

/-- What is in a text field. -/
abbrev FieldText := List Grapheme

def FieldText.string (text : FieldText) : String :=
  String.ofList (text.flatMap fun g => g.first :: g.others)

namespace Device

/-- mirrors Helpers/User.swift:12-20, less the two orders -/
structure User where
  uid : Option String := none
  crsid : Option String := none
  firstName : Option String := none
  lastName : Option String := none
  email : Option String := none
  previousOrders : List String := []
  deriving DecidableEq

/-- mirrors Helpers/User.swift:22-29 -/
def populate (data : Dict Value) : User where
  uid := (data.lookup "uid").bind Value.asString
  crsid := (data.lookup "crsid").bind Value.asString
  previousOrders := ((data.lookup "previous_orders").bind Value.asStrings).getD []
  firstName := (data.lookup "firstname").bind Value.asString
  lastName := (data.lookup "lastname").bind Value.asString
  email := (data.lookup "email").bind Value.asString

/-- `string as Any` -/
def asAny : Option String → Value
  | some s => .string s
  | none => .null

/-- The document `make` sets.
mirrors Helpers/User.swift:175-185 -/
def makeDocument (a : Account) (firstName lastName : Option String) : Dict Value :=
  [("uid", .string a.uid),
    ("crsid", .string ((a.email.map App.crsidOf).getD "UNKNOWN")),
    ("email", .string (a.email.getD "UNKNOWN")),
    ("firstname", asAny firstName),
    ("lastname", asAny lastName)]

end Device

structure Device where
  auth : Option Account := none
  users : String → Option (Dict Value) := fun _ => none
  topics : Finset String := ∅
  user : Device.User := {}
  screen : Screen := .closed
  pending : List Request := []
  trap : Option Trap := none

namespace Device

/-- `landed` lists, for the requests in flight, whether a write was applied. -/
inductive Event where
  | launch (landed : List Bool)
  | signInTapped (p : Provider)
  | authReply (i : Nat) (r : AuthResult)
  | readReply (i : Nat) (r : ReadResult)
  | signUpButton (firstName lastName : FieldText)
  | writeReply (i : Nat) (ok : Bool)
  | layout
  | signOutTapped (ok : Bool)

def crash (s : Device) : Device := { s with trap := some .nilUnwrap }

def request (s : Device) (r : Request) : Device := { s with pending := s.pending ++ [r] }

def answered (s : Device) (i : Nat) : Device := { s with pending := s.pending.eraseIdx i }

/-! ## Topics -/

def subscribe (s : Device) (topic : String) : Device := { s with topics := insert topic s.topics }

def unsubscribe (s : Device) (topic : String) : Device := { s with topics := s.topics.erase topic }

/-- mirrors Helpers/User.swift:148-152 -/
def signIn (s : Device) : Device :=
  match s.user.uid, s.user.crsid with
  | some uid, some crsid => (s.subscribe uid).subscribe crsid
  | some uid, none => (s.subscribe uid).crash
  | none, _ => s.crash

/-- `currentUser.signIn()`, then the tab bar becomes the root screen.
mirrors SceneDelegate.swift:46-52, SignInViewController.swift:133-139 and
203-209, SignUpViewController.swift:78-86 -/
def enter (s : Device) : Device :=
  { s.signIn with screen := if s.signIn.trap.isSome then s.screen else .main }

/-- `ok` is false when Firebase's own sign-out throws.
mirrors Helpers/User.swift:154-169 and CafeViewController.swift:196-204 -/
def signOutTapped (s : Device) (ok : Bool) : Device :=
  match s.user.uid, s.user.crsid with
  | some uid, some crsid =>
    { (s.unsubscribe uid).unsubscribe crsid with
      auth := if ok then none else s.auth
      user := populate []
      screen := .signIn }
  | some uid, none => (s.unsubscribe uid).crash
  | none, _ => s.crash

/-! ## Profile reads -/

/-- The read is issued for the account signed in at that moment.
mirrors Helpers/User.swift:31-43 -/
def populateAsCurrentUser (s : Device) (reader : Reader) : Device :=
  match s.auth with
  | none => s
  | some a => s.request (.read a.uid reader)

/-- What a read that is answered does to the user object.
mirrors Helpers/User.swift:44-58 -/
def load (u : User) : ReadResult → User
  | .found data => populate data
  | .missing | .error => u

/-- mirrors Helpers/User.swift:43-60, SceneDelegate.swift:38-53,
SignInViewController.swift:121-140 and 192-211 -/
def readReply (s : Device) (reader : Reader) (r : ReadResult) : Device :=
  let s := { s with user := load s.user r }
  if s.user.uid.isNone then { s with screen := reader.fallback } else s.enter

/-! ## Signing in -/

/-- With an error the Google handler goes on to unwrap the missing result; the
Apple handler does nothing.
mirrors SignInViewController.swift:98-143 and 149-215 -/
def authReply (s : Device) (p : Provider) : AuthResult → Device
  | .cancelled => s
  | .error =>
    match p with
    | .google => s.crash
    | .apple => s
  | .success a isNewUser =>
    let s := { s with auth := some a }
    if isNewUser then { s with screen := .signUp } else s.populateAsCurrentUser .handler

/-! ## Signing up -/

/-- `Character.isWhitespace`: that of the first scalar. -/
def isWhitespace (g : Grapheme) : Bool :=
  let n := g.first.toNat
  (9 ≤ n && n ≤ 13) || n = 32 || n = 0x85 || n = 0xA0 || n = 0x1680 || (0x2000 ≤ n && n ≤ 0x200A) ||
    n = 0x2028 || n = 0x2029 || n = 0x202F || n = 0x205F || n = 0x3000

/-- mirrors SignUpViewController.swift:30-39 -/
def validateFields (firstName lastName : FieldText) : Option String :=
  if firstName.all isWhitespace || lastName.all isWhitespace then
    some "Please fill in all details"
  else none

/-- mirrors Helpers/User.swift:171-185 -/
def make (s : Device) : Device :=
  match s.auth with
  | none => s.crash
  | some a => s.request (.write a s.user.firstName s.user.lastName)

/-- A text field always has a text.
mirrors SignUpViewController.swift:68-92 -/
def signUpButton (s : Device) (firstName lastName : FieldText) : Device :=
  match validateFields firstName lastName with
  | some _ => s
  | none =>
    make { s with
      user := { s.user with firstName := some firstName.string, lastName := some lastName.string } }

/-- The write of a sign-up form is applied. -/
def applyWrite (users : String → Option (Dict Value)) : Request → String → Option (Dict Value)
  | .write a firstName lastName => Function.update users a.uid (some (makeDocument a firstName lastName))
  | _ => users

/-- The local fields are set whether or not the write succeeded.
mirrors Helpers/User.swift:185-197 -/
def writeReply (s : Device) (a : Account) (firstName lastName : Option String) (ok : Bool) : Device :=
  enter { s with
    users := if ok then applyWrite s.users (.write a firstName lastName) else s.users
    user := { s.user with uid := some a.uid, email := a.email, crsid := a.email.map App.crsidOf } }

/-! ## The basket footer -/

/-- mirrors DetailsFooterCollectionReusableView.swift:29-36 -/
def layout (s : Device) : Device :=
  if s.user.firstName.isSome ∧ s.user.lastName.isSome then s else s.crash

/-! ## Launching -/

def land (s : Device) (landed : List Bool) : String → Option (Dict Value) :=
  (s.pending.zip landed).foldl (fun users r => if r.2 then applyWrite users r.1 else users) s.users

/-- mirrors SceneDelegate.swift:17-60 -/
def launch (s : Device) (landed : List Bool) : Device :=
  let s := { s with users := s.land landed, user := {}, pending := [], trap := none }
  match s.auth with
  | none => { s with screen := .signIn }
  | some _ => populateAsCurrentUser { s with screen := .launchScreen } .scene

/-! ## The system -/

def act (s : Device) : Event → Option Device
  | .launch _ => none
  | .signInTapped p => if s.screen = .signIn then some (s.request (.auth p)) else none
  | .authReply i r =>
    match s.pending[i]? with
    | some (.auth p) => some ((s.answered i).authReply p r)
    | _ => none
  | .readReply i r =>
    match s.pending[i]? with
    | some (.read _ reader) => some ((s.answered i).readReply reader r)
    | _ => none
  | .signUpButton firstName lastName =>
    if s.screen = .signUp then some (s.signUpButton firstName lastName) else none
  | .writeReply i ok =>
    match s.pending[i]? with
    | some (.write a firstName lastName) => some ((s.answered i).writeReply a firstName lastName ok)
    | _ => none
  | .layout => if s.screen = .main then some s.layout else none
  | .signOutTapped ok => if s.screen = .main then some (s.signOutTapped ok) else none

def step (s : Device) : Event → Option Device
  | .launch landed => some (s.launch landed)
  | e => if s.trap.isSome then none else s.act e

/-- A new installation: not running, subscribed to nothing. -/
structure Installed (s : Device) : Prop where
  topics : s.topics = ∅
  user : s.user = {}
  screen : s.screen = .closed
  pending : s.pending = []
  trap : s.trap = none

/-- A read returns the document that is stored when it is answered. -/
def Stored (s : Device) : Event → Prop
  | .readReply i r => ∀ uid reader, s.pending[i]? = some (.read uid reader) →
    match r with
    | .found data => s.users uid = some data
    | .missing => s.users uid = none
    | .error => True
  | _ => True

end Device

/-- The sessions in which a read may return anything. -/
def sessions : LTS Device Device.Event := LTS.ofFn Device.Installed Device.step

def device : LTS Device Device.Event := sessions.when Device.Stored

/-- A text whose scalars are characters of their own. -/
def typed (text : String) : FieldText := text.toList.map fun c => ⟨c, []⟩

end QadsCafe
