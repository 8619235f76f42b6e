import Mathlib.Data.List.Perm.Basic
import QadsCafe.L1Menu.Categories
import QadsCafe.L1Menu.ItemList

/-!
# The menu tabs

`CafeViewController`, `BarViewController` and `ButteryViewController` are one
screen with an outlet's name put in: a list of categories and, under it, a
banner that comes down while the outlet is closed. The Buttery's queries for
its open status are commented out, in `setUp` and in the pull to refresh.

`tab o sort` is the tab of `o` from the moment it is loaded. A query for the
status can be in flight many times and is answered in any order, with the
documents of that moment or an error.

Results:
* `status_run`: the status is the one delivered last, and the banner shows it;
  the refresh control spins exactly while a pull is unanswered. At the Buttery
  it spins for ever after the first pull.
* `tap_category`: a tap never traps, and opens the menu of the category it is
  on iff the status delivered last is not "closed".
-/
namespace QadsCafe

open Core

/-- The tab calls `setOpenStatus`.
mirrors CafeViewController.swift:35-38 and 66-69, BarViewController.swift:36-39 and 67-70,
ButteryViewController.swift:38-41 and 68-73 -/
def Outlet.hasOpenStatus : Outlet → Bool
  | .cafe | .bar => true
  | .buttery => false

/-- mirrors CafeViewController.swift:16-22, BarViewController.swift:15-21,
ButteryViewController.swift:17-21 -/
structure Tab where
  isOpen : Bool := true
  /-- `isOpenConstraint.constant`: -20 is up (Main.storyboard:808 and 976), 0 is down -/
  isOpenConstraint : Int := -20
  categories : List Category := []
  viewLoaded : Bool := false
  /-- the queries for the status in flight: whether a pull made them -/
  statusQueries : List Bool := []
  categoriesQuery : Bool := false
  isRefreshing : Bool := false

inductive TabEvent where
  | viewDidLoad
  | refreshData
  /-- the `i`th query for the status is answered; `none` is an error -/
  | statusReply (i : Nat) (locations : Option (Dict (Dict Value)))
  | categoriesReply (categories : Option (Dict (Dict Value)))

/-- The documents of an outlet in the collection `locations`.
mirrors CafeViewController.swift:91, BarViewController.swift:92 -/
def locationDocs (o : Outlet) (locations : Option (Dict (Dict Value))) : Dict (Dict Value) :=
  (locations.getD []).filter fun d => Value.fieldIn d.2 "name" [o.location]

/-- mirrors CafeViewController.swift:98, BarViewController.swift:99 -/
def openField (doc : Dict Value) : Bool := ((doc.lookup "open").bind Value.asBool).getD true

namespace Tab

variable (o : Outlet) (sort : SortBy Category) (t : Tab)

/-- mirrors CafeViewController.swift:109-124, BarViewController.swift:110-124 -/
def animateOpenBanner : Tab := { t with isOpenConstraint := if t.isOpen then -20 else 0 }

/-- One document of the answer.
mirrors CafeViewController.swift:95-102, BarViewController.swift:96-103 -/
def setOpen (d : String × Dict Value) : Tab := { t with isOpen := openField d.2 }.animateOpenBanner

/-- The query is made; the completion of a pull ends the refreshing.
mirrors CafeViewController.swift:85-107, BarViewController.swift:86-108 -/
def setOpenStatus (pulled : Bool) : Tab := { t with statusQueries := t.statusQueries ++ [pulled] }

/-- mirrors CafeViewController.swift:24-60, BarViewController.swift:23-60,
ButteryViewController.swift:23-63 -/
def viewDidLoad : Tab :=
  let t := if o.hasOpenStatus then t.setOpenStatus false else t
  { t with viewLoaded := true, categories := [], categoriesQuery := true }

/-- A pull: the control spins until `endRefreshing`.
mirrors CafeViewController.swift:64-69, BarViewController.swift:65-70,
ButteryViewController.swift:67-73 -/
def refreshData : Tab :=
  let t := { t with isRefreshing := true }
  if o.hasOpenStatus then t.setOpenStatus true else t

/-- mirrors CafeViewController.swift:92-106, BarViewController.swift:93-107 -/
def statusReply (i : Nat) (locations : Option (Dict (Dict Value))) : Option Tab :=
  t.statusQueries[i]?.map fun pulled =>
    let t := (locationDocs o locations).foldl setOpen
      { t with statusQueries := t.statusQueries.eraseIdx i }
    if pulled then { t with isRefreshing := false } else t

/-- mirrors CategoryList.swift:31-49 and ButteryViewController.swift:47-50 -/
def categoriesReply (categories : Option (Dict (Dict Value))) : Tab :=
  let list := t.categories ++ (categories.elim [] fun docs => getCategories docs o.location)
  { t with
    categories := if o = .buttery then sortButteryCategories sort list else list
    categoriesQuery := false }

/-- The items screen that a tap pushes, if any; `none` is a trap.
mirrors CafeViewController.swift:177-201, BarViewController.swift:175-190,
ButteryViewController.swift:171-192 -/
def didSelectItemAt (row : Nat) : Option (Option ItemsScreen) :=
  if !t.isOpen then some none
  else t.categories[row]?.map fun category =>
    some { location := o.location, category := category.name.getD "" }

/-- A view is loaded once; a control that spins cannot be pulled. -/
def step : TabEvent → Option Tab
  | .viewDidLoad => if t.viewLoaded then none else some (t.viewDidLoad o)
  | .refreshData => if t.viewLoaded && !t.isRefreshing then some (t.refreshData o) else none
  | .statusReply i locations => t.statusReply o i locations
  | .categoriesReply categories =>
    if t.categoriesQuery then some (t.categoriesReply o sort categories) else none

end Tab

def tab (o : Outlet) (sort : SortBy Category) : LTS Tab TabEvent := LTS.ofFn (· = {}) (Tab.step o sort)

namespace Tab

/-! ## What an answer does -/

/-- The banner is up while the outlet is open. -/
def Banner (t : Tab) : Prop := t.isOpenConstraint = if t.isOpen then -20 else 0

/-- The statuses that an event delivers. -/
def delivered (o : Outlet) : TabEvent → List Bool
  | .statusReply _ locations => (locationDocs o locations).map fun d => openField d.2
  | _ => []

theorem banner_setOpen (t : Tab) (d : String × Dict Value) : (t.setOpen d).Banner := rfl

/-- The last document decides, and the banner moves with it. -/
theorem foldl_setOpen (docs : Dict (Dict Value)) : ∀ {t : Tab}, t.Banner →
    ∃ isOpen isOpenConstraint, docs.foldl setOpen t = { t with isOpen, isOpenConstraint } ∧
      isOpen = (docs.map fun d => openField d.2).getLast?.getD t.isOpen ∧
      isOpenConstraint = if isOpen then -20 else 0 := by
  induction docs with
  | nil => intro t h; exact ⟨t.isOpen, t.isOpenConstraint, rfl, rfl, h⟩
  | cons d docs ih =>
    intro t h
    obtain ⟨isOpen, constraint, heq, hopen, hbanner⟩ := ih (banner_setOpen t d)
    refine ⟨isOpen, constraint, heq, ?_, hbanner⟩
    rw [List.map_cons, List.getLast?_cons, Option.getD_some]
    exact hopen

theorem statusReply_cases {o : Outlet} {t u : Tab} {i : Nat} {locations : Option (Dict (Dict Value))}
    (hb : t.Banner) (h : t.statusReply o i locations = some u) :
    ∃ pulled, t.statusQueries[i]? = some pulled ∧ u.Banner ∧
      u.isOpen = (delivered o (.statusReply i locations)).getLast?.getD t.isOpen ∧
      u.statusQueries = t.statusQueries.eraseIdx i ∧
      u.isRefreshing = (t.isRefreshing && !pulled) := by
  obtain ⟨pulled, hp, rfl⟩ := Option.map_eq_some_iff.mp h
  obtain ⟨isOpen, constraint, heq, hopen, hbanner⟩ := foldl_setOpen (locationDocs o locations)
    (t := { t with statusQueries := t.statusQueries.eraseIdx i }) hb
  dsimp only
  rw [heq]
  refine ⟨pulled, hp, ?_⟩
  cases pulled with
  | true => exact ⟨hbanner, hopen, rfl, (Bool.and_false _).symm⟩
  | false => exact ⟨hbanner, hopen, rfl, (Bool.and_true _).symm⟩

/-! ## A run -/

/-- What holds after the events `ls`. -/
structure Sound (o : Outlet) (ls : List TabEvent) (t : Tab) : Prop where
  banner : t.Banner
  status : t.isOpen = (ls.flatMap (delivered o)).getLast?.getD true
  pulls : o.hasOpenStatus = true → t.statusQueries.count true = if t.isRefreshing then 1 else 0
  silent : o.hasOpenStatus = false →
    t.statusQueries = [] ∧ (t.isRefreshing = true ↔ .refreshData ∈ ls)
  alwaysOpen : o.hasOpenStatus = false → t.isOpen = true

/-- Events that deliver no status. -/
theorem status_quiet {o : Outlet} {ls : List TabEvent} {e : TabEvent} (he : delivered o e = []) :
    ((ls ++ [e]).flatMap (delivered o)).getLast? = (ls.flatMap (delivered o)).getLast? := by
  rw [List.flatMap_append, List.flatMap_singleton, he, List.append_nil]

theorem mem_quiet {ls : List TabEvent} {e : TabEvent} (he : e ≠ .refreshData) :
    .refreshData ∈ ls ++ [e] ↔ .refreshData ∈ ls := by
  simp [Ne.symm he]

theorem count_eraseIdx {l : List Bool} {i : Nat} {b : Bool} (h : l[i]? = some b) (c : Bool) :
    l.count c = (l.eraseIdx i).count c + if b = c then 1 else 0 := by
  obtain ⟨hi, rfl⟩ := List.getElem?_eq_some_iff.mp h
  rw [← (List.getElem_cons_eraseIdx_perm hi).count_eq c, List.count_cons]
  simp only [beq_iff_eq]

/-- An event that delivers nothing and leaves the status and the banner alone. -/
theorem Sound.quiet {o : Outlet} {ls : List TabEvent} {t u : Tab} {e : TabEvent} (h : t.Sound o ls)
    (he : delivered o e = []) (hopen : u.isOpen = t.isOpen)
    (hbanner : u.isOpenConstraint = t.isOpenConstraint)
    (hpulls : o.hasOpenStatus = true → u.statusQueries.count true = if u.isRefreshing then 1 else 0)
    (hsilent : o.hasOpenStatus = false →
      u.statusQueries = [] ∧ (u.isRefreshing = true ↔ .refreshData ∈ ls ++ [e])) :
    u.Sound o (ls ++ [e]) := by
  refine ⟨?_, ?_, hpulls, hsilent, fun ho => hopen.trans (h.alwaysOpen ho)⟩
  · unfold Banner
    rw [hbanner, hopen]
    exact h.banner
  · rw [status_quiet he, hopen]
    exact h.status

theorem Sound.viewDidLoad {o : Outlet} {ls : List TabEvent} {t : Tab} (h : t.Sound o ls) :
    (t.viewDidLoad o).Sound o (ls ++ [.viewDidLoad]) := by
  unfold Tab.viewDidLoad
  cases ho : o.hasOpenStatus with
  | true =>
    refine h.quiet rfl rfl rfl (fun _ => ?_) fun hf => absurd (ho.symm.trans hf) Bool.noConfusion
    show (t.statusQueries ++ [false]).count true = _
    rw [List.count_append]
    exact h.pulls ho
  | false =>
    refine h.quiet rfl rfl rfl (fun hf => absurd (ho.symm.trans hf) Bool.noConfusion) fun _ => ?_
    rw [mem_quiet TabEvent.noConfusion]
    exact h.silent ho

theorem Sound.refreshData {o : Outlet} {ls : List TabEvent} {t : Tab} (h : t.Sound o ls)
    (hr : t.isRefreshing = false) : (t.refreshData o).Sound o (ls ++ [.refreshData]) := by
  unfold Tab.refreshData
  cases ho : o.hasOpenStatus with
  | true =>
    refine h.quiet rfl rfl rfl (fun _ => ?_) fun hf => absurd (ho.symm.trans hf) Bool.noConfusion
    have hp := h.pulls ho
    rw [hr] at hp
    show (t.statusQueries ++ [true]).count true = 1
    rw [List.count_append, hp]
    rfl
  | false =>
    refine h.quiet rfl rfl rfl (fun hf => absurd (ho.symm.trans hf) Bool.noConfusion) fun _ => ?_
    exact ⟨(h.silent ho).1, iff_of_true rfl (List.mem_append_right _ (List.mem_singleton_self _))⟩

theorem Sound.statusReply {o : Outlet} {ls : List TabEvent} {t u : Tab} {i : Nat}
    {locations : Option (Dict (Dict Value))} (h : t.Sound o ls)
    (hs : t.statusReply o i locations = some u) : u.Sound o (ls ++ [.statusReply i locations]) := by
  obtain ⟨pulled, hp, hbanner, hopen, hqueries, hrefresh⟩ := statusReply_cases h.banner hs
  have hquiet : o.hasOpenStatus ≠ false := by
    intro ho
    rw [(h.silent ho).1] at hp
    cases hp
  refine ⟨hbanner, ?_, fun ho => ?_, fun ho => absurd ho hquiet, fun ho => absurd ho hquiet⟩
  · rw [List.flatMap_append, List.flatMap_singleton, List.getLast?_append, Option.getD_or, ← h.status]
    exact hopen
  · have hcount := count_eraseIdx hp true
    have hpulls := h.pulls ho
    rw [hqueries, hrefresh]
    cases pulled <;> cases hr : t.isRefreshing <;> simp_all

theorem Sound.step {o : Outlet} {sort : SortBy Category} {ls : List TabEvent} {t u : Tab}
    {e : TabEvent} (h : t.Sound o ls) (hs : t.step o sort e = some u) : u.Sound o (ls ++ [e]) := by
  cases e with
  | viewDidLoad =>
    simp only [Tab.step] at hs
    split at hs
    · cases hs
    · cases hs; exact h.viewDidLoad
  | refreshData =>
    simp only [Tab.step] at hs
    split at hs
    · rename_i hr
      cases hs
      rw [Bool.and_eq_true, Bool.not_eq_true'] at hr
      exact h.refreshData hr.2
    · cases hs
  | statusReply i locations => exact h.statusReply hs
  | categoriesReply categories =>
    simp only [Tab.step] at hs
    split at hs
    · cases hs
      refine h.quiet rfl rfl rfl h.pulls fun ho => ?_
      rw [mem_quiet TabEvent.noConfusion]
      exact h.silent ho
    · cases hs

theorem sound_run {o : Outlet} {sort : SortBy Category} {ls : List TabEvent} {t : Tab}
    (hr : (tab o sort).Run {} ls t) : t.Sound o ls := by
  refine hr.history (I := fun ls t => t.Sound o ls) ?_ fun ls t e u _ hi hs => hi.step hs
  refine ⟨rfl, rfl, fun _ => rfl, fun _ => ⟨rfl, ?_⟩, fun _ => rfl⟩
  exact iff_of_false Bool.false_ne_true List.not_mem_nil

/-- **Open or closed.** After any run of a tab its status is the one delivered
last, "open" if there was none, and the banner agrees with it. At the Cafe and
the Bar the control spins iff a pull is unanswered; at the Buttery, which is
always open, iff it was ever pulled. -/
theorem status_run {o : Outlet} {sort : SortBy Category} {ls : List TabEvent} {t : Tab}
    (hr : (tab o sort).Run {} ls t) :
    t.isOpen = (ls.flatMap (delivered o)).getLast?.getD true ∧
    t.isOpenConstraint = (if t.isOpen then -20 else 0) ∧
    (o ≠ .buttery → (t.isRefreshing = true ↔ true ∈ t.statusQueries)) ∧
    (o = .buttery → t.isOpen = true ∧ (t.isRefreshing = true ↔ .refreshData ∈ ls)) := by
  have h := sound_run hr
  refine ⟨h.status, h.banner, fun ho => ?_, fun ho => ?_⟩
  · have hopen : o.hasOpenStatus = true := by cases o <;> first | rfl | exact absurd rfl ho
    have hp := h.pulls hopen
    rw [← List.count_pos_iff, hp]
    cases t.isRefreshing <;> simp
  · subst ho
    exact ⟨h.alwaysOpen rfl, (h.silent rfl).2⟩

def cafeClosed : Dict (Dict Value) := [("cafe", [("name", .string "Cafe"), ("open", .bool false)])]

/-- The answer to the pull comes before the one to the first query, an error. -/
theorem status_closed : ∃ t, (tab .cafe .mergeSort).Run {}
    [.viewDidLoad, .refreshData, .statusReply 1 (some cafeClosed), .statusReply 0 none] t ∧
      t.isOpen = false ∧ t.isOpenConstraint = 0 ∧ ¬ t.isRefreshing = true := by
  obtain ⟨t, hrun, hopen, hqueries⟩ : ∃ t, (tab .cafe .mergeSort).Run {}
      [.viewDidLoad, .refreshData, .statusReply 1 (some cafeClosed), .statusReply 0 none] t ∧
        t.isOpen = false ∧ t.statusQueries = [] := ⟨_, LTS.run_of_exec rfl, rfl, rfl⟩
  obtain ⟨-, hbanner, hspins, -⟩ := status_run hrun
  refine ⟨t, hrun, hopen, ?_, ?_⟩
  · rw [hbanner, hopen]; rfl
  · rw [hspins (by decide), hqueries]
    exact List.not_mem_nil

/-- A tap on a row of the categories never traps. It opens the menu of its
category unless the status delivered last is "closed". -/
theorem tap_category {o : Outlet} {sort : SortBy Category} {ls : List TabEvent} {t : Tab}
    (hr : (tab o sort).Run {} ls t) {row : Nat} (hrow : row < t.categories.length) :
    ∃ c, t.categories[row]? = some c ∧ t.didSelectItemAt o row =
      some (if (ls.flatMap (delivered o)).getLast? = some false then none
        else some { location := o.location, category := c.name.getD "" }) := by
  refine ⟨_, List.getElem?_eq_getElem hrow, ?_⟩
  unfold didSelectItemAt
  rw [(sound_run hr).status, List.getElem?_eq_getElem hrow]
  cases (ls.flatMap (delivered o)).getLast? with
  | none => rfl
  | some isOpen => cases isOpen <;> rfl

end Tab

end QadsCafe
