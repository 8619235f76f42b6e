import QadsCafe.L2Detail.Calls

/-!
# The allergy names arrive late

`createOrderItem` fills in the options and the types at once and asks for the
settings document; the allergy names are appended by the callback, while the
customer may already be editing. `detail item names` has the names from the
start.

`opening item` is the session as it runs, with the callback as an event of its
own. `late_allergens`: it does not matter when the names arrive. A session in
which they come after the first edits is one in which they were there, and
among these edits is no tap on an allergy.
-/
namespace QadsCafe

open Core

/-- The callback of the settings document; an error, a missing document and a
missing list give no names.
mirrors Helpers/Order.swift:296-316 -/
def OrderItem.getAllergenList (x : OrderItem) (names : List String) : OrderItem :=
  { x with allergies := x.allergies ++ names.map fun name => { name } }

/-- mirrors ItemDetailsViewController.swift:21-33 -/
structure Opening where
  item : OrderItem
  waiting : Bool := true

inductive OpeningEvent where
  | edit (e : Edit)
  | allergens (names : List String)

namespace Opening

inductive Step : Opening → OpeningEvent → Opening → Prop
  | edit {s : Opening} {e : Edit} {y : OrderItem} (hs : Shown s.item e) (h : edit s.item e = some y) :
      Step s (.edit e) { s with item := y }
  | allergens {s : Opening} (hw : s.waiting = true) (names : List String) :
      Step s (.allergens names) { item := s.item.getAllergenList names, waiting := false }

end Opening

def opening (item : Item) : LTS Opening OpeningEvent where
  init s := createOrderItem item [] = some s.item ∧ s.waiting = true
  step := Opening.Step

def Edit.isAllergy : Edit → Bool
  | .tapAllergy _ => true
  | _ => false

/-! ## Edits and the names -/

theorem createOrderItem_allergens (item : Item) (names : List String) :
    createOrderItem item names = (createOrderItem item []).map (·.getAllergenList names) := by
  unfold createOrderItem
  cases (item.options.getD []).mapM fun entry => makeOption entry.2 with
  | none => rfl
  | some options =>
    cases (item.types.getD []).mapM makeType with
    | none => rfl
    | some types => rfl

section
variable (x : OrderItem) (names : List String)

theorem didSelectRowAt_allergens (c : OptionsCell) (row : Nat) :
    c.didSelectRowAt row (x.getAllergenList names) =
      (c.didSelectRowAt row x).map (·.getAllergenList names) := by
  cases hl : c.getOptionList x with
  | none =>
    have hl' : c.getOptionList (x.getAllergenList names) = none := hl
    simp only [OptionsCell.didSelectRowAt, hl, hl', Option.bind_eq_bind, Option.bind_none, Option.map_none]
  | some l =>
    have hl' : c.getOptionList (x.getAllergenList names) = some l := hl
    cases ho : l[row]? with
    | none =>
      simp only [OptionsCell.didSelectRowAt, hl, hl', ho, Option.bind_eq_bind, Option.bind_some,
        Option.bind_none, Option.map_none]
    | some o =>
      have hsave : ∀ l', c.saveList (x.getAllergenList names) l' =
          (c.saveList x l').getAllergenList names := by
        intro l'
        unfold OptionsCell.saveList
        cases c.cellType <;> rfl
      rw [didSelectRowAt_eq hl ho, didSelectRowAt_eq hl' ho, hsave, Option.map_some]
      split <;> rfl

/-- Appending the names commutes with every edit but a tap on an allergy. -/
theorem edit_allergens {e : Edit} (he : e.isAllergy = false) :
    edit (x.getAllergenList names) e = (edit x e).map (·.getAllergenList names) := by
  cases e with
  | tapRow reused cell row =>
    have hcell : cellForItemAt reused (x.getAllergenList names) cell = cellForItemAt reused x cell := rfl
    simp only [edit, hcell]
    cases cellForItemAt reused x cell with
    | none => rfl
    | some c => exact didSelectRowAt_allergens x names c row
  | quantityStepper row value =>
    simp only [edit, OrderItem.quantityStepper]
    have hlen : (x.getAllergenList names).options = x.options := rfl
    rw [hlen]
    split <;> rfl
  | tapAllergy row => cases he
  | stepperTapped value => rfl

theorem shown_allergens {e : Edit} (he : e.isAllergy = false) :
    Shown (x.getAllergenList names) e ↔ Shown x e := by
  cases e with
  | tapAllergy row => cases he
  | _ => exact Iff.rfl

end

/-! ## Runs -/

theorem Edited.noAllergies {x y : OrderItem} {e : Edit} (h : Edited x e y) (hx : x.allergies = []) :
    e.isAllergy = false ∧ y.allergies = [] := by
  cases h with
  | same => exact ⟨rfl, hx⟩
  | tap _ _ row r => exact ⟨rfl, by cases r <;> exact hx⟩
  | option => exact ⟨rfl, hx⟩
  | allergy row hrow =>
    rw [hx] at hrow
    exact absurd hrow (Nat.not_lt_zero row)
  | quantity => exact ⟨rfl, hx⟩

/-- An edit before the callback is the same edit of the session that has the
names. -/
theorem detail_early {item : Item} {names : List String} {x y' : OrderItem} {e : Edit}
    (he : e.isAllergy = false) : (detail item names).step (x.getAllergenList names) e y' ↔
      ∃ y, (opening item).step ⟨x, true⟩ (.edit e) ⟨y, true⟩ ∧ y' = y.getAllergenList names := by
  constructor
  · rintro ⟨hs, h⟩
    rw [edit_allergens x names he] at h
    obtain ⟨y, hy, rfl⟩ := Option.map_eq_some_iff.mp h
    exact ⟨y, .edit ((shown_allergens x names he).mp hs) hy, rfl⟩
  · rintro ⟨y, hstep, rfl⟩
    obtain ⟨hs, h⟩ : Shown x e ∧ edit x e = some y := by
      cases hstep with
      | edit hs h => exact ⟨hs, h⟩
    refine ⟨(shown_allergens x names he).mpr hs, ?_⟩
    rw [edit_allergens x names he, h, Option.map_some]

theorem early_run {item : Item} (names : List String) : ∀ {es : List Edit} {x y' : OrderItem},
    (∀ e ∈ es, e.isAllergy = false) →
    ((detail item names).Run (x.getAllergenList names) es y' ↔
      ∃ y, (opening item).Run ⟨x, true⟩ (es.map .edit) ⟨y, true⟩ ∧ y' = y.getAllergenList names) := by
  intro es
  induction es with
  | nil =>
    intro x y' _
    constructor
    · intro h; cases h; exact ⟨x, .nil _, rfl⟩
    · rintro ⟨y, h, rfl⟩; cases h; exact .nil _
  | cons e es ih =>
    intro x y' hes
    have he := hes e List.mem_cons_self
    have htail := fun e h => hes e (List.mem_cons_of_mem _ h)
    constructor
    · intro h
      cases h with
      | cons hs hr =>
        obtain ⟨u, hu, rfl⟩ := (detail_early he).mp hs
        obtain ⟨y, hy, rfl⟩ := (ih htail).mp hr
        exact ⟨y, .cons hu hy, rfl⟩
    · rintro ⟨y, h, rfl⟩
      cases h with
      | cons hs hr =>
        cases hs with
        | @edit _ u hsh hu =>
          exact .cons ((detail_early he).mpr ⟨u, .edit hsh hu, rfl⟩) ((ih htail).mpr ⟨y, hr, rfl⟩)

theorem late_run {item : Item} (names : List String) {es : List Edit} {x y : OrderItem} :
    (opening item).Run ⟨x, false⟩ (es.map .edit) ⟨y, false⟩ ↔ (detail item names).Run x es y := by
  induction es generalizing x with
  | nil =>
    constructor
    · intro h; cases h; exact .nil _
    · intro h; cases h; exact .nil _
  | cons e es ih =>
    constructor
    · intro h
      cases h with
      | cons hs hr =>
        cases hs with
        | edit hsh hu => exact .cons ⟨hsh, hu⟩ (ih.mp hr)
    · intro h
      cases h with
      | cons hs hr => exact .cons (.edit hs.1 hs.2) (ih.mpr hr)

/-- Before the callback there is no allergy to tap, and the callback is still
to come. -/
theorem noAllergies_run {item : Item} {es : List Edit} {s t : Opening} (hw : s.waiting = true)
    (hx : s.item.allergies = []) (hr : (opening item).Run s (es.map .edit) t) :
    t.waiting = true ∧ ∀ e ∈ es, e.isAllergy = false := by
  induction es generalizing s with
  | nil => cases hr; exact ⟨hw, fun e he => by cases he⟩
  | cons e es ih =>
    cases hr with
    | cons hs hr =>
      cases hs with
      | @edit _ y hsh hu =>
        obtain ⟨he, hy⟩ := (edit_cases hsh hu).noAllergies hx
        obtain ⟨ht, hes⟩ := ih (s := { s with item := y }) hw hy hr
        refine ⟨ht, fun e' he' => ?_⟩
        rcases List.mem_cons.mp he' with rfl | he'
        · exact he
        · exact hes e' he'

/-- **Late names.** Of the sessions on `item`, those in which the names arrive
after the edits `es₁` are those in which the names were there from the start
and no edit of `es₁` taps an allergy. -/
theorem late_allergens {item : Item} {names : List String} {x₀ : OrderItem}
    (h₀ : createOrderItem item [] = some x₀) (es₁ es₂ : List Edit) (x : OrderItem) :
    (opening item).Run ⟨x₀, true⟩ (es₁.map .edit ++ .allergens names :: es₂.map .edit) ⟨x, false⟩ ↔
      (∀ e ∈ es₁, e.isAllergy = false) ∧
        createOrderItem item names = some (x₀.getAllergenList names) ∧
        (detail item names).Run (x₀.getAllergenList names) (es₁ ++ es₂) x := by
  have hnone : x₀.allergies = [] := (createOrderItem_created h₀).allergies
  have hcreate : createOrderItem item names = some (x₀.getAllergenList names) := by
    rw [createOrderItem_allergens, h₀, Option.map_some]
  constructor
  · intro h
    obtain ⟨u, hu, hrest⟩ := h.split
    obtain ⟨hw, hes⟩ := noAllergies_run (s := ⟨x₀, true⟩) rfl hnone hu
    obtain ⟨v, w⟩ := u
    obtain rfl : w = true := hw
    cases hrest with
    | cons hs hr =>
      cases hs with
      | allergens =>
        refine ⟨hes, hcreate, ?_⟩
        exact ((early_run names hes).mpr ⟨v, hu, rfl⟩).append ((late_run names).mp hr)
  · rintro ⟨hes, -, hr⟩
    obtain ⟨y', hearly, hlate⟩ := hr.split
    obtain ⟨v, hv, rfl⟩ := (early_run names hes).mp hearly
    exact hv.append (.cons (.allergens rfl names) ((late_run names).mpr hlate))

/-- Cream is chosen first, then the names arrive and one is ticked. -/
theorem late_allergens_mocha : ∃ x, x.allergies = [⟨"Nuts", true⟩] ∧
    (detail mocha ["Nuts"]).Run (mochaOpened.getAllergenList ["Nuts"])
      ([.tapRow {} 1 1] ++ [.tapAllergy 0]) x := by
  have h₀ : createOrderItem mocha [] = some mochaOpened := rfl
  have hrun : (opening mocha).Run ⟨mochaOpened, true⟩
      ([.tapRow {} 1 1].map .edit ++ .allergens ["Nuts"] :: [.tapAllergy 0].map .edit) ⟨_, false⟩ :=
    .cons (.edit ⟨_, rfl, by decide⟩ rfl) (.cons (.allergens rfl ["Nuts"])
      (.cons (.edit (show 0 < 1 by decide) rfl) (.nil _)))
  exact ⟨_, rfl, ((late_allergens h₀ _ _ _).mp hrun).2.2⟩

/-- Whichever names are still to come, the session is one that has them. -/
structure Opening.Sound (item : Item) (s : Opening) : Prop where
  early : s.waiting = true → s.item.allergies = [] ∧
    ∀ names, (detail item names).Reachable (s.item.getAllergenList names)
  late : s.waiting = false → ∃ names, (detail item names).Reachable s.item

theorem Opening.Sound.step {item : Item} {s t : Opening} {e : OpeningEvent} (h : s.Sound item)
    (hs : s.Step e t) : t.Sound item := by
  cases hs with
  | edit hsh hu =>
    refine ⟨fun hw => ?_, fun hw => ?_⟩
    · obtain ⟨hnone, hreach⟩ := h.early hw
      obtain ⟨he, hy⟩ := (edit_cases hsh hu).noAllergies hnone
      have hstep : ∀ names, (detail item names).step (s.item.getAllergenList names) _ _ :=
        fun names => (detail_early he).mpr ⟨_, .edit hsh hu, rfl⟩
      exact ⟨hy, fun names => (hreach names).step (hstep names)⟩
    · obtain ⟨names, hreach⟩ := h.late hw
      exact ⟨names, hreach.step ⟨hsh, hu⟩⟩
  | allergens hw names =>
    exact ⟨fun hw' => Bool.noConfusion hw', fun _ => ⟨names, (h.early hw).2 names⟩⟩

theorem Opening.Sound.opened {item : Item} {x₀ : OrderItem} (h : createOrderItem item [] = some x₀) :
    (⟨x₀, true⟩ : Opening).Sound item := by
  refine ⟨fun _ => ⟨(createOrderItem_created h).allergies, fun names => .init ?_⟩,
    fun hw => Bool.noConfusion hw⟩
  show createOrderItem item names = _
  rw [createOrderItem_allergens, h, Option.map_some]

/-- At any time the order item is one of a session that had the names. -/
theorem Opening.Sound.detail {item : Item} {s : Opening} (h : s.Sound item) :
    ∃ names, (detail item names).Reachable s.item := by
  cases hw : s.waiting with
  | false => exact h.late hw
  | true =>
    have hnil := (h.early hw).2 []
    have hitem : s.item.getAllergenList [] = s.item := by
      simp only [OrderItem.getAllergenList, List.map_nil, List.append_nil]
    rw [hitem] at hnil
    exact ⟨[], hnil⟩

end QadsCafe
