import QadsCafe.Core.Decode
import QadsCafe.L2Detail.Screen

/-!
# What a session keeps

`edit_cases` lists what one action on the screen does to the order item. Three
facts about every state of a session follow:

* `SameMenu`: the parts that come from the menu (names, prices, which options
  can have multiple, the location) stay as `createOrderItem` made them;
* the quantity stays between 1 and 10;
* `Fresh`: with whole pence on the menu, the price is the quantity times the
  base price plus the selected extras, and rounding changes nothing.
-/
namespace QadsCafe

open Core

/-- A list that a row tap acts on: the options, or the choices of a type. -/
inductive OptionList where
  | options
  | choices (i : Nat)
  deriving DecidableEq, Repr

namespace OrderItem

def getList (x : OrderItem) : OptionList → Option (List ItemOption)
  | .options => some x.options
  | .choices i => x.types[i]?.map (·.choices)

def setList (x : OrderItem) : OptionList → List ItemOption → OrderItem
  | .options, l => { x with options := l }
  | .choices i, l => { x with types := x.types.modify i fun t => { t with choices := l } }

/-- `allergies[row].isChosen.toggle()` -/
def allergyToggled (x : OrderItem) (row : Nat) : OrderItem :=
  { x with allergies := x.allergies.modify row fun a => { a with isChosen := !a.isChosen } }

end OrderItem

/-- What a tap on a single-choice row does to its list. -/
def tapped (row : Nat) (l : List ItemOption) : List ItemOption :=
  if l[row]?.any (fun o => decide (o.quantity > 0)) then OptionsCell.setQuantityAt row 0 l
  else OptionsCell.setQuantityAt row 1 (OptionsCell.deselectOthers 0 l).1

/-- What one action does. -/
inductive Edited (x : OrderItem) : Edit → OrderItem → Prop
  | same (reused : OptionsCell) (cell row : Nat) : Edited x (.tapRow reused cell row) x
  | tap (reused : OptionsCell) (cell row : Nat) (r : OptionList) (l : List ItemOption)
      (o : ItemOption) (hl : x.getList r = some l) (ho : l[row]? = some o)
      (hm : o.canHaveMultiple = false) :
      Edited x (.tapRow reused cell row) (x.setList r (tapped row l)).updatePrice
  | option (row : Nat) (value : Int) (o : ItemOption) (ho : x.options[row]? = some o)
      (hm : o.canHaveMultiple = true) (h0 : 0 ≤ value) (h20 : value ≤ 20) :
      Edited x (.quantityStepper row value)
        (x.setList .options (OptionsCell.setQuantityAt row value x.options)).updatePrice
  | allergy (row : Nat) (h : row < x.allergies.length) :
      Edited x (.tapAllergy row) (x.allergyToggled row)
  | quantity (value : Int) (h1 : 1 ≤ value) (h10 : value ≤ 10) :
      Edited x (.stepperTapped value) (x.stepperTapped value)

/-- The list behind a cell. -/
def cellList (x : OrderItem) (cell : Nat) : Option OptionList :=
  match getCellType x cell with
  | .optionCell => some .options
  | .typeCell => some (.choices (cell - 2))
  | _ => none

theorem getCellType_typeCell {x : OrderItem} {cell : Nat} (h : getCellType x cell = .typeCell) :
    2 ≤ cell ∧ cell - 2 < x.types.length := by
  simp only [getCellType] at h
  split at h
  · cases h
  split at h
  · cases h
  split at h
  · rename_i ht; omega
  split at h <;> cases h

theorem getCellType_optionCell {x : OrderItem} {cell : Nat} (h : getCellType x cell = .optionCell) :
    cell = 1 := by
  simp only [getCellType] at h
  split at h
  · cases h
  split at h
  · assumption
  split at h
  · cases h
  split at h <;> cases h

theorem cellList_options {x : OrderItem} {cell : Nat} (h : cellList x cell = some .options) :
    cell = 1 := by
  simp only [cellList] at h
  split at h
  · rename_i hc; exact getCellType_optionCell hc
  · cases h
  · cases h

theorem cellList_choices {x : OrderItem} {cell k : Nat} (h : cellList x cell = some (.choices k)) :
    cell = k + 2 := by
  simp only [cellList] at h
  split at h
  · cases h
  · rename_i hc
    have h2 := (getCellType_typeCell hc).1
    cases h; omega
  · cases h

/-- A cell reads and saves its own list. -/
theorem cellForItemAt_list {x : OrderItem} {reused c : OptionsCell} {cell : Nat}
    (h : cellForItemAt reused x cell = some c) :
    ∃ r, cellList x cell = some r ∧ c.getOptionList x = x.getList r ∧
      ∀ l, c.saveList x l = x.setList r l := by
  unfold cellForItemAt at h
  split at h
  · rename_i ht
    cases h
    exact ⟨.options, by simp only [cellList, ht], rfl, fun _ => rfl⟩
  · rename_i ht
    cases h
    obtain ⟨h2, -⟩ := getCellType_typeCell ht
    have hi : ((cell : Int) - 2).toNat = cell - 2 := by omega
    refine ⟨.choices (cell - 2), by simp only [cellList, ht], ?_, fun l => ?_⟩
    · simp [OptionsCell.getOptionList, index, h2, hi, OrderItem.getList]
    · simp [OptionsCell.saveList, hi, OrderItem.setList]
  · cases h

theorem switchSelectedTo_eq {c : OptionsCell} {row : Nat} {x : OrderItem} {l : List ItemOption}
    {o : ItemOption} (hl : c.getOptionList x = some l) (ho : l[row]? = some o) :
    (c.switchSelectedTo row x).map Prod.fst = some (c.saveList x (tapped row l)).updatePrice := by
  unfold OptionsCell.switchSelectedTo tapped
  simp only [hl, ho, Option.bind_eq_bind, Option.bind_some, Option.any_some, decide_eq_true_eq]
  split <;> rfl

theorem didSelectRowAt_eq {c : OptionsCell} {row : Nat} {x : OrderItem} {l : List ItemOption}
    {o : ItemOption} (hl : c.getOptionList x = some l) (ho : l[row]? = some o) :
    c.didSelectRowAt row x =
      some (if o.canHaveMultiple then x else (c.saveList x (tapped row l)).updatePrice) := by
  have hs := switchSelectedTo_eq hl ho
  unfold OptionsCell.didSelectRowAt
  simp only [hl, ho, Option.bind_eq_bind, Option.bind_some]
  split
  · rfl
  · obtain ⟨p, hp, hfst⟩ := Option.map_eq_some_iff.mp hs
    rw [hp, ← hfst]; rfl

/-- What a tap on a row of a cell does to the list of that cell. -/
theorem tapRow_cases {x y : OrderItem} {reused : OptionsCell} {cell row : Nat}
    (hs : Shown x (.tapRow reused cell row)) (he : edit x (.tapRow reused cell row) = some y) :
    ∃ r l o, cellList x cell = some r ∧ x.getList r = some l ∧ l[row]? = some o ∧
      y = if o.canHaveMultiple then x else (x.setList r (tapped row l)).updatePrice := by
  obtain ⟨l, hl, hrow⟩ := hs
  simp only [edit] at he
  unfold shownList at hl
  cases hc : cellForItemAt reused x cell with
  | none => rw [hc] at he; cases he
  | some c =>
    rw [hc, Option.bind_some] at he hl
    obtain ⟨r, hr, hget, hsave⟩ := cellForItemAt_list hc
    have ho : l[row]? = some l[row] := List.getElem?_eq_getElem hrow
    rw [didSelectRowAt_eq hl ho, Option.some.injEq, hsave] at he
    exact ⟨r, l, _, hr, by rw [← hget]; exact hl, ho, he.symm⟩

theorem edit_cases {x y : OrderItem} {e : Edit} (hs : Shown x e) (he : edit x e = some y) :
    Edited x e y := by
  cases e with
  | tapRow reused cell row =>
    obtain ⟨r, l, o, -, hl, ho, rfl⟩ := tapRow_cases hs he
    split
    · exact .same reused cell row
    · rename_i hm
      exact .tap reused cell row r l o hl ho (by simpa using hm)
  | quantityStepper row value =>
    obtain ⟨⟨o, ho, hm⟩, h0, h20⟩ := hs
    simp only [edit, OrderItem.quantityStepper] at he
    split at he
    · cases he; exact .option row value o ho hm h0 h20
    · cases he
  | tapAllergy row =>
    simp only [edit, OrderItem.toggleAllergy] at he
    split at he
    · rename_i h; cases he; exact .allergy row h
    · cases he
  | stepperTapped value => cases he; exact .quantity value hs.1 hs.2

/-! ## What comes from the menu stays -/

/-- The option as the menu has it. -/
def ItemOption.blank (o : ItemOption) : ItemOption := { o with quantity := 0 }

def ItemType.blank (t : ItemType) : ItemType := { t with choices := t.choices.map ItemOption.blank }

structure SameMenu (x y : OrderItem) : Prop where
  refItem : y.refItem = x.refItem
  itemID : y.itemID = x.itemID
  itemName : y.itemName = x.itemName
  location : y.location = x.location
  tag : y.tag = x.tag
  options : y.options.map ItemOption.blank = x.options.map ItemOption.blank
  types : y.types.map ItemType.blank = x.types.map ItemType.blank
  allergies : y.allergies.map (·.name) = x.allergies.map (·.name)

theorem SameMenu.refl (x : OrderItem) : SameMenu x x := ⟨rfl, rfl, rfl, rfl, rfl, rfl, rfl, rfl⟩

theorem SameMenu.trans {x y z : OrderItem} (h : SameMenu x y) (k : SameMenu y z) : SameMenu x z :=
  ⟨k.refItem.trans h.refItem, k.itemID.trans h.itemID, k.itemName.trans h.itemName,
    k.location.trans h.location, k.tag.trans h.tag, k.options.trans h.options,
    k.types.trans h.types, k.allergies.trans h.allergies⟩

theorem SameMenu.updatePrice {x y : OrderItem} (h : SameMenu x y) : SameMenu x y.updatePrice :=
  ⟨h.refItem, h.itemID, h.itemName, h.location, h.tag, h.options, h.types, h.allergies⟩

theorem map_modify_of_eq {α β : Type} {f : α → β} {g : α → α} (l : List α) (i : Nat)
    (h : ∀ a, l[i]? = some a → f (g a) = f a) : (l.modify i g).map f = l.map f := by
  apply List.ext_getElem?
  intro j
  rw [List.getElem?_map, List.getElem?_map, List.getElem?_modify]
  by_cases hij : i = j
  · subst hij
    cases ha : l[i]? with
    | none => rfl
    | some a => simp [h a ha]
  · simp [hij]

theorem blank_setQuantityAt (row : Nat) (q : Int) (l : List ItemOption) :
    (OptionsCell.setQuantityAt row q l).map ItemOption.blank = l.map ItemOption.blank :=
  map_modify_of_eq l row fun _ _ => rfl

/-- The option after the loop went over it. -/
def ItemOption.deselected (o : ItemOption) : ItemOption :=
  if o.canHaveMultiple then o else { o with quantity := 0 }

/-- A single-choice row with its check box set: what the loop switches off. -/
def ItemOption.Ticked (o : ItemOption) : Prop := o.quantity ≠ 0 ∧ o.canHaveMultiple = false

instance (o : ItemOption) : Decidable o.Ticked := inferInstanceAs (Decidable (_ ∧ _))

theorem ItemOption.deselected_eq {o : ItemOption} (h : ¬ o.Ticked) : o.deselected = o := by
  unfold deselected
  split
  · rfl
  · rename_i hm
    have hq : o.quantity = 0 := by
      by_contra hq
      exact h ⟨hq, by simpa using hm⟩
    cases o
    simp_all

/-- The loop, over the whole list at once. -/
theorem deselectOthers_eq (l : List ItemOption) : ∀ i : Nat,
    OptionsCell.deselectOthers i l = (l.map ItemOption.deselected,
      ((l.zipIdx i).filter fun e => decide e.1.Ticked).map Prod.snd) := by
  induction l with
  | nil => intro i; rfl
  | cons o os ih =>
    intro i
    simp only [OptionsCell.deselectOthers, ih (i + 1), List.map_cons, List.zipIdx_cons]
    by_cases ho : o.Ticked
    · rw [if_pos (by simpa [ItemOption.Ticked] using ho), List.filter_cons_of_pos (by simpa using ho)]
      simp [ItemOption.deselected, ho.2]
    · rw [if_neg (by simpa [ItemOption.Ticked] using ho), List.filter_cons_of_neg (by simpa using ho),
        ItemOption.deselected_eq ho]

theorem blank_deselected (o : ItemOption) : o.deselected.blank = o.blank := by
  unfold ItemOption.deselected
  split <;> rfl

theorem blank_deselectOthers (l : List ItemOption) (i : Nat) :
    (OptionsCell.deselectOthers i l).1.map ItemOption.blank = l.map ItemOption.blank := by
  rw [deselectOthers_eq, List.map_map]
  exact List.map_congr_left fun o _ => blank_deselected o

theorem blank_tapped (row : Nat) (l : List ItemOption) :
    (tapped row l).map ItemOption.blank = l.map ItemOption.blank := by
  unfold tapped
  split
  · exact blank_setQuantityAt row 0 l
  · rw [blank_setQuantityAt, blank_deselectOthers]

theorem SameMenu.setList {x : OrderItem} {r : OptionList} {l l' : List ItemOption}
    (hl : x.getList r = some l) (h : l'.map ItemOption.blank = l.map ItemOption.blank) :
    SameMenu x (x.setList r l') := by
  cases r with
  | options =>
    cases hl
    exact ⟨rfl, rfl, rfl, rfl, rfl, h, rfl, rfl⟩
  | choices i =>
    refine ⟨rfl, rfl, rfl, rfl, rfl, rfl, ?_, rfl⟩
    refine map_modify_of_eq x.types i fun t ht => ?_
    simp only [OrderItem.getList, ht, Option.map_some, Option.some.injEq] at hl
    simp only [ItemType.blank, h, hl]

theorem allergyToggled_sameMenu (x : OrderItem) (row : Nat) : SameMenu x (x.allergyToggled row) := by
  refine ⟨rfl, rfl, rfl, rfl, rfl, rfl, rfl, ?_⟩
  exact map_modify_of_eq x.allergies row fun _ _ => rfl

/-- An action leaves the price alone with what it is for, or ends in
`updatePrice` on the same menu. -/
theorem Edited.update_cases {x y : OrderItem} {e : Edit} (h : Edited x e y) :
    y = x ∨ (∃ row, y = x.allergyToggled row) ∨ ∃ z, SameMenu x z ∧ y = z.updatePrice := by
  cases h with
  | same => exact .inl rfl
  | tap _ _ row r l _ hl => exact .inr (.inr ⟨_, SameMenu.setList hl (blank_tapped row l), rfl⟩)
  | option row value =>
    exact .inr (.inr ⟨_, SameMenu.setList (r := .options) rfl (blank_setQuantityAt row value _), rfl⟩)
  | allergy row => exact .inr (.inl ⟨row, rfl⟩)
  | quantity value =>
    have h : SameMenu x { x with quantity := value } := ⟨rfl, rfl, rfl, rfl, rfl, rfl, rfl, rfl⟩
    exact .inr (.inr ⟨_, h, rfl⟩)

theorem Edited.sameMenu {x y : OrderItem} {e : Edit} (h : Edited x e y) : SameMenu x y := by
  rcases h.update_cases with rfl | ⟨row, rfl⟩ | ⟨z, hz, rfl⟩
  · exact .refl y
  · exact allergyToggled_sameMenu x row
  · exact hz.updatePrice

theorem sameMenu_reachable {item : Item} {names : List String} {x₀ x : OrderItem}
    (h₀ : createOrderItem item names = some x₀) (h : (detail item names).Reachable x) :
    SameMenu x₀ x := by
  refine h.invariant (I := SameMenu x₀) (fun y hy => ?_) fun y e z _ hi hs => ?_
  · have hy' : createOrderItem item names = some y := hy
    rw [h₀] at hy'; cases hy'
    exact .refl x₀
  · exact hi.trans (edit_cases hs.1 hs.2).sameMenu

/-! ## The quantity -/

theorem Edited.quantity_range {x y : OrderItem} {e : Edit} (h : Edited x e y)
    (hx : 1 ≤ x.quantity ∧ x.quantity ≤ 10) : 1 ≤ y.quantity ∧ y.quantity ≤ 10 := by
  cases h with
  | same => exact hx
  | tap _ _ _ r => cases r <;> exact hx
  | option => exact hx
  | allergy => exact hx
  | quantity value h1 h10 => exact ⟨h1, h10⟩

/-! ## What a new order item holds -/

/-- `createOrderItem`, read back. -/
structure Created (item : Item) (names : List String) (x : OrderItem) : Prop where
  refItem : x.refItem = item
  itemID : x.itemID = item.id
  location : x.location = item.location
  price : x.price = item.price.getD 0
  quantity : x.quantity = 1
  tag : x.tag = {}
  options : (item.options.getD []).mapM (fun entry => makeOption entry.2) = some x.options
  types : (item.types.getD []).mapM makeType = some x.types
  allergies : x.allergies = names.map fun name => { name }

theorem createOrderItem_created {item : Item} {names : List String} {x : OrderItem}
    (h : createOrderItem item names = some x) : Created item names x := by
  simp only [createOrderItem, Option.bind_eq_bind, Option.bind_eq_some_iff] at h
  obtain ⟨options, ho, types, ht, hx⟩ := h
  cases hx
  exact ⟨rfl, rfl, rfl, rfl, rfl, rfl, ho, ht, rfl⟩

theorem Created.option_quantity {item : Item} {names : List String} {x : OrderItem}
    (h : Created item names x) : ∀ o ∈ x.options, o.quantity = 0 := by
  refine forall_of_mapM h.options fun entry _ o ho => ?_
  simp only [makeOption, Option.bind_eq_bind, Option.bind_eq_some_iff] at ho
  obtain ⟨_, _, _, _, _, _, ho⟩ := ho
  cases ho; rfl

theorem Created.choice {item : Item} {names : List String} {x : OrderItem}
    (h : Created item names x) :
    ∀ t ∈ x.types, ∀ o ∈ t.choices, o.quantity = 0 ∧ o.canHaveMultiple = false := by
  refine forall_of_mapM h.types fun typ _ t ht => ?_
  simp only [makeType, Option.map_eq_some_iff] at ht
  obtain ⟨choices, hc, rfl⟩ := ht
  refine forall_of_mapM hc fun choice _ o ho => ?_
  simp only [makeChoice, Option.map_eq_some_iff] at ho
  obtain ⟨_, _, rfl⟩ := ho
  exact ⟨rfl, rfl⟩

theorem quantity_reachable {item : Item} {names : List String} {x : OrderItem}
    (h : (detail item names).Reachable x) : 1 ≤ x.quantity ∧ x.quantity ≤ 10 := by
  refine h.invariant (I := fun x => 1 ≤ x.quantity ∧ x.quantity ≤ 10) (fun y hy => ?_)
    fun y e z _ hi hs => ?_
  · have hc := createOrderItem_created (show createOrderItem item names = some y from hy)
    rw [hc.quantity]; omega
  · exact (edit_cases hs.1 hs.2).quantity_range hi

/-! ## The price -/

/-- `extraPrice * quantity`, summed. -/
def extras (l : List ItemOption) : ℚ := (l.map fun o => o.extraPrice * (o.quantity : ℚ)).sum

def OrderItem.unitPrice (x : OrderItem) : ℚ :=
  x.refItem.price.getD 0 + extras x.options + (x.types.map fun t => extras t.choices).sum

theorem foldl_addExtra (l : List ItemOption) : ∀ p : ℚ, l.foldl OrderItem.addExtra p = p + extras l := by
  induction l with
  | nil => intro p; simp [extras]
  | cons o os ih =>
    intro p
    rw [List.foldl_cons, ih]
    simp only [OrderItem.addExtra, extras, List.map_cons, List.sum_cons]
    ring

theorem foldl_types (l : List ItemType) : ∀ p : ℚ,
    l.foldl (fun p t => p + extras t.choices) p = p + (l.map fun t => extras t.choices).sum := by
  induction l with
  | nil => intro p; simp
  | cons t ts ih =>
    intro p
    rw [List.foldl_cons, ih, List.map_cons, List.sum_cons]
    ring

theorem updatePrice_price (x : OrderItem) :
    x.updatePrice.price = roundPence (x.unitPrice * x.quantity) := by
  simp only [OrderItem.updatePrice, foldl_addExtra, foldl_types, OrderItem.unitPrice]

/-- Every price the menu gives the item is a whole number of pence. -/
structure WholePence (x : OrderItem) : Prop where
  base : IsPence (x.refItem.price.getD 0)
  options : ∀ q ∈ x.options.map (·.extraPrice), IsPence q
  choices : ∀ q ∈ x.types.flatMap fun t => t.choices.map (·.extraPrice), IsPence q

theorem WholePence.congr {x y : OrderItem} (h : WholePence x) (hm : SameMenu x y) :
    WholePence y := by
  have hblank : ∀ l : List ItemOption,
      l.map (·.extraPrice) = (l.map ItemOption.blank).map (·.extraPrice) := fun l => by
    rw [List.map_map]; rfl
  have htypes : ∀ l : List ItemType, (l.flatMap fun t => t.choices.map (·.extraPrice)) =
      (l.map ItemType.blank).flatMap fun t => t.choices.map (·.extraPrice) := fun l => by
    simp only [List.flatMap_map, ItemType.blank, ← hblank]
  refine ⟨?_, ?_, ?_⟩
  · rw [hm.refItem]; exact h.base
  · rw [hblank, hm.options, ← hblank]; exact h.options
  · rw [htypes, hm.types, ← htypes]; exact h.choices

theorem isPence_extras {l : List ItemOption} (h : ∀ q ∈ l.map (·.extraPrice), IsPence q) :
    IsPence (extras l) := by
  apply IsPence.sum
  intro q hq
  obtain ⟨o, ho, rfl⟩ := List.mem_map.mp hq
  exact (h _ (List.mem_map_of_mem ho)).mul_int o.quantity

theorem WholePence.unitPrice {x : OrderItem} (h : WholePence x) : IsPence x.unitPrice := by
  refine (h.base.add (isPence_extras h.options)).add (IsPence.sum fun q hq => ?_)
  obtain ⟨t, ht, rfl⟩ := List.mem_map.mp hq
  exact isPence_extras fun p hp => h.choices p (List.mem_flatMap.mpr ⟨t, ht, hp⟩)

/-- The price is up to date. -/
def Fresh (x : OrderItem) : Prop := x.price = x.unitPrice * x.quantity

theorem WholePence.fresh {x : OrderItem} (h : WholePence x) : Fresh x.updatePrice := by
  have hp : x.updatePrice.price = x.unitPrice * x.quantity := by
    rw [updatePrice_price, roundPence_eq (h.unitPrice.mul_int _)]
  exact hp

theorem Edited.fresh {x y : OrderItem} {e : Edit} (h : Edited x e y) (hw : WholePence x)
    (hx : Fresh x) : Fresh y := by
  rcases h.update_cases with rfl | ⟨row, rfl⟩ | ⟨z, hz, rfl⟩
  · exact hx
  · exact hx
  · exact (hw.congr hz).fresh

theorem extras_zero {l : List ItemOption} (h : ∀ o ∈ l, o.quantity = 0) : extras l = 0 := by
  apply List.sum_eq_zero
  intro q hq
  obtain ⟨o, ho, rfl⟩ := List.mem_map.mp hq
  simp [h o ho]

theorem Created.fresh {item : Item} {names : List String} {x : OrderItem}
    (h : Created item names x) : Fresh x := by
  have hopt := extras_zero h.option_quantity
  have htyp : (x.types.map fun t => extras t.choices).sum = 0 := by
    apply List.sum_eq_zero
    intro q hq
    obtain ⟨t, ht, rfl⟩ := List.mem_map.mp hq
    exact extras_zero fun o ho => (h.choice t ht o ho).1
  simp [Fresh, OrderItem.unitPrice, hopt, htyp, h.price, h.quantity, h.refItem]

/-- **Fresh price.** In every state of a session on an item whose menu prices
are whole pence, the price is the quantity times the base price and extras. -/
theorem fresh_reachable {item : Item} {names : List String} {x₀ x : OrderItem}
    (h₀ : createOrderItem item names = some x₀) (hw : WholePence x₀)
    (h : (detail item names).Reachable x) : Fresh x := by
  refine h.invariant (I := Fresh) (fun y hy => ?_) fun y e z hr hi hs => ?_
  · exact (createOrderItem_created (show createOrderItem item names = some y from hy)).fresh
  · exact (edit_cases hs.1 hs.2).fresh (hw.congr (sameMenu_reachable h₀ hr)) hi

end QadsCafe
