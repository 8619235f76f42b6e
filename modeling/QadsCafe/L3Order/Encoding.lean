import QadsCafe.Core.Dictionary
import QadsCafe.L2Detail.Session
import QadsCafe.L3Order.Order

/-!
# What an order document records of a selection

A unit of the "items" list holds the ID and name of the item and a dictionary
of its options keyed by option name. The choice made in a type and the chosen
allergies are not in it, and of two options with one name only the last is.

So the document determines the selection (`RecordsSelection`) exactly for the
items that have none of these: `records_selection`.
-/
namespace QadsCafe

open Core

theorem optionsDic_eq (options : List ItemOption) :
    optionsDic options = dict (·.name) (fun o => ⟨o.name, o.quantity⟩) options := rfl

/-- The "items" list of an order of one item. -/
def configured (x : OrderItem) : Option (List ItemDic) :=
  (({} : Order).addItem x).configureItems.map Prod.fst

theorem configured_eq {x : OrderItem} (h : 1 ≤ x.quantity) : configured x = some (units x) := by
  have he : Encodable [x] := fun y hy => by rw [List.mem_singleton] at hy; rw [hy]; exact h
  simp [configured, Order.configureItems, Order.addItem, configureGo_eq _ _ he]

/-- The allergy is switched on. -/
def ChosenAllergy (x : OrderItem) (name : String) : Prop :=
  ∃ a ∈ x.allergies, a.isChosen = true ∧ a.name = name

structure SameSelection (x y : OrderItem) : Prop where
  quantity : x.quantity = y.quantity
  options : x.options.map (·.quantity) = y.options.map (·.quantity)
  types : (x.types.map fun t => t.choices.map (·.quantity)) =
    y.types.map fun t => t.choices.map (·.quantity)
  allergies : ∀ name, ChosenAllergy x name ↔ ChosenAllergy y name

/-- Selections of `item` that are encoded alike are the same. -/
def RecordsSelection (item : Item) (names : List String) : Prop :=
  ∀ x y, (detail item names).Reachable x → (detail item names).Reachable y →
    configured x = configured y → SameSelection x y

/-! ## Where nothing is left out the selection can be read back -/

theorem units_injective {x y : OrderItem} (hx : 1 ≤ x.quantity) (hy : 1 ≤ y.quantity)
    (h : units x = units y) : x.quantity = y.quantity ∧ itemDic x = itemDic y := by
  unfold units at h
  have hlen := congrArg List.length h
  simp only [List.length_replicate] at hlen
  have hq : x.quantity = y.quantity := by omega
  rw [hq, List.replicate_inj] at h
  refine ⟨hq, ?_⟩
  rcases h.2 with h0 | hd
  · omega
  · exact hd

theorem name_of_blank {l l' : List ItemOption}
    (h : l'.map ItemOption.blank = l.map ItemOption.blank) :
    l'.map (·.name) = l.map (·.name) := by
  have hn : ∀ m : List ItemOption, m.map (·.name) = (m.map ItemOption.blank).map (·.name) :=
    fun m => by rw [List.map_map]; rfl
  rw [hn l', h, ← hn l]

theorem quantities_of_optionsDic {l l' : List ItemOption} (hn : (l.map (·.name)).Nodup)
    (hk : l'.map (·.name) = l.map (·.name)) (h : optionsDic l = optionsDic l') :
    l.map (·.quantity) = l'.map (·.quantity) := by
  rw [optionsDic_eq, optionsDic_eq] at h
  have hv := congrArg (List.map OptionDic.quantity) (dict_injective hn hk h)
  rw [List.map_map, List.map_map] at hv
  exact hv

theorem no_choices {x y : OrderItem} (hm : SameMenu x y) (hx : ∀ t ∈ x.types, t.choices = []) :
    (y.types.map fun t => t.choices.map (·.quantity)) =
      x.types.map fun t => t.choices.map (·.quantity) := by
  have hlen : ∀ l : List ItemType, (l.map fun t => t.choices.length) =
      (l.map ItemType.blank).map fun t => t.choices.length := fun l => by
    rw [List.map_map]
    exact List.map_congr_left fun t _ => by simp [ItemType.blank]
  have hempty : ∀ l : List ItemType, (∀ t ∈ l, t.choices = []) →
      (l.map fun t => t.choices.map (·.quantity)) = List.replicate l.length [] := by
    intro l hl
    rw [List.eq_replicate_iff]
    refine ⟨List.length_map _, fun q hq => ?_⟩
    obtain ⟨t, ht, rfl⟩ := List.mem_map.mp hq
    rw [hl t ht]; rfl
  have hy : ∀ t ∈ y.types, t.choices = [] := by
    intro t ht
    have hmem : t.choices.length ∈ x.types.map fun t => t.choices.length := by
      rw [hlen, ← hm.types, ← hlen]
      exact List.mem_map_of_mem ht
    obtain ⟨u, hu, hul⟩ := List.mem_map.mp hmem
    rw [hx u hu] at hul
    exact List.length_eq_zero_iff.mp hul.symm
  have hcount : y.types.length = x.types.length := by
    have := congrArg List.length hm.types
    simpa using this
  rw [hempty _ hy, hempty _ hx, hcount]

/-! ## Selections the document confuses -/

/-- A change that shows in no unit but is no same selection. -/
theorem not_records {item : Item} {names : List String} {x y : OrderItem}
    (hx : (detail item names).Reachable x) (hy : (detail item names).Reachable y)
    (hu : units x = units y) (hn : ¬ SameSelection x y) : ¬ RecordsSelection item names := by
  intro h
  apply hn
  refine h x y hx hy ?_
  rw [configured_eq (quantity_reachable hx).1, configured_eq (quantity_reachable hy).1, hu]

theorem deselectOthers_zero (l : List ItemOption) (h : ∀ o ∈ l, o.quantity = 0) (i : Nat) :
    (OptionsCell.deselectOthers i l).1 = l := by
  rw [deselectOthers_eq]
  conv_rhs => rw [← List.map_id l]
  exact List.map_congr_left fun o ho => ItemOption.deselected_eq fun ht => ht.1 (h o ho)

/-- With nothing selected a tap selects its row. -/
theorem tapped_zero {l : List ItemOption} (h : ∀ o ∈ l, o.quantity = 0) {row : Nat}
    {o : ItemOption} (ho : l[row]? = some o) : tapped row l = OptionsCell.setQuantityAt row 1 l := by
  have hq : o.quantity = 0 := h o (List.mem_of_getElem? ho)
  simp [tapped, ho, hq, deselectOthers_zero l h]

/-- Every option can be selected, by a tap or by its stepper. -/
theorem select_option {item : Item} {names : List String} {x₀ : OrderItem}
    (h₀ : createOrderItem item names = some x₀) {row : Nat} {o : ItemOption}
    (ho : x₀.options[row]? = some o) :
    (detail item names).Reachable
      (x₀.setList .options (OptionsCell.setQuantityAt row 1 x₀.options)).updatePrice := by
  have hc := createOrderItem_created h₀
  obtain ⟨hlt, -⟩ := List.getElem?_eq_some_iff.mp ho
  have hinit : (detail item names).Reachable x₀ := .init h₀
  by_cases hm : o.canHaveMultiple = true
  · refine hinit.step (l := .quantityStepper row 1) ⟨⟨⟨o, ho, hm⟩, by omega, by omega⟩, ?_⟩
    simp only [edit, OrderItem.quantityStepper, if_pos hlt]
    rfl
  · have hcell : cellForItemAt {} x₀ 1 = some {} := rfl
    have hget : ({} : OptionsCell).getOptionList x₀ = some x₀.options := rfl
    refine hinit.step (l := .tapRow {} 1 row) ⟨⟨x₀.options, ?_, hlt⟩, ?_⟩
    · rw [shownList, hcell]; rfl
    · rw [edit, hcell, Option.bind_some, didSelectRowAt_eq hget ho, if_neg hm,
        tapped_zero hc.option_quantity ho]
      rfl

/-- So can the first choice of a type. -/
theorem select_choice {item : Item} {names : List String} {x₀ : OrderItem}
    (h₀ : createOrderItem item names = some x₀) {i : Nat} {t : ItemType}
    (ht : x₀.types[i]? = some t) {o : ItemOption} (ho : t.choices[0]? = some o) :
    (detail item names).Reachable
      (x₀.setList (.choices i) (OptionsCell.setQuantityAt 0 1 t.choices)).updatePrice := by
  have hc := createOrderItem_created h₀
  obtain ⟨hlt, -⟩ := List.getElem?_eq_some_iff.mp ht
  have htm := List.mem_of_getElem? ht
  have hm : o.canHaveMultiple = false := (hc.choice t htm o (List.mem_of_getElem? ho)).2
  have htype : getCellType x₀ (i + 2) = .typeCell := by
    have h2 : (0 : Int) ≤ ((i + 2 : Nat) : Int) - 2 ∧
        ((i + 2 : Nat) : Int) - 2 < (x₀.types.length : Int) := by omega
    unfold getCellType
    rw [if_neg (by omega), if_neg (by omega), if_pos h2]
  have hcell : cellForItemAt {} x₀ (i + 2) =
      some { cellType := .typeCell, typeIndex := ((i + 2 : Nat) : Int) - 2 } := by
    simp only [cellForItemAt, htype]
  obtain ⟨r, hr, hget, hsave⟩ := cellForItemAt_list hcell
  have hrc : r = .choices i := by
    simp only [cellList, htype, Option.some.injEq] at hr
    rw [← hr, Nat.add_sub_cancel]
  subst hrc
  have hlist : x₀.getList (.choices i) = some t.choices := by simp [OrderItem.getList, ht]
  rw [hlist] at hget
  have hinit : (detail item names).Reachable x₀ := .init h₀
  refine hinit.step (l := .tapRow {} (i + 2) 0) ⟨⟨t.choices, ?_, ?_⟩, ?_⟩
  · rw [shownList, hcell]; exact hget
  · exact (List.getElem?_eq_some_iff.mp ho).1
  · rw [edit, hcell, Option.bind_some, didSelectRowAt_eq hget ho, hm, hsave,
      tapped_zero (fun p hp => (hc.choice t htm p hp).1) ho]
    rfl

theorem setQuantityAt_append (l₁ l₂ : List ItemOption) (o : ItemOption) (q : Int) :
    OptionsCell.setQuantityAt l₁.length q (l₁ ++ o :: l₂) = l₁ ++ { o with quantity := q } :: l₂ := by
  induction l₁ with
  | nil => rfl
  | cons p l₁ ih =>
    simp only [OptionsCell.setQuantityAt] at ih ⊢
    rw [List.cons_append, List.length_cons, List.modify_succ_cons, ih, List.cons_append]

theorem units_congr {x y : OrderItem} (h : SameMenu x y) (hq : y.quantity = x.quantity)
    (ho : optionsDic y.options = optionsDic x.options) : units x = units y := by
  simp only [units, itemDic, h.itemID, h.itemName, hq, ho]

/-- An option is lost behind a later one of its name. -/
theorem not_records_option {item : Item} {names : List String} {x₀ : OrderItem}
    (h₀ : createOrderItem item names = some x₀) (hn : ¬ (x₀.options.map (·.name)).Nodup) :
    ¬ RecordsSelection item names := by
  obtain ⟨l₁, o, l₂, hl, ho⟩ := exists_shadowed hn
  have hget : x₀.options[l₁.length]? = some o := by rw [hl]; simp
  have hset := setQuantityAt_append l₁ l₂ o 1
  rw [← hl] at hset
  have hy := select_option h₀ hget
  refine not_records (.init h₀) hy (units_congr (sameMenu_reachable h₀ hy) rfl ?_) fun h => ?_
  · show optionsDic (OptionsCell.setQuantityAt l₁.length 1 x₀.options) = optionsDic x₀.options
    rw [hset, hl, optionsDic_eq, optionsDic_eq]
    have hk : ({ o with quantity := 1 } : ItemOption).name = o.name := rfl
    exact (dict_shadowed l₁ hk ho).symm
  · have hq : x₀.options.map (·.quantity) =
        (OptionsCell.setQuantityAt l₁.length 1 x₀.options).map (·.quantity) := h.options
    have ho0 : o.quantity = 0 :=
      (createOrderItem_created h₀).option_quantity o (List.mem_of_getElem? hget)
    rw [hset, hl] at hq
    simp [ho0] at hq

/-- A choice is not recorded at all. -/
theorem not_records_choice {item : Item} {names : List String} {x₀ : OrderItem}
    (h₀ : createOrderItem item names = some x₀) {t : ItemType} (ht : t ∈ x₀.types)
    (hne : t.choices ≠ []) : ¬ RecordsSelection item names := by
  obtain ⟨i, hi⟩ := List.mem_iff_getElem?.mp ht
  obtain ⟨o, os, hos⟩ := List.exists_cons_of_ne_nil hne
  have ho : t.choices[0]? = some o := by rw [hos]; rfl
  have hy := select_choice h₀ hi ho
  refine not_records (.init h₀) hy (units_congr (sameMenu_reachable h₀ hy) rfl rfl) fun h => ?_
  have hq := congrArg (fun l => l[i]?) h.types
  have ho0 : o.quantity = 0 :=
    ((createOrderItem_created h₀).choice t ht o (List.mem_of_getElem? ho)).1
  simp [OrderItem.setList, OrderItem.updatePrice, hi, hos, OptionsCell.setQuantityAt, ho0] at hq

/-- Nor is an allergy. -/
theorem not_records_allergy {item : Item} {name : String} {names : List String} {x₀ : OrderItem}
    (h₀ : createOrderItem item (name :: names) = some x₀) :
    ¬ RecordsSelection item (name :: names) := by
  have hall := (createOrderItem_created h₀).allergies
  have hinit : (detail item (name :: names)).Reachable x₀ := .init h₀
  have hlen : 0 < x₀.allergies.length := by rw [hall]; simp
  have hy : (detail item (name :: names)).Reachable (x₀.allergyToggled 0) :=
    hinit.step (l := .tapAllergy 0) ⟨hlen, by simp only [edit, OrderItem.toggleAllergy, if_pos hlen]; rfl⟩
  refine not_records hinit hy (units_congr (sameMenu_reachable h₀ hy) rfl rfl) fun h => ?_
  have hchosen : ChosenAllergy (x₀.allergyToggled 0) name := by
    refine ⟨{ name, isChosen := true }, ?_, rfl, rfl⟩
    simp [OrderItem.allergyToggled, hall]
  obtain ⟨a, ha, hc, -⟩ := (h.allergies name).mpr hchosen
  rw [hall] at ha
  obtain ⟨n, -, rfl⟩ := List.mem_map.mp ha
  cases hc

/-! ## The exact condition -/

/-- **What the document records.** It determines the selection exactly for the
items whose options have distinct names, whose types offer no choice, while no
allergy is on offer. -/
theorem records_selection {item : Item} {names : List String} {x₀ : OrderItem}
    (h₀ : createOrderItem item names = some x₀) :
    RecordsSelection item names ↔
      (x₀.options.map (·.name)).Nodup ∧ (∀ t ∈ x₀.types, t.choices = []) ∧ names = [] := by
  constructor
  · intro h
    refine ⟨?_, ?_, ?_⟩
    · by_contra hn
      exact not_records_option h₀ hn h
    · intro t ht
      by_contra hne
      exact not_records_choice h₀ ht hne h
    · cases names with
      | nil => rfl
      | cons name names => exact absurd h (not_records_allergy h₀)
  · rintro ⟨hnames, htypes, rfl⟩ x y hx hy hxy
    have hmx := sameMenu_reachable h₀ hx
    have hmy := sameMenu_reachable h₀ hy
    have hqx := (quantity_reachable hx).1
    have hqy := (quantity_reachable hy).1
    rw [configured_eq hqx, configured_eq hqy, Option.some.injEq] at hxy
    obtain ⟨hq, hdic⟩ := units_injective hqx hqy hxy
    have hkx := name_of_blank hmx.options
    have hky := name_of_blank hmy.options
    have hempty : ∀ z, SameMenu x₀ z → ∀ name, ¬ ChosenAllergy z name := by
      rintro z hz name ⟨a, ha, -⟩
      have hall := hz.allergies
      rw [(createOrderItem_created h₀).allergies] at hall
      rw [List.map_eq_nil_iff.mp hall] at ha
      cases ha
    refine ⟨hq, ?_, ?_, fun name => ?_⟩
    · exact quantities_of_optionsDic (by rw [hkx]; exact hnames) (by rw [hkx, hky])
        (congrArg ItemDic.options hdic)
    · rw [no_choices hmx htypes, no_choices hmy htypes]
    · exact ⟨fun h => absurd h (hempty x hmx name), fun h => absurd h (hempty y hmy name)⟩

/-- A latte with one option. -/
def latte : Item :=
  { name := "Latte", location := "Cafe", price := some (5 / 2), id := "latte"
    options := some [("oat", [("name", .string "Oat milk"), ("can_have_multiple", .bool false),
      ("extra_price", .double (1 / 2))])] }

theorem latte_recorded : RecordsSelection latte [] := by
  have h₀ : createOrderItem latte [] = some ((createOrderItem latte []).getD {}) := rfl
  refine (records_selection h₀).mpr ⟨by decide, fun t ht => ?_, rfl⟩
  cases ht

/-- **An allergy does not reach the document.** With and without it the latte
is encoded alike. -/
theorem allergy_not_recorded : ¬ RecordsSelection latte ["Nuts"] := by
  have h₀ : createOrderItem latte ["Nuts"] =
      some ((createOrderItem latte ["Nuts"]).getD {}) := rfl
  exact not_records_allergy h₀

end QadsCafe
