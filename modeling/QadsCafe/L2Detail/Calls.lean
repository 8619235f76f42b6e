import QadsCafe.L2Detail.Session

/-!
# Every way to edit an order item

A session (`detail`) makes the edits that its screen offers. `calls` is wider:
any handler is called with any arguments, on any cell and row and with any
stepper value, as long as no index is out of range. The cached price is kept
up to date by all of them.
-/
namespace QadsCafe

open Core

/-- mirrors Helpers/Order.swift:272-276 -/
def OrderItem.setQuantity (x : OrderItem) (quantity : Int) : OrderItem :=
  updatePrice { x with quantity }

inductive Call where
  | switchSelectedTo (c : OptionsCell) (row : Nat)
  | quantityStepper (row : Nat) (value : Int)
  | toggleAllergy (row : Nat)
  | stepperTapped (value : Int)
  | setQuantity (quantity : Int)

def Call.run (x : OrderItem) : Call → Option OrderItem
  | .switchSelectedTo c row => (c.switchSelectedTo row x).map Prod.fst
  | .quantityStepper row value => x.quantityStepper row value
  | .toggleAllergy row => x.toggleAllergy row
  | .stepperTapped value => some (x.stepperTapped value)
  | .setQuantity quantity => some (x.setQuantity quantity)

def calls (item : Item) (allergyNames : List String) : LTS OrderItem Call :=
  LTS.ofFn (fun x => createOrderItem item allergyNames = some x) Call.run

/-- A cell that saves a list saves the one it read, or none. -/
theorem saveList_cases {c : OptionsCell} {x : OrderItem} {l : List ItemOption}
    (h : c.getOptionList x = some l) (l' : List ItemOption) :
    c.saveList x l' = x ∨ ∃ r, x.getList r = some l ∧ c.saveList x l' = x.setList r l' := by
  unfold OptionsCell.getOptionList at h
  unfold OptionsCell.saveList
  cases hc : c.cellType with
  | optionCell =>
    rw [if_pos hc] at h
    exact .inr ⟨.options, h, rfl⟩
  | typeCell =>
    rw [if_neg (by rw [hc]; exact CellType.noConfusion)] at h
    refine .inr ⟨.choices c.typeIndex.toNat, ?_, rfl⟩
    unfold index at h
    split at h
    · exact h
    · cases h
  | _ => exact .inl rfl

theorem switchSelectedTo_sameMenu {c : OptionsCell} {x y : OrderItem} {row : Nat}
    (h : (c.switchSelectedTo row x).map Prod.fst = some y) :
    ∃ z, SameMenu x z ∧ y = z.updatePrice := by
  unfold OptionsCell.switchSelectedTo at h
  cases hl : c.getOptionList x with
  | none => simp [hl] at h
  | some l =>
    cases ho : l[row]? with
    | none => simp [hl, ho] at h
    | some o =>
      refine ⟨c.saveList x (tapped row l), ?_, ?_⟩
      · rcases saveList_cases hl (tapped row l) with hsave | ⟨r, hr, hsave⟩
        · rw [hsave]; exact .refl x
        · rw [hsave]; exact SameMenu.setList hr (blank_tapped row l)
      · have hy := (switchSelectedTo_eq hl ho).symm.trans h
        exact (Option.some.inj hy).symm

/-- A call toggles an allergy, or ends in `updatePrice` on the same menu. -/
theorem Call.run_cases {x y : OrderItem} {e : Call} (h : e.run x = some y) :
    (∃ row, y = x.allergyToggled row) ∨ ∃ z, SameMenu x z ∧ y = z.updatePrice := by
  cases e with
  | switchSelectedTo c row => exact .inr (switchSelectedTo_sameMenu h)
  | quantityStepper row value =>
    simp only [Call.run, OrderItem.quantityStepper] at h
    split at h
    · cases h
      exact .inr ⟨_, SameMenu.setList (r := .options) rfl (blank_setQuantityAt row value _), rfl⟩
    · cases h
  | toggleAllergy row =>
    simp only [Call.run, OrderItem.toggleAllergy] at h
    split at h
    · cases h
      exact .inl ⟨row, rfl⟩
    · cases h
  | stepperTapped value =>
    cases h
    exact .inr ⟨{ x with quantity := value }, ⟨rfl, rfl, rfl, rfl, rfl, rfl, rfl, rfl⟩, rfl⟩
  | setQuantity quantity =>
    cases h
    exact .inr ⟨{ x with quantity }, ⟨rfl, rfl, rfl, rfl, rfl, rfl, rfl, rfl⟩, rfl⟩

/-- **One call** keeps the menu and leaves the price up to date. -/
theorem Call.fresh {x y : OrderItem} {e : Call} (h : e.run x = some y) (hw : WholePence x)
    (hx : Fresh x) : SameMenu x y ∧ Fresh y := by
  rcases Call.run_cases h with ⟨row, rfl⟩ | ⟨z, hz, rfl⟩
  · exact ⟨allergyToggled_sameMenu x row, hx⟩
  · exact ⟨hz.updatePrice, (hw.congr hz).fresh⟩

theorem calls_fresh {item : Item} {names : List String} {x₀ x : OrderItem}
    (h₀ : createOrderItem item names = some x₀) (hw : WholePence x₀)
    (h : (calls item names).Reachable x) : SameMenu x₀ x ∧ Fresh x := by
  refine h.invariant (I := fun x => SameMenu x₀ x ∧ Fresh x) (fun y hy => ?_) ?_
  · have hy' : createOrderItem item names = some y := hy
    rw [h₀] at hy'; cases hy'
    exact ⟨.refl x₀, (createOrderItem_created h₀).fresh⟩
  · rintro x e y - ⟨hm, hx⟩ hs
    obtain ⟨hy, hf⟩ := Call.fresh hs (hw.congr hm) hx
    exact ⟨hm.trans hy, hf⟩

/-- What a selection costs. -/
def amount (item : Item) (x : OrderItem) : ℚ :=
  x.quantity * (item.price.getD 0 + extras x.options + (x.types.map fun t => extras t.choices).sum)

/-- **The price is a function of the selection.** After any calls it is exactly
what the selection costs: rounding that amount leaves it alone, and any other
calls that end in the same selection end in the same price. -/
theorem price_exact {item : Item} {names : List String} {x₀ x : OrderItem}
    (h₀ : createOrderItem item names = some x₀) (hw : WholePence x₀)
    (h : (calls item names).Reachable x) :
    x.price = amount item x ∧ roundPence (amount item x) = amount item x ∧
      ∀ y, (calls item names).Reachable y → y.options = x.options → y.types = x.types →
        y.quantity = x.quantity → y.price = x.price := by
  have hamount : ∀ y, (calls item names).Reachable y →
      y.price = amount item y ∧ IsPence (amount item y) := by
    intro y hy
    obtain ⟨hm, hf⟩ := calls_fresh h₀ hw hy
    have hitem : y.refItem = item := hm.refItem.trans (createOrderItem_created h₀).refItem
    have heq : y.unitPrice * y.quantity = amount item y := by
      unfold OrderItem.unitPrice amount
      rw [hitem, mul_comm]
    exact ⟨Eq.trans hf heq, heq ▸ (hw.congr hm).unitPrice.mul_int y.quantity⟩
  obtain ⟨hx, hp⟩ := hamount x h
  refine ⟨hx, roundPence_eq hp, fun y hy ho ht hq => ?_⟩
  rw [(hamount y hy).1, hx]
  unfold amount
  rw [ho, ht, hq]

/-- An item with an extra of each kind. -/
def mocha : Item :=
  { name := "Mocha", location := "Cafe", price := some 3, id := "mocha"
    options := some [("shot", [("name", .string "Extra shot"), ("can_have_multiple", .bool true),
      ("extra_price", .double (1 / 2))]), ("cream", [("name", .string "Cream"),
      ("can_have_multiple", .bool false), ("extra_price", .double (2 / 5))])]
    types := some [("Size", [("Small", .integer 0), ("Large", .double (3 / 10))])] }

def mochaOpened : OrderItem := (createOrderItem mocha []).getD {}

theorem wholePence_mocha : WholePence mochaOpened := by
  have hbase : IsPence 3 := ⟨300, by norm_num⟩
  have hshot : IsPence (1 / 2) := ⟨50, by norm_num⟩
  have hcream : IsPence (2 / 5) := ⟨40, by norm_num⟩
  have hlarge : IsPence (3 / 10) := ⟨30, by norm_num⟩
  refine ⟨hbase, fun q hq => ?_, fun q hq => ?_⟩
  · have hq' : q ∈ [(1 / 2 : ℚ), 2 / 5] := hq
    simp only [List.mem_cons, List.not_mem_nil, or_false] at hq'
    rcases hq' with rfl | rfl
    · exact hshot
    · exact hcream
  · have hq' : q ∈ [(0 : ℚ), 3 / 10] := hq
    simp only [List.mem_cons, List.not_mem_nil, or_false] at hq'
    rcases hq' with rfl | rfl
    · exact IsPence.zero
    · exact hlarge

/-- Three large mochas with two extra shots each. -/
theorem price_exact_mocha : ∃ x, (calls mocha []).Reachable x ∧ x.price = 129 / 10 := by
  have hrun : (calls mocha []).Run mochaOpened [.switchSelectedTo ⟨.typeCell, 0⟩ 1,
      .quantityStepper 0 2, .stepperTapped 3] _ := LTS.run_of_exec rfl
  have hr := hrun.reachable (show createOrderItem mocha [] = some mochaOpened from rfl)
  refine ⟨_, hr, (price_exact rfl wholePence_mocha hr).1.trans ?_⟩
  decide +kernel

end QadsCafe
