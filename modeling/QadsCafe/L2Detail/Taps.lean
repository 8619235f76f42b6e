import QadsCafe.L2Detail.Calls
import QadsCafe.L2Detail.Selection

/-!
# What a tap does to its list

The options cell can mix single-choice rows with rows that have a stepper. The
deselection loop clears the single-choice rows and skips the others, so the
single-choice rows of each list stay a radio group and a stepper row only
takes the values of its own stepper (`radioGroups_run`).

The position of a type is computed in the controller, in the collection cell
and in the table cell. `tap_exact` says that they agree: a tap changes the
list its cell shows and nothing else, and returns the rows that it changed.
-/
namespace QadsCafe

open Core

/-! ## The deselection loop -/

/-- The rows that the loop switches off. -/
def tickedRows (l : List ItemOption) : List Nat := (OptionsCell.deselectOthers 0 l).2

theorem nodup_tickedRows (l : List ItemOption) : (tickedRows l).Nodup := by
  unfold tickedRows
  rw [deselectOthers_eq]
  have hrows : ((l.zipIdx 0).map Prod.snd).Nodup := by
    rw [List.zipIdx_map_snd]
    exact List.nodup_range'
  exact hrows.sublist (List.filter_sublist.map Prod.snd)

theorem mem_tickedRows {l : List ItemOption} {j : Nat} :
    j ∈ tickedRows l ↔ ∃ o, l[j]? = some o ∧ o.Ticked := by
  unfold tickedRows
  rw [deselectOthers_eq]
  simp only [List.mem_map, List.mem_filter, decide_eq_true_eq, Prod.exists, exists_eq_right,
    List.mk_mem_zipIdx_iff_getElem?]

/-! ## One tap -/

/-- What a tap on the row of `o` makes of the option `p` in row `j`. -/
def tappedAt (o : ItemOption) (row j : Nat) (p : ItemOption) : ItemOption :=
  if row = j then { p with quantity := if o.quantity > 0 then 0 else 1 }
  else if o.quantity > 0 then p
  else p.deselected

theorem getElem?_tapped {l : List ItemOption} {row : Nat} {o : ItemOption} (ho : l[row]? = some o)
    (j : Nat) : (tapped row l)[j]? = l[j]?.map (tappedAt o row j) := by
  unfold tapped tappedAt
  simp only [ho, Option.any_some, decide_eq_true_eq]
  by_cases hq : o.quantity > 0
  · simp only [hq, if_true, getElem?_setQuantityAt]
  · simp only [hq, if_false, getElem?_setQuantityAt, deselectOthers_eq, List.getElem?_map,
      Option.map_map]
    congr 1
    funext p
    simp only [Function.comp_apply, ItemOption.deselected]
    split
    · split <;> rfl
    · rfl

theorem length_tapped (row : Nat) (l : List ItemOption) : (tapped row l).length = l.length := by
  unfold tapped
  split
  · exact length_setQuantityAt row 0 l
  · rw [length_setQuantityAt, deselectOthers_eq, List.length_map]

/-- `switchSelectedTo` saves the tapped list and reports the rows to reload. -/
theorem switchSelectedTo_some {c : OptionsCell} {row : Nat} {x : OrderItem} {l : List ItemOption}
    {o : ItemOption} (hl : c.getOptionList x = some l) (ho : l[row]? = some o) :
    c.switchSelectedTo row x = some ((c.saveList x (tapped row l)).updatePrice,
      if o.quantity > 0 then [row] else tickedRows l ++ [row]) := by
  unfold OptionsCell.switchSelectedTo tapped tickedRows
  simp only [hl, ho, Option.bind_eq_bind, Option.bind_some, Option.any_some, decide_eq_true_eq]
  split <;> rfl

/-! ## A radio group among other rows -/

/-- At most one single-choice row of the list is selected, and once. -/
structure RadioGroup (l : List ItemOption) : Prop where
  once : ∀ (i : Nat) (o : ItemOption), l[i]? = some o → o.Ticked → o.quantity = 1
  atMostOne : ∀ (i j : Nat) (o p : ItemOption), l[i]? = some o → l[j]? = some p →
    o.Ticked → p.Ticked → i = j

theorem RadioGroup.of_ticked {l l' : List ItemOption} (h : RadioGroup l)
    (hsub : ∀ (j : Nat) (p : ItemOption), l'[j]? = some p → p.Ticked → l[j]? = some p) :
    RadioGroup l' :=
  ⟨fun i o ho ht => h.once i o (hsub i o ho ht) ht, fun i j o p ho hp hto htp =>
    h.atMostOne i j o p (hsub i o ho hto) (hsub j p hp htp) hto htp⟩

theorem not_ticked_deselected (o : ItemOption) : ¬ o.deselected.Ticked := by
  unfold ItemOption.deselected ItemOption.Ticked
  split
  · rename_i hm; simp [hm]
  · simp

theorem RadioGroup.tap {l : List ItemOption} (h : RadioGroup l) {row : Nat} {o : ItemOption}
    (ho : l[row]? = some o) : RadioGroup (tapped row l) := by
  by_cases hq : o.quantity > 0
  · -- the row is switched off, the others stay
    refine h.of_ticked fun j p hp ht => ?_
    rw [getElem?_tapped ho, Option.map_eq_some_iff] at hp
    obtain ⟨a, ha, rfl⟩ := hp
    unfold tappedAt at ht ⊢
    by_cases hj : row = j
    · rw [if_pos hj, if_pos hq] at ht
      exact absurd rfl ht.1
    · rw [if_neg hj, if_pos hq]
      exact ha
  · -- only the tapped row can be ticked afterwards
    have honly : ∀ (j : Nat) (p : ItemOption), (tapped row l)[j]? = some p → p.Ticked →
        j = row ∧ p.quantity = 1 := by
      intro j p hp ht
      rw [getElem?_tapped ho, Option.map_eq_some_iff] at hp
      obtain ⟨a, ha, rfl⟩ := hp
      unfold tappedAt at ht ⊢
      by_cases hj : row = j
      · rw [if_pos hj, if_neg hq]
        exact ⟨hj.symm, rfl⟩
      · rw [if_neg hj, if_neg hq] at ht
        exact absurd ht (not_ticked_deselected a)
    refine ⟨fun i p hp ht => (honly i p hp ht).2, fun i j p q hp hq htp htq => ?_⟩
    rw [(honly i p hp htp).1, (honly j q hq htq).1]

theorem RadioGroup.setQuantityAt {l : List ItemOption} (h : RadioGroup l) {row : Nat}
    {o : ItemOption} (ho : l[row]? = some o) (hm : o.canHaveMultiple = true) (q : Int) :
    RadioGroup (OptionsCell.setQuantityAt row q l) := by
  refine h.of_ticked fun j p hp ht => ?_
  rw [getElem?_setQuantityAt, Option.map_eq_some_iff] at hp
  obtain ⟨a, ha, rfl⟩ := hp
  split
  · rename_i hj
    subst hj
    rw [if_pos rfl] at ht
    obtain rfl := Option.some.inj (ha.symm.trans ho)
    exact absurd (ht.2.symm.trans hm) Bool.noConfusion
  · exact ha

theorem radioGroup_zero {l : List ItemOption} (h : ∀ o ∈ l, o.quantity = 0) : RadioGroup l := by
  have hnone : ∀ (i : Nat) (o : ItemOption), l[i]? = some o → ¬ o.Ticked :=
    fun i o ho ht => ht.1 (h o (List.mem_of_getElem? ho))
  exact ⟨fun i o ho ht => absurd ht (hnone i o ho),
    fun i j o p ho _ ht _ => absurd ht (hnone i o ho)⟩

/-! ## A session -/

theorem getList_setList (x : OrderItem) (r r' : OptionList) (l : List ItemOption) :
    (x.setList r l).getList r' =
      if r = r' then (x.getList r').map fun _ => l else x.getList r' := by
  cases r with
  | options => cases r' <;> rfl
  | choices k =>
    cases r' with
    | options => rfl
    | choices i =>
      simp only [OrderItem.getList, getElem?_setList_choices, Option.map_map, OptionList.choices.injEq]
      by_cases hk : k = i
      · simp only [hk, if_true]; rfl
      · simp only [hk, if_false]; rfl

/-- The single-choice rows of every list are a radio group. -/
def RadioGroups (x : OrderItem) : Prop := ∀ r l, x.getList r = some l → RadioGroup l

theorem Created.radioGroups {item : Item} {names : List String} {x : OrderItem}
    (h : Created item names x) : RadioGroups x := by
  intro r l hl
  cases r with
  | options =>
    cases hl
    exact radioGroup_zero h.option_quantity
  | choices i =>
    simp only [OrderItem.getList, Option.map_eq_some_iff] at hl
    obtain ⟨t, ht, rfl⟩ := hl
    exact radioGroup_zero fun o ho => (h.choice t (List.mem_of_getElem? ht) o ho).1

theorem RadioGroups.setList {x : OrderItem} (h : RadioGroups x) {r : OptionList}
    {l : List ItemOption} (hl : RadioGroup l) : RadioGroups (x.setList r l) := by
  intro r' l' hl'
  rw [getList_setList] at hl'
  split at hl'
  · obtain ⟨_, -, rfl⟩ := Option.map_eq_some_iff.mp hl'
    exact hl
  · exact h r' l' hl'

theorem Edited.radioGroups {x y : OrderItem} {e : Edit} (h : Edited x e y) (hx : RadioGroups x) :
    RadioGroups y := by
  cases h with
  | same => exact hx
  | tap _ _ row r l o hl ho => exact hx.setList ((hx r l hl).tap ho)
  | option row value o ho hm => exact hx.setList ((hx .options x.options rfl).setQuantityAt ho hm value)
  | allergy => exact hx
  | quantity => exact hx

theorem radioGroups_reachable {item : Item} {names : List String} {x : OrderItem}
    (h : (detail item names).Reachable x) : RadioGroups x := by
  refine h.invariant (I := RadioGroups) (fun y hy => ?_) fun y e z _ hy hs => ?_
  · exact (createOrderItem_created (show createOrderItem item names = some y from hy)).radioGroups
  · exact (edit_cases hs.1 hs.2).radioGroups hy

/-- The values the stepper of option `row` sent. -/
def sent (row : Nat) (edits : List Edit) : List Int :=
  edits.filterMap fun
    | .quantityStepper r value => if r = row then some value else none
    | _ => none

/-- Each option with a stepper has the quantity `last` gives it. -/
def StepperRows (last : Nat → Int) (x : OrderItem) : Prop :=
  ∀ (j : Nat) (o : ItemOption), x.options[j]? = some o → o.canHaveMultiple = true →
    o.quantity = last j

theorem tappedAt_canHaveMultiple (o : ItemOption) (row j : Nat) (p : ItemOption) :
    (tappedAt o row j p).canHaveMultiple = p.canHaveMultiple := by
  unfold tappedAt ItemOption.deselected
  split
  · rfl
  split
  · rfl
  split <;> rfl

theorem tappedAt_multiple {o : ItemOption} {row j : Nat} {p : ItemOption} (hj : row ≠ j)
    (hm : p.canHaveMultiple = true) : tappedAt o row j p = p := by
  unfold tappedAt ItemOption.deselected
  rw [if_neg hj, if_pos hm, ite_self]

/-- A tap leaves the rows with a stepper alone. -/
theorem tapped_multiple {l : List ItemOption} {row : Nat} {o : ItemOption} (ho : l[row]? = some o)
    (hm : o.canHaveMultiple = false) {j : Nat} {p : ItemOption} (hpm : p.canHaveMultiple = true) :
    (tapped row l)[j]? = some p ↔ l[j]? = some p := by
  have hrow : ∀ a : ItemOption, l[j]? = some a → a.canHaveMultiple = true → row ≠ j := by
    rintro a ha ham rfl
    obtain rfl := Option.some.inj (ha.symm.trans ho)
    exact absurd (ham.symm.trans hm) Bool.noConfusion
  rw [getElem?_tapped ho, Option.map_eq_some_iff]
  constructor
  · rintro ⟨a, ha, rfl⟩
    rw [tappedAt_canHaveMultiple] at hpm
    rw [tappedAt_multiple (hrow a ha hpm) hpm]
    exact ha
  · intro hp
    exact ⟨p, hp, tappedAt_multiple (hrow p hp hpm) hpm⟩

theorem Edited.stepperRows {last : Nat → Int} {x y : OrderItem} {e : Edit} (h : Edited x e y)
    (hx : StepperRows last x) :
    StepperRows (fun j => (sent j [e]).getLast?.getD (last j)) y := by
  cases h with
  | same => exact hx
  | tap _ _ row r l o hl ho hm =>
    cases r with
    | options =>
      cases hl
      exact fun j p hp hpm => hx j p ((tapped_multiple ho hm hpm).mp hp) hpm
    | choices => exact hx
  | option row value =>
    intro j p hp hpm
    have hp' : (OptionsCell.setQuantityAt row value x.options)[j]? = some p := hp
    rw [getElem?_setQuantityAt, Option.map_eq_some_iff] at hp'
    obtain ⟨a, ha, rfl⟩ := hp'
    by_cases hj : row = j
    · simp [sent, hj]
    · rw [if_neg hj] at hpm ⊢
      have hnone : sent j [.quantityStepper row value] = [] := by simp [sent, hj]
      simp only [hnone]
      exact hx j a ha hpm
  | allergy => exact hx
  | quantity => exact hx

theorem sent_cons (row : Nat) (e : Edit) (edits : List Edit) :
    sent row (e :: edits) = sent row [e] ++ sent row edits := List.filterMap_append (l := [e])

theorem StepperRows.run {item : Item} {names : List String} {x y : OrderItem} {edits : List Edit}
    (hr : (detail item names).Run x edits y) : ∀ {last : Nat → Int}, StepperRows last x →
      StepperRows (fun j => (sent j edits).getLast?.getD (last j)) y := by
  induction hr with
  | nil => intro last h; exact h
  | @cons x y z e edits hs _ ih =>
    intro last h j o ho hm
    have hq := ih ((edit_cases hs.1 hs.2).stepperRows h) j o ho hm
    dsimp only at hq ⊢
    rw [hq, sent_cons j e edits, List.getLast?_append]
    cases (sent j edits).getLast? <;> rfl

/-- **Radio groups.** After any edits of a session the single-choice rows of
every list have at most one selected, with quantity 1, and a row with a stepper
has the value its stepper sent last. -/
theorem radioGroups_run {item : Item} {names : List String} {x₀ x : OrderItem} {edits : List Edit}
    (h₀ : createOrderItem item names = some x₀) (hr : (detail item names).Run x₀ edits x) :
    (∀ r l, x.getList r = some l → RadioGroup l) ∧
      (∀ (j : Nat) (o : ItemOption), x.options[j]? = some o → o.canHaveMultiple = true →
        o.quantity = (sent j edits).getLast?.getD 0) ∧
      ∀ t ∈ x.types, ∀ o ∈ t.choices, o.canHaveMultiple = false := by
  have hc := createOrderItem_created h₀
  refine ⟨?_, ?_, fun t ht o ho => ?_⟩
  · exact radioGroups_reachable (hr.reachable h₀)
  · exact StepperRows.run hr fun j o ho _ => hc.option_quantity o (List.mem_of_getElem? ho)
  · obtain ⟨i, hi⟩ := List.mem_iff_getElem?.mp ht
    obtain ⟨j, hj⟩ := List.mem_iff_getElem?.mp ho
    exact (((selected_run h₀ hr).1 i t hi).row j o hj).1

/-- Two extra shots, cream and the large size. -/
theorem radioGroups_mocha : ∃ x, (detail mocha []).Reachable x ∧
    (∀ r l, x.getList r = some l → RadioGroup l) ∧ (x.options[0]?.map (·.quantity)) = some 2 := by
  have hrun : (detail mocha []).Run mochaOpened
      [.tapRow {} 1 1, .quantityStepper 0 1, .tapRow {} 2 0, .tapRow {} 2 1, .quantityStepper 0 2] _ :=
    .cons ⟨⟨_, rfl, by decide⟩, rfl⟩ (.cons ⟨⟨⟨_, rfl, rfl⟩, by decide, by decide⟩, rfl⟩
      (.cons ⟨⟨_, rfl, by decide⟩, rfl⟩ (.cons ⟨⟨_, rfl, by decide⟩, rfl⟩
        (.cons ⟨⟨⟨_, rfl, rfl⟩, by decide, by decide⟩, rfl⟩ (.nil _)))))
  have h₀ : createOrderItem mocha [] = some mochaOpened := rfl
  obtain ⟨hgroups, hsent, -⟩ := radioGroups_run h₀ hrun
  exact ⟨_, hrun.reachable h₀, hgroups, congrArg some (hsent 0 _ rfl rfl)⟩

/-! ## One tap on the screen -/

namespace OptionsCell

/-- The `option` that the table cell of `row` shows; a cell of another kind
keeps the one it had.
mirrors OptionTableViewCell.swift:36-47 -/
def makeCell (c : OptionsCell) (row : Nat) (x : OrderItem) (option : ItemOption) :
    Option ItemOption :=
  match c.cellType with
  | .optionCell => x.options[row]?
  | .typeCell => (index x.types c.typeIndex).bind fun t => t.choices[row]?
  | .allergyCell => x.allergies[row]?.map fun _ => option
  | _ => some option

end OptionsCell

/-- The list that the collection row `p` displays. -/
def displayed (p : Nat) : OptionList := if p = 1 then .options else .choices (p - 2)

theorem makeCell_eq {x : OrderItem} {reused c : OptionsCell} {p : Nat} {l : List ItemOption}
    (hc : cellForItemAt reused x p = some c) (hl : c.getOptionList x = some l) (row : Nat)
    (option : ItemOption) : c.makeCell row x option = l[row]? := by
  unfold cellForItemAt at hc
  split at hc
  · cases hc; cases hl; rfl
  · cases hc
    simp only [OptionsCell.getOptionList, reduceCtorEq, if_false, Option.map_eq_some_iff] at hl
    obtain ⟨t, ht, rfl⟩ := hl
    simp only [OptionsCell.makeCell, ht, Option.bind_some]
  · cases hc

/-- The cell of an options or type row is made, and shows the list of `p`. -/
theorem cellForItemAt_displayed {x : OrderItem} {p : Nat}
    (hp : getCellType x p = .optionCell ∨ getCellType x p = .typeCell) (reused : OptionsCell) :
    ∃ c l, cellForItemAt reused x p = some c ∧ x.getList (displayed p) = some l ∧
      c.getOptionList x = some l ∧ ∀ l', c.saveList x l' = x.setList (displayed p) l' := by
  unfold displayed
  rcases hp with ht | ht
  · obtain rfl := getCellType_optionCell ht
    exact ⟨_, x.options, by rw [cellForItemAt, ht], rfl, rfl, fun _ => rfl⟩
  · obtain ⟨h2, hlt⟩ := getCellType_typeCell ht
    have hc : cellForItemAt reused x p = some ⟨.typeCell, (p : Int) - 2⟩ := by rw [cellForItemAt, ht]
    obtain ⟨r, hr, hget, hsave⟩ := cellForItemAt_list hc
    simp only [cellList, ht, Option.some.injEq] at hr
    subst hr
    have hl : x.getList (.choices (p - 2)) = some x.types[p - 2].choices := by
      simp only [OrderItem.getList, List.getElem?_eq_getElem hlt, Option.map_some]
    rw [if_neg (by omega)]
    exact ⟨_, _, hc, hl, by rw [hget, hl], hsave⟩

/-- The rows that `switchSelectedTo` returns. -/
def reported (o : ItemOption) (row : Nat) (l : List ItemOption) : List Nat :=
  if o.quantity > 0 then [row] else tickedRows l ++ [row]

theorem quantity_deselected (a : ItemOption) : a.quantity ≠ a.deselected.quantity ↔ a.Ticked := by
  unfold ItemOption.deselected ItemOption.Ticked
  split
  · rename_i hm; simp [hm]
  · rename_i hm; simp [hm]

/-- In a radio group the row of an unticked option has quantity 0. -/
theorem RadioGroup.zero_of_not_pos {l : List ItemOption} (h : RadioGroup l) {row : Nat}
    {o : ItemOption} (ho : l[row]? = some o) (hm : o.canHaveMultiple = false)
    (hq : ¬ o.quantity > 0) : o.quantity = 0 := by
  by_contra hne
  have := h.once row o ho ⟨hne, hm⟩
  omega

theorem RadioGroup.nodup_reported {l : List ItemOption} (h : RadioGroup l) {row : Nat}
    {o : ItemOption} (ho : l[row]? = some o) (hm : o.canHaveMultiple = false) :
    (reported o row l).Nodup := by
  unfold reported
  split
  · exact List.pairwise_singleton _ row
  · rename_i hq
    refine List.nodup_append.mpr ⟨nodup_tickedRows l, List.pairwise_singleton _ row, ?_⟩
    rintro j hj _ hrow rfl
    obtain rfl := List.mem_singleton.mp hrow
    obtain ⟨p, hp, ht⟩ := mem_tickedRows.mp hj
    obtain rfl := Option.some.inj (ho.symm.trans hp)
    exact ht.1 (h.zero_of_not_pos ho hm hq)

/-- The rows returned are those whose quantity changed. -/
theorem RadioGroup.mem_reported {l : List ItemOption} (h : RadioGroup l) {row : Nat}
    {o : ItemOption} (ho : l[row]? = some o) (hm : o.canHaveMultiple = false) (j : Nat) :
    j ∈ reported o row l ↔
      ∃ a b, l[j]? = some a ∧ (tapped row l)[j]? = some b ∧ a.quantity ≠ b.quantity := by
  have hchange : (∃ a b, l[j]? = some a ∧ (tapped row l)[j]? = some b ∧ a.quantity ≠ b.quantity) ↔
      ∃ a, l[j]? = some a ∧ a.quantity ≠ (tappedAt o row j a).quantity := by
    rw [getElem?_tapped ho]
    constructor
    · rintro ⟨a, b, ha, hb, hne⟩
      rw [ha, Option.map_some, Option.some.injEq] at hb
      subst hb
      exact ⟨a, ha, hne⟩
    · rintro ⟨a, ha, hne⟩
      exact ⟨a, _, ha, by rw [ha, Option.map_some], hne⟩
  rw [hchange]
  unfold reported tappedAt
  by_cases hj : row = j
  · subst hj
    have hmem : row ∈ if o.quantity > 0 then [row] else tickedRows l ++ [row] := by split <;> simp
    refine iff_of_true hmem ⟨o, ho, ?_⟩
    rw [if_pos rfl]
    split
    · rename_i hq; simp; omega
    · rename_i hq; simp [h.zero_of_not_pos ho hm hq]
  · simp only [if_neg hj]
    by_cases hq : o.quantity > 0
    · simp only [hq, if_true, List.mem_singleton, ne_eq, not_true, and_false, exists_false, iff_false]
      exact fun he => hj he.symm
    · simp only [hq, if_false, List.mem_append, List.mem_singleton, mem_tickedRows, quantity_deselected]
      constructor
      · rintro (ht | he)
        · exact ht
        · exact absurd he.symm hj
      · exact Or.inl

/-- **A tap is exact.** In every state of a session, at a row `p` of the
options or of a type, the cell is made and its rows show the list of `p`. A tap
on a single-choice row of it traps nowhere and changes that list only; the
rows it returns are, once each, those whose quantity changed; and the tapped
row is selected afterwards iff it was not before. -/
theorem tap_exact {item : Item} {names : List String} {x : OrderItem}
    (h : (detail item names).Reachable x) {p : Nat}
    (hp : getCellType x p = .optionCell ∨ getCellType x p = .typeCell) (reused : OptionsCell) :
    ∃ c l, cellForItemAt reused x p = some c ∧ x.getList (displayed p) = some l ∧
      (∀ row option, c.makeCell row x option = l[row]?) ∧
      ∀ row o, l[row]? = some o → o.canHaveMultiple = false →
        ∃ y l' rows, c.switchSelectedTo row x = some (y, rows) ∧ c.didSelectRowAt row x = some y ∧
          y.getList (displayed p) = some l' ∧ l'.length = l.length ∧
          (∀ r, r ≠ displayed p → y.getList r = x.getList r) ∧
          y.allergies = x.allergies ∧ y.quantity = x.quantity ∧ SameMenu x y ∧ rows.Nodup ∧
          (∀ j, j ∈ rows ↔
            ∃ a b, l[j]? = some a ∧ l'[j]? = some b ∧ a.quantity ≠ b.quantity) ∧
          ∃ b, l'[row]? = some b ∧ (b.quantity ≠ 0 ↔ ¬ o.quantity ≠ 0) := by
  obtain ⟨c, l, hc, hl, hget, hsave⟩ := cellForItemAt_displayed hp reused
  refine ⟨c, l, hc, hl, makeCell_eq hc hget, fun row o ho hm => ?_⟩
  have hg := radioGroups_reachable h _ l hl
  have hlist : ∀ r, (x.setList (displayed p) (tapped row l)).updatePrice.getList r =
      if displayed p = r then (x.getList r).map fun _ => tapped row l else x.getList r :=
    fun r => getList_setList x (displayed p) r (tapped row l)
  refine ⟨(x.setList (displayed p) (tapped row l)).updatePrice, tapped row l, reported o row l,
    ?_, ?_, ?_, length_tapped row l, fun r hr => ?_, ?_, ?_, ?_, hg.nodup_reported ho hm,
    hg.mem_reported ho hm, ?_⟩
  · rw [switchSelectedTo_some hget ho, hsave]; rfl
  · rw [didSelectRowAt_eq hget ho, hm, hsave]; rfl
  · rw [hlist, if_pos rfl, hl, Option.map_some]
  · rw [hlist, if_neg hr.symm]
  · cases displayed p <;> rfl
  · cases displayed p <;> rfl
  · exact (SameMenu.setList hl (blank_tapped row l)).updatePrice
  · refine ⟨tappedAt o row row o, by rw [getElem?_tapped ho, ho, Option.map_some], ?_⟩
    unfold tappedAt
    rw [if_pos rfl]
    have hzero := hg.zero_of_not_pos ho hm
    split
    · rename_i hq; simp; omega
    · rename_i hq; simp [hzero hq]

/-- The large size replaces the small one; both rows are reloaded. -/
theorem tap_exact_mocha : ∃ x y, (detail mocha []).Reachable x ∧
    OptionsCell.switchSelectedTo ⟨.typeCell, 0⟩ 1 x = some (y, [0, 1]) ∧ y.options = x.options := by
  have hrun : (detail mocha []).Run mochaOpened [.tapRow {} 1 1, .tapRow {} 2 0] _ :=
    .cons ⟨⟨_, rfl, by decide⟩, rfl⟩ (.cons ⟨⟨_, rfl, by decide⟩, rfl⟩ (.nil _))
  have hr := hrun.reachable (show createOrderItem mocha [] = some mochaOpened from rfl)
  obtain ⟨c, l, hc, hl, -, htap⟩ := tap_exact hr (p := 2) (.inr rfl) {}
  cases hc; cases hl
  obtain ⟨y, l', rows, hs, -, -, -, hothers, -⟩ := htap 1 _ rfl rfl
  have hrows : rows = [0, 1] := congrArg Prod.snd (Option.some.inj hs).symm
  refine ⟨_, y, hr, by rw [← hrows]; exact hs, ?_⟩
  exact Option.some.inj (hothers .options (by decide))

end QadsCafe
