import QadsCafe.Core.Radio
import QadsCafe.L2Detail.Session

/-!
# The choices of a session

`createOrderItem` makes the choices of a type single-choice rows, all of them
unselected, so the cell of a type is a radio group that can be tapped off:
after the taps of a session row `j` is selected iff `radio` of the taps in
that cell says so (`selected_run`). Some row is selected iff the taps end in
an odd number of taps on one row (`selectedOnce_iff`).
-/
namespace QadsCafe

open Core

/-- Row `j` of the type is selected. -/
def ItemType.Selected (t : ItemType) (j : Nat) : Prop := ∃ o, t.choices[j]? = some o ∧ 0 < o.quantity

/-- The rows tapped in the cell of type `i`. -/
def typeTaps (i : Nat) (edits : List Edit) : List Nat :=
  edits.filterMap fun
    | .tapRow _ cell row => if cell = i + 2 then some row else none
    | _ => none

theorem typeTaps_cons (i : Nat) (e : Edit) (edits : List Edit) :
    typeTaps i (e :: edits) = typeTaps i [e] ++ typeTaps i edits :=
  List.filterMap_append (l := [e])

/-! ## One list -/

/-- The list is a radio group with `sel` selected. -/
structure Shows (sel : Option Nat) (l : List ItemOption) : Prop where
  row : ∀ (j : Nat) (o : ItemOption), l[j]? = some o →
    o.canHaveMultiple = false ∧ o.quantity = if sel = some j then 1 else 0
  bound : ∀ j, sel = some j → j < l.length

theorem getElem?_setQuantityAt (row : Nat) (q : Int) (l : List ItemOption) (j : Nat) :
    (OptionsCell.setQuantityAt row q l)[j]? =
      l[j]?.map fun o => if row = j then { o with quantity := q } else o := by
  rw [OptionsCell.setQuantityAt, List.getElem?_modify]
  by_cases h : row = j
  · simp [h]
  · simp [h]

theorem length_setQuantityAt (row : Nat) (q : Int) (l : List ItemOption) :
    (OptionsCell.setQuantityAt row q l).length = l.length := List.length_modify _ _ _

/-- In a radio group the loop deselects every row. -/
theorem deselectOthers_single (l : List ItemOption) (i : Nat)
    (h : ∀ o ∈ l, o.canHaveMultiple = false) :
    (OptionsCell.deselectOthers i l).1 = l.map fun o => { o with quantity := 0 } := by
  rw [deselectOthers_eq]
  refine List.map_congr_left fun o ho => ?_
  rw [ItemOption.deselected, h o ho, if_neg Bool.noConfusion]

theorem Shows.tapped {sel : Option Nat} {l : List ItemOption} (h : Shows sel l) {row : Nat}
    (hrow : row < l.length) : Shows (toggle sel row) (tapped row l) := by
  have hsel : l[row]?.any (fun o => decide (o.quantity > 0)) = true ↔ sel = some row := by
    have hq := (h.row row l[row] (List.getElem?_eq_getElem hrow)).2
    rw [List.getElem?_eq_getElem hrow, Option.any_some, decide_eq_true_eq, hq]
    split
    · rename_i he; simp [he]
    · rename_i he; simp [he]
  unfold QadsCafe.tapped toggle
  by_cases hs : sel = some row
  · rw [if_pos (hsel.mpr hs), if_pos hs]
    refine ⟨fun j o ho => ?_, fun j hj => by cases hj⟩
    rw [getElem?_setQuantityAt, Option.map_eq_some_iff] at ho
    obtain ⟨p, hp, rfl⟩ := ho
    obtain ⟨hm, hq⟩ := h.row j p hp
    split
    · exact ⟨hm, rfl⟩
    · rename_i hj
      have hne : ¬ sel = some j := by rw [hs]; simpa using hj
      rw [if_neg hne] at hq
      exact ⟨hm, by rw [hq]; rfl⟩
  · rw [if_neg fun ht => hs (hsel.mp ht), if_neg hs]
    have hsingle : ∀ o ∈ l, o.canHaveMultiple = false := by
      intro o ho
      obtain ⟨j, hj⟩ := List.mem_iff_getElem?.mp ho
      exact (h.row j o hj).1
    rw [deselectOthers_single l 0 hsingle]
    refine ⟨fun j o ho => ?_, fun j hj => ?_⟩
    · rw [getElem?_setQuantityAt, List.getElem?_map, Option.map_map, Option.map_eq_some_iff] at ho
      obtain ⟨p, hp, rfl⟩ := ho
      simp only [Function.comp_apply, Option.some.injEq]
      split
      · exact ⟨(h.row j p hp).1, rfl⟩
      · exact ⟨(h.row j p hp).1, rfl⟩
    · cases hj
      rw [length_setQuantityAt, List.length_map]
      exact hrow

/-- The selected row of a radio group. -/
theorem Shows.selected_iff {sel : Option Nat} {t : ItemType} (h : Shows sel t.choices) (j : Nat) :
    t.Selected j ↔ sel = some j := by
  constructor
  · rintro ⟨o, ho, hq⟩
    have hqo := (h.row j o ho).2
    by_contra hne
    rw [if_neg hne] at hqo
    omega
  · intro hj
    have hlt := h.bound j hj
    refine ⟨t.choices[j], List.getElem?_eq_getElem hlt, ?_⟩
    rw [(h.row j _ (List.getElem?_eq_getElem hlt)).2, if_pos hj]
    omega

theorem Shows.selectedOnce_iff {sel : Option Nat} {t : ItemType} (h : Shows sel t.choices) :
    (∃! j, t.Selected j) ↔ sel.isSome := by
  simp only [h.selected_iff]
  constructor
  · rintro ⟨j, hj, -⟩
    rw [hj]; rfl
  · intro hs
    obtain ⟨j, hj⟩ := Option.isSome_iff_exists.mp hs
    refine ⟨j, hj, fun k hk => ?_⟩
    rw [hj] at hk
    exact (Option.some.inj hk).symm

/-! ## A session -/

/-- Every type is a radio group with `sel i` selected. -/
def Groups (sel : Nat → Option Nat) (x : OrderItem) : Prop :=
  ∀ (i : Nat) (t : ItemType), x.types[i]? = some t → Shows (sel i) t.choices

theorem Created.groups {item : Item} {names : List String} {x : OrderItem}
    (h : Created item names x) : Groups (fun _ => none) x := by
  intro i t ht
  refine ⟨fun j o ho => ?_, fun j hj => by cases hj⟩
  obtain ⟨hq, hm⟩ := h.choice t (List.mem_of_getElem? ht) o (List.mem_of_getElem? ho)
  exact ⟨hm, hq⟩

theorem getElem?_setList_choices (x : OrderItem) (k : Nat) (l : List ItemOption) (i : Nat) :
    (x.setList (.choices k) l).types[i]? =
      x.types[i]?.map fun t => if k = i then { t with choices := l } else t := by
  show (x.types.modify k fun t => { t with choices := l })[i]? = _
  rw [List.getElem?_modify]
  rfl

/-- **One action**: a tap in the cell of a type toggles its row, and nothing
else changes a selection. -/
theorem Groups.step {sel : Nat → Option Nat} {x y : OrderItem} {e : Edit} (h : Groups sel x)
    (hs : Shown x e) (he : edit x e = some y) :
    Groups (fun i => (typeTaps i [e]).foldl toggle (sel i)) y ∧ y.types.length = x.types.length := by
  cases e with
  | tapRow reused cell row =>
    obtain ⟨r, l, o, hr, hl, ho, rfl⟩ := tapRow_cases hs he
    cases r with
    | options =>
      have hcell : ∀ i, typeTaps i [.tapRow reused cell row] = [] := by
        intro i
        have hne : cell ≠ i + 2 := by
          have := cellList_options hr
          omega
        simp [typeTaps, hne]
      simp only [hcell, List.foldl_nil]
      split
      · exact ⟨h, rfl⟩
      · exact ⟨h, rfl⟩
    | choices k =>
      obtain rfl := cellList_choices hr
      simp only [OrderItem.getList, Option.map_eq_some_iff] at hl
      obtain ⟨t, ht, rfl⟩ := hl
      have hshow := h k t ht
      rw [if_neg (by rw [(hshow.row row o ho).1]; simp)]
      refine ⟨fun i u hu => ?_, List.length_modify _ _ _⟩
      have hu' : (x.setList (.choices k) (tapped row t.choices)).types[i]? = some u := hu
      rw [getElem?_setList_choices, Option.map_eq_some_iff] at hu'
      obtain ⟨v, hv, rfl⟩ := hu'
      dsimp only
      by_cases hki : k = i
      · subst hki
        have htaps : typeTaps k [.tapRow reused (k + 2) row] = [row] := by simp [typeTaps]
        rw [htaps, if_pos rfl]
        exact hshow.tapped (List.getElem?_eq_some_iff.mp ho).1
      · have htaps : typeTaps i [.tapRow reused (k + 2) row] = [] := by simp [typeTaps, hki]
        rw [htaps, if_neg hki]
        exact h i v hv
  | quantityStepper row value =>
    simp only [edit, OrderItem.quantityStepper] at he
    split at he
    · cases he; exact ⟨h, rfl⟩
    · cases he
  | tapAllergy row =>
    simp only [edit, OrderItem.toggleAllergy] at he
    split at he
    · cases he; exact ⟨h, rfl⟩
    · cases he
  | stepperTapped value => cases he; exact ⟨h, rfl⟩

theorem Groups.run {item : Item} {names : List String} {x y : OrderItem} {edits : List Edit}
    (hr : (detail item names).Run x edits y) : ∀ {sel : Nat → Option Nat}, Groups sel x →
      Groups (fun i => (typeTaps i edits).foldl toggle (sel i)) y ∧
        y.types.length = x.types.length := by
  induction hr with
  | nil x => intro sel h; exact ⟨h, rfl⟩
  | @cons x y z e edits hs _ ih =>
    intro sel h
    obtain ⟨hy, hlen⟩ := h.step hs.1 hs.2
    obtain ⟨hz, hlen'⟩ := ih hy
    refine ⟨fun i t ht => ?_, hlen'.trans hlen⟩
    have hit := hz i t ht
    show Shows ((typeTaps i (e :: edits)).foldl toggle (sel i)) t.choices
    rw [typeTaps_cons, List.foldl_append]
    exact hit

/-- **A session**: the selected rows are those of the taps. -/
theorem selected_run {item : Item} {names : List String} {x₀ x : OrderItem} {edits : List Edit}
    (h₀ : createOrderItem item names = some x₀) (hr : (detail item names).Run x₀ edits x) :
    Groups (fun i => radio (typeTaps i edits)) x ∧ x.types.length = x₀.types.length :=
  Groups.run hr (createOrderItem_created h₀).groups

theorem selectedOnce_iff {item : Item} {names : List String} {x₀ x : OrderItem} {edits : List Edit}
    (h₀ : createOrderItem item names = some x₀) (hr : (detail item names).Run x₀ edits x) :
    (∀ t ∈ x.types, ∃! j, t.Selected j) ↔
      ∀ i < x₀.types.length, lastRun (typeTaps i edits) % 2 = 1 := by
  obtain ⟨hsel, hlen⟩ := selected_run h₀ hr
  constructor
  · intro h i hi
    have ht : x.types[i]? = some x.types[i] := List.getElem?_eq_getElem (by omega)
    rw [← radio_isSome, ← (hsel i _ ht).selectedOnce_iff]
    exact h _ (List.mem_of_getElem? ht)
  · intro h t ht
    obtain ⟨i, hi⟩ := List.mem_iff_getElem?.mp ht
    have hlt := (List.getElem?_eq_some_iff.mp hi).1
    rw [(hsel i t hi).selectedOnce_iff, radio_isSome]
    exact h i (by omega)

end QadsCafe
