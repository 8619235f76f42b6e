import Mathlib.Logic.Function.Basic
import QadsCafe.Core.LTS

/-!
# Steppers in reusable cells

A stepper keeps a value of its own, in the instance of the cell it sits in. A
press moves that value by one within a range and sends it. Showing a row takes
any idle cell, or a new one with the range's initial value; nothing sets the
stepper to the quantity of the row, only the label.

`steppers r` is one pool of such cells over quantities kept elsewhere. A press
counts from the label iff the stepper has the row's quantity (`counts_iff`),
so presses count right as long as every cell shown has it (`counts`).
-/
namespace Core

structure StepperRange where
  lo : Int
  hi : Int
  start : Int
  lt : lo < hi
  lo_start : lo ≤ start
  start_hi : start ≤ hi

inductive Press where
  | plus | minus
  deriving DecidableEq

/-- The value sent, or `none` at the end of the range. -/
def StepperRange.press (r : StepperRange) (value : Int) : Press → Option Int
  | .plus => if value < r.hi then some (value + 1) else none
  | .minus => if r.lo < value then some (value - 1) else none

variable {R : Type} [DecidableEq R]

/-- A cell: the value of its stepper, the row it shows and the label there. -/
structure StepperCell (R : Type) where
  value : Int
  shows : Option R := none
  label : Int := 0

/-- The cell that showed `row` goes back to the idle ones. -/
def StepperCell.leave (row : R) (c : StepperCell R) : StepperCell R :=
  if c.shows = some row then { c with shows := none } else c

/-- Show `row`, with `label`, in the idle cell `i` or in a new one. -/
def showRow (r : StepperRange) (row : R) (label : Int) (cells : List (StepperCell R)) :
    Option Nat → Option (List (StepperCell R))
  | none => some (cells.map (StepperCell.leave row) ++ [⟨r.start, some row, label⟩])
  | some i => do
    let c ← cells[i]?
    if c.shows = none then
      some ((cells.map (StepperCell.leave row)).modify i fun _ => ⟨c.value, some row, label⟩)
    else none

def hideCell (cells : List (StepperCell R)) (i : Nat) : List (StepperCell R) :=
  cells.modify i fun c => { c with shows := none }

/-- The value of the stepper that a row is about to be shown with. -/
def startValue (r : StepperRange) (cells : List (StepperCell R)) : Option Nat → Option Int
  | none => some r.start
  | some i => cells[i]?.map (·.value)

structure Steppers (R : Type) where
  quantity : R → Int
  cells : List (StepperCell R) := []

inductive StepperEvent (R : Type) where
  | showRow (row : R) (reuse : Option Nat)
  | hide (i : Nat)
  | press (i : Nat) (p : Press)

namespace Steppers

/-- Press the stepper of the cell `i`, which shows `row`. -/
def sent (s : Steppers R) (i : Nat) (row : R) (value : Int) : Steppers R where
  quantity := Function.update s.quantity row value
  cells := s.cells.modify i fun c => { c with value, label := value }

def pressed (r : StepperRange) (s : Steppers R) (i : Nat) (p : Press) : Option (Steppers R) := do
  let c ← s.cells[i]?
  let row ← c.shows
  return ((r.press c.value p).map (s.sent i row)).getD s

def step (r : StepperRange) (s : Steppers R) : StepperEvent R → Option (Steppers R)
  | .showRow row reuse =>
    (showRow r row (s.quantity row) s.cells reuse).map fun cells => { s with cells }
  | .hide i => some { s with cells := hideCell s.cells i }
  | .press i p => s.pressed r i p

end Steppers

/-- Any quantities in the range, no cell made yet. -/
def steppers (R : Type) [DecidableEq R] (r : StepperRange) : LTS (Steppers R) (StepperEvent R) :=
  LTS.ofFn (fun s => (∀ row, r.lo ≤ s.quantity row ∧ s.quantity row ≤ r.hi) ∧ s.cells = [])
    (Steppers.step r)

/-- The cell a row is shown with has the row's quantity on its stepper. -/
def ShowsValue (r : StepperRange) (s : Steppers R) : StepperEvent R → Prop
  | .showRow row reuse => startValue r s.cells reuse = some (s.quantity row)
  | _ => True

/-! ## What a step does to the cells -/

/-- The cells after `row` is shown in cell `k`, whose stepper has `v`. -/
structure Placed (row : R) (label : Int) (cells cells' : List (StepperCell R)) (k : Nat) (v : Int) :
    Prop where
  here : cells'[k]? = some ⟨v, some row, label⟩
  other : ∀ j c, cells'[j]? = some c → j ≠ k → ∃ a, cells[j]? = some a ∧ c = a.leave row

theorem showRow_placed {r : StepperRange} {row : R} {label : Int}
    {cells cells' : List (StepperCell R)} {reuse : Option Nat}
    (h : showRow r row label cells reuse = some cells') :
    ∃ k v, startValue r cells reuse = some v ∧ Placed row label cells cells' k v := by
  cases reuse with
  | none =>
    cases h
    refine ⟨cells.length, r.start, rfl, by simp, fun j c hc hj => ?_⟩
    have hlt : j < cells.length := by
      have := (List.getElem?_eq_some_iff.mp hc).1
      simp only [List.length_append, List.length_map, List.length_singleton] at this
      omega
    rw [List.getElem?_append_left (by simpa using hlt), List.getElem?_map,
      Option.map_eq_some_iff] at hc
    obtain ⟨a, ha, rfl⟩ := hc
    exact ⟨a, ha, rfl⟩
  | some i =>
    simp only [showRow, Option.bind_eq_bind, Option.bind_eq_some_iff] at h
    obtain ⟨a, ha, h⟩ := h
    split at h
    · cases h
      refine ⟨i, a.value, by simp [startValue, ha], by simp [ha], fun j c hc hj => ?_⟩
      rw [List.getElem?_modify_ne _ _ hj.symm, List.getElem?_map, Option.map_eq_some_iff] at hc
      obtain ⟨b, hb, rfl⟩ := hc
      exact ⟨b, hb, rfl⟩
    · cases h

/-! ## The invariant -/

/-- Labels are right, no row is shown twice, and everything is in the range. -/
structure Steppers.Inv (r : StepperRange) (s : Steppers R) : Prop where
  quantity : ∀ row, r.lo ≤ s.quantity row ∧ s.quantity row ≤ r.hi
  value : ∀ (i : Nat) (c : StepperCell R), s.cells[i]? = some c → r.lo ≤ c.value ∧ c.value ≤ r.hi
  label : ∀ (i : Nat) (c : StepperCell R) (row : R), s.cells[i]? = some c → c.shows = some row →
    c.label = s.quantity row
  once : ∀ (i j : Nat) (c d : StepperCell R) (row : R), s.cells[i]? = some c → s.cells[j]? = some d →
    c.shows = some row → d.shows = some row → i = j

/-- Every cell shown has the quantity of its row on its stepper. -/
def Steppers.InStep (s : Steppers R) : Prop :=
  ∀ (i : Nat) (c : StepperCell R) (row : R), s.cells[i]? = some c → c.shows = some row →
    c.value = s.quantity row

theorem StepperCell.leave_shows {row row' : R} {a : StepperCell R}
    (h : (a.leave row).shows = some row') : a.shows = some row' ∧ row' ≠ row ∧ a.leave row = a := by
  unfold leave at h ⊢
  split at h
  · cases h
  · rename_i hne
    refine ⟨h, ?_, if_neg hne⟩
    rintro rfl
    exact hne h

theorem StepperCell.leave_value (row : R) (a : StepperCell R) : (a.leave row).value = a.value := by
  unfold leave
  split <;> rfl

omit [DecidableEq R] in
theorem hideCell_cases {cells : List (StepperCell R)} {i j : Nat} {c : StepperCell R}
    (h : (hideCell cells i)[j]? = some c) :
    ∃ a, cells[j]? = some a ∧ c.value = a.value ∧ ∀ row, c.shows = some row → c = a := by
  unfold hideCell at h
  rw [List.getElem?_modify] at h
  obtain ⟨a, ha, rfl⟩ := Option.map_eq_some_iff.mp h
  refine ⟨a, ha, ?_, fun row hrow => ?_⟩
  · split <;> rfl
  · split at hrow
    · cases hrow
    · rename_i hi
      rw [if_neg hi]

theorem StepperRange.press_range {r : StepperRange} {v w : Int} {p : Press}
    (h : r.press v p = some w) (hv : r.lo ≤ v ∧ v ≤ r.hi) : r.lo ≤ w ∧ w ≤ r.hi := by
  cases p with
  | plus =>
    simp only [press] at h
    split at h
    · cases h; omega
    · cases h
  | minus =>
    simp only [press] at h
    split at h
    · cases h; omega
    · cases h

theorem Steppers.pressed_eq {s : Steppers R} {i : Nat} {c : StepperCell R} {row : R}
    (hc : s.cells[i]? = some c) (hrow : c.shows = some row) (r : StepperRange) (p : Press) :
    s.pressed r i p = some (((r.press c.value p).map (s.sent i row)).getD s) := by
  simp only [pressed, hc, hrow, Option.bind_eq_bind, Option.bind_some, Option.pure_def]

/-- A press leaves everything alone or sends a value from a cell shown. -/
theorem Steppers.pressed_cases {r : StepperRange} {s t : Steppers R} {i : Nat} {p : Press}
    (h : s.pressed r i p = some t) :
    t = s ∨ ∃ c row v, s.cells[i]? = some c ∧ c.shows = some row ∧ r.press c.value p = some v ∧
      t = s.sent i row v := by
  simp only [pressed, Option.bind_eq_bind, Option.bind_eq_some_iff, Option.pure_def,
    Option.some.injEq] at h
  obtain ⟨c, hc, row, hrow, rfl⟩ := h
  cases hv : r.press c.value p with
  | none => exact .inl rfl
  | some v => exact .inr ⟨c, row, v, hc, hrow, hv, rfl⟩

theorem Steppers.sent_cases {s : Steppers R} {i j : Nat} {row : R} {v : Int} {c : StepperCell R}
    (h : (s.sent i row v).cells[j]? = some c) :
    (j ≠ i ∧ s.cells[j]? = some c) ∨
      (j = i ∧ ∃ a, s.cells[j]? = some a ∧ c = { a with value := v, label := v }) := by
  simp only [sent] at h
  by_cases hj : j = i
  · subst hj
    rw [List.getElem?_modify_eq] at h
    obtain ⟨a, ha, rfl⟩ := Option.map_eq_some_iff.mp h
    exact .inr ⟨rfl, a, ha, rfl⟩
  · rw [List.getElem?_modify_ne _ _ (Ne.symm hj)] at h
    exact .inl ⟨hj, h⟩

namespace Steppers

variable {r : StepperRange} {s t : Steppers R}

omit [DecidableEq R] in
theorem startValue_range (hs : s.Inv r) {reuse : Option Nat} {v : Int}
    (h : startValue r s.cells reuse = some v) : r.lo ≤ v ∧ v ≤ r.hi := by
  cases reuse with
  | none => cases h; exact ⟨r.lo_start, r.start_hi⟩
  | some i =>
    obtain ⟨c, hc, rfl⟩ := Option.map_eq_some_iff.mp h
    exact hs.value i c hc

/-- What is known of a cell that shows a row after the step that showed one. -/
theorem Placed.shows {row : R} {label : Int} {cells cells' : List (StepperCell R)} {k : Nat} {v : Int}
    (h : Placed row label cells cells' k v) {j : Nat} {c : StepperCell R} {row' : R}
    (hc : cells'[j]? = some c) (hrow : c.shows = some row') :
    (j = k ∧ row' = row ∧ c = ⟨v, some row, label⟩) ∨
      (j ≠ k ∧ row' ≠ row ∧ cells[j]? = some c) := by
  by_cases hj : j = k
  · subst hj
    obtain rfl := Option.some.inj (hc.symm.trans h.here)
    exact .inl ⟨rfl, (Option.some.inj hrow).symm, rfl⟩
  · obtain ⟨a, ha, rfl⟩ := h.other j c hc hj
    obtain ⟨-, hne, heq⟩ := StepperCell.leave_shows hrow
    exact .inr ⟨hj, hne, by rw [heq]; exact ha⟩

theorem Inv.placed {row : R} {cells' : List (StepperCell R)} {k : Nat} {v : Int} (hs : s.Inv r)
    (h : Placed row (s.quantity row) s.cells cells' k v) (hv : r.lo ≤ v ∧ v ≤ r.hi) :
    Inv r { s with cells := cells' } := by
  refine ⟨hs.quantity, fun j c hc => ?_, fun j c row' hc hrow => ?_, fun i j c d row' hc hd hrc hrd => ?_⟩
  · by_cases hj : j = k
    · subst hj
      obtain rfl := Option.some.inj (h.here.symm.trans hc)
      exact hv
    · obtain ⟨a, ha, rfl⟩ := h.other j c hc hj
      rw [StepperCell.leave_value]
      exact hs.value j a ha
  · rcases Placed.shows h hc hrow with ⟨-, rfl, rfl⟩ | ⟨-, -, ha⟩
    · rfl
    · exact hs.label j c row' ha hrow
  · rcases Placed.shows h hc hrc with ⟨hi, hri, -⟩ | ⟨-, hni, ha⟩ <;>
      rcases Placed.shows h hd hrd with ⟨hj, hrj, -⟩ | ⟨-, hnj, hb⟩
    · rw [hi, hj]
    · exact absurd hri hnj
    · exact absurd hrj hni
    · exact hs.once i j c d row' ha hb hrc hrd

omit [DecidableEq R] in
theorem Inv.hide (hs : s.Inv r) (i : Nat) : Inv r { s with cells := hideCell s.cells i } := by
  refine ⟨hs.quantity, fun j c hc => ?_, fun j c row hc hrow => ?_, fun j k c d row hc hd hrc hrd => ?_⟩
  · obtain ⟨a, ha, hv, -⟩ := hideCell_cases hc
    rw [hv]
    exact hs.value j a ha
  · obtain ⟨a, ha, -, heq⟩ := hideCell_cases hc
    obtain rfl := heq row hrow
    exact hs.label j c row ha hrow
  · obtain ⟨a, ha, -, hca⟩ := hideCell_cases hc
    obtain ⟨b, hb, -, hdb⟩ := hideCell_cases hd
    obtain rfl := hca row hrc
    obtain rfl := hdb row hrd
    exact hs.once j k c d row ha hb hrc hrd

theorem Inv.sent {i : Nat} {c : StepperCell R} {row : R} {v : Int} (hs : s.Inv r)
    (hc : s.cells[i]? = some c) (hrow : c.shows = some row) (hv : r.lo ≤ v ∧ v ≤ r.hi) :
    Inv r (s.sent i row v) := by
  refine ⟨fun row' => ?_, fun j d hd => ?_, fun j d row' hd hrd => ?_, fun j k d e row' hd he hrd hre => ?_⟩
  · show r.lo ≤ Function.update s.quantity row v row' ∧ Function.update s.quantity row v row' ≤ r.hi
    by_cases h : row' = row
    · rw [h, Function.update_self]; exact hv
    · rw [Function.update_of_ne h]; exact hs.quantity row'
  · rcases sent_cases hd with ⟨-, ha⟩ | ⟨-, a, -, rfl⟩
    · exact hs.value j d ha
    · exact hv
  · show d.label = Function.update s.quantity row v row'
    rcases sent_cases hd with ⟨hj, ha⟩ | ⟨rfl, a, ha, rfl⟩
    · have hne : row' ≠ row := by
        rintro rfl
        exact hj (hs.once j i d c row' ha hc hrd hrow)
      rw [Function.update_of_ne hne]
      exact hs.label j d row' ha hrd
    · obtain rfl := Option.some.inj (ha.symm.trans hc)
      obtain rfl := Option.some.inj (hrd.symm.trans hrow)
      rw [Function.update_self]
  · -- a press moves no cell to another row
    have hsame : ∀ {j : Nat} {d : StepperCell R}, (s.sent i row v).cells[j]? = some d →
        ∃ a, s.cells[j]? = some a ∧ d.shows = a.shows := by
      intro j d hd
      rcases sent_cases hd with ⟨-, ha⟩ | ⟨-, a, ha, rfl⟩
      · exact ⟨d, ha, rfl⟩
      · exact ⟨a, ha, rfl⟩
    obtain ⟨a, ha, had⟩ := hsame hd
    obtain ⟨b, hb, hbe⟩ := hsame he
    exact hs.once j k a b row' ha hb (had ▸ hrd) (hbe ▸ hre)

theorem Inv.step {e : StepperEvent R} (hs : s.Inv r) (h : s.step r e = some t) : t.Inv r := by
  cases e with
  | showRow row reuse =>
    obtain ⟨cells, hcells, rfl⟩ := Option.map_eq_some_iff.mp h
    obtain ⟨k, v, hv, hp⟩ := showRow_placed hcells
    exact hs.placed hp (startValue_range hs hv)
  | hide i => cases h; exact hs.hide i
  | press i p =>
    rcases pressed_cases h with rfl | ⟨c, row, v, hc, hrow, hv, rfl⟩
    · exact hs
    · exact hs.sent hc hrow (StepperRange.press_range hv (hs.value i c hc))

/-- A row shown after a step was shown before, or the step shows it. -/
theorem shows_step {e : StepperEvent R} (h : s.step r e = some t) {i : Nat} {c : StepperCell R}
    {row : R} (hc : t.cells[i]? = some c) (hrow : c.shows = some row) :
    (∃ reuse, e = .showRow row reuse) ∨
      ∃ (j : Nat) (a : StepperCell R), s.cells[j]? = some a ∧ a.shows = some row := by
  cases e with
  | showRow row' reuse =>
    obtain ⟨cells, hcells, rfl⟩ := Option.map_eq_some_iff.mp h
    obtain ⟨k, v, -, hp⟩ := showRow_placed hcells
    rcases Placed.shows hp hc hrow with ⟨-, rfl, -⟩ | ⟨-, -, ha⟩
    · exact .inl ⟨reuse, rfl⟩
    · exact .inr ⟨i, c, ha, hrow⟩
  | hide k =>
    cases h
    obtain ⟨a, ha, -, heq⟩ := hideCell_cases hc
    obtain rfl := heq row hrow
    exact .inr ⟨i, c, ha, hrow⟩
  | press k p =>
    rcases pressed_cases h with rfl | ⟨d, row', v, -, -, -, rfl⟩
    · exact .inr ⟨i, c, hc, hrow⟩
    · rcases sent_cases hc with ⟨-, ha⟩ | ⟨-, a, ha, rfl⟩
      · exact .inr ⟨i, c, ha, hrow⟩
      · exact .inr ⟨i, a, ha, hrow⟩

theorem inv_reachable (h : (steppers R r).Reachable s) : s.Inv r := by
  refine h.invariant (I := Inv r) ?_ fun s e t _ hi hs => Inv.step hi hs
  rintro s ⟨hq, hcells⟩
  exact ⟨hq, by simp [hcells], by simp [hcells], by simp [hcells]⟩

/-! ## Counting from the label -/

/-- Every press on a cell shown counts from its label. -/
def Counts (r : StepperRange) (s : Steppers R) : Prop :=
  ∀ (i : Nat) (c : StepperCell R) (row : R), s.cells[i]? = some c → c.shows = some row →
    (c.label < r.hi → ∃ t, s.pressed r i .plus = some t ∧ t.quantity row = c.label + 1) ∧
    (r.lo < c.label → ∃ t, s.pressed r i .minus = some t ∧ t.quantity row = c.label - 1)

theorem pressed_quantity {i : Nat} {c : StepperCell R} {row : R} (hc : s.cells[i]? = some c)
    (hrow : c.shows = some row) (p : Press) (q : Int) :
    (∃ t, s.pressed r i p = some t ∧ t.quantity row = q) ↔
      (r.press c.value p).getD (s.quantity row) = q := by
  simp only [pressed_eq hc hrow, Option.some.injEq, exists_eq_left']
  cases r.press c.value p with
  | none => rfl
  | some v => simp [sent]

theorem counts_iff (hs : s.Inv r) : Counts r s ↔ s.InStep := by
  refine forall₄_congr fun i c row hc => forall_congr' fun hrow => ?_
  rw [pressed_quantity hc hrow, pressed_quantity hc hrow]
  obtain ⟨hq, hq'⟩ := hs.quantity row
  obtain ⟨hv, hv'⟩ := hs.value i c hc
  have hl := hs.label i c row hc hrow
  have hlt := r.lt
  unfold StepperRange.press
  dsimp only
  constructor
  · rintro ⟨hplus, hminus⟩
    by_cases htop : c.label < r.hi
    · have h := hplus htop
      split at h
      · simp only [Option.getD_some] at h; omega
      · simp only [Option.getD_none] at h; omega
    · have h := hminus (by omega)
      split at h
      · simp only [Option.getD_some] at h; omega
      · simp only [Option.getD_none] at h; omega
  · intro heq
    constructor
    · intro htop
      rw [if_pos (by omega), Option.getD_some]
      omega
    · intro hbot
      rw [if_pos (by omega), Option.getD_some]
      omega

/-- **One step** that shows no row with another value keeps them in step. -/
theorem inStep_step {e : StepperEvent R} (hs : s.Inv r) (h : s.step r e = some t)
    (hin : s.InStep) (hv : ShowsValue r s e) : t.InStep := by
  cases e with
  | showRow row reuse =>
    obtain ⟨cells, hcells, rfl⟩ := Option.map_eq_some_iff.mp h
    obtain ⟨k, v, hstart, hp⟩ := showRow_placed hcells
    intro j c row' hc hrow
    rcases Placed.shows hp hc hrow with ⟨-, rfl, rfl⟩ | ⟨-, -, ha⟩
    · exact Option.some.inj (hstart.symm.trans hv)
    · exact hin j c row' ha hrow
  | hide i =>
    cases h
    intro j c row hc hrow
    obtain ⟨a, ha, -, heq⟩ := hideCell_cases hc
    obtain rfl := heq row hrow
    exact hin j c row ha hrow
  | press i p =>
    rcases pressed_cases h with rfl | ⟨c, row, v, hc, hrow, -, rfl⟩
    · exact hin
    · intro j d row' hd hrd
      show d.value = Function.update s.quantity row v row'
      rcases sent_cases hd with ⟨hj, ha⟩ | ⟨rfl, a, ha, rfl⟩
      · have hne : row' ≠ row := by
          rintro rfl
          exact hj (hs.once j i d c row' ha hc hrd hrow)
        rw [Function.update_of_ne hne]
        exact hin j d row' ha hrd
      · obtain rfl := Option.some.inj (ha.symm.trans hc)
        obtain rfl := Option.some.inj (hrd.symm.trans hrow)
        rw [Function.update_self]

theorem not_inStep_step {e : StepperEvent R} (h : s.step r e = some t) (hv : ¬ ShowsValue r s e) :
    ¬ t.InStep := by
  cases e with
  | showRow row reuse =>
    obtain ⟨cells, hcells, rfl⟩ := Option.map_eq_some_iff.mp h
    obtain ⟨k, v, hstart, hp⟩ := showRow_placed hcells
    intro hin
    have hvq : v = s.quantity row := hin k _ row hp.here rfl
    exact hv (hstart.trans (congrArg some hvq))
  | _ => exact absurd trivial hv

/-- **Steppers count from the label** in every state of a run that shows each
row in a cell with its quantity, and not after a step that does not. -/
theorem counts (s : Steppers R) :
    (((steppers R r).when (ShowsValue r)).Reachable s → Counts r s) ∧
    ∀ e t, (steppers R r).Reachable s → (steppers R r).step s e t → ¬ ShowsValue r s e →
      ¬ Counts r t := by
  refine ⟨fun h => ?_, fun e t hr hs hv => ?_⟩
  · rw [counts_iff (inv_reachable h.of_when)]
    refine h.invariant (I := InStep) ?_ fun s e t hr hin hs => ?_
    · rintro s ⟨-, hcells⟩ i c row hc
      rw [hcells] at hc
      cases hc
    · exact inStep_step (inv_reachable hr.of_when) hs.1 hin hs.2
  · rw [counts_iff (Inv.step (inv_reachable hr) hs)]
    exact not_inStep_step hs hv

end Steppers

end Core
