import Mathlib.Data.List.Induction

/-!
# A radio group that can be tapped off

A tap selects its row, and deselects it if it is the one selected. After any
taps the row tapped last is selected iff it was tapped an odd number of times
in a row at the end; otherwise none is (`radio_eq`).
-/
namespace Core

variable {α : Type} [DecidableEq α]

def toggle (sel : Option α) (row : α) : Option α := if sel = some row then none else some row

/-- The row selected after some taps. -/
def radio (taps : List α) : Option α := taps.foldl toggle none

/-- How many of the last taps were on one row. -/
def lastRun (taps : List α) : Nat :=
  match taps.reverse with
  | [] => 0
  | row :: rest => (rest.takeWhile fun r => r = row).length + 1

theorem radio_snoc (taps : List α) (row : α) : radio (taps ++ [row]) = toggle (radio taps) row := by
  simp [radio]

theorem lastRun_snoc (taps : List α) (row : α) :
    lastRun (taps ++ [row]) = if taps.getLast? = some row then lastRun taps + 1 else 1 := by
  unfold lastRun
  rw [List.reverse_append, List.reverse_singleton, List.singleton_append]
  rw [← List.head?_reverse]
  cases taps.reverse with
  | nil => simp
  | cons r rest =>
    by_cases h : r = row
    · subst h; simp
    · simp [h]

theorem radio_eq (taps : List α) :
    radio taps = if lastRun taps % 2 = 1 then taps.getLast? else none := by
  induction taps using List.reverseRecOn with
  | nil => rfl
  | append_singleton taps row ih =>
    rw [radio_snoc, ih, lastRun_snoc, List.getLast?_concat]
    by_cases hlast : taps.getLast? = some row
    · rw [if_pos hlast, hlast]
      by_cases hodd : lastRun taps % 2 = 1
      · rw [if_pos hodd, if_neg (by omega), toggle, if_pos rfl]
      · rw [if_neg hodd, if_pos (by omega)]
        rfl
    · rw [if_neg hlast, if_pos rfl, toggle, if_neg]
      split
      · exact hlast
      · simp

theorem radio_isSome (taps : List α) : (radio taps).isSome ↔ lastRun taps % 2 = 1 := by
  rw [radio_eq]
  split
  · rename_i h
    have hne : taps ≠ [] := by rintro rfl; cases h
    simp [h, List.getLast?_eq_some_getLast hne]
  · rename_i h
    simp [h]

end Core
