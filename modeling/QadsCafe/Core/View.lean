import Mathlib.Logic.Function.Basic

/-!
# Views of a model

A screen shows some entries of a model, each as it was when it was drawn.
`render` says how the model would draw an entry now; a view is `Current` if
everything on it is drawn as the model would draw it.

After a change of the model a program draws some of the visible entries anew.
`Current.refresh_iff`: this keeps the view current exactly if the entries that
it leaves out look as before.
-/
namespace Core

variable {K V : Type}

/-- The entries on screen. -/
abbrev View (K V : Type) := K → Option V

namespace View

def Current (render : K → Option V) (view : View K V) : Prop :=
  ∀ k v, view k = some v → render k = some v

/-- The visible ones among `keys` are drawn anew. -/
def refresh (render : K → Option V) (keys : K → Prop) [DecidablePred keys] (view : View K V) :
    View K V := fun k => if keys k ∧ (view k).isSome then render k else view k

variable {render old new : K → Option V} {view : View K V} {keys : K → Prop} [DecidablePred keys]

theorem Current.none : Current render (fun _ => none) := fun _ _ h => by cases h

/-- The model changed at one entry, which is drawn anew. -/
theorem Current.redraw [DecidableEq K] (h : Current old view) {k : K}
    (hkept : ∀ j, j ≠ k → new j = old j) : Current new (Function.update view k (new k)) := by
  intro j v hj
  by_cases he : j = k
  · rw [he, Function.update_self] at hj
    rw [he, hj]
  · rw [Function.update_of_ne he] at hj
    rw [hkept j he, h j v hj]

theorem Current.draw [DecidableEq K] (h : Current render view) (k : K) :
    Current render (Function.update view k (render k)) := h.redraw fun _ _ => rfl

theorem Current.hide [DecidableEq K] (h : Current render view) (k : K) :
    Current render (Function.update view k Option.none) := by
  intro j v hj
  by_cases he : j = k
  · rw [he, Function.update_self] at hj
    cases hj
  · rw [Function.update_of_ne he] at hj
    exact h j v hj

/-- **Refreshing** is enough exactly if nothing else on screen changed. -/
theorem Current.refresh_iff (h : Current old view) :
    Current new (view.refresh new keys) ↔ ∀ k, ¬ keys k → (view k).isSome → new k = old k := by
  constructor
  · intro hnew k hk hv
    obtain ⟨v, hv⟩ := Option.isSome_iff_exists.mp hv
    have hkept : view.refresh new keys k = some v := by
      rw [refresh, if_neg fun hr => hk hr.1, hv]
    rw [hnew k v hkept, h k v hv]
  · intro hkept k v hv
    unfold refresh at hv
    split at hv
    · exact hv
    · rename_i hr
      have hk : ¬ keys k := fun hk => hr ⟨hk, by rw [hv]; rfl⟩
      rw [hkept k hk (by rw [hv]; rfl)]
      exact h k v hv

/-- Only how the refreshed entries are drawn matters. -/
theorem refresh_congr (h : ∀ k, keys k → old k = new k) :
    view.refresh old keys = view.refresh new keys := by
  funext k
  unfold refresh
  split
  · rename_i hr
    exact h k hr.1
  · rfl

end View

end Core
