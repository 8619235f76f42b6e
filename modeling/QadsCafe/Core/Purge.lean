import QadsCafe.Core.LTS

/-!
# Runs without the steps that are not to matter

`keep s l` is the label that a step `l` at `s` has in another system, `none`
if the step is to be left out; `purge` leaves these out of a whole run. If the
kept steps are matched and the others change nothing that is related, the
purged run is one of the other system and ends in a related state
(`Unwinds.run`). Both may be asked only of labels with `P`.
-/
namespace Core

variable {S T L K : Type}

def purge (f : S → L → Option S) (keep : S → L → Option K) : S → List L → List K
  | _, [] => []
  | s, l :: ls => (keep s l).toList ++ ((f s l).map fun t => purge f keep t ls).getD []

structure Unwinds (f : S → L → Option S) (N : LTS T K) (keep : S → L → Option K)
    (P : L → Prop) (R : S → T → Prop) : Prop where
  kept : ∀ s u t l k, P l → R s u → f s l = some t → keep s l = some k → ∃ v, N.step u k v ∧ R t v
  dropped : ∀ s u t l, P l → R s u → f s l = some t → keep s l = none → R t u

theorem Unwinds.run {f : S → L → Option S} {N : LTS T K} {keep : S → L → Option K}
    {P : L → Prop} {R : S → T → Prop} (h : Unwinds f N keep P R) {init : S → Prop} {s t : S}
    {ls : List L} (hr : (LTS.ofFn init f).Run s ls t) (hP : ∀ l ∈ ls, P l) {u : T} (hR : R s u) :
    ∃ v, N.Run u (purge f keep s ls) v ∧ R t v := by
  induction hr generalizing u with
  | nil => exact ⟨u, .nil u, hR⟩
  | @cons s s₁ t l ls hs _ ih =>
    have hs' : f s l = some s₁ := hs
    have hl : P l := hP l List.mem_cons_self
    have hls : ∀ l ∈ ls, P l := fun l hl => hP l (List.mem_cons_of_mem _ hl)
    rw [purge, hs', Option.map_some, Option.getD_some]
    cases hk : keep s l with
    | none => exact ih hls (h.dropped _ _ _ _ hl hR hs' hk)
    | some k =>
      obtain ⟨v, hv, hRv⟩ := h.kept _ _ _ _ _ hl hR hs' hk
      obtain ⟨w, hw, hRw⟩ := ih hls hRv
      exact ⟨w, .cons hv hw, hRw⟩

/-- What is left out is decided by the labels. -/
theorem purge_filter {f : S → L → Option S} {init : S → Prop} {s t : S} {ls : List L}
    (hr : (LTS.ofFn init f).Run s ls t) (p : L → Bool) :
    purge f (fun _ l => if p l then some l else none) s ls = ls.filter p := by
  induction hr with
  | nil => rfl
  | @cons s s₁ t l ls hs _ ih =>
    have hs' : f s l = some s₁ := hs
    rw [purge, hs', Option.map_some, Option.getD_some, ih]
    cases hp : p l with
    | true => rw [List.filter_cons_of_pos hp]; rfl
    | false => rw [List.filter_cons_of_neg (by simp [hp])]; rfl

end Core
