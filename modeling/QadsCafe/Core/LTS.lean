import Mathlib.Data.List.Basic

/-!
# Labelled transition systems

A system is a set of initial states and a labelled step relation. `Reachable`
and `Run` are its runs from an initial state and from a given one;
`Reachable.invariant` and `Run.invariant` are the induction over them, stated
once: the step premise may use that the state before the step is reachable,
so an invariant can be proved on top of the ones already known.

`M.when C` is `M` with the steps that break the side condition `C` left out:
"in every run whose steps all meet `C`" is reachability in `M.when C`. A
condition on earlier steps is one on `M.record`, which is `M` with a history
variable.
`ofFn` builds a system from a partial step function; `exec` runs that
function over a list of labels.
-/
namespace Core

structure LTS (S L : Type) where
  init : S → Prop
  step : S → L → S → Prop

namespace LTS

variable {S L : Type}

inductive Reachable (M : LTS S L) : S → Prop
  | init {s : S} (h : M.init s) : Reachable M s
  | step {s t : S} {l : L} (hr : Reachable M s) (h : M.step s l t) : Reachable M t

inductive Run (M : LTS S L) : S → List L → S → Prop
  | nil (s : S) : Run M s [] s
  | cons {s t u : S} {l : L} {ls : List L} (h : M.step s l t) (hr : Run M t ls u) :
      Run M s (l :: ls) u

variable {M : LTS S L}

theorem Reachable.run {s t : S} {ls : List L} (hr : Run M s ls t) (hs : M.Reachable s) :
    M.Reachable t := by
  induction hr with
  | nil => exact hs
  | cons h _ ih => exact ih (hs.step h)

theorem Run.append {s t u : S} {ls ms : List L} (h : M.Run s ls t) (h' : M.Run t ms u) :
    M.Run s (ls ++ ms) u := by
  induction h with
  | nil => exact h'
  | cons hs _ ih => exact .cons hs (ih h')

theorem Run.split {s t : S} {ls ms : List L} (h : M.Run s (ls ++ ms) t) :
    ∃ u, M.Run s ls u ∧ M.Run u ms t := by
  induction ls generalizing s with
  | nil => exact ⟨s, .nil s, h⟩
  | cons l ls ih =>
    cases h with
    | cons hs hr =>
      obtain ⟨u, hu, ht⟩ := ih hr
      exact ⟨u, .cons hs hu, ht⟩

theorem Run.reachable {s t : S} {ls : List L} (hr : Run M s ls t) (hs : M.init s) : M.Reachable t :=
  (Reachable.init hs).run hr

theorem Reachable.exists_init {s : S} (hr : M.Reachable s) : ∃ t, M.init t := by
  induction hr with
  | init h => exact ⟨_, h⟩
  | step _ _ ih => exact ih

theorem Reachable.invariant {I : S → Prop} (h0 : ∀ s, M.init s → I s)
    (hstep : ∀ s l t, M.Reachable s → I s → M.step s l t → I t) {s : S}
    (hr : M.Reachable s) : I s := by
  induction hr with
  | init h => exact h0 _ h
  | step hr h ih => exact hstep _ _ _ hr ih h

theorem Run.invariant {I : S → Prop} {P : L → Prop}
    (hstep : ∀ s l t, P l → I s → M.step s l t → I t) {s t : S} {ls : List L}
    (hr : M.Run s ls t) (hP : ∀ l ∈ ls, P l) (hs : I s) : I t := by
  induction hr with
  | nil => exact hs
  | cons h _ ih =>
    exact ih (fun l hl => hP l (List.mem_cons_of_mem _ hl))
      (hstep _ _ _ (hP _ List.mem_cons_self) hs h)

/-- The induction over a run that may use its labels so far. -/
theorem Run.history {s₀ : S} {I : List L → S → Prop} (h0 : I [] s₀)
    (hstep : ∀ ls s l t, M.Run s₀ ls s → I ls s → M.step s l t → I (ls ++ [l]) t)
    {t : S} {ls : List L} (hr : M.Run s₀ ls t) : I ls t := by
  have hfrom : ∀ {s u : S} {ms : List L}, M.Run s ms u → ∀ ls, M.Run s₀ ls s → I ls s →
      I (ls ++ ms) u := by
    intro s u ms hr
    induction hr with
    | nil => intro ls _ hi; rwa [List.append_nil]
    | @cons s v u l ms hs _ ih =>
      intro ls hls hi
      have hnext := ih (ls ++ [l]) (hls.append (.cons hs (.nil v))) (hstep ls s l v hls hi hs)
      rwa [List.append_assoc] at hnext
  exact hfrom hr [] (.nil s₀) h0

/-- A run of `M` is one of `N` under `R`, where each step of `M` from a state
with `I` is a step of `N` or leaves `R` alone. -/
theorem Run.simulate {T K : Type} {N : LTS T K} {R : S → T} {I : S → Prop}
    (hstep : ∀ s l t, I s → M.step s l t → I t)
    (hsim : ∀ s l t, I s → M.step s l t → R t = R s ∨ ∃ k, N.step (R s) k (R t))
    {s t : S} {ls : List L} (hr : M.Run s ls t) (hs : I s) : ∃ ks, N.Run (R s) ks (R t) := by
  induction hr with
  | nil => exact ⟨[], .nil _⟩
  | cons h _ ih =>
    obtain ⟨ks, hks⟩ := ih (hstep _ _ _ hs h)
    rcases hsim _ _ _ hs h with heq | ⟨k, hk⟩
    · rw [heq] at hks
      exact ⟨ks, hks⟩
    · exact ⟨k :: ks, .cons hk hks⟩

/-- `R` maps the runs of `M` onto those of `N` if it maps its steps onto those
of `N`. -/
theorem run_iff_of_bisim {T : Type} {N : LTS T L} {R : S → T}
    (hstep : ∀ s l t, M.step s l t → N.step (R s) l (R t))
    (hback : ∀ s l u, N.step (R s) l u → ∃ t, M.step s l t ∧ R t = u) {ls : List L} :
    ∀ {s : S} {u : T}, N.Run (R s) ls u ↔ ∃ t, M.Run s ls t ∧ R t = u := by
  induction ls with
  | nil =>
    intro s u
    constructor
    · intro h; cases h; exact ⟨s, .nil s, rfl⟩
    · rintro ⟨t, h, rfl⟩; cases h; exact .nil _
  | cons l ls ih =>
    intro s u
    constructor
    · intro h
      cases h with
      | cons hs hr =>
        obtain ⟨t, ht, rfl⟩ := hback _ _ _ hs
        obtain ⟨v, hv, hu⟩ := ih.mp hr
        exact ⟨v, .cons ht hv, hu⟩
    · rintro ⟨t, h, rfl⟩
      cases h with
      | cons hs hr => exact .cons (hstep _ _ _ hs) (ih.mpr ⟨t, hr, rfl⟩)

/-- `M` without the steps that break `C`. -/
def when (M : LTS S L) (C : S → L → Prop) : LTS S L where
  init := M.init
  step s l t := M.step s l t ∧ C s l

theorem Reachable.of_when {C : S → L → Prop} {s : S} (h : (M.when C).Reachable s) :
    M.Reachable s := by
  induction h with
  | init h => exact .init h
  | step _ h ih => exact ih.step h.1

theorem Run.of_when {C : S → L → Prop} {s t : S} {ls : List L} (h : (M.when C).Run s ls t) :
    M.Run s ls t := by
  induction h with
  | nil s => exact .nil s
  | cons h _ ih => exact .cons h.1 ih

/-- A condition that every step meets leaves nothing out. -/
theorem Reachable.when {C : S → L → Prop} (hC : ∀ s l, C s l) {s : S} (h : M.Reachable s) :
    (M.when C).Reachable s := by
  induction h with
  | init h => exact .init h
  | step _ h ih => exact ih.step ⟨h, hC _ _⟩

/-- A run whose labels meet the condition in every state. -/
theorem Run.when {C : S → L → Prop} {s t : S} {ls : List L} (h : M.Run s ls t)
    (hC : ∀ l ∈ ls, ∀ s, C s l) : (M.when C).Run s ls t := by
  induction h with
  | nil s => exact .nil s
  | cons h _ ih =>
    exact .cons ⟨h, hC _ List.mem_cons_self _⟩ (ih fun l hl => hC l (List.mem_cons_of_mem _ hl))

/-- `M` with a history variable, which starts as `g₀`; `f` says what a step
records in it. -/
def record {G : Type} (M : LTS S L) (g₀ : G) (f : S → L → G → G) : LTS (S × G) L where
  init p := M.init p.1 ∧ p.2 = g₀
  step p l q := M.step p.1 l q.1 ∧ q.2 = f p.1 l p.2

/-- Recording leaves no run out. -/
theorem run_record_iff {G : Type} {g₀ g : G} {f : S → L → G → G} {s t : S} {ls : List L} :
    M.Run s ls t ↔ ∃ g', (M.record g₀ f).Run (s, g) ls (t, g') := by
  have hiff : M.Run s ls t ↔ ∃ p, (M.record g₀ f).Run (s, g) ls p ∧ p.1 = t :=
    run_iff_of_bisim (M := M.record g₀ f) (R := Prod.fst) (fun p l q h => h.1)
      (fun p l u h => ⟨(u, f p.1 l p.2), ⟨h, rfl⟩, rfl⟩) (s := (s, g))
  refine hiff.trans ⟨?_, ?_⟩
  · rintro ⟨⟨t, g'⟩, hr, rfl⟩
    exact ⟨g', hr⟩
  · rintro ⟨g', hr⟩
    exact ⟨_, hr, rfl⟩

def ofFn (init : S → Prop) (f : S → L → Option S) : LTS S L where
  init := init
  step s l t := f s l = some t

/-- Run a partial step function over a list of labels. -/
def exec (f : S → L → Option S) : S → List L → Option S
  | s, [] => some s
  | s, l :: ls => (f s l).bind fun t => exec f t ls

theorem run_of_exec {init : S → Prop} {f : S → L → Option S} :
    ∀ {ls : List L} {s t : S}, exec f s ls = some t → (ofFn init f).Run s ls t
  | [], s, t, h => by cases h; exact .nil _
  | l :: ls, s, t, h => by
    simp only [exec, Option.bind_eq_some_iff] at h
    obtain ⟨u, hu, ht⟩ := h
    exact .cons hu (run_of_exec ht)

theorem run_record_of_exec {G : Type} {init : S → Prop} {f : S → L → Option S} {g₀ : G}
    {h : S → L → G → G} : ∀ {ls : List L} {p q : S × G},
      exec (fun p l => (f p.1 l).map fun t => (t, h p.1 l p.2)) p ls = some q →
      ((ofFn init f).record g₀ h).Run p ls q
  | [], p, q, hq => by cases hq; exact .nil _
  | l :: ls, p, q, hq => by
    simp only [exec, Option.bind_eq_some_iff, Option.map_eq_some_iff] at hq
    obtain ⟨_, ⟨t, ht, rfl⟩, hrest⟩ := hq
    have hs : ((ofFn init f).record g₀ h).step p l (t, h p.1 l p.2) := ⟨ht, rfl⟩
    exact .cons hs (run_record_of_exec hrest)

theorem exec_of_run {init : S → Prop} {f : S → L → Option S} {s t : S} {ls : List L}
    (h : (ofFn init f).Run s ls t) : exec f s ls = some t := by
  induction h with
  | nil => rfl
  | @cons s u t l ls hs _ ih =>
    have hs' : f s l = some u := hs
    simp only [exec, hs', Option.bind_some, ih]

/-- A step function has one next state, so a run under a side condition goes on
from there. -/
theorem run_when_cons {init : S → Prop} {f : S → L → Option S} {C : S → L → Prop} {s u t : S} {l : L}
    {ls : List L} (h : f s l = some u) :
    ((ofFn init f).when C).Run s (l :: ls) t ↔ C s l ∧ ((ofFn init f).when C).Run u ls t := by
  constructor
  · intro hr
    cases hr with
    | @cons _ v _ _ _ h' hr' =>
      obtain rfl : v = u := Option.some.inj (h'.1.symm.trans h)
      exact ⟨h'.2, hr'⟩
  · rintro ⟨hC, hr⟩
    exact .cons ⟨h, hC⟩ hr

end LTS

end Core
