import Mathlib.Data.Set.Insert
import Mathlib.Logic.Function.Basic
import QadsCafe.Core.LTS

/-!
# One list, overwritten by several clients

Every client has a copy of a stored list. It adds a new element by appending
it to its copy and sending the whole copy; what it sends replaces the stored
list, in the order it was sent. The clients' sends and loads interleave in any
order. `known` is what was stored at the start or added since.

`Alone` is the condition on an addition: nobody else has a list in flight, and
the client's copy holds everything stored. `complete_of_alone` says that
nothing is lost while every addition meets it, `incomplete_of_not_alone` that
after any other addition no later state holds all that is known.
-/
namespace Core

structure Replicas (ι α : Type) where
  stored : List α
  copy : ι → List α
  queue : ι → List (List α)
  known : Set α

namespace Replicas

inductive Op (ι α : Type) where
  | load (i : ι)
  | add (i : ι) (x : α)
  | land (i : ι)

variable {ι α : Type} [DecidableEq ι]

def load (s : Replicas ι α) (i : ι) : Replicas ι α :=
  { s with copy := Function.update s.copy i s.stored }

def add (s : Replicas ι α) (i : ι) (x : α) : Replicas ι α :=
  { s with
    copy := Function.update s.copy i (s.copy i ++ [x])
    queue := Function.update s.queue i (s.queue i ++ [s.copy i ++ [x]])
    known := insert x s.known }

def land (s : Replicas ι α) (i : ι) (l : List α) (ls : List (List α)) : Replicas ι α :=
  { s with stored := l, queue := Function.update s.queue i ls }

inductive Step (s : Replicas ι α) : Op ι α → Replicas ι α → Prop
  | load (i : ι) (h : s.queue i = []) : Step s (.load i) (s.load i)
  | add (i : ι) (x : α) (h : x ∉ s.known) : Step s (.add i x) (s.add i x)
  | land (i : ι) (l : List α) (ls : List (List α)) (h : s.queue i = l :: ls) :
      Step s (.land i) (s.land i l ls)

section Fields

variable (s : Replicas ι α) {i j : ι} (x : α) (l : List α) (ls : List (List α))

@[simp] theorem load_copy_self : (s.load i).copy i = s.stored := Function.update_self _ _ _
theorem load_copy_of_ne (h : j ≠ i) : (s.load i).copy j = s.copy j := Function.update_of_ne h _ _
@[simp] theorem add_copy_self : (s.add i x).copy i = s.copy i ++ [x] := Function.update_self _ _ _
theorem add_copy_of_ne (h : j ≠ i) : (s.add i x).copy j = s.copy j := Function.update_of_ne h _ _
@[simp] theorem add_queue_self : (s.add i x).queue i = s.queue i ++ [s.copy i ++ [x]] :=
  Function.update_self _ _ _
theorem add_queue_of_ne (h : j ≠ i) : (s.add i x).queue j = s.queue j := Function.update_of_ne h _ _
@[simp] theorem land_queue_self : (s.land i l ls).queue i = ls := Function.update_self _ _ _
theorem land_queue_of_ne (h : j ≠ i) : (s.land i l ls).queue j = s.queue j :=
  Function.update_of_ne h _ _

end Fields

/-- Nothing is in flight. -/
def Quiet (s : Replicas ι α) : Prop := ∀ i, s.queue i = []

def Complete (s : Replicas ι α) : Prop := ∀ x ∈ s.known, x ∈ s.stored

structure Start (s : Replicas ι α) : Prop where
  quiet : s.Quiet
  copy : ∀ i, s.copy i = []
  known : ∀ x, x ∈ s.known ↔ x ∈ s.stored

def lts (ι α : Type) [DecidableEq ι] : LTS (Replicas ι α) (Op ι α) where
  init := Start
  step := Step

def Alone (s : Replicas ι α) (op : Op ι α) : Prop :=
  ∀ i x, op = .add i x → (∀ j, j ≠ i → s.queue j = []) ∧ ∀ y ∈ s.stored, y ∈ s.copy i

/-! ## While every addition is alone -/

/-- The only client with lists in flight has all that is known, and sent it last. -/
structure Covered (s : Replicas ι α) : Prop where
  quiet : s.Quiet → s.Complete
  writer : ∀ i, s.queue i ≠ [] → (∀ j, j ≠ i → s.queue j = []) ∧
    (∃ ls, s.queue i = ls ++ [s.copy i]) ∧ ∀ x ∈ s.known, x ∈ s.copy i

theorem Covered.load {s : Replicas ι α} (h : Covered s) {i : ι} (hi : s.queue i = []) :
    Covered (s.load i) := by
  refine ⟨h.quiet, fun j hj => ?_⟩
  have hne : j ≠ i := by
    rintro rfl
    exact hj hi
  rw [load_copy_of_ne s hne]
  exact h.writer j hj

theorem Covered.add {s : Replicas ι α} (h : Covered s) {i : ι} (x : α)
    (hothers : ∀ j, j ≠ i → s.queue j = []) (hstored : ∀ y ∈ s.stored, y ∈ s.copy i) :
    Covered (s.add i x) := by
  have hknown : ∀ y ∈ s.known, y ∈ s.copy i := by
    by_cases hempty : s.queue i = []
    · have hquiet : s.Quiet := fun k => by
        by_cases hk : k = i
        · rw [hk]; exact hempty
        · exact hothers k hk
      exact fun y hy => hstored y (h.quiet hquiet y hy)
    · exact (h.writer i hempty).2.2
  refine ⟨fun hq => ?_, fun j hj => ?_⟩
  · have hi := hq i
    simp at hi
  · obtain rfl : j = i := by
      by_contra hne
      rw [add_queue_of_ne s x hne] at hj
      exact hj (hothers j hne)
    refine ⟨fun k hk => ?_, ⟨s.queue j, by simp⟩, fun y hy => ?_⟩
    · rw [add_queue_of_ne s x hk]
      exact hothers k hk
    · rw [add_copy_self, List.mem_append, List.mem_singleton]
      rcases hy with rfl | hy
      · exact .inr rfl
      · exact .inl (hknown y hy)

theorem Covered.land {s : Replicas ι α} (h : Covered s) {i : ι} {l : List α} {ls : List (List α)}
    (hi : s.queue i = l :: ls) : Covered (s.land i l ls) := by
  obtain ⟨hothers, ⟨front, hfront⟩, hknown⟩ := h.writer i (by rw [hi]; exact List.cons_ne_nil _ _)
  rw [hi] at hfront
  refine ⟨fun hq x hx => ?_, fun j hj => ?_⟩
  · -- the last list in flight has landed
    have hls := hq i
    rw [land_queue_self] at hls
    rw [hls] at hfront
    cases front with
    | nil =>
      cases hfront
      exact hknown x hx
    | cons m front => simp at hfront
  · obtain rfl : j = i := by
      by_contra hne
      rw [land_queue_of_ne s l ls hne] at hj
      exact hj (hothers j hne)
    rw [land_queue_self] at hj ⊢
    refine ⟨fun k hk => ?_, ?_, hknown⟩
    · rw [land_queue_of_ne s l ls hk]
      exact hothers k hk
    · cases front with
      | nil =>
        cases hfront
        exact absurd rfl hj
      | cons m front =>
        cases hfront
        exact ⟨front, rfl⟩

theorem Covered.step {s t : Replicas ι α} {op : Op ι α} (h : Covered s) (hs : Step s op t)
    (ha : Alone s op) : Covered t := by
  cases hs with
  | load i hi => exact h.load hi
  | add i x hx => exact h.add x (ha i x rfl).1 (ha i x rfl).2
  | land i l ls hi => exact h.land hi

/-- **Nothing is lost** while every addition is alone. -/
theorem complete_of_alone {s : Replicas ι α} (h : ((lts ι α).when Alone).Reachable s)
    (hq : s.Quiet) : s.Complete := by
  have hc : Covered s := by
    refine h.invariant (fun s hs => ?_) ?_
    · have hstart : Start s := hs
      exact ⟨fun _ x hx => (hstart.known x).mp hx, fun i hi => absurd (hstart.quiet i) hi⟩
    · rintro s op t - hc ⟨hs, ha⟩
      exact hc.step hs ha
  exact hc.quiet hq

/-! ## After an addition that is not alone -/

/-- The lists there are. -/
inductive Lists (s : Replicas ι α) : List α → Prop
  | stored : Lists s s.stored
  | copy (i : ι) : Lists s (s.copy i)
  | queue (i : ι) (l : List α) (h : l ∈ s.queue i) : Lists s l

/-- A step makes one new list at most, by an addition. -/
theorem lists_step {s t : Replicas ι α} {op : Op ι α} (hs : Step s op t) {l : List α}
    (hl : Lists t l) : Lists s l ∨ ∃ i x, op = .add i x ∧ l = s.copy i ++ [x] := by
  cases hs with
  | load i hi =>
    left
    cases hl with
    | stored => exact .stored
    | copy j =>
      by_cases hj : j = i
      · rw [hj, load_copy_self]; exact .stored
      · rw [load_copy_of_ne s hj]; exact .copy j
    | queue j l h => exact .queue j l h
  | add i x hx =>
    cases hl with
    | stored => exact .inl .stored
    | copy j =>
      by_cases hj : j = i
      · rw [hj, add_copy_self]; exact .inr ⟨i, x, rfl, rfl⟩
      · rw [add_copy_of_ne s x hj]; exact .inl (.copy j)
    | queue j l h =>
      by_cases hj : j = i
      · rw [hj, add_queue_self, List.mem_append, List.mem_singleton] at h
        rcases h with h | rfl
        · exact .inl (.queue i l h)
        · exact .inr ⟨i, x, rfl, rfl⟩
      · rw [add_queue_of_ne s x hj] at h
        exact .inl (.queue j l h)
  | land i m ls hi =>
    left
    have hm : m ∈ s.queue i := by rw [hi]; exact List.mem_cons_self
    cases hl with
    | stored => exact .queue i m hm
    | copy j => exact .copy j
    | queue j l h =>
      by_cases hj : j = i
      · rw [hj, land_queue_self] at h
        exact .queue i l (by rw [hi]; exact List.mem_cons_of_mem _ h)
      · rw [land_queue_of_ne s m ls hj] at h
        exact .queue j l h

theorem known_step {s t : Replicas ι α} {op : Op ι α} (hs : Step s op t) {x : α} (hx : x ∈ s.known) :
    x ∈ t.known := by
  cases hs with
  | add => exact .inr hx
  | load => exact hx
  | land => exact hx

/-- No list holds both `x` and `y`. -/
structure Apart (x y : α) (s : Replicas ι α) : Prop where
  left : x ∈ s.known
  right : y ∈ s.known
  lists : ∀ l, Lists s l → x ∈ l → y ∉ l

theorem Apart.step {s t : Replicas ι α} {op : Op ι α} {x y : α} (h : Apart x y s)
    (hs : Step s op t) : Apart x y t := by
  refine ⟨known_step hs h.left, known_step hs h.right, fun l hl hx hy => ?_⟩
  rcases lists_step hs hl with hl | ⟨i, z, rfl, rfl⟩
  · exact h.lists l hl hx hy
  · -- a new element is neither of the two
    have hz : z ∉ s.known := by cases hs; assumption
    have hold : ∀ w ∈ s.known, w ∈ s.copy i ++ [z] → w ∈ s.copy i := by
      intro w hw hmem
      rcases List.mem_append.mp hmem with hmem | hmem
      · exact hmem
      · rw [List.mem_singleton] at hmem
        exact absurd (hmem ▸ hw) hz
    exact h.lists _ (.copy i) (hold x h.left hx) (hold y h.right hy)

omit [DecidableEq ι] in
theorem Apart.not_complete {s : Replicas ι α} {x y : α} (h : Apart x y s) : ¬ Complete s :=
  fun hc => h.lists _ .stored (hc x h.left) (hc y h.right)

/-- What is listed is known; a client with lists in flight has an element that
is in no other client's lists, and stored only with its last one. -/
structure Own (s : Replicas ι α) : Prop where
  known : ∀ l, Lists s l → ∀ x ∈ l, x ∈ s.known
  own : ∀ i, s.queue i ≠ [] → ∃ x ∈ s.known, x ∉ s.stored ∧ (∀ l ∈ (s.queue i).dropLast, x ∉ l) ∧
    ∀ j, j ≠ i → x ∉ s.copy j ∧ ∀ l ∈ s.queue j, x ∉ l

theorem known_lists {s t : Replicas ι α} {op : Op ι α} (h : Own s) (hs : Step s op t) :
    ∀ l, Lists t l → ∀ x ∈ l, x ∈ t.known := by
  intro l hl x hx
  rcases lists_step hs hl with hl | ⟨i, z, rfl, rfl⟩
  · exact known_step hs (h.known l hl x hx)
  · rcases List.mem_append.mp hx with hx | hx
    · exact known_step hs (h.known _ (.copy i) x hx)
    · rw [List.mem_singleton.mp hx]
      cases hs
      exact .inl rfl

/-- What client `j` alone has. -/
theorem Own.load {s : Replicas ι α} (h : Own s) {i j : ι} (hj : s.queue j ≠ []) :
    ∃ x ∈ s.known, x ∉ s.stored ∧ (∀ l ∈ (s.queue j).dropLast, x ∉ l) ∧
      ∀ k, k ≠ j → x ∉ (s.load i).copy k ∧ ∀ l ∈ s.queue k, x ∉ l := by
  obtain ⟨x, hx, hstored, hdrop, hothers⟩ := h.own j hj
  refine ⟨x, hx, hstored, hdrop, fun k hk => ⟨?_, (hothers k hk).2⟩⟩
  by_cases hki : k = i
  · rw [hki, load_copy_self]; exact hstored
  · rw [load_copy_of_ne s hki]; exact (hothers k hk).1

/-- The client that adds has the new element alone; another one keeps its own. -/
theorem Own.add {s : Replicas ι α} (h : Own s) {i j : ι} {z : α} (hz : z ∉ s.known)
    (hj : (s.add i z).queue j ≠ []) :
    ∃ x ∈ (s.add i z).known, x ∉ s.stored ∧ (∀ l ∈ ((s.add i z).queue j).dropLast, x ∉ l) ∧
      ∀ k, k ≠ j → x ∉ (s.add i z).copy k ∧ ∀ l ∈ (s.add i z).queue k, x ∉ l := by
  have hnew : ∀ l, Lists s l → z ∉ l := fun l hl hmem => hz (h.known l hl z hmem)
  by_cases hji : j = i
  · subst hji
    refine ⟨z, .inl rfl, hnew _ .stored, ?_, fun k hk => ?_⟩
    · rw [add_queue_self, List.dropLast_concat]
      exact fun l hl => hnew l (.queue j l hl)
    · rw [add_copy_of_ne s z hk, add_queue_of_ne s z hk]
      exact ⟨hnew _ (.copy k), fun l hl => hnew l (.queue k l hl)⟩
  · rw [add_queue_of_ne s z hji] at hj ⊢
    obtain ⟨x, hx, hstored, hdrop, hothers⟩ := h.own j hj
    refine ⟨x, .inr hx, hstored, hdrop, fun k hk => ?_⟩
    by_cases hki : k = i
    · have hne : x ≠ z := by
        rintro rfl
        exact hz hx
      have hcopy : x ∉ s.copy i ++ [z] := by
        simp only [List.mem_append, List.mem_singleton, not_or]
        exact ⟨(hothers i (hki ▸ hk)).1, hne⟩
      rw [hki, add_copy_self, add_queue_self]
      refine ⟨hcopy, fun l hl => ?_⟩
      rcases List.mem_append.mp hl with hl | hl
      · exact (hothers i (hki ▸ hk)).2 l hl
      · rw [List.mem_singleton.mp hl]; exact hcopy
    · rw [add_copy_of_ne s z hki, add_queue_of_ne s z hki]
      exact hothers k hk

/-- A list that is not its client's last one has nothing that is anybody's own. -/
theorem Own.land {s : Replicas ι α} (h : Own s) {i j : ι} {l : List α} {ls : List (List α)}
    (hi : s.queue i = l :: ls) (hj : (s.land i l ls).queue j ≠ []) :
    ∃ x ∈ s.known, x ∉ l ∧ (∀ m ∈ ((s.land i l ls).queue j).dropLast, x ∉ m) ∧
      ∀ k, k ≠ j → x ∉ s.copy k ∧ ∀ m ∈ (s.land i l ls).queue k, x ∉ m := by
  by_cases hji : j = i
  · subst hji
    rw [land_queue_self] at hj ⊢
    obtain ⟨x, hx, hstored, hdrop, hothers⟩ := h.own j (by rw [hi]; exact List.cons_ne_nil _ _)
    rw [hi, List.dropLast_cons_of_ne_nil hj] at hdrop
    refine ⟨x, hx, hdrop l List.mem_cons_self, fun m hm => hdrop m (List.mem_cons_of_mem _ hm),
      fun k hk => ?_⟩
    rw [land_queue_of_ne s l ls hk]
    exact hothers k hk
  · rw [land_queue_of_ne s l ls hji] at hj ⊢
    obtain ⟨x, hx, hstored, hdrop, hothers⟩ := h.own j hj
    have hi' := (hothers i (Ne.symm hji)).2
    rw [hi] at hi'
    refine ⟨x, hx, hi' l List.mem_cons_self, hdrop, fun k hk => ⟨(hothers k hk).1, ?_⟩⟩
    by_cases hki : k = i
    · rw [hki, land_queue_self]
      exact fun m hm => hi' m (List.mem_cons_of_mem _ hm)
    · rw [land_queue_of_ne s l ls hki]
      exact (hothers k hk).2

theorem Own.step {s t : Replicas ι α} {op : Op ι α} (h : Own s) (hs : Step s op t) : Own t := by
  refine ⟨known_lists h hs, fun j hj => ?_⟩
  cases hs with
  | load i hi => exact h.load hj
  | add i z hz => exact h.add hz hj
  | land i l ls hi => exact h.land hi hj

theorem own_reachable {s : Replicas ι α} (h : (lts ι α).Reachable s) : Own s := by
  refine h.invariant (fun s hs => ?_) fun s op t _ h hs => h.step hs
  have hstart : Start s := hs
  refine ⟨fun l hl x hx => (hstart.known x).mpr ?_, fun i hi => absurd (hstart.quiet i) hi⟩
  cases hl with
  | stored => exact hx
  | copy i => rw [hstart.copy i] at hx; cases hx
  | queue i l hl => rw [hstart.quiet i] at hl; cases hl

/-- The element added and one that the client does not have. -/
theorem apart_of_not_alone {s t : Replicas ι α} {op : Op ι α} (h : Own s) (hs : Step s op t)
    (hn : ¬ Alone s op) : ∃ x y, Apart x y t := by
  obtain ⟨i, x, rfl, hbad⟩ : ∃ i x, op = .add i x ∧
      ¬ ((∀ j, j ≠ i → s.queue j = []) ∧ ∀ y ∈ s.stored, y ∈ s.copy i) := by
    by_contra hno
    exact hn fun i x hop => by_contra fun hbad => hno ⟨i, x, hop, hbad⟩
  cases hs with
  | add _ _ hx =>
    obtain ⟨y, hy, hcopy⟩ : ∃ y ∈ s.known, y ∉ s.copy i := by
      by_cases hqueue : ∀ j, j ≠ i → s.queue j = []
      · by_contra hno
        refine hbad ⟨hqueue, fun y hy => ?_⟩
        by_contra hcopy
        exact hno ⟨y, h.known _ .stored y hy, hcopy⟩
      · obtain ⟨j, hj⟩ := not_forall.mp hqueue
        obtain ⟨hji, hne⟩ := Classical.not_imp.mp hj
        obtain ⟨y, hy, -, -, hothers⟩ := h.own j hne
        exact ⟨y, hy, (hothers i (Ne.symm hji)).1⟩
    refine ⟨x, y, .inl rfl, .inr hy, fun l hl hmem hmem' => ?_⟩
    rcases lists_step (Step.add i x hx) hl with hl | ⟨i', x', hop, rfl⟩
    · exact hx (h.known l hl x hmem)
    · cases hop
      rcases List.mem_append.mp hmem' with hmem' | hmem'
      · exact hcopy hmem'
      · rw [List.mem_singleton] at hmem'
        exact hx (hmem' ▸ hy)

/-- **What is lost stays lost**: after an addition that is not alone no state
holds all that is known. -/
theorem incomplete_of_not_alone {s t u : Replicas ι α} {op : Op ι α} {ops : List (Op ι α)}
    (h : (lts ι α).Reachable s) (hs : Step s op t) (hn : ¬ Alone s op)
    (hr : (lts ι α).Run t ops u) : ¬ Complete u := by
  obtain ⟨x, y, hxy⟩ := apart_of_not_alone (own_reachable h) hs hn
  refine (hr.invariant (P := fun _ => True) (I := Apart x y) ?_ (fun _ _ => trivial) hxy).not_complete
  exact fun s op t _ h hs => h.step hs

end Replicas

end Core
