import Mathlib.Data.List.Basic

/-!
# Decoding a collection of untyped entries

What a decoder should make of a collection in which some entries are bad is
`Reads`: every good entry is in the result once and in its place, and a bad
one is skipped or gives a default.

A strict decoder (`List.mapM` in `Option`) fails on a bad entry. One that
first casts the collection as a whole, drops all of it if an entry does not
cast, and then builds each entry strictly meets `Reads` exactly as
`strict_reads_iff` says.
-/
namespace Core

variable {α β γ : Type}

theorem mapM_isSome_iff {f : α → Option β} {l : List α} :
    (l.mapM f).isSome ↔ ∀ a ∈ l, (f a).isSome := by
  induction l with
  | nil => simp
  | cons a l ih =>
    rw [List.forall_mem_cons, ← ih, List.mapM_cons]
    cases f a with
    | none => simp
    | some b => cases l.mapM f <;> simp

theorem mapM_bind (f : α → Option β) (g : β → Option γ) (l : List α) :
    ((l.mapM f).bind fun bs => bs.mapM g) = l.mapM fun a => (f a).bind g := by
  induction l with
  | nil => rfl
  | cons a l ih =>
    rw [List.mapM_cons, List.mapM_cons, ← ih]
    cases f a with
    | none => rfl
    | some b =>
      cases l.mapM f with
      | none => cases hg : g b <;> simp [hg]
      | some bs => simp [List.mapM_cons]

theorem forall_of_mapM {f : α → Option β} {P : β → Prop} {l : List α} {r : List β}
    (h : l.mapM f = some r) (hf : ∀ a ∈ l, ∀ b, f a = some b → P b) : ∀ b ∈ r, P b := by
  induction l generalizing r with
  | nil => intro b hb; cases h; cases hb
  | cons a l ih =>
    intro b hb
    simp only [List.mapM_cons, Option.bind_eq_bind, Option.bind_eq_some_iff] at h
    obtain ⟨c, hc, cs, hcs, hr⟩ := h
    cases hr
    rcases List.mem_cons.mp hb with rfl | hb
    · exact hf a List.mem_cons_self b hc
    · exact ih hcs (fun a ha => hf a (List.mem_cons_of_mem _ ha)) b hb

theorem filterMap_of_mapM {f : α → Option β} {l : List α} {r : List β} (h : l.mapM f = some r) :
    l.filterMap f = r := by
  induction l generalizing r with
  | nil => cases h; rfl
  | cons a l ih =>
    simp only [List.mapM_cons, Option.bind_eq_bind, Option.bind_eq_some_iff] at h
    obtain ⟨c, hc, cs, hcs, hr⟩ := h
    cases hr
    rw [List.filterMap_cons, hc, ih hcs]

/-- Each entry with `must` is in the list once, as `ok` wants it; the others
are skipped or have a default. -/
def Reads (must : α → Prop) (ok : α → β → Prop) (entries : List α) (l : List β) : Prop :=
  ∃ f : α → Option β, (∀ a ∈ entries, must a → ∃ b, f a = some b ∧ ok a b) ∧ l = entries.filterMap f

variable {must : α → Prop} {ok : α → β → Prop} {entries : List α}

theorem reads_nil_iff : Reads must ok entries [] ↔ ∀ a ∈ entries, ¬ must a := by
  constructor
  · rintro ⟨f, hf, hnil⟩ a ha hm
    obtain ⟨b, hb, -⟩ := hf a ha hm
    have hmem : b ∈ entries.filterMap f := List.mem_filterMap.mpr ⟨a, ha, hb⟩
    rw [← hnil] at hmem
    cases hmem
  · intro h
    exact ⟨fun _ => none, fun a ha hm => absurd hm (h a ha), by simp⟩

theorem reads_of_mapM {f : α → Option β} {l : List β} (h : entries.mapM f = some l)
    (hok : ∀ a ∈ entries, ∀ b, f a = some b → ok a b) : Reads must ok entries l := by
  refine ⟨f, fun a ha _ => ?_, (filterMap_of_mapM h).symm⟩
  have hsome := mapM_isSome_iff.mp (by rw [h]; rfl) a ha
  obtain ⟨b, hb⟩ := Option.isSome_iff_exists.mp hsome
  exact ⟨b, hb, hok a ha b hb⟩

/-- **A strict decoder under a cast of the whole collection** reads the good
entries iff there is no bad one, or the cast drops them all and there is no
good one. -/
theorem strict_reads_iff {cast : α → Option γ} {build : γ → Option β}
    (hok : ∀ a ∈ entries, ∀ c, cast a = some c → ∀ b, build c = some b → ok a b) :
    (∃ l, ((entries.mapM cast).getD []).mapM build = some l ∧ Reads must ok entries l) ↔
      (∀ a ∈ entries, ((cast a).bind build).isSome) ∨
        (∃ a ∈ entries, cast a = none) ∧ ∀ a ∈ entries, ¬ must a := by
  cases hcast : entries.mapM cast with
  | none =>
    have hbad : ∃ a ∈ entries, cast a = none := by
      by_contra hn
      have hall : ∀ a ∈ entries, (cast a).isSome := fun a ha =>
        Option.isSome_iff_ne_none.mpr fun hnone => hn ⟨a, ha, hnone⟩
      have hsome := mapM_isSome_iff.mpr hall
      rw [hcast] at hsome
      cases hsome
    have hnot : ¬ ∀ a ∈ entries, ((cast a).bind build).isSome := by
      intro hall
      obtain ⟨a, ha, hnone⟩ := hbad
      have hsome := hall a ha
      rw [hnone] at hsome
      cases hsome
    have hnil : (([] : List γ).mapM build) = some [] := rfl
    simp only [Option.getD_none, hnil, Option.some.injEq, exists_eq_left', reads_nil_iff, hnot,
      false_or, and_iff_right hbad]
  | some cs =>
    have hno : ¬ ∃ a ∈ entries, cast a = none := by
      rintro ⟨a, ha, hnone⟩
      have hsome := mapM_isSome_iff.mp (by rw [hcast]; rfl) a ha
      rw [hnone] at hsome
      cases hsome
    have hbind : cs.mapM build = entries.mapM fun a => (cast a).bind build := by
      rw [← mapM_bind, hcast]
      rfl
    rw [Option.getD_some, hbind, ← mapM_isSome_iff]
    constructor
    · rintro ⟨l, hl, -⟩
      exact .inl (by rw [hl]; rfl)
    · rintro (hall | ⟨hnone, -⟩)
      · obtain ⟨l, hl⟩ := Option.isSome_iff_exists.mp hall
        refine ⟨l, hl, reads_of_mapM hl fun a ha b hb => ?_⟩
        obtain ⟨c, hc, hb⟩ := Option.bind_eq_some_iff.mp hb
        exact hok a ha c hc b hb
      · exact absurd hnone hno

end Core
