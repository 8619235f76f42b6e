import Mathlib.Logic.Function.Basic
import QadsCafe.Core.LTS

/-!
# Cached image views

A `CustomImageView` is reused: it is asked for one image after another, and
downloads for earlier references may still be in flight. The check that is
meant to drop a late one compares two constants that the same call captured,
so it is always true and a late download replaces the image on the view.

`imageView download` is one view with the shared cache, which other views fill
and the system evicts. `requested` is a ghost: the last reference that is not
nil. `download` is what a reference's download yields.
-/
namespace QadsCafe

open Core

variable {Image : Type}

/-- A download in flight, and the constants its closure captured.
mirrors Helpers/extensions.swift:27-30 -/
structure Download where
  imageReference : String
  imageRef : String
  deriving DecidableEq

structure ImageView (Image : Type) where
  image : Option Image := none
  pending : List Download := []
  cache : String → Option Image := fun _ => none
  requested : Option String := none

inductive ImageEvent where
  | load (imageRef : Option String)
  /-- the callback of a download; not `found` is an error or no image data -/
  | complete (i : Nat) (found : Bool)
  | enterCache (imageRef : String)
  | evict (imageRef : String)
  deriving DecidableEq

namespace ImageView

/-- mirrors Helpers/extensions.swift:19-45 -/
def loadImageUsingCache (s : ImageView Image) : Option String → ImageView Image
  | none => s
  | some imageRef =>
    let imageReference := imageRef
    match s.cache imageRef with
    | some cachedImage => { s with image := some cachedImage, requested := some imageRef }
    | none =>
      { s with pending := s.pending ++ [⟨imageReference, imageRef⟩], requested := some imageRef }

/-- The callback with an image.
mirrors Helpers/extensions.swift:51-62 -/
def downloaded (s : ImageView Image) (d : Download) (downloadedImage : Image) : ImageView Image :=
  { s with
    image := if d.imageReference = d.imageRef then some downloadedImage else s.image
    cache := Function.update s.cache d.imageRef (some downloadedImage) }

def step (download : String → Image) (s : ImageView Image) : ImageEvent → Option (ImageView Image)
  | .load imageRef => some (s.loadImageUsingCache imageRef)
  | .complete i found =>
    s.pending[i]?.map fun d =>
      let s := { s with pending := s.pending.eraseIdx i }
      if found then s.downloaded d (download d.imageRef) else s
  | .enterCache imageRef =>
    some { s with cache := Function.update s.cache imageRef (some (download imageRef)) }
  | .evict imageRef => some { s with cache := Function.update s.cache imageRef none }

/-- The cache holds under a reference only the image downloaded for it. -/
def CacheRight (download : String → Image) (s : ImageView Image) : Prop :=
  ∀ ref img, s.cache ref = some img → img = download ref

/-- A view that has not been used, with any image on it and any right cache. -/
def imageView (download : String → Image) : LTS (ImageView Image) ImageEvent :=
  LTS.ofFn (fun s => s.pending = [] ∧ s.requested = none ∧ CacheRight download s) (step download)

/-- Once the downloads are done the view shows the image last asked for. -/
def ShowsLast (download : String → Image) (s : ImageView Image) : Prop :=
  s.pending = [] → ∀ ref, s.requested = some ref → s.image = some (download ref)

/-- Every download succeeds, and one whose image is not the one last asked for
completes only while a download of that image is still pending. -/
def InTime (download : String → Image) (s : ImageView Image) : ImageEvent → Prop
  | .complete i found =>
    found = true ∧ ∀ d ref, s.pending[i]? = some d → s.requested = some ref →
      download d.imageRef = download ref ∨
        ∃ d' ∈ s.pending.eraseIdx i, download d'.imageRef = download ref
  | _ => True

variable {download : String → Image} {s t : ImageView Image}

/-- The two constants are one value. -/
structure Sound (download : String → Image) (s : ImageView Image) : Prop where
  captured : ∀ d ∈ s.pending, d.imageReference = d.imageRef
  cache : CacheRight download s

theorem CacheRight.update (h : CacheRight download s) (ref : String) {v : Option Image}
    (hv : ∀ img, v = some img → img = download ref) :
    ∀ ref' img, Function.update s.cache ref v ref' = some img → img = download ref' := by
  intro ref' img himg
  by_cases he : ref' = ref
  · subst he
    rw [Function.update_self] at himg
    exact hv img himg
  · rw [Function.update_of_ne he] at himg
    exact h ref' img himg

theorem Sound.step {e : ImageEvent} (h : Sound download s) (hs : s.step download e = some t) :
    Sound download t := by
  cases e with
  | load imageRef =>
    cases hs
    cases imageRef with
    | none => exact h
    | some ref =>
      simp only [loadImageUsingCache]
      split
      · exact ⟨h.captured, h.cache⟩
      · refine ⟨fun d hd => ?_, h.cache⟩
        rcases List.mem_append.mp hd with hd | hd
        · exact h.captured d hd
        · rw [List.mem_singleton.mp hd]
  | complete i found =>
    obtain ⟨d, -, rfl⟩ := Option.map_eq_some_iff.mp hs
    have herase : ∀ d ∈ s.pending.eraseIdx i, d.imageReference = d.imageRef :=
      fun d hd => h.captured d (List.eraseIdx_subset hd)
    dsimp only
    split
    · exact ⟨herase, h.cache.update d.imageRef fun img himg => (Option.some.inj himg).symm⟩
    · exact ⟨herase, h.cache⟩
  | enterCache ref =>
    cases hs
    exact ⟨h.captured, h.cache.update ref fun img himg => (Option.some.inj himg).symm⟩
  | evict ref =>
    cases hs
    exact ⟨h.captured, h.cache.update ref fun img himg => by cases himg⟩

theorem sound_reachable (h : (imageView download).Reachable s) : Sound download s := by
  refine h.invariant (I := Sound download) ?_ fun s e t _ hi hs => Sound.step hi hs
  rintro s ⟨hp, -, hc⟩
  exact ⟨by rw [hp]; simp, hc⟩

/-- The image of `ref` is on the view or will be. -/
def Expects (download : String → Image) (s : ImageView Image) (ref : String) : Prop :=
  s.image = some (download ref) ∨ ∃ d ∈ s.pending, download d.imageRef = download ref

/-- What the callback of a successful download does. -/
theorem complete_eq (h : Sound download s) {i : Nat} {d : Download} (hd : s.pending[i]? = some d) :
    s.step download (.complete i true) = some { s with
      image := some (download d.imageRef)
      pending := s.pending.eraseIdx i
      cache := Function.update s.cache d.imageRef (some (download d.imageRef)) } := by
  have hc := h.captured d (List.mem_of_getElem? hd)
  simp only [step, hd, Option.map_some, if_true, downloaded, hc]

/-- **One step** in time keeps the image last asked for coming. -/
theorem expects_step {e : ImageEvent} (h : Sound download s) (hs : s.step download e = some t)
    (hv : InTime download s e) (hx : ∀ ref, s.requested = some ref → Expects download s ref) :
    ∀ ref, t.requested = some ref → Expects download t ref := by
  intro ref href
  cases e with
  | load imageRef =>
    cases hs
    cases imageRef with
    | none => exact hx ref href
    | some ref' =>
      simp only [loadImageUsingCache] at href ⊢
      split at href
      · rename_i img himg
        obtain rfl := Option.some.inj href
        exact .inl (congrArg some (h.cache ref' img himg))
      · obtain rfl := Option.some.inj href
        exact .inr ⟨_, List.mem_append_right _ List.mem_cons_self, rfl⟩
  | complete i found =>
    obtain ⟨rfl, hv⟩ := hv
    obtain ⟨d, hd, -⟩ := Option.map_eq_some_iff.mp hs
    rw [complete_eq h hd, Option.some.injEq] at hs
    subst hs
    rcases hv d ref hd href with himg | ⟨d', hd', himg⟩
    · exact .inl (congrArg some himg)
    · exact .inr ⟨d', hd', himg⟩
  | enterCache ref' => cases hs; exact hx ref href
  | evict ref' => cases hs; exact hx ref href

/-- A late download puts another image on the view, and none that is pending
corrects it. -/
theorem not_expects_complete (h : Sound download s) {i : Nat} (hs : s.step download (.complete i true) = some t)
    (hv : ¬ InTime download s (.complete i true)) :
    ∃ ref, t.requested = some ref ∧ ¬ Expects download t ref := by
  obtain ⟨d, hd, -⟩ := Option.map_eq_some_iff.mp hs
  rw [complete_eq h hd, Option.some.injEq] at hs
  subst hs
  simp only [InTime, true_and, not_forall] at hv
  obtain ⟨d', ref, hd', href, hnot⟩ := hv
  obtain rfl := Option.some.inj (hd.symm.trans hd')
  refine ⟨ref, href, fun hx => hnot ?_⟩
  rcases hx with himg | hx
  · exact .inl (Option.some.inj himg)
  · exact .inr hx

/-- Only downloads complete, with an image. -/
def Completions (ls : List ImageEvent) : Prop := ∀ e ∈ ls, ∃ i, e = .complete i true

theorem not_expects_run {ref : String} {ls : List ImageEvent} {u : ImageView Image}
    (hr : (imageView download).Run t ls u) (hls : Completions ls) (h : Sound download t)
    (ht : t.requested = some ref ∧ ¬ Expects download t ref) :
    u.requested = some ref ∧ ¬ Expects download u ref := by
  have hinv : Sound download u ∧ u.requested = some ref ∧ ¬ Expects download u ref := by
    have hls' : ∀ e ∈ ls, ∃ i, e = .complete i true := hls
    refine hr.invariant
      (I := fun s => Sound download s ∧ s.requested = some ref ∧ ¬ Expects download s ref) ?_ hls' ⟨h, ht⟩
    rintro s e v ⟨i, rfl⟩ ⟨hs, href, hn⟩ hstep
    refine ⟨Sound.step hs hstep, ?_⟩
    have hstep' : s.step download (.complete i true) = some v := hstep
    obtain ⟨d, hd, -⟩ := Option.map_eq_some_iff.mp hstep'
    rw [complete_eq hs hd, Option.some.injEq] at hstep'
    subst hstep'
    refine ⟨href, ?_⟩
    rintro (himg | ⟨d', hd', himg⟩)
    · exact hn (.inr ⟨d, List.mem_of_getElem? hd, Option.some.inj himg⟩)
    · exact hn (.inr ⟨d', List.eraseIdx_subset hd', himg⟩)
  exact hinv.2

/-- The pending downloads can complete. -/
theorem exists_completions : ∀ {n : Nat} {t : ImageView Image}, Sound download t →
    t.pending.length = n →
    ∃ ls u, Completions ls ∧ (imageView download).Run t ls u ∧ u.pending = [] := by
  intro n
  induction n with
  | zero =>
    intro t _ hn
    have hnil : Completions [] := fun e he => by cases he
    exact ⟨[], t, hnil, .nil t, List.length_eq_zero_iff.mp hn⟩
  | succ n ih =>
    intro t h hn
    have hd : t.pending[0]? = some t.pending[0] := List.getElem?_eq_getElem (by omega)
    have hs := complete_eq h hd
    obtain ⟨ls, u, hls, hr, hu⟩ := ih (Sound.step h hs) (by
      show (t.pending.eraseIdx 0).length = n
      rw [List.length_eraseIdx_of_lt (by omega)]
      omega)
    refine ⟨.complete 0 true :: ls, u, fun e he => ?_, .cons hs hr, hu⟩
    rcases List.mem_cons.mp he with rfl | he
    · exact ⟨0, rfl⟩
    · exact hls e he

/-- **The image last asked for.** The cache is right in every state. In every
run whose downloads complete in time the view ends with the image last asked
for; after one that does not, it ends with another, in whatever order the
others complete. -/
theorem shows_last (download : String → Image) (s : ImageView Image) :
    ((imageView download).Reachable s → CacheRight download s) ∧
    (((imageView download).when (InTime download)).Reachable s → ShowsLast download s) ∧
    ∀ i t, (imageView download).Reachable s → (imageView download).step s (.complete i true) t →
      ¬ InTime download s (.complete i true) →
      (∃ ls u, Completions ls ∧ (imageView download).Run t ls u ∧ u.pending = []) ∧
      ∀ ls u, Completions ls → (imageView download).Run t ls u → u.pending = [] →
        ¬ ShowsLast download u := by
  refine ⟨fun h => (sound_reachable h).cache, fun h => ?_, fun i t h hs hv => ?_⟩
  · have hx : ∀ ref, s.requested = some ref → Expects download s ref := by
      refine h.invariant (I := fun s => ∀ ref, s.requested = some ref → Expects download s ref) ?_ ?_
      · rintro s ⟨-, hnone, -⟩ ref href
        rw [hnone] at href
        cases href
      · intro s e t hr hx hs
        exact expects_step (sound_reachable hr.of_when) hs.1 hs.2 hx
    intro hquiet ref href
    rcases hx ref href with himg | ⟨d, hd, -⟩
    · exact himg
    · rw [hquiet] at hd
      cases hd
  · have hsound := sound_reachable h
    have hsound' := Sound.step hsound hs
    obtain ⟨ref, ht⟩ := not_expects_complete hsound hs hv
    refine ⟨exists_completions hsound' rfl, fun ls u hls hr hquiet hshows => ?_⟩
    obtain ⟨href, hn⟩ := not_expects_run hr hls hsound' ht
    exact hn (.inl (hshows hquiet ref href))

/-- **A late download stays.** The view is asked for "a" and then for "b"; the
download of "a" completes last. -/
theorem late_download_stays : ∃ s : ImageView String, (imageView id).Reachable s ∧
    s.pending = [] ∧ s.requested = some "b" ∧ s.image = some "a" := by
  have hrun : (imageView id).Run ({} : ImageView String)
      [.load (some "a"), .load (some "b"), .complete 1 true, .complete 0 true] _ :=
    LTS.run_of_exec rfl
  refine ⟨_, hrun.reachable ⟨rfl, rfl, fun ref img h => ?_⟩, rfl, rfl, rfl⟩
  cases h

end ImageView

end QadsCafe
