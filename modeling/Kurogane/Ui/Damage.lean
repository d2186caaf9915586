/-
# Damage tracking of the window manager

The rectangles of the screen that the next frame draws again. A new rectangle is united
with every recorded one it touches, and the union with what it touches in turn, until the
regions are apart. If there are too many of them, the whole screen is drawn.
-/

import Mathlib.Algebra.Group.Nat.Defs
import Mathlib.Data.List.Pairwise

namespace Kurogane.Ui

open List

structure Rect where
  x : Int32 := 0
  y : Int32 := 0
  width : Int32 := 0
  height : Int32 := 0

/-- The source adds in 64 bits, where the sum of two 32-bit numbers is exact. -/
def Rect.right (rect : Rect) : ℤ := rect.x.toInt + rect.width.toInt

def Rect.bottom (rect : Rect) : ℤ := rect.y.toInt + rect.height.toInt

/-- The edges are cast back to 32 bits. -/
def Rect.ofEdges (left top right bottom : ℤ) : Rect :=
  ⟨.ofInt left, .ofInt top, .ofInt (right - left), .ofInt (bottom - top)⟩

inductive DirtyMode where
  | none
  | regions
  | full
  deriving DecidableEq

/-- The screen and the damage recorded so far: as many regions as are counted. -/
structure Manager where
  initialized : Bool := false
  rendering : Bool := false
  screenWidth : Int32 := 0
  screenHeight : Int32 := 0
  dirty : DirtyMode := .none
  damageRegions : List Rect := []

def Manager.screen (manager : Manager) : Rect :=
  { width := manager.screenWidth, height := manager.screenHeight }

def maxDamageRegions : ℕ := 16

section

variable (manager : Manager) (width height : ℕ)

def markFullDirty : Manager :=
  { manager with dirty := .full, damageRegions := [] }

def clipDamageRegion (input : Rect) : Rect :=
  if input.width ≤ 0 ∨ input.height ≤ 0 ∨ manager.screenWidth ≤ 0 ∨ manager.screenHeight ≤ 0 then {}
  else
    let left := max input.x.toInt 0
    let top := max input.y.toInt 0
    let right := min input.right manager.screenWidth.toInt
    let bottom := min input.bottom manager.screenHeight.toInt
    if left ≥ right ∨ top ≥ bottom then {} else .ofEdges left top right bottom

def damageRegionsTouch (left right : Rect) : Bool :=
  left.x.toInt ≤ right.right && right.x.toInt ≤ left.right &&
    left.y.toInt ≤ right.bottom && right.y.toInt ≤ left.bottom

def uniteDamageRegions (left right : Rect) : Rect :=
  .ofEdges (min left.x.toInt right.x.toInt) (min left.y.toInt right.y.toInt)
    (max left.right right.right) (max left.bottom right.bottom)

/-- The loop over the recorded regions: those before the index, which the new region does
not touch, and the others. A union takes its region out and starts again. -/
def mergeDamage (region : Rect) (passed : List Rect) : List Rect → Rect × List Rect
  | [] => (region, passed)
  | next :: rest =>
    if damageRegionsTouch region next then
      mergeDamage (uniteDamageRegions region next) [] (passed ++ rest)
    else mergeDamage region (passed ++ [next]) rest
termination_by rest => (passed.length + rest.length, rest.length)
decreasing_by all_goals simp [Prod.lex_def]; try omega

/-- The part of the region on the screen is merged with all that it touches. When there are
too many regions, the whole screen is damaged. -/
def addDamageRegion (requested : Rect) : Manager :=
  if manager.initialized = false ∨ manager.dirty = .full then manager
  else
    let region := clipDamageRegion manager requested
    if region.width ≤ 0 ∨ region.height ≤ 0 then manager
    else
      let (region, regions) := mergeDamage region [] manager.damageRegions
      if regions.length ≥ maxDamageRegions then markFullDirty manager
      else { manager with damageRegions := regions ++ [region], dirty := .regions }

/-- What others see of the damage: the mode, and the regions in that mode. -/
def damageSnapshot : Bool × List Rect :=
  (manager.dirty = .full, if manager.dirty = .regions then manager.damageRegions else [])

def validSize : Bool :=
  320 ≤ width && 200 ≤ height && width < 2 ^ 31 && height < 2 ^ 31

/-- The windows, which are closed or moved with the screen, are not part of this model. -/
def initializeManager : Manager :=
  if !validSize width height then manager
  else markFullDirty { manager with
    screenWidth := .ofNat width, screenHeight := .ofNat height, initialized := true }

/-- `accepted` tells whether graphics and pointer take the new size. -/
def setScreenSize (accepted : Bool) : Bool × Manager :=
  if manager.initialized = false ∨ manager.rendering ∨ !validSize width height then (false, manager)
  else if manager.screenWidth = .ofNat width ∧ manager.screenHeight = .ofNat height then
    (true, manager)
  else if !accepted then (false, manager)
  else (true, markFullDirty { manager with
    screenWidth := .ofNat width, screenHeight := .ofNat height })

end

/-- The state, and the rectangles that were invalidated since the last frame began. -/
abbrev Tracker := Manager × List Rect

/-- A frame takes the damage recorded so far. -/
def takeDamage (tracker : Tracker) : Tracker :=
  if tracker.1.initialized = false ∨ tracker.1.rendering ∨ tracker.1.dirty = .none then tracker
  else ({ tracker.1 with rendering := true, dirty := .none, damageRegions := [] }, [])

/-- `render_if_needed` up to the draw callbacks; first the screen follows the display, if
that is available and has another size. -/
def beginFrame (tracker : Tracker) : Option (ℕ × ℕ × Bool) → Tracker
  | none => takeDamage tracker
  | some (width, height, accepted) =>
    match setScreenSize tracker.1 width height accepted with
    | (false, manager) => (manager, tracker.2)
    | (true, manager) => takeDamage (manager, tracker.2)

/-- What happens one after the other. The draw callbacks of a frame are the calls between its
begin and its end; a frame that a callback wants to begin is not begun. -/
inductive Call where
  | initializeManager (width height : ℕ)
  | setScreenSize (width height : ℕ) (accepted : Bool)
  | invalidate
  | invalidateRegion (region : Rect)
  | beginFrame (display : Option (ℕ × ℕ × Bool))
  | endFrame

def Call.perform (tracker : Tracker) : Call → Tracker
  | .initializeManager width height => (Ui.initializeManager tracker.1 width height, tracker.2)
  | .setScreenSize width height accepted =>
    ((Ui.setScreenSize tracker.1 width height accepted).2, tracker.2)
  | .invalidate => (markFullDirty tracker.1, tracker.1.screen :: tracker.2)
  | .invalidateRegion region => (addDamageRegion tracker.1 region, region :: tracker.2)
  | .beginFrame display => Ui.beginFrame tracker display
  | .endFrame => ({ tracker.1 with rendering := false }, tracker.2)

/-- The state after a sequence of calls, from the start of the kernel on. -/
def run (calls : List Call) : Tracker := calls.foldl Call.perform ({}, [])

/-! ## Rectangles -/

variable {width height : Int32} {manager : Manager} {tracker : Tracker}
  {region left right : Rect} {regions : List Rect}

def Rect.Contains (rect : Rect) (x y : ℤ) : Prop :=
  rect.x.toInt ≤ x ∧ x < rect.right ∧ rect.y.toInt ≤ y ∧ y < rect.bottom

def Apart (left right : Rect) : Prop :=
  left.right < right.x.toInt ∨ right.right < left.x.toInt ∨
    left.bottom < right.y.toInt ∨ right.bottom < left.y.toInt

structure Rect.Inside (width height : Int32) (rect : Rect) : Prop where
  left : 0 ≤ rect.x.toInt
  top : 0 ≤ rect.y.toInt
  wide : rect.x.toInt < rect.right
  high : rect.y.toInt < rect.bottom
  right : rect.right ≤ width.toInt
  bottom : rect.bottom ≤ height.toInt

theorem apart_of_not_touch (h : ¬ damageRegionsTouch left right = true) : Apart left right := by
  simp only [damageRegionsTouch, Bool.and_eq_true, decide_eq_true_eq] at h
  rw [Apart]
  omega

theorem Apart.symm (h : Apart left right) : Apart right left := by
  rw [Apart] at h ⊢
  omega

theorem Rect.ofEdges_spec {x y x' y' : ℤ} (hx : 0 ≤ x ∧ x < x' ∧ x' ≤ width.toInt)
    (hy : 0 ≤ y ∧ y < y' ∧ y' ≤ height.toInt) :
    (Rect.ofEdges x y x' y').Inside width height ∧
      ∀ a b, (Rect.ofEdges x y x' y').Contains a b ↔ x ≤ a ∧ a < x' ∧ y ≤ b ∧ b < y' := by
  have hwidth := width.toInt_lt
  have hheight := height.toInt_lt
  have hcast : ∀ {n : ℤ}, 0 ≤ n → n < 2 ^ 31 → (Int32.ofInt n).toInt = n := fun hn hlt =>
    Int32.toInt_ofInt_of_le (by omega) hlt
  have hleft : (Rect.ofEdges x y x' y').x.toInt = x := hcast (by omega) (by omega)
  have htop : (Rect.ofEdges x y x' y').y.toInt = y := hcast (by omega) (by omega)
  have hright : (Rect.ofEdges x y x' y').right = x' := by
    rw [Rect.right, hleft, Rect.ofEdges, hcast (by omega) (by omega)]
    omega
  have hbottom : (Rect.ofEdges x y x' y').bottom = y' := by
    rw [Rect.bottom, htop, Rect.ofEdges, hcast (by omega) (by omega)]
    omega
  refine ⟨⟨?_, ?_, ?_, ?_, ?_, ?_⟩, fun a b => ?_⟩ <;>
    simp only [Rect.Contains, hleft, htop, hright, hbottom] <;> omega

theorem uniteDamageRegions_spec (hleft : left.Inside width height)
    (hright : right.Inside width height) :
    (uniteDamageRegions left right).Inside width height ∧ ∀ x y,
      left.Contains x y ∨ right.Contains x y → (uniteDamageRegions left right).Contains x y := by
  obtain ⟨_, _, _, _, _, _⟩ := hleft
  obtain ⟨_, _, _, _, _, _⟩ := hright
  obtain ⟨hinside, hcontains⟩ := @Rect.ofEdges_spec width height
    (min left.x.toInt right.x.toInt) (min left.y.toInt right.y.toInt)
    (max left.right right.right) (max left.bottom right.bottom) (by omega) (by omega)
  refine ⟨hinside, fun x y h => (hcontains x y).mpr ?_⟩
  simp only [Rect.Contains] at h
  omega

def OnScreen (manager : Manager) (x y : ℤ) : Prop :=
  0 ≤ x ∧ x < manager.screenWidth.toInt ∧ 0 ≤ y ∧ y < manager.screenHeight.toInt

/-- What is left of a rectangle is empty or inside the screen, and has all its pixels there. -/
theorem clipDamageRegion_spec (manager : Manager) (input : Rect) :
    ((clipDamageRegion manager input).width ≤ 0 ∨ (clipDamageRegion manager input).height ≤ 0 ∨
      (clipDamageRegion manager input).Inside manager.screenWidth manager.screenHeight) ∧
    ∀ x y, OnScreen manager x y → input.Contains x y →
      (clipDamageRegion manager input).Contains x y := by
  simp only [OnScreen, Rect.Contains.eq_1 input]
  fun_cases clipDamageRegion manager input with
  | case1 hempty =>
    simp only [Int32.le_iff_toInt_le, Int32.toInt_zero] at hempty
    refine ⟨.inl (by decide), fun x y hscreen hinput => ?_⟩
    rw [Rect.right, Rect.bottom] at hinput
    omega
  | case2 => exact ⟨.inl (by decide), fun x y hscreen hinput => by omega⟩
  | case3 _ left top right bottom hempty =>
    obtain ⟨hinside, hcontains⟩ := @Rect.ofEdges_spec manager.screenWidth manager.screenHeight
      left top right bottom (by omega) (by omega)
    refine ⟨.inr (.inr hinside), fun x y hscreen hinput => (hcontains x y).mpr ?_⟩
    omega

/-! ## Merging -/

/-- What the loop makes of a new region and the recorded ones. -/
structure Merged (width height : Int32) (regions : List Rect) (result : List Rect) : Prop where
  inside : ∀ rect ∈ result, rect.Inside width height
  apart : result.Pairwise Apart
  covers : ∀ x y, (∃ rect ∈ regions, rect.Contains x y) → ∃ rect ∈ result, rect.Contains x y

theorem mergeDamage_merged (passed rest : List Rect)
    (hinside : ∀ rect ∈ region :: (passed ++ rest), rect.Inside width height)
    (hpassed : ∀ rect ∈ passed, Apart region rect) (hapart : (passed ++ rest).Pairwise Apart) :
    Merged width height (region :: (passed ++ rest))
      ((mergeDamage region passed rest).1 :: (mergeDamage region passed rest).2) := by
  fun_induction mergeDamage region passed rest with
  | case1 region passed =>
    rw [append_nil] at *
    exact ⟨hinside, pairwise_cons.mpr ⟨hpassed, hapart⟩, fun _ _ => id⟩
  | case2 region passed next rest htouch ih =>
    obtain ⟨hunited, hcontains⟩ := uniteDamageRegions_spec (hinside region (by simp))
      (hinside next (by simp))
    have hmerged := ih (fun rect hrect => ?_) (by simp) (hapart.sublist (by simp))
    · refine { hmerged with covers := fun x y hcovered => hmerged.covers x y ?_ }
      simp only [mem_cons, mem_append, nil_append] at hcovered ⊢
      obtain ⟨rect, rfl | hrect | rfl | hrect, hpixel⟩ := hcovered
      · exact ⟨_, .inl rfl, hcontains x y (.inl hpixel)⟩
      · exact ⟨rect, .inr (.inl hrect), hpixel⟩
      · exact ⟨_, .inl rfl, hcontains x y (.inr hpixel)⟩
      · exact ⟨rect, .inr (.inr hrect), hpixel⟩
    · rcases mem_cons.mp hrect with rfl | hrect
      · exact hunited
      · exact hinside rect (by grind)
  | case3 region passed next rest htouch ih =>
    have happend : passed ++ next :: rest = passed ++ [next] ++ rest := by simp
    rw [happend] at hinside hapart ⊢
    refine ih hinside (fun rect hrect => ?_) hapart
    rcases mem_append.mp hrect with hold | hnew
    · exact hpassed rect hold
    · rw [mem_singleton.mp hnew]
      exact apart_of_not_touch htouch

/-! ## Runs -/

structure Tracked (tracker : Tracker) : Prop where
  blank : tracker.1.initialized = false → tracker.1.screenWidth = 0
  recorded : tracker.1.dirty ≠ .regions → tracker.1.damageRegions = []
  limit : tracker.1.damageRegions.length ≤ maxDamageRegions
  inside : ∀ region ∈ tracker.1.damageRegions,
    region.Inside tracker.1.screenWidth tracker.1.screenHeight
  apart : tracker.1.damageRegions.Pairwise Apart
  covers : tracker.1.dirty ≠ .full → ∀ rect ∈ tracker.2, ∀ x y, OnScreen tracker.1 x y →
    rect.Contains x y → ∃ region ∈ tracker.1.damageRegions, region.Contains x y

theorem Tracked.markFullDirty (hblank : manager.initialized = false → manager.screenWidth = 0)
    (invalidated : List Rect) : Tracked (Ui.markFullDirty manager, invalidated) :=
  ⟨hblank, fun _ => rfl, Nat.zero_le _, nofun, .nil, fun hfull => absurd rfl hfull⟩

section

variable (h : Tracked tracker)
include h

theorem Tracked.setScreenSize (width height : ℕ) (accepted : Bool) :
    Tracked ((Ui.setScreenSize tracker.1 width height accepted).2, tracker.2) := by
  fun_cases Ui.setScreenSize tracker.1 width height accepted with
  | case4 hready => exact .markFullDirty (fun hblank => absurd (.inl hblank) hready) _
  | _ => exact h

theorem Tracked.takeDamage : Tracked (Ui.takeDamage tracker) := by
  rw [Ui.takeDamage]
  split
  · exact h
  · exact ⟨h.blank, fun _ => rfl, Nat.zero_le _, nofun, .nil, fun _ => nofun⟩

theorem Tracked.addDamageRegion (requested : Rect) :
    Tracked (Ui.addDamageRegion tracker.1 requested, requested :: tracker.2) := by
  obtain ⟨hclip, hpixels⟩ := clipDamageRegion_spec tracker.1 requested
  -- with the same regions, only the pixels of the new rectangle are in question
  have hsame : (tracker.1.dirty ≠ .full → ∀ x y, OnScreen tracker.1 x y →
      ¬ requested.Contains x y) → Tracked (tracker.1, requested :: tracker.2) := by
    intro hnone
    refine { h with covers := fun hfull rect hrect x y hscreen => ?_ }
    rcases mem_cons.mp hrect with rfl | hrect
    · exact fun hpixel => absurd hpixel (hnone hfull x y hscreen)
    · exact h.covers hfull rect hrect x y hscreen
  fun_cases Ui.addDamageRegion tracker.1 requested with
  | case1 hignored =>
    refine hsame fun hfull x y hscreen => ?_
    have hwidth := congrArg Int32.toInt (h.blank (hignored.resolve_right hfull))
    rw [OnScreen, hwidth, Int32.toInt_zero] at hscreen
    omega
  | case2 _ region hempty =>
    refine hsame fun _ x y hscreen hpixel => ?_
    have hcontains := hpixels x y hscreen hpixel
    simp only [Int32.le_iff_toInt_le, Int32.toInt_zero, region] at hempty
    rw [Rect.Contains, Rect.right, Rect.bottom] at hcontains
    omega
  | case3 => exact .markFullDirty h.blank _
  | case4 hready region hvalid merged regions hmerge hroom =>
    have hinside := (or_assoc.mpr hclip).resolve_left hvalid
    have hmerged := mergeDamage_merged [] tracker.1.damageRegions
      (forall_mem_cons.mpr ⟨hinside, h.inside⟩) nofun h.apart
    rw [hmerge] at hmerged
    have hperm := perm_append_singleton merged regions
    refine ⟨h.blank, nofun, ?_, fun rect hrect => ?_, ?_, fun _ rect hrect x y hscreen hpixel => ?_⟩
    · rw [length_append, length_singleton]
      omega
    · exact hmerged.inside rect (hperm.mem_iff.mp hrect)
    · exact (hperm.pairwise_iff fun h => h.symm).mpr hmerged.apart
    have hcovered : ∃ rect ∈ region :: tracker.1.damageRegions, rect.Contains x y := by
      rcases mem_cons.mp hrect with rfl | hrect
      · exact ⟨region, mem_cons_self, hpixels x y hscreen hpixel⟩
      · obtain ⟨found, hfound, hpixel⟩ :=
          h.covers (not_or.mp hready).2 rect hrect x y hscreen hpixel
        exact ⟨found, mem_cons_of_mem _ hfound, hpixel⟩
    obtain ⟨found, hfound, hpixel⟩ := hmerged.covers x y hcovered
    exact ⟨found, hperm.mem_iff.mpr hfound, hpixel⟩

theorem Tracked.perform (call : Call) : Tracked (call.perform tracker) := by
  cases call with
  | initializeManager width height =>
    rw [Call.perform, initializeManager]
    split
    · exact h
    · exact .markFullDirty (fun hblank => absurd hblank (by simp)) _
  | setScreenSize width height accepted => exact h.setScreenSize width height accepted
  | invalidate => exact .markFullDirty h.blank _
  | invalidateRegion region => exact h.addDamageRegion region
  | beginFrame display =>
    rw [Call.perform]
    fun_cases Ui.beginFrame tracker display with
    | case1 => exact h.takeDamage
    | case2 width height accepted manager hsize =>
      have hresized := h.setScreenSize width height accepted
      rw [hsize] at hresized
      exact hresized
    | case3 width height accepted manager hsize =>
      have hresized := h.setScreenSize width height accepted
      rw [hsize] at hresized
      exact hresized.takeDamage
  | endFrame => exact { h with }

end

theorem run_tracked (calls : List Call) : Tracked (run calls) := by
  refine List.foldlRecOn calls Call.perform ?_ fun _ h call _ => h.perform call
  exact ⟨fun _ => rfl, fun _ => rfl, Nat.zero_le _, nofun, .nil, fun _ => nofun⟩

/-- **No damage is lost.** At every moment the whole screen is marked, or the recorded regions
cover every pixel of the screen that was invalidated since the last frame began, a frame's
own draw callbacks included; and then they are few, not empty, inside the screen and apart. -/
theorem damage_never_lost (calls : List Call) :
    (damageSnapshot (run calls).1).1 = true ∨
      (∀ rect ∈ (run calls).2, ∀ x y, OnScreen (run calls).1 x y → rect.Contains x y →
        ∃ region ∈ (damageSnapshot (run calls).1).2, region.Contains x y) ∧
      (∀ region ∈ (damageSnapshot (run calls).1).2,
        region.Inside (run calls).1.screenWidth (run calls).1.screenHeight) ∧
      (damageSnapshot (run calls).1).2.length ≤ maxDamageRegions ∧
      (damageSnapshot (run calls).1).2.Pairwise Apart := by
  have h := run_tracked calls
  by_cases hfull : (run calls).1.dirty = .full
  · exact .inl (decide_eq_true hfull)
  have hregions : (damageSnapshot (run calls).1).2 = (run calls).1.damageRegions := by
    rw [damageSnapshot]
    split
    · rfl
    · next hnone => exact (h.recorded hnone).symm
  rw [hregions]
  exact .inr ⟨h.covers hfull, h.inside, h.limit, h.apart⟩

/-- Two regions are recorded. A third rectangle touches the second one only, and their union
touches the first. -/
def cascade : List Call :=
  [.initializeManager 640 480, .beginFrame none, .endFrame, .invalidateRegion ⟨0, 0, 10, 10⟩,
    .invalidateRegion ⟨30, 5, 10, 25⟩, .invalidateRegion ⟨5, 20, 25, 10⟩]

theorem run_cascade : run cascade = (⟨true, false, 640, 480, .regions, [⟨0, 0, 40, 30⟩]⟩,
    [⟨5, 20, 25, 10⟩, ⟨30, 5, 10, 25⟩, ⟨0, 0, 10, 10⟩]) := by
  simp +decide only [run, cascade, foldl_cons, foldl_nil, nil_append, cons_append, Call.perform,
    initializeManager, beginFrame, takeDamage, addDamageRegion, mergeDamage, if_false, if_true]
  rfl

theorem cascade_covered : damageSnapshot (run cascade).1 = (false, [⟨0, 0, 40, 30⟩]) ∧
    ∃ region ∈ (damageSnapshot (run cascade).1).2, region.Contains 5 25 := by
  have hnever := damage_never_lost cascade
  rw [run_cascade] at hnever ⊢
  refine ⟨rfl, ?_⟩
  rcases hnever with hfull | ⟨hcovers, -⟩
  · cases hfull
  · exact hcovers ⟨5, 20, 25, 10⟩ mem_cons_self 5 25 (by unfold OnScreen; decide)
      (by unfold Rect.Contains; decide)

end Kurogane.Ui
