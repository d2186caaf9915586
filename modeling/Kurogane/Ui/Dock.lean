/-
# The dock of the window manager

The dock lists the windows of processes, an item for each. A press of the primary button
looks for a pin and then for an item under the pointer, but only if the pointer is in the
dock. An item stands for the window that is listed at its position, in z-order.
-/

import Mathlib.Algebra.Order.Ring.Int
import Mathlib.Data.List.Nodup

namespace Kurogane.Ui.Dock

open List

/-- On an admissible screen no edge in the dock leaves the 32-bit integers of the source. -/
structure Rect where
  x : ℤ := 0
  y : ℤ := 0
  width : ℤ := 0
  height : ℤ := 0

def rectContains (rectangle : Rect) (x y : ℤ) : Bool :=
  x ≥ rectangle.x && y ≥ rectangle.y && x < rectangle.x + rectangle.width &&
    y < rectangle.y + rectangle.height

def clampSize (value lower upper : ℤ) : ℤ :=
  if upper < lower then lower
  else if value < lower then lower
  else if value > upper then upper
  else value

inductive Status where
  | ok
  | notInitialized
  | notFound
  | invalidState

inductive WindowState where
  | normal
  | minimized
  | maximized
  deriving DecidableEq

structure Window where
  id : ℕ
  title : String
  ownerPid : ℕ
  state : WindowState := .normal
  stateBeforeMinimize : WindowState := .normal

def invalidWindow : ℕ := 0

/-- The occupied slots are listed in their z-order, the topmost window last. Bounds, pointer
captures and damage are not modelled: they do not affect where a press in the dock goes. -/
structure Manager where
  initialized : Bool := false
  screenWidth : ℤ := 0
  screenHeight : ℤ := 0
  windows : List Window := []
  focused : ℕ := invalidWindow
  dockVisible : Bool := true

section

variable (window : Window) (manager : Manager) (position : ℕ)

/-! ## The listed windows -/

def find (id : ℕ) : Option Window :=
  if id = invalidWindow then none else manager.windows.find? (·.id == id)

def exposed : Bool := window.ownerPid != 0

def isLoginSurface : Bool := window.title == "KUROGANE LOGIN"

def isHomeSurface (title : String) : Bool := title == "RED FLUX HOME"

def loginSurface : Option Window :=
  (manager.windows.find? fun window => exposed window && isLoginSurface window).filter
    (·.state != .minimized)

def tasks : List Window :=
  manager.windows.filter fun window => exposed window && !isHomeSurface window.title

def exposedWindowCount : ℕ := (tasks manager).length

def exposedAt : Option Window := (tasks manager)[position]?

/-! ## Geometry -/

def dockHeight : ℤ := 58

def dockBottom : ℤ := 12

def dockPadding : ℤ := 12

def dockPinSize : ℤ := 42

def dockHomeWidth : ℤ := 78

def dockPinGap : ℤ := 8

def dockSeparator : ℤ := 16

def ribbonGap : ℤ := 6

def ribbonItemMax : ℤ := 96

def ribbonItemMin : ℤ := 48

def dockPinCount : ℕ := 8

def pinnedSectionWidth : ℤ :=
  dockHomeWidth + (dockPinCount - 1) * dockPinSize + (dockPinCount - 1) * dockPinGap

/-- The dock in the geometry that `calculate_workspace` returns. -/
def pulseRibbon : Rect :=
  if !manager.initialized then {}
  else
    let tasks : ℤ := exposedWindowCount manager
    let dockMaxWidth := manager.screenWidth - 48
    let fixedWidth := dockPadding * 2 + pinnedSectionWidth + dockSeparator
    let requestedWidth :=
      if tasks ≠ 0 then fixedWidth + (tasks * ribbonItemMax + (tasks - 1) * ribbonGap)
      else fixedWidth
    let minimumWidth := if fixedWidth < dockMaxWidth then fixedWidth else dockMaxWidth
    let dockWidth := clampSize requestedWidth minimumWidth dockMaxWidth
    ⟨(manager.screenWidth - dockWidth).tdiv 2, manager.screenHeight - dockHeight - dockBottom,
      dockWidth, dockHeight⟩

def dockPinRect : Rect :=
  let baseX := (pulseRibbon manager).x + dockPadding
  let y := (pulseRibbon manager).y + (dockHeight - dockPinSize).tdiv 2
  if position ≥ dockPinCount then {}
  else if position = 0 then ⟨baseX, y, dockHomeWidth, dockPinSize⟩
  else
    ⟨baseX + dockHomeWidth + dockPinGap + (position - 1 : ℕ) * (dockPinSize + dockPinGap), y,
      dockPinSize, dockPinSize⟩

def ribbonItemWidth : ℤ :=
  let tasks : ℤ := exposedWindowCount manager
  if tasks = 0 then 0
  else
    let taskStart := dockPadding + pinnedSectionWidth + dockSeparator
    let usable := (pulseRibbon manager).width - taskStart - dockPadding - (tasks - 1) * ribbonGap
    clampSize (usable.tdiv tasks) ribbonItemMin ribbonItemMax

def ribbonItemRect : Rect :=
  if position ≥ exposedWindowCount manager then {}
  else
    let width := ribbonItemWidth manager
    let taskStart := (pulseRibbon manager).x + dockPadding + pinnedSectionWidth + dockSeparator
    ⟨taskStart + position * (width + ribbonGap), (pulseRibbon manager).y + 12, width,
      (pulseRibbon manager).height - 24⟩

/-! ## Focus and the press of the primary button -/

def focus (id : ℕ) : Status × Manager :=
  if !manager.initialized then (.notInitialized, manager)
  else
    match find manager id with
    | none => (.notFound, manager)
    | some window =>
      if !exposed window then (.notFound, manager)
      else if window.state = .minimized then (.invalidState, manager)
      else if manager.focused = id ∧ manager.windows.getLast?.map Window.id = some id then
        (.ok, manager)
      else
        (.ok, { manager with
          windows := manager.windows.eraseP (·.id == id) ++ [window], focused := id })

def Window.restored : Window :=
  { window with
    state :=
      if window.state = .minimized ∧ window.stateBeforeMinimize = .maximized then .maximized
      else .normal }

def restore (id : ℕ) : Status × Manager :=
  if !manager.initialized then (.notInitialized, manager)
  else
    match find manager id with
    | none => (.notFound, manager)
    | some window =>
      if !exposed window then (.notFound, manager)
      else if window.state = .normal ∨ isLoginSurface window then (.invalidState, manager)
      else
        let windows := manager.windows.map fun other =>
          if other.id = id then window.restored else other
        (.ok, (focus { manager with windows } id).2)

def activateRibbonItem : Status × Manager :=
  match exposedAt manager position with
  | none => (.notFound, manager)
  | some window =>
    if window.state = .minimized then restore manager window.id else focus manager window.id

end

/-- What `dispatch` does with a press of the primary button. The effect of a dock pin and of
a press that hits neither a pin nor an item is left open. -/
def dispatchPress (activateDockPin : ℕ → Manager → Status × Manager)
    (elsewhere : Manager → Status × Manager) (manager : Manager) (x y : ℤ) : Status × Manager :=
  if !manager.initialized then (.notInitialized, manager)
  else if (loginSurface manager).isNone && rectContains (pulseRibbon manager) x y then
    let manager := { manager with dockVisible := true }
    match (range dockPinCount).find? fun index =>
        rectContains (dockPinRect manager index) x y with
    | some index => activateDockPin index manager
    | none =>
      match (range (exposedWindowCount manager)).find? fun position =>
          rectContains (ribbonItemRect manager position) x y with
      | some position => activateRibbonItem manager position
      | none => elsewhere manager
  else elsewhere manager

/-! ## The items on the dock -/

def Apart (left right : Rect) : Prop := ∀ x y, rectContains left x y → ¬rectContains right x y

def Within (inner outer : Rect) : Prop := ∀ x y, rectContains inner x y → rectContains outer x y

theorem rectContains_iff {rectangle : Rect} {x y : ℤ} :
    rectContains rectangle x y ↔ (rectangle.x ≤ x ∧ x < rectangle.x + rectangle.width) ∧
      rectangle.y ≤ y ∧ y < rectangle.y + rectangle.height := by
  simp [rectContains]
  omega

attribute [simp] pinnedSectionWidth dockHomeWidth dockPinCount dockPinSize dockPinGap dockPadding
  dockSeparator dockHeight ribbonGap ribbonItemMin ribbonItemMax

section Reach

variable {manager : Manager} (ready : manager.initialized)
  (hfits : 54 * (exposedWindowCount manager : ℤ) + 498 ≤ manager.screenWidth) {position : ℕ}
  (hposition : position < exposedWindowCount manager)
include ready

theorem pulseRibbon_width_le : (pulseRibbon manager).width ≤ manager.screenWidth - 48 := by
  simp [pulseRibbon, ready, clampSize]
  split_ifs <;> omega

include hposition

omit ready in
theorem ribbonItemWidth_ge : 48 ≤ ribbonItemWidth manager := by
  simp [ribbonItemWidth, clampSize]
  split_ifs <;> omega

theorem ribbonItemRect_eq {other : ℕ} (hle : other ≤ position) : ribbonItemRect manager other =
    ⟨(pulseRibbon manager).x + 456 + other * (ribbonItemWidth manager + 6),
      (pulseRibbon manager).y + 12, ribbonItemWidth manager, 34⟩ := by
  have hheight : (pulseRibbon manager).height = 58 := by simp [pulseRibbon, ready]
  simp [ribbonItemRect, hheight, (hle.trans_lt hposition).not_ge]
  omega

theorem fits_of_within (hlast : position + 1 = exposedWindowCount manager)
    (hwithin : Within (ribbonItemRect manager position) (pulseRibbon manager)) :
    54 * (exposedWindowCount manager : ℤ) + 498 ≤ manager.screenWidth := by
  have hmin := ribbonItemWidth_ge hposition
  have hcut := pulseRibbon_width_le ready
  have hitem := ribbonItemRect_eq ready hposition le_rfl
  -- the last column of the item
  have hedge := hwithin ((pulseRibbon manager).x + 456 + position * (ribbonItemWidth manager + 6) +
    ribbonItemWidth manager - 1) ((pulseRibbon manager).y + 12) (by
      simp only [hitem, rectContains_iff]
      omega)
  rw [rectContains_iff] at hedge
  have := mul_le_mul_of_nonneg_left (show 54 ≤ ribbonItemWidth manager + 6 by omega)
    (Int.natCast_nonneg position)
  omega

include hfits

/-- The items, each with its gap, end in the dock. -/
theorem ribbonItemWidth_spec {width count : ℤ} (hcount : count = exposedWindowCount manager)
    (hwidth : width = ribbonItemWidth manager) {dock : Rect} (hdock : dock = pulseRibbon manager) :
    count * (width + 6) + 450 ≤ dock.width := by
  have hpos : 0 < count := by omega
  have hwide : 450 + 54 * count ≤ dock.width := by
    simp [hdock, pulseRibbon, ready, ← hcount, hpos.ne', clampSize]
    split_ifs <;> omega
  have hsum := Int.tdiv_mul_le (dock.width - 456 - 12 - (count - 1) * 6) hpos.ne'
  generalize hpart : (dock.width - 456 - 12 - (count - 1) * 6).tdiv count = share at hsum
  have hclamp : width = clampSize share 48 96 := by
    simp [hwidth, ribbonItemWidth, ← hdock, ← hcount, hpos.ne', ← hpart]
  obtain hmin | hle : width = 48 ∨ width ≤ share := by
    simp only [hclamp, clampSize]
    split_ifs <;> omega
  · rw [hmin]
    omega
  · have := mul_le_mul_of_nonneg_right hle hpos.le
    grind

/-- An item is in the dock, to the right of the pins and of the items before it. -/
theorem ribbonItemRect_placed {item : Rect} (hitem : item = ribbonItemRect manager position) :
    rectContains item (item.x + item.width.tdiv 2) (item.y + item.height.tdiv 2) ∧
      Within item (pulseRibbon manager) ∧ (∀ index, Apart item (dockPinRect manager index)) ∧
      ∀ other < position, Apart item (ribbonItemRect manager other) := by
  have hmin := ribbonItemWidth_ge hposition
  have hspec := ribbonItemWidth_spec ready hfits hposition rfl rfl rfl
  have hheight : (pulseRibbon manager).height = 58 := by simp [pulseRibbon, ready]
  have heq := fun other hle => @ribbonItemRect_eq manager ready position hposition other hle
  rw [heq position le_rfl] at hitem
  subst hitem
  generalize ribbonItemWidth manager = width at hmin hspec heq ⊢
  have hstep : ∀ first second : ℤ, first + 1 ≤ second →
      first * (width + 6) + (width + 6) ≤ second * (width + 6) := fun first second hle => by
    rw [← add_one_mul]
    exact mul_le_mul_of_nonneg_right hle (by omega)
  have hlast := hstep position (exposedWindowCount manager) (by omega)
  have hfirst := hstep (-1) position (by omega)
  refine ⟨?_, fun x y => ?_, fun index x y => ?_, fun other hlt x y => ?_⟩
  · rw [rectContains_iff, Int.tdiv_eq_ediv_of_nonneg (by dsimp only; omega),
      show Int.tdiv 34 2 = 17 from rfl]
    dsimp only
    omega
  · simp only [rectContains_iff, hheight]
    omega
  · simp only [dockPinRect]
    split_ifs <;> simp [rectContains_iff] at * <;> omega
  · have := hstep other position (by omega)
    rw [heq other hlt.le]
    simp only [rectContains_iff]
    omega

theorem dispatchPress_item (hsurface : loginSurface manager = none) {item : Rect}
    (hitem : item = ribbonItemRect manager position)
    (activateDockPin : ℕ → Manager → Status × Manager) (elsewhere : Manager → Status × Manager) :
    dispatchPress activateDockPin elsewhere manager (item.x + item.width.tdiv 2)
        (item.y + item.height.tdiv 2) =
      activateRibbonItem { manager with dockVisible := true } position := by
  obtain ⟨hmiddle, hwithin, hpins, hitems⟩ := ribbonItemRect_placed ready hfits hposition hitem
  generalize item.x + item.width.tdiv 2 = x at hmiddle ⊢
  generalize item.y + item.height.tdiv 2 = y at hmiddle ⊢
  have hpin : ((range dockPinCount).find? fun index =>
      rectContains (dockPinRect manager index) x y) = none :=
    find?_eq_none.2 fun index _ => hpins index x y hmiddle
  have hfound : ((range (exposedWindowCount manager)).find? fun other =>
      rectContains (ribbonItemRect manager other) x y) = some position := by
    refine find?_range_eq_some.2 ⟨hitem ▸ hmiddle, mem_range.2 hposition, ?_⟩
    simpa using fun other hlt => hitems other hlt x y hmiddle
  rw [dispatchPress, if_neg (by simp [ready]), hsurface, hwithin x y hmiddle]
  refine (if_pos rfl).trans ?_
  dsimp only
  split
  next heq => cases hpin.symm.trans heq
  split
  next heq =>
    cases hfound.symm.trans heq
    rfl
  next heq => cases hfound.symm.trans heq

end Reach

/-! ## What the press does -/

/-- An identifier holds the number of its slot, counted from one, and a generation. -/
structure Identified (manager : Manager) : Prop where
  valid : invalidWindow ∉ manager.windows.map Window.id
  distinct : (manager.windows.map Window.id).Nodup

/-- The window is on top and has the focus; the others keep their order. -/
def raised (manager : Manager) (before after : List Window) (window : Window) : Manager :=
  { manager with windows := before ++ after ++ [window], focused := window.id }

section Press

variable {manager : Manager} (ready : manager.initialized) (identified : Identified manager)
  {before after : List Window} {window : Window}
  (hsplit : manager.windows = before ++ window :: after) (hexposed : exposed window)
include identified hsplit

theorem Identified.others : ∀ other ∈ before ++ after, other.id ≠ window.id := by
  have hdistinct := identified.distinct
  rw [hsplit, map_append, map_cons, nodup_middle, nodup_cons, ← map_append] at hdistinct
  exact fun other hmem heq => hdistinct.1 (heq ▸ mem_map_of_mem hmem)

theorem find_eq : find manager window.id = some window := by
  have hvalid : window.id ≠ invalidWindow := fun heq =>
    identified.valid (heq ▸ mem_map_of_mem (by simp [hsplit]))
  rw [find, if_neg hvalid, find?_eq_some_iff_append]
  refine ⟨by simp, before, after, hsplit, fun other hmem => ?_⟩
  simpa using identified.others hsplit other (mem_append_left _ hmem)

include ready hexposed

theorem focus_eq (hstate : window.state ≠ .minimized) :
    focus manager window.id = (.ok, raised manager before after window) := by
  have hothers := identified.others hsplit
  have herase : manager.windows.eraseP (·.id == window.id) = before ++ after := by
    rw [hsplit, eraseP_append_right _ (by grind)]
    simp
  rw [focus, if_neg (by simp [ready]), find_eq identified hsplit]
  dsimp only
  rw [if_neg (by simp [hexposed]), if_neg hstate, herase]
  split_ifs with hlast
  · obtain rfl | ⟨front, top, rfl⟩ := eq_nil_or_concat' after
    · simp [raised, ← hlast.1, ← hsplit]
    · simp [hsplit, getLast?_cons] at hlast
      exact absurd hlast.2 (hothers top (by simp))
  · rfl

theorem restore_login (hlogin : isLoginSurface window) :
    restore manager window.id = (.invalidState, manager) := by
  rw [restore, if_neg (by simp [ready]), find_eq identified hsplit]
  dsimp only
  rw [if_neg (by simp [hexposed]), if_pos (.inr hlogin)]

theorem restore_eq (hstate : window.state ≠ .normal) (hlogin : isLoginSurface window = false) :
    restore manager window.id = (.ok, raised manager before after window.restored) := by
  have hothers := identified.others hsplit
  have hreplace : (manager.windows.map fun other =>
      if other.id = window.id then window.restored else other) =
        before ++ window.restored :: after := by
    simp only [hsplit, map_append, map_cons, if_true]
    congr 2 <;> exact (map_congr_left fun other hmem =>
      if_neg (hothers other (by simp [hmem]))).trans (map_id' _)
  have hids : (before ++ window.restored :: after).map Window.id =
      manager.windows.map Window.id := by simp [hsplit, Window.restored]
  have hshown : window.restored.state ≠ .minimized := by
    rw [Window.restored]
    split_ifs <;> simp
  rw [restore, if_neg (by simp [ready]), find_eq identified hsplit]
  dsimp only
  rw [if_neg (by simp [hexposed]), if_neg (by simp [hstate, hlogin]), hreplace]
  exact congrArg (fun result : Status × Manager => (Status.ok, result.2)) <|
    @focus_eq { manager with windows := before ++ window.restored :: after } ready
      ⟨hids ▸ identified.valid, hids ▸ identified.distinct⟩ before after window.restored rfl
      hexposed hshown

end Press

/-- The item of a listed window is in the dock, apart from the pins and the other items, and a
press in its middle focuses or restores that window, whatever a pin or a press elsewhere does. -/
structure Reachable (manager : Manager) (position : ℕ) (item : Rect) : Prop where
  within : Within item (pulseRibbon manager)
  pins : ∀ index < dockPinCount, Apart item (dockPinRect manager index)
  items : ∀ other < exposedWindowCount manager, other ≠ position →
    Apart item (ribbonItemRect manager other)
  press : ∃ before window after, manager.windows = before ++ window :: after ∧
    exposedAt manager position = some window ∧ ∀ activateDockPin elsewhere,
      dispatchPress activateDockPin elsewhere manager (item.x + item.width.tdiv 2)
          (item.y + item.height.tdiv 2) =
        (.ok, raised { manager with dockVisible := true } before after
          (if window.state = .minimized then window.restored else window))

section Login

variable {manager : Manager}

theorem mem_tasks_of_login {window : Window} (hmem : window ∈ manager.windows)
    (hexposed : exposed window) (hlogin : isLoginSurface window) : window ∈ tasks manager := by
  simp_all [tasks, isLoginSurface, isHomeSurface]

theorem loginSurface_eq_none (hlogin : ∀ window ∈ tasks manager, isLoginSurface window = false) :
    loginSurface manager = none := by
  rw [loginSurface, find?_eq_none.2 fun window hmem hfound => ?_]
  · rfl
  · obtain ⟨hexposed, hsurface⟩ := Bool.and_eq_true_iff.1 hfound
    rw [hlogin window (mem_tasks_of_login hmem hexposed hsurface)] at hsurface
    cases hsurface

/-- A login surface that is listed keeps the dock from taking a press, or is not restored. -/
theorem not_login_of_reachable (ready : manager.initialized) (identified : Identified manager)
    (hfits : 54 * (exposedWindowCount manager : ℤ) + 498 ≤ manager.screenWidth)
    (hreach : ∀ position < exposedWindowCount manager,
      Reachable manager position (ribbonItemRect manager position)) :
    ∀ window ∈ tasks manager, isLoginSurface window = false := by
  by_contra! hlogin
  obtain ⟨window, hmem, hlogin⟩ := hlogin
  obtain ⟨first, hfirst⟩ : ∃ first, manager.windows.find? (fun window =>
      exposed window && isLoginSurface window) = some first := by
    rw [← Option.isSome_iff_exists, find?_isSome]
    refine ⟨window, mem_of_mem_filter hmem, ?_⟩
    have hlisted := (mem_filter.1 hmem).2
    simp_all
  obtain ⟨hexposed, hsurface⟩ := Bool.and_eq_true_iff.1 (find?_some hfirst :)
  obtain ⟨position, hposition, hat⟩ :=
    getElem_of_mem (mem_tasks_of_login (mem_of_find?_eq_some hfirst) hexposed hsurface)
  obtain ⟨before, window, after, hsplit, hwindow, hpress⟩ := (hreach position hposition).press
  obtain rfl : first = window := by
    rw [exposedAt, getElem?_eq_getElem hposition, hat] at hwindow
    exact Option.some.inj hwindow
  replace hpress := hpress (fun _ other => (.notFound, other)) fun other => (.notFound, other)
  by_cases hstate : first.state = .minimized
  · rw [dispatchPress_item ready hfits hposition (by simp [loginSurface, hfirst, hstate]) rfl,
      activateRibbonItem,
      show exposedAt { manager with dockVisible := true } position = some first from hwindow]
      at hpress
    dsimp only at hpress
    have hvisible : Identified { manager with dockVisible := true } := { identified with }
    rw [if_pos hstate, restore_login (by exact ready) hvisible hsplit hexposed hsurface] at hpress
    cases hpress
  · simp [dispatchPress, ready, loginSurface, hfirst, hstate] at hpress

end Login

/-- Every listed window is reached by a press in the middle of its item exactly if the items fit
with their minimal width and no login surface is listed. -/
theorem tasks_reachable {manager : Manager} (ready : manager.initialized)
    (identified : Identified manager) (hscreen : 1024 ≤ manager.screenWidth) :
    (∀ position < exposedWindowCount manager,
      Reachable manager position (ribbonItemRect manager position)) ↔
    54 * (exposedWindowCount manager : ℤ) + 498 ≤ manager.screenWidth ∧
      ∀ window ∈ tasks manager, isLoginSurface window = false := by
  constructor
  · intro hreach
    have hfits : 54 * (exposedWindowCount manager : ℤ) + 498 ≤ manager.screenWidth := by
      by_contra hcrowded
      obtain ⟨position, hlast⟩ := Nat.exists_eq_add_of_lt (show 0 < exposedWindowCount manager by
        omega)
      rw [Nat.zero_add] at hlast
      exact hcrowded (fits_of_within ready (by omega) hlast.symm
        (hreach position (by omega)).within)
    exact ⟨hfits, not_login_of_reachable ready identified hfits hreach⟩
  rintro ⟨hfits, hlogin⟩ position hposition
  generalize hitem : ribbonItemRect manager position = item
  replace hitem := hitem.symm
  obtain ⟨-, hwithin, hpins, hitems⟩ := ribbonItemRect_placed ready hfits hposition hitem
  obtain ⟨window, hwindow⟩ : ∃ window, exposedAt manager position = some window :=
    ⟨_, getElem?_eq_getElem hposition⟩
  have hmem := mem_of_getElem? hwindow
  obtain ⟨before, after, hsplit⟩ := append_of_mem (mem_of_mem_filter hmem)
  have hexposed := (Bool.and_eq_true_iff.1 (mem_filter.1 hmem).2).1
  refine ⟨hwithin, fun index _ => hpins index, fun other hother hne => ?_, before, window, after,
    hsplit, hwindow, fun activateDockPin elsewhere => ?_⟩
  · obtain hlt | hlt := hne.lt_or_gt
    · exact hitems other hlt
    · subst hitem
      exact fun x y hin hout =>
        (ribbonItemRect_placed ready hfits hother rfl).2.2.2 position hlt x y hout hin
  · have hvisible : Identified { manager with dockVisible := true } := { identified with }
    rw [dispatchPress_item ready hfits hposition (loginSurface_eq_none hlogin) hitem,
      activateRibbonItem,
      show exposedAt { manager with dockVisible := true } position = some window from hwindow]
    dsimp only
    split_ifs with hstate
    · exact restore_eq (by exact ready) hvisible hsplit hexposed (by simp [hstate])
        (hlogin window hmem)
    · exact focus_eq (by exact ready) hvisible hsplit hexposed hstate

/-- Home and eleven windows of its session on a small screen. -/
def crowded : Manager :=
  { initialized := true, screenWidth := 1024, screenHeight := 768
    windows := ⟨1, "RED FLUX HOME", 2, .normal, .normal⟩ ::
      (range 11).map fun index => { id := index + 2, title := "APP", ownerPid := 3 } }

/-- The smallest screen that has room for them. -/
theorem crowded_wide_reachable :
    (exposedAt { crowded with screenWidth := 1092 } 10).map Window.id = some 12 ∧
      Reachable { crowded with screenWidth := 1092 } 10
        (ribbonItemRect { crowded with screenWidth := 1092 } 10) :=
  ⟨by decide, (@tasks_reachable { crowded with screenWidth := 1092 } rfl ⟨by decide, by decide⟩
    (by decide)).mpr ⟨by decide, by decide⟩ 10 (by decide)⟩

/-- The eleventh item begins where the dock has ended, and a press in it passes the dock by. -/
theorem crowded_unreachable :
    ¬Within (ribbonItemRect crowded 10) (pulseRibbon crowded) ∧ ∀ activateDockPin elsewhere,
      dispatchPress activateDockPin elsewhere crowded 1044 727 = elsewhere crowded :=
  ⟨fun h => absurd (h 1044 727 (by decide)) (by decide), fun _ _ => rfl⟩

end Kurogane.Ui.Dock
