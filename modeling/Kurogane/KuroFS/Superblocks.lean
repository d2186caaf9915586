/-
# The two superblock copies

Which state `mount` goes by, what a pair of superblock writes leaves behind at
each of its steps, and the upgrade of a geometry by a feature.
-/

import Kurogane.KuroFS.Bitmap
import Kurogane.KuroFS.Mount

namespace Kurogane.KuroFS

open Storage Function Except

variable {geometry : Geometry} {device : Device} {fs : FileSystem}
  {image image' : Image} {mode : Mode}

variable {block : ℕ} {state : SuperblockState}

/-! ## Reading a copy -/

theorem layout_of_readSuperblockCopy (hvalid : device.valid)
    (h : readSuperblockCopy device image block = .ok state) : Layout state.geometry device := by
  rw [readSuperblockCopy] at h
  split at h
  · cases h
  rename_i sector hsec
  revert h
  fun_cases decodeSuperblock sector device with
  | case6 _ _ _ hgeo =>
    rintro ⟨⟩
    exact layout_of_validateGeometry hvalid (decodeGeometry_fits sector) hgeo
  | _ => nofun

theorem readSuperblockCopy_congr (h : image' block = image block) :
    readSuperblockCopy device image' block = readSuperblockCopy device image block := by
  rw [readSuperblockCopy, readSuperblockCopy, readOne, readOne, h]

def Encodable (geometry : Geometry) (move : Option MoveIntent) : Prop :=
  decodeMoveIntent (encodeSuperblock geometry move) geometry = .ok move

theorem encodable_none (geometry : Geometry) : Encodable geometry none :=
  decodeMoveIntent_encodeSuperblock_none geometry

variable {move : Option MoveIntent} {copy : SuperblockState} {feature : ℕ}

theorem readSuperblockCopy_eq (layout : Layout geometry device) (hmove : Encodable geometry move)
    (hblk : block < 2) (hsec : image block = encodeSuperblock geometry move) :
    readSuperblockCopy device image block = .ok ⟨geometry, move⟩ := by
  have hbounds := layout.bounds
  rw [readSuperblockCopy, layout.readOne_eq image (by omega), hsec]
  exact decodeSuperblock_encodeSuperblock layout.fits layout.validated hmove

/-! ## Selection -/

def Copy (device : Device) (image : Image) (copy : SuperblockState) : Prop :=
  ∃ block < 2, readSuperblockCopy device image block = .ok copy

/-- The newest geometry is selected, with the intent one of its copies carries. -/
structure Selects (device : Device) (image : Image) (state : SuperblockState) : Prop where
  carried : ∃ move, Copy device image ⟨state.geometry, move⟩
  newest : ∀ copy, Copy device image copy →
    copy.geometry = state.geometry ∨ copy.geometry.generation < state.geometry.generation
  intent : ∀ copy, Copy device image copy → copy.geometry = state.geometry →
    copy.move = none ∨ copy.move = state.move
  active : state.move ≠ none → Copy device image state

theorem copy_iff :
    Copy device image copy ↔ readSuperblockCopy device image 0 = .ok copy ∨
      readSuperblockCopy device image 1 = .ok copy := by
  constructor
  · rintro ⟨block, hblk, h⟩
    match block, hblk with
    | 0, _ => exact .inl h
    | 1, _ => exact .inr h
  · rintro (h | h)
    · exact ⟨0, by decide, h⟩
    · exact ⟨1, by decide, h⟩

theorem Selects.unique {state state' : SuperblockState} (h : Selects device image state)
    (h' : Selects device image state') : state = state' := by
  obtain ⟨_, hcopy⟩ := h.carried
  obtain ⟨_, hcopy'⟩ := h'.carried
  have hgeo : state.geometry = state'.geometry := by
    rcases h'.newest _ hcopy with heq | hlt
    · exact heq
    · rcases h.newest _ hcopy' with heq | hlt'
      · exact heq.symm
      · exact absurd hlt (Nat.lt_asymm hlt')
  have hmove : state.move = state'.move := by
    by_cases hnone : state.move = none
    · by_cases hnone' : state'.move = none
      · rw [hnone, hnone']
      · rcases h.intent state' (h'.active hnone') hgeo.symm with heq | heq
        · exact absurd heq hnone'
        · exact heq.symm
    · rcases h'.intent state (h.active hnone) hgeo with heq | heq
      · exact absurd heq hnone
      · exact heq
  cases state
  cases state'
  cases hgeo
  cases hmove
  rfl

theorem selectSuperblock_of_both {primary secondary : SuperblockState}
    (hprim : readSuperblockCopy device image 0 = .ok primary)
    (hsecd : readSuperblockCopy device image 1 = .ok secondary) :
    selectSuperblock device image =
      if primary.geometry = secondary.geometry then
        if primary.move.isSome ∧ secondary.move.isSome ∧ primary.move ≠ secondary.move then
          .error .corruptSuperblock
        else .ok ⟨primary.geometry, secondary.move.or primary.move⟩
      else if primary.geometry.generation = secondary.geometry.generation then
        .error .corruptSuperblock
      else if secondary.geometry.generation < primary.geometry.generation then .ok primary
      else .ok secondary := by
  rw [selectSuperblock, hprim, hsecd]
  by_cases hgeo : primary.geometry = secondary.geometry
  · simp [hgeo]
  rw [if_neg hgeo]
  by_cases hgen : primary.geometry.generation = secondary.geometry.generation
  · simp [hgeo, hgen]
  by_cases hlt : secondary.geometry.generation < primary.geometry.generation
  · rw [if_pos hlt]
    simp [hgen, le_of_lt hlt, Ne.symm hgeo]
  · rw [if_neg hlt]
    have hge : ¬ secondary.geometry.generation ≤ primary.geometry.generation := by omega
    simp [hgen, hge, hgeo]

theorem selects_of_newest (hcopy : Copy device image state)
    (hother : ∀ copy, Copy device image copy →
      copy = state ∨ copy.geometry.generation < state.geometry.generation) :
    Selects device image state := by
  refine ⟨⟨state.move, hcopy⟩, fun copy h => (hother copy h).imp_left (congrArg _),
    fun copy h heq => .inr ?_, fun _ => hcopy⟩
  rcases hother copy h with rfl | hlt
  · rfl
  · exact absurd hlt (by rw [heq]; exact lt_irrefl _)

theorem selectSuperblock_spec {selected : Except Status SuperblockState}
    (h : selectSuperblock device image = selected) : match selected with
      | .ok state => Selects device image state
      | .error _ => ∀ state, ¬ Selects device image state := by
  cases hprim : readSuperblockCopy device image 0 with
  | error =>
    cases hsecd : readSuperblockCopy device image 1 with
    | error =>
      have hnone : ∀ state, ¬ Selects device image state := by
        intro state hselects
        obtain ⟨_, hcarried⟩ := hselects.carried
        rw [copy_iff, hprim, hsecd] at hcarried
        rcases hcarried with hcarried | hcarried <;> cases hcarried
      rw [selectSuperblock, hprim, hsecd] at h
      dsimp only at h
      split at h <;> subst h <;> exact hnone
    | ok =>
      rw [selectSuperblock, hprim, hsecd] at h
      subst h
      refine selects_of_newest (copy_iff.mpr (.inr hsecd)) fun copy hcopy => .inl ?_
      rw [copy_iff, hprim, hsecd] at hcopy
      exact hcopy.elim nofun fun heq => (ok.inj heq).symm
  | ok primary =>
    cases hsecd : readSuperblockCopy device image 1 with
    | error =>
      rw [selectSuperblock, hprim, hsecd] at h
      subst h
      refine selects_of_newest (copy_iff.mpr (.inl hprim)) fun copy hcopy => .inl ?_
      rw [copy_iff, hprim, hsecd] at hcopy
      exact hcopy.elim (fun heq => (ok.inj heq).symm) nofun
    | ok secondary =>
      have honly : ∀ copy, Copy device image copy → copy = primary ∨ copy = secondary := by
        intro copy hcopy
        rw [copy_iff, hprim, hsecd] at hcopy
        exact hcopy.imp (fun heq => (ok.inj heq).symm) fun heq => (ok.inj heq).symm
      have hfirst : Copy device image primary := copy_iff.mpr (.inl hprim)
      have hsnd : Copy device image secondary := copy_iff.mpr (.inr hsecd)
      have hone : ∀ {state}, Selects device image state →
          state.geometry = primary.geometry ∨ state.geometry = secondary.geometry := by
        intro state hselects
        obtain ⟨_, hcarried⟩ := hselects.carried
        exact (honly _ hcarried).imp (fun heq => by rw [← heq]) fun heq => by rw [← heq]
      rw [selectSuperblock_of_both hprim hsecd] at h
      split at h
      next hgeo =>
        split at h
        next hmoves =>
          subst h
          intro state hselects
          have hstate := (hone hselects).elim id fun heq => heq.trans hgeo.symm
          have hp := hselects.intent primary hfirst hstate.symm
          have hs := hselects.intent secondary hsnd (hstate.trans hgeo).symm
          obtain ⟨hpSome, hsSome, hne⟩ := hmoves
          rw [Option.isSome_iff_ne_none] at hpSome hsSome
          exact hne ((hp.resolve_left hpSome).trans (hs.resolve_left hsSome).symm)
        rename_i hmoves
        subst h
        refine ⟨⟨primary.move, hfirst⟩, fun copy hcopy => ?_, fun copy hcopy _ => ?_,
          fun hact => ?_⟩
        · rcases honly copy hcopy with rfl | rfl
          · exact .inl rfl
          · exact .inl hgeo.symm
        · rcases honly copy hcopy with rfl | rfl
          · cases hs : secondary.move with
            | none =>
              exact .inr rfl
            | some =>
              cases hp : copy.move with
              | none => exact .inl rfl
              | some =>
                rw [hp, hs] at hmoves
                exact .inr (not_not.mp fun hne => hmoves ⟨rfl, rfl, hne⟩)
          · cases copy.move with
            | none => exact .inl rfl
            | some => exact .inr rfl
        · cases hs : secondary.move with
          | none =>
            exact hfirst
          | some =>
            rw [Option.some_or, hgeo, ← hs]
            exact hsnd
      next hgeo =>
        split at h
        next hgen =>
          subst h
          intro state hselects
          rcases hone hselects with heq | heq
          · have hs := hselects.newest secondary hsnd
            rw [heq] at hs
            exact hs.elim (fun hsame => hgeo hsame.symm) (by omega)
          · have hp := hselects.newest primary hfirst
            rw [heq] at hp
            exact hp.elim hgeo (by omega)
        split at h
        · subst h
          refine selects_of_newest hfirst fun copy hcopy => (honly copy hcopy).imp_right ?_
          rintro rfl
          assumption
        subst h
        refine selects_of_newest hsnd fun copy hcopy => (honly copy hcopy).symm.imp_right ?_
        rintro rfl
        omega

/-- The selection never fails where there is something to select. -/
theorem selectSuperblock_eq_ok_iff :
    selectSuperblock device image = .ok state ↔ Selects device image state := by
  refine ⟨selectSuperblock_spec, fun h => ?_⟩
  cases hselect : selectSuperblock device image with
  | ok => rw [(selectSuperblock_spec hselect).unique h]
  | error => exact absurd h (selectSuperblock_spec hselect state)

theorem Selects.layout (h : Selects device image state)
    (hvalid : device.valid) : Layout state.geometry device := by
  obtain ⟨_, _, -, hcopy⟩ := h.carried
  have hlayout := layout_of_readSuperblockCopy hvalid hcopy
  exact hlayout

theorem copy_congr (h : ∀ block < 2, image' block = image block) :
    Copy device image' copy ↔ Copy device image copy := by
  rw [copy_iff, copy_iff, readSuperblockCopy_congr (h 0 (by decide)),
    readSuperblockCopy_congr (h 1 (by decide))]

theorem Selects.congr (h : Selects device image state)
    (hsectors : ∀ block < 2, image' block = image block) : Selects device image' state := by
  refine ⟨?_, ?_, ?_, ?_⟩
  · simpa only [copy_congr hsectors] using h.carried
  · simpa only [copy_congr hsectors] using h.newest
  · simpa only [copy_congr hsectors] using h.intent
  · simpa only [copy_congr hsectors] using h.active

/-! ## Writing the pair -/

def withSecondary (image : Image) (sector : Buffer) : Image := Function.update image 1 sector

def withBoth (image : Image) (sector : Buffer) : Image :=
  Function.update (withSecondary image sector) 0 sector

variable {sector : Buffer}

theorem withSecondary_of_le (h : 2 ≤ block) : withSecondary image sector block = image block :=
  update_of_ne (by omega) _ _

theorem withBoth_of_le (h : 2 ≤ block) : withBoth image sector block = image block := by
  rw [withBoth, update_of_ne (by omega), withSecondary_of_le h]

theorem withBoth_of_lt (h : block < 2) : withBoth image sector block = sector := by
  match block, h with
  | 0, _ => exact update_self ..
  | 1, _ => rw [withBoth, update_of_ne (by decide)]; exact update_self ..

theorem writeSuperblockPair_wp (layout : Layout fs.geometry fs.device) (geometry : Geometry)
    (move : Option MoveIntent) :
    (writeSuperblockPair fs geometry move).wp mode
      (fun _ image' => image' = withBoth image (encodeSuperblock geometry move))
      (fun _ _ => mode = .faulty) (fun _ => True) image := by
  have hbounds := layout.bounds
  rw [writeSuperblockPair, Prog.wp_bind, wp_writeOne layout (by omega), Prog.wp_bind,
    wp_flushDevice layout, Prog.wp_bind, wp_writeOne layout (by omega), wp_flushDevice layout]
  exact ⟨trivial, ⟨⟨trivial, ⟨rfl, id⟩, id⟩, id⟩, id⟩

theorem selects_withBoth (layout : Layout geometry device) (hmove : Encodable geometry move) :
    Selects device (withBoth image (encodeSuperblock geometry move)) ⟨geometry, move⟩ := by
  have hcopy : ∀ {block}, block < 2 → readSuperblockCopy device
      (withBoth image (encodeSuperblock geometry move)) block = .ok ⟨geometry, move⟩ :=
    fun hblk => readSuperblockCopy_eq layout hmove hblk (withBoth_of_lt hblk)
  refine selects_of_newest ⟨0, by decide, hcopy (by decide)⟩ ?_
  rintro _ ⟨_, hblk, hread⟩
  rw [hcopy hblk] at hread
  exact .inl (ok.inj hread).symm

/-! ## Features -/

def Geometry.upgraded (geometry : Geometry) (feature : ℕ) : Geometry :=
  { geometry with
    generation := geometry.generation + 1
    featureFlags := geometry.featureFlags ||| feature }

theorem validateGeometry_upgraded (hfeature : feature &&& (2 ^ 64 - 1 - supportedFeatures) = 0)
    (h : validateGeometry geometry device = .ok ()) :
    validateGeometry (geometry.upgraded feature) device = .ok () := by
  rw [validateGeometry] at h ⊢
  split at h
  · cases h
  rename_i hfields
  rw [if_neg]
  · exact h
  push Not at hfields ⊢
  obtain ⟨hsec, hdevice, htotal, hcount, hsize, htable, hroot, -, hflags⟩ := hfields
  refine ⟨hsec, hdevice, htotal, hcount, hsize, htable, hroot, Nat.succ_ne_zero _, ?_⟩
  rw [Geometry.upgraded, Nat.and_or_distrib_right, hflags, hfeature]
  rfl

theorem Layout.upgraded (layout : Layout geometry device)
    (hfeature : feature &&& (2 ^ 64 - 1 - supportedFeatures) = 0) (hlt : feature < 2 ^ 64)
    (hgen : geometry.generation ≠ 2 ^ 64 - 1) : Layout (geometry.upgraded feature) device :=
  { layout with
    fits := { layout.fits with
      generation := by
        have := layout.fits.generation
        change geometry.generation + 1 < 2 ^ 64
        omega
      featureFlags := Nat.or_lt_two_pow layout.fits.featureFlags hlt }
    validated := validateGeometry_upgraded hfeature layout.validated
    generation_pos := Nat.succ_pos _ }

theorem upgraded_feature (geometry : Geometry) (feature : ℕ) :
    (geometry.upgraded feature).featureFlags &&& feature = feature := by
  apply Nat.eq_of_testBit_eq
  intro i
  rw [Geometry.upgraded, Nat.testBit_and, Nat.testBit_or]
  cases feature.testBit i <;> simp

end Kurogane.KuroFS
