/-
# Mounting arbitrary images

`mount` may be handed any device contents. Recovery and normalisation rewrite
inodes and bitmap sectors before the consistency check runs; all that has to be
known of them is that they leave the superblocks as they are, or rewrite both
without an intent.
-/

import Kurogane.KuroFS.Checker
import Kurogane.KuroFS.Inodes
import Kurogane.KuroFS.Superblocks

namespace Kurogane.KuroFS

open Storage Storage.Prog

variable {device : Device} {fs : FileSystem} {image image' : Image} {mode : Mode}

/-! ## Programs that leave the superblocks alone -/

def KeepsSuperblocks (image image' : Image) : Prop := ∀ block < 2, image' block = image block

instance : Std.Refl KeepsSuperblocks := ⟨fun _ _ _ => rfl⟩

instance : IsTrans Image KeepsSuperblocks :=
  ⟨fun _ _ _ h h' block hblock => (h' block hblock).trans (h block hblock)⟩

theorem updateInode_keepsSuperblocks (ready : fs.Ready) (inode : Inode) :
    (updateInode fs inode).Respects mode KeepsSuperblocks := by
  intro image
  have hpublish : Publishable fs image inode → KeepsSuperblocks image (publish image inode) :=
    fun h block hblk => setSlot_of_ne ready.layout h.mem.1 h.mem.2 _ (.inl hblk)
  refine (updateInode_wp ready inode).mono ?_ ?_ ?_
  · rintro _ image' ⟨hpub, -, rfl⟩
    exact hpublish hpub
  · rintro _ image' (⟨rfl, -⟩ | ⟨-, hpub, rfl⟩)
    · exact Std.Refl.refl image'
    · exact hpublish hpub
  · rintro _ ⟨hpub, rfl⟩
    exact hpublish hpub

variable {geometry : Geometry}

theorem Remarked.keepsSuperblocks (layout : Layout geometry device) {bits : ℕ → Prop}
    (h : Remarked geometry image image' bits) : KeepsSuperblocks image image' := by
  intro block hblk
  have := layout.bitmapStart
  exact h.outside block (.inl (by omega))

theorem releaseMoveExtent_keepsSuperblocks (layout : Layout fs.geometry fs.device)
    (first count : ℕ) : (releaseMoveExtent fs first count).Respects mode KeepsSuperblocks := by
  intro image
  rw [releaseMoveExtent]
  split
  · exact Std.Refl.refl image
  by_cases halloc : Allocated fs.geometry image first count
  · refine (releaseExtent_wp layout halloc).mono ?_ ?_ ?_
    · exact fun _ _ h => h.keepsSuperblocks layout
    · rintro _ image' ⟨-, middle, -, h⟩
      exact h.keepsSuperblocks layout
    · rintro image' ⟨_, -, h⟩
      exact h.keepsSuperblocks layout
  refine (releaseExtent_wp_of_not_allocated layout halloc).mono (fun _ _ h => h) ?_ fun _ h => h
  rintro _ image' rfl
  exact Std.Refl.refl image'

theorem normalizeLoop_keepsSuperblocks (ready : fs.Ready) (remaining inodeId : ℕ) :
    (normalizeLoop fs remaining inodeId).Respects mode KeepsSuperblocks := by
  induction remaining generalizing inodeId with
  | zero => exact Prog.Respects.pure ()
  | succ _ ih =>
    refine Prog.Respects.bind ?_ fun _ => ih (inodeId + 1)
    refine Prog.Respects.bind (Prog.Respects.read _) fun found => ?_
    cases found with
    | none => exact Prog.Respects.pure ()
    | some inode =>
      exact Prog.Respects.bind (updateInode_keepsSuperblocks ready inode) fun _ =>
        Prog.Respects.pure ()

/-! ## No intent is left -/

theorem clearIntent_selects (layout : Layout fs.geometry fs.device)
    (first count first' count' : ℕ) :
    (do
      writeSuperblockPair fs fs.geometry none
      releaseMoveExtent fs first count
      releaseMoveExtent fs first' count').wp mode
      (fun _ image' => Selects fs.device image' ⟨fs.geometry, none⟩) (fun _ _ => True)
      (fun _ => True) image := by
  rw [wp_bind]
  refine (writeSuperblockPair_wp layout fs.geometry none).mono ?_ (fun _ _ _ => trivial)
    fun _ _ => trivial
  rintro _ _ rfl
  have hreleases : (do
      releaseMoveExtent fs first count
      releaseMoveExtent fs first' count').Respects mode KeepsSuperblocks :=
    Prog.Respects.bind (releaseMoveExtent_keepsSuperblocks layout first count)
      fun _ => releaseMoveExtent_keepsSuperblocks layout first' count'
  refine (hreleases _).mono ?_ (fun _ _ _ => trivial) fun _ _ => trivial
  exact fun _ _ hkeeps => (selects_withBoth layout (encodable_none _)).congr hkeeps

theorem finishMove_selects (layout : Layout fs.geometry fs.device) (move : MoveIntent)
    (source destination : Inode) :
    (finishMove fs move source destination).wp mode
      (fun _ image' => Selects fs.device image' ⟨fs.geometry, none⟩) (fun _ _ => True)
      (fun _ => True) image := by
  rw [finishMove]
  split
  · trivial
  · exact clearIntent_selects layout _ _ _ _

/-- Whatever an intent says, a recovery that succeeds removes it. -/
theorem recover_selects (ready : fs.Ready) {move : Option MoveIntent}
    (hselects : Selects fs.device image ⟨fs.geometry, move⟩) :
    (recover fs move).wp mode (fun _ image' => Selects fs.device image' ⟨fs.geometry, none⟩)
      (fun _ _ => True) (fun _ => True) image := by
  have layout := ready.layout
  cases move with
  | none => exact hselects
  | some =>
    rw [recover, recoverMoveIntent, wp_bind, wp_read]
    refine ⟨?_, fun _ _ => trivial⟩
    rintro ⟨_, _⟩ -
    dsimp only
    split
    · exact clearIntent_selects layout _ _ _ _
    split
    · trivial
    split
    · trivial
    split
    · trivial
    rw [completeMove]
    split
    · rw [wp_bind]
      exact (updateInode_keepsSuperblocks ready _ _).mono
        (fun _ _ _ => finishMove_selects layout _ _ _) (fun _ _ _ => trivial)
        fun _ _ => trivial
    · exact finishMove_selects layout _ _ _

/-- A handle whose image is consistent and whose superblocks are settled. -/
structure Mounted (fs : FileSystem) (image : Image) : Prop extends fs.Ready where
  selects : Selects fs.device image ⟨fs.geometry, none⟩
  consistent : Consistent fs.geometry image
  ownership : fs.geometry.featureFlags &&& featureInodeOwnership = featureInodeOwnership

def Settled (device : Device) (fs : FileSystem) (image : Image) : Prop :=
  fs.device = device ∧ fs.Ready ∧ Selects device image ⟨fs.geometry, none⟩ ∧
    fs.geometry.featureFlags &&& featureInodeOwnership = featureInodeOwnership

theorem normalizeInodeOwnership_selects (ready : fs.Ready)
    (hselects : Selects fs.device image ⟨fs.geometry, none⟩) :
    (normalizeInodeOwnership fs).wp mode (Settled fs.device) (fun _ _ => True) (fun _ => True)
      image := by
  have hloop : ∀ {fs' : FileSystem} {image : Image}, Settled fs.device fs' image → (do
        normalizeLoop fs' fs'.geometry.inodeCount rootInodeId
        pure fs').wp mode (Settled fs.device) (fun _ _ => True) (fun _ => True) image := by
    rintro fs' image ⟨hdevice, hready, hselected, hfeature⟩
    rw [wp_bind]
    refine (normalizeLoop_keepsSuperblocks hready _ _ image).mono ?_ (fun _ _ _ => trivial)
      fun _ _ => trivial
    exact fun _ _ hkeeps => ⟨hdevice, hready, hselected.congr hkeeps, hfeature⟩
  rw [normalizeInodeOwnership, wp_bind, wp_mapError, ensureFeature, if_neg (by decide)]
  split
  · next hpres => exact hloop ⟨rfl, ready, hselects, hpres⟩
  split
  · trivial
  next hgen =>
  rw [wp_bind, wp_mapError]
  refine (writeSuperblockPair_wp ready.layout (fs.geometry.upgraded featureInodeOwnership)
    none).mono ?_ (fun _ _ _ => trivial) fun _ _ => trivial
  rintro _ _ rfl
  have layout := ready.layout.upgraded (show featureInodeOwnership &&&
    (2 ^ 64 - 1 - supportedFeatures) = 0 by decide) (by decide) hgen
  exact hloop ⟨rfl, ⟨ready.mounted, layout⟩, selects_withBoth layout (encodable_none _),
    upgraded_feature _ _⟩

theorem mount_mounted (device : Device) (image : Image) :
    (mount device).wp mode (fun fs image' => fs.device = device ∧ Mounted fs image')
      (fun _ _ => True) (fun _ => True) image := by
  rw [mount]
  split
  · trivial
  split
  · trivial
  rename_i hvalid
  rw [Bool.not_eq_true', Bool.not_eq_false] at hvalid
  rw [wp_bind, wp_read]
  refine ⟨fun selected hselected => ?_, fun _ _ => trivial⟩
  have hselects := selectSuperblock_eq_ok_iff.mp hselected
  have ready : FileSystem.Ready ⟨device, selected.geometry, true⟩ := ⟨rfl, hselects.layout hvalid⟩
  rw [wp_bind]
  refine (recover_selects ready hselects).mono ?_ (fun _ _ _ => trivial) fun _ _ => trivial
  intro _ recovered hrecovered
  rw [finishMount, wp_bind]
  refine (normalizeInodeOwnership_selects ready hrecovered).mono ?_ (fun _ _ _ => trivial)
    fun _ _ => trivial
  rintro fs _ ⟨hdevice, hready, hnorm, hfeature⟩
  rw [wp_bind, wp_read]
  refine ⟨fun _ hchecked => ?_, fun _ _ => trivial⟩
  exact ⟨hdevice, hready, hdevice ▸ hnorm, (checkMounted_eq_ok_iff hready).mp hchecked, hfeature⟩

theorem mounted_of_run {image' : Image} (h : (mount device).run image = (.ok fs, image')) :
    fs.device = device ∧ Mounted fs image' := by
  have hpost := (@mount_mounted .reliable device image).run.1 fs (by rw [h])
  rwa [h] at hpost

theorem run_mount_of_geometry
    (h : ((mount device).run image).1.map FileSystem.geometry = .ok geometry) :
    (mount device).run image = (.ok ⟨device, geometry, true⟩, ((mount device).run image).2) := by
  cases hrun : (mount device).run image with
  | mk answer image' =>
    rw [hrun] at h
    cases answer with
    | error => cases h
    | ok fs =>
      obtain ⟨rfl, hmounted⟩ := mounted_of_run hrun
      obtain ⟨_, _, flag⟩ := fs
      cases h
      obtain rfl : flag = true := hmounted.toReady.mounted
      rfl

/-- An image that `mount` accepts without a write is mounted as it is. -/
theorem mounted_of_trace (h : ((mount device).run image).1.map FileSystem.geometry = .ok geometry ∧
      ((mount device).trace image).length = 0) : Mounted ⟨device, geometry, true⟩ image := by
  obtain ⟨hok, htrace⟩ := h
  have hsame := applyWrites_trace (mount device) image
  rw [List.length_eq_zero_iff.mp htrace] at hsame
  have hmounted := (mounted_of_run (run_mount_of_geometry hok)).2
  rwa [← show image = _ from hsame] at hmounted

end Kurogane.KuroFS
