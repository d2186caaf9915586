/-
# Mount accepts only sound images

The contents of the device are arbitrary: whatever the superblocks, the intent,
the inodes and the records say, an image that `mount` accepts is sound.
-/

import Kurogane.KuroFS.Formatting

namespace Kurogane.KuroFS

open Storage List

/-! ## A formatted device -/

def smallDevice : Device := ⟨512, 64, true, by decide⟩

def smallGeometry : Geometry where
  sectorSize := 512
  totalBlocks := 64
  generation := 1
  inodeCount := 4
  inodeSize := 128
  inodeTableStart := 2
  inodeTableBlocks := 1
  allocationBitmapStart := 3
  allocationBitmapBlocks := 1
  dataStart := 4
  rootInode := 1
  featureFlags := 3

def smallImage : Image := ((format smallDevice 4).run fun _ => Buffer.zero).2

def smallFileSystem : FileSystem := ⟨smallDevice, smallGeometry, true⟩

theorem formatted_run {device : Device} {geometry : Geometry} {inodeCount : UInt32}
    (hvalid : device.valid = true) (hgeo : calculateGeometry device inodeCount.toNat = .ok geometry)
    (image : Image) : Formatted device geometry ((format device inodeCount).run image).2 := by
  have hformat := @format_wp geometry device image .reliable inodeCount hvalid hgeo
  obtain ⟨_, -, hformatted⟩ := (hformat.mono (fun _ _ h => h) nofun fun _ h => h).exists_value
  exact hformatted

theorem smallImage_formatted : Formatted smallDevice smallGeometry smallImage :=
  formatted_run (by decide) (by decide) _

theorem smallImage_mounted : Mounted smallFileSystem smallImage :=
  smallImage_formatted.mounted (by decide) rfl

/-- Whatever a device held, after `format` it mounts as it is, as an empty volume. -/
theorem format_then_mount {device : Device} {geometry : Geometry} {inodeCount : UInt32}
    (hvalid : device.valid) (hgeo : calculateGeometry device inodeCount.toNat = .ok geometry)
    (image : Image) : ∃ image', (format device inodeCount).run image = (.ok (), image') ∧
      (mount device).run image' = (.ok ⟨device, geometry, true⟩, image') ∧
      view geometry image' = emptyVolume geometry.inodeCount := by
  have hformat := @format_wp geometry device image .reliable inodeCount hvalid hgeo
  obtain ⟨_, hok, hformatted⟩ := (hformat.mono (fun _ _ h => h) nofun fun _ h => h).exists_value
  have hfresh := freshGeometry_of_calculateGeometry hvalid inodeCount.toNat_lt hgeo
  have hmounted := hformatted.mounted hvalid hfresh.features
  exact ⟨_, Prod.ext hok rfl, hmounted.run_mount, hformatted.disk.view⟩

theorem format_then_mount_small : ∃ image',
    (mount smallDevice).run image' = (.ok smallFileSystem, image') :=
  have ⟨image', _, hmount, _⟩ :=
    @format_then_mount smallDevice smallGeometry 4 (by decide) (by decide) fun _ => Buffer.zero
  ⟨image', hmount⟩

/-! ## Climbing -/

variable {volume : Volume}

theorem Tree.exists_top (h : Tree volume) (inodeId : ℕ) :
    ∃ top, Relation.ReflTransGen volume.Parent top inodeId ∧ ¬ volume.Attached top := by
  induction inodeId using h.acyclic.induction with
  | _ inodeId ih =>
    by_cases hatt : volume.Attached inodeId
    · obtain ⟨parentId, hpar⟩ := hatt
      obtain ⟨top, hreach, htop⟩ := ih parentId hpar
      exact ⟨top, hreach.tail hpar, htop⟩
    · exact ⟨inodeId, .refl, hatt⟩

theorem Readable.used_of_reflTransGen (h : Readable volume) {top inodeId : ℕ}
    (hreach : Relation.ReflTransGen volume.Parent top inodeId) {inode : Inode} {bytes : List UInt8}
    (hnode : volume inodeId = .used inode bytes) :
    ∃ inode bytes, volume top = .used inode bytes := by
  induction hreach using Relation.ReflTransGen.head_induction_on with
  | refl => exact ⟨inode, bytes, hnode⟩
  | head hpar =>
    obtain ⟨⟨directory, contents, hdir, -⟩, -⟩ := h.used_of_parent hpar
    exact ⟨directory, contents, hdir⟩

/-! ## Soundness -/

/-- In the image a successful mount leaves behind, every allocated inode owns the
blocks of its extent alone, every record is valid and refers to an inode of its
identity, names and parents are unique, every climb ends at the root or at an
orphan, the orphan flag tells the unattached inodes, and no copy of the selected
superblock carries an intent. -/
theorem mount_accepts_only_sound_images (device : Device) (image : Image) (fs : FileSystem)
    (image' : Image) (hmount : (mount device).run image = (.ok fs, image')) :
    (∀ inodeId status, view fs.geometry image' inodeId ≠ .bad status) ∧
    (∀ inodeId inode bytes, view fs.geometry image' inodeId = .used inode bytes →
      inode.size ≤ inode.extentBlocks * 512 ∧
      (∀ block ∈ inode.blocks, fs.geometry.dataStart ≤ block ∧ block < fs.geometry.totalBlocks ∧
        Marked fs.geometry image' block) ∧
      ∀ otherId other bytes', otherId ≠ inodeId →
        view fs.geometry image' otherId = .used other bytes' →
        Disjoint inode.blocks other.blocks) ∧
    (∀ directoryId directory bytes, view fs.geometry image' directoryId = .used directory bytes →
      directory.type = .directory → Spells bytes ((view fs.geometry image').entries directoryId)) ∧
    (∀ directoryId, ∀ entry ∈ (view fs.geometry image').entries directoryId,
      entry.inodeId ≠ rootInodeId ∧ ∃ child bytes,
        view fs.geometry image' entry.inodeId = .used child bytes ∧
        child.generation = entry.inodeGeneration ∧ child.type = entry.type) ∧
    (∀ directoryId, (((view fs.geometry image').entries directoryId).map (·.name)).Nodup) ∧
    (∀ directoryId directoryId' (index index' : ℕ) entry entry',
      ((view fs.geometry image').entries directoryId)[index]? = some entry →
      ((view fs.geometry image').entries directoryId')[index']? = some entry' →
      entry.inodeId = entry'.inodeId → directoryId = directoryId' ∧ index = index') ∧
    (∀ directoryId directory bytes, view fs.geometry image' directoryId = .used directory bytes →
      directory.type = .directory →
      ¬ Relation.TransGen (view fs.geometry image').Parent directoryId directoryId ∧
      ∃ top, Relation.ReflTransGen (view fs.geometry image').Parent top directoryId ∧
        (top = rootInodeId ∨ (¬ (view fs.geometry image').Attached top ∧
          ∃ inode bytes, view fs.geometry image' top = .used inode bytes ∧
            inode.flags = inodeFlagOrphan))) ∧
    (∀ inodeId inode bytes, view fs.geometry image' inodeId = .used inode bytes →
      inodeId ≠ rootInodeId →
      (¬ (view fs.geometry image').Attached inodeId ↔ inode.flags = inodeFlagOrphan)) ∧
    ∀ block < 2, ∀ copy, readSuperblockCopy device image' block = .ok copy →
      copy.geometry = fs.geometry → copy.move = none := by
  obtain ⟨rfl, hmounted⟩ := mounted_of_run hmount
  have howns := hmounted.consistent.owns
  have htree := hmounted.consistent.tree
  have hnormalized : Normalized (view fs.geometry image') := hmounted.consistent.normalized
  refine ⟨htree.slots, ?_, fun _ _ _ => htree.spells, ?_, htree.names, ?_, ?_, ?_, ?_⟩
  · intro inodeId inode bytes hview
    refine ⟨?_, fun block hblock => ?_, fun otherId other bytes' hne hother => ?_⟩
    · rcases howns.extentValid hview with h | h <;> omega
    · obtain ⟨hlow, hhigh⟩ := (howns.extentValid hview).mem_data hblock
      exact ⟨hlow, hhigh, howns.marked_of_mem hview hblock⟩
    · have hdisjoint := howns.disjoint inodeId otherId hne.symm
      rwa [hview, hother] at hdisjoint
  · exact fun directoryId entry hentry => ⟨htree.not_root hentry, htree.refers hentry⟩
  · intro directoryId directoryId' index index' entry entry' hentry hentry' hchild
    have hparent : (view fs.geometry image').Parent directoryId entry.inodeId :=
      Volume.parent_iff.mpr ⟨entry, mem_of_getElem? hentry, rfl⟩
    have hparent' : (view fs.geometry image').Parent directoryId' entry.inodeId :=
      Volume.parent_iff.mpr ⟨entry', mem_of_getElem? hentry', hchild.symm⟩
    obtain rfl := htree.unique hparent hparent'
    refine ⟨rfl, ?_⟩
    have hnodup := htree.children directoryId
    obtain ⟨_, -⟩ := List.getElem?_eq_some_iff.mp hentry
    have hindex : index < (((view fs.geometry image').entries directoryId).map
        (·.inodeId)).length := by rwa [length_map]
    refine (getElem?_inj hindex hnodup).mp ?_
    rw [getElem?_map, getElem?_map, hentry, hentry', Option.map_some, Option.map_some, hchild]
  · intro directoryId directory bytes hview _
    refine ⟨Math.not_transGen_self htree.acyclic directoryId, ?_⟩
    obtain ⟨top, hreach, htop⟩ := htree.exists_top directoryId
    refine ⟨top, hreach, ?_⟩
    by_cases hroot : top = rootInodeId
    · exact .inl hroot
    · obtain ⟨inode, contents, hnode⟩ := htree.used_of_reflTransGen hreach hview
      exact .inr ⟨htop, inode, contents, hnode, (hnormalized hnode hroot).2 htop⟩
  · intro inodeId inode bytes hview hroot
    refine ⟨(hnormalized hview hroot).2, fun hflags hattached => ?_⟩
    rw [(hnormalized hview hroot).1 hattached] at hflags
    cases hflags
  · exact fun block hblock copy hcopy heq =>
      (hmounted.selects.intent copy ⟨block, hblock, hcopy⟩ heq).elim id id

/-- The small device after an inode was reserved that no record names. -/
def reservedImage : Image := ((allocateInode smallFileSystem .regular).run smallImage).2

theorem reservedImage_mount : ∃ image',
    (mount smallDevice).run reservedImage = (.ok smallFileSystem, image') ∧
      view smallGeometry reservedImage 2 = .used (pendingInode 2 1 .regular) [] ∧
      view smallGeometry image' 2 =
        .used { pendingInode 2 1 .regular with flags := inodeFlagOrphan, revision := 2 } [] := by
  have hrun : ((mount smallDevice).run reservedImage).1.map FileSystem.geometry =
        .ok smallGeometry ∧
      view smallGeometry reservedImage 2 = .used (pendingInode 2 1 .regular) [] ∧
      view smallGeometry ((mount smallDevice).run reservedImage).2 2 =
        .used { pendingInode 2 1 .regular with flags := inodeFlagOrphan, revision := 2 } [] := by
    decide +kernel
  exact ⟨_, run_mount_of_geometry hrun.1, hrun.2⟩

theorem mount_accepts_reserved_image : ∃ image',
    (mount smallDevice).run reservedImage = (.ok smallFileSystem, image') ∧
      ¬ (view smallGeometry image').Attached 2 ∧
      ∀ inodeId status, view smallGeometry image' inodeId ≠ .bad status := by
  obtain ⟨image', hmount, -, horphan⟩ := reservedImage_mount
  obtain ⟨hslots, -, -, -, -, -, -, hflags, -⟩ :=
    mount_accepts_only_sound_images smallDevice reservedImage smallFileSystem image' hmount
  exact ⟨image', hmount, (hflags 2 _ _ horphan (by decide)).mpr rfl, hslots⟩

/-- A second mount finds everything settled. It returns the same handle, and at no time does a
sector differ. -/
theorem mount_idempotent (device : Device) (image : Image) (fs : FileSystem) (image' : Image)
    (hmount : (mount device).run image = (.ok fs, image')) :
    (mount device).run image' = (.ok fs, image') ∧
      ∀ cut, (mount device).crash image' cut = image' := by
  obtain ⟨rfl, hmounted⟩ := mounted_of_run hmount
  have hwp : (mount fs.device).wp .reliable (fun _ _ => True) (fun _ _ => True) (· = image')
      image' := hmounted.mount_wp trivial
  exact ⟨hmounted.run_mount, fun cut => hwp.crash rfl cut⟩

/-- The first mount writes here, the second one does not. -/
theorem mount_idempotent_reserved : ∃ image', image' ≠ reservedImage ∧
    (mount smallDevice).run reservedImage = (.ok smallFileSystem, image') ∧
    (mount smallDevice).run image' = (.ok smallFileSystem, image') ∧
      ∀ cut, (mount smallDevice).crash image' cut = image' := by
  obtain ⟨image', hmount, hreserved, horphan⟩ := reservedImage_mount
  refine ⟨image', ?_, hmount, mount_idempotent _ _ _ _ hmount⟩
  rintro rfl
  rw [hreserved] at horphan
  exact absurd horphan (by decide)

end Kurogane.KuroFS
