/-
# File updates and crashes

A write or a resize is cut after some of its sector writes, and the volume is
mounted again. Everything but the file is as before the call. The file has its old
bytes or its new ones, with one exception: a resize that grows a file inside an
extent longer than the new size needs shows what the extent held before.
-/

import Kurogane.KuroFS.FileData
import Kurogane.KuroFS.MountChecker

namespace Kurogane.KuroFS

open Storage Storage.Buffer Function

variable {fs : FileSystem} {image image' : Image} {inode current : Inode} {bytes : List UInt8}

/-! ## Volumes that stay mountable -/

variable {bytes' : List UInt8} {fresh : Set ℕ} {volume : Volume} {inodeId : ℕ}

theorem Mounted.becomes (h : Mounted fs image)
    (hbecomes : Becomes fs.geometry ∅ fresh image volume image') (htree : Tree volume)
    (hnorm : Normalized volume) : Mounted fs image' where
  toReady := h.toReady
  selects := h.selects.congr hbecomes.superblocks
  consistent := by
    have hview := hbecomes.view
    refine ⟨⟨hbecomes.owns_held, ?_⟩, ?_⟩
    · rwa [hview]
    · rwa [hview]
  ownership := h.ownership

theorem Mounted.quiet (h : Mounted fs image)
    (hquiet : Quiet fs.geometry ∅ fresh image image') : Mounted fs image' :=
  h.becomes hquiet h.consistent.tree h.consistent.normalized

/-- When no record changes, only the flag of the changed inode matters. -/
theorem Normalized.update (h : Normalized volume) (hflags : inodeId ≠ rootInodeId →
      (volume.Attached inodeId → current.flags = 0) ∧
        (¬ volume.Attached inodeId → current.flags = inodeFlagOrphan))
    (hents : (Node.used current bytes').entries = volume.entries inodeId) :
    Normalized (update volume inodeId (.used current bytes')) := by
  intro otherId other otherBytes hother hroot
  rw [Volume.Attached, Volume.parent_update_same hents]
  by_cases hself : otherId = inodeId
  · subst hself
    rw [update_self] at hother
    cases hother
    exact hflags hroot
  · rw [update_of_ne hself] at hother
    exact h hother hroot

theorem entries_of_revises (hreg : inode.type = .regular)
    (hrevises : inode.Revises current) : (Node.used current bytes').entries = [] := by
  rw [Node.entries, if_neg]
  rw [hrevises.type, hreg]
  decide

variable {updated : Inode}

theorem FileUpdate.mounted {result : List UInt8}
    (h : FileUpdate fs.geometry ∅ image inode result updated image') (hmounted : Mounted fs image)
    (hopen : OpenFile fs.geometry image inode bytes) : Mounted fs image' := by
  have hreg : inode.type ≠ .directory := by
    rw [hopen.regular]
    decide
  refine hmounted.becomes h.2 ?_ ?_
  · exact hmounted.consistent.tree.replace_same hopen.view
      (hmounted.consistent.tree.sameIdentity hopen.view h.1) fun htype => absurd htype hreg
  refine Normalized.update hmounted.consistent.normalized (fun hroot => ?_) ?_
  · rw [h.1.flags]
    exact hmounted.consistent.normalized hopen.view hroot
  rw [entries_of_revises hopen.regular h.1, Volume.entries_of_regular hopen.view hreg]

variable {geometry : Geometry} {held : Set ℕ}

section

variable {result : List UInt8}
  (h : FileUpdate geometry held image inode result updated image')
include h

theorem FileUpdate.view_self : view geometry image' inode.id = .used updated result := by
  rw [h.2.view, update_self]

theorem FileUpdate.view_other {otherId : ℕ} (hother : otherId ≠ inode.id) :
    view geometry image' otherId = view geometry image otherId := by
  rw [h.2.view, update_of_ne hother]

theorem FileUpdate.revision_ne : inode.revision ≠ 2 ^ 32 - 1 := by
  have hbound := (used_of_view h.view_self).2.2.1.revision
  have hrev := h.1.revision
  omega

end

/-! ## Requests -/

inductive FileRequest
  | write (offset : ℕ) (source : List UInt8)
  | resize (newSize : ℕ)

namespace FileRequest

def perform (fs : FileSystem) (inode : Inode) : FileRequest → KProg (Status × Inode) Inode
  | write offset source => writeInodeData fs inode offset source
  | resize newSize => resizeInode fs inode newSize

def result (bytes : List UInt8) : FileRequest → List UInt8
  | write offset source => written bytes offset source
  | resize newSize => Buffer.resize bytes newSize

/-- The request grows the file inside an extent that is longer than the new size
needs, and the extent has old bytes behind the end of the file. -/
def Exposes (image : Image) (inode current : Inode) : FileRequest → Prop
  | write _ _ => False
  | resize newSize => inode = current ∧ current.size < newSize ∧
      divideRoundUp newSize 512 < current.extentBlocks ∧ current.revision ≠ 2 ^ 32 - 1 ∧
      ∃ i, current.size ≤ i ∧ i < newSize ∧ extentByte image current.extentStart i ≠ 0

end FileRequest

/-- However many of the sector writes of `program` reach the device, the next mount
succeeds and finds the file with its old bytes or with `result`, and everything
else as it was. -/
def CrashAtomic (fs : FileSystem) (image : Image) (inodeId : ℕ) (bytes result : List UInt8)
    {E α : Type} (program : KProg E α) : Prop :=
  ∀ cut, ∃ fs' image', (mount fs.device).run (program.crash image cut) = (.ok fs', image') ∧
    (∃ inode contents, view fs'.geometry image' inodeId = .used inode contents ∧
      (contents = bytes ∨ contents = result)) ∧
    (∀ otherId, otherId ≠ inodeId →
      view fs'.geometry image' otherId = view fs.geometry image otherId) ∧
    ∀ directoryId, (view fs'.geometry image').entries directoryId =
      (view fs.geometry image).entries directoryId

variable {newSize : ℕ}

section Requests

variable {request : FileRequest}

theorem Mounted.frozen_iff (h : Mounted fs image)
    (hview : view fs.geometry image inodeId = .used inode bytes) :
    inode.Frozen fs.geometry ↔ inode.revision = 2 ^ 32 - 1 := by
  have hflags := h.consistent.tree.flags hview
  rw [Inode.Frozen, hflags, h.ownership]
  constructor
  · rintro (hlast | hinvalid | ⟨-, hmissing⟩)
    · exact hlast
    · cases hinvalid
    · cases hmissing
  · exact .inl

/-- What a cut of a request leaves behind. -/
theorem FileRequest.crash_spec (h : Mounted fs image) (request : FileRequest) (cut : ℕ) :
    Quiet fs.geometry ∅ ∅ image ((request.perform fs inode).crash image cut) ∨
      ∃ bytes updated, OpenFile fs.geometry image inode bytes ∧
        FileUpdate fs.geometry ∅ image inode
          (match request with
            | .write offset source => written bytes offset source
            | .resize newSize => resizedContents image inode newSize) updated
          ((request.perform fs inode).crash image cut) := by
  have howns := h.consistent.owns
  have hsame : Quiet fs.geometry ∅ ∅ image image := Quiet.refl (by rwa [Set.union_empty])
  cases request with
  | write offset source =>
    have hwrite : Updates .reliable fs.geometry ∅ image inode _ _ _ _ _ :=
      writeInodeData_wp h.toReady howns inode offset source
    exact Prog.wp.crash hwrite (.inl hsame) cut
  | resize newSize =>
    have hresize : Updates .reliable fs.geometry ∅ image inode _ _ _ _ _ :=
      resizeInode_wp h.toReady howns inode newSize
    exact Prog.wp.crash hresize (.inl hsame) cut

/-- The bytes a resize publishes are the right ones unless it exposes the slack of
the extent. -/
theorem resizedContents_eq_iff (hview : view fs.geometry image inode.id = .used inode bytes) :
    resizedContents image inode newSize = resize bytes newSize ↔
      (inode.size < newSize → divideRoundUp newSize 512 < inode.extentBlocks →
        ∀ i, inode.size ≤ i → i < newSize → extentByte image inode.extentStart i = 0) := by
  have hlen := length_of_view hview
  refine ⟨fun heq hgrows hslack i hlow hi => ?_, fun hzero => ?_⟩
  · rw [resizedContents, if_pos ⟨hgrows, hslack⟩] at heq
    have hbyte := ofList_contents image { inode with size := newSize } hi
    rw [heq, ofList_resize, if_pos hi, ofList_of_le (by omega)] at hbyte
    exact hbyte.symm
  rw [resizedContents, ← (used_of_view hview).2.2.2.2]
  split
  next hslack =>
    refine contents_eq_resize { inode with size := newSize } fun i hi => ?_
    change extentByte image inode.extentStart i = _
    by_cases hlow : i < inode.size
    · exact extentByte_eq_ofList hview hlow
    · rw [ofList_of_le (by omega)]
      exact hzero hslack.1 hslack.2 i (by omega) hi
  · rfl

theorem FileUpdate.resizedContents_eq {result : List UInt8}
    (h : FileUpdate fs.geometry ∅ image inode result updated image')
    (hview : view fs.geometry image inode.id = .used inode bytes)
    (hexposes : ¬ (FileRequest.resize newSize).Exposes image inode inode) :
    resizedContents image inode newSize = resize bytes newSize := by
  refine (resizedContents_eq_iff hview).mpr fun hgrows hslack i hlow hi => ?_
  by_contra hbyte
  exact hexposes ⟨rfl, hgrows, hslack, h.revision_ne, i, hlow, hi, hbyte⟩

/-- A request that exposes nothing publishes its result, or nothing at all. -/
theorem FileRequest.crash_of_not_exposes (h : Mounted fs image) (request : FileRequest) (cut : ℕ)
    (hview : view fs.geometry image inode.id = .used current bytes)
    (hexposes : ¬ request.Exposes image inode current) :
    Quiet fs.geometry ∅ ∅ image ((request.perform fs inode).crash image cut) ∨
      ∃ updated, OpenFile fs.geometry image inode bytes ∧
        FileUpdate fs.geometry ∅ image inode (request.result bytes) updated
          ((request.perform fs inode).crash image cut) := by
  rcases request.crash_spec h cut with hquiet | ⟨_, updated, hopen, hupd⟩
  · exact .inl hquiet
  have hnode := hopen.view
  rw [hview] at hnode
  cases hnode
  refine .inr ⟨updated, hopen, ?_⟩
  cases request with
  | write => exact hupd
  | resize =>
    rwa [FileRequest.result, ← hupd.resizedContents_eq hview hexposes]

/-- A request that exposes old bytes carries on to the end. -/
theorem FileRequest.run_of_exposes (h : Mounted fs image)
    (hview : view fs.geometry image inode.id = .used current bytes) (hreg : current.type = .regular)
    (hexposes : (FileRequest.resize newSize).Exposes image inode current) :
    ∃ updated, ((resizeInode fs inode newSize).run image).1 = .ok updated ∧
      FileUpdate fs.geometry ∅ image inode (resizedContents image inode newSize) updated
        ((resizeInode fs inode newSize).run image).2 := by
  obtain ⟨rfl, _, _, hrev, -⟩ := hexposes
  have hopen : OpenFile fs.geometry image inode bytes := ⟨hview, hreg⟩
  have hresize : Updates .reliable fs.geometry ∅ image inode _ _ _ _ _ :=
    resizeInode_wp h.toReady h.consistent.owns inode newSize
  have hrefused : ¬ ResizeRefused fs image inode newSize := by
    rintro (hclosed | hfrozen | ⟨_, -⟩)
    · exact hclosed bytes hopen
    · exact hrev ((h.frozen_iff hopen.view).mp hfrozen)
    · omega
  have hvalue := Prog.wp.exists_value (Prog.wp.mono hresize (fun _ _ hvalue => hvalue)
    (fun _ _ herror => ?_) fun _ hcrash => hcrash)
  · obtain ⟨updated, hok, _, -, _ | hupd⟩ := hvalue
    · omega
    · exact ⟨updated, hok, hupd⟩
  · rcases herror with ⟨-, hfault | hreason⟩ | ⟨hfault, -⟩
    · cases hfault
    · exact hrefused hreason
    · cases hfault

end Requests

/-! ## A file with slack -/

/-- A file of one byte in an extent of three blocks, with a byte left behind its
end. -/
def prepareSlack (fs : FileSystem) : KProg Status Inode := do
  let first ← allocateBlocks fs 3
  writeExtentData fs first 3 5 [1]
  let (fs, inodeId) ← Prog.mapError Prod.fst <| allocateInode fs .regular
  let inode ← .read fun image => readInode fs image inodeId
  updateInode fs { inode with
    flags := inodeFlagOrphan
    size := 1
    extentStart := first
    extentBlocks := 3 }

def slackFile : Inode :=
  { pendingInode 2 1 .regular with
    flags := inodeFlagOrphan
    size := 1
    revision := 2
    extentStart := 4
    extentBlocks := 3 }

theorem smallImage_allocatable : Allocatable smallGeometry smallImage 3 := by
  refine ⟨by decide, by decide, 4, by decide, by decide, fun block hblk hmark => ?_⟩
  rw [mem_extent] at hblk
  have hlow := (smallImage_formatted.marked block (show block < 64 by omega)).mp hmark
  exact absurd (show block < 4 from hlow) (by omega)

theorem exists_slackFile : ∃ inode, ((prepareSlack smallFileSystem).run smallImage).1 = .ok inode ∧
    Mounted smallFileSystem ((prepareSlack smallFileSystem).run smallImage).2 ∧
    view smallGeometry ((prepareSlack smallFileSystem).run smallImage).2 inode.id =
      .used inode [0] ∧ inode.type = .regular ∧ inode.size = 1 ∧ inode.extentBlocks = 3 ∧
    inode.revision = 2 ∧
    extentByte ((prepareSlack smallFileSystem).run smallImage).2 inode.extentStart 5 = 1 :=
  have hrun : ((prepareSlack smallFileSystem).run smallImage).1 = .ok slackFile ∧
      view smallGeometry ((prepareSlack smallFileSystem).run smallImage).2 slackFile.id =
        .used slackFile [0] ∧
      extentByte ((prepareSlack smallFileSystem).run smallImage).2 slackFile.extentStart 5 = 1 := by
    decide +kernel
  ⟨slackFile, hrun.1, mounted_of_trace (by decide +kernel), hrun.2.1, rfl, rfl, rfl, rfl, hrun.2.2⟩

/-! ## Atomicity -/

theorem crash_length {E α : Type} (program : KProg E α) (image : Image) :
    program.crash image (program.trace image).length = (program.run image).2 := by
  rw [Prog.crash, List.take_length, Prog.applyWrites_trace]

/-- A request that exposes old bytes shows them after a crash behind its last
write. -/
theorem FileRequest.mount_of_exposes (h : Mounted fs image)
    (hview : view fs.geometry image inode.id = .used current bytes) (hreg : current.type = .regular)
    (hexposes : (FileRequest.resize newSize).Exposes image inode current) :
    ∃ cut crashed updated, (mount fs.device).run ((resizeInode fs inode newSize).crash image cut) =
        (.ok fs, crashed) ∧
      view fs.geometry crashed inode.id = .used updated (resizedContents image inode newSize) := by
  obtain ⟨updated, -, hupd⟩ := FileRequest.run_of_exposes h hview hreg hexposes
  obtain ⟨rfl, -⟩ := hexposes
  refine ⟨((resizeInode fs inode newSize).trace image).length, _, updated, ?_, hupd.view_self⟩
  rw [crash_length]
  exact (hupd.mounted h ⟨hview, hreg⟩).run_mount

/-- Writes and resizes of a file are atomic under crashes, except for a resize that
exposes old bytes of the extent. -/
theorem file_request_crashAtomic_iff (h : Mounted fs image) (inode current : Inode)
    (bytes : List UInt8) (hview : view fs.geometry image inode.id = .used current bytes)
    (hregular : current.type = .regular) (request : FileRequest) :
    CrashAtomic fs image inode.id bytes (request.result bytes) (request.perform fs inode) ↔
      ¬ request.Exposes image inode current := by
  constructor
  · intro hatomic hexposes
    cases request with
    | write => exact hexposes
    | resize newSize =>
      obtain ⟨cut, _, updated, hmount, hshown⟩ :=
        FileRequest.mount_of_exposes h hview hregular hexposes
      obtain ⟨rfl, hgrows, hslack, -, i, hlow, hi, hbyte⟩ := hexposes
      obtain ⟨_, _, hmount', ⟨_, _, hfound, hcontents⟩, -⟩ := hatomic cut
      rw [FileRequest.perform, hmount] at hmount'
      cases hmount'
      rw [hshown] at hfound
      cases hfound
      rcases hcontents with hold | hnew
      · have hlength := length_resizedContents image inode newSize
        rw [hold, length_of_view hview] at hlength
        omega
      · exact hbyte ((resizedContents_eq_iff hview).mp hnew hgrows hslack i hlow hi)
  · intro hexposes cut
    rcases request.crash_of_not_exposes h cut hview hexposes with hquiet | ⟨updated, hopen, hupdate⟩
    · refine ⟨fs, _, (h.quiet hquiet).run_mount, ?_⟩
      rw [hquiet.view]
      exact ⟨⟨current, bytes, hview, .inl rfl⟩, fun _ _ => rfl, fun _ => rfl⟩
    refine ⟨fs, _, (hupdate.mounted h hopen).run_mount,
      ⟨updated, _, hupdate.view_self, .inr rfl⟩, fun _ => hupdate.view_other, ?_⟩
    intro directoryId
    rw [hupdate.2.view, Volume.entries_update]
    split
    next hself =>
      rw [hself, entries_of_revises hopen.regular hupdate.1, Volume.entries_of_regular hopen.view]
      rw [hopen.regular]
      decide
    · rfl

theorem slack_write_crashAtomic : ∃ inode,
    Mounted smallFileSystem ((prepareSlack smallFileSystem).run smallImage).2 ∧
    view smallGeometry ((prepareSlack smallFileSystem).run smallImage).2 inode.id =
      .used inode [0] ∧ inode.type = .regular ∧
    CrashAtomic smallFileSystem ((prepareSlack smallFileSystem).run smallImage).2 inode.id [0]
      [0, 0, 7] (writeInodeData smallFileSystem inode 2 [7]) := by
  obtain ⟨inode, -, hmounted, hview, hregular, -⟩ := exists_slackFile
  exact ⟨inode, hmounted, hview, hregular, (file_request_crashAtomic_iff hmounted inode inode [0]
    hview hregular (.write 2 [7])).mpr id⟩

theorem slack_exposes (hsize : inode.size = 1) (hblks : inode.extentBlocks = 3)
    (hrev : inode.revision = 2) (hbyte : extentByte image inode.extentStart 5 = 1) :
    (FileRequest.resize 600).Exposes image inode inode ∧
      ofList (resizedContents image inode 600) 5 = 1 ∧ ofList (resize [0] 600) 5 = 0 := by
  have hslack : divideRoundUp 600 512 < inode.extentBlocks := by
    rw [hblks]
    decide
  refine ⟨⟨rfl, by omega, hslack, by omega, 5, by omega, by decide, ?_⟩, ?_, ?_⟩
  · rw [hbyte]
    decide
  · rw [resizedContents, if_pos ⟨by omega, hslack⟩]
    exact (ofList_contents _ { inode with size := 600 } (show 5 < 600 by decide)).trans hbyte
  · rfl

/-- Growing the file of one byte to 600 bytes shows the byte left behind its end,
where a zero should be. -/
theorem resize_exposes_old_byte : ∃ inode,
    ((prepareSlack smallFileSystem).run smallImage).1 = .ok inode ∧
    Mounted smallFileSystem ((prepareSlack smallFileSystem).run smallImage).2 ∧
    view smallGeometry ((prepareSlack smallFileSystem).run smallImage).2 inode.id =
      .used inode [0] ∧ inode.type = .regular ∧
    ∃ cut crashed updated contents, (mount smallDevice).run ((resizeInode smallFileSystem inode
        600).crash ((prepareSlack smallFileSystem).run smallImage).2 cut) =
        (.ok smallFileSystem, crashed) ∧
      view smallGeometry crashed inode.id = .used updated contents ∧ contents.length = 600 ∧
      ofList contents 5 = 1 ∧ ofList (resize [0] 600) 5 = 0 := by
  obtain ⟨inode, hrun, hmounted, hview, hregular, hsize, hblocks, hrevision, hbyte⟩ :=
    exists_slackFile
  refine ⟨inode, hrun, hmounted, hview, hregular, ?_⟩
  obtain ⟨hexposes, hshows, hzero⟩ := slack_exposes hsize hblocks hrevision hbyte
  obtain ⟨cut, crashed, updated, hmount, hshown⟩ :=
    FileRequest.mount_of_exposes hmounted hview hregular hexposes
  exact ⟨cut, crashed, updated, _, hmount, hshown, length_resizedContents _ _ _, hshows, hzero⟩

end Kurogane.KuroFS
