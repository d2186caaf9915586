/-
# The namespace of a volume

A volume is read as a forest: directories list named children, and `Parent`
relates a directory to the inodes its records name. `Tree` says what holds of
every volume KuroFS exposes: all records can be read and refer to inodes of the
recorded identity, names and children are not repeated, no inode has two parents,
and climbing the parents ends.
-/

import Kurogane.KuroFS.Records
import Kurogane.KuroFS.Volume
import Kurogane.Math.Forest

namespace Kurogane.KuroFS

open Storage Storage.Buffer Function

def Node.entries : Node → List DirectoryEntry
  | .used inode bytes => if inode.type = .directory then entriesOf bytes else []
  | .free _ => []
  | .bad _ => []

namespace Volume

def entries (volume : Volume) (inodeId : ℕ) : List DirectoryEntry := (volume inodeId).entries

def Parent (volume : Volume) (directoryId childId : ℕ) : Prop :=
  childId ∈ (volume.entries directoryId).map (·.inodeId)

def Attached (volume : Volume) (inodeId : ℕ) : Prop :=
  ∃ directoryId, volume.Parent directoryId inodeId

def Refers (volume : Volume) (entry : DirectoryEntry) : Prop :=
  ∃ child bytes, volume entry.inodeId = .used child bytes ∧
    child.generation = entry.inodeGeneration ∧ child.type = entry.type

end Volume

/-- Every inode and every record makes sense by itself. -/
structure Readable (volume : Volume) : Prop where
  slots : ∀ inodeId status, volume inodeId ≠ .bad status
  flags : ∀ {inodeId inode bytes}, volume inodeId = .used inode bytes →
    validInodeOwnershipFlags inode.flags
  linkCount : ∀ {inodeId inode bytes}, volume inodeId = .used inode bytes → inode.linkCount = 1
  rootFlags : ∀ {inode bytes}, volume rootInodeId = .used inode bytes → inode.flags = 0
  spells : ∀ {inodeId inode bytes}, volume inodeId = .used inode bytes →
    inode.type = .directory → Spells bytes (volume.entries inodeId)
  refers : ∀ {inodeId entry}, entry ∈ volume.entries inodeId → volume.Refers entry
  not_root : ∀ {inodeId entry}, entry ∈ volume.entries inodeId → entry.inodeId ≠ rootInodeId
  names : ∀ inodeId, ((volume.entries inodeId).map (·.name)).Nodup
  children : ∀ inodeId, ((volume.entries inodeId).map (·.inodeId)).Nodup

/-- The records form a forest with a root directory. -/
structure Tree (volume : Volume) : Prop extends Readable volume where
  root : ∃ inode bytes, volume rootInodeId = .used inode bytes ∧ inode.type = .directory
  unique : ∀ {directoryId directoryId' childId}, volume.Parent directoryId childId →
    volume.Parent directoryId' childId → directoryId = directoryId'
  acyclic : WellFounded volume.Parent

/-- The flag of every inode but the root says whether a record names it. -/
def Normalized (volume : Volume) : Prop :=
  ∀ {inodeId inode bytes}, volume inodeId = .used inode bytes → inodeId ≠ rootInodeId →
    (volume.Attached inodeId → inode.flags = 0) ∧
      (¬ volume.Attached inodeId → inode.flags = inodeFlagOrphan)

variable {node : Node} {directoryId childId : ℕ}

section Basics

variable {volume : Volume} {inodeId : ℕ} {inode : Inode} {bytes : List UInt8}

theorem Volume.entries_of_directory (hnode : volume inodeId = .used inode bytes)
    (htype : inode.type = .directory) : volume.entries inodeId = entriesOf bytes := by
  rw [Volume.entries, hnode, Node.entries, if_pos htype]

theorem Volume.entries_of_regular (hnode : volume inodeId = .used inode bytes)
    (htype : inode.type ≠ .directory) : volume.entries inodeId = [] := by
  rw [Volume.entries, hnode, Node.entries, if_neg htype]

theorem Volume.directory_of_mem {entry : DirectoryEntry} (hentry : entry ∈ volume.entries inodeId) :
    ∃ inode bytes, volume inodeId = .used inode bytes ∧ inode.type = .directory := by
  rw [Volume.entries] at hentry
  cases hnode : volume inodeId with
  | free =>
    rw [hnode] at hentry
    cases hentry
  | bad =>
    rw [hnode] at hentry
    cases hentry
  | used inode bytes =>
    refine ⟨inode, bytes, rfl, ?_⟩
    rw [hnode, Node.entries] at hentry
    split at hentry
    · assumption
    · cases hentry

theorem Volume.parent_iff :
    volume.Parent directoryId childId ↔
      ∃ entry ∈ volume.entries directoryId, entry.inodeId = childId :=
  List.mem_map

theorem Readable.used_of_parent (h : Readable volume) (hpar : volume.Parent directoryId childId) :
    (∃ inode bytes, volume directoryId = .used inode bytes ∧ inode.type = .directory) ∧
      ∃ child bytes, volume childId = .used child bytes := by
  obtain ⟨_, hentry, rfl⟩ := Volume.parent_iff.mp hpar
  obtain ⟨child, bytes, hchild, -⟩ := h.refers hentry
  exact ⟨Volume.directory_of_mem hentry, child, bytes, hchild⟩

theorem Readable.not_parent_root (h : Readable volume) (directoryId : ℕ) :
    ¬ volume.Parent directoryId rootInodeId := by
  intro hpar
  obtain ⟨_, hentry, hid⟩ := Volume.parent_iff.mp hpar
  exact h.not_root hentry hid

theorem Readable.length_entries (h : Readable volume) (hnode : volume inodeId = .used inode bytes)
    (htype : inode.type = .directory) : bytes.length = (volume.entries inodeId).length * 128 :=
  (h.spells hnode htype).length

end Basics

/-! ## Replacing one node -/

section Update

variable {volume : Volume} {inodeId : ℕ} {inode inode' : Inode} {bytes bytes' : List UInt8}

theorem Volume.entries_update (volume : Volume) (inodeId : ℕ) (node : Node) (other : ℕ) :
    Volume.entries (update volume inodeId node) other =
      if other = inodeId then node.entries else volume.entries other := by
  rw [Volume.entries, update_apply]
  split <;> rfl

theorem Volume.entries_update_same (h : node.entries = volume.entries inodeId) :
    Volume.entries (update volume inodeId node) = volume.entries := by
  funext other
  rw [Volume.entries_update, h]
  split
  next hid => rw [hid]
  · rfl

theorem Volume.parent_update_same (h : node.entries = volume.entries inodeId) :
    Volume.Parent (update volume inodeId node) = volume.Parent := by
  funext directoryId childId
  rw [Volume.Parent, Volume.entries_update_same h, Volume.Parent]

structure SameIdentity (inodeId : ℕ) (inode inode' : Inode) : Prop where
  type : inode'.type = inode.type
  generation : inode'.generation = inode.generation
  linkCount : inode'.linkCount = inode.linkCount
  flags : validInodeOwnershipFlags inode'.flags
  rootFlags : inodeId = rootInodeId → inode'.flags = 0

structure Inode.Revises (old new : Inode) : Prop where
  id : new.id = old.id
  type : new.type = old.type
  flags : new.flags = old.flags
  linkCount : new.linkCount = old.linkCount
  generation : new.generation = old.generation
  revision : new.revision = old.revision + 1

theorem Readable.sameIdentity (h : Readable volume) (hnode : volume inodeId = .used inode bytes)
    (hrevises : inode.Revises inode') : SameIdentity inodeId inode inode' where
  type := hrevises.type
  generation := hrevises.generation
  linkCount := hrevises.linkCount
  flags := by
    rw [hrevises.flags]
    exact h.flags hnode
  rootFlags := fun hroot => by
    subst hroot
    rw [hrevises.flags]
    exact h.rootFlags hnode

theorem Tree.update (h : Tree volume)
    (hents : (Node.used inode bytes).entries = volume.entries inodeId)
    (hflags : validInodeOwnershipFlags inode.flags = true) (hlink : inode.linkCount = 1)
    (hroot : inodeId = rootInodeId → inode.flags = 0 ∧ inode.type = .directory)
    (hspells : inode.type = .directory → Spells bytes (volume.entries inodeId))
    (hrefers : ∀ entry, volume.Refers entry → entry.inodeId = inodeId →
      inode.generation = entry.inodeGeneration ∧ inode.type = entry.type) :
    Tree (update volume inodeId (.used inode bytes)) := by
  have hlist := Volume.entries_update_same hents
  have hpar := Volume.parent_update_same hents
  have hused : ∀ {other found contents},
      Function.update volume inodeId (.used inode bytes) other = .used found contents →
      volume other = .used found contents ∨
        (other = inodeId ∧ found = inode ∧ contents = bytes) := by
    intro other found contents hfound
    rw [update_apply] at hfound
    split at hfound
    next hid =>
      cases hfound
      exact .inr ⟨hid, rfl, rfl⟩
    · exact .inl hfound
  refine ⟨⟨?_, ?_, ?_, ?_, ?_, ?_, ?_, ?_, ?_⟩, ?_, ?_, ?_⟩
  · intro other status
    rw [update_apply]
    split
    · exact nofun
    · exact h.slots other status
  · intro other found contents hfound
    obtain hfound | ⟨-, rfl, -⟩ := hused hfound
    · exact h.flags hfound
    · exact hflags
  · intro other found contents hfound
    obtain hfound | ⟨-, rfl, -⟩ := hused hfound
    · exact h.linkCount hfound
    · exact hlink
  · intro found contents hfound
    obtain hfound | ⟨hid, rfl, -⟩ := hused hfound
    · exact h.rootFlags hfound
    · exact (hroot hid.symm).1
  · intro other found contents hfound htype
    rw [hlist]
    obtain hfound | ⟨rfl, rfl, rfl⟩ := hused hfound
    · exact h.spells hfound htype
    · exact hspells htype
  · intro other entry hentry
    rw [hlist] at hentry
    by_cases hid : entry.inodeId = inodeId
    · exact ⟨inode, bytes, by rw [hid, update_self], hrefers entry (h.refers hentry) hid⟩
    · obtain ⟨child, contents, hchild, hidentity⟩ := h.refers hentry
      exact ⟨child, contents, by rw [update_of_ne hid, hchild], hidentity⟩
  · rw [hlist]
    exact h.not_root
  · rw [hlist]
    exact h.names
  · rw [hlist]
    exact h.children
  · by_cases hid : rootInodeId = inodeId
    · exact ⟨inode, bytes, by rw [hid, update_self], (hroot hid.symm).2⟩
    · obtain ⟨root, contents, hfound, htype⟩ := h.root
      exact ⟨root, contents, by rw [update_of_ne hid, hfound], htype⟩
  · rw [hpar]
    exact h.unique
  · rw [hpar]
    exact h.acyclic

theorem Tree.replace_same (h : Tree volume) (hnode : volume inodeId = .used inode bytes)
    (hsame : SameIdentity inodeId inode inode')
    (hbytes : inode.type = .directory → Spells bytes' (volume.entries inodeId)) :
    Tree (Function.update volume inodeId (.used inode' bytes')) := by
  have hidentified : ∀ {found contents}, volume inodeId = .used found contents → found = inode := by
    intro found contents hfound
    rw [hnode] at hfound
    cases hfound
    rfl
  refine h.update ?_ hsame.flags (hsame.linkCount.trans (h.linkCount hnode)) (fun hid => ?_)
    (hsame.type ▸ hbytes) fun entry hentry hid => ?_
  · rw [Node.entries, hsame.type]
    split
    next htype => exact (hbytes htype).entriesOf_eq
    next htype => rw [Volume.entries_of_regular hnode htype]
  · obtain ⟨_, contents, hroot, htype⟩ := h.root
    rw [← hid] at hroot
    exact ⟨hsame.rootFlags hid, hsame.type.trans (hidentified hroot ▸ htype)⟩
  obtain ⟨_, _, hchild, hgen, htype⟩ := hentry
  rw [hid] at hchild
  obtain rfl := hidentified hchild
  exact ⟨hsame.generation.trans hgen, hsame.type.trans htype⟩

end Update

end Kurogane.KuroFS
