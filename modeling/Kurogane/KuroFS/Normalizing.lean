/-
# Normalising the orphan flags

Before its checks `mount` makes the flag of every inode say whether a record
names it. A slot whose flag is right is passed over.
-/

import Kurogane.KuroFS.Inodes
import Kurogane.KuroFS.Mount
import Kurogane.KuroFS.Scanning

namespace Kurogane.KuroFS

open Storage

variable {fs : FileSystem} {image : Image} {mode : Mode} {held : Set ℕ}

namespace Volume

open Classical in
noncomputable def properFlags (volume : Volume) (inodeId : ℕ) : ℕ :=
  if volume.Attached inodeId then 0 else inodeFlagOrphan

def SettledAt (volume : Volume) (inodeId : ℕ) : Prop :=
  ∀ inode bytes, volume inodeId = .used inode bytes → inodeId ≠ rootInodeId →
    inode.flags = volume.properFlags inodeId

end Volume

section Settle

variable {volume : Volume} {inodeId : ℕ} {inode : Inode} {bytes : List UInt8}

theorem Volume.settledAt_of_not_used (h : ∀ inode bytes, volume inodeId ≠ .used inode bytes) :
    volume.SettledAt inodeId := fun inode bytes hnode => absurd hnode (h inode bytes)

theorem normalized_iff : Normalized volume ↔ ∀ inodeId, volume.SettledAt inodeId := by
  constructor
  · intro h inodeId inode bytes hnode hroot
    rw [Volume.properFlags]
    split
    next hatt => exact (h hnode hroot).1 hatt
    next hunatt => exact (h hnode hroot).2 hunatt
  intro h inodeId inode bytes hnode hroot
  have hflags := h inodeId inode bytes hnode hroot
  rw [Volume.properFlags] at hflags
  constructor
  · intro hatt
    rwa [if_pos hatt] at hflags
  · intro hunatt
    rwa [if_neg hunatt] at hflags

end Settle

/-! ## The loop -/

variable {onCrash : Image → Prop} {onError : Status → Image → Prop} {onValue : Unit → Image → Prop}
  {inodeId : ℕ}

section

variable (h : Sound fs.geometry held image)
include h

theorem Sound.normalizedInode_eq (ready : fs.Ready) (hid : inodeId ≠ 0)
    (hle : inodeId ≤ fs.geometry.inodeCount) :
    ((view fs.geometry image).SettledAt inodeId ∧ normalizedInode fs image inodeId = .ok none) ∨
      ∃ inode bytes, view fs.geometry image inodeId = .used inode bytes ∧
        ¬ (view fs.geometry image).SettledAt inodeId ∧
        normalizedInode fs image inodeId =
          .ok (some { inode with flags := (view fs.geometry image).properFlags inodeId }) := by
  rw [normalizedInode, readInode_eq ready hid hle]
  cases hnode : view fs.geometry image inodeId with
  | free =>
    exact .inl ⟨Volume.settledAt_of_not_used (by rw [hnode]; exact nofun), rfl⟩
  | bad status => exact absurd hnode (h.tree.slots inodeId status)
  | used inode bytes =>
    have hiff : (view fs.geometry image).SettledAt inodeId ↔
        (inodeId ≠ rootInodeId → inode.flags = (view fs.geometry image).properFlags inodeId) := by
      constructor
      · exact fun hsettled => hsettled inode bytes hnode
      intro hflags found contents hfound
      rw [hnode] at hfound
      cases hfound
      exact hflags
    rw [Node.inode, hiff]
    dsimp only
    rw [h.tree.flags hnode]
    simp only [Bool.not_true, Bool.false_eq_true, if_false]
    split
    next hroot =>
      subst hroot
      rw [if_neg (not_not.mpr (h.tree.rootFlags hnode))]
      exact .inl ⟨fun hne => absurd rfl hne, rfl⟩
    rename_i hroot
    rcases h.findUniqueParent_eq ready hroot with
      ⟨parentId, hfound, hpar⟩ | ⟨hnone, hunatt⟩
    on_goal 1 => rw [hfound, Volume.properFlags, if_pos ⟨parentId, hpar⟩]
    on_goal 2 => rw [hnone, Volume.properFlags, if_neg hunatt]
    all_goals
      dsimp only
      split
      next hflags => exact .inl ⟨fun _ => hflags, rfl⟩
      next hflags =>
        exact .inr ⟨inode, bytes, rfl, fun hsettled => hflags (hsettled hroot), rfl⟩

theorem Sound.normalizeSlot_of_settledAt (ready : fs.Ready) (hid : inodeId ≠ 0)
    (hle : inodeId ≤ fs.geometry.inodeCount) (hsettled : (view fs.geometry image).SettledAt inodeId)
    (hvalue : onValue () image) :
    (normalizeSlot fs inodeId).wp mode onValue onError onCrash image := by
  rcases h.normalizedInode_eq ready hid hle with ⟨-, hnone⟩ | ⟨_, _, -, hnot, -⟩
  · rw [normalizeSlot, Prog.wp_bind]
    exact Prog.wp_read_of_ok hnone hvalue
  · exact absurd hsettled hnot

/-- Where every flag is right, the loop writes nothing. -/
theorem Sound.normalizeLoop_of_normalized (ready : fs.Ready)
    (hnorm : Normalized (view fs.geometry image)) {remaining : ℕ} (hid : inodeId ≠ 0)
    (hcount : inodeId + remaining = fs.geometry.inodeCount + 1) (hvalue : onValue () image) :
    (normalizeLoop fs remaining inodeId).wp mode onValue onError onCrash image := by
  induction remaining generalizing inodeId with
  | zero => exact hvalue
  | succ _ ih =>
    rw [normalizeLoop, Prog.wp_bind]
    exact h.normalizeSlot_of_settledAt ready hid (by omega)
      (normalized_iff.mp hnorm inodeId) (ih (Nat.succ_ne_zero _) (by omega))

end

end Kurogane.KuroFS
