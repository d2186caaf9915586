/-
# The mount table and the open-file table

The invariant that couples the two tables of the virtual file system with the files
open at its backends. It is proved for the few changes that the calls make: a slot is
filled, an open file is adjusted, a mount or an open file is retired.
-/

import Kurogane.Vfs.Vfs
import Mathlib.Algebra.BigOperators.Group.Finset.Basic

namespace Kurogane.Vfs

open Function

open Finset

open Math Call

variable {ε : Type} {world world' : World ε}

/-! ## Backend files -/

def outstanding : List BackendEvent → Multiset BackendKey
  | [] => 0
  | .opened key :: rest => key ::ₘ outstanding rest
  | .closed key :: rest => (outstanding rest).erase key

/-- What was closed was open. -/
def ClosedOnce : List BackendEvent → Prop
  | [] => True
  | .opened _ :: rest => ClosedOnce rest
  | .closed key :: rest => key ∈ outstanding rest ∧ ClosedOnce rest

def OpenFile.keys (file : OpenFile) : Multiset BackendKey := if file.active then {file.key} else 0

def State.backendKeys (state : State ε) : Multiset BackendKey :=
  ∑ slot ∈ Finset.range maxOpenFiles, (state.openFiles slot).keys

section Tables

variable (state : State ε)

@[simp]
theorem withMount_openFiles (slot : ℕ) (mount : Mount ε) :
    (state.withMount slot mount).openFiles = state.openFiles := rfl

@[simp]
theorem withMount_mounts (slot other : ℕ) (mount : Mount ε) :
    (state.withMount slot mount).mounts other = if other = slot then mount else
      state.mounts other :=
  update_apply _ _ _ _

@[simp]
theorem withOpenFile_openFiles (slot other : ℕ) (file : OpenFile) :
    (state.withOpenFile slot file).openFiles other = if other = slot then file else
      state.openFiles other :=
  update_apply _ _ _ _

end Tables

theorem rootState_mounts (filesystem : FileSystem ε) (slot : ℕ) :
    (rootState filesystem).mounts slot =
      if slot = 0 then ⟨true, 1, [separator], some filesystem⟩ else {} := by
  simp only [rootState, update_apply]

variable {slot : ℕ}

theorem backendKeys_update (state : State ε) (hslot : slot < maxOpenFiles) (file : OpenFile) :
    (state.withOpenFile slot file).backendKeys + (state.openFiles slot).keys =
      state.backendKeys + file.keys := by
  have hmem := mem_range.mpr hslot
  rw [State.backendKeys, State.backendKeys, ← sum_erase_add _ _ hmem,
    ← sum_erase_add _ (fun slot => (state.openFiles slot).keys) hmem]
  have hrest : ∑ other ∈ (Finset.range maxOpenFiles).erase slot,
      (update state.openFiles slot file other).keys =
      ∑ other ∈ (Finset.range maxOpenFiles).erase slot, (state.openFiles other).keys := by
    refine sum_congr rfl fun other hother => ?_
    rw [update_of_ne (ne_of_mem_erase hother)]
  simp only [State.withOpenFile, hrest, update_self]
  rw [add_assoc, add_assoc, add_comm file.keys]

/-! ## The invariant -/

/-- A file system with the operations that its open files need. -/
def FileSystem.Serves (filesystem : FileSystem ε) : Prop :=
  filesystem.openFile.isSome → filesystem.closeFile.isSome

structure TableInvariant (state : State ε) (events : List BackendEvent) : Prop where
  blank : state.initialized = false →
    (∀ slot, state.mounts slot = {}) ∧ ∀ slot, state.openFiles slot = {}
  root : state.initialized →
    (state.mounts 0).active ∧ (state.mounts 0).path = [separator]
  distinct : ∀ slot slot', slot < maxMounts → slot' < maxMounts →
    (state.mounts slot).active → (state.mounts slot').active →
    (state.mounts slot).path = (state.mounts slot').path → slot = slot'
  canonical : ∀ slot, (state.mounts slot).active →
    ∃ components, IsCanonical components ∧
      (state.mounts slot).path = joinPath separator components
  serves : ∀ slot filesystem, (state.mounts slot).active →
    (state.mounts slot).filesystem = some filesystem → filesystem.Serves
  mounted : ∀ slot, (state.openFiles slot).active →
    (state.openFiles slot).mountSlot < maxMounts ∧
      (state.mounts (state.openFiles slot).mountSlot).active ∧
      (state.mounts (state.openFiles slot).mountSlot).generation =
        (state.openFiles slot).mountGeneration
  within : ∀ slot, (state.openFiles slot).active → slot < maxOpenFiles
  counted : ∀ slot, (state.openFiles slot).active →
    1 ≤ (state.openFiles slot).referenceCount
  openable : ∀ slot, (state.openFiles slot).active →
    ((state.mounts (state.openFiles slot).mountSlot).filesystem.bind
      FileSystem.openFile).isSome
  outstanding_eq : outstanding events = state.backendKeys
  closedOnce : ClosedOnce events

/-! ## Transitions -/

/-- Nothing but the backends changed. -/
structure World.Same (world' world : World ε) : Prop where
  state : world'.state = world.state
  events : world'.events = world.events

theorem World.Same.refl (world : World ε) : world.Same world := ⟨rfl, rfl⟩

/-- The file goes on being open: only its offset and its number of references may differ. -/
structure OpenFile.Adjusted (file' file : OpenFile) : Prop where
  active : file'.active = file.active
  generation : file'.generation = file.generation
  counted : 1 ≤ file.referenceCount → 1 ≤ file'.referenceCount
  mountSlot : file'.mountSlot = file.mountSlot
  mountGeneration : file'.mountGeneration = file.mountGeneration
  backendFile : file'.backendFile = file.backendFile

/-- What calls other than those that retire a slot may do to the tables. The number of references
to an open file changes in the given slots only. -/
inductive Transition (recounts : ℕ → Prop) (world : World ε) : World ε → Prop
  | idle {next : World ε} (hsame : next.Same world) : Transition recounts world next
  | boot {next : World ε} (filesystem : FileSystem ε) (hblank : world.state.initialized = false)
      (hserves : filesystem.Serves) (hstate : next.state = rootState filesystem)
      (hevents : next.events = world.events) : Transition recounts world next
  | mount {next : World ε} (slot : ℕ) (filesystem : FileSystem ε) (components : List Component)
      (hinitialized : world.state.initialized = true) (hslot : slot ≠ 0)
      (hfree : (world.state.mounts slot).active = false)
      (hgeneration : (world.state.mounts slot).generation ≠ uint32Max)
      (hcanonical : IsCanonical components) (hroot : joinPath separator components ≠ [separator])
      (hnew : ∀ other < maxMounts, other ≠ 0 → (world.state.mounts other).active = true →
        (world.state.mounts other).path ≠ joinPath separator components)
      (hserves : filesystem.Serves)
      (hstate : next.state = world.state.withMount slot
        ⟨true, (world.state.mounts slot).generation + 1, joinPath separator components,
          some filesystem⟩)
      (hevents : next.events = world.events) : Transition recounts world next
  | openFile {next : World ε} (slot : ℕ) (file : OpenFile) (hslot : slot < maxOpenFiles)
      (hinitialized : world.state.initialized = true)
      (hfree : (world.state.openFiles slot).active = false)
      (hlimit : (world.state.openFiles slot).generation ≠ uint32Max)
      (hactive : file.active = true)
      (hgeneration : file.generation = (world.state.openFiles slot).generation + 1)
      (hcount : file.referenceCount = 1) (hmountslot : file.mountSlot < maxMounts)
      (hmount : (world.state.mounts file.mountSlot).active = true)
      (hmounted : (world.state.mounts file.mountSlot).generation = file.mountGeneration)
      (hopen : ((world.state.mounts file.mountSlot).filesystem.bind FileSystem.openFile).isSome)
      (hstate : next.state = world.state.withOpenFile slot file)
      (hevents : next.events = .opened file.key :: world.events) : Transition recounts world next
  | adjust {next : World ε} (slot : ℕ) (file : OpenFile) (hslot : slot < maxOpenFiles)
      (hinitialized : world.state.initialized = true)
      (hadjusted : file.Adjusted (world.state.openFiles slot))
      (hcount : recounts slot ∨
        file.referenceCount = (world.state.openFiles slot).referenceCount)
      (hstate : next.state = world.state.withOpenFile slot file)
      (hevents : next.events = world.events) : Transition recounts world next

variable {filesystem : FileSystem ε}

namespace TableInvariant

variable {state : State ε} {events : List BackendEvent}

section

variable (hinv : TableInvariant state events)
include hinv

theorem initialized_of_mount (hact : (state.mounts slot).active) : state.initialized := by
  by_contra hblank
  rw [(hinv.blank (Bool.eq_false_iff.mpr hblank)).1 slot] at hact
  cases hact

theorem initialized_of_file (hact : (state.openFiles slot).active) : state.initialized := by
  by_contra hblank
  rw [(hinv.blank (Bool.eq_false_iff.mpr hblank)).2 slot] at hact
  cases hact

theorem boot (hblank : state.initialized = false)
    (hserves : filesystem.Serves) : TableInvariant (rootState filesystem) events := by
  have hmounts : ∀ slot, ((rootState filesystem).mounts slot).active → slot = 0 := by
    intro slot hact
    by_contra hne
    rw [rootState_mounts, if_neg hne] at hact
    cases hact
  have hzero : (rootState filesystem).mounts 0 = ⟨true, 1, [separator], some filesystem⟩ := by
    rw [rootState_mounts, if_pos rfl]
  have hkeys : (rootState filesystem).backendKeys = state.backendKeys := by
    refine sum_congr rfl fun slot _ => ?_
    rw [OpenFile.keys, OpenFile.keys, (hinv.blank hblank).2 slot]
    rfl
  refine ⟨nofun, fun _ => by rw [hzero]; exact ⟨rfl, rfl⟩,
    fun slot slot' _ _ hact hact' _ => (hmounts slot hact).trans
      (hmounts slot' hact').symm, fun slot hact => ?_, fun slot other hact hother => ?_,
    by rintro _ ⟨⟩, by rintro _ ⟨⟩, by rintro _ ⟨⟩, by rintro _ ⟨⟩,
      hinv.outstanding_eq.trans hkeys.symm,
    hinv.closedOnce⟩
  · rw [hmounts slot hact, hzero]
    exact ⟨[], isCanonical_nil, rfl⟩
  · rw [hmounts slot hact, hzero] at hother
    cases hother
    exact hserves

theorem setMount {mount : Mount ε} (hinit : state.initialized) (hslot : slot ≠ 0)
    (hunused : ∀ file, (state.openFiles file).active →
      (state.openFiles file).mountSlot ≠ slot)
    (hdistinct : mount.active → ∀ other < maxMounts, (state.mounts other).active →
      (state.mounts other).path ≠ mount.path)
    (hcanon : mount.active → ∃ components, IsCanonical components ∧
      mount.path = joinPath separator components)
    (hserves : ∀ filesystem, mount.active → mount.filesystem = some filesystem →
      filesystem.Serves) : TableInvariant (state.withMount slot mount) events := by
  refine ⟨fun hblank => absurd hinit (Bool.eq_false_iff.mp hblank), fun _ => ?_,
    fun left right hleft hright => ?_, fun other => ?_, fun other found => ?_, fun file hact =>
      ?_, hinv.within, hinv.counted, fun file hact => ?_, hinv.outstanding_eq,
    hinv.closedOnce⟩
  · rw [withMount_mounts, if_neg hslot.symm]
    exact hinv.root hinit
  · simp only [withMount_mounts]
    split <;> split <;> intro hact hact' hpath
    · next h h' => exact h.trans h'.symm
    · exact absurd hpath.symm (hdistinct hact right hright hact')
    · exact absurd hpath (hdistinct hact' left hleft hact)
    · exact hinv.distinct left right hleft hright hact hact' hpath
  · rw [withMount_mounts]
    split
    · exact hcanon
    · exact hinv.canonical other
  · rw [withMount_mounts]
    split
    · exact hserves found
    · exact hinv.serves other found
  · rw [withMount_openFiles] at hact ⊢
    rw [withMount_mounts, if_neg (hunused file hact)]
    exact hinv.mounted file hact
  · rw [withMount_openFiles] at hact ⊢
    rw [withMount_mounts, if_neg (hunused file hact)]
    exact hinv.openable file hact

end

variable {slot generation : ℕ}

theorem mount (hinv : TableInvariant state events) {components : List Component}
    (hinit : state.initialized) (hslot : slot ≠ 0) (hfree : (state.mounts slot).active = false)
    (hcanon : IsCanonical components) (hroot : joinPath separator components ≠ [separator])
    (hnew : ∀ other < maxMounts, other ≠ 0 → (state.mounts other).active →
      (state.mounts other).path ≠ joinPath separator components) (hserves : filesystem.Serves) :
    TableInvariant (state.withMount slot ⟨true, generation, joinPath separator components,
      some filesystem⟩) events := by
  refine hinv.setMount hinit hslot (fun file hact heq => ?_) (fun _ other hlt hact => ?_)
    (fun _ => ⟨components, hcanon, rfl⟩) ?_
  · have hmounted := (hinv.mounted file hact).2.1
    rw [heq, hfree] at hmounted
    cases hmounted
  · by_cases hzero : other = 0
    · rw [hzero, (hinv.root hinit).2]
      exact hroot.symm
    · exact hnew other hlt hzero hact
  · rintro _ - ⟨⟩
    exact hserves

theorem unmount (hinv : TableInvariant state events) (hslot : slot ≠ 0)
    (hact : (state.mounts slot).active)
    (hunused : ∀ file, (state.openFiles file).active → (state.openFiles file).mountSlot ≠ slot) :
    TableInvariant (state.withMount slot { generation }) events :=
  hinv.setMount (hinv.initialized_of_mount hact) hslot hunused (nofun) (nofun)
    (by rintro _ ⟨⟩)

variable {file : OpenFile}

section

variable (hinv : TableInvariant state events) (hslot : slot < maxOpenFiles)
include hinv hslot

section

variable (hinit : state.initialized)
include hinit

theorem setFile {events' : List BackendEvent} (hmounted : file.active → file.mountSlot < maxMounts ∧
      (state.mounts file.mountSlot).active ∧
      (state.mounts file.mountSlot).generation = file.mountGeneration)
    (hcount : file.active → 1 ≤ file.referenceCount) (hopen : file.active →
      ((state.mounts file.mountSlot).filesystem.bind FileSystem.openFile).isSome)
    (hevs : outstanding events' = (state.withOpenFile slot file).backendKeys)
    (honce : ClosedOnce events') : TableInvariant (state.withOpenFile slot file) events' := by
  refine { hinv with
    blank := fun hblank => absurd hinit (Bool.eq_false_iff.mp hblank), mounted := fun other => ?_
    within := fun other => ?_, counted := fun other => ?_, openable := fun other => ?_
    outstanding_eq := hevs, closedOnce := honce }
  · rw [withOpenFile_openFiles]
    split
    · exact hmounted
    · exact hinv.mounted other
  · rw [withOpenFile_openFiles]
    split
    · next heq =>
      rw [heq]
      exact fun _ => hslot
    · exact hinv.within other
  · rw [withOpenFile_openFiles]
    split
    · exact hcount
    · exact hinv.counted other
  rw [withOpenFile_openFiles]
  split
  · exact hopen
  · exact hinv.openable other

theorem openFile (hfree : (state.openFiles slot).active = false) (hact : file.active)
    (hcount : file.referenceCount = 1) (hmountslot : file.mountSlot < maxMounts)
    (hmount : (state.mounts file.mountSlot).active)
    (hmounted : (state.mounts file.mountSlot).generation = file.mountGeneration)
    (hopen : ((state.mounts file.mountSlot).filesystem.bind FileSystem.openFile).isSome) :
    TableInvariant (state.withOpenFile slot file) (.opened file.key :: events) := by
  refine hinv.setFile hslot hinit (fun _ => ⟨hmountslot, hmount, hmounted⟩)
    (fun _ => hcount.ge) (fun _ => hopen) ?_ hinv.closedOnce
  have hkeys := backendKeys_update state hslot file
  rw [OpenFile.keys, OpenFile.keys, hfree, hact, if_neg Bool.false_ne_true, if_pos rfl,
    add_zero] at hkeys
  rw [outstanding, hinv.outstanding_eq, hkeys, ← Multiset.singleton_add, add_comm]

theorem adjust (hadjusted : file.Adjusted (state.openFiles slot)) :
    TableInvariant (state.withOpenFile slot file) events := by
  have hkeys := backendKeys_update state hslot file
  have hfile : file.keys = (state.openFiles slot).keys := by
    rw [OpenFile.keys, OpenFile.keys, OpenFile.key, OpenFile.key, hadjusted.active,
      hadjusted.mountSlot, hadjusted.mountGeneration, hadjusted.backendFile]
  rw [hfile, add_left_inj] at hkeys
  refine hinv.setFile hslot hinit (fun hact => ?_) (fun hact => ?_) (fun hact => ?_)
    (hinv.outstanding_eq.trans hkeys.symm) hinv.closedOnce
  · rw [hadjusted.active] at hact
    rw [hadjusted.mountSlot, hadjusted.mountGeneration]
    exact hinv.mounted slot hact
  · rw [hadjusted.active] at hact
    exact hadjusted.counted (hinv.counted slot hact)
  · rw [hadjusted.active] at hact
    rw [hadjusted.mountSlot]
    exact hinv.openable slot hact

end

theorem release (hact : (state.openFiles slot).active) :
    TableInvariant (state.withOpenFile slot { generation })
      (.closed (state.openFiles slot).key :: events) := by
  have hkeys := backendKeys_update state hslot { generation }
  have hretired : ({ generation } : OpenFile).keys = 0 := rfl
  rw [hretired, add_zero, OpenFile.keys, hact, if_pos rfl, add_comm,
    Multiset.singleton_add] at hkeys
  refine hinv.setFile hslot (hinv.initialized_of_file hact) (nofun) (nofun)
    (nofun) ?_ ⟨?_, hinv.closedOnce⟩
  · rw [outstanding, hinv.outstanding_eq, ← hkeys, Multiset.erase_cons_head]
  · rw [hinv.outstanding_eq, ← hkeys]
    exact Multiset.mem_cons_self _ _

end

theorem step (hinv : TableInvariant world.state world.events)
    {recounts : ℕ → Prop} (hstep : Transition recounts world world') :
    TableInvariant world'.state world'.events := by
  cases hstep with
  | idle hsame =>
    rw [hsame.state, hsame.events]
    exact hinv
  | boot _ hblank hserves hstate hevs =>
    rw [hstate, hevs]
    exact hinv.boot hblank hserves
  | mount _ _ _ hinit hslot hfree _ hcanon hroot hnew hserves hstate hevs =>
      rw [hstate, hevs]
      exact hinv.mount hinit hslot hfree hcanon hroot hnew hserves
  | openFile _ _ hslot hinit hfree _ hact _ hcount hmountslot hmount hmounted hopen hstate hevs =>
      rw [hstate, hevs]
      exact hinv.openFile hslot hinit hfree hact hcount hmountslot hmount hmounted hopen
  | adjust _ _ hslot hinit hadjusted _ hstate hevs =>
    rw [hstate, hevs]
    exact hinv.adjust hslot hinit hadjusted

end TableInvariant

end Kurogane.Vfs
