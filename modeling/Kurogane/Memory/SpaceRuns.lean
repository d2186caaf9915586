/-
# Runs over several address spaces

Runs of creating, destroying and activating address spaces and of mapping and
unmapping pages in them. A run keeps the spaces isolated if it maps and unmaps
only below root entries that were empty when the spaces were created. Without
this condition an unmapping in a created space may free tables of the kernel.
-/

import Kurogane.Memory.AddressSpaces

namespace Kurogane.Memory

open Math

variable {region : Region} {initial memory : KernelMemory region} {empty : Word → Set (Fin 512)}

/-! ## Runs -/

def SpaceRequest.Below (memory : KernelMemory region) (empty : Word → Set (Fin 512)) :
    SpaceRequest → Prop
  | mapPage root page _ _ => BelowEmpty memory empty root page
  | unmapPage root page => BelowEmpty memory empty root page
  | _ => True

/-- Runs of requests to live spaces, with the root entries that were empty when each of them was
created. -/
inductive SpaceReachable (initial : KernelMemory region) :
    KernelMemory region → (Word → Set (Fin 512)) → Prop
  | start : SpaceReachable initial initial fun _ => ∅
  | step {memory : KernelMemory region} {empty : Word → Set (Fin 512)} (request : SpaceRequest) :
      SpaceReachable initial memory empty → request.Live memory → request.Below memory empty →
        SpaceReachable initial (request.perform memory) (request.track memory empty)

theorem Isolated.of_kernel (hvalid : (initial.space initial.kernelRoot).Valid)
    (hspaces : initial.spaces = [])
    (hrooted : Rooted (initial.space initial.kernelRoot) initial.words initial.frames.inUse) :
    Isolated initial fun _ => ∅ := by
  have hlive : ∀ {root}, initial.Live root → root = initial.kernelRoot := by
    rintro root (hroot | hroot)
    · exact hroot
    · rw [hspaces] at hroot
      cases hroot
  refine ⟨fun root hroot => hlive hroot ▸ hvalid, fun root hroot => hlive hroot ▸ hrooted,
    fun own hown => ?_, ?_, ?_⟩
  · rw [hspaces] at hown
    cases hown
  · rw [hspaces]
    exact List.not_mem_nil
  · rw [hspaces]
    exact List.nodup_nil

/-- What a mapping or an unmapping in a space can do. -/
theorem Isolated.callFrame (h : Isolated memory empty) {root : Word} (hroot : memory.Live root)
    (page : Word) :
    (∀ physical flags, CallFrame (memory.space root) Frames.inUse page memory.machine
        (mapPage (memory.space root) page physical flags memory.machine).2) ∧
      CallFrame (memory.space root) Frames.inUse page memory.machine
        (unmapPage (memory.space root) page memory.machine).2 := by
  have hlaw : (memory.space root).backend.Lawful Frames.inUse := kernelBackend_lawful region _
  refine ⟨fun physical flags => ?_, ?_⟩
  · exact mapPage_frame (h.valid root hroot) hlaw (h.rooted root hroot) rfl page physical flags
  · exact unmapPage_frame (h.valid root hroot) hlaw
      (fun context table => (inUse_tryFreeFrame context table).1) (h.rooted root hroot) page

theorem Isolated.perform (h : Isolated memory empty) (request : SpaceRequest)
    (hlive : request.Live memory) (hbelow : request.Below memory empty) :
    Isolated (request.perform memory) (request.track memory empty) := by
  cases request with
  | create =>
    exact h.create
  | destroy root =>
    exact h.destroy root
  | activate =>
    exact { h with }
  | mapPage _ page physical flags =>
    exact h.call hlive hbelow ((h.callFrame hlive page).1 physical flags)
  | unmapPage _ page =>
    exact h.call hlive hbelow (h.callFrame hlive page).2

theorem SpaceReachable.isolated (h : SpaceReachable initial memory empty)
    (hinitial : Isolated initial fun _ => ∅) : Isolated memory empty := by
  induction h with
  | start => exact hinitial
  | step request _ hlive hbelow ih => exact ih.perform request hlive hbelow

/-! ## What a request leaves alone -/

def SpaceRequest.owner : SpaceRequest → Option Word
  | mapPage root _ _ _ => some root
  | unmapPage root _ => some root
  | _ => none

/-- A mapping or an unmapping changes no other space's translations, and no frame is freed that is
a page table of a space that is still live. -/
structure KeepsApart (memory : KernelMemory region) (request : SpaceRequest) : Prop where
  translations : ∀ root, request.owner = some root → ∀ other, memory.Live other → other ≠ root →
    ∀ address, translation (memory.space other) (request.perform memory).words address =
      translation (memory.space other) memory.words address
  freed : ∀ table ∈ memory.frames.inUse, table ∉ (request.perform memory).frames.inUse →
    ∀ other, (request.perform memory).Live other →
      ¬ (memory.space other).Attached (request.perform memory).words table

theorem Isolated.translation_eq (h : Isolated memory empty) {root page other : Word}
    (hroot : memory.Live root) (hbelow : BelowEmpty memory empty root page)
    {machine : Machine (Frames region)}
    (hframe : CallFrame (memory.space root) Frames.inUse page memory.machine machine)
    (hother : memory.Live other) (hne : other ≠ root) (address : Word) :
    translation (memory.space other) machine.words address =
      translation (memory.space other) memory.words address := by
  have hwalk := (h.rooted other hother).attached.walkOf_congr
    (h.others hroot hbelow hframe hother hne) address
  exact congrArg (fun walked => if !canonicalAddress address then _ else
    Except.map (mappingFromPath (memory.space other) address) walked) hwalk

theorem SpaceRequest.perform_space (request : SpaceRequest) (root : Word) :
    (request.perform memory).space root = memory.space root := by
  have hbits : (request.perform memory).physicalAddressBits = memory.physicalAddressBits := by
    cases request with
    | create =>
      change (createAddressSpace memory).2.physicalAddressBits = _
      rw [createAddressSpace]
      split
      · rfl
      · dsimp only
        split <;> rfl
    | destroy root =>
      change (destroyAddressSpace memory root).2.physicalAddressBits = _
      rw [destroyAddressSpace]
      split
      · rfl
      · split <;> rfl
    | activate => rfl
    | mapPage => rfl
    | unmapPage => rfl
  rw [KernelMemory.space, KernelMemory.space, KernelMemory.physicalBits,
    KernelMemory.physicalBits, hbits]

theorem Isolated.keepsApart (h : Isolated memory empty) (request : SpaceRequest)
    (hlive : request.Live memory) (hbelow : request.Below memory empty) :
    KeepsApart memory request := by
  refine ⟨fun root howner other hother hne address => ?_, fun table _ hfreed other hother hat => ?_⟩
  · cases request with
    | mapPage _ page physical flags =>
      cases howner
      exact h.translation_eq hlive hbelow ((h.callFrame hlive page).1 physical flags) hother hne
        address
    | unmapPage _ page =>
      cases howner
      exact h.translation_eq hlive hbelow (h.callFrame hlive page).2 hother hne address
    | create => cases howner
    | destroy => cases howner
    | activate => cases howner
  · have hrooted := (h.perform request hlive hbelow).rooted other hother
    rw [request.perform_space] at hrooted
    exact hfreed (hrooted.known table hat)

/-! ## A small memory -/

def smallRegion : Region where
  base := 0
  frameCount := 16
  reserved index := index == 0
  aligned := by decide
  fits := by decide
  zeroReserved := by decide

/-- An empty kernel table in the second frame. -/
def smallMemory : KernelMemory smallRegion where
  words _ _ := 0#64
  frames := ⟨fun index => index == 0 || index == 1, 2, fun _ hzero =>
    Bool.or_eq_true_iff.mpr (.inl hzero)⟩
  physicalAddressBits := 0
  kernelRoot := 0x1000
  spaces := []
  activeRoot := 0x1000

/-! ## Isolation along runs -/

/-- From a kernel space whose tables form a tree of frames in use, every run that maps and unmaps
below empty root entries keeps the spaces apart. -/
theorem address_spaces_kept_apart {before machine : Machine (Frames region)}
    (hinitialized : initializeAddressSpace initial.kernelRoot
      (kernelBackend region initial.physicalAddressBits) before =
        (.ok (initial.space initial.kernelRoot), machine))
    (hspaces : initial.spaces = [])
    (hunshared : Unshared (childOf (initial.space initial.kernelRoot).physicalAddressMask)
      initial.words initial.kernelRoot 3)
    (hattached : ∀ table, (initial.space initial.kernelRoot).Attached initial.words table →
      table ∈ initial.frames.inUse)
    (hrun : SpaceReachable initial memory empty) (request : SpaceRequest)
    (hlive : request.Live memory) (hbelow : request.Below memory empty) :
    KeepsApart memory request := by
  have hvalid := (AddressSpace.of_initialized hinitialized).1
  have hinitial := Isolated.of_kernel hvalid hspaces ⟨hunshared, hattached⟩
  exact (hrun.isolated hinitial).keepsApart request hlive hbelow

/-- The kernel has a page mapped when the space is created, so that an entry is copied. -/
theorem address_spaces_kept_apart_small :
    let shared := SpaceRequest.create.perform
      ((SpaceRequest.mapPage 0x1000 0x400000 0x9000 MapFlags.writable).perform smallMemory)
    shared.spaces = [0x5000] ∧ shared.words 0x5000 0 = createdEntry 0x2000 ∧
      KeepsApart shared (.mapPage 0x5000 0x8000000000 0x9000 MapFlags.writable) := by
  have hinitialized : initializeAddressSpace smallMemory.kernelRoot
      (kernelBackend smallRegion smallMemory.physicalAddressBits) smallMemory.machine =
        (.ok (smallMemory.space smallMemory.kernelRoot), smallMemory.machine) := rfl
  have hrooted : Rooted (smallMemory.space smallMemory.kernelRoot) smallMemory.words
      smallMemory.frames.inUse := by
    refine rooted_zero fun index hindex => ?_
    cases hindex
    rfl
  have hmapped := (@SpaceReachable.start _ smallMemory).step
    (.mapPage 0x1000 0x400000 0x9000 MapFlags.writable) (.inl rfl)
    ⟨fun hmem => absurd hmem List.not_mem_nil, fun _ _ hmem => absurd hmem List.not_mem_nil⟩
  refine ⟨by decide +kernel, by decide +kernel, address_spaces_kept_apart hinitialized rfl
    hrooted.unshared hrooted.known (hmapped.step .create trivial trivial) _ (.inr ?_)
    ⟨fun _ => ?_, fun heq => ?_⟩⟩
  · decide +kernel
  · exact .inr ⟨List.not_mem_nil, by decide +kernel⟩
  · exact absurd heq (by decide +kernel)

/-- The kernel maps a page, a space is created, and the page is unmapped there: the tables go back
to the allocator, and the kernel's root still leads to them. -/
theorem kernel_tables_freed :
    let shared := SpaceRequest.create.perform
      ((SpaceRequest.mapPage 0x1000 0x400000 0x9000 MapFlags.writable).perform smallMemory)
    let request := SpaceRequest.unmapPage 0x5000 0x400000
    request.Live shared ∧ 0x2000 ∈ shared.frames.inUse ∧
      0x2000 ∉ (request.perform shared).frames.inUse ∧
      (shared.space shared.kernelRoot).Attached (request.perform shared).words 0x2000 := by
  have hindex : smallRegion.frameIndexForAddress 0x2000 = some 2 := by decide
  refine ⟨.inr (by decide), fun index heq => ?_, fun hmem => ?_, [0], by decide, by decide +kernel⟩
  · cases hindex.symm.trans heq
    decide
  · exact absurd (hmem 2 hindex) (by decide +kernel)

end Kurogane.Memory
