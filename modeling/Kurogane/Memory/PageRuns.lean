/-
# Runs of mappings and unmappings

The page tables refine a partial map from pages to mappings. From any tree of
tables, and whatever the backend refuses, `map_page` adds one mapping or changes
nothing, `unmap_page` removes one mapping or changes nothing, and the tables the
module has allocated are those that its mappings need.
-/

import Kurogane.Memory.PageUnmapping

namespace Kurogane.Memory

open Math Set

variable {σ : Type} {space : AddressSpace σ} {owned : σ → Set Word} {backend : Backend σ}
  {origin : Origin} {call call' : Call}
  {live live' : Set (List (Fin 512))} {pages : Set Word}
  {initial machine machine' machine'' : Machine σ} {page physical address : Word}
  {flags : MapFlags} {holds : (Word → Fin 512 → Word) → Set Word → Word → Prop}

/-! ## Translations -/

theorem translation_eq (haddr : canonicalAddress address = true) (words : Word → Fin 512 → Word) :
    translation space words address =
      (space.walkOf words address).map (mappingFromPath space address) := by
  rw [translation, haddr, if_neg (by simp)]
  rfl

variable {path : List (Fin 512)} {table : Word} {words : Word → Fin 512 → Word}

theorem translation_congr {words' : Word → Fin 512 → Word}
    (hpage : validateVirtualPage page = .ok) (hother : address &&& ~~~pageOffsetMask ≠ page)
    (hwalks : ∀ address, indices address ≠ indices page →
      space.walkOf words' address = space.walkOf words address) :
    translation space words' address = translation space words address := by
  obtain ⟨hcanon, halign⟩ := validateVirtualPage_eq_ok hpage
  cases haddr : canonicalAddress address with
  | false => rw [translation, translation, haddr]; rfl
  | true =>
    rw [translation_eq haddr, translation_eq haddr, hwalks]
    intro heq
    refine hother ((page_eq_of_indices haddr hcanon heq).trans ?_)
    have hin : Within page (~~~pageOffsetMask) := by
      rw [Within, BitVec.not_not, halign]
    exact hin.and_eq

theorem Placed.translation (hspace : space.Valid) {new : List CreatedTable} {old state : WalkState}
    (h : Placed space owned page physical flags holds machine machine' new old state) :
    translation space machine'.words page = .ok ⟨page, physical, flags, false, false⟩ := by
  obtain ⟨hcanon, halign⟩ := validateVirtualPage_eq_ok h.validPage
  obtain ⟨_, harr, -⟩ := h.arrived
  obtain ⟨-, -, -, -, -, -, -, haccessed, hdirty⟩ := hardwareLeafFlags_and_flag flags
  have hin : Within page (~~~pageOffsetMask) := by
    rw [Within, BitVec.not_not, halign]
  rw [translation_eq hcanon, h.walkOf hspace]
  simp only [Except.map, mappingFromPath, hin.and_eq,
    or_and_mask hspace.mask h.inMask (hardwareLeafFlags_and_mask flags),
    mappingFlags_leaf hspace h.inMask h.validFlags harr.grants,
    or_and_flag _ entryAccessed hspace.mask h.inMask (by decide),
    or_and_flag _ entryDirty hspace.mask h.inMask (by decide), haccessed, hdirty]
  rfl

/-! ## Runs -/

inductive PageRequest
  | mapPage (page physical : Word) (flags : MapFlags)
  | unmapPage (page : Word)

def PageRequest.subject : PageRequest → Word
  | mapPage page _ _ | unmapPage page => page

def PageRequest.perform (space : AddressSpace σ) : PageRequest → Machine σ → Machine σ
  | mapPage page physical flags, machine => (Memory.mapPage space page physical flags machine).2
  | unmapPage page, machine => (Memory.unmapPage space page machine).2

/-- The pages that were mapped and not unmapped since. -/
def PageRequest.track (space : AddressSpace σ) (machine : Machine σ) (pages : Set Word) :
    PageRequest → Set Word
  | mapPage page physical flags =>
    {other | other ∈ pages ∨
      other = page ∧ (Memory.mapPage space page physical flags machine).1 = .ok}
  | unmapPage page =>
    {other ∈ pages | ¬ (other = page ∧
      ∃ mapping, (Memory.unmapPage space page machine).1 = .ok mapping)}

inductive PageReachable (space : AddressSpace σ) (initial : Machine σ) :
    Machine σ → Set Word → Prop
  | start : PageReachable space initial initial ∅
  | step {machine : Machine σ} {pages : Set Word} (request : PageRequest)
      (hrun : PageReachable space initial machine pages) :
      PageReachable space initial (request.perform space machine)
        (request.track space machine pages)

def Untagged (space : AddressSpace σ) (words : Word → Fin 512 → Word) : Prop :=
  ∀ path node index next, path.length ≤ 2 → space.tableAt words path = some node →
    childOf space.physicalAddressMask (words node index) = some next →
      words node index &&& entryModuleOwned = 0#64

theorem sound_initial (hevs : initial.events = [])
    (hroot : Rooted space initial.words (owned initial.context))
    (huntagged : Untagged space initial.words) :
    initial.Sound space owned ⟨initial.words, owned initial.context⟩ ∅ where
  rooted := hroot
  traced := .of_no_events hevs
  managed := by
    rw [hevs]
    refine ⟨fun path node index next hlen hpath hchild => ?_, nofun, nofun, ?_, ?_⟩
    · refine iff_of_false (not_not.mpr ?_) (notMem_empty _)
      exact huntagged path node index next hlen hpath hchild
    · exact fun _ _ _ _ _ hmem => hmem.elim
    · exact fun _ _ _ _ _ hmem => hmem.elim

theorem Machine.Sound.mono (h : machine.Sound space owned origin live)
    (hlive : live ⊆ live') : machine.Sound space owned origin live' :=
  { h with
    managed := { h.managed with
      leaves := fun path table index hlen hpath hmem hne =>
        hlive (h.managed.leaves path table index hlen hpath hmem hne) } }

section

variable (hspace : space.Valid) (hlaw : space.backend.Lawful owned)
include hspace hlaw

section

variable (h : machine.Sound space owned origin (image indices pages))
include h

theorem Machine.Sound.mapPage :
    (Memory.mapPage space page physical flags machine).2.Sound space owned origin
      (image indices ((PageRequest.mapPage page physical flags).track space machine
        pages)) := by
  have hspec := h.mapSpec hspace hlaw page physical flags
  by_cases hok : (Memory.mapPage space page physical flags machine).1 = .ok
  · obtain ⟨_, _, _, hplaced⟩ := hspec.placed hok
    refine (hplaced.sound hspace hspec.traced).mono ?_
    rintro _ (rfl | ⟨other, hother, rfl⟩)
    · exact ⟨page, .inr ⟨rfl, hok⟩, rfl⟩
    · exact ⟨other, .inl hother, rfl⟩
  · refine (h.undone (hspec.failed hok) hspec.traced).mono ?_
    exact image_mono fun other hother => .inl hother

theorem Machine.Sound.unmapPage :
    (Memory.unmapPage space page machine).2.Sound space owned origin
      (image indices ((PageRequest.unmapPage page).track space machine pages)) := by
  have hspec := unmapPage_spec hspace hlaw h page
  cases hres : (Memory.unmapPage space page machine).1 with
  | error status =>
    have hsame := hspec.failed status hres
    refine (h.undone (.of_same hsame) hspec.traced).mono ?_
    refine image_mono fun other hother => ⟨hother, ?_⟩
    rintro ⟨-, mapping, hok⟩
    rw [hres] at hok
    cases hok
  | ok mapping =>
    refine (hspec.removed mapping hres).sound.mono ?_
    rintro _ ⟨⟨other, hother, rfl⟩, hne⟩
    exact ⟨other, ⟨hother, fun hand => hne (congrArg indices hand.1)⟩, rfl⟩

end

theorem PageReachable.sound (hinitial : initial.Sound space owned origin ∅)
    (hrun : PageReachable space initial machine pages) :
    machine.Sound space owned origin (image indices pages) := by
  induction hrun with
  | start => exact hinitial.mono (empty_subset _)
  | step request _ ih =>
    cases request with
    | mapPage => exact ih.mapPage hspace hlaw
    | unmapPage => exact ih.unmapPage hspace hlaw

end

/-! ## Refinement -/

def Unchanged (owned : σ → Set Word) (machine machine' : Machine σ) : Prop :=
  (∀ table ∈ owned machine.context, machine'.words table = machine.words table) ∧
    owned machine'.context = owned machine.context

/-- What holds in every state of an address space. -/
structure RefinesMap (space : AddressSpace σ) (owned : σ → Set Word) (initial machine : Machine σ)
    (pages : Set Word) : Prop where
  query : ∀ address, (queryPage space address machine).1 = .error .backendFailure ∨
    (queryPage space address machine).1 = translation space machine.words address
  mapped : ∀ page physical flags machine',
    mapPage space page physical flags machine = (.ok, machine') →
      translation space machine'.words page = .ok ⟨page, physical, flags, false, false⟩ ∧
      ∀ address, address &&& ~~~pageOffsetMask ≠ page →
        translation space machine'.words address = translation space machine.words address
  mapFailed : ∀ page physical flags status machine',
    mapPage space page physical flags machine = (status, machine') → status ≠ .ok →
      Unchanged owned machine machine'
  unmapped : ∀ page mapping machine', unmapPage space page machine = (.ok mapping, machine') →
    translation space machine.words page = .ok mapping ∧
    translation space machine'.words page = .error .notMapped ∧
    ∀ address, address &&& ~~~pageOffsetMask ≠ page →
      translation space machine'.words address = translation space machine.words address
  unmapFailed : ∀ page status machine', unmapPage space page machine = (.error status, machine') →
    machine'.words = machine.words ∧ owned machine'.context = owned machine.context
  restored : ∀ page physical flags machine' result machine'',
    mapPage space page physical flags machine = (.ok, machine') →
    unmapPage space page machine' = (result, machine'') →
      result = .error .backendFailure ∨
        result = .ok ⟨page, physical, flags, false, false⟩ ∧ Unchanged owned machine machine''
  tables : ∀ table ∈ owned machine.context, table ∉ owned initial.context →
    space.Attached machine.words table ∧ ∃ index, machine.words table index ≠ 0#64
  released : pages = ∅ → owned machine.context = owned initial.context
  freed : ∀ request : PageRequest, SafeSince space initial.words ⟨request.subject, machine.events⟩
    (request.perform space machine).events

theorem Undone.unchanged (h : machine.Traced space owned origin call)
    (h' : machine'.Traced space owned origin call')
    (hundone : Undone owned machine machine') : Unchanged owned machine machine' :=
  ⟨hundone.words, h.owned_eq h' hundone.outstanding⟩

/-- Every table of the module leads to a live mapping. -/
theorem Managed.exists_live {ours : Set Word} (h : Managed space words ours live ∅) (levels : ℕ)
    (hlen : path.length + levels = 3) (hpath : space.tableAt words path = some table)
    (hmem : table ∈ ours) : live.Nonempty := by
  obtain ⟨index, hidx⟩ := h.nonempty table hmem (notMem_empty _)
  induction levels generalizing path table index with
  | zero => exact ⟨_, h.leaves path table index (by omega) hpath hmem hidx⟩
  | succ _ ih =>
    obtain ⟨next, hnext, hchild⟩ := h.inner path table index (by omega) hpath hmem hidx
    obtain ⟨index', hidx'⟩ := h.nonempty next hnext (notMem_empty _)
    exact ih (by simp; omega) (tableAt_child hpath hchild) hnext index' hidx'

section

variable (hspace : space.Valid) (hlaw : space.backend.Lawful owned)
include hspace hlaw

theorem unmapPage_after_map
    {status : PageStatus} (hwalk : ∀ status, space.walkOf machine.words page ≠ .error status)
    (hpage : validateVirtualPage page = .ok)
    (hres : unmapPage space page machine = (.error status, machine')) :
    status = .backendFailure := by
  rw [unmapPage, hspace.initialized, if_neg (by simp), if_neg (not_not.mpr hpage)] at hres
  obtain ⟨hcases, -⟩ := walkToLeaf_cases hspace hlaw page machine
  generalize walkToLeaf space page machine = result at hcases hres
  obtain ⟨_, _⟩ := result
  rcases hcases with rfl | rfl
  · cases hres
    rfl
  cases hwalk' : space.walkOf machine.words page with
  | error other => exact absurd hwalk' (hwalk other)
  | ok =>
    rw [AddressSpace.walkOf] at hwalk'
    rw [hwalk'] at hres
    cases hres

theorem Machine.Sound.refinesMap
    (h : machine.Sound space owned ⟨initial.words, owned initial.context⟩ (image indices pages)) :
    RefinesMap space owned initial machine pages where
  query := fun address => (queryPage_cases hspace hlaw address machine).1
  mapped := by
    intro page physical flags machine' hres
    have hspec := h.mapSpec hspace hlaw page physical flags
    rw [hres] at hspec
    obtain ⟨new, old, state, hplaced⟩ := hspec.placed rfl
    exact ⟨hplaced.translation hspace, fun address hother =>
      translation_congr hplaced.validPage hother fun _ hne => hplaced.walkOf_other hne⟩
  mapFailed := by
    intro page physical flags status machine' hres hstat
    have hspec := h.mapSpec hspace hlaw page physical flags
    rw [hres] at hspec
    exact (hspec.failed hstat).unchanged (h.traced page) hspec.traced
  unmapped := by
    intro page mapping machine' hres
    have hspec := unmapPage_spec hspace hlaw h page
    rw [hres] at hspec
    have hrem := hspec.removed mapping rfl
    refine ⟨hrem.mapping, ?_, fun address hother =>
      translation_congr hrem.validPage hother hrem.others⟩
    rw [translation_eq (validateVirtualPage_eq_ok hrem.validPage).1, hrem.absent]
    rfl
  unmapFailed := by
    intro page status machine' hres
    have hspec := unmapPage_spec hspace hlaw h page
    rw [hres] at hspec
    have hsame := hspec.failed status rfl
    exact ⟨hsame.words, hsame.owned⟩
  restored := by
    intro page physical flags machine' result machine'' hmap hunmap
    have hspec := h.mapSpec hspace hlaw page physical flags
    rw [hmap] at hspec
    obtain ⟨_, _, _, hplaced⟩ := hspec.placed rfl
    have hsound := hplaced.sound hspace hspec.traced
    have hspec' := unmapPage_spec hspace hlaw hsound page
    cases result with
    | error =>
      refine .inl (congrArg _ (unmapPage_after_map hspace hlaw ?_ hplaced.validPage hunmap))
      intro status' hwalk
      rw [hplaced.walkOf hspace] at hwalk
      cases hwalk
    | ok mapping =>
      rw [hunmap] at hspec'
      have hrem := hspec'.removed mapping rfl
      refine .inr ⟨?_, (hplaced.undo hspace h hrem).unchanged (h.traced page) hspec'.traced⟩
      exact hrem.mapping.symm.trans (hplaced.translation hspace)
  tables := by
    intro table hmem hnot
    rw [(h.traced 0).owned] at hmem
    have hout := hmem.resolve_left hnot
    obtain ⟨path, -, hlen, hpath⟩ := h.managed.place table hout
    exact ⟨⟨path, hlen, hpath⟩, h.managed.nonempty table hout (notMem_empty _)⟩
  released := by
    rintro rfl
    rw [(h.traced 0).owned]
    refine union_eq_self_of_subset_right fun table hout => ?_
    obtain ⟨path, -, _, hpath⟩ := h.managed.place table hout
    obtain ⟨_, hfound⟩ := h.managed.exists_live (3 - path.length) (by omega) hpath hout
    rw [image_empty] at hfound
    exact hfound.elim
  freed
    | .mapPage page physical flags => (h.mapSpec hspace hlaw page physical flags).traced.safe
    | .unmapPage page => (unmapPage_spec hspace hlaw h page).traced.safe

end

/-- From a tree of tables without the tag of the module, every run of mappings and
unmappings refines a partial map. -/
theorem page_tables_refine_map {root : Word} {before : Machine σ}
    (hinitialized : initializeAddressSpace root backend before = (.ok space, initial))
    (hlawful : backend.Lawful owned) (hevents : initial.events = [])
    (hunshared : Unshared (childOf space.physicalAddressMask) initial.words
      space.rootTablePhysical 3)
    (hattached : ∀ table, space.Attached initial.words table → table ∈ owned initial.context)
    (huntagged : Untagged space initial.words) (hrun : PageReachable space initial machine pages) :
    RefinesMap space owned initial machine pages := by
  obtain ⟨hspace, hbackend⟩ := AddressSpace.of_initialized hinitialized
  rw [← hbackend] at hlawful
  have hinitial := sound_initial hevents ⟨hunshared, hattached⟩ huntagged
  exact (hrun.sound hspace hlawful hinitial).refinesMap hspace hlawful

/-! ## A small machine -/

abbrev Pool := {pages : List Word // pages.Nodup}

def Pool.take : Pool → Option Word × Pool
  | ⟨[], h⟩ => (none, ⟨[], h⟩)
  | ⟨page :: pages, h⟩ => (some page, ⟨pages, h.of_cons⟩)

def Pool.give (pool : Pool) (page : Word) : Pool :=
  if h : (page :: pool.val).Nodup then ⟨page :: pool.val, h⟩ else pool

def poolBackend : Backend Pool where
  allocateTable := Pool.take
  freeTable := Pool.give
  physicalToVirtual pool _ := (true, pool)
  invalidatePage pool _ := pool
  physicalAddressBits := 0

def Pool.inUse (pool : Pool) : Set Word := {page | page ∉ pool.val}

theorem poolBackend_lawful : poolBackend.Lawful Pool.inUse where
  allocated := by
    rintro ⟨pages, hnodup⟩ table context heq
    cases pages with
    | nil => cases heq
    | cons =>
      cases heq
      obtain ⟨hnot, -⟩ := List.nodup_cons.mp hnodup
      refine ⟨not_not.mpr List.mem_cons_self, ?_⟩
      ext other
      simp only [Pool.inUse, mem_ofPred_eq, mem_insert_iff, List.mem_cons, not_or]
      by_cases heq : other = table
      · subst heq
        simp [hnot]
      · simp [heq]
  refused := by
    rintro ⟨pages, hnodup⟩ _ heq
    cases pages with
    | nil =>
      cases heq
      rfl
    | cons => cases heq
  freed := by
    intro pool page _
    ext other
    change other ∉ (pool.give page).val ↔ other ∉ pool.val ∧ other ≠ page
    rw [Pool.give]
    split
    · rw [List.mem_cons, not_or]
      exact and_comm
    next hnodup =>
    have hmem : page ∈ pool.val := by
      by_contra hnot
      exact hnodup (List.nodup_cons.mpr ⟨hnot, pool.property⟩)
    refine ⟨fun hnot => ⟨hnot, ?_⟩, fun hand => hand.1⟩
    rintro rfl
    exact hnot hmem
  accessed := fun _ _ => rfl
  invalidated := fun _ _ => rfl

/-- A root table at 0x1000 with free pages behind it. -/
def smallMachine (words : Word → Fin 512 → Word) : Machine Pool where
  words := words
  context := ⟨[0x2000, 0x3000, 0x4000], by decide⟩

def smallSpace : AddressSpace Pool := ⟨0x1000, physicalMask 52, poolBackend, true⟩

theorem page_tables_refine_map_small :
    (mapPage smallSpace 0x400000 0x9000 MapFlags.writable (smallMachine fun _ _ => 0#64)).1 = .ok ∧
      RefinesMap smallSpace Pool.inUse (smallMachine fun _ _ => 0#64)
        (mapPage smallSpace 0x400000 0x9000 MapFlags.writable (smallMachine fun _ _ => 0#64)).2
        ((PageRequest.mapPage 0x400000 0x9000 MapFlags.writable).track smallSpace
          (smallMachine fun _ _ => 0#64) ∅) := by
  refine ⟨by decide, ?_⟩
  have hinitialized : initializeAddressSpace 0x1000 poolBackend (smallMachine fun _ _ => 0#64) =
      (.ok smallSpace, smallMachine fun _ _ => 0#64) := rfl
  have hrooted : Rooted smallSpace (fun _ _ => 0#64) {page | page ∉ [0x2000, 0x3000, 0x4000]} :=
    rooted_zero (by decide)
  refine page_tables_refine_map hinitialized poolBackend_lawful rfl hrooted.unshared hrooted.known
    ?_ (.step (.mapPage 0x400000 0x9000 MapFlags.writable) .start)
  intro path node index next _ _ hchild
  rw [smallMachine, childOf_zero] at hchild
  cases hchild

/-- A tree whose only entry points to an empty table at 0x5000 and happens to carry the tag. -/
def taggedWords (table : Word) (index : Fin 512) : Word :=
  if table = 0x1000 ∧ index.val = 0 then createdEntry 0x5000 else 0#64

theorem smallSpace_tableAt_tagged (h : smallSpace.tableAt taggedWords path = some table) :
    path = [] ∧ table = 0x1000 ∨ path = [0] ∧ table = 0x5000 := by
  cases path with
  | nil => exact .inl ⟨rfl, (Option.some.inj h).symm⟩
  | cons index path =>
    rw [AddressSpace.tableAt, resolve] at h
    by_cases hidx : index = 0
    · subst hidx
      have hchild : childOf smallSpace.physicalAddressMask
          (taggedWords smallSpace.rootTablePhysical 0) = some 0x5000 := by decide
      rw [hchild, Option.bind_some] at h
      cases path with
      | nil => exact .inr ⟨rfl, (Option.some.inj h).symm⟩
      | cons index' =>
        have hzero : taggedWords 0x5000 index' = 0#64 := if_neg (by simp)
        rw [resolve, hzero, childOf_zero] at h
        cases h
    · have hzero : taggedWords smallSpace.rootTablePhysical index = 0#64 :=
        if_neg fun hand => hidx (Fin.ext hand.2)
      rw [hzero, childOf_zero] at h
      cases h

/-- Mapping a page below that table and unmapping it again does not restore the tree: the table
was empty and tagged, so it is detached and freed, though the module never allocated it. -/
theorem tagged_table_not_restored :
    Unshared (childOf smallSpace.physicalAddressMask) taggedWords smallSpace.rootTablePhysical 3 ∧
      (mapPage smallSpace 0x400000 0x9000 MapFlags.writable (smallMachine taggedWords)).1 = .ok ∧
      (unmapPage smallSpace 0x400000
        (mapPage smallSpace 0x400000 0x9000 MapFlags.writable (smallMachine taggedWords)).2).2.words
          0x1000 0 ≠ taggedWords 0x1000 0 ∧
      .freed 0x5000 ∈ (unmapPage smallSpace 0x400000
        (mapPage smallSpace 0x400000 0x9000 MapFlags.writable
          (smallMachine taggedWords)).2).2.events := by
  refine ⟨?_, by decide +kernel, by decide +kernel, by decide +kernel⟩
  intro path path' node _ _ hpath hpath'
  rcases smallSpace_tableAt_tagged hpath with ⟨rfl, rfl⟩ | ⟨rfl, rfl⟩ <;>
    rcases smallSpace_tableAt_tagged hpath' with ⟨rfl, heq⟩ | ⟨rfl, heq⟩
  · rfl
  · exact absurd heq (by decide)
  · exact absurd heq (by decide)
  · rfl

end Kurogane.Memory
