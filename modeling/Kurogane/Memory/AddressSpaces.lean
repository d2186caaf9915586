/-
# Isolation of address spaces

Copying the kernel's root table copies the tags on its entries, so that two
spaces may both take a table for their own. As long as mappings are made and
removed only below root entries that were empty when the spaces were created, no
call changes what another space translates, and no table that is still reached
from another root is freed.
-/

import Kurogane.Memory.KernelVirtualMemory
import Kurogane.Memory.PageRuns

namespace Kurogane.Memory

open Math Function List

section Call

variable {σ : Type} {space : AddressSpace σ} {owned : σ → Set Word} {machine machine' : Machine σ}
  {page physical : Word} {flags : MapFlags}

/-! ## The frame of a call -/

def OnPath (space : AddressSpace σ) (words : Word → Fin 512 → Word) (page table : Word) : Prop :=
  ∃ length ≤ 3, space.tableAt words ((indices page).take length) = some table

/-- A call for a page attaches fresh tables only, and touches or frees only tables on the path of
the page. -/
structure CallFrame (space : AddressSpace σ) (owned : σ → Set Word) (page : Word)
    (machine machine' : Machine σ) : Prop where
  rooted : Rooted space machine'.words (owned machine'.context)
  grown : ∀ path table, path.length ≤ 3 → space.tableAt machine'.words path = some table →
    table ∉ owned machine.context ∨ space.tableAt machine.words path = some table
  words : ∀ table ∈ owned machine.context, ¬ OnPath space machine.words page table →
    machine'.words table = machine.words table
  kept : ∀ table ∈ owned machine.context, ¬ OnPath space machine.words page table →
    table ∈ owned machine'.context

theorem CallFrame.of_unchanged (hrooted : Rooted space machine.words (owned machine.context))
    (h : Unchanged owned machine machine') : CallFrame space owned page machine machine' := by
  have hsame : ∀ table ∈ owned machine.context, ∀ index,
      machine'.words table index = machine.words table index :=
    fun table htable index => congrFun (h.1 table htable) index
  refine ⟨?_, fun path table hlen hpath => .inr ?_, fun table htable _ => h.1 table htable,
    fun table htable _ => ?_⟩
  · rw [h.2]
    exact hrooted.congr hsame
  · rw [hrooted.tableAt_congr hsame path (by omega)] at hpath
    exact hpath
  · rw [h.2]
    exact htable

section

variable (hspace : space.Valid) (hlaw : space.backend.Lawful owned)
include hspace hlaw

theorem mapPage_frame (hrooted : Rooted space machine.words (owned machine.context))
    (hevs : machine.events = []) (page physical : Word) (flags : MapFlags) :
    CallFrame space owned page machine (mapPage space page physical flags machine).2 := by
  have htraced : machine.Traced space owned ⟨machine.words, owned machine.context⟩
      ⟨page, machine.events⟩ := .of_no_events hevs page
  have hinv : AttachInvariant space fun _ _ _ => True :=
    ⟨fun _ _ _ _ _ _ _ => trivial, fun _ _ _ _ => trivial⟩
  have hspec := mapPage_spec hspace hlaw hrooted htraced hinv trivial page physical flags
  generalize mapPage space page physical flags machine = result at hspec
  obtain ⟨status, _⟩ := result
  by_cases hok : status = .ok
  swap
  · exact .of_unchanged hrooted ((hspec.failed hok).unchanged htraced hspec.traced)
  obtain ⟨_, _, state, hplaced⟩ := hspec.placed hok
  obtain ⟨middle, harr, hwords, -, _⟩ := hplaced.arrived
  have hpath : space.tableAt middle.words ([0, 1, 2].map (tableIndex page)) = some state.table :=
    resolve_of_advance harr.advanced
  refine ⟨hplaced.rooted, fun path table hlen hat => ?_, fun table htable hnot => ?_,
    fun table htable _ => ?_⟩
  · rw [hplaced.words, ← hwords, harr.rooted.tableAt_leaf hpath rfl _ _ path hlen] at hat
    exact harr.grown path table hlen hat
  · -- a table of the path that existed before is on the path as it was
    have houtside : table ∉ state.table :: state.above := by
      rw [harr.tables]
      intro hmem
      rcases mem_append.mp hmem with hmem | hmem
      · obtain ⟨created, hcreated, rfl⟩ := mem_map.mp hmem
        exact hplaced.fresh.not_known created hcreated htable
      · obtain ⟨_, hfront, hold⟩ := harr.old
        exact hnot (tableAt_of_advance hfront hold table hmem)
    rw [hplaced.words, ← publishAll_of_not_mem machine.words harr.chain houtside]
    exact setEntry_table_of_ne (ne_of_mem_of_not_mem mem_cons_self houtside).symm
  · rw [hspec.traced.owned]
    exact .inl htable

theorem unmapPage_frame (hfree : ∀ context table,
      owned context \ {table} ⊆ owned (space.backend.freeTable context table))
    (hrooted : Rooted space machine.words (owned machine.context)) (page : Word) :
    CallFrame space owned page machine (unmapPage space page machine).2 := by
  have hsameFrame : ∀ {machine'}, machine.Same owned machine' →
      CallFrame space owned page machine machine' :=
    fun hsame => .of_unchanged hrooted ⟨fun _ _ => by rw [hsame.words], hsame.owned⟩
  rw [unmapPage, hspace.initialized, if_neg (by simp)]
  split
  · exact hsameFrame (.refl _)
  obtain ⟨hwalk, hsame⟩ := walkToLeaf_cases hspace hlaw page machine
  generalize walkToLeaf space page machine = result at hwalk hsame
  obtain ⟨answer, start⟩ := result
  rcases answer with _ | path
  · exact hsameFrame hsame
  have hwalk : space.walkOf machine.words page = .ok path := (hwalk.resolve_left (by simp)).symm
  obtain ⟨state, hadv, rfl, -⟩ := @exists_advance_of_walk _ _ _ _ space.startOf _ hwalk
  have hontables : ∀ table ∈ state.table :: state.above, OnPath space machine.words page table :=
    tableAt_of_advance prefix_rfl hadv
  have hpath : space.tableAt machine.words ([0, 1, 2].map (tableIndex page)) = some state.table :=
    resolve_of_advance hadv
  -- the leaf is cleared, then the path collapses
  set cleared := start.storeEntry state.table (tableIndex page 3) 0#64 with hcleared
  have hclear : cleared.words = setEntry machine.words state.table (tableIndex page 3) 0#64 := by
    rw [hcleared, Machine.storeEntry, hsame.words]
  have hat := hrooted.tableAt_leaf hpath rfl (tableIndex page 3) 0#64
  have hframe : CollapseFrame space (owned machine.context) page (state.table :: state.above)
      cleared (collapse space page (state.table :: state.above) cleared) := by
    refine collapse_frame [0, 1, 2] prefix_rfl ?_ ?_
    · rw [hclear]
      exact hrooted.storeLeaf hpath rfl
    · rw [hclear]
      exact hrooted.advance_storeLeaf 0#64 hadv
  dsimp only [headD_cons]
  generalize collapse space page (state.table :: state.above) cleared = result at hframe
  obtain ⟨detached, collapsed⟩ := result
  have hfrees : ∀ (tables : List Word) (machine' : Machine σ),
      (tables.foldl (fun machine table => machine.freeTable space.backend table) machine').words =
          machine'.words ∧
        ∀ table ∈ owned machine'.context, table ∉ tables → table ∈ owned (tables.foldl
          (fun machine table => machine.freeTable space.backend table) machine').context := by
    intro tables
    induction tables with
    | nil => exact fun machine' => ⟨rfl, fun _ htable _ => htable⟩
    | cons first _ ih =>
      intro machine'
      obtain ⟨hwords, hkept⟩ := ih (machine'.freeTable space.backend first)
      refine ⟨hwords, fun table htable hnot => hkept table ?_
        fun hmem => hnot (mem_cons_of_mem _ hmem)⟩
      exact hfree _ _ ⟨htable, fun heq => hnot (heq ▸ mem_cons_self)⟩
  obtain ⟨hwords, hkept⟩ := hfrees detached (collapsed.invalidatePage space.backend page)
  have hcontext : owned (collapsed.invalidatePage space.backend page).context =
      owned machine.context := by
    rw [Machine.invalidatePage, hlaw.invalidated]
    have hcollapsed : collapsed.context = start.context := hframe.context
    rw [hcollapsed, hsame.owned]
  rw [hcontext] at hkept
  refine ⟨?_, fun path table hlen hfound => .inr ?_, fun table htable hnot => ?_,
    fun table htable hnot => hkept table htable fun hmem => hnot ?_⟩
  · rw [hwords]
    exact hframe.rooted.mono fun table htable => hkept table htable.1 htable.2
  · rw [hwords] at hfound
    have hfound := hframe.shrunk path table hlen hfound
    rw [hclear, hat path hlen] at hfound
    exact hfound
  · rw [hwords]
    have houtside : table ∉ state.table :: state.above := fun hmem => hnot (hontables table hmem)
    refine (hframe.words table houtside).trans ?_
    rw [hclear]
    exact setEntry_table_of_ne (ne_of_mem_of_not_mem mem_cons_self houtside).symm
  obtain ⟨length, hlen, -, hfound⟩ := hframe.detached table hmem
  refine ⟨length, hlen, ?_⟩
  rw [hclear, hat _ (by rw [length_take]; omega)] at hfound
  exact hfound

end

end Call

variable {region : Region} {memory : KernelMemory region} {empty : Word → Set (Fin 512)}
  {root page : Word}

/-! ## Isolation -/

/-- Every live space is a tree of tables in use. A created space shares with another space only
tables at the same place, below root entries that were not empty when it was created. -/
structure Isolated (memory : KernelMemory region) (empty : Word → Set (Fin 512)) : Prop where
  valid : ∀ root, memory.Live root → (memory.space root).Valid
  rooted : ∀ root, memory.Live root →
    Rooted (memory.space root) memory.words memory.frames.inUse
  apart : ∀ own ∈ memory.spaces, ∀ other, memory.Live other → other ≠ own →
    ∀ path path' table, path.length ≤ 3 → path'.length ≤ 3 →
      (memory.space own).tableAt memory.words path = some table →
      (memory.space other).tableAt memory.words path' = some table →
        path = path' ∧ ∃ first rest, path = first :: rest ∧ first ∉ empty own
  kernel : memory.kernelRoot ∉ memory.spaces
  nodup : memory.spaces.Nodup

/-- The page is below a root entry that was empty when the space was created, or, for the
kernel's own space, when each of the other live spaces was. -/
def BelowEmpty (memory : KernelMemory region) (empty : Word → Set (Fin 512)) (root page : Word) :
    Prop :=
  (root ∈ memory.spaces → tableIndex page 0 ∈ empty root) ∧
    (root = memory.kernelRoot → ∀ own ∈ memory.spaces, tableIndex page 0 ∈ empty own)

variable {first : Fin 512} {rest : List (Fin 512)} {table : Word} {words : Word → Fin 512 → Word}

theorem Isolated.not_onPath (h : Isolated memory empty) (hroot : memory.Live root)
    (hbelow : BelowEmpty memory empty root page) {other : Word} (hother : memory.Live other)
    (hne : other ≠ root) (hatt : (memory.space other).Attached memory.words table) :
    ¬ OnPath (memory.space root) memory.words page table := by
  rintro ⟨length, _, hpath⟩
  obtain ⟨path', hlen', hpath'⟩ := hatt
  have htake : ((indices page).take length).length ≤ 3 := by
    rw [length_take]
    omega
  have hfirst : ∀ {first rest}, (indices page).take length = first :: rest →
      first = tableIndex page 0 := by
    intro first rest heq
    cases length with
    | zero => cases heq
    | succ => exact (List.cons.inj heq).1.symm
  by_cases hmem : root ∈ memory.spaces
  · obtain ⟨-, first, rest, hsplit, hnot⟩ :=
      h.apart root hmem other hother hne _ path' table htake hlen' hpath hpath'
    exact hnot (hfirst hsplit ▸ hbelow.1 hmem)
  have hkernel := hroot.resolve_right hmem
  have hown : other ∈ memory.spaces := hother.resolve_left fun heq => hne (heq.trans hkernel.symm)
  obtain ⟨heq, _, _, hsplit, hnot⟩ :=
    h.apart other hown root hroot hne.symm path' _ table hlen' htake hpath' hpath
  exact hnot (hfirst (heq.symm.trans hsplit) ▸ hbelow.2 hkernel other hown)

theorem Rooted.attached {σ : Type} {space : AddressSpace σ} {known : Set Word}
    (h : Rooted space words known) : Rooted space words {table | space.Attached words table} :=
  ⟨h.unshared, fun _ hatt => hatt⟩

section

variable {machine : Machine (Frames region)} (h : Isolated memory empty) (hroot : memory.Live root)
  (hbelow : BelowEmpty memory empty root page)
  (hframe : CallFrame (memory.space root) Frames.inUse page memory.machine machine)
include h hroot hbelow hframe

/-- The other spaces do not notice a call. -/
theorem Isolated.others {other : Word} (hother : memory.Live other) (hne : other ≠ root) :
    ∀ table ∈ {table | (memory.space other).Attached memory.words table}, ∀ index,
      machine.words table index = memory.words table index := by
  intro table hatt index
  have hused := (h.rooted other hother).known table hatt
  exact congrFun (hframe.words table hused (h.not_onPath hroot hbelow hother hne hatt)) index

theorem Isolated.call : Isolated (memory.after machine) empty := by
  have hothers := fun other => @Isolated.others _ _ _ _ _ _ h hroot hbelow hframe other
  -- what is attached after the call, and was in use before, was attached before
  have hold : ∀ {other path table}, memory.Live other → path.length ≤ 3 →
      (memory.space other).tableAt machine.words path = some table →
        table ∉ memory.frames.inUse ∧ other = root ∨
          (memory.space other).tableAt memory.words path = some table := by
    intro other path table hother hlen hpath
    by_cases hne : other = root
    · subst hne
      exact (hframe.grown path table hlen hpath).imp_left fun hnot => ⟨hnot, rfl⟩
    · rw [(h.rooted other hother).attached.tableAt_congr (hothers other hother hne) path
        (by omega)] at hpath
      exact .inr hpath
  have hinUse : ∀ {other path table}, memory.Live other → path.length ≤ 3 →
      (memory.space other).tableAt memory.words path = some table →
        table ∈ memory.frames.inUse :=
    fun hother hlen hpath => (h.rooted _ hother).known_of_tableAt hpath hlen
  refine { h with rooted := fun other hother => ?_, apart := ?_ }
  · by_cases hne : other = root
    · subst hne
      exact hframe.rooted
    · have hrooted := (h.rooted other hother).attached.congr (hothers other hother hne)
      refine hrooted.mono fun table hatt => ?_
      exact hframe.kept table ((h.rooted other hother).known table hatt)
        (h.not_onPath hroot hbelow hother hne hatt)
  intro own hown other hother hne path path' table hlen hlen' hpath hpath'
  have hownLive : memory.Live own := .inr hown
  rcases hold hownLive hlen hpath with ⟨hfresh, rfl⟩ | hpath
  · rcases hold hother hlen' hpath' with ⟨-, rfl⟩ | hpath'
    · exact absurd rfl hne
    · exact absurd (hinUse hother hlen' hpath') hfresh
  · rcases hold hother hlen' hpath' with ⟨hfresh, -⟩ | hpath'
    · exact absurd (hinUse hownLive hlen hpath) hfresh
    · exact h.apart own hown other hother hne path path' table hlen hlen' hpath hpath'

end

/-! ## Creating and destroying spaces -/

theorem initializeAddressSpace_machine (root : Word) (bits : ℕ)
    (machine : Machine (Frames region)) :
    (initializeAddressSpace root (kernelBackend region bits) machine).2 = machine := by
  have htable : ∀ (space : AddressSpace (Frames region)) page,
      space.backend = kernelBackend region bits →
        (tableForPhysical space page machine).2 = machine := by
    intro space page hbackend
    have haccess : machine.access space.backend page = (page != 0#64, machine) := by
      rw [Machine.access, hbackend]
      rfl
    rw [tableForPhysical, haccess]
    cases page != 0#64 <;> split <;> rfl
  rw [initializeAddressSpace]
  dsimp only
  generalize (if (kernelBackend region bits).physicalAddressBits = 0
    then architecturalPhysicalAddressBits else _) = width
  split
  · rfl
  split
  · rfl
  split
  · rfl
  have hmachine := htable ⟨root, physicalMask width, kernelBackend region bits, true⟩ root rfl
  split
  · next heq =>
    rw [heq] at hmachine
    exact hmachine
  · next heq =>
    rw [heq] at hmachine
    exact hmachine

theorem eq_space_of_initialized {root : Word} {machine machine' : Machine (Frames region)}
    {space : AddressSpace (Frames region)}
    (h : initializeAddressSpace root (kernelBackend region memory.physicalAddressBits) machine =
      (.ok space, machine')) : space = memory.space root := by
  have hbits : (if (kernelBackend region memory.physicalAddressBits).physicalAddressBits = 0
      then architecturalPhysicalAddressBits
      else (kernelBackend region memory.physicalAddressBits).physicalAddressBits) =
        memory.physicalBits := rfl
  rw [initializeAddressSpace, hbits] at h
  dsimp only at h
  split at h
  · cases h
  split at h
  · cases h
  split at h
  · cases h
  split at h
  · cases h
    rfl
  · cases h

/-- The root entries that are empty in the kernel's table now belong to a space created now. -/
def SpaceRequest.track (memory : KernelMemory region) (empty : Word → Set (Fin 512)) :
    SpaceRequest → Word → Set (Fin 512)
  | create => fun root =>
    {index | root ∈ memory.spaces ∧ index ∈ empty root ∨
      root ∉ memory.spaces ∧ memory.words memory.kernelRoot index = 0#64}
  | _ => empty

theorem Isolated.in_use (h : Isolated memory empty) (hroot : memory.Live root) :
    root ∈ memory.frames.inUse := (h.rooted root hroot).known _ ⟨[], Nat.zero_le _, rfl⟩

theorem Isolated.overwrite (h : Isolated memory empty) {page : Word}
    (hfresh : page ∉ memory.frames.inUse) (entries : Fin 512 → Word) (frames : Frames region)
    (hframes : memory.frames.inUse ⊆ frames.inUse) :
    Isolated { memory with words := update memory.words page entries, frames := frames } empty := by
  have hsame : ∀ table ∈ memory.frames.inUse, ∀ index,
      update memory.words page entries table index = memory.words table index := by
    intro table htable index
    rw [update_of_ne]
    rintro rfl
    exact hfresh htable
  refine { h with
    rooted := fun other hother => ((h.rooted other hother).congr hsame).mono hframes, apart := ?_ }
  intro own hown other hother hne path path' table hlen hlen' hpath hpath'
  refine h.apart own hown other hother hne path path' table hlen hlen' ?_ ?_
  · exact ((h.rooted own (.inr hown)).tableAt_congr hsame path (by omega)).symm.trans hpath
  · exact ((h.rooted other hother).tableAt_congr hsame path' (by omega)).symm.trans hpath'

theorem tableAt_copy (memory : KernelMemory region) (hcopy : words root = words memory.kernelRoot) :
    (memory.space root).tableAt words (first :: rest) =
      (memory.space memory.kernelRoot).tableAt words (first :: rest) := by
  change resolve _ _ root _ = resolve _ _ memory.kernelRoot _
  rw [resolve, resolve, hcopy]
  rfl

theorem first_not_empty (h : (memory.space root).tableAt words (first :: rest) = some table) :
    words root first ≠ 0#64 := by
  intro hzero
  change resolve _ _ root _ = _ at h
  rw [resolve, hzero, childOf_zero] at h
  cases h

section

variable (h : Isolated memory empty)
include h

/-- A copy of the kernel's root is a new space. -/
theorem Isolated.add (hvalid : (memory.space root).Valid)
    (hcopy : memory.words root = memory.words memory.kernelRoot)
    (hunatt : ∀ other, memory.Live other → ¬ (memory.space other).Attached memory.words root)
    (hinUse : root ∈ memory.frames.inUse) {empty' : Word → Set (Fin 512)}
    (hold : ∀ own ∈ memory.spaces, empty' own = empty own)
    (hnew : empty' root = {index | memory.words memory.kernelRoot index = 0#64}) :
    Isolated { memory with spaces := root :: memory.spaces } empty' := by
  have hkernel : memory.Live memory.kernelRoot := .inl rfl
  have hkernelNe : memory.kernelRoot ≠ root :=
    fun heq => hunatt _ hkernel (heq ▸ ⟨[], Nat.zero_le _, rfl⟩)
  have hnotMem : root ∉ memory.spaces :=
    fun hmem => hunatt root (.inr hmem) ⟨[], Nat.zero_le _, rfl⟩
  -- below the root, the new space reaches what the kernel reaches
  have hcases : ∀ {path table}, (memory.space root).tableAt memory.words path = some table →
      path = [] ∧ table = root ∨ ∃ first rest, path = first :: rest ∧
        first ∉ empty' root ∧
        (memory.space memory.kernelRoot).tableAt memory.words path = some table := by
    intro path table hpath
    cases path with
    | nil => exact .inl ⟨rfl, (Option.some.inj hpath).symm⟩
    | cons first rest =>
      rw [tableAt_copy memory hcopy] at hpath
      refine .inr ⟨first, rest, rfl, ?_, hpath⟩
      rw [hnew]
      exact first_not_empty hpath
  have hrooted := h.rooted _ hkernel
  refine ⟨?_, ?_, ?_, ?_, nodup_cons.mpr ⟨hnotMem, h.nodup⟩⟩
  · rintro other (hother | hother)
    · exact h.valid other (.inl hother)
    · rcases mem_cons.mp hother with rfl | hother
      · exact hvalid
      · exact h.valid other (.inr hother)
  · rintro other (hother | hother)
    · exact h.rooted other (.inl hother)
    rcases mem_cons.mp hother with rfl | hother
    swap
    · exact h.rooted other (.inr hother)
    refine ⟨?_, ?_⟩
    · intro left right found hleft hright hfound hfound'
      rcases hcases hfound with ⟨rfl, hroot⟩ | ⟨_, _, -, -, hkept⟩ <;>
        rcases hcases hfound' with ⟨rfl, hroot'⟩ | ⟨_, _, -, -, hkept'⟩
      · rfl
      · exact absurd ⟨right, hright, hroot ▸ hkept'⟩ (hunatt _ hkernel)
      · exact absurd ⟨left, hleft, hroot' ▸ hkept⟩ (hunatt _ hkernel)
      · exact hrooted.eq_of_tableAt hkept hleft hkept' hright
    rintro _ ⟨path, hlen, hfound⟩
    rcases hcases hfound with ⟨-, rfl⟩ | ⟨_, _, -, -, hfound⟩
    · exact hinUse
    · exact hrooted.known_of_tableAt hfound hlen
  · intro own hown other hother hne path path' table hlen hlen' hpath hpath'
    rcases mem_cons.mp hown with rfl | hmem
    · have hlive : memory.Live other :=
        hother.imp_right fun hmem => (mem_cons.mp hmem).resolve_left hne
      rcases hcases hpath with ⟨-, hroot⟩ | ⟨first, rest, hsplit, hfirst, hkept⟩
      · exact absurd ⟨path', hlen', hroot ▸ hpath'⟩ (hunatt other hlive)
      refine ⟨?_, first, rest, hsplit, hfirst⟩
      rcases hlive with rfl | hmem
      · exact hrooted.eq_of_tableAt hkept hlen hpath' hlen'
      · have hkernelOther : memory.kernelRoot ≠ other := fun heq => h.kernel (heq ▸ hmem)
        exact (h.apart other hmem _ hkernel hkernelOther path' path table hlen' hlen hpath'
          hkept).1.symm
    · rw [hold own hmem]
      by_cases heq : other = root
      · rcases hcases (heq ▸ hpath') with ⟨-, hroot⟩ | ⟨-, -, -, -, hkept⟩
        · exact absurd ⟨path, hlen, hroot ▸ hpath⟩ (hunatt own (.inr hmem))
        · have hkernelOwn : memory.kernelRoot ≠ own := fun heq => h.kernel (heq ▸ hmem)
          exact h.apart own hmem _ hkernel hkernelOwn path path' table hlen hlen' hpath hkept
      · have hlive : memory.Live other :=
          hother.imp_right fun hmem => (mem_cons.mp hmem).resolve_left heq
        exact h.apart own hmem other hlive hne path path' table hlen hlen' hpath hpath'
  · rw [mem_cons, not_or]
    exact ⟨hkernelNe, h.kernel⟩

theorem Isolated.create :
    Isolated (createAddressSpace memory).2 (SpaceRequest.create.track memory empty) := by
  have htrack : ∀ own ∈ memory.spaces, SpaceRequest.create.track memory empty own = empty own :=
    fun own hown => by simp [SpaceRequest.track, hown]
  have hretrack : ∀ {memory' : KernelMemory region}, memory'.spaces = memory.spaces →
      Isolated memory' empty → Isolated memory' (SpaceRequest.create.track memory empty) := by
    intro memory' hspaces h'
    refine ⟨h'.valid, h'.rooted, fun own hown => ?_, h'.kernel, h'.nodup⟩
    rw [htrack own (hspaces ▸ hown)]
    exact h'.apart own hown
  rw [createAddressSpace]
  rcases allocFrame_cases memory.frames with hnone | ⟨index, hlt, hfree, hsome⟩
  · rw [hnone]
    exact hretrack rfl h
  rw [hsome]
  dsimp only
  have hfresh := Frames.not_mem_inUse_of_free hfree hlt
  have hmark := Frames.inUse_mark memory.frames hlt
  have hmachine := initializeAddressSpace_machine (region.frameAddress index)
    memory.physicalAddressBits ⟨update memory.words (region.frameAddress index)
      (memory.words memory.kernelRoot), memory.frames.mark index, []⟩
  have hkernelNe : memory.kernelRoot ≠ region.frameAddress index :=
    fun heq => hfresh (heq ▸ h.in_use (.inl rfl))
  split
  · next space machine heq =>
    rw [heq] at hmachine
    subst hmachine
    have hvalid := (AddressSpace.of_initialized heq).1
    rw [eq_space_of_initialized heq] at hvalid
    have hoverwrite := h.overwrite hfresh (memory.words memory.kernelRoot)
      (memory.frames.mark index) (by rw [hmark]; exact Set.subset_insert _ _)
    refine hoverwrite.add hvalid ?_ ?_ ?_ htrack ?_
    · change update memory.words _ _ _ = update memory.words _ _ _
      rw [update_self, update_of_ne hkernelNe]
    · intro other hother hatt
      have hkept := h.overwrite hfresh (memory.words memory.kernelRoot) memory.frames subset_rfl
      exact hfresh ((hkept.rooted other hother).known _ hatt)
    · rw [hmark]
      exact Set.mem_insert _ _
    · have hnotMem : region.frameAddress index ∉ memory.spaces :=
        fun hmem => hfresh (h.in_use (.inr hmem))
      simp [SpaceRequest.track, hnotMem, update_of_ne hkernelNe]
  · next status machine heq =>
    rw [heq] at hmachine
    subst hmachine
    refine hretrack rfl (h.overwrite hfresh _ _ ?_)
    intro page hpage
    refine (inUse_tryFreeFrame _ _).1 ⟨?_, fun heq => hfresh (heq ▸ hpage)⟩
    rw [hmark]
    exact Set.mem_insert_of_mem _ hpage

theorem Isolated.destroy (root : Word) : Isolated (destroyAddressSpace memory root).2 empty := by
  rw [destroyAddressSpace]
  split
  · exact h
  next hmem =>
  have hmem := not_not.mp hmem
  split
  · exact h
  have hlive : ∀ {other}, other = memory.kernelRoot ∨ other ∈ memory.spaces.erase root →
      memory.Live other ∧ other ≠ root := by
    rintro other (rfl | hother)
    · exact ⟨.inl rfl, fun heq => h.kernel (heq ▸ hmem)⟩
    · exact ⟨.inr (mem_of_mem_erase hother), ((h.nodup.mem_erase_iff).mp hother).1⟩
  refine ⟨fun other hother => h.valid other (hlive hother).1, fun other hother => ?_,
    fun own hown other hother => h.apart own (mem_of_mem_erase hown) other (hlive hother).1,
    fun hkernel => h.kernel (mem_of_mem_erase hkernel), h.nodup.erase root⟩
  obtain ⟨hpre, hne⟩ := hlive hother
  have hrooted := h.rooted other hpre
  refine hrooted.attached.mono fun table hatt => ?_
  refine (inUse_tryFreeFrame _ _).1 ⟨hrooted.known table hatt, ?_⟩
  intro heq
  -- the root of a created space is not reached from another root
  obtain ⟨path', hlen', hpath'⟩ := hatt
  obtain ⟨-, _, _, hnil, -⟩ :=
    h.apart root hmem other hpre hne [] path' root (Nat.zero_le _) hlen' rfl (heq ▸ hpath')
  cases hnil

end

end Kurogane.Memory
