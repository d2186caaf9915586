/-
# Mapping a page

`map_page` descends to the leaf table, publishing new tables where there are none.
Whatever goes wrong, the tables published so far are taken back, and memory is as
it was. If the descent succeeds, no walk has changed yet, and the leaf adds
exactly one mapping.
-/

import Kurogane.Memory.PageTree

namespace Kurogane.Memory

open Math List Bool

variable {σ : Type} {space : AddressSpace σ} {owned : σ → Set Word}
  {words words' : Word → Fin 512 → Word} {origin : Origin} {call : Call} {known : Set Word}
  {page physical table : Word} {flags : MapFlags}
  {holds : (Word → Fin 512 → Word) → Set Word → Word → Prop} {live : Set (List (Fin 512))}
  {machine machine' : Machine σ} {created older : List CreatedTable}

/-! ## Published tables -/

/-- The tables are published one after the other, the last of the list first. -/
def publishAll (words : Word → Fin 512 → Word) (created : List CreatedTable) :
    Word → Fin 512 → Word :=
  created.foldr (fun table words => publish words table) words

/-- The entries that publish the tables are cleared, from the first of the list on. -/
def detachAll (words : Word → Fin 512 → Word) (created : List CreatedTable) :
    Word → Fin 512 → Word :=
  created.foldl (fun words table => setEntry words table.parent table.index 0#64) words

/-- New tables: distinct pages that were not known, each published in an empty entry. -/
def FreshChain (known : Set Word) (words : Word → Fin 512 → Word) : List CreatedTable → Prop
  | [] => True
  | table :: older =>
    FreshChain known words older ∧ table.physicalAddress ∉ known ∧
      (∀ other ∈ older, other.physicalAddress ≠ table.physicalAddress) ∧
      table.parent ≠ table.physicalAddress ∧
      publishAll words older table.parent table.index = 0#64

theorem publishAll_append (newer older : List CreatedTable) :
    publishAll words (newer ++ older) = publishAll (publishAll words older) newer :=
  foldr_append

theorem FreshChain.append {created : CreatedTable} {newer : List CreatedTable}
    (h : FreshChain (insert created.physicalAddress known) (publish words created) newer)
    (hfresh : created.physicalAddress ∉ known) (hne : created.parent ≠ created.physicalAddress)
    (hzero : words created.parent created.index = 0#64) :
    FreshChain known words (newer ++ [created]) := by
  induction newer with
  | nil => exact ⟨trivial, hfresh, nofun, hne, hzero⟩
  | cons table newer ih =>
    obtain ⟨hnewer, hunknown, hdist, hpar, hslot⟩ := h
    refine ⟨ih hnewer, fun hmem => hunknown (.inr hmem), fun other hother => ?_, hpar, ?_⟩
    · rcases mem_append.mp hother with hother | hother
      · exact hdist other hother
      · rw [mem_singleton.mp hother]
        exact fun heq => hunknown (.inl heq.symm)
    · change publishAll words (newer ++ [created]) table.parent table.index = 0#64
      rw [publishAll_append]
      exact hslot

theorem FreshChain.not_known (h : FreshChain known words created) :
    ∀ table ∈ created, table.physicalAddress ∉ known := by
  induction created with
  | nil => exact nofun
  | cons _ _ ih =>
    obtain ⟨holder, hunknown, -⟩ := h
    intro other hother
    rcases mem_cons.mp hother with rfl | hother
    · exact hunknown
    · exact ih holder other hother

theorem FreshChain.nodup (h : FreshChain known words created) :
    (created.map CreatedTable.physicalAddress).Nodup := by
  induction created with
  | nil => exact nodup_nil
  | cons _ _ ih =>
    obtain ⟨holder, -, hdist, -⟩ := h
    refine nodup_cons.mpr ⟨?_, ih holder⟩
    intro hmem
    obtain ⟨other, hother, heq⟩ := mem_map.mp hmem
    exact hdist other hother heq

variable {access : Access} {result : Except PageStatus Word × List CreatedTable × Machine σ}
  {index : Fin 512} {status : PageStatus}

theorem setEntry_publish {created : CreatedTable}
    (hzero : words created.parent created.index = 0#64) (hne : table ≠ created.physicalAddress) :
    setEntry (publish words created) created.parent created.index 0#64 table index =
      words table index := by
  by_cases hslot : table = created.parent ∧ index = created.index
  · obtain ⟨rfl, rfl⟩ := hslot
    rw [setEntry_self, hzero]
  · rw [setEntry_of_ne hslot, publish_apply_of_ne hne hslot]

theorem detachAll_congr {other : Word}
    (h : ∀ table ≠ other, ∀ index, words' table index = words table index) :
    ∀ table ≠ other, ∀ index,
      detachAll words' created table index = detachAll words created table index := by
  induction created generalizing words words' with
  | nil => exact h
  | cons created _ ih =>
    refine ih fun table hne index => ?_
    dsimp only
    by_cases hslot : table = created.parent ∧ index = created.index
    · obtain ⟨rfl, rfl⟩ := hslot
      rw [setEntry_self, setEntry_self]
    · rw [setEntry_of_ne hslot, setEntry_of_ne hslot]
      exact h table hne index

/-- Taking the new tables back restores all others. -/
theorem FreshChain.detachAll_publishAll (h : FreshChain known words created)
    (htable : ∀ other ∈ created, table ≠ other.physicalAddress) (index : Fin 512) :
    detachAll (publishAll words created) created table index = words table index := by
  induction created with
  | nil => rfl
  | cons created older ih =>
    obtain ⟨holder, -, -, -, hzero⟩ := h
    have hne := htable created mem_cons_self
    calc detachAll (publishAll words (created :: older)) (created :: older) table index
        = detachAll (setEntry (publish (publishAll words older) created) created.parent
            created.index 0#64) older table index := rfl
      _ = detachAll (publishAll words older) older table index :=
          detachAll_congr (fun other hother index' => setEntry_publish hzero hother) table hne
            index
      _ = words table index := ih holder fun other hother => htable other (mem_cons_of_mem _ hother)

/-! ## Rolling back -/

theorem detach_created (created : List CreatedTable)
    (h : machine.Traced space owned origin call) :
    ∃ detached : Machine σ, created.foldl (fun machine table =>
        machine.storeEntry table.parent table.index 0#64) machine = detached ∧
      detached.words = detachAll machine.words created ∧
      outstanding detached.events = outstanding machine.events ∧
      detached.Traced space owned origin call := by
  induction created generalizing machine with
  | nil => exact ⟨machine, rfl, rfl, rfl, h⟩
  | cons table _ ih => exact ih (h.storeEntry table.parent table.index 0#64)

/-- A call that has changed nothing that was in use before. -/
structure Undone (owned : σ → Set Word) (machine machine' : Machine σ) : Prop where
  words : ∀ table ∈ owned machine.context, machine'.words table = machine.words table
  outstanding : outstanding machine'.events = outstanding machine.events

theorem Machine.Traced.not_outstanding (h : machine.Traced space owned origin call)
    (hchain : FreshChain (owned machine.context) words created) :
    ∀ table ∈ created.map CreatedTable.physicalAddress, table ∉ outstanding machine.events := by
  refine forall_mem_map.mpr fun table htable hmem => hchain.not_known table htable ?_
  rw [h.owned]
  exact .inr hmem

theorem sep_union_not_mem {tables : Set Word} {new : List Word}
    (h : ∀ table ∈ new, table ∉ tables) :
    {table ∈ tables ∪ {table | table ∈ new} | table ∉ new} = tables := by
  ext table
  constructor
  · rintro ⟨hmem | hmem, hnot⟩
    · exact hmem
    · exact absurd hmem hnot
  · exact fun hmem => ⟨.inl hmem, fun hnew => h table hnew hmem⟩

/-- Rolling back what was created since some earlier state. -/
theorem rollback_spec (hlaw : space.backend.Lawful owned) {before : Machine σ}
    (hroot : Rooted space before.words (owned before.context))
    (hchain : FreshChain (owned before.context) before.words created)
    (hwords : machine.words = publishAll before.words created)
    (hout : outstanding machine.events = outstanding before.events ∪
      {table | table ∈ created.map CreatedTable.physicalAddress})
    (hbefore : before.Traced space owned origin call)
    (htraced : machine.Traced space owned origin call) :
    Undone owned before (rollbackCreatedTables space created call.page machine) ∧
      (rollbackCreatedTables space created call.page machine).Traced space owned origin call := by
  have hrestored : ∀ table ∈ owned before.context, ∀ index,
      detachAll machine.words created table index = before.words table index := by
    intro table hknown index
    rw [hwords]
    refine hchain.detachAll_publishAll (fun other hother heq => ?_) index
    exact hchain.not_known other hother (heq ▸ hknown)
  rw [rollbackCreatedTables]
  split
  · next hnil =>
    subst hnil
    refine ⟨⟨fun table hknown => funext (hrestored table hknown), ?_⟩, htraced⟩
    rw [hout]
    ext table
    simp
  obtain ⟨detached, hfold, hdetached, hdetachedOut, hdetachedTraced⟩ :=
    detach_created created htraced
  rw [hfold]
  have hunatt : ∀ table ∈ created.map CreatedTable.physicalAddress,
      ¬ space.Attached (replay origin.words detached.events) table := by
    intro table hmem hatt
    obtain ⟨other, hother, rfl⟩ := mem_map.mp hmem
    rw [← hdetachedTraced.words, hdetached] at hatt
    exact hchain.not_known other hother ((hroot.congr hrestored).known _ hatt)
  have hevs : (detached.invalidatePage space.backend call.page).events =
      [] ++ .invalidated call.page :: detached.events := rfl
  have hfrees := freeTables_traced hlaw (created.map CreatedTable.physicalAddress) hchain.nodup
    (hdetachedTraced.invalidatePage hlaw call.page) ?_ hevs nofun hunatt
  · rw [foldl_map] at hfrees
    obtain ⟨hfreed, hfreedWords, hfreedOut⟩ := hfrees
    refine ⟨⟨fun table hknown => ?_, ?_⟩, hfreed⟩
    · rw [hfreedWords]
      change detached.words table = _
      rw [hdetached]
      exact funext (hrestored table hknown)
    rw [hfreedOut]
    change {table ∈ outstanding detached.events | _} = _
    rw [hdetachedOut, hout]
    exact sep_union_not_mem (hbefore.not_outstanding hchain)
  · intro table hmem
    change table ∈ outstanding detached.events
    rw [hdetachedOut, hout]
    exact .inr hmem

/-! ## Allocating a table -/

theorem allocateChildTable_cases (hspace : space.Valid) (hlaw : space.backend.Lawful owned)
    (h : machine.Traced space owned origin call) {parent : Word}
    {answer : Except PageStatus Word} {result : Machine σ}
    (hcall : allocateChildTable space parent index machine = (answer, result)) :
    (∃ status ≠ PageStatus.ok, answer = .error status ∧ result.words = machine.words ∧
        outstanding result.events = outstanding machine.events ∧
        result.Traced space owned origin call) ∨
      ∃ table, answer = .ok table ∧ table ∉ owned machine.context ∧
        Within table space.physicalAddressMask ∧
        result.words = publish machine.words ⟨parent, index, table⟩ ∧
        outstanding result.events = insert table (outstanding machine.events) ∧
        result.Traced space owned origin call := by
  rw [allocateChildTable, Machine.allocateTable] at hcall
  rcases heq : space.backend.allocateTable machine.context with ⟨_ | table, context⟩ <;>
    rw [heq] at hcall
  · cases hcall
    exact .inl ⟨.outOfMemory, by decide, rfl, rfl, rfl, h.same ⟨rfl, rfl, hlaw.refused _ _ heq⟩⟩
  have hfresh := (hlaw.allocated _ _ _ heq).1
  have htraced := h.allocated hlaw heq
  have hnot : table ∉ outstanding machine.events := by
    intro hmem
    rw [h.owned] at hfresh
    exact hfresh (.inr hmem)
  dsimp only at hcall
  generalize hnext : ({ machine with
    context := context, events := .allocated table :: machine.events } : Machine σ) = next
    at htraced hcall
  have hwords : next.words = machine.words := hnext ▸ rfl
  have hevs : next.events = .allocated table :: machine.events := hnext ▸ rfl
  -- an unusable table goes back at once
  have hback : ∀ {machine' : Machine σ}, next.Same owned machine' →
      (machine'.freeTable space.backend table).words = machine.words ∧
        outstanding (machine'.freeTable space.backend table).events = outstanding machine.events ∧
        (machine'.freeTable space.backend table).Traced space owned origin call := by
    intro machine' hsame
    have hevs' : machine'.events = .allocated table :: machine.events := hsame.events.trans hevs
    refine ⟨hsame.words.trans hwords, ?_, (htraced.same hsame).freeTable hlaw ⟨?_, .inl ?_⟩⟩
    · rw [Machine.freeTable, hevs', outstanding, outstanding]
      exact Set.insert_sdiff_self_of_notMem hnot
    · rw [hevs']
      exact Set.mem_insert _ _
    · exact ⟨machine.events, hevs'⟩
  split at hcall
  · cases hcall
    exact .inl ⟨.backendFailure, by decide, rfl, hback (.refl _)⟩
  next hvalid =>
  have hin := (validatePhysicalPage_eq_ok_iff hspace).mp (not_not.mp hvalid)
  obtain ⟨hstat, hsame⟩ := tableForPhysical_cases hspace hlaw hin next
  generalize tableForPhysical space table next = access at hstat hsame hcall
  obtain ⟨_, accessed⟩ := access
  rcases hstat with rfl | rfl <;> cases hcall
  · refine .inr ⟨table, rfl, hfresh, hin, ?_, ?_,
      ((htraced.same hsame).clearTable table).storeEntry _ _ _⟩
    · change setEntry (Function.update accessed.words table fun _ => 0#64) parent index
        (createdEntry table) = _
      rw [publish, hsame.words, hwords]
    · change outstanding accessed.events = _
      rw [hsame.events, hevs]
      rfl
  · exact .inl ⟨.backendFailure, by decide, rfl, hback hsame⟩

/-! ## Permissions -/

structure Grants (flags : MapFlags) (access : Access) : Prop where
  writable : hasFlag flags .writable → access.writable
  user : hasFlag flags .user → access.user
  noExecute : hasFlag flags .noExecute = false → access.noExecute = false

theorem Grants.restrict {value : Word} (h : Grants flags access)
    (hvalue : permissionConflict flags value = false) : Grants flags (access.restrict value) := by
  simp only [permissionConflict, or_eq_false_iff, and_eq_false_iff] at hvalue
  obtain ⟨⟨hwritable, huser⟩, hnoExecute⟩ := hvalue
  refine ⟨fun hflag => ?_, fun hflag => ?_, fun hflag => ?_⟩
  · have hentry := hwritable.resolve_left (by rw [hflag]; decide)
    simp only [Access.restrict, h.writable hflag, Bool.true_and]
    simpa using hentry
  · have hentry := huser.resolve_left (by rw [hflag]; decide)
    simp only [Access.restrict, h.user hflag, Bool.true_and]
    simpa using hentry
  · have hentry := hnoExecute.resolve_left (by rw [hflag]; decide)
    simp only [Access.restrict, h.noExecute hflag, Bool.false_or]
    exact hentry

theorem permissionConflict_createdEntry (hspace : space.Valid)
    (hin : Within table space.physicalAddressMask) (flags : MapFlags) :
    permissionConflict flags (createdEntry table) = false := by
  rw [permissionConflict, createdEntry_and_flag hspace.mask hin entryWritable (by decide),
    createdEntry_and_flag hspace.mask hin entryUser (by decide),
    createdEntry_and_flag hspace.mask hin entryNoExecute (by decide)]
  generalize hasFlag flags .writable = writable
  generalize hasFlag flags .user = user
  generalize hasFlag flags .noExecute = noExecute
  revert writable user noExecute
  decide

/-- The leaf restricts the permissions to the requested ones, so these are read back. -/
theorem mappingFlags_leaf (hspace : space.Valid) (hin : Within physical space.physicalAddressMask)
    (hflags : validMapFlags flags) (h : Grants flags access) :
    mappingFlags (physical ||| hardwareLeafFlags flags)
      (access.restrict (physical ||| hardwareLeafFlags flags)) = flags := by
  have hflag : ∀ flag, architecturalAddressMask &&& flag = 0#64 →
      (physical ||| hardwareLeafFlags flags) &&& flag = hardwareLeafFlags flags &&& flag :=
    fun _ hflag => or_and_flag _ _ hspace.mask hin hflag
  obtain ⟨-, hwritable, huser, hthrough, hdisable, hglobal, hnoExecute, -, -⟩ :=
    hardwareLeafFlags_and_flag flags
  have haccess : access.restrict (physical ||| hardwareLeafFlags flags) =
      ⟨hasFlag flags .writable, hasFlag flags .user, hasFlag flags .noExecute⟩ := by
    simp only [Access.restrict, hflag entryWritable (by decide), hflag entryUser (by decide),
      hflag entryNoExecute (by decide), hwritable, huser, hnoExecute, Access.mk.injEq]
    refine ⟨and_eq_right_iff_imp.mpr h.writable, and_eq_right_iff_imp.mpr h.user,
      or_eq_right_iff_imp.mpr fun hset => ?_⟩
    by_contra hclear
    exact absurd (h.noExecute (by simpa using hclear)) (by simp [hset])
  have hread : ∀ {entry flag}, (hardwareLeafFlags flags &&& entry != 0#64) = hasFlag flags flag →
      (hardwareLeafFlags flags &&& entry ≠ 0#64 ↔ hasFlag flags flag) := by
    intro entry flag heq
    rw [← heq, bne_iff_ne]
  rw [mappingFlags, haccess, hflag entryWriteThrough (by decide),
    hflag entryCacheDisable (by decide), hflag entryGlobal (by decide)]
  simp only [hread hthrough, hread hdisable, hread hglobal]
  exact validFlags_eq hflags

/-! ## Descending -/

def AddressSpace.startOf (space : AddressSpace σ) : WalkState :=
  ⟨[], space.rootTablePhysical, ⟨true, true, false⟩⟩

/-- The created tables are the deepest tables of a path, each published in the next one. -/
def ChainOf (page : Word) : List CreatedTable → List Word → Prop
  | [], _ => True
  | created :: older, tables =>
    ∃ above, tables = created.physicalAddress :: created.parent :: above ∧
      created.index = tableIndex page above.length ∧ ChainOf page older (created.parent :: above)

theorem ChainOf.append {created : CreatedTable} {newer : List CreatedTable} {above : List Word}
    (h : ChainOf page newer
      (newer.map CreatedTable.physicalAddress ++
        created.physicalAddress :: created.parent :: above))
    (hidx : created.index = tableIndex page above.length) :
    ChainOf page (newer ++ [created])
      (newer.map CreatedTable.physicalAddress ++
        created.physicalAddress :: created.parent :: above) := by
  induction newer with
  | nil => exact ⟨above, rfl, hidx, trivial⟩
  | cons _ _ ih =>
    obtain ⟨above', htables, hfirst, hnewer⟩ := h
    refine ⟨above', htables, hfirst, ?_⟩
    have htail := (cons.inj htables).2
    rw [← htail] at hnewer ⊢
    exact ih hnewer

/-- A property of the tables of the module that survives the publication of a table. Its last
argument is the table that a descent has reached. -/
structure AttachInvariant (space : AddressSpace σ)
    (holds : (Word → Fin 512 → Word) → Set Word → Word → Prop) : Prop where
  attach : ∀ {words known ours path node index table}, Rooted space words known →
    space.tableAt words path = some node → path.length ≤ 2 → words node index = 0#64 →
    table ∉ known → Within table space.physicalAddressMask → holds words ours node →
      holds (publish words ⟨node, index, table⟩) (insert table ours) table
  step : ∀ {words ours node} index next, words node index ≠ 0#64 → holds words ours node →
    holds words ours next

theorem Managed.attachInvariant (hspace : space.Valid) (live : Set (List (Fin 512))) :
    AttachInvariant space fun words ours table => Managed space words ours live {table} where
  attach := fun hroot hpath hlen hzero hfresh hin h =>
    Managed.attach hspace hroot hpath hlen hzero hfresh hin h
  step := fun _ _ hne h => h.settle (fun _ => ⟨_, hne⟩) _

/-- A successful descent: the path to the leaf table, which tables of it are new, and that no
walk has changed. -/
structure Arrived (space : AddressSpace σ) (owned : σ → Set Word) (page : Word) (flags : MapFlags)
    (holds : (Word → Fin 512 → Word) → Set Word → Word → Prop) (machine machine' : Machine σ)
    (new : List CreatedTable) (old state : WalkState) : Prop where
  rooted : Rooted space machine'.words (owned machine'.context)
  grown : ∀ path table, path.length ≤ 3 → space.tableAt machine'.words path = some table →
    table ∉ owned machine.context ∨ space.tableAt machine.words path = some table
  holds : holds machine'.words (outstanding machine'.events) state.table
  advanced : advance space.physicalAddressMask machine'.words page [0, 1, 2] space.startOf =
    some state
  grants : Grants flags state.access
  walks : ∀ page', space.walkOf machine'.words page' = space.walkOf machine.words page'
  tables : state.table :: state.above =
    new.map CreatedTable.physicalAddress ++ old.table :: old.above
  chain : ChainOf page new (state.table :: state.above)
  old : ∃ front, front <+: [0, 1, 2] ∧
    advance space.physicalAddressMask machine.words page front space.startOf = some old

theorem Arrived.of_same {start machine' : Machine σ} {new : List CreatedTable}
    {old state : WalkState} (hsame : machine.Same owned start)
    (h : Arrived space owned page flags holds start machine' new old state) :
    Arrived space owned page flags holds machine machine' new old state where
  __ := h
  grown := by
    rw [← hsame.words, ← hsame.owned]
    exact h.grown
  walks := fun page' => by rw [h.walks, hsame.words]
  old := by
    rw [← hsame.words]
    exact h.old

section

variable (space owned origin call page flags holds machine)

/-- What a descent has done when it ends, well or not. -/
structure DescendSpec (state : WalkState) (created : List CreatedTable)
    (result : Except PageStatus Word × List CreatedTable × Machine σ) (new : List CreatedTable) :
    Prop where
  created : result.2.1 = new ++ created
  words : result.2.2.words = publishAll machine.words new
  outstanding : outstanding result.2.2.events = outstanding machine.events ∪
    {table | table ∈ new.map CreatedTable.physicalAddress}
  traced : result.2.2.Traced space owned origin call
  fresh : FreshChain (owned machine.context) machine.words new
  within : ∀ table ∈ new, Within table.physicalAddress space.physicalAddressMask
  failed : ∀ status, result.1 = .error status → status ≠ .ok
  arrived : ∀ table, result.1 = .ok table → ∃ old state', state'.table = table ∧
    Arrived space owned page flags holds machine result.2.2 new old state' ∧
    (tableEmpty machine.words state.table → old = state)

end

theorem DescendSpec.stop {machine' : Machine σ} {state : WalkState}
    (hwords : machine'.words = machine.words)
    (hout : Memory.outstanding machine'.events = Memory.outstanding machine.events)
    (htraced : machine'.Traced space owned origin call) (hstat : status ≠ .ok) :
    DescendSpec space owned origin call page flags holds machine state created
      (.error status, created, machine') [] where
  created := rfl
  words := hwords
  outstanding := by
    rw [hout]
    ext table
    simp
  traced := htraced
  fresh := trivial
  within := nofun
  failed := by
    intro other heq
    cases heq
    exact hstat
  arrived := nofun

variable {front levels : List ℕ} {level : ℕ}

theorem advance_publish {state : WalkState} (level : ℕ) (hspace : space.Valid)
    (h : Rooted space words known)
    (hadv : advance space.physicalAddressMask words page front space.startOf = some state)
    (hlen : front.length ≤ 2) (hfresh : table ∉ known)
    (hin : Within table space.physicalAddressMask) :
    advance space.physicalAddressMask (publish words ⟨state.table, tableIndex page level, table⟩)
        page (front ++ [level]) space.startOf =
      some ⟨state.table :: state.above, table, state.access.restrict (createdEntry table)⟩ := by
  have hpath : space.tableAt words (front.map (tableIndex page)) = some state.table :=
    resolve_of_advance hadv
  have hsame : advance space.physicalAddressMask
      (publish words ⟨state.table, tableIndex page level, table⟩) page front space.startOf =
        some state := by
    rw [← hadv]
    refine advance_congr fun initial index _ hlt middle hmid => ?_
    refine publish_apply_of_ne ?_ ?_
    · rintro rfl
      exact hfresh (h.known_of_tableAt hmid (by omega))
    rintro ⟨rfl, rfl⟩
    have heq := h.eq_of_tableAt hmid (by omega) hpath (by simp; omega)
    rw [heq, length_map] at hlt
    omega
  rw [advance_append, hsame, Option.bind_some, advance]
  have hslot : publish words ⟨state.table, tableIndex page level, table⟩ state.table
      (tableIndex page level) = createdEntry table := setEntry_self
  rw [hslot, childOf_createdEntry hspace.mask hin]
  rfl

theorem length_front_le (h : front ++ level :: levels = [0, 1, 2]) : front.length ≤ 2 := by
  have hlengths := congrArg length h
  simp only [length_append, length_cons, length_nil] at hlengths
  omega

theorem level_eq (h : front ++ level :: levels = [0, 1, 2]) : level = front.length := by
  match front, h with
  | [], h => exact (cons.inj h).1
  | [_], h => exact (cons.inj (cons.inj h).2).1
  | [_, _], h => exact (cons.inj (cons.inj (cons.inj h).2).2).1
  | _ :: _ :: _ :: rest, h =>
    have hlengths := congrArg length h
    simp at hlengths

theorem DescendSpec.of_same {next : Machine σ} {state state' : WalkState} {new : List CreatedTable}
    (hsame : machine.Same owned next) (hnonempty : ¬ tableEmpty machine.words state.table)
    (h : DescendSpec space owned origin call page flags holds next state' created
      result new) :
    DescendSpec space owned origin call page flags holds machine state created result
      new where
  __ := h
  words := by rw [h.words, hsame.words]
  outstanding := by rw [h.outstanding, hsame.events]
  fresh := by
    rw [← hsame.words, ← hsame.owned]
    exact h.fresh
  arrived table heq := by
    obtain ⟨old, state', hstate', harr, -⟩ := h.arrived table heq
    exact ⟨old, state', hstate', harr.of_same hsame, fun hempty => absurd hempty hnonempty⟩

section Attach

variable {front levels : List ℕ} {level : ℕ} {state state' : WalkState}
  {next machine' : Machine σ} {new : List CreatedTable} (hspace : space.Valid)
  (hroot : Rooted space machine.words (owned machine.context))
  (hlevels : front ++ level :: levels = [0, 1, 2])
  (hadv : advance space.physicalAddressMask machine.words page front space.startOf = some state)
  (hzero : machine.words state.table (tableIndex page level) = 0#64)
  (hfresh : table ∉ owned machine.context) (hin : Within table space.physicalAddressMask)
  (hwords : next.words = publish machine.words ⟨state.table, tableIndex page level, table⟩)
  (hknown : owned next.context = insert table (owned machine.context))
include hspace hroot hlevels hadv hzero hfresh hin hwords hknown

theorem Arrived.attach (h : Arrived space owned page flags holds next machine' new
      ⟨state.table :: state.above, table, state.access.restrict (createdEntry table)⟩ state') :
    Arrived space owned page flags holds machine machine'
      (new ++ [⟨state.table, tableIndex page level, table⟩]) state state' := by
  have hpath : space.tableAt machine.words (front.map (tableIndex page)) = some state.table :=
    resolve_of_advance hadv
  have hlen : (front.map (tableIndex page)).length ≤ 2 := by
    rw [length_map]
    exact length_front_le hlevels
  have htables := h.tables
  refine ⟨h.rooted, fun path' found hlen' hfound => ?_, h.holds, h.advanced, h.grants,
    fun page' => ?_, ?_, ?_, front, ⟨level :: levels, hlevels⟩, hadv⟩
  · rcases h.grown path' found hlen' hfound with hnew | hpath'
    · exact .inl fun hmem => hnew (hknown ▸ .inr hmem)
    rw [hwords, hroot.tableAt_attach hspace hpath hlen hzero hfresh hin path' (by omega)] at hpath'
    split at hpath'
    · cases hpath'
      exact .inl hfresh
    · exact .inr hpath'
  · rw [h.walks page', hwords]
    exact hroot.walkOf_attach hspace hpath hlen hzero hfresh hin page'
  · rw [htables]
    simp
  have hchain := h.chain
  rw [htables] at hchain ⊢
  refine @ChainOf.append page ⟨state.table, tableIndex page level, table⟩ new state.above hchain ?_
  rw [length_above_of_advance hadv, level_eq hlevels]
  exact congrArg (tableIndex page) (zero_add _).symm

theorem DescendSpec.attach
    (hout : Memory.outstanding next.events = insert table (Memory.outstanding machine.events))
    (h : DescendSpec space owned origin call page flags holds next
      ⟨state.table :: state.above, table, state.access.restrict (createdEntry table)⟩
      (⟨state.table, tableIndex page level, table⟩ :: created) result new) :
    DescendSpec space owned origin call page flags holds machine state created result
      (new ++ [⟨state.table, tableIndex page level, table⟩]) := by
  have hne : table ≠ state.table := by
    rintro rfl
    refine hfresh (hroot.known_of_tableAt (resolve_of_advance hadv) ?_)
    rw [length_map]
    exact (length_front_le hlevels).trans (by decide)
  refine ⟨?_, ?_, ?_, h.traced, ?_, ?_, h.failed, fun table' heq => ?_⟩
  · rw [h.created, append_assoc, singleton_append]
  · rw [h.words, hwords, publishAll_append]
    rfl
  · rw [h.outstanding, hout]
    ext other
    simp only [Set.mem_union, Set.mem_insert_iff, Set.mem_ofPred_eq, map_append,
      mem_append, map_cons, map_nil, mem_singleton]
    tauto
  · refine FreshChain.append ?_ hfresh hne.symm hzero
    rw [← hknown, ← hwords]
    exact h.fresh
  · intro other hother
    rcases mem_append.mp hother with hother | hother
    · exact h.within other hother
    · rw [mem_singleton.mp hother]
      exact hin
  obtain ⟨_, state', hstate', harr, hold⟩ := h.arrived table' heq
  -- the new table is empty, so the way below it is new as well
  obtain rfl := hold fun index => by
    rw [hwords]
    exact publish_apply_self hne index
  exact ⟨state, state', hstate', harr.attach hspace hroot hlevels hadv hzero hfresh hin
    hwords hknown, fun _ => rfl⟩

end Attach

theorem descend_spec (hspace : space.Valid) (hlaw : space.backend.Lawful owned)
    (levels front : List ℕ) (hlevels : front ++ levels = [0, 1, 2]) {state : WalkState}
    (hroot : Rooted space machine.words (owned machine.context))
    (htraced : machine.Traced space owned origin call)
    (hinv : AttachInvariant space holds)
    (hholds : holds machine.words (outstanding machine.events) state.table)
    (hadv : advance space.physicalAddressMask machine.words page front space.startOf = some state)
    (hgrants : Grants flags state.access) (created : List CreatedTable) :
    ∃ new, DescendSpec space owned origin call page flags holds machine state created
      (descend space page flags levels state.table created machine) new := by
  have hpath : space.tableAt machine.words (front.map (tableIndex page)) = some state.table :=
    resolve_of_advance hadv
  induction levels generalizing front state created machine with
  | nil =>
    rw [append_nil] at hlevels
    subst hlevels
    refine ⟨[], rfl, rfl, by rw [descend]; ext table; simp, htraced, trivial, nofun, nofun, ?_⟩
    rintro table heq
    cases heq
    exact ⟨state, state, rfl, ⟨hroot, fun _ _ _ hpath => .inr hpath, hholds, hadv, hgrants,
      fun _ => rfl, rfl, trivial,
      [0, 1, 2], prefix_rfl, hadv⟩, fun _ => rfl⟩
  | cons level levels ih =>
    have hfront := length_front_le hlevels
    have hlevels' : (front ++ [level]) ++ levels = [0, 1, 2] := by
      rw [append_assoc, singleton_append, hlevels]
    rw [descend]
    split
    · -- there is no table here
      split
      · exact ⟨[], .stop rfl rfl htraced (by decide)⟩
      next hzero =>
      have hzero := not_not.mp hzero
      obtain ⟨⟨answer, next⟩, hcall⟩ : ∃ result,
        allocateChildTable space state.table (tableIndex page level) machine = result := ⟨_, rfl⟩
      rw [hcall]
      rcases allocateChildTable_cases hspace hlaw htraced hcall with
        ⟨status, hstat, rfl, hwords, hout, htraced'⟩ |
        ⟨table, rfl, hfresh, hin, hwords, hout, htraced'⟩
      · exact ⟨[], .stop hwords hout htraced' hstat⟩
      have hknown : owned next.context = insert table (owned machine.context) := by
        rw [htraced'.owned, htraced.owned, hout, Set.union_insert]
      have hlen : (front.map (tableIndex page)).length ≤ 2 := by
        rw [length_map]
        exact hfront
      have hroot' : Rooted space next.words (owned next.context) := by
        rw [hwords, hknown]
        exact hroot.attach hspace hpath hlen hzero hfresh hin
      have hholds' : holds next.words (outstanding next.events) table := by
        rw [hwords, hout]
        exact hinv.attach hroot hpath hlen hzero hfresh hin hholds
      have hadv' := advance_publish level hspace hroot hadv hfront hfresh hin
      rw [← hwords] at hadv'
      obtain ⟨new, hnew⟩ := ih (front ++ [level]) hlevels' hroot' htraced' hholds' hadv'
        (hgrants.restrict (permissionConflict_createdEntry hspace hin flags))
        (⟨state.table, tableIndex page level, table⟩ :: created)
        (resolve_of_advance hadv')
      exact ⟨_, hnew.attach hspace hroot hlevels hadv hzero hfresh hin hwords hknown hout⟩
    next hpres =>
    split
    · next hhuge =>
      refine ⟨[], .stop rfl rfl htraced ?_⟩
      split <;> decide
    next hhuge =>
    split
    · exact ⟨[], .stop rfl rfl htraced (by decide)⟩
    next hpermission =>
    obtain ⟨hchild, hsame⟩ := childTableFromEntry_cases hspace hlaw hpres (not_not.mp hhuge) machine
    generalize hvalue : machine.words state.table (tableIndex page level) = value at *
    generalize childTableFromEntry space value machine = result at hchild hsame
    obtain ⟨_, next⟩ := result
    have htraced' := htraced.same hsame
    rcases hchild with rfl | hchild
    · exact ⟨[], .stop hsame.words (by rw [hsame.events]) htraced' (by decide)⟩
    cases hof : childOf space.physicalAddressMask value with
    | none =>
      rw [hof] at hchild
      subst hchild
      exact ⟨[], .stop hsame.words (by rw [hsame.events]) htraced' (by decide)⟩
    | some child =>
      rw [hof] at hchild
      subst hchild
      have hadv' : advance space.physicalAddressMask next.words page (front ++ [level])
          space.startOf =
            some ⟨state.table :: state.above, child, state.access.restrict value⟩ := by
        rw [hsame.words, advance_append, hadv, Option.bind_some, advance, hvalue, hof]
        rfl
      have hholds' : holds next.words (outstanding next.events) child := by
        rw [hsame.words, hsame.events]
        refine hinv.step (tableIndex page level) _ ?_ hholds
        rw [hvalue]
        rintro rfl
        cases hof
      obtain ⟨new, hnew⟩ := ih (front ++ [level]) hlevels'
        (by rw [hsame.words, hsame.owned]; exact hroot) htraced' hholds' hadv'
        (hgrants.restrict (by simpa using hpermission)) created
        (resolve_of_advance hadv')
      refine ⟨new, hnew.of_same hsame fun hempty => ?_⟩
      have hzero : value = 0#64 := hvalue.symm.trans (hempty _)
      rw [hzero, childOf_zero] at hof
      cases hof

/-! ## `map_page` -/

section

variable (space owned origin live machine)

/-- The page tables of a machine: a tree, explained by the log, with the tables of the module
leading to live mappings. -/
structure Machine.Sound : Prop where
  rooted : Rooted space machine.words (owned machine.context)
  traced : ∀ page, machine.Traced space owned origin ⟨page, machine.events⟩
  managed : Managed space machine.words (outstanding machine.events) live ∅

end

theorem Machine.Traced.owned_eq {call' : Call} (h : machine.Traced space owned origin call)
    (h' : machine'.Traced space owned origin call')
    (hout : outstanding machine'.events = outstanding machine.events) :
    owned machine'.context = owned machine.context := by
  rw [h.owned, h'.owned, hout]

theorem Machine.Sound.undone (h : machine.Sound space owned origin live)
    (hundone : Undone owned machine machine')
    (htraced : machine'.Traced space owned origin call) :
    machine'.Sound space owned origin live := by
  have hsame : ∀ table ∈ owned machine.context, ∀ index,
      machine'.words table index = machine.words table index :=
    fun table htable index => congrFun (hundone.words table htable) index
  refine ⟨?_, htraced.restart, ?_⟩
  · rw [(h.traced 0).owned_eq htraced hundone.outstanding]
    exact h.rooted.congr hsame
  · rw [hundone.outstanding]
    exact Managed.congr h.rooted hsame h.managed

theorem Undone.of_same (h : machine.Same owned machine') : Undone owned machine machine' :=
  ⟨fun table _ => by rw [h.words], by rw [h.events]⟩

section

variable (space owned page physical flags holds machine machine')

/-- A successful mapping: new tables lead to the leaf, which was empty. -/
structure Placed (new : List CreatedTable) (old state : WalkState) : Prop where
  validFlags : validMapFlags flags
  validPage : validateVirtualPage page = .ok
  inMask : Within physical space.physicalAddressMask
  fresh : FreshChain (owned machine.context) machine.words new
  within : ∀ table ∈ new, Within table.physicalAddress space.physicalAddressMask
  outstanding : outstanding machine'.events = outstanding machine.events ∪
    {table | table ∈ new.map CreatedTable.physicalAddress}
  arrived : ∃ middle, Arrived space owned page flags holds machine middle new old state ∧
    middle.words = publishAll machine.words new ∧
    Memory.outstanding middle.events = Memory.outstanding machine'.events ∧
    owned middle.context = owned machine'.context
  empty : publishAll machine.words new state.table (tableIndex page 3) = 0#64
  words : machine'.words = setEntry (publishAll machine.words new) state.table (tableIndex page 3)
    (physical ||| hardwareLeafFlags flags)

end

section

variable (space owned origin page physical flags holds machine)

/-- What `map_page` does: nothing that lasts, or one mapping. -/
structure MapSpec (result : PageStatus × Machine σ) : Prop where
  traced : result.2.Traced space owned origin ⟨page, machine.events⟩
  failed : result.1 ≠ .ok → Undone owned machine result.2
  placed : result.1 = .ok → ∃ new old state,
    Placed space owned page physical flags holds machine result.2 new old state

end

theorem MapSpec.of_same (htraced : machine.Traced space owned origin call)
    (hsame : machine.Same owned machine') (hstat : status ≠ .ok) :
    MapSpec space owned origin page physical flags holds machine
      (status, machine') :=
  ⟨(htraced.restart page).same hsame, fun _ => .of_same hsame, fun hok => absurd hok hstat⟩

section

variable (hspace : space.Valid) (hlaw : space.backend.Lawful owned)
include hspace hlaw

theorem mapPage_spec (hmachine : Rooted space machine.words (owned machine.context))
    (htraced : machine.Traced space owned origin call)
    (hinv : AttachInvariant space holds)
    (hholds : holds machine.words (outstanding machine.events) space.rootTablePhysical)
    (page physical : Word) (flags : MapFlags) :
    MapSpec space owned origin page physical flags holds machine
      (mapPage space page physical flags machine) := by
  rw [mapPage, hspace.initialized, if_neg (by simp)]
  split
  · exact .of_same htraced (.refl _) (by decide)
  next hflags =>
  split
  · next hpage => exact .of_same htraced (.refl _) hpage
  next hpage =>
  split
  · next hphys => exact .of_same htraced (.refl _) hphys
  next hphys =>
  have hin := (validatePhysicalPage_eq_ok_iff hspace).mp (not_not.mp hphys)
  obtain ⟨hstat, hsame⟩ := tableForPhysical_cases hspace hlaw hspace.root machine
  generalize tableForPhysical space space.rootTablePhysical machine = result at hstat hsame
  obtain ⟨status, start⟩ := result
  rcases hstat with rfl | rfl
  swap
  · exact .of_same htraced hsame (by decide)
  have hholds' : holds start.words (outstanding start.events) space.startOf.table := by
    rw [hsame.words, hsame.events]
    exact hholds
  have hroot : Rooted space start.words (owned start.context) := by
    rw [hsame.words, hsame.owned]
    exact hmachine
  have hstart := (htraced.restart page).same hsame
  obtain ⟨new, hnew⟩ := descend_spec hspace hlaw [0, 1, 2] [] rfl hroot
    hstart hinv hholds' rfl ⟨fun _ => rfl, fun _ => rfl, fun _ => rfl⟩ []
  change MapSpec _ _ _ _ _ _ _ _ (placeLeaf space page physical flags
    (descend space page flags [0, 1, 2] space.startOf.table [] start))
  generalize descend space page flags [0, 1, 2] space.startOf.table [] start = result at hnew
  obtain ⟨answer, created, middle⟩ := result
  obtain rfl : created = new := hnew.created.trans (append_nil new)
  have hout := hnew.outstanding
  have hwords := hnew.words
  -- whatever failed, what was created is taken back
  have hrollback : ∀ {status : PageStatus}, status ≠ .ok →
      MapSpec space owned origin page physical flags holds machine
        (status, rollbackCreatedTables space created page middle) := by
    intro status hstat
    obtain ⟨hundone, htraced'⟩ := rollback_spec hlaw hroot hnew.fresh hwords hout
      hstart hnew.traced
    refine ⟨htraced', fun _ => ⟨fun table htable => ?_, ?_⟩, fun hok => absurd hok hstat⟩
    · rw [← hsame.words]
      refine hundone.words table ?_
      rw [hsame.owned]
      exact htable
    · rw [hundone.outstanding, hsame.events]
  cases answer with
  | error status => exact hrollback (hnew.failed status rfl)
  | ok table =>
    obtain ⟨old, state, rfl, harr, -⟩ := hnew.arrived table rfl
    rw [placeLeaf]
    split
    · exact hrollback (by decide)
    split
    · exact hrollback (by decide)
    next hempty =>
    have hempty := not_not.mp hempty
    refine ⟨(hnew.traced.storeEntry _ _ _).invalidatePage hlaw page,
      fun hne => absurd rfl hne, fun _ => ⟨created, old, state, by simpa using hflags,
      not_not.mp hpage, hin, ?_, hnew.within, ?_, ⟨middle, ?_, ?_, rfl, ?_⟩, ?_, ?_⟩⟩
    · rw [← hsame.words, ← hsame.owned]
      exact hnew.fresh
    · change outstanding middle.events = _
      rw [hout, hsame.events]
    · exact harr.of_same hsame
    · rw [hwords, hsame.words]
    · exact (hlaw.invalidated _ _).symm
    · rw [← hsame.words, ← hwords]
      exact hempty
    · change setEntry middle.words _ _ _ = _
      rw [hwords, hsame.words]

/-- The same for tables of the module that lead to live mappings. -/
theorem Machine.Sound.mapSpec (h : machine.Sound space owned origin live)
    (page physical : Word) (flags : MapFlags) :
    MapSpec space owned origin page physical flags
      (fun words ours table => Managed space words ours live {table}) machine
      (mapPage space page physical flags machine) :=
  mapPage_spec hspace hlaw h.rooted (h.traced page) (Managed.attachInvariant hspace live)
    ⟨h.managed.tagged, h.managed.place, fun table htable _ => h.managed.nonempty table htable
      (Set.notMem_empty table), h.managed.inner, h.managed.leaves⟩ page physical flags

end

/-! ## What a mapping changes -/

variable {new : List CreatedTable} {old state : WalkState}

theorem Rooted.advance_storeLeaf {words : Word → Fin 512 → Word} (h : Rooted space words known)
    (value : Word)
    (hadv : advance space.physicalAddressMask words page [0, 1, 2] space.startOf = some state) :
    advance space.physicalAddressMask (setEntry words state.table (tableIndex page 3) value) page
      [0, 1, 2] space.startOf = some state := by
  rw [← hadv]
  refine advance_congr fun initial index _ hlt middle hmid => ?_
  refine h.setEntry_leaf (resolve_of_advance hadv) rfl hlt.le hmid fun heq => ?_
  exact hlt.ne (Nat.succ.inj ((length_append ..).symm.trans (congrArg length heq)))

theorem Placed.walkOf (hspace : space.Valid)
    (h : Placed space owned page physical flags holds machine machine' new old state) :
    space.walkOf machine'.words page = .ok ⟨state.table :: state.above,
      physical ||| hardwareLeafFlags flags,
      state.access.restrict (physical ||| hardwareLeafFlags flags)⟩ := by
  obtain ⟨_, harr, hwords, -, -⟩ := h.arrived
  have hadv : advance space.physicalAddressMask machine'.words page [0, 1, 2] space.startOf =
      some state := by
    rw [h.words, ← hwords]
    exact harr.rooted.advance_storeLeaf _ harr.advanced
  have hwalk := walk_of_advance [] hadv
  have hleaf : machine'.words state.table (tableIndex page 3) =
      physical ||| hardwareLeafFlags flags := by
    rw [h.words, setEntry_self]
  refine hwalk.trans ?_
  rw [walk, hleaf, walkLeaf, if_neg, if_neg]
  · exact not_not.mpr (or_and_excess h.inMask (hardwareLeafFlags_and_mask flags))
  · rw [or_and_flag _ _ hspace.mask h.inMask (by decide)]
    exact (hardwareLeafFlags_and_flag flags).1

theorem Placed.walkOf_other
    (h : Placed space owned page physical flags holds machine machine' new old state) {page' : Word}
    (hne : indices page' ≠ indices page) :
    space.walkOf machine'.words page' = space.walkOf machine.words page' := by
  obtain ⟨_, harr, hwords, -, -⟩ := h.arrived
  rw [← harr.walks page', h.words, ← hwords]
  exact harr.rooted.walkOf_storeLeaf (resolve_of_advance harr.advanced) rfl hne

theorem leaf_ne_zero (hspace : space.Valid) (hin : Within physical space.physicalAddressMask)
    (flags : MapFlags) : physical ||| hardwareLeafFlags flags ≠ 0#64 := by
  intro hzero
  have hpres := or_and_flag (hardwareLeafFlags flags) entryPresent hspace.mask hin (by decide)
  rw [hzero, BitVec.zero_and] at hpres
  exact (hardwareLeafFlags_and_flag flags).1 hpres.symm

theorem Placed.rooted
    (h : Placed space owned page physical flags holds machine machine' new old state) :
    Rooted space machine'.words (owned machine'.context) := by
  obtain ⟨_, harr, hwords, -, howned⟩ := h.arrived
  rw [h.words, ← hwords, ← howned]
  exact harr.rooted.storeLeaf (resolve_of_advance harr.advanced) rfl

theorem Placed.sound (hspace : space.Valid) (h : Placed space owned page physical flags
      (fun words ours table => Managed space words ours live {table}) machine machine' new old
      state) (htraced : machine'.Traced space owned origin call) :
    machine'.Sound space owned origin (insert (indices page) live) := by
  obtain ⟨middle, harr, hwords, hout, -⟩ := h.arrived
  have hpath : space.tableAt middle.words ([0, 1, 2].map (tableIndex page)) = some state.table :=
    resolve_of_advance harr.advanced
  refine ⟨h.rooted, htraced.restart, ?_⟩
  · rw [h.words, ← hwords, ← hout]
    have hmanaged : Managed space (setEntry middle.words state.table (tableIndex page 3)
        (physical ||| hardwareLeafFlags flags)) (Memory.outstanding middle.events)
        (insert (indices page) live) {state.table} :=
      Managed.storeLeaf harr.rooted hpath rfl harr.holds (fun _ hfound _ => .inr hfound)
        fun _ => .inl rfl
    refine hmanaged.settle (fun _ => ⟨tableIndex page 3, ?_⟩) ∅
    rw [setEntry_self]
    exact leaf_ne_zero hspace h.inMask flags

end Kurogane.Memory
