/-
# Unmapping a page

`unmap_page` clears the leaf and then detaches, from the leaf table upwards, the
tables of the module that have become empty. They are freed after the page has
been invalidated. Undoing a mapping this way restores the tables that existed
before it, word for word.
-/

import Kurogane.Memory.PageMapping

namespace Kurogane.Memory

open Math List Set

variable {σ : Type} {space : AddressSpace σ} {owned : σ → Set Word}
  {origin : Origin} {call : Call} {known ours : Set Word}
  {page physical : Word} {live : Set (List (Fin 512))} {machine machine' : Machine σ}
  {holds : (Word → Fin 512 → Word) → Set Word → Word → Prop}
  {flags : MapFlags} {state : WalkState}

/-! ## Collapsing -/

section

variable (space known ours live machine)

/-- What collapsing a path does. -/
structure CollapseSpec (result : List Word × Machine σ) :
    Prop where
  rooted : Rooted space result.2.words {table ∈ known | table ∉ result.1}
  managed : Managed space result.2.words {table ∈ ours | table ∉ result.1} live ∅
  walks : ∀ page, space.walkOf result.2.words page = space.walkOf machine.words page
  detached : ∀ table ∈ result.1, table ∈ ours
  nodup : result.1.Nodup
  events : outstanding result.2.events = outstanding machine.events
  traced : ∀ owned origin call, machine.Traced space owned origin call →
    result.2.Traced space owned origin call

end

variable {tables : List Word} {front : List ℕ} {base : Machine σ} {table mask : Word}
  {words : Word → Fin 512 → Word} {level : ℕ}

theorem CollapseSpec.stop (hroot : Rooted space machine.words known)
    (hmanaged : Managed space machine.words ours live {table})
    (hsettled : table ∈ ours → ∃ index, machine.words table index ≠ 0#64) :
    CollapseSpec space known ours live machine ([], machine) where
  rooted := by simpa using hroot
  managed := by simpa using hmanaged.settle hsettled ∅
  walks := fun _ => rfl
  detached := nofun
  nodup := nodup_nil
  events := rfl
  traced := fun _ _ _ h => h

theorem advance_concat
    {start : WalkState} (h : advance mask words page (front ++ [level]) start = some state) :
    ∃ parent, advance mask words page front start = some parent ∧
      state.above = parent.table :: parent.above ∧
      childOf mask (words parent.table (tableIndex page level)) = some state.table := by
  rw [advance_append] at h
  obtain ⟨parent, hpar, hlast⟩ := Option.bind_eq_some_iff.mp h
  rw [advance] at hlast
  refine ⟨parent, hpar, ?_⟩
  cases hchild : childOf mask (words parent.table (tableIndex page level)) with
  | none =>
    rw [hchild] at hlast
    cases hlast
  | some =>
    rw [hchild] at hlast
    cases hlast
    exact ⟨rfl, rfl⟩

theorem map_of_isPrefix (page : Word) (hfront : front <+: [0, 1, 2]) :
    front.map (tableIndex page) = (indices page).take front.length := by
  obtain ⟨rest, hrest⟩ := hfront
  have hsplit : indices page = front.map (tableIndex page) ++
      (rest.map (tableIndex page) ++ [tableIndex page 3]) := by
    rw [← append_assoc, ← map_append, hrest]
    rfl
  rw [hsplit]
  simp

theorem tableAt_of_advance (hfront : front <+: [0, 1, 2])
    (hadv : advance space.physicalAddressMask words page front space.startOf = some state) :
    ∀ table ∈ state.table :: state.above,
      ∃ length ≤ 3, space.tableAt words ((indices page).take length) = some table := by
  induction front using reverseRecOn generalizing state with
  | nil =>
    cases hadv
    intro table htable
    rw [mem_singleton.mp htable]
    exact ⟨0, Nat.zero_le _, rfl⟩
  | append_singleton _ _ ih =>
    obtain ⟨_, hpar, habove, -⟩ := advance_concat hadv
    intro table htable
    rcases mem_cons.mp htable with rfl | htable
    · refine ⟨_, hfront.length_le, ?_⟩
      rw [← map_of_isPrefix page hfront]
      exact resolve_of_advance hadv
    · rw [habove] at htable
      exact ih ((prefix_append _ _).trans hfront) hpar table htable

theorem childOf_eq_some {value child : Word} (h : childOf mask value = some child) :
    value &&& entryPresent ≠ 0#64 ∧ value &&& mask = child := by
  rw [childOf] at h
  split at h
  · next hand => exact ⟨hand.1, Option.some.inj h⟩
  · cases h

theorem exists_parent (hfront : front ++ [level] <+: [0, 1, 2])
    (hroot : Rooted space machine.words known)
    (hadv : advance space.physicalAddressMask machine.words page (front ++ [level])
      space.startOf = some state) :
    ∃ parent : WalkState, state.above = parent.table :: parent.above ∧
      childOf space.physicalAddressMask (machine.words parent.table (tableIndex page level)) =
        some state.table ∧
      front <+: [0, 1, 2] ∧ (front.map (tableIndex page)).length ≤ 2 ∧
      space.tableAt machine.words (front.map (tableIndex page)) = some parent.table ∧
      tableIndex page parent.above.length = tableIndex page level ∧
      advance space.physicalAddressMask
        (machine.storeEntry parent.table (tableIndex page level) 0#64).words page front
          space.startOf = some parent := by
  obtain ⟨parent, hpar, habove, hchild⟩ := advance_concat hadv
  obtain ⟨rest, hrest⟩ := hfront
  rw [append_assoc, singleton_append] at hrest
  have hlen : (front.map (tableIndex page)).length ≤ 2 := by
    have hlengths := congrArg length hrest
    simp only [length_append, length_cons, length_nil] at hlengths
    rw [length_map]
    omega
  have hpath : space.tableAt machine.words (front.map (tableIndex page)) = some parent.table :=
    resolve_of_advance hpar
  refine ⟨parent, habove, hchild, ⟨level :: rest, hrest⟩, hlen, hpath, ?_, ?_⟩
  · rw [length_above_of_advance hpar, level_eq hrest]
    exact congrArg (tableIndex page) (zero_add _)
  rw [← hpar]
  refine advance_congr fun initial index _ hlt middle hmid => ?_
  refine setEntry_of_ne ?_
  rintro ⟨rfl, rfl⟩
  rw [length_map] at hlen
  have heq := hroot.eq_of_tableAt hmid (by omega) hpath (by simp; omega)
  rw [heq, length_map] at hlt
  omega

theorem sep_not_mem_cons (tables : Set Word) (first : Word) (rest : List Word) :
    {table ∈ tables | table ∉ first :: rest} = {table ∈ tables \ {first} | table ∉ rest} := by
  ext table
  simp only [mem_ofPred_eq, mem_cons, mem_sdiff, mem_singleton_iff, not_or, and_assoc]

theorem collapse_spec (front : List ℕ) (hfront : front <+: [0, 1, 2])
    (hroot : Rooted space machine.words known)
    (hmanaged : Managed space machine.words ours live {state.table})
    (hadv : advance space.physicalAddressMask machine.words page front space.startOf = some state) :
    CollapseSpec space known ours live machine
      (collapse space page (state.table :: state.above) machine) := by
  induction front using reverseRecOn generalizing state machine known ours with
  | nil =>
    cases hadv
    refine CollapseSpec.stop hroot hmanaged fun hmem => ?_
    -- the root is no table of the module
    obtain ⟨_, hne, hlen, hpath⟩ := hmanaged.place _ hmem
    exact absurd (hroot.eq_of_tableAt hpath hlen rfl (Nat.zero_le _)) hne
  | append_singleton _ level ih =>
    obtain ⟨parent, habove, hchild, hfront, hlen, hpath, hidx, hadv'⟩ :=
      exists_parent hfront hroot hadv
    obtain ⟨hpres, hmask⟩ := childOf_eq_some hchild
    have htagged := hmanaged.tagged _ _ _ _ hlen hpath hchild
    rw [habove, collapse, hidx]
    split
    · next hnonempty =>
      refine CollapseSpec.stop hroot hmanaged fun _ => ?_
      exact not_forall.mp hnonempty
    next hempty =>
    have hempty := not_not.mp hempty
    split
    · next hforeign =>
      refine CollapseSpec.stop hroot hmanaged fun hmem => ?_
      rcases hforeign with habsent | huntagged | hother
      · exact absurd habsent hpres
      · exact absurd huntagged (htagged.mpr hmem)
      · exact absurd hmask hother
    next howned =>
    have hmem : state.table ∈ ours := by
      refine htagged.mp fun huntagged => howned (.inr (.inl huntagged))
    have hspec := ih hfront (hroot.detach hpath hlen hchild)
      (Managed.detach hroot hpath hlen hchild hempty hmanaged) hadv'
    generalize collapse space page (parent.table :: parent.above)
      (machine.storeEntry parent.table (tableIndex page level) 0#64) = result at hspec
    refine ⟨?_, ?_, fun page' => ?_, fun table htable => ?_, ?_, hspec.events,
      fun _ _ _ htraced => hspec.traced _ _ _ (htraced.storeEntry _ _ _)⟩
    · rw [sep_not_mem_cons]
      exact hspec.rooted
    · rw [sep_not_mem_cons]
      exact hspec.managed
    · rw [hspec.walks page']
      exact hroot.walkOf_detach hpath hlen hchild hempty page'
    · rcases mem_cons.mp htable with rfl | htable
      · exact hmem
      · exact (hspec.detached table htable).1
    · exact nodup_cons.mpr ⟨fun hself => (hspec.detached _ hself).2 rfl, hspec.nodup⟩

/-! ## `unmap_page` -/

section

variable (space owned origin page live machine machine')

/-- A mapping that has been removed. -/
structure Removed (mapping : Mapping) : Prop where
  validPage : validateVirtualPage page = .ok
  mapping : translation space machine.words page = .ok mapping
  absent : space.walkOf machine'.words page = .error .notMapped
  others : ∀ page', indices page' ≠ indices page →
    space.walkOf machine'.words page' = space.walkOf machine.words page'
  sound : machine'.Sound space owned origin (live \ {indices page})
  collapsed : ∃ start state, machine.Same owned start ∧
    advance space.physicalAddressMask machine.words page [0, 1, 2] space.startOf = some state ∧
    machine'.words = (collapse space page (state.table :: state.above)
      (start.storeEntry state.table (tableIndex page 3) 0#64)).2.words ∧
    outstanding machine'.events = {table ∈ outstanding machine.events |
      table ∉ (collapse space page (state.table :: state.above)
        (start.storeEntry state.table (tableIndex page 3) 0#64)).1}

/-- What `unmap_page` does: nothing, or one mapping goes. -/
structure UnmapSpec (result : Except PageStatus Mapping × Machine σ) : Prop where
  traced : result.2.Traced space owned origin ⟨page, machine.events⟩
  failed : ∀ status, result.1 = .error status → machine.Same owned result.2
  removed : ∀ mapping, result.1 = .ok mapping →
    Removed space owned origin page live machine result.2 mapping

end

theorem unmapPage_spec (hspace : space.Valid) (hlaw : space.backend.Lawful owned)
    (h : machine.Sound space owned origin live) (page : Word) :
    UnmapSpec space owned origin page live machine
      (unmapPage space page machine) := by
  rw [unmapPage, hspace.initialized, if_neg (by simp)]
  split
  · exact ⟨h.traced page, fun _ _ => .refl _, by rintro _ ⟨⟩⟩
  next hpage =>
  have hpage := not_not.mp hpage
  obtain ⟨hwalk, hsame⟩ := walkToLeaf_cases hspace hlaw page machine
  generalize walkToLeaf space page machine = result at hwalk hsame
  obtain ⟨answer, start⟩ := result
  rcases answer with _ | path
  · exact ⟨(h.traced page).same hsame, fun _ _ => hsame, by rintro _ ⟨⟩⟩
  have hwalk : space.walkOf machine.words page = .ok path := (hwalk.resolve_left (by simp)).symm
  have htranslation : translation space machine.words page =
      .ok (mappingFromPath space page path) := by
    rw [translation, if_neg (by simp [(validateVirtualPage_eq_ok hpage).1])]
    change (space.walkOf machine.words page).map _ = _
    rw [hwalk]
    rfl
  obtain ⟨state, hadv, rfl, _⟩ := @exists_advance_of_walk _ _ _ _ space.startOf _ hwalk
  have hpath : space.tableAt machine.words ([0, 1, 2].map (tableIndex page)) = some state.table :=
    resolve_of_advance hadv
  have hadvance_machine := hadv
  -- the leaf is cleared
  have hroot : Rooted space start.words (owned machine.context) := by
    rw [hsame.words]
    exact h.rooted
  rw [← hsame.words] at hadv hpath
  have hmanaged : Managed space start.words (outstanding start.events) live {state.table} := by
    rw [hsame.words, hsame.events]
    exact ⟨h.managed.tagged, h.managed.place, fun table htable _ => h.managed.nonempty table htable
      (notMem_empty table), h.managed.inner, h.managed.leaves⟩
  set cleared := start.storeEntry state.table (tableIndex page 3) 0#64 with hcleared
  have hclear : Managed space cleared.words (outstanding start.events) (live \ {indices page})
      {state.table} :=
    Managed.storeLeaf hroot hpath rfl hmanaged (fun _ hfound hne => ⟨hfound, hne⟩)
      fun hne => absurd rfl hne
  have hspec := collapse_spec [0, 1, 2] prefix_rfl (hroot.storeLeaf hpath rfl) hclear
    (hroot.advance_storeLeaf 0#64 hadv)
  have hleaf : space.walkOf cleared.words page = .error .notMapped := by
    have hwalk' := walk_of_advance [] (hroot.advance_storeLeaf 0#64 hadv)
    refine hwalk'.trans ?_
    rw [walk, setEntry_self]
    rfl
  have hother : ∀ page', indices page' ≠ indices page →
      space.walkOf cleared.words page' = space.walkOf machine.words page' := by
    intro page' hne
    rw [← hsame.words]
    exact hroot.walkOf_storeLeaf hpath rfl hne
  dsimp only [headD_cons]
  generalize hcollapse : collapse space page (state.table :: state.above) cleared = result at hspec
  obtain ⟨detached, collapsed⟩ := result
  have htraced := hspec.traced _ _ _ (((h.traced page).same hsame).storeEntry state.table
    (tableIndex page 3) 0#64)
  have hout : outstanding collapsed.events = outstanding machine.events := by
    rw [← hsame.events]
    exact hspec.events
  have hevs : (collapsed.invalidatePage space.backend page).events =
      [] ++ .invalidated page :: collapsed.events := rfl
  -- the detached tables are freed
  obtain ⟨hfreed, hfreedWords, hfreedOut⟩ := freeTables_traced hlaw detached hspec.nodup
    (htraced.invalidatePage hlaw page) (fun table htable => by
      change table ∈ outstanding collapsed.events
      rw [hout, ← hsame.events]
      exact hspec.detached table htable) hevs (by simp) (fun table htable hatt => by
      rw [← htraced.words] at hatt
      exact (hspec.rooted.known table hatt).2 htable)
  generalize detached.foldl (fun machine table => machine.freeTable space.backend table)
    (collapsed.invalidatePage space.backend page) = final at hfreed hfreedWords hfreedOut ⊢
  change final.words = collapsed.words at hfreedWords
  change outstanding final.events = {table ∈ outstanding collapsed.events | table ∉ detached}
    at hfreedOut
  refine ⟨hfreed, by rintro _ ⟨⟩, fun _ heq => ?_⟩
  cases heq
  refine ⟨hpage, htranslation, ?_, fun page' hne => ?_, ⟨?_, hfreed.restart, ?_⟩, start, state,
    hsame, hadvance_machine, ?_⟩
  · rw [hfreedWords, hspec.walks, hleaf]
  · rw [hfreedWords, hspec.walks, hother page' hne]
  · rw [hfreedWords]
    refine hspec.rooted.mono ?_
    rintro _ ⟨hknown, hnot⟩
    rw [hfreed.owned, hfreedOut, hout]
    rw [(h.traced page).owned] at hknown
    exact hknown.imp_right fun hmem => ⟨hmem, hnot⟩
  · rw [hfreedWords, hfreedOut, hout, ← hsame.events]
    exact hspec.managed
  · rw [hcollapse, hfreedWords, hfreedOut, hout]
    exact ⟨rfl, rfl⟩

/-! ## What a call leaves alone -/

/-- What a collapse does whatever the tables hold: it cuts off tables of the path. -/
structure CollapseFrame (space : AddressSpace σ) (known : Set Word) (page : Word)
    (tables : List Word) (machine : Machine σ) (result : List Word × Machine σ) : Prop where
  rooted : Rooted space result.2.words {table ∈ known | table ∉ result.1}
  shrunk : ∀ path table, path.length ≤ 3 → space.tableAt result.2.words path = some table →
    space.tableAt machine.words path = some table
  words : ∀ table ∉ tables, result.2.words table = machine.words table
  detached : ∀ table ∈ result.1, ∃ length ≤ 3, length ≠ 0 ∧
    space.tableAt machine.words ((indices page).take length) = some table
  context : result.2.context = machine.context

theorem CollapseFrame.stop (hroot : Rooted space machine.words known) :
    CollapseFrame space known page tables machine ([], machine) :=
  ⟨by simpa using hroot, fun _ _ _ hpath => hpath, fun _ _ => rfl, nofun, rfl⟩

theorem collapse_frame (front : List ℕ) (hfront : front <+: [0, 1, 2])
    (hroot : Rooted space machine.words known)
    (hadv : advance space.physicalAddressMask machine.words page front space.startOf = some state) :
    CollapseFrame space known page (state.table :: state.above) machine
      (collapse space page (state.table :: state.above) machine) := by
  induction front using reverseRecOn generalizing state machine known with
  | nil =>
    cases hadv
    exact .stop hroot
  | append_singleton front level ih =>
    have hpath' : space.tableAt machine.words ((front ++ [level]).map (tableIndex page)) =
        some state.table := resolve_of_advance hadv
    have hfrontPath := map_of_isPrefix page hfront
    have hle := hfront.length_le
    obtain ⟨parent, habove, hchild, hfront, hlen, hpath, hidx, hadv'⟩ :=
      exists_parent hfront hroot hadv
    rw [habove, collapse, hidx]
    split
    · exact .stop hroot
    split
    · exact .stop hroot
    have hdetach := hroot.detach hpath hlen hchild
    have hspec := ih hfront hdetach hadv'
    generalize collapse space page (parent.table :: parent.above)
      (machine.storeEntry parent.table (tableIndex page level) 0#64) = result at hspec
    have hold : ∀ path table, path.length ≤ 3 → space.tableAt
        (machine.storeEntry parent.table (tableIndex page level) 0#64).words path = some table →
          space.tableAt machine.words path = some table := by
      intro path table hlen' hcut
      have hat := hroot.tableAt_detach hpath hlen (tableIndex page level) path (by omega)
      rw [Machine.storeEntry, hat] at hcut
      split at hcut
      · cases hcut
      · exact hcut
    refine ⟨?_, fun path table hlen' hcut => hold path table hlen'
      (hspec.shrunk path table hlen' hcut), fun table htable => ?_, fun table htable => ?_,
      hspec.context⟩
    · rw [sep_not_mem_cons]
      exact hspec.rooted
    · rw [hspec.words table fun hmem => htable (mem_cons_of_mem _ hmem)]
      exact setEntry_table_of_ne fun heq => htable (heq ▸ mem_cons_of_mem _ mem_cons_self)
    rcases mem_cons.mp htable with rfl | htable
    · refine ⟨_, hle, by simp, ?_⟩
      rw [← hfrontPath]
      exact hpath'
    obtain ⟨length, hlen', hne, hat⟩ := hspec.detached table htable
    refine ⟨length, hlen', hne, hold _ table ?_ hat⟩
    rw [length_take]
    omega

theorem publishAll_of_not_mem (words : Word → Fin 512 → Word)
    {new : List CreatedTable} (hchain : ChainOf page new tables)
    (htable : table ∉ tables) : publishAll words new table = words table := by
  induction new generalizing tables with
  | nil => rfl
  | cons _ _ ih =>
    obtain ⟨_, rfl, -, holder⟩ := hchain
    rw [mem_cons, not_or] at htable
    refine Eq.trans ?_ (ih holder htable.2)
    funext index
    refine publish_apply_of_ne htable.1 fun hand => htable.2 ?_
    rw [hand.1]
    exact mem_cons_self

/-! ## Undoing a mapping -/

variable {new : List CreatedTable} {old : WalkState}

/-- No tagged entry leads to an empty table. Undoing a mapping restores the tables that were
there before only if they are settled in this sense: an empty one would be freed with the new. -/
def Settled (space : AddressSpace σ) (words : Word → Fin 512 → Word) : Prop :=
  ∀ path node index next, path.length ≤ 2 → space.tableAt words path = some node →
    childOf space.physicalAddressMask (words node index) = some next →
    words node index &&& entryModuleOwned ≠ 0#64 → ∃ index', words next index' ≠ 0#64

theorem Managed.settled (h : Managed space words ours live ∅) : Settled space words :=
  fun path node index next hlen hpath hchild htagged =>
    h.nonempty next ((h.tagged path node index next hlen hpath hchild).mp htagged)
      (notMem_empty next)

/-- A collapse does not go beyond the tables that were there before: those that are tagged are
not empty. -/
theorem collapse_old (hbase : Settled space base.words) (hroot : Rooted space base.words known)
    (hold : ∃ front, front <+: [0, 1, 2] ∧
      advance space.physicalAddressMask base.words page front space.startOf = some old)
    (hsame : ∀ table ∈ known, machine.words table = base.words table) :
    collapse space page (old.table :: old.above) machine = ([], machine) := by
  obtain ⟨front, hfront, hadv⟩ := hold
  rcases eq_nil_or_concat front with rfl | ⟨initial, level, rfl⟩
  · cases hadv
    rfl
  rw [concat_eq_append] at hfront hadv
  obtain ⟨parent, habove, hchild, -, hlen, hpath, hidx, -⟩ := exists_parent hfront hroot hadv
  have hparentKnown := hroot.known_of_tableAt hpath (by omega)
  have hchildKnown := hroot.known_of_tableAt (tableAt_child hpath hchild) (by simp at *; omega)
  rw [habove, collapse, hidx, hsame _ hparentKnown]
  split
  · rfl
  next hempty =>
  refine if_pos (.inr (.inl ?_))
  by_contra htagged
  obtain ⟨index, hidx'⟩ := hbase _ _ _ _ hlen hpath hchild htagged
  refine hidx' ?_
  rw [← hsame _ hchildKnown]
  exact not_not.mp hempty index

/-- A collapse takes all new tables away and leaves the others as they were. -/
theorem collapse_new (hspace : space.Valid) (hbase : Settled space base.words)
    (hroot : Rooted space base.words known) (hold : ∃ front, front <+: [0, 1, 2] ∧
      advance space.physicalAddressMask base.words page front space.startOf = some old)
    (tables : List Word)
    (htables : tables = new.map CreatedTable.physicalAddress ++ old.table :: old.above)
    (hchain : ChainOf page new tables) (hfresh : FreshChain known base.words new)
    (hwithin : ∀ table ∈ new, Within table.physicalAddress space.physicalAddressMask)
    (hknown : ∀ table ∈ old.table :: old.above, table ∈ known) {dropped : Set Word}
    (hdropped : ∀ table ∈ dropped, table ∉ known ∧ table ∉ new.map CreatedTable.physicalAddress)
    (hsame : ∀ table ∉ dropped, machine.words table = publishAll base.words new table) :
    (collapse space page tables machine).1 = new.map CreatedTable.physicalAddress ∧
      ∀ table ∈ known, (collapse space page tables machine).2.words table = base.words table := by
  induction new generalizing tables machine dropped with
  | nil =>
    have hsame' : ∀ table ∈ known, machine.words table = base.words table :=
      fun table htable => hsame table fun hmem => (hdropped table hmem).1 htable
    rw [htables, map_nil, nil_append, collapse_old hbase hroot hold hsame']
    exact ⟨rfl, hsame'⟩
  | cons created older ih =>
    obtain ⟨above, habove, hidx, holder⟩ := hchain
    obtain ⟨hfreshOlder, hunknown, hdist, hpar, hzero⟩ := hfresh
    have hself : created.physicalAddress ∉ dropped :=
      fun hmem => (hdropped _ hmem).2 (mem_cons_self)
    have hrest : created.parent :: above =
        older.map CreatedTable.physicalAddress ++ old.table :: old.above := by
      rw [habove, map_cons, cons_append] at htables
      exact (cons.inj htables).2
    have hparentKept : created.parent ∉ dropped := by
      intro hmem
      have hin : created.parent ∈
          older.map CreatedTable.physicalAddress ++ old.table :: old.above :=
        hrest ▸ mem_cons_self
      rcases mem_append.mp hin with hin | hin
      · exact (hdropped _ hmem).2 (mem_cons_of_mem _ hin)
      · exact (hdropped _ hmem).1 (hknown _ hin)
    have hvalue : machine.words created.parent created.index =
        createdEntry created.physicalAddress := by
      rw [hsame _ hparentKept]
      exact publish_apply_slot
    have hempty : tableEmpty machine.words created.physicalAddress := by
      intro index
      rw [hsame _ hself]
      exact publish_apply_self hpar.symm index
    have hwithin' := hwithin created mem_cons_self
    have hchild := childOf_eq_some (childOf_createdEntry hspace.mask hwithin')
    have howned : createdEntry created.physicalAddress &&& entryModuleOwned ≠ 0#64 := by
      rw [createdEntry_and_flag hspace.mask hwithin' entryModuleOwned (by decide)]
      decide
    rw [habove, collapse, ← hidx, hvalue]
    rw [if_neg (not_not.mpr hempty), if_neg (by
      rintro (habsent | huntagged | hother)
      · exact hchild.1 habsent
      · exact howned huntagged
      · exact hother hchild.2)]
    have hdropped' : ∀ table ∈ insert created.physicalAddress dropped, table ∉ known ∧
        table ∉ older.map CreatedTable.physicalAddress := by
      rintro table (rfl | htable)
      · refine ⟨hunknown, fun hmem => ?_⟩
        obtain ⟨other, hother, heq⟩ := mem_map.mp hmem
        exact hdist other hother heq
      · exact ⟨(hdropped table htable).1,
          fun hmem => (hdropped table htable).2 (mem_cons_of_mem _ hmem)⟩
    have hsame' : ∀ table ∉ insert created.physicalAddress dropped,
        (machine.storeEntry created.parent created.index 0#64).words table =
          publishAll base.words older table := by
      intro table htable
      have hne : table ≠ created.physicalAddress := fun heq => htable (.inl heq)
      funext index
      by_cases hslot : table = created.parent ∧ index = created.index
      · obtain ⟨rfl, rfl⟩ := hslot
        exact setEntry_self.trans hzero.symm
      · refine (setEntry_of_ne hslot).trans ?_
        rw [hsame table fun hmem => htable (.inr hmem)]
        exact publish_apply_of_ne hne hslot
    have hnext := ih (created.parent :: above) hrest holder hfreshOlder
      (fun table htable => hwithin table (mem_cons_of_mem _ htable)) hdropped' hsame'
    exact ⟨congrArg _ hnext.1, hnext.2⟩

theorem Rooted.known_of_advance (h : Rooted space words known) (hfront : front <+: [0, 1, 2])
    (hadv : advance space.physicalAddressMask words page front space.startOf = some state) :
    ∀ table ∈ state.table :: state.above, table ∈ known := by
  intro table htable
  obtain ⟨_, _, hpath⟩ := tableAt_of_advance hfront hadv table htable
  exact h.known_of_tableAt hpath (by rw [length_take]; omega)

/-- Removing a mapping right after it was made restores the tables. -/
theorem Placed.undo (hspace : space.Valid) {machine'' : Machine σ} {mapping : Mapping}
    (h : machine.Sound space owned origin live)
    (hplaced : Placed space owned page physical flags holds machine machine' new old state)
    {live' : Set (List (Fin 512))}
    (hrem : Removed space owned origin page live' machine' machine'' mapping) :
    Undone owned machine machine'' := by
  obtain ⟨_, harr, hwords, -, -⟩ := hplaced.arrived
  obtain ⟨start, state', hsame, hadv, hwords', hout'⟩ := hrem.collapsed
  have hstate : state' = state := by
    rw [hplaced.words, ← hwords, harr.rooted.advance_storeLeaf _ harr.advanced] at hadv
    exact (Option.some.inj hadv).symm
  subst hstate
  obtain ⟨front, hfront, hold⟩ := harr.old
  -- with the leaf cleared, memory is as after the descent
  have hclear : ∀ table ∉ (∅ : Set Word),
      (start.storeEntry state'.table (tableIndex page 3) 0#64).words table =
        publishAll machine.words new table := by
    intro table _
    funext index
    by_cases hslot : table = state'.table ∧ index = tableIndex page 3
    · obtain ⟨rfl, rfl⟩ := hslot
      exact setEntry_self.trans hplaced.empty.symm
    · refine (setEntry_of_ne hslot).trans ?_
      rw [hsame.words, hplaced.words, setEntry_of_ne hslot]
  obtain ⟨hdetached, hrestored⟩ := collapse_new hspace h.managed.settled h.rooted
    ⟨front, hfront, hold⟩
    (state'.table :: state'.above) harr.tables harr.chain hplaced.fresh hplaced.within
    (h.rooted.known_of_advance hfront hold) (fun _ hmem => hmem.elim) hclear
  refine ⟨fun table htable => ?_, ?_⟩
  · rw [hwords']
    exact hrestored table htable
  rw [hout', hdetached, hplaced.outstanding]
  exact sep_union_not_mem ((h.traced page).not_outstanding hplaced.fresh)

end Kurogane.Memory
