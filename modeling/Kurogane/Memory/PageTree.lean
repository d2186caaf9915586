/-
# The tree of page tables

How publishing a new table, detaching an empty one and writing a leaf change the
tree of page tables: which tables are reached, which of them the module owns,
and what walks find.
-/

import Kurogane.Memory.PageLog

namespace Kurogane.Memory

open Math Function List

variable {σ : Type} {space : AddressSpace σ} {words words' : Word → Fin 512 → Word}
  {known ours pending : Set Word} {live : Set (List (Fin 512))}
  {path path' : List (Fin 512)} {node table page value : Word} {index : Fin 512}

section

variable (space : AddressSpace σ) (words : Word → Fin 512 → Word)

def AddressSpace.tableAt (path : List (Fin 512)) : Option Word :=
  resolve (childOf space.physicalAddressMask) words space.rootTablePhysical path

def AddressSpace.walkOf (page : Word) :
    Except PageStatus WalkPath :=
  walk space.physicalAddressMask words page [0, 1, 2] [] space.rootTablePhysical ⟨true, true, false⟩

/-- The tables form a tree of known pages. -/
structure Rooted (known : Set Word) :
    Prop where
  unshared : Unshared (childOf space.physicalAddressMask) words space.rootTablePhysical 3
  known : ∀ table, space.Attached words table → table ∈ known

/-- The tables of the module: they are tagged, attached, and hold nothing but tables of the
module and live mappings. All but the pending ones hold something. -/
structure Managed (ours : Set Word)
    (live : Set (List (Fin 512))) (pending : Set Word) : Prop where
  tagged : ∀ path node index next, path.length ≤ 2 → space.tableAt words path = some node →
    childOf space.physicalAddressMask (words node index) = some next →
      (words node index &&& entryModuleOwned ≠ 0#64 ↔ next ∈ ours)
  place : ∀ table ∈ ours, ∃ path, path ≠ [] ∧ path.length ≤ 3 ∧
    space.tableAt words path = some table
  nonempty : ∀ table ∈ ours, table ∉ pending → ∃ index, words table index ≠ 0#64
  inner : ∀ path table index, path.length ≤ 2 → space.tableAt words path = some table →
    table ∈ ours → words table index ≠ 0#64 →
      ∃ next ∈ ours, childOf space.physicalAddressMask (words table index) = some next
  leaves : ∀ path table index, path.length = 3 → space.tableAt words path = some table →
    table ∈ ours → words table index ≠ 0#64 → path ++ [index] ∈ live

end

section

variable (h : Rooted space words known)
include h

section

variable (hpath : space.tableAt words path = some table) (hlen : path.length ≤ 3)
include hpath hlen

theorem Rooted.known_of_tableAt : table ∈ known :=
  h.known table ⟨path, hlen, hpath⟩

theorem Rooted.eq_of_tableAt (hpath' : space.tableAt words path' = some table)
    (hlen' : path'.length ≤ 3) : path = path' := h.unshared path path' table hlen hlen' hpath hpath'

end

theorem Rooted.mono {known' : Set Word} (hsub : known ⊆ known') :
    Rooted space words known' := ⟨h.unshared, fun table htable => hsub (h.known table htable)⟩

end

theorem tableAt_child {child : Word} (hpath : space.tableAt words path = some node)
    (hchild : childOf space.physicalAddressMask (words node index) = some child) :
    space.tableAt words (path ++ [index]) = some child := by
  rw [AddressSpace.tableAt] at hpath ⊢
  rw [resolve_concat, hpath, Option.bind_some, hchild]

/-- An entry of the new tree that is not empty: it was there before, or it leads to a table of the
module, or it is a live mapping. -/
inductive EntryKept (space : AddressSpace σ) (words words' : Word → Fin 512 → Word)
    (ours ours' : Set Word) (live live' : Set (List (Fin 512))) (path : List (Fin 512))
    (table : Word) (index : Fin 512) : Prop
  | kept (hpath : space.tableAt words path = some table)
    (hsame : words' table index = words table index) (hours : table ∈ ours' → table ∈ ours)
    (hnext : ∀ next, path.length ≤ 2 →
      childOf space.physicalAddressMask (words table index) = some next →
        (next ∈ ours ↔ next ∈ ours'))
    (hlive : path ++ [index] ∈ live → path ++ [index] ∈ live')
  | published (next : Word) (hlen : path.length ≤ 2) (hours : next ∈ ours')
    (htag : words' table index &&& entryModuleOwned ≠ 0#64)
    (hchild : childOf space.physicalAddressMask (words' table index) = some next)
  | mapped (hlen : path.length = 3) (hlive : path ++ [index] ∈ live')

variable {created : CreatedTable} {live' : Set (List (Fin 512))}

/-- It is enough to look at the entries that are not empty. -/
theorem Managed.change {ours' : Set Word} (h : Managed space words ours live pending)
    (hentry : ∀ path table index, path.length ≤ 3 → space.tableAt words' path = some table →
      words' table index ≠ 0#64 → EntryKept space words words' ours ours' live live' path table
        index) (hplace : ∀ table ∈ ours', ∃ path, path ≠ [] ∧ path.length ≤ 3 ∧
      space.tableAt words' path = some table) {pending' : Set Word}
    (hnonempty : ∀ table ∈ ours', table ∉ pending' → ∃ index, words' table index ≠ 0#64) :
    Managed space words' ours' live' pending' where
  tagged path node index next hlen hpath hchild := by
    have hne : words' node index ≠ 0#64 := by
      intro hzero
      rw [hzero, childOf_zero] at hchild
      cases hchild
    cases hentry path node index (by omega) hpath hne with
    | kept hold hsame _ hnext _ =>
      rw [hsame] at hchild ⊢
      exact (h.tagged path node index next hlen hold hchild).trans (hnext next hlen hchild)
    | published _ _ hours htag hchild' =>
      cases hchild.symm.trans hchild'
      exact iff_of_true htag hours
    | mapped => omega
  place := hplace
  nonempty := hnonempty
  inner path table index hlen hpath hours hne := by
    cases hentry path table index (by omega) hpath hne with
    | kept hold hsame hold' hnext _ =>
      rw [hsame] at hne ⊢
      obtain ⟨next, hmem, hchild⟩ := h.inner path table index hlen hold (hold' hours) hne
      exact ⟨next, (hnext next hlen hchild).mp hmem, hchild⟩
    | published next _ hmem _ hchild => exact ⟨next, hmem, hchild⟩
    | mapped => omega
  leaves path table index hlen hpath hours hne := by
    cases hentry path table index hlen.le hpath hne with
    | kept hold hsame hold' _ hlive =>
      rw [hsame] at hne
      exact hlive (h.leaves path table index hlen hold (hold' hours) hne)
    | published => omega
    | mapped _ hlive => exact hlive

/-! ## Memory outside the tree -/

section Congr

variable (h : Rooted space words known)
  (hsame : ∀ table ∈ known, ∀ index, words' table index = words table index)
include h hsame

theorem Rooted.tableAt_congr (path : List (Fin 512)) (hlen : path.length ≤ 4) :
    space.tableAt words' path = space.tableAt words path := by
  refine resolve_congr fun initial index _ hlt middle hmid => ?_
  exact hsame middle (h.known_of_tableAt hmid (by omega)) index

theorem Rooted.congr : Rooted space words' known := by
  refine ⟨?_, ?_⟩
  · intro left right found hleft hright hfound hfound'
    have hleft' := h.tableAt_congr hsame left (by omega)
    have hright' := h.tableAt_congr hsame right (by omega)
    exact h.eq_of_tableAt (hleft'.symm.trans hfound) hleft (hright'.symm.trans hfound') hright
  · rintro _ ⟨_, hlen, hpath⟩
    exact h.known_of_tableAt ((h.tableAt_congr hsame _ (by omega)).symm.trans hpath) hlen

theorem Rooted.walkOf_congr (page : Word) : space.walkOf words' page = space.walkOf words page := by
  refine walk_congr fun initial index _ hle middle hmid => ?_
  exact hsame middle (h.known_of_tableAt hmid hle) index

theorem Managed.congr (hmanaged : Managed space words ours live pending) :
    Managed space words' ours live pending := by
  refine hmanaged.change (fun path table index hlen hpath _ => ?_) (fun table htable => ?_)
    fun table htable hpend => ?_
  · rw [h.tableAt_congr hsame _ (by omega)] at hpath
    exact .kept hpath (hsame table (h.known_of_tableAt hpath hlen) index) id
      (fun _ _ _ => Iff.rfl) id
  · obtain ⟨path, hne, hlen, hpath⟩ := hmanaged.place table htable
    exact ⟨path, hne, hlen, (h.tableAt_congr hsame _ (by omega)).trans hpath⟩
  obtain ⟨_, -, hlen, hpath⟩ := hmanaged.place table htable
  obtain ⟨index, hidx⟩ := hmanaged.nonempty table htable hpend
  refine ⟨index, ?_⟩
  rw [hsame table (h.known_of_tableAt hpath hlen)]
  exact hidx

end Congr

theorem Managed.settle (h : Managed space words ours live {table})
    (hsettled : table ∈ ours → ∃ index, words table index ≠ 0#64) (pending : Set Word) :
    Managed space words ours live pending := by
  refine { h with nonempty := fun other hother _ => ?_ }
  by_cases heq : other = table
  · subst heq
    exact hsettled hother
  · exact h.nonempty other hother heq

theorem exists_levels (hbelow : path ++ [index] <+: indices page) (hlen : path.length ≤ 2) :
    ∃ front level back, [0, 1, 2] = front ++ level :: back ∧
      path = front.map (tableIndex page) ∧ index = tableIndex page level := by
  obtain ⟨_, hrest⟩ := hbelow
  match path, hlen, hrest with
  | [], _, hrest =>
    simp only [indices, nil_append, cons_append, List.cons.injEq] at hrest
    exact ⟨[], 0, [1, 2], rfl, rfl, hrest.1⟩
  | [first], _, hrest =>
    simp only [indices, nil_append, cons_append, List.cons.injEq] at hrest
    exact ⟨[0], 1, [2], rfl, by rw [hrest.1]; rfl, hrest.2.1⟩
  | [first, second], _, hrest =>
    simp only [indices, nil_append, cons_append, List.cons.injEq] at hrest
    exact ⟨[0, 1], 2, [], rfl, by rw [hrest.1, hrest.2.1]; rfl, hrest.2.2.1⟩

/-! ## Publishing a table -/

def publish (words : Word → Fin 512 → Word) (created : CreatedTable) : Word → Fin 512 → Word :=
  setEntry (Function.update words created.physicalAddress fun _ => 0#64) created.parent
    created.index (createdEntry created.physicalAddress)

theorem publish_apply_self (hne : created.physicalAddress ≠ created.parent)
    (index : Fin 512) : publish words created created.physicalAddress index = 0#64 := by
  rw [publish, setEntry_of_ne fun hand => hne hand.1, update_self]

theorem publish_apply_of_ne (hne : table ≠ created.physicalAddress)
    (hslot : ¬ (table = created.parent ∧ index = created.index)) :
    publish words created table index = words table index := by
  rw [publish, setEntry_of_ne hslot, update_of_ne hne]

theorem publish_apply_slot :
    publish words created created.parent created.index = createdEntry created.physicalAddress :=
  setEntry_self

section Attach

variable (hspace : space.Valid) (h : Rooted space words known)
  (hpath : space.tableAt words path = some node) (hlen : path.length ≤ 2)
  (hzero : words node index = 0#64) (hfresh : table ∉ known)
  (hin : Within table space.physicalAddressMask)
include hspace h hpath hlen hzero hfresh hin

theorem Rooted.tableAt_attach (path' : List (Fin 512)) (hlen' : path'.length ≤ 4) :
    space.tableAt (publish words ⟨node, index, table⟩) path' =
      if path' = path ++ [index] then some table else space.tableAt words path' := by
  have hunreached : ¬ space.Attached words table := fun hatt =>
    hfresh (h.known table hatt)
  have hne : node ≠ table := by
    rintro rfl
    exact hfresh (h.known_of_tableAt hpath (by omega))
  have hclear : ∀ {path' : List (Fin 512)}, path'.length ≤ 4 →
      resolve (childOf space.physicalAddressMask) (update words table fun _ => 0#64)
        space.rootTablePhysical path' = space.tableAt words path' :=
    fun hlen' => resolve_update_unreached hunreached hlen'
  have hunreached' : ¬ Reaches (childOf space.physicalAddressMask)
      (update words table fun _ => 0#64) space.rootTablePhysical 3 table := by
    rintro ⟨path', hlen', hresolve⟩
    exact hunreached ⟨path', hlen', (hclear (by omega)).symm.trans hresolve⟩
  rw [← hclear hlen']
  refine resolve_attach (h.unshared.update_unreached hunreached) ((hclear (by omega)).trans hpath)
    (by omega) ?_ (childOf_createdEntry hspace.mask hin) hunreached' (fun index' => ?_) hlen'
  · rw [update_of_ne hne, hzero, childOf_zero]
  · rw [update_self, childOf_zero]

theorem Rooted.attach : Rooted space (publish words ⟨node, index, table⟩) (insert table known) := by
  have hat := h.tableAt_attach hspace hpath hlen hzero hfresh hin
  refine ⟨?_, ?_⟩
  · intro left right found hleft hright hfound hfound'
    change space.tableAt _ left = _ at hfound
    change space.tableAt _ right = _ at hfound'
    rw [hat left (by omega)] at hfound
    rw [hat right (by omega)] at hfound'
    split at hfound <;> split at hfound'
    · next heq heq' => rw [heq, heq']
    · cases hfound
      exact absurd (h.known_of_tableAt hfound' hright) hfresh
    · cases hfound'
      exact absurd (h.known_of_tableAt hfound hleft) hfresh
    · exact h.eq_of_tableAt hfound hleft hfound' hright
  · rintro _ ⟨path', hlen', hfound⟩
    change space.tableAt _ path' = _ at hfound
    rw [hat path' (by omega)] at hfound
    split at hfound
    · cases hfound
      exact .inl rfl
    · exact .inr (h.known_of_tableAt hfound hlen')

theorem Rooted.walkOf_attach (page : Word) :
    space.walkOf (publish words ⟨node, index, table⟩) page = space.walkOf words page := by
  have hne : table ≠ node := by
    rintro rfl
    exact hfresh (h.known_of_tableAt hpath (by omega))
  by_cases hbelow : path ++ [index] <+: indices page
  · -- the walk runs into an empty entry, or into the new table, which is empty
    obtain ⟨front, level, _, hlevels, rfl, rfl⟩ := exists_levels hbelow hlen
    have hnew := h.tableAt_attach hspace hpath hlen hzero hfresh hin
      (front.map (tableIndex page)) (by omega)
    rw [if_neg (by simp), hpath] at hnew
    rw [AddressSpace.walkOf, AddressSpace.walkOf, hlevels,
      walk_through hpath fun above access => walk_zero hzero]
    refine walk_through hnew fun above access => ?_
    have hslot : publish words ⟨node, tableIndex page level, table⟩ node (tableIndex page level) =
        createdEntry table := setEntry_self
    rw [walk, hslot, childOf_createdEntry hspace.mask hin]
    exact walk_empty fun index' => publish_apply_self hne index'
  · refine walk_congr fun initial index' hinitial hle middle hmid => ?_
    refine publish_apply_of_ne ?_ ?_
    · rintro rfl
      exact hfresh (h.known_of_tableAt hmid hle)
    · rintro ⟨rfl, rfl⟩
      have heq := h.eq_of_tableAt hmid hle hpath (by omega)
      exact hbelow (heq ▸ hinitial)

theorem Managed.attach (hmanaged : Managed space words ours live {node}) :
    Managed space (publish words ⟨node, index, table⟩) (insert table ours) live {table} := by
  have hat := h.tableAt_attach hspace hpath hlen hzero hfresh hin
  have hne : table ≠ node := by
    rintro rfl
    exact hfresh (h.known_of_tableAt hpath (by omega))
  have hslot : publish words ⟨node, index, table⟩ node index = createdEntry table := setEntry_self
  refine hmanaged.change (fun path' table' index' hlen' hpath' hnz => ?_) ?_ ?_
  · rw [hat path' (by omega)] at hpath'
    split at hpath'
    · cases hpath'
      exact absurd (publish_apply_self hne index') hnz
    by_cases hentry : table' = node ∧ index' = index
    · obtain ⟨rfl, rfl⟩ := hentry
      obtain rfl := h.eq_of_tableAt hpath' hlen' hpath (by omega)
      refine .published table hlen (Set.mem_insert _ _) ?_ ?_ <;> rw [hslot]
      · rw [createdEntry_and_flag hspace.mask hin entryModuleOwned (by decide)]
        decide
      · exact childOf_createdEntry hspace.mask hin
    have hold : table' ≠ table := by
      rintro rfl
      exact hfresh (h.known_of_tableAt hpath' hlen')
    refine .kept hpath' (publish_apply_of_ne hold hentry) (fun hmem => hmem.resolve_left hold)
      (fun next hlen' hnext => (or_iff_right ?_).symm) id
    rintro rfl
    exact hfresh (h.known_of_tableAt (tableAt_child hpath' hnext) (by simp; omega))
  · rintro other (rfl | hother)
    · refine ⟨path ++ [index], by simp, by simp; omega, ?_⟩
      rw [hat _ (by simp; omega), if_pos rfl]
    · obtain ⟨path', hne', hlen', hpath'⟩ := hmanaged.place other hother
      refine ⟨path', hne', hlen', ?_⟩
      rw [hat _ (by omega), if_neg, hpath']
      rintro rfl
      rw [AddressSpace.tableAt] at hpath hpath'
      rw [resolve_concat, hpath, Option.bind_some, hzero, childOf_zero] at hpath'
      cases hpath'
  · rintro other (rfl | hother) hpend
    · exact absurd rfl hpend
    by_cases heq : other = node
    · subst heq
      refine ⟨index, ?_⟩
      rw [hslot]
      exact createdEntry_ne_zero hspace.mask hin
    obtain ⟨index', hidx'⟩ := hmanaged.nonempty other hother heq
    have hsame : publish words ⟨node, index, table⟩ other index' = words other index' :=
      publish_apply_of_ne hpend fun hand => heq hand.1
    exact ⟨index', hsame ▸ hidx'⟩

end Attach

/-! ## Writing a leaf -/

section Leaf

variable (h : Rooted space words known) (hpath : space.tableAt words path = some node)
  (hlen : path.length = 3)
include h hpath hlen

theorem Rooted.tableAt_leaf (index : Fin 512) (value : Word) (path' : List (Fin 512))
    (hlen' : path'.length ≤ 3) :
    space.tableAt (setEntry words node index value) path' = space.tableAt words path' := by
  refine resolve_setEntry_of_not_isPrefix h.unshared hpath (by omega) (by omega) fun hbelow => ?_
  have hle := hbelow.length_le
  rw [length_append, length_singleton] at hle
  omega

theorem Rooted.setEntry_leaf {node' : Word} {index' : Fin 512} (hlen' : path'.length ≤ 3)
    (hpath' : space.tableAt words path' = some node') (hne : path' ++ [index'] ≠ path ++ [index]) :
    setEntry words node index value node' index' = words node' index' := by
  refine setEntry_of_ne ?_
  rintro ⟨rfl, rfl⟩
  exact hne (by rw [h.eq_of_tableAt hpath' hlen' hpath (by omega)])

theorem Rooted.storeLeaf : Rooted space (setEntry words node index value) known := by
  have hat := h.tableAt_leaf hpath hlen index value
  refine ⟨?_, ?_⟩
  · intro left right found hleft hright hfound hfound'
    exact h.eq_of_tableAt ((hat left hleft).symm.trans hfound) hleft
      ((hat right hright).symm.trans hfound') hright
  · rintro _ ⟨path', hlen', hfound⟩
    exact h.known_of_tableAt ((hat path' hlen').symm.trans hfound) hlen'

theorem Rooted.walkOf_storeLeaf (hne : indices page ≠ path ++ [index]) :
    space.walkOf (setEntry words node index value) page = space.walkOf words page := by
  refine walk_congr fun initial index' hinitial hle middle hmid => ?_
  refine h.setEntry_leaf hpath hlen hle hmid fun heq => hne ?_
  rw [heq] at hinitial
  refine (hinitial.eq_of_length ?_).symm
  simp [hlen]

theorem Managed.storeLeaf (hmanaged : Managed space words ours live {node})
    (hlive : ∀ found ∈ live, found ≠ path ++ [index] → found ∈ live')
    (hvalue : value ≠ 0#64 → path ++ [index] ∈ live') :
    Managed space (setEntry words node index value) ours live' {node} := by
  have hat := h.tableAt_leaf hpath hlen index value
  refine hmanaged.change (fun path' table' index' hlen' hpath' hnz => ?_) ?_ ?_
  · rw [hat path' hlen'] at hpath'
    by_cases hslot : path' ++ [index'] = path ++ [index]
    · obtain ⟨rfl, heq⟩ := append_inj' hslot rfl
      cases heq
      cases hpath.symm.trans hpath'
      rw [setEntry_self] at hnz
      exact .mapped hlen (hvalue hnz)
    · exact .kept hpath' (h.setEntry_leaf hpath hlen hlen' hpath' hslot) id
        (fun _ _ _ => Iff.rfl) fun hmem => hlive _ hmem hslot
  · intro other hmem
    obtain ⟨path', hne, hlen', hpath'⟩ := hmanaged.place other hmem
    exact ⟨path', hne, hlen', (hat path' hlen').trans hpath'⟩
  · intro other hmem hpend
    obtain ⟨index', hidx'⟩ := hmanaged.nonempty other hmem hpend
    refine ⟨index', ?_⟩
    rw [setEntry_of_ne fun hand => hpend hand.1]
    exact hidx'

end Leaf

/-! ## Detaching a table -/

section Detach

variable {child : Word} (h : Rooted space words known)
  (hpath : space.tableAt words path = some node) (hlen : path.length ≤ 2)
  (hchild : childOf space.physicalAddressMask (words node index) = some child)
include h hpath hlen

theorem Rooted.tableAt_detach (index : Fin 512) (path' : List (Fin 512))
    (hlen' : path'.length ≤ 4) :
    space.tableAt (setEntry words node index 0#64) path' =
      if path ++ [index] <+: path' then none else space.tableAt words path' :=
  resolve_cut h.unshared hpath (by omega) (childOf_zero _) hlen'

include hchild

theorem Rooted.detach : Rooted space (setEntry words node index 0#64) (known \ {child}) := by
  refine ⟨h.unshared.cut hpath (by omega) (childOf_zero _), ?_⟩
  rintro _ ⟨path', hlen', hfound⟩
  change space.tableAt _ path' = _ at hfound
  rw [h.tableAt_detach hpath hlen index path' (by omega)] at hfound
  split at hfound
  · cases hfound
  next hnot =>
  refine ⟨h.known_of_tableAt hfound hlen', ?_⟩
  rintro rfl
  have heq := h.eq_of_tableAt hfound hlen' (tableAt_child hpath hchild) (by simp; omega)
  exact hnot (heq ▸ prefix_rfl)

variable (hempty : tableEmpty words child)
include hempty

omit h hlen in
theorem eq_of_below {found : Word} (hbelow : path ++ [index] <+: path')
    (hfound : space.tableAt words path' = some found) :
    path' = path ++ [index] ∧ found = child := by
  obtain ⟨rest, rfl⟩ := hbelow
  have hat := tableAt_child hpath hchild
  rw [AddressSpace.tableAt] at hat hfound
  rw [resolve_of_isPrefix hat] at hfound
  cases rest with
  | nil =>
    cases hfound
    exact ⟨append_nil _, rfl⟩
  | cons =>
    rw [resolve, hempty, childOf_zero] at hfound
    cases hfound

theorem Rooted.walkOf_detach (page : Word) :
    space.walkOf (setEntry words node index 0#64) page = space.walkOf words page := by
  by_cases hbelow : path ++ [index] <+: indices page
  · obtain ⟨front, level, _, hlevels, rfl, rfl⟩ := exists_levels hbelow hlen
    have hnew := h.tableAt_detach hpath hlen (tableIndex page level)
      (front.map (tableIndex page)) (by omega)
    rw [if_neg, hpath] at hnew
    · rw [AddressSpace.walkOf, AddressSpace.walkOf, hlevels,
        walk_through hnew fun above access => walk_zero setEntry_self]
      refine (walk_through hpath fun above access => ?_).symm
      rw [walk, hchild]
      exact walk_empty hempty
    intro hself
    have hle := hself.length_le
    rw [length_append, length_singleton] at hle
    omega
  · refine walk_congr fun initial index' hinitial hle middle hmid => ?_
    exact h.unshared.setEntry_on_path hpath (by omega) hinitial hle hmid hbelow

theorem Managed.detach (hmanaged : Managed space words ours live {child}) :
    Managed space (setEntry words node index 0#64) (ours \ {child}) live {node} := by
  have hat := h.tableAt_detach hpath hlen index
  refine hmanaged.change (fun path' table' index' hlen' hpath' hnz => ?_) ?_ ?_
  · rw [hat path' (by omega)] at hpath'
    split at hpath'
    · cases hpath'
    have hslot : ¬ (table' = node ∧ index' = index) := by
      rintro ⟨rfl, rfl⟩
      exact hnz setEntry_self
    refine .kept hpath' (setEntry_of_ne hslot) And.left (fun next hlen' hnext => ?_) id
    -- the detached table is the child of no other entry
    refine ⟨fun hmem => ⟨hmem, ?_⟩, And.left⟩
    rintro rfl
    have heq := h.eq_of_tableAt (tableAt_child hpath' hnext) (by simp; omega)
      (tableAt_child hpath hchild) (by simp; omega)
    obtain ⟨rfl, hidx⟩ := append_inj' heq rfl
    cases hidx
    exact hslot ⟨Option.some.inj (hpath'.symm.trans hpath), rfl⟩
  · rintro other ⟨hmem, hother⟩
    obtain ⟨path', hne', hlen', hpath'⟩ := hmanaged.place other hmem
    refine ⟨path', hne', hlen', ?_⟩
    rw [hat path' (by omega), if_neg, hpath']
    intro hbelow
    exact hother (eq_of_below hpath hchild hempty hbelow hpath').2
  · rintro other ⟨hmem, hother⟩ hpend
    obtain ⟨index', hidx'⟩ := hmanaged.nonempty other hmem hother
    refine ⟨index', ?_⟩
    rw [setEntry_of_ne fun hand => hpend hand.1]
    exact hidx'

end Detach

/-! ## The empty tree -/

theorem tableAt_zero {σ : Type} {space : AddressSpace σ} {path : List (Fin 512)} {table : Word}
    (h : space.tableAt (fun _ _ => 0#64) path = some table) :
    path = [] ∧ table = space.rootTablePhysical := by
  cases path with
  | nil => exact ⟨rfl, (Option.some.inj h).symm⟩
  | cons =>
    rw [AddressSpace.tableAt, resolve, childOf_zero] at h
    cases h

theorem rooted_zero {σ : Type} {space : AddressSpace σ} {known : Set Word}
    (h : space.rootTablePhysical ∈ known) : Rooted space (fun _ _ => 0#64) known := by
  refine ⟨fun path path' node _ _ hpath hpath' => ?_, ?_⟩
  · rw [(tableAt_zero hpath).1, (tableAt_zero hpath').1]
  · rintro _ ⟨_, -, hpath⟩
    rw [(tableAt_zero hpath).2]
    exact h

end Kurogane.Memory
