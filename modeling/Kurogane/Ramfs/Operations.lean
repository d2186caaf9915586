/-
# The operations of the memory file system

Every operation either leaves the tree, all contents and both counters as they
were, or succeeds and leaves a tree again. This holds for any paths and whatever
allocations fail, and so it holds along every run.
-/

import Kurogane.Ramfs.Calls

namespace Kurogane.Ramfs

open Math Finset State

variable {s s' : State} {nodes roots : Finset ℕ} {root node parent child : ℕ}
  {grants : ℕ → Bool}

/-! ## Writing and creating -/

theorem Rooted.unchanged (h : Rooted s nodes root) (hsame : Unchanged nodes s s') :
    Rooted s' nodes root := by
  have hroot := hsame.entries root h.root_mem
  exact ⟨h.toWellformed.unchanged hsame, hsame.root.trans h.root_eq,
    hroot.isDirectory.trans h.root_directory, hroot.parent.trans h.root_parent⟩

/-- Only the number of allocator calls differs. -/
structure Idle (s s' : State) : Prop where
  entries : s'.entries = s.entries
  root : s'.root = s.root
  nodeCount : s'.nodeCount = s.nodeCount
  totalFileBytes : s'.totalFileBytes = s.totalFileBytes
  calls : s.calls ≤ s'.calls

theorem Idle.unchanged (h : Idle s s') (nodes : Finset ℕ) : Unchanged nodes s s' :=
  { h with entries := fun _ _ => h.entries ▸ .refl _ }

theorem Idle.refl (s : State) : Idle s s := ⟨rfl, rfl, rfl, rfl, le_rfl⟩

variable {isDirectory : Bool} {name : PathComponent} {path : Source} {before : State}
  {status : Status} {entry : ℕ}

theorem writeEntry_spec (h : Wellformed s nodes roots) (hnode : node ∈ nodes) {data : Source}
    {size : ℕ} (hres : writeEntry grants node data size s = (status, s')) :
    status = .ok ∧ Written s nodes roots node s' ∨ status ≠ .ok ∧ Idle s s' := by
  have hbytes := h.byteLimit
  revert hres
  fun_cases writeEntry grants node data size s with
  | case6 _ _ _ _ _ _ _ _ hcall =>
    rintro ⟨⟩
    obtain ⟨rfl, -⟩ := kmalloc_eq hcall
    exact .inr ⟨by decide, rfl, rfl, rfl, rfl, Nat.le_succ _⟩
  | case7 hdir _ hsize _ _ _ _ _ _ hcall =>
    rintro ⟨⟩
    obtain ⟨rfl, -⟩ := kmalloc_eq hcall
    have hgranted : Wellformed { s with calls := s.calls + 1 } nodes roots :=
      h.unchanged ⟨rfl, rfl, rfl, fun _ _ => .refl _, Nat.le_succ _⟩
    have hwritten := hgranted.write hnode (by simpa using hdir) data (size + 1) (not_lt.mp hsize)
      (show s.totalFileBytes - (s.entries node).size + size ≤ _ by omega)
    exact .inl ⟨rfl, { hwritten with calls := Nat.le_succ _ }⟩
  | case8 hdir _ hsize =>
    rintro ⟨⟩
    exact .inl ⟨rfl, h.write hnode (by simpa using hdir) data _ (not_lt.mp hsize) (by omega)⟩
  | _ =>
    rintro ⟨⟩
    exact .inr ⟨by decide, .refl s⟩

theorem eq_of_below_leaf (hleaf : s.children node = []) {other : ℕ}
    (hbelow : Below nodes s.children node other) : other = node := by
  rcases Relation.ReflTransGen.cases_head hbelow with heq | ⟨_, hedge, -⟩
  · exact heq.symm
  · rw [Edge, hleaf] at hedge
    exact absurd hedge.2 List.not_mem_nil

/-- A leaf that was not a node before is hung under a directory and keeps the rest. -/
structure Created (s : State) (nodes : Finset ℕ) (root parent entry : ℕ) (isDirectory : Bool)
    (s' : State) : Prop where
  fresh : entry ∉ nodes
  rooted : Rooted s' (insert entry nodes) root
  parent_mem : parent ∈ nodes
  entry_parent : (s'.entries entry).parent = some parent
  isDirectory : (s'.entries entry).isDirectory = isDirectory
  children : s'.children entry = []
  list : s'.children parent = s.children parent ++ [entry]
  data : ∀ node ∈ nodes, (s.entries node).SameData (s'.entries node)
  parents : ∀ node ∈ nodes, (s'.entries node).parent = (s.entries node).parent
  other : ∀ node ∈ nodes, node ≠ parent → s'.children node = s.children node
  nodeCount : s'.nodeCount = s.nodeCount + 1
  calls : s.calls ≤ s'.calls

section

variable (h : Rooted s nodes root)
include h

theorem Rooted.link
    {middle : State} (hfresh : entry ∉ nodes)
    (hpre : Wellformed before (insert entry nodes) (insert entry {root}))
    (hents : ∀ node ∈ nodes, before.entries node = s.entries node)
    (hkind : (before.entries entry).isDirectory = isDirectory) (hleaf : before.children entry = [])
    (hroot : before.root = s.root) (hcount : before.nodeCount = s.nodeCount + 1)
    (hcalls : s.calls ≤ before.calls) (hmid : Unchanged (insert entry nodes) before middle)
    (hpar : parent ∈ nodes) (hdir : (s.entries parent).isDirectory)
    (hroom : (s.children parent).length < ramfsMaxChildren)
    (hname : before.name entry ∉ (s.children parent).map s.name) :
    Created s nodes root parent entry isDirectory (linkChild parent entry middle) := by
  have hmem : ∀ {node}, node ∈ nodes → node ∈ insert entry nodes := mem_insert_of_mem
  have hself := mem_insert_self entry nodes
  have hsame : ∀ node ∈ nodes, (s.entries node).Same (middle.entries node) := fun node hnode =>
    hents node hnode ▸ hmid.entries node (hmem hnode)
  have hfreshSame := hmid.entries entry hself
  have hwf := hpre.unchanged hmid
  have hne : entry ≠ parent := fun heq => hfresh (heq ▸ hpar)
  have hrootNe : entry ≠ root := fun heq => hfresh (heq ▸ h.root_mem)
  have hchildren : middle.children parent = s.children parent := (hsame parent hpar).children
  have hmiddleLeaf : middle.children entry = [] := hfreshSame.children.trans hleaf
  have hnames : (s.children parent).map middle.name = (s.children parent).map s.name :=
    List.map_congr_left fun child hchild =>
      (hsame child (h.forest.closed ⟨hpar, hchild⟩)).name
  have hlinked : Wellformed (linkChild parent entry middle) (insert entry nodes) {root} := by
    have hspec := linkChild_spec hwf (hmem hpar) (mem_insert_self _ _)
      (fun hbelow => hne (eq_of_below_leaf hmiddleLeaf hbelow).symm)
      ((hsame parent hpar).isDirectory.trans hdir) (by rw [hchildren]; exact hroom) (by
        rw [hchildren, hnames, State.name, hfreshSame.name]
        exact hname)
    rwa [erase_insert fun hmem => hrootNe (mem_singleton.mp hmem)] at hspec
  have hdata : ∀ node ∈ nodes,
      (s.entries node).SameData ((linkChild parent entry middle).entries node) :=
    fun node hnode => (hsame node hnode).toSameData.trans (middle.relist_data ..)
  have hparents : ∀ node ∈ nodes,
      ((linkChild parent entry middle).entries node).parent = (s.entries node).parent := by
    intro node hnode
    rw [linkChild_eq, relist_parent, if_neg (ne_of_mem_of_not_mem hnode hfresh)]
    exact (hsame node hnode).parent
  refine ⟨hfresh, ⟨hlinked, ?_, ?_, ?_⟩, hpar, ?_, ?_, ?_, ?_, hdata, hparents,
    fun node hnode hnodeNe => ?_, hmid.nodeCount.trans hcount, hcalls.trans hmid.calls⟩
  · exact hmid.root.trans (hroot.trans h.root_eq)
  · exact (hdata root h.root_mem).isDirectory.trans h.root_directory
  · exact (hparents root h.root_mem).trans h.root_parent
  · rw [linkChild_eq, relist_parent, if_pos rfl]
  · exact (middle.relist_data ..).isDirectory.trans (hfreshSame.isDirectory.trans hkind)
  · rw [linkChild_eq, relist_children, if_neg hne]
    exact hmiddleLeaf
  · rw [linkChild_eq, relist_children, if_pos rfl, hchildren]
  · rw [linkChild_eq, relist_children, if_neg hnodeNe]
    exact (hsame node hnode).children

theorem createEntry_error (hres : createEntry grants path isDirectory s = (.error status, s')) :
    Unchanged nodes s s' := by
  revert hres
  fun_cases createEntry grants path isDirectory s with
  | case11 _ _ _ _ _ _ _ _ _ _ _ _ _ _ hnone =>
    rintro ⟨⟩
    exact allocateEntry_none h.toWellformed hnone
  | case12 => nofun
  | case13 _ _ _ _ _ _ _ _ _ _ _ _ _ entry _ hsome _ _ hne hfail =>
    rintro ⟨⟩
    have halloc := allocateEntry_some h.toWellformed hsome
    obtain ⟨_, hsame, -, hend⟩ := attachChild_spec (insert entry nodes) hfail
    obtain rfl := hend hne
    refine ⟨hsame.root.trans halloc.root, ?_, hsame.totalFileBytes.trans halloc.totalFileBytes,
      fun node hnode => ?_, halloc.calls.trans hsame.calls⟩
    · rw [hsame.nodeCount, halloc.nodeCount, Nat.add_sub_cancel]
    · exact halloc.entries node hnode ▸ hsame.entries node (mem_insert_of_mem hnode)
  | _ =>
    rintro ⟨⟩
    exact .refl _ _

theorem createEntry_ok (hres : createEntry grants path isDirectory s = (.ok entry, s')) :
    ∃ parent, Created s nodes root parent entry isDirectory s' ∧
      (s'.entries entry).size = 0 ∧ s'.totalFileBytes = s.totalFileBytes := by
  revert hres
  fun_cases createEntry grants path isDirectory s with
  | case12 _ _ _ final _ _ _ _ parent hpath hdir hexists hroom _ _ hsome _ hattached =>
    rintro ⟨⟩
    have halloc := allocateEntry_some h.toWellformed hsome
    obtain ⟨middle, hsame, hend, -⟩ := attachChild_spec (insert entry nodes) hattached
    obtain rfl := hend rfl
    have hpar := h.resolveComponents_mem hpath
    have hdir : (s.entries parent).isDirectory := by simpa using hdir
    have hcreated := h.link halloc.fresh halloc.wellformed halloc.entries
      halloc.isDirectory halloc.children halloc.root halloc.nodeCount
      halloc.calls hsame hpar hdir (not_le.mp hroom) (by
        rw [halloc.name]
        exact not_mem_names_of_findChild hdir (by simpa using hexists))
    refine ⟨parent, hcreated, ?_, hsame.totalFileBytes.trans halloc.totalFileBytes⟩
    have hlinked := middle.relist_data parent (middle.children parent ++ [entry]) entry parent entry
    exact hlinked.size.trans ((hsame.entries entry (mem_insert_self _ _)).size.trans halloc.size)
  | _ => nofun

end

/-! ## The operations -/

/-- An operation changes nothing, or it succeeds and leaves a tree. -/
def Outcome (s : State) (nodes : Finset ℕ) (root : ℕ) (result : Status × State) : Prop :=
  Unchanged nodes s result.2 ∨ result.1 = .ok ∧ ∃ nodes', Rooted result.2 nodes' root

theorem Outcome.finish {result : Status × State} (h : Outcome s nodes root result) :
    Outcome s nodes root (Ramfs.finish result) := by
  rcases h with hsame | ⟨hok, nodes', hrooted⟩
  · exact .inl { hsame with }
  · exact .inr ⟨hok, nodes', hrooted.unchanged ⟨rfl, rfl, rfl, fun _ _ => .refl _, le_rfl⟩⟩

theorem Outcome.refused (s : State) (nodes : Finset ℕ) (root : ℕ) (status : Status) :
    Outcome s nodes root (status, s) := .inl (.refl _ _)

theorem createEntryAt_outcome (h : Rooted s nodes root) (path : Source) (isDirectory : Bool) :
    Outcome s nodes root (createEntryAt grants path isDirectory s) := by
  refine Outcome.finish ?_
  split
  · next hres =>
    obtain ⟨_, hcreated, -⟩ := createEntry_ok h hres
    exact .inr ⟨rfl, _, hcreated.rooted⟩
  · next hres => exact .inl (createEntry_error h hres)

theorem Written.rooted (h : Rooted s nodes root) (hwritten : Written s nodes {root} node s') :
    Rooted s' nodes root := by
  have hroot := hwritten.root.trans h.root_eq
  by_cases heq : root = node
  · subst heq
    exact ⟨hwritten.wellformed, hroot, hwritten.isDirectory.trans h.root_directory,
      hwritten.parent.trans h.root_parent⟩
  · have hother := hwritten.other root heq
    exact ⟨hwritten.wellformed, hroot, hother ▸ h.root_directory, hother ▸ h.root_parent⟩

/-- A file that was just created is taken out again. -/
theorem Created.undo (hrooted : Rooted s nodes root)
    (h : Created s nodes root parent entry false s') (hsize : (s'.entries entry).size = 0)
    (htotal : s'.totalFileBytes = s.totalFileBytes) (hidle : Idle s' before) :
    Unchanged nodes s
      (destroySubtree entry (detachChild (before.entries entry).parent entry before)) := by
  have hne : entry ≠ parent := fun heq => h.fresh (heq ▸ h.parent_mem)
  have hentryParent : (before.entries entry).parent = some parent := by
    rw [hidle.entries]
    exact h.entry_parent
  have hlist : before.children parent = s.children parent ++ [entry] := by
    rw [State.children, hidle.entries]
    exact h.list
  have hlisted : entry ∈ before.children parent := by
    rw [hlist]
    exact List.mem_append_right _ List.mem_cons_self
  rw [hentryParent, detachChild_eq hlisted, hlist]
  have hleaf : (before.relist parent ((s.children parent ++ [entry]).erase entry) entry
      none).children entry = [] := by
    rw [relist_children, if_neg hne, State.children, hidle.entries]
    exact h.children
  rw [destroySubtree_leaf hleaf]
  refine ⟨?_, ?_, ?_, fun node hnode => ⟨?_, ?_, ?_⟩, h.calls.trans hidle.calls⟩
  · exact hidle.root.trans (h.rooted.root_eq.trans hrooted.root_eq.symm)
  · change before.nodeCount - 1 = _
    rw [hidle.nodeCount, h.nodeCount, Nat.add_sub_cancel]
  · have hdata := before.relist_data parent ((s.children parent ++ [entry]).erase entry) entry none
      entry
    rw [releaseEntry, hdata.isDirectory, hdata.size, hidle.entries, h.isDirectory, hsize]
    exact hidle.totalFileBytes.trans htotal
  · have hdata := h.data node hnode
    rw [← hidle.entries] at hdata
    exact hdata.trans (before.relist_data ..)
  · refine (before.relist_children ..).trans ?_
    split
    · next heq =>
      have hnot : entry ∉ s.children parent :=
        fun hmem => h.fresh (hrooted.forest.closed ⟨h.parent_mem, hmem⟩)
      rw [List.erase_append_right _ hnot, List.erase_cons_head, List.append_nil, heq]
      rfl
    · next heq =>
      rw [State.children, hidle.entries]
      exact h.other node hnode heq
  · refine (before.relist_parent ..).trans ?_
    rw [if_neg (ne_of_mem_of_not_mem hnode h.fresh), hidle.entries]
    exact h.parents node hnode

section

variable (h : Rooted s nodes root)
include h

theorem writeFileData_outcome (path data : Source) (size : ℕ) (createIfMissing : Bool) :
    Outcome s nodes root (writeFileData grants path data size createIfMissing s) := by
  refine Outcome.finish ?_
  rw [if_neg (by rw [h.root_eq]; simp)]
  split
  · exact .refused ..
  split
  · exact .refused ..
  split
  · next hres =>
    rcases writeEntry_spec h.toWellformed (h.resolvePath_mem hres) Prod.mk.eta.symm with
      ⟨hok, hwritten⟩ | ⟨-, hidle⟩
    · exact .inr ⟨hok, nodes, hwritten.rooted h⟩
    · exact .inl (hidle.unchanged nodes)
  split
  swap
  · exact .refused ..
  split
  · next hres => exact .inl (createEntry_error h hres)
  next hres =>
  obtain ⟨_, hcreated, hsize, htotal⟩ := createEntry_ok h hres
  have hwf := hcreated.rooted.toWellformed
  split
  · next hwrite =>
    rcases writeEntry_spec hwf (mem_insert_self _ _) hwrite with ⟨-, hwritten⟩ | ⟨hne, -⟩
    · exact .inr ⟨rfl, _, hwritten.rooted hcreated.rooted⟩
    · exact absurd rfl hne
  next hne hwrite =>
  rcases writeEntry_spec hwf (mem_insert_self _ _) hwrite with ⟨hok, -⟩ | ⟨-, hidle⟩
  · exact absurd hok hne
  · exact .inl (hcreated.undo h hsize htotal hidle)

theorem Rooted.detached_root (hedge : Edge nodes s.children parent entry) (hne : entry ≠ root) :
    (detachChild (some parent) entry s).root = some root ∧
      ((detachChild (some parent) entry s).entries root).isDirectory ∧
      ((detachChild (some parent) entry s).entries root).parent = none := by
  rw [detachChild_eq hedge.2, relist_parent, if_neg hne.symm]
  exact ⟨h.root_eq, (s.relist_data ..).isDirectory.trans h.root_directory, h.root_parent⟩

theorem removePath_outcome (path : Source) (recursive : Bool) :
    Outcome s nodes root (removePath path recursive s) := by
  refine Outcome.finish ?_
  split
  · exact .refused ..
  next entry hres =>
  have hentry := h.resolvePath_mem hres
  split
  · exact .refused ..
  next hroot =>
  have hne : entry ≠ root := fun heq => hroot (by rw [heq, h.root_eq])
  split
  · exact .refused ..
  obtain ⟨parent, hpar, hedge⟩ := h.edge_parent hentry hne
  rw [hpar]
  have hdetached := detachChild_spec h.toWellformed hedge
  obtain ⟨nodes', hdestroyed⟩ := destroySubtree_spec hdetached (mem_insert_self _ _)
  have hwf := hdestroyed.wellformed
  rw [erase_insert fun hmem => hne (mem_singleton.mp hmem)] at hwf
  have hrootMem := hwf.forest.roots_subset (mem_singleton_self root)
  obtain ⟨hrootEq, hkept⟩ := h.detached_root hedge hne
  rw [← hdestroyed.entries root hrootMem] at hkept
  exact .inr ⟨rfl, nodes', hwf, hdestroyed.root.trans hrootEq, hkept.1, hkept.2⟩

end

section

variable (h : Allocated s nodes roots name false entry s')
include h

theorem Allocated.undo {written : State}
    (hwritten : Written s' (insert entry nodes) (insert entry roots) entry written)
    (hsame : Unchanged (insert entry nodes) written before) :
    Unchanged nodes s (destroySubtree entry before) := by
  have hentry := hsame.entries entry (mem_insert_self _ _)
  have hleaf : before.children entry = [] :=
    hentry.children.trans (hwritten.children.trans h.children)
  have hkind : (before.entries entry).isDirectory = false :=
    hentry.isDirectory.trans (hwritten.isDirectory.trans h.isDirectory)
  rw [destroySubtree_leaf hleaf]
  refine ⟨hsame.root.trans (hwritten.root.trans h.root), ?_, ?_, fun node hnode => ?_,
    h.calls.trans (hwritten.calls.trans hsame.calls)⟩
  · change before.nodeCount - 1 = _
    rw [hsame.nodeCount, hwritten.nodeCount, h.nodeCount, Nat.add_sub_cancel]
  · rw [releaseEntry, hkind]
    change before.totalFileBytes - (before.entries entry).size = _
    rw [hsame.totalFileBytes, hentry.size, hwritten.totalFileBytes, h.totalFileBytes, h.size,
      Nat.sub_zero]
  have hne : node ≠ entry := fun heq => h.fresh (heq ▸ hnode)
  have hkept := hsame.entries node (mem_insert_of_mem hnode)
  rw [hwritten.other node hne, h.entries node hnode] at hkept
  exact hkept

theorem Allocated.undo_idle
    (hidle : Idle s' before) : Unchanged nodes s (destroySubtree entry before) := by
  refine h.undo ⟨h.wellformed, fun _ _ => rfl, rfl, rfl, rfl, rfl, rfl, rfl, rfl, le_rfl⟩
    (hidle.unchanged _)

end

theorem copyFile_outcome (h : Rooted s nodes root) (sourcePath destinationPath : Source) :
    Outcome s nodes root (copyFile grants sourcePath destinationPath s) := by
  refine Outcome.finish ?_
  rw [if_neg (by rw [h.root_eq]; simp)]
  split
  · exact .refused ..
  next source hsource =>
  split
  · exact .refused ..
  split
  · exact .refused ..
  next destination hdest =>
  obtain ⟨hpar, hdir, hexisting⟩ := h.resolveDestination_spec hdest
  split
  · exact .refused ..
  next hfree =>
  have hnone : findChild s destination.parent destination.name = none := by
    rw [← hexisting]
    simpa using hfree
  split
  · exact .refused ..
  split
  · exact .refused ..
  next hroom =>
  split
  · exact .refused ..
  split
  · next halloc => exact .inl (allocateEntry_none h.toWellformed halloc)
  next copy _ hsome =>
  have halloc := allocateEntry_some h.toWellformed hsome
  have hself := Finset.mem_insert_self copy nodes
  split
  swap
  · next hne hwrite =>
    rcases writeEntry_spec halloc.wellformed hself hwrite with ⟨hok, -⟩ | ⟨-, hidle⟩
    · exact absurd hok hne
    · exact .inl (halloc.undo_idle hidle)
  next s₂ hwrite =>
  rcases writeEntry_spec halloc.wellformed hself hwrite with ⟨-, hwritten⟩ | ⟨hne, -⟩
  swap
  · exact absurd rfl hne
  split
  swap
  · next hne hfail =>
    obtain ⟨_, hsame, -, hend⟩ := attachChild_spec (insert copy nodes) hfail
    obtain rfl := hend hne
    exact .inl (halloc.undo hwritten hsame)
  next hattached =>
  obtain ⟨_, hsame, hend, -⟩ := attachChild_spec (insert copy nodes) hattached
  obtain rfl := hend rfl
  have hents : ∀ node ∈ nodes, s₂.entries node = s.entries node := by
    intro node hnode
    rw [hwritten.other node fun heq => halloc.fresh (heq ▸ hnode), halloc.entries node hnode]
  have hcreated := h.link halloc.fresh hwritten.wellformed hents
    (hwritten.isDirectory.trans halloc.isDirectory)
    (hwritten.children.trans halloc.children) (hwritten.root.trans halloc.root)
    (hwritten.nodeCount.trans halloc.nodeCount) (halloc.calls.trans hwritten.calls)
    hsame hpar hdir (not_le.mp hroom) (by
      rw [hwritten.name, halloc.name]
      exact not_mem_names_of_findChild hdir hnone)
  exact .inr ⟨rfl, _, hcreated.rooted⟩

end Kurogane.Ramfs
