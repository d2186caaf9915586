/-
# Runs of the memory file system

Moving, initializing, and what holds along every run: there is one tree under the
root with exact counters within the limits, and a call that fails leaves it as it
was.
-/

import Kurogane.Ramfs.Operations

namespace Kurogane.Ramfs

open Math Finset

variable {s s' : State} {nodes : Finset ℕ} {root : ℕ} {grants : ℕ → Bool}
  {entries : ℕ → FileEntry}

/-! ## Moving -/

variable {name : PathComponent} {source parent : ℕ}

section

variable (h : Rooted s nodes root)
include h

theorem Rooted.rename (hpar : (s.entries source).parent = some parent)
    (hname : name ∉ (s.children parent).map s.name) :
    Rooted (setEntryName source name s) nodes root := by
  have hwf : Wellformed (setEntryName source name s) nodes {root} := by
    refine h.toWellformed.rename name fun {above} hedge hmem => hname ?_
    have habove : above = parent := Option.some.inj ((h.parents hedge).symm.trans hpar)
    rw [← habove]
    exact List.map_subset _ List.erase_subset hmem
  exact ⟨hwf, h.root_eq, (s.modify_field FileEntry.isDirectory source root).trans h.root_directory,
    (s.modify_field FileEntry.parent source root).trans h.root_parent⟩

/-- An entry goes from its directory to another one that does not lie below it. -/
theorem Rooted.move {destination : ℕ}
    (hedge : Edge nodes s.children parent source) (hdest : destination ∈ nodes)
    (hne : destination ≠ parent) (hnot : ¬ Below nodes s.children source destination)
    (hdir : (s.entries destination).isDirectory)
    (hroom : (s.children destination).length < ramfsMaxChildren)
    (hname : name ∉ (s.children destination).map s.name) :
    Rooted (linkChild destination source
      (setEntryName source name (detachChild (some parent) source s))) nodes root := by
  have hsourceDestination : source ≠ destination := by
    rintro rfl
    exact hnot .refl
  have hsourceRoot : source ≠ root := by
    rintro rfl
    exact h.forest.top (mem_singleton_self _) hedge
  have hdetached := detachChild_spec h.toWellformed hedge
  obtain ⟨hroot, hrootDir, hrootParent⟩ := h.detached_root hedge hsourceRoot
  have hdata : ∀ node, (s.entries node).SameData
      ((detachChild (some parent) source s).entries node) := fun node => by
    rw [detachChild_eq hedge.2]
    exact s.relist_data ..
  have hrenamed := hdetached.rename name fun hlisted =>
    absurd hlisted (hdetached.forest.top (mem_insert_self _ _))
  -- only the list of the old parent changed so far
  have hlists : ∀ node, (setEntryName source name (detachChild (some parent) source s)).children
      node = if node = parent then (s.children parent).erase source else s.children node := by
    intro node
    rw [detachChild_eq hedge.2]
    exact (State.modify_field _ FileEntry.children source node).trans (s.relist_children ..)
  generalize detachChild (some parent) source s = detached at *
  set renamed := setEntryName source name detached with hrename
  have hchildren : renamed.children destination = s.children destination := by
    rw [hlists, if_neg hne]
  have hnames : (s.children destination).map renamed.name =
      (s.children destination).map s.name := by
    refine List.map_congr_left fun child hchild => ?_
    have hchildSource : child ≠ source := by
      rintro rfl
      exact hne (h.forest.unique ⟨hdest, hchild⟩ hedge)
    rw [State.name, hrename, setEntryName, State.modify_of_ne _ hchildSource]
    exact (hdata child).name
  have hnewName : renamed.name source = name := by
    rw [State.name, hrename, setEntryName, State.modify_self]
  have hbelow : ¬ Below nodes renamed.children source destination := by
    refine fun hbelow => hnot (RootedForest.mono_edge (fun {above below} hlisted => ?_) hbelow)
    refine ⟨hlisted.1, ?_⟩
    have hmem := hlisted.2
    rw [hlists] at hmem
    split at hmem
    · next heq => exact heq ▸ List.mem_of_mem_erase hmem
    · exact hmem
  have hkind : ∀ node, (renamed.entries node).isDirectory = (detached.entries node).isDirectory :=
    detached.modify_field FileEntry.isDirectory source
  have hlinked := linkChild_spec hrenamed hdest (mem_insert_self _ _) hbelow
    (by rw [hkind, (hdata destination).isDirectory, hdir]) (by rw [hchildren]; exact hroom)
    (by rw [hchildren, hnames, hnewName]; exact hname)
  rw [erase_insert fun hmem => hsourceRoot (mem_singleton.mp hmem)] at hlinked
  refine ⟨hlinked, hroot, ?_, ?_⟩
  · exact (renamed.relist_data ..).isDirectory.trans ((hkind root).trans hrootDir)
  · rw [linkChild_eq, State.relist_parent, if_neg hsourceRoot.symm]
    exact (detached.modify_field FileEntry.parent source root).trans hrootParent

theorem movePath_outcome (sourcePath destinationPath : Source) :
    Outcome s nodes root (movePath grants sourcePath destinationPath s) := by
  refine Outcome.finish ?_
  rw [if_neg (by rw [h.root_eq]; simp)]
  split
  · exact .refused ..
  next source hres =>
  have hsource := h.resolvePath_mem hres
  split
  · exact .refused ..
  next hroot =>
  have hsourceRoot : source ≠ root := fun heq => hroot (by rw [heq, h.root_eq])
  split
  · exact .refused ..
  next destination hdest =>
  obtain ⟨hpar, hdir, hexisting⟩ := h.resolveDestination_spec hdest
  split
  · exact .refused ..
  split
  · exact .refused ..
  next hfree =>
  have hnone : findChild s destination.parent destination.name = none := by
    rw [← hexisting]
    simpa using hfree
  have hname := not_mem_names_of_findChild hdir hnone
  split
  · exact .refused ..
  next hcycle =>
  split
  · exact .refused ..
  obtain ⟨oldParent, holdParent, hedge⟩ := h.edge_parent hsource hsourceRoot
  rw [holdParent]
  split
  · next heq =>
    refine .inr ⟨rfl, nodes, h.rename holdParent ?_⟩
    rw [← Option.some.inj heq]
    exact hname
  next hother =>
  have hne : destination.parent ≠ oldParent := fun heq => hother (congrArg some heq)
  split
  · exact .refused ..
  next hroom =>
  have hnot : ¬ Below nodes s.children source destination.parent := by
    intro hbelow
    by_cases hkind : (s.entries source).isDirectory
    · rw [hkind] at hcycle
      refine hcycle ?_
      rw [isSameOrDescendant]
      simpa using h.toWellformed.mem_climb hpar hbelow
    · have hleaf := (h.valid source hsource).leaf (by simpa using hkind)
      rw [eq_of_below_leaf hleaf hbelow] at hdir
      exact hkind hdir
  split
  swap
  · next hfail => exact .inl (ensureChildCapacity_unchanged nodes hfail)
  next middle hok =>
  have hsame := ensureChildCapacity_unchanged nodes hok
  have hrooted := h.unchanged hsame
  have hchildren : ∀ node ∈ nodes, middle.children node = s.children node :=
    fun node hnode => (hsame.entries node hnode).children
  have hsourceParent : (middle.entries source).parent = some oldParent :=
    (hsame.entries source hsource).parent.trans holdParent
  rw [hsourceParent]
  refine .inr ⟨rfl, nodes, hrooted.move ⟨hedge.1, ?_⟩ hpar hne ?_ ?_ ?_ ?_⟩
  · rw [hchildren oldParent hedge.1]
    exact hedge.2
  · refine fun hbelow => hnot (RootedForest.mono_edge (fun {above below} hlisted => ?_) hbelow)
    exact ⟨hlisted.1, hchildren above hlisted.1 ▸ hlisted.2⟩
  · exact (hsame.entries _ hpar).isDirectory.trans hdir
  · rw [hchildren _ hpar]
    exact not_le.mp hroom
  · rw [hchildren _ hpar, map_name_eq (fun node hnode => (hsame.entries node hnode).toSameData)
      fun child hchild => h.forest.closed ⟨hpar, hchild⟩]
    exact hname

end

/-! ## Runs -/

/-- There is no tree before the first initialization. -/
structure Empty (s : State) : Prop where
  root : s.root = none
  nodeCount : s.nodeCount = 0
  totalFileBytes : s.totalFileBytes = 0

/-- The nodes form a tree under the root, or there is no root and nothing is counted. -/
def TreeInvariant (s : State) (nodes : Finset ℕ) : Prop :=
  (∃ root, Rooted s nodes root) ∨ nodes = ∅ ∧ Empty s

theorem Empty.wellformed (h : Empty s) : Wellformed s ∅ ∅ := by
  have hempty : ∀ {property : ℕ → Prop}, ∀ node ∈ (∅ : Finset ℕ), property node :=
    fun node hnode => absurd hnode (notMem_empty node)
  refine ⟨⟨empty_subset _, fun hedge => ?_, hempty, fun hedge => ?_, fun hroot => ?_,
    hempty⟩, hempty, fun hedge => ?_, hempty, hempty, h.nodeCount, h.totalFileBytes, ?_, ?_⟩
  · exact absurd hedge.1 (notMem_empty _)
  · exact absurd hedge.1 (notMem_empty _)
  · exact absurd hroot (notMem_empty _)
  · exact absurd hedge.1 (notMem_empty _)
  · rw [h.nodeCount]
    exact Nat.zero_le _
  · rw [h.totalFileBytes]
    exact Nat.zero_le _

/-- A call leaves the tree, the contents and the counters, or succeeds and leaves a tree. -/
def Keeps (s : State) (nodes : Finset ℕ) (result : Status × State) : Prop :=
  Unchanged nodes s result.2 ∨ result.1 = .ok ∧ ∃ nodes', TreeInvariant result.2 nodes'

theorem initializeRamfs_keeps (h : TreeInvariant s nodes) :
    Keeps s nodes (initializeRamfs grants s) := by
  rcases h with ⟨root, hrooted⟩ | ⟨rfl, hempty⟩
  · have houtcome : Outcome s nodes root (initializeRamfs grants s) := by
      refine Outcome.finish ?_
      rw [hrooted.root_eq]
      exact .refused ..
    exact houtcome.imp_right fun hok => ⟨hok.1, hok.2.imp fun _ hkept => .inl ⟨root, hkept⟩⟩
  rw [initializeRamfs, hempty.root, if_neg (by simp)]
  split
  · next hnone =>
    have hsame := allocateEntry_none hempty.wellformed hnone
    exact .inl { hsame with }
  next entry _ hsome =>
  have halloc := allocateEntry_some hempty.wellformed hsome
  refine .inr ⟨rfl, {entry}, .inl ⟨entry, ?_⟩⟩
  exact ⟨{ halloc.wellformed with }, rfl, halloc.isDirectory, halloc.parent⟩

theorem Empty.refuses (h : Empty s) (request : Request) (hreq : request ≠ .initializeRamfs) :
    Unchanged nodes s (request.perform grants s).2 := by
  have hcreate : ∀ path isDirectory,
      createEntry grants path isDirectory s = (.error .notInitialized, s) :=
    fun path isDirectory => if_pos h.root
  have hresolve : ∀ path, ∃ status, resolvePath s path = .error status := by
    intro path
    rw [resolvePath]
    split
    · exact ⟨_, rfl⟩
    · rw [resolveComponents, h.root]
      exact ⟨_, rfl⟩
  have hkept : ∀ status, Unchanged nodes s { s with lastStatus := status } :=
    fun status => ⟨rfl, rfl, rfl, fun _ _ => .refl _, le_rfl⟩
  cases request with
  | initializeRamfs => exact absurd rfl hreq
  | createFileAt path =>
    change Unchanged nodes s (createEntryAt grants path false s).2
    rw [createEntryAt, hcreate]
    exact hkept _
  | createDirectoryAt path =>
    change Unchanged nodes s (createEntryAt grants path true s).2
    rw [createEntryAt, hcreate]
    exact hkept _
  | writeFileData path data size createIfMissing =>
    change Unchanged nodes s (writeFileData grants path data size createIfMissing s).2
    rw [writeFileData, if_pos h.root]
    exact hkept _
  | removePath path recursive =>
    change Unchanged nodes s (removePath path recursive s).2
    obtain ⟨_, heq⟩ := hresolve path
    rw [removePath, heq]
    exact hkept _
  | copyFile sourcePath destinationPath =>
    change Unchanged nodes s (copyFile grants sourcePath destinationPath s).2
    rw [copyFile, if_pos h.root]
    exact hkept _
  | movePath sourcePath destinationPath =>
    change Unchanged nodes s (movePath grants sourcePath destinationPath s).2
    rw [movePath, if_pos h.root]
    exact hkept _

theorem Rooted.perform (h : Rooted s nodes root) (request : Request)
    (hreq : request ≠ .initializeRamfs) : Outcome s nodes root (request.perform grants s) := by
  cases request with
  | initializeRamfs => exact absurd rfl hreq
  | createFileAt path => exact createEntryAt_outcome h path false
  | createDirectoryAt path => exact createEntryAt_outcome h path true
  | writeFileData path data size createIfMissing =>
    exact writeFileData_outcome h path data size createIfMissing
  | removePath path recursive => exact removePath_outcome h path recursive
  | copyFile sourcePath destinationPath => exact copyFile_outcome h sourcePath destinationPath
  | movePath sourcePath destinationPath => exact movePath_outcome h sourcePath destinationPath

theorem TreeInvariant.perform (h : TreeInvariant s nodes) (request : Request) :
    Keeps s nodes (request.perform grants s) := by
  by_cases hreq : request = .initializeRamfs
  · rw [hreq]
    exact initializeRamfs_keeps h
  rcases h with ⟨root, hrooted⟩ | ⟨rfl, hempty⟩
  · exact (hrooted.perform request hreq).imp_right fun hok =>
      ⟨hok.1, hok.2.imp fun _ hkept => .inl ⟨root, hkept⟩⟩
  · exact .inl (hempty.refuses request hreq)

theorem TreeInvariant.unchanged (h : TreeInvariant s nodes) (hsame : Unchanged nodes s s') :
    TreeInvariant s' nodes := by
  rcases h with ⟨root, hrooted⟩ | ⟨rfl, hempty⟩
  · exact .inl ⟨root, hrooted.unchanged hsame⟩
  · exact .inr ⟨rfl, hsame.root.trans hempty.root, hsame.nodeCount.trans hempty.nodeCount,
      hsame.totalFileBytes.trans hempty.totalFileBytes⟩

theorem Reachable.treeInvariant (h : Reachable grants entries s) :
    ∃ nodes, TreeInvariant s nodes := by
  induction h with
  | start => exact ⟨∅, .inr ⟨rfl, rfl, rfl, rfl⟩⟩
  | step request _ ih =>
    obtain ⟨nodes, hinv⟩ := ih
    rcases hinv.perform request with hsame | ⟨-, hkept⟩
    · exact ⟨nodes, hinv.unchanged hsame⟩
    · exact hkept

/-- After every run, whatever allocations failed, the nodes form a tree under the root with exact
counters within the limits, and a call that fails changes neither tree nor contents nor
counters. -/
theorem ramfs_run_tree (hrun : Reachable grants entries s) :
    ∃ nodes, TreeInvariant s nodes ∧ ∀ request : Request, (request.perform grants s).1 ≠ .ok →
      Unchanged nodes s (request.perform grants s).2 := by
  obtain ⟨nodes, hinvariant⟩ := hrun.treeInvariant
  refine ⟨nodes, hinvariant, fun request hfailed => ?_⟩
  rcases hinvariant.perform request with hsame | ⟨hok, -⟩
  · exact hsame
  · exact absurd hok hfailed

def samplePath : Source := some fun index => [47, 97].getD index 0

def sampleEntries (_ : ℕ) : FileEntry := { name := [], isDirectory := false }

def sampleState : State :=
  (Request.perform (fun _ => true) (.createFileAt samplePath)
    (Request.perform (fun _ => true) .initializeRamfs (initialState sampleEntries)).2).2

theorem ramfs_run_tree_sample :
    sampleState.nodeCount = 2 ∧
      ∃ nodes, TreeInvariant sampleState nodes ∧
        ∀ request : Request, (request.perform (fun _ => true) sampleState).1 ≠ .ok →
          Unchanged nodes sampleState (request.perform (fun _ => true) sampleState).2 := by
  have hrun : Reachable (fun _ => true) sampleEntries sampleState := .step _ (.step _ .start)
  exact ⟨by decide +kernel, ramfs_run_tree hrun⟩

end Kurogane.Ramfs
