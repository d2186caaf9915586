/-
# The tree of a memory file system

`Wellformed` describes a forest of entries with exact counters: the tree of the
file system and the entries that a call has taken out of it or not yet put into
it. Every operation is a sequence of the few changes this module describes:
adding an entry, cutting a child loose, hanging an entry under a directory,
dropping one without children, writing and renaming.
-/

import Kurogane.Math.RootedForest
import Kurogane.Ramfs.Ramfs
import Mathlib.Algebra.BigOperators.Group.Finset.Basic

namespace Kurogane.Ramfs

open Math Function List

variable {s s' : State} {nodes roots : Finset ℕ} {node parent child : ℕ}

/-! ## Entries and their forest -/

def State.children (s : State) (node : ℕ) : List ℕ := (s.entries node).children

def State.name (s : State) (node : ℕ) : PathComponent := (s.entries node).name

def FileEntry.fileSize (entry : FileEntry) : ℕ := if entry.isDirectory then 0 else entry.size

/-- What holds of every entry by itself. -/
structure FileEntry.Valid (entry : FileEntry) : Prop where
  leaf : entry.isDirectory = false → entry.children = []
  fanout : entry.children.length ≤ ramfsMaxChildren
  content : entry.content.length = entry.size
  size : entry.size ≤ ramfsMaxFileSize
  directory : entry.isDirectory = true → entry.size = 0

/-- A forest of entries: parent pointers name the listing directory, siblings have different
names, and the counters count the nodes and the bytes of the files. -/
structure Wellformed (s : State) (nodes roots : Finset ℕ) : Prop where
  forest : RootedForest nodes roots s.children
  allocated : ∀ node ∈ nodes, node < s.calls
  parents : ∀ {parent child}, Edge nodes s.children parent child →
    (s.entries child).parent = some parent
  names : ∀ node ∈ nodes, ((s.children node).map s.name).Nodup
  valid : ∀ node ∈ nodes, (s.entries node).Valid
  nodeCount : s.nodeCount = nodes.card
  totalFileBytes : s.totalFileBytes = ∑ node ∈ nodes, (s.entries node).fileSize
  nodeLimit : s.nodeCount ≤ ramfsMaxNodes
  byteLimit : s.totalFileBytes ≤ ramfsMaxTotalFileBytes

/-- What a file or directory is apart from its place in the tree. -/
structure FileEntry.SameData (entry entry' : FileEntry) : Prop where
  name : entry'.name = entry.name
  content : entry'.content = entry.content
  size : entry'.size = entry.size
  isDirectory : entry'.isDirectory = entry.isDirectory

structure FileEntry.Same (entry entry' : FileEntry) : Prop extends SameData entry entry' where
  children : entry'.children = entry.children
  parent : entry'.parent = entry.parent

/-- The tree, the contents and the counters are as they were. -/
structure Unchanged (nodes : Finset ℕ) (s s' : State) : Prop where
  root : s'.root = s.root
  nodeCount : s'.nodeCount = s.nodeCount
  totalFileBytes : s'.totalFileBytes = s.totalFileBytes
  entries : ∀ node ∈ nodes, (s.entries node).Same (s'.entries node)
  calls : s.calls ≤ s'.calls

theorem FileEntry.SameData.refl (entry : FileEntry) : entry.SameData entry := ⟨rfl, rfl, rfl, rfl⟩

variable {entry entry' : FileEntry} {β : Type}

theorem FileEntry.SameData.trans {middle : FileEntry} (h : entry.SameData middle)
    (h' : middle.SameData entry') : entry.SameData entry' :=
  ⟨h'.name.trans h.name, h'.content.trans h.content, h'.size.trans h.size,
    h'.isDirectory.trans h.isDirectory⟩

theorem FileEntry.Same.refl (entry : FileEntry) : entry.Same entry := ⟨.refl _, rfl, rfl⟩

theorem FileEntry.SameData.fileSize (h : entry.SameData entry') :
    entry'.fileSize = entry.fileSize := by
  rw [FileEntry.fileSize, FileEntry.fileSize, h.isDirectory, h.size]

theorem FileEntry.Valid.sameData (h : entry.Valid)
    (hdata : entry.SameData entry') (hleaf : entry'.isDirectory = false → entry'.children = [])
    (hfanout : entry'.children.length ≤ ramfsMaxChildren) : entry'.Valid where
  leaf := hleaf
  fanout := hfanout
  content := by rw [hdata.content, hdata.size, h.content]
  size := hdata.size ▸ h.size
  directory := by
    rw [hdata.isDirectory, hdata.size]
    exact h.directory

theorem Unchanged.refl (nodes : Finset ℕ) (s : State) : Unchanged nodes s s :=
  ⟨rfl, rfl, rfl, fun _ _ => .refl _, le_rfl⟩

@[simp]
theorem State.modify_self (s : State) (node : ℕ) (change : FileEntry → FileEntry) :
    (s.modify node change).entries node = change (s.entries node) := update_self ..

theorem State.modify_of_ne (s : State) {node other : ℕ} (h : other ≠ node)
    (change : FileEntry → FileEntry) : (s.modify node change).entries other = s.entries other :=
  update_of_ne h ..

/-- What one changed entry keeps is kept in all entries. -/
theorem entries_frame (field : FileEntry → β)
    (hother : ∀ other, other ≠ node → s'.entries other = s.entries other)
    (hself : field (s'.entries node) = field (s.entries node)) (other : ℕ) :
    field (s'.entries other) = field (s.entries other) := by
  by_cases heq : other = node
  · rw [heq, hself]
  · rw [hother other heq]

theorem State.modify_field (s : State) (field : FileEntry → β) (node other : ℕ)
    {change : FileEntry → FileEntry}
    (hkept : ∀ entry, field (change entry) = field entry := by exact fun _ => rfl) :
    field ((s.modify node change).entries other) = field (s.entries other) :=
  entries_frame field (fun _ hne => s.modify_of_ne hne change) (by rw [modify_self, hkept]) other

/-- A change that keeps name, contents and kind of all entries, and the counters. -/
structure Relinked (nodes : Finset ℕ) (s s' : State) : Prop where
  root : s'.root = s.root
  nodeCount : s'.nodeCount = s.nodeCount
  totalFileBytes : s'.totalFileBytes = s.totalFileBytes
  data : ∀ node ∈ nodes, (s.entries node).SameData (s'.entries node)
  calls : s.calls ≤ s'.calls

theorem Wellformed.relink {roots' : Finset ℕ} (h : Wellformed s nodes roots)
    (hrelinked : Relinked nodes s s') (hforest : RootedForest nodes roots' s'.children)
    (hparents : ∀ {parent child}, Edge nodes s'.children parent child →
      (s'.entries child).parent = some parent)
    (hnames : ∀ node ∈ nodes, ((s'.children node).map s'.name).Nodup)
    (hleaf : ∀ node ∈ nodes, (s.entries node).isDirectory = false → s'.children node = [])
    (hfanout : ∀ node ∈ nodes, (s'.children node).length ≤ ramfsMaxChildren) :
    Wellformed s' nodes roots' where
  forest := hforest
  allocated node hnode := (h.allocated node hnode).trans_le hrelinked.calls
  parents := hparents
  names := hnames
  valid node hnode := by
    refine (h.valid node hnode).sameData (hrelinked.data node hnode) ?_ (hfanout node hnode)
    rw [(hrelinked.data node hnode).isDirectory]
    exact hleaf node hnode
  nodeCount := hrelinked.nodeCount.trans h.nodeCount
  totalFileBytes := by
    rw [hrelinked.totalFileBytes, h.totalFileBytes]
    exact Finset.sum_congr rfl fun node hnode => (hrelinked.data node hnode).fileSize.symm
  nodeLimit := hrelinked.nodeCount ▸ h.nodeLimit
  byteLimit := hrelinked.totalFileBytes ▸ h.byteLimit

theorem map_name_eq (hdata : ∀ node ∈ nodes, (s.entries node).SameData (s'.entries node))
    {list : List ℕ} (hlist : ∀ node ∈ list, node ∈ nodes) : list.map s'.name = list.map s.name :=
  map_congr_left fun node hnode => (hdata node (hlist node hnode)).name

section

variable (h : Wellformed s nodes roots)
include h

theorem Wellformed.unchanged (hsame : Unchanged nodes s s') : Wellformed s' nodes roots := by
  have hchildren : ∀ node ∈ nodes, s'.children node = s.children node :=
    fun node hnode => (hsame.entries node hnode).children
  have hdata : ∀ node ∈ nodes, (s.entries node).SameData (s'.entries node) :=
    fun node hnode => (hsame.entries node hnode).toSameData
  refine h.relink { hsame with data := hdata } (h.forest.congr hchildren) ?_ ?_ ?_ ?_
  · rintro parent child ⟨hpar, hchild⟩
    rw [hchildren parent hpar] at hchild
    rw [(hsame.entries child (h.forest.closed ⟨hpar, hchild⟩)).parent]
    exact h.parents ⟨hpar, hchild⟩
  · intro node hnode
    rw [hchildren node hnode, map_name_eq hdata fun child hchild => h.forest.closed ⟨hnode, hchild⟩]
    exact h.names node hnode
  · intro node hnode hfile
    rw [hchildren node hnode]
    exact (h.valid node hnode).leaf hfile
  · intro node hnode
    rw [hchildren node hnode]
    exact (h.valid node hnode).fanout

/-! ## Cutting loose and hanging -/

theorem Wellformed.detach (hedge : Edge nodes s.children parent child)
    (hrelinked : Relinked nodes s s')
    (hother : ∀ node ∈ nodes, node ≠ parent → s'.children node = s.children node)
    (hlist : s'.children parent = (s.children parent).erase child)
    (hparents : ∀ node ∈ nodes, node ≠ child → (s'.entries node).parent = (s.entries node).parent) :
    Wellformed s' nodes (insert child roots) := by
  have hnodup := h.forest.nodup parent hedge.1
  have hsub : ∀ node ∈ nodes, (s'.children node).Sublist (s.children node) := by
    intro node hnode
    by_cases heq : node = parent
    · rw [heq, hlist]
      exact erase_sublist
    · rw [hother node hnode heq]
  have hforest : RootedForest nodes (insert child roots) s'.children := by
    refine h.forest.detach hedge hother (fun node => ?_) ?_
    · rw [hlist, hnodup.mem_erase_iff]
      exact and_comm
    · rw [hlist]
      exact hnodup.erase child
  refine h.relink hrelinked hforest ?_ ?_ ?_ ?_
  · rintro above below hbelow
    have hold : Edge nodes s.children above below :=
      ⟨hbelow.1, (hsub above hbelow.1).subset hbelow.2⟩
    have hne : below ≠ child := by
      rintro rfl
      exact hforest.top (Finset.mem_insert_self _ _) hbelow
    rw [hparents below (h.forest.closed hold) hne]
    exact h.parents hold
  · intro node hnode
    rw [map_name_eq hrelinked.data fun below hbelow => hforest.closed ⟨hnode, hbelow⟩]
    exact (h.names node hnode).sublist ((hsub node hnode).map s.name)
  · intro node hnode hfile
    have hnil := (h.valid node hnode).leaf hfile
    have hsublist := hsub node hnode
    rw [State.children, State.children, hnil] at hsublist
    exact sublist_nil.mp hsublist
  · exact fun node hnode => (hsub node hnode).length_le.trans (h.valid node hnode).fanout

theorem Wellformed.attach (hpar : parent ∈ nodes) (hchild : child ∈ roots)
    (hnot : ¬ Below nodes s.children child parent) (hdir : (s.entries parent).isDirectory = true)
    (hroom : (s.children parent).length < ramfsMaxChildren)
    (hname : s.name child ∉ (s.children parent).map s.name) (hrelinked : Relinked nodes s s')
    (hother : ∀ node ∈ nodes, node ≠ parent → s'.children node = s.children node)
    (hlist : s'.children parent = s.children parent ++ [child])
    (hchildParent : (s'.entries child).parent = some parent)
    (hparents : ∀ node ∈ nodes, node ≠ child → (s'.entries node).parent = (s.entries node).parent) :
    Wellformed s' nodes (roots.erase child) := by
  have hforest : RootedForest nodes (roots.erase child) s'.children :=
    h.forest.attach hpar hchild hnot hother hlist
  have hclosed : ∀ node ∈ nodes, ∀ below ∈ s'.children node, below ∈ nodes :=
    fun node hnode below hbelow => hforest.closed ⟨hnode, hbelow⟩
  refine h.relink hrelinked hforest ?_ ?_ ?_ ?_
  · rintro above below hbelow
    rcases (edge_append hpar hother hlist).mp hbelow with hold | ⟨rfl, rfl⟩
    · have hne : below ≠ child := by
        rintro rfl
        exact h.forest.top hchild hold
      rw [hparents below (h.forest.closed hold) hne]
      exact h.parents hold
    · exact hchildParent
  · intro node hnode
    rw [map_name_eq hrelinked.data (hclosed node hnode)]
    by_cases heq : node = parent
    · rw [heq, hlist, map_append]
      refine List.Nodup.append (h.names parent hpar) (nodup_singleton _) ?_
      intro name hmem hsingle
      rw [map_singleton, mem_singleton] at hsingle
      exact hname (hsingle ▸ hmem)
    · rw [hother node hnode heq]
      exact h.names node hnode
  · intro node hnode hfile
    have hne : node ≠ parent := by
      rintro rfl
      rw [hdir] at hfile
      cases hfile
    rw [hother node hnode hne]
    exact (h.valid node hnode).leaf hfile
  · intro node hnode
    by_cases heq : node = parent
    · rw [heq, hlist, length_append, length_singleton]
      exact hroom
    · rw [hother node hnode heq]
      exact (h.valid node hnode).fanout

/-! ## Adding and dropping -/

theorem Wellformed.add (hfresh : node ∉ nodes)
    (hents : ∀ other ∈ nodes, s'.entries other = s.entries other)
    (hchildren : s'.children node = []) (hvalid : (s'.entries node).Valid)
    (hsize : (s'.entries node).fileSize = 0) (hcalls : s.calls ≤ s'.calls)
    (halloc : node < s'.calls) (hcount : s'.nodeCount = s.nodeCount + 1)
    (hroom : s.nodeCount < ramfsMaxNodes) (htotal : s'.totalFileBytes = s.totalFileBytes) :
    Wellformed s' (insert node nodes) (insert node roots) := by
  have hsame : ∀ other ∈ nodes, s'.children other = s.children other := fun other hother => by
    rw [State.children, State.children, hents other hother]
  have hforest : RootedForest (insert node nodes) (insert node roots) s'.children :=
    (h.forest.congr hsame).add hfresh hchildren
  have hedges : ∀ {above below}, Edge (insert node nodes) s'.children above below →
      Edge nodes s.children above below := by
    rintro above below ⟨habove, hbelow⟩
    rcases Finset.mem_insert.mp habove with rfl | habove
    · rw [hchildren] at hbelow
      exact absurd hbelow not_mem_nil
    · rw [hsame above habove] at hbelow
      exact ⟨habove, hbelow⟩
  refine ⟨hforest, fun other hother => ?_, fun hedge => ?_, fun other hother => ?_,
    fun other hother => ?_, ?_, ?_, ?_, ?_⟩
  · rcases Finset.mem_insert.mp hother with rfl | hother
    · exact halloc
    · exact (h.allocated other hother).trans_le hcalls
  · rw [hents _ (h.forest.closed (hedges hedge))]
    exact h.parents (hedges hedge)
  · rcases Finset.mem_insert.mp hother with rfl | hother
    · rw [hchildren]
      exact nodup_nil
    rw [hsame other hother]
    have hnames : (s.children other).map s'.name = (s.children other).map s.name := by
      refine map_congr_left fun below hbelow => ?_
      rw [State.name, State.name, hents below (h.forest.closed ⟨hother, hbelow⟩)]
    rw [hnames]
    exact h.names other hother
  · rcases Finset.mem_insert.mp hother with rfl | hother
    · exact hvalid
    · rw [hents other hother]
      exact h.valid other hother
  · rw [hcount, h.nodeCount, Finset.card_insert_of_notMem hfresh]
  · rw [htotal, h.totalFileBytes, Finset.sum_insert hfresh, hsize, zero_add]
    exact Finset.sum_congr rfl fun other hother => by rw [hents other hother]
  · rw [hcount]
    exact hroom
  · rw [htotal]
    exact h.byteLimit

theorem Wellformed.release (hroot : node ∈ roots) (hleaf : s.children node = []) :
    Wellformed (releaseEntry node s) (nodes.erase node) (roots.erase node) := by
  have hnode := h.forest.roots_subset hroot
  have hsum := Finset.add_sum_erase nodes (fun node => (s.entries node).fileSize) hnode
  have htotal : (releaseEntry node s).totalFileBytes =
      s.totalFileBytes - (s.entries node).fileSize := by
    rw [releaseEntry, FileEntry.fileSize]
    split <;> rfl
  have hsub : ∀ {other}, other ∈ nodes.erase node → other ∈ nodes := Finset.mem_of_mem_erase
  refine ⟨h.forest.drop hroot hleaf, fun other hother => h.allocated other (hsub hother),
    fun hedge => h.parents ⟨hsub hedge.1, hedge.2⟩, fun other hother => h.names other (hsub hother),
    fun other hother => h.valid other (hsub hother), ?_, ?_, ?_, ?_⟩
  · rw [Finset.card_erase_of_mem hnode, ← h.nodeCount]
    rfl
  · rw [htotal, h.totalFileBytes, ← hsum, Nat.add_sub_cancel_left]
    rfl
  · exact (Nat.sub_le _ _).trans h.nodeLimit
  · rw [htotal]
    exact (Nat.sub_le _ _).trans h.byteLimit

end

/-! ## Writing and renaming -/

structure Written (s : State) (nodes roots : Finset ℕ) (node : ℕ) (s' : State) : Prop where
  wellformed : Wellformed s' nodes roots
  other : ∀ other, other ≠ node → s'.entries other = s.entries other
  name : s'.name node = s.name node
  isDirectory : (s'.entries node).isDirectory = (s.entries node).isDirectory
  children : s'.children node = s.children node
  parent : (s'.entries node).parent = (s.entries node).parent
  root : s'.root = s.root
  nodeCount : s'.nodeCount = s.nodeCount
  totalFileBytes : s'.totalFileBytes - (s'.entries node).size =
    s.totalFileBytes - (s.entries node).size
  calls : s.calls ≤ s'.calls

theorem length_bytesOf (data : Source) (size : ℕ) : (bytesOf data size).length = size := by
  rw [bytesOf, length_map, length_range]

theorem Wellformed.write (h : Wellformed s nodes roots) (hnode : node ∈ nodes)
    (hfile : (s.entries node).isDirectory = false) (data : Source) {size : ℕ} (capacity : ℕ)
    (hsize : size ≤ ramfsMaxFileSize)
    (hlimit : s.totalFileBytes - (s.entries node).size + size ≤ ramfsMaxTotalFileBytes) :
    Written s nodes roots node (publishContent node data size capacity s) := by
  set s' := publishContent node data size capacity s
  have hself : s'.entries node =
      { s.entries node with content := bytesOf data size, size := size, capacity := capacity } :=
    update_self ..
  have hother : ∀ other, other ≠ node → s'.entries other = s.entries other :=
    fun other hne => update_of_ne hne ..
  have hchildren : s'.children = s.children :=
    funext (entries_frame FileEntry.children hother (by rw [hself]))
  have hname : s'.name = s.name := funext (entries_frame FileEntry.name hother (by rw [hself]))
  have hpar := entries_frame FileEntry.parent hother (by rw [hself])
  refine ⟨⟨hchildren ▸ h.forest, h.allocated, fun {above below} hedge => ?_, fun other hmem => ?_,
    fun other hmem => ?_, h.nodeCount, ?_, h.nodeLimit, hlimit⟩, hother, congrFun hname node,
    by rw [hself], congrFun hchildren node, hpar node, rfl, rfl, ?_, le_rfl⟩
  · rw [hchildren] at hedge
    rw [hpar]
    exact h.parents hedge
  · rw [hchildren, hname]
    exact h.names other hmem
  · by_cases heq : other = node
    · rw [heq, hself]
      have hvalid := h.valid node hnode
      refine ⟨hvalid.leaf, hvalid.fanout, length_bytesOf data size, hsize, fun hdir => ?_⟩
      rw [hfile] at hdir
      cases hdir
    · rw [hother other heq]
      exact h.valid other hmem
  · have hsum := Finset.add_sum_erase nodes (fun node => (s.entries node).fileSize) hnode
    have hsum' := Finset.add_sum_erase nodes (fun other => (s'.entries other).fileSize) hnode
    have hrest : ∑ other ∈ nodes.erase node, (s'.entries other).fileSize =
        ∑ other ∈ nodes.erase node, (s.entries other).fileSize :=
      Finset.sum_congr rfl fun other hmem => by rw [hother other (Finset.ne_of_mem_erase hmem)]
    have hold : (s.entries node).fileSize = (s.entries node).size := by
      rw [FileEntry.fileSize, hfile]
      rfl
    have hnew : (s'.entries node).fileSize = size := by
      rw [hself, FileEntry.fileSize]
      rw [hfile]
      rfl
    have htotal := h.totalFileBytes
    change s.totalFileBytes - (s.entries node).size + size = _
    omega
  · rw [hself]
    exact Nat.add_sub_cancel ..

theorem Wellformed.rename (h : Wellformed s nodes roots) (name : PathComponent)
    (hname : ∀ {parent}, Edge nodes s.children parent node →
      name ∉ ((s.children parent).erase node).map s.name) :
    Wellformed (setEntryName node name s) nodes roots := by
  have hself : (setEntryName node name s).entries node = { s.entries node with name := name } :=
    State.modify_self ..
  have hother : ∀ other, other ≠ node →
      (setEntryName node name s).entries other = s.entries other :=
    fun other hne => State.modify_of_ne s hne _
  have hchildren : (setEntryName node name s).children = s.children :=
    funext (s.modify_field FileEntry.children node)
  have hnames : ∀ {list : List ℕ}, node ∉ list →
      list.map (setEntryName node name s).name = list.map s.name := by
    intro list hnot
    refine map_congr_left fun other hmem => ?_
    rw [State.name, State.name, hother other fun heq => hnot (heq ▸ hmem)]
  refine { h with
    forest := hchildren ▸ h.forest, parents := fun {above below} hedge => ?_
    names := fun other hmem => ?_, valid := fun other hmem => ?_, totalFileBytes := ?_ }
  · rw [hchildren] at hedge
    exact (s.modify_field FileEntry.parent node below).trans (h.parents hedge)
  · rw [hchildren]
    by_cases hlisted : node ∈ s.children other
    · have hperm := perm_cons_erase hlisted
      have hnot : node ∉ (s.children other).erase node :=
        fun hmem' => (((h.forest.nodup other hmem).mem_erase_iff).mp hmem').1 rfl
      rw [(hperm.map _).nodup_iff, map_cons, nodup_cons, hnames hnot]
      have hnamed : (setEntryName node name s).name node = name := by
        rw [State.name, hself]
      rw [hnamed]
      exact ⟨hname ⟨hmem, hlisted⟩, (h.names other hmem).sublist (erase_sublist.map s.name)⟩
    · rw [hnames hlisted]
      exact h.names other hmem
  · by_cases heq : other = node
    · rw [heq, hself]
      exact { h.valid node (heq ▸ hmem) with }
    · rw [hother other heq]
      exact h.valid other hmem
  · refine h.totalFileBytes.trans (Finset.sum_congr rfl fun other _ => ?_)
    exact (s.modify_field FileEntry.fileSize node other).symm

end Kurogane.Ramfs
