/-
# The calls of the memory file system

What each function of the file system does to a forest of entries. The functions
that only look things up return nodes of the tree. The functions that change it
either do so completely or leave the tree as it was.
-/

import Kurogane.Ramfs.Tree

namespace Kurogane.Ramfs

open Math Function List Finset State

variable {s s' : State} {nodes roots : Finset ℕ} {root node parent child : ℕ}
  {grants : ℕ → Bool}

/-! ## Looking up -/

structure Rooted (s : State) (nodes : Finset ℕ) (root : ℕ) : Prop
    extends Wellformed s nodes {root} where
  root_eq : s.root = some root
  root_directory : (s.entries root).isDirectory = true
  root_parent : (s.entries root).parent = none

theorem Rooted.root_mem (h : Rooted s nodes root) : root ∈ nodes :=
  h.forest.roots_subset (Finset.mem_singleton_self root)

variable {isDirectory : Bool} {components : List PathComponent} {component name : PathComponent}
  {path : Source} {status : Status}

theorem findChild_mem (hpar : parent ∈ nodes) (hfound : findChild s parent component = some child) :
    Edge nodes s.children parent child ∧ s.name child = component := by
  rw [findChild] at hfound
  split at hfound
  · cases hfound
  · have hname : ((s.entries child).name == component) :=
      find?_some (p := fun child => (s.entries child).name == component) hfound
    exact ⟨⟨hpar, mem_of_find?_eq_some hfound⟩, eq_of_beq hname⟩

theorem not_mem_names_of_findChild (hdir : (s.entries parent).isDirectory)
    (hnone : findChild s parent component = none) : component ∉ (s.children parent).map s.name := by
  rw [findChild, hdir] at hnone
  intro hmem
  obtain ⟨child, hchild, hname⟩ := mem_map.mp hmem
  have hne := find?_eq_none.mp hnone child hchild
  exact hne (beq_iff_eq.mpr hname)

section

variable (h : Rooted s nodes root)
include h

theorem Rooted.edge_parent (hnode : node ∈ nodes) (hne : node ≠ root) :
    ∃ parent, (s.entries node).parent = some parent ∧ Edge nodes s.children parent node := by
  obtain ⟨_, htop, hbelow⟩ := h.forest.grounded node hnode
  rcases Relation.ReflTransGen.cases_tail hbelow with heq | ⟨parent, -, hedge⟩
  · exact absurd (heq.trans (Finset.mem_singleton.mp htop)) hne
  · exact ⟨parent, h.parents hedge, hedge⟩

theorem Rooted.resolveFrom_mem :
    ∀ {current : ℕ}, current ∈ nodes → resolveFrom s root current components = .ok node →
      node ∈ nodes := by
  induction components with
  | nil =>
    intro current hcur hres
    cases hres
    exact hcur
  | cons _ _ ih =>
    intro current hcur hres
    rw [resolveFrom] at hres
    split at hres
    · cases hres
    split at hres
    · exact ih hcur hres
    split at hres
    · split at hres
      · cases hres
      next hne =>
      obtain ⟨_, hpar, hedge⟩ := h.edge_parent hcur hne
      rw [hpar] at hres
      exact ih hedge.1 hres
    split at hres
    · cases hres
    next hfound =>
    have hedge := (findChild_mem hcur hfound).1
    exact ih (h.forest.closed hedge) hres

theorem Rooted.resolveComponents_mem
    (hres : resolveComponents s components = .ok node) : node ∈ nodes := by
  rw [resolveComponents, h.root_eq] at hres
  exact h.resolveFrom_mem h.root_mem hres

theorem Rooted.resolvePath_mem (hres : resolvePath s path = .ok node) : node ∈ nodes := by
  rw [resolvePath] at hres
  split at hres
  · cases hres
  split at hres
  · cases hres
  next hcomps =>
  split at hres
  · cases hres
  · cases hres
    exact h.resolveComponents_mem hcomps

theorem Rooted.resolveDestination_spec {directory : Bool}
    {destination : Destination} (hres : resolveDestination s path directory = .ok destination) :
    destination.parent ∈ nodes ∧ (s.entries destination.parent).isDirectory ∧
      destination.existing = findChild s destination.parent destination.name := by
  rw [resolveDestination] at hres
  split at hres
  · cases hres
  split at hres
  · cases hres
  split at hres
  · cases hres
  split at hres
  · cases hres
  next hcomps =>
  split at hres
  · cases hres
  next hdir =>
  cases hres
  exact ⟨h.resolveComponents_mem hcomps, by simpa using hdir, rfl⟩

end

theorem Wellformed.mem_climb (h : Wellformed s nodes roots) (hnode : node ∈ nodes) {ancestor : ℕ}
    (hbelow : Below nodes s.children ancestor node) : ancestor ∈ climb s ramfsMaxNodes node := by
  have hclimb := @bounded_climb _ _ h.forest.wellFounded nodes
    (fun bound node => ∀ fuel ≥ bound, ∀ ancestor, Below nodes s.children ancestor node →
      ancestor ∈ climb s fuel node) (fun hedge => hedge.1) ?_ ?_ node hnode
  · exact hclimb _ (h.nodeCount ▸ h.nodeLimit) ancestor hbelow
  · intro bound node htop fuel hfuel ancestor hbelow
    obtain ⟨fuel, rfl⟩ : ∃ fuel', fuel = fuel' + 1 := ⟨fuel - 1, by omega⟩
    rcases Relation.ReflTransGen.cases_tail hbelow with heq | ⟨parent, -, hedge⟩
    · rw [climb, heq]
      exact mem_cons_self
    · exact absurd hedge (htop parent)
  · intro bound parent node hedge ih fuel hfuel ancestor hbelow
    obtain ⟨fuel, rfl⟩ : ∃ fuel', fuel = fuel' + 1 := ⟨fuel - 1, by omega⟩
    rw [climb, h.parents hedge]
    rcases h.forest.below_parent hedge hbelow with rfl | habove
    · exact mem_cons_self
    · exact mem_cons_of_mem _ (ih fuel (by omega) ancestor habove)

/-! ## Allocating -/

theorem kmalloc_eq {result : Option ℕ} (hcall : kmalloc grants s = (result, s')) :
    s' = { s with calls := s.calls + 1 } ∧ ∀ entry, result = some entry → entry = s.calls := by
  rw [kmalloc] at hcall
  split at hcall
  · cases hcall
    exact ⟨rfl, fun _ hentry => (Option.some.inj hentry).symm⟩
  · cases hcall
    exact ⟨rfl, by rintro _ ⟨⟩⟩

structure Allocated (s : State) (nodes roots : Finset ℕ) (name : PathComponent) (isDirectory : Bool)
    (entry : ℕ) (s' : State) : Prop where
  fresh : entry ∉ nodes
  wellformed : Wellformed s' (insert entry nodes) (insert entry roots)
  entries : ∀ node ∈ nodes, s'.entries node = s.entries node
  name : s'.name entry = name
  isDirectory : (s'.entries entry).isDirectory = isDirectory
  children : s'.children entry = []
  parent : (s'.entries entry).parent = none
  size : (s'.entries entry).size = 0
  root : s'.root = s.root
  nodeCount : s'.nodeCount = s.nodeCount + 1
  totalFileBytes : s'.totalFileBytes = s.totalFileBytes
  calls : s.calls ≤ s'.calls

section

variable (h : Wellformed s nodes roots)
include h

theorem Wellformed.allocate (capacity : ℕ) (hents : s'.entries = update s.entries s.calls
      { name := name, isDirectory := isDirectory, capacity := capacity })
    (hroot : s'.root = s.root) (hcount : s'.nodeCount = s.nodeCount + 1)
    (hroom : s.nodeCount < ramfsMaxNodes) (htotal : s'.totalFileBytes = s.totalFileBytes)
    (hcalls : s.calls < s'.calls) : Allocated s nodes roots name isDirectory s.calls s' := by
  have hself : s'.entries s.calls =
      { name := name, isDirectory := isDirectory, capacity := capacity } := by
    rw [hents, update_self]
  have hfresh : s.calls ∉ nodes := fun hmem => lt_irrefl _ (h.allocated _ hmem)
  have hother : ∀ node ∈ nodes, s'.entries node = s.entries node := by
    intro node hnode
    rw [hents, update_of_ne]
    rintro rfl
    exact hfresh hnode
  have hchildren : s'.children s.calls = [] := by rw [State.children, hself]
  have hwf : Wellformed s' (insert s.calls nodes) (insert s.calls roots) := by
    refine h.add hfresh hother hchildren ?_ ?_ hcalls.le hcalls hcount hroom htotal
    · rw [hself]
      exact ⟨fun _ => rfl, Nat.zero_le _, rfl, Nat.zero_le _, fun _ => rfl⟩
    · rw [hself, FileEntry.fileSize, ite_self]
  exact ⟨hfresh, hwf, hother, by rw [State.name, hself], by rw [hself], hchildren,
    by rw [hself], by rw [hself], hroot, hcount, htotal, hcalls.le⟩

theorem allocateEntry_none (hnone : allocateEntry grants name isDirectory s = (none, s')) :
    Unchanged nodes s s' := by
  revert hnone
  fun_cases allocateEntry grants name isDirectory s with
  | case1 =>
    rintro ⟨⟩
    exact .refl _ _
  | case2 _ _ hcall =>
    rintro ⟨⟩
    obtain ⟨rfl, -⟩ := kmalloc_eq hcall
    exact ⟨rfl, rfl, rfl, fun _ _ => .refl _, Nat.le_succ _⟩
  | case4 _ entry first hcall _ _ _ hagain =>
    rintro ⟨⟩
    obtain ⟨rfl, hentry⟩ := kmalloc_eq hcall
    obtain ⟨rfl, -⟩ := kmalloc_eq hagain
    refine ⟨rfl, rfl, rfl, fun other hother => ?_, Nat.le_succ_of_le (Nat.le_succ _)⟩
    have hne : other ≠ entry := (hentry entry rfl).symm ▸ (h.allocated other hother).ne
    change (s.entries other).Same (update s.entries entry _ other)
    rw [update_of_ne hne]
    exact .refl _
  | _ => nofun

theorem allocateEntry_some {entry : ℕ}
    (hsome : allocateEntry grants name isDirectory s = (some entry, s')) :
    Allocated s nodes roots name isDirectory entry s' := by
  revert hsome
  fun_cases allocateEntry grants name isDirectory s with
  | case3 hroom _ _ hcall =>
    rintro ⟨⟩
    obtain ⟨rfl, hentry⟩ := kmalloc_eq hcall
    obtain rfl := hentry _ rfl
    exact h.allocate 0 rfl rfl rfl (not_le.mp hroom) rfl (Nat.lt_succ_self _)
  | case5 hroom _ _ hcall _ _ _ _ hagain =>
    rintro ⟨⟩
    obtain ⟨rfl, hentry⟩ := kmalloc_eq hcall
    obtain rfl := hentry _ rfl
    obtain ⟨rfl, -⟩ := kmalloc_eq hagain
    refine h.allocate 1 ?_ rfl rfl (not_le.mp hroom) rfl (Nat.lt_succ_of_lt (Nat.lt_succ_self _))
    simp +zetaDelta [State.modify]
  | _ => nofun

end

/-! ## Linking -/

theorem ensureChildCapacity_unchanged (nodes : Finset ℕ) {directory : ℕ}
    (hres : ensureChildCapacity grants directory s = (status, s')) : Unchanged nodes s s' := by
  revert hres
  fun_cases ensureChildCapacity grants directory s with
  | case4 _ _ _ _ hcall =>
    rintro ⟨⟩
    obtain ⟨rfl, -⟩ := kmalloc_eq hcall
    exact ⟨rfl, rfl, rfl, fun _ _ => .refl _, Nat.le_succ _⟩
  | case5 _ _ _ _ _ _ hcall =>
    rintro ⟨⟩
    obtain ⟨rfl, -⟩ := kmalloc_eq hcall
    refine ⟨rfl, rfl, rfl, fun node _ => ⟨?_, ?_, ?_⟩, Nat.le_succ _⟩
    · constructor <;> exact modify_field _ _ directory node
    · exact modify_field _ FileEntry.children directory node
    · exact modify_field _ FileEntry.parent directory node
  | _ =>
    rintro ⟨⟩
    exact .refl _ _

theorem attachChild_spec (nodes : Finset ℕ)
    (hres : attachChild grants parent child s = (status, s')) :
    ∃ middle, Unchanged nodes s middle ∧
      (status = .ok → s' = linkChild parent child middle) ∧ (status ≠ .ok → s' = middle) := by
  revert hres
  fun_cases attachChild grants parent child s with
  | case1 middle hok =>
    rintro ⟨⟩
    exact ⟨middle, ensureChildCapacity_unchanged nodes hok, fun _ => rfl, fun hne => absurd rfl hne⟩
  | case2 _ _ hne hfail =>
    rintro ⟨⟩
    exact ⟨_, ensureChildCapacity_unchanged nodes hfail, fun hok => absurd hok hne, fun _ => rfl⟩

def State.relist (s : State) (parent : ℕ) (list : List ℕ) (child : ℕ) (above : Option ℕ) : State :=
  (s.modify parent fun entry => { entry with children := list }).modify child fun entry =>
    { entry with parent := above }

section

variable (s : State) (parent : ℕ) (list : List ℕ) (child : ℕ) (above : Option ℕ) (node : ℕ)

theorem State.relist_data :
    (s.entries node).SameData ((s.relist parent list child above).entries node) := by
  constructor <;> exact (modify_field _ _ child node).trans (s.modify_field _ parent node)

theorem State.relist_children : (s.relist parent list child above).children node =
    if node = parent then list else s.children node := by
  refine (modify_field _ FileEntry.children child node).trans ?_
  split
  · next heq => rw [heq, modify_self]
  · next hne => rw [modify_of_ne _ hne, children]

theorem State.relist_parent : ((s.relist parent list child above).entries node).parent =
    if node = child then above else (s.entries node).parent := by
  rw [relist]
  split
  · next heq => rw [heq, modify_self]
  · next hne =>
    rw [modify_of_ne _ hne]
    exact s.modify_field FileEntry.parent parent node

end

theorem linkChild_eq (parent child : ℕ) (s : State) : linkChild parent child s =
    s.relist parent (s.children parent ++ [child]) child (some parent) := rfl

theorem linkChild_spec (h : Wellformed s nodes roots) (hpar : parent ∈ nodes)
    (hchild : child ∈ roots) (hnot : ¬ Below nodes s.children child parent)
    (hdir : (s.entries parent).isDirectory)
    (hroom : (s.children parent).length < ramfsMaxChildren)
    (hname : s.name child ∉ (s.children parent).map s.name) :
    Wellformed (linkChild parent child s) nodes (roots.erase child) := by
  rw [linkChild_eq]
  refine h.attach hpar hchild hnot hdir hroom hname
    ⟨rfl, rfl, rfl, fun node _ => s.relist_data .., le_rfl⟩ (fun node _ hnode => ?_) ?_ ?_
      fun node _ hnode => ?_
  · rw [relist_children, if_neg hnode]
  · rw [relist_children, if_pos rfl]
  · rw [relist_parent, if_pos rfl]
  · rw [relist_parent, if_neg hnode]

theorem detachChild_eq (hlisted : child ∈ s.children parent) :
    detachChild (some parent) child s =
      s.relist parent ((s.children parent).erase child) child none := by
  rw [State.children] at hlisted
  rw [detachChild, if_pos hlisted]
  rfl

section

variable (h : Wellformed s nodes roots) (hedge : Edge nodes s.children parent child)
include h hedge

theorem detachChild_spec :
    Wellformed (detachChild (some parent) child s) nodes (insert child roots) := by
  rw [detachChild_eq hedge.2]
  refine h.detach hedge ⟨rfl, rfl, rfl, fun node _ => s.relist_data .., le_rfl⟩
    (fun node _ hnode => ?_) ?_ fun node _ hnode => ?_
  · rw [relist_children, if_neg hnode]
  · rw [relist_children, if_pos rfl]
  · rw [relist_parent, if_neg hnode]

end

/-! ## Destroying -/

/-- What is left of a forest when the tree of one root is destroyed. -/
structure Destroyed (s : State) (nodes roots : Finset ℕ) (entry : ℕ) (nodes' : Finset ℕ)
    (s' : State) : Prop where
  subset : nodes' ⊆ nodes
  gone : entry ∉ nodes'
  wellformed : Wellformed s' nodes' (roots.erase entry)
  entries : ∀ node ∈ nodes', s'.entries node = s.entries node
  root : s'.root = s.root
  calls : s'.calls = s.calls

theorem Wellformed.release_destroyed (h : Wellformed s nodes roots) (hroot : node ∈ roots)
    (hleaf : s.children node = []) :
    Destroyed s nodes roots node (nodes.erase node) (releaseEntry node s) :=
  ⟨erase_subset _ _, notMem_erase _ _, h.release hroot hleaf, fun _ _ => rfl, rfl, rfl⟩

/-- Every call cuts a child loose or releases an entry. Cutting makes one more root, releasing one
node and one root less, so that the nodes count twice against the roots. -/
theorem destroyFrom_spec (fuel : ℕ) : ∀ {s : State} {nodes roots : Finset ℕ} {entry : ℕ},
    Wellformed s nodes roots → entry ∈ roots → 2 * nodes.card < fuel + roots.card →
      ∃ nodes', Destroyed s nodes roots entry nodes' (destroyFrom fuel entry s) := by
  induction fuel with
  | zero =>
    intro s nodes roots entry h hentry hfuel
    have hle := card_le_card h.forest.roots_subset
    omega
  | succ _ ih =>
    intro s nodes roots entry h hentry hfuel
    rw [destroyFrom]
    rcases eq_nil_or_concat' (s.children entry) with hnil | ⟨others, child, hlist⟩
    · have hlast : (s.entries entry).children.getLast? = none := by
        rw [← State.children, hnil]
        rfl
      rw [hlast]
      exact ⟨_, h.release_destroyed hentry hnil⟩
    have hlast : (s.entries entry).children.getLast? = some child := by
      rw [← State.children, hlist]
      exact getLast?_concat
    rw [hlast]
    have hnode := h.forest.roots_subset hentry
    have hedge : Edge nodes s.children entry child := by
      refine ⟨hnode, ?_⟩
      rw [hlist]
      exact mem_append_right _ mem_cons_self
    have hnodup := h.forest.nodup entry hnode
    have herase : (s.children entry).dropLast = (s.children entry).erase child := by
      rw [hlist] at hnodup ⊢
      have hnot : child ∉ others := by
        intro hmem
        exact disjoint_of_nodup_append hnodup hmem mem_cons_self
      rw [dropLast_concat, erase_append_right _ hnot, erase_cons_head, append_nil]
    generalize hcut : (s.modify entry fun entry =>
      { entry with children := entry.children.dropLast }) = cut
    have hother : ∀ node, node ≠ entry → cut.entries node = s.entries node := by
      intro node hne
      rw [← hcut, modify_of_ne _ hne]
    have hwf : Wellformed cut nodes (insert child roots) := by
      subst hcut
      refine h.detach hedge ⟨rfl, rfl, rfl, fun node _ => ?_, le_rfl⟩ (fun node _ hne => ?_) ?_
        fun node _ _ => s.modify_field FileEntry.parent entry node
      · constructor <;> exact s.modify_field _ entry node
      · rw [State.children, State.children, hother node hne]
      · rw [State.children, modify_self]
        exact herase
    have hfields : cut.root = s.root ∧ cut.calls = s.calls := by
      subst hcut
      exact ⟨rfl, rfl⟩
    have hchildRoot : child ∉ roots := fun hmem => h.forest.top hmem hedge
    obtain ⟨nodes₁, hchild⟩ := ih hwf (mem_insert_self _ _) (by
      rw [card_insert_of_notMem hchildRoot]
      omega)
    have hroots := hchild.wellformed
    rw [erase_insert hchildRoot] at hroots
    have hcard : nodes₁.card < nodes.card := card_lt_card ⟨hchild.subset, fun hsubset =>
        hchild.gone (hsubset (h.forest.closed hedge))⟩
    obtain ⟨nodes₂, hrest⟩ := ih hroots hentry (by omega)
    refine ⟨nodes₂, hrest.subset.trans hchild.subset, hrest.gone, hrest.wellformed,
      fun node hmem => ?_, hrest.root.trans (hchild.root.trans hfields.1),
      hrest.calls.trans (hchild.calls.trans hfields.2)⟩
    have hne : node ≠ entry := fun heq => hrest.gone (heq ▸ hmem)
    rw [hrest.entries node hmem, hchild.entries node (hrest.subset hmem), hother node hne]

theorem destroySubtree_spec (h : Wellformed s nodes roots) (hroot : node ∈ roots) :
    ∃ nodes', Destroyed s nodes roots node nodes' (destroySubtree node s) := by
  refine destroyFrom_spec _ h hroot ?_
  have hpos := card_pos.mpr ⟨node, hroot⟩
  have hcount := h.nodeCount
  have hlimit := h.nodeLimit
  omega

theorem destroySubtree_leaf (hleaf : s.children node = []) :
    destroySubtree node s = releaseEntry node s := by
  have hlast : (s.entries node).children.getLast? = none := by
    rw [← State.children, hleaf]
    rfl
  change destroyFrom (511 + 1) node s = _
  rw [destroyFrom, hlast]

end Kurogane.Ramfs
