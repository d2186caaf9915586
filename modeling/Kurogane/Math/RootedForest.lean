/-
# Forests of listed children

A finite set of nodes in which every node lists its children. Some nodes are
roots, every other node is listed exactly once, and every node lies below a root.
Trees are cut loose, dropped and hung under other nodes one edge at a time.
-/

import Kurogane.Math.Forest
import Mathlib.Algebra.Order.Group.Nat

namespace Kurogane.Math

open Finset List

variable {α : Type*} {nodes roots : Finset α} {children children' : α → List α}

/-- The child is listed by the parent. -/
def Edge (nodes : Finset α) (children : α → List α) (parent child : α) : Prop :=
  parent ∈ nodes ∧ child ∈ children parent

theorem edge_append {parent child : α} (hpar : parent ∈ nodes)
    (hother : ∀ node ∈ nodes, node ≠ parent → children' node = children node)
    (hlist : children' parent = children parent ++ [child]) {above below : α} :
    Edge nodes children' above below ↔
      Edge nodes children above below ∨ above = parent ∧ below = child := by
  by_cases habove : above = parent
  · subst habove
    rw [Edge, hlist, List.mem_append, List.mem_singleton, Edge, and_or_left]
    exact or_congr_right ⟨fun hand => ⟨rfl, hand.2⟩, fun hand => ⟨hpar, hand.2⟩⟩
  · rw [Edge, Edge, or_iff_left fun hand => habove hand.1]
    exact and_congr_right fun hnode => by rw [hother above hnode habove]

/-- The node is the ancestor or lies below it. -/
def Below (nodes : Finset α) (children : α → List α) : α → α → Prop :=
  Relation.ReflTransGen (Edge nodes children)

structure RootedForest (nodes roots : Finset α) (children : α → List α) : Prop where
  roots_subset : roots ⊆ nodes
  closed : ∀ {parent child}, Edge nodes children parent child → child ∈ nodes
  nodup : ∀ parent ∈ nodes, (children parent).Nodup
  unique : ∀ {parent other child}, Edge nodes children parent child →
    Edge nodes children other child → parent = other
  top : ∀ {root parent}, root ∈ roots → ¬ Edge nodes children parent root
  grounded : ∀ node ∈ nodes, ∃ root ∈ roots, Below nodes children root node

variable {ancestor node parent child : α}

namespace RootedForest

theorem mono_edge {nodes' : Finset α}
    (h : ∀ {parent child}, Edge nodes children parent child → Edge nodes' children' parent child)
    (hbelow : Below nodes children ancestor node) : Below nodes' children' ancestor node :=
  Relation.ReflTransGen.mono (fun _ _ => h) _ _ hbelow

section

variable (h : RootedForest nodes roots children)
include h

theorem congr (hsame : ∀ node ∈ nodes, children' node = children node) :
    RootedForest nodes roots children' := by
  have hedge : ∀ {parent child}, Edge nodes children' parent child ↔
      Edge nodes children parent child := by
    intro parent child
    refine and_congr_right fun hpar => ?_
    rw [hsame parent hpar]
  refine ⟨h.roots_subset, fun hchild => h.closed (hedge.mp hchild), fun parent hpar => ?_,
    fun hpar hother => h.unique (hedge.mp hpar) (hedge.mp hother),
    fun hroot hpar => h.top hroot (hedge.mp hpar), fun node hnode => ?_⟩
  · rw [hsame parent hpar]
    exact h.nodup parent hpar
  · obtain ⟨root, hroot, hbelow⟩ := h.grounded node hnode
    exact ⟨root, hroot, mono_edge hedge.mpr hbelow⟩

theorem wellFounded : WellFounded (Edge nodes children) := by
  refine ⟨fun node => ?_⟩
  by_cases hnode : node ∈ nodes
  · obtain ⟨_, hroot, hbelow⟩ := h.grounded node hnode
    induction hbelow with
    | refl => exact ⟨_, fun parent hpar => absurd hpar (h.top hroot)⟩
    | tail _ hedge ih =>
      refine ⟨_, fun parent hpar => ?_⟩
      rw [h.unique hpar hedge]
      exact ih hedge.1
  · exact ⟨_, fun parent hpar => absurd (h.closed hpar) hnode⟩

theorem below_parent (hedge : Edge nodes children parent child)
    (hbelow : Below nodes children ancestor child) :
    ancestor = child ∨ Below nodes children ancestor parent := by
  rcases Relation.ReflTransGen.cases_tail hbelow with heq | ⟨_, hother, hedge'⟩
  · exact .inl heq.symm
  · rw [h.unique hedge hedge']
    exact .inr hother

end

variable [DecidableEq α]

section

variable (h : RootedForest nodes roots children)
include h

/-- A child that is struck from its parent's list becomes a root. -/
theorem detach (hedge : Edge nodes children parent child)
    (hother : ∀ node ∈ nodes, node ≠ parent → children' node = children node)
    (hmem : ∀ node, node ∈ children' parent ↔ node ∈ children parent ∧ node ≠ child)
    (hnodup : (children' parent).Nodup) : RootedForest nodes (insert child roots) children' := by
  have hiff : ∀ {above below}, Edge nodes children' above below ↔
      Edge nodes children above below ∧ below ≠ child := by
    intro above below
    by_cases habove : above = parent
    · subst habove
      rw [Edge, hmem, Edge, and_assoc]
    constructor
    · rintro ⟨hnode, hbelow⟩
      rw [hother above hnode habove] at hbelow
      refine ⟨⟨hnode, hbelow⟩, ?_⟩
      rintro rfl
      exact habove (h.unique ⟨hnode, hbelow⟩ hedge)
    rintro ⟨⟨hnode, hbelow⟩, -⟩
    refine ⟨hnode, ?_⟩
    rw [hother above hnode habove]
    exact hbelow
  refine ⟨?_, fun hbelow => h.closed (hiff.mp hbelow).1, fun node hnode => ?_,
    fun hpar hother => h.unique (hiff.mp hpar).1 (hiff.mp hother).1,
    fun hroot hbelow => ?_, fun node hnode => ?_⟩
  · exact insert_subset (h.closed hedge) h.roots_subset
  · by_cases heq : node = parent
    · rw [heq]
      exact hnodup
    · rw [hother node hnode heq]
      exact h.nodup node hnode
  · rcases mem_insert.mp hroot with rfl | hroot
    · exact (hiff.mp hbelow).2 rfl
    · exact h.top hroot (hiff.mp hbelow).1
  -- the path from the old root either avoids the edge or passes the child
  obtain ⟨root, hroot, hbelow⟩ := h.grounded node hnode
  clear hnode
  induction hbelow with
  | refl => exact ⟨root, mem_insert_of_mem hroot, .refl⟩
  | @tail _ below _ hlast ih =>
    by_cases heq : below = child
    · rw [heq]
      exact ⟨child, mem_insert_self _ _, .refl⟩
    · obtain ⟨top, htop, hpath⟩ := ih
      exact ⟨top, htop, hpath.tail (hiff.mpr ⟨hlast, heq⟩)⟩

/-- A root without children is dropped. -/
theorem drop {root : α} (hroot : root ∈ roots) (hleaf : children root = []) :
    RootedForest (nodes.erase root) (roots.erase root) children := by
  have hiff : ∀ {parent child}, Edge (nodes.erase root) children parent child ↔
      Edge nodes children parent child := by
    intro parent child
    refine ⟨fun hedge => ⟨mem_of_mem_erase hedge.1, hedge.2⟩, fun hedge => ⟨?_, hedge.2⟩⟩
    refine mem_erase.mpr ⟨?_, hedge.1⟩
    rintro rfl
    rw [Edge, hleaf] at hedge
    exact not_mem_nil hedge.2
  refine ⟨erase_subset_erase _ h.roots_subset, fun hedge => ?_,
    fun parent hpar => h.nodup parent (mem_of_mem_erase hpar),
    fun hpar hother => h.unique (hiff.mp hpar) (hiff.mp hother),
    fun htop hedge => h.top (mem_of_mem_erase htop) (hiff.mp hedge), fun node hnode => ?_⟩
  · refine mem_erase.mpr ⟨?_, h.closed (hiff.mp hedge)⟩
    rintro rfl
    exact h.top hroot (hiff.mp hedge)
  obtain ⟨hne, hnode⟩ := mem_erase.mp hnode
  obtain ⟨top, htop, hbelow⟩ := h.grounded node hnode
  refine ⟨top, mem_erase.mpr ⟨?_, htop⟩, mono_edge hiff.mpr hbelow⟩
  rintro rfl
  rcases Relation.ReflTransGen.cases_head hbelow with heq | ⟨_, hedge, -⟩
  · exact hne heq.symm
  · rw [Edge, hleaf] at hedge
    exact not_mem_nil hedge.2

/-- A new node without children is a root. -/
theorem add (hfresh : node ∉ nodes) (hleaf : children node = []) :
    RootedForest (insert node nodes) (insert node roots) children := by
  have hiff : ∀ {parent child}, Edge (insert node nodes) children parent child ↔
      Edge nodes children parent child := by
    intro parent child
    refine ⟨fun hedge => ⟨?_, hedge.2⟩, fun hedge => ⟨mem_insert_of_mem hedge.1, hedge.2⟩⟩
    refine (mem_insert.mp hedge.1).resolve_left ?_
    rintro rfl
    rw [Edge, hleaf] at hedge
    exact not_mem_nil hedge.2
  refine ⟨insert_subset_insert _ h.roots_subset,
    fun hedge => mem_insert_of_mem (h.closed (hiff.mp hedge)), fun parent hpar => ?_,
    fun hpar hother => h.unique (hiff.mp hpar) (hiff.mp hother),
    fun hroot hedge => ?_, fun other hother => ?_⟩
  · rcases mem_insert.mp hpar with rfl | hpar
    · rw [hleaf]
      exact nodup_nil
    · exact h.nodup parent hpar
  · rcases mem_insert.mp hroot with rfl | hroot
    · exact hfresh (h.closed (hiff.mp hedge))
    · exact h.top hroot (hiff.mp hedge)
  rcases mem_insert.mp hother with rfl | hother
  · exact ⟨other, mem_insert_self _ _, .refl⟩
  · obtain ⟨root, hroot, hbelow⟩ := h.grounded other hother
    exact ⟨root, mem_insert_of_mem hroot, mono_edge hiff.mpr hbelow⟩

/-- A root is hung under a node that does not lie below it. -/
theorem attach (hpar : parent ∈ nodes) (hchild : child ∈ roots)
    (hnot : ¬ Below nodes children child parent)
    (hother : ∀ node ∈ nodes, node ≠ parent → children' node = children node)
    (hlist : children' parent = children parent ++ [child]) :
    RootedForest nodes (roots.erase child) children' := by
  have hiff := @edge_append α nodes children children' parent child hpar hother hlist
  have hunlisted : ∀ {above}, ¬ Edge nodes children above child := h.top hchild
  refine ⟨(erase_subset _ _).trans h.roots_subset, fun hedge => ?_, fun node hnode => ?_,
    fun hleft hright => ?_, fun hroot hedge => ?_, fun node hnode => ?_⟩
  · rcases hiff.mp hedge with hedge | ⟨-, rfl⟩
    · exact h.closed hedge
    · exact h.roots_subset hchild
  · by_cases heq : node = parent
    · rw [heq, hlist]
      refine List.Nodup.append (h.nodup parent hpar) (nodup_singleton _) ?_
      intro below hbelow hsingle
      rw [List.mem_singleton.mp hsingle] at hbelow
      exact hunlisted ⟨hpar, hbelow⟩
    · rw [hother node hnode heq]
      exact h.nodup node hnode
  · rcases hiff.mp hleft with hleft | ⟨rfl, rfl⟩ <;> rcases hiff.mp hright with hright | ⟨rfl, heq⟩
    · exact h.unique hleft hright
    · exact absurd (heq ▸ hleft) hunlisted
    · exact absurd hright hunlisted
    · rfl
  · obtain ⟨hne, hroot⟩ := mem_erase.mp hroot
    rcases hiff.mp hedge with hedge | ⟨-, heq⟩
    · exact h.top hroot hedge
    · exact hne heq
  obtain ⟨root, hroot, hbelow⟩ := h.grounded node hnode
  have hkept := mono_edge (fun hedge => hiff.mpr (.inl hedge)) hbelow
  by_cases heq : root = child
  · subst heq
    obtain ⟨top, htop, habove⟩ := h.grounded parent hpar
    refine ⟨top, mem_erase.mpr ⟨?_, htop⟩, ?_⟩
    · rintro rfl
      exact hnot habove
    · exact ((mono_edge (fun hedge => hiff.mpr (.inl hedge)) habove).tail
        (hiff.mpr (.inr ⟨rfl, rfl⟩))).trans hkept
  · exact ⟨root, mem_erase.mpr ⟨heq, hroot⟩, hkept⟩

end

end RootedForest

end Kurogane.Math
