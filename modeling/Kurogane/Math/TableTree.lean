/-
# Trees of tables in memory

Tables are named by nodes and hold one entry for every index; an entry may point
to another table. Following indices from a root table gives the tables of a tree,
as long as no table is reached in two ways. The lemmas say how storing an entry
changes which table is reached along a path.
-/

import Mathlib.Algebra.Group.Nat.Defs
import Mathlib.Data.Fintype.Basic

namespace Kurogane.Math

open Function List

variable {Node Index Entry : Type*} (child : Entry → Option Node)

/-- The table that is reached from a table along a path of indices. -/
def resolve (words : Node → Index → Entry) : Node → List Index → Option Node
  | node, [] => some node
  | node, index :: path => (child (words node index)).bind fun next => resolve words next path

/-- No table of the first levels is reached along two paths. -/
def Unshared (words : Node → Index → Entry) (root : Node) (depth : ℕ) : Prop :=
  ∀ path path' node, path.length ≤ depth → path'.length ≤ depth →
    resolve child words root path = some node → resolve child words root path' = some node →
      path = path'

/-- The table is reached on one of the first levels. -/
def Reaches (words : Node → Index → Entry) (root : Node) (depth : ℕ) (node : Node) : Prop :=
  ∃ path, path.length ≤ depth ∧ resolve child words root path = some node

def setEntry [DecidableEq Node] [DecidableEq Index] (words : Node → Index → Entry) (node : Node)
    (index : Index) (entry : Entry) : Node → Index → Entry :=
  Function.update words node (Function.update (words node) index entry)

variable {child} {words words' : Node → Index → Entry} {root node next : Node}
  {path path' rest : List Index} {index : Index} {entry : Entry} {depth : ℕ}

theorem resolve_append (path rest : List Index) :
    resolve child words node (path ++ rest) =
      (resolve child words node path).bind fun next => resolve child words next rest := by
  induction path generalizing node with
  | nil => rfl
  | cons _ _ ih =>
    rw [cons_append, resolve, resolve, Option.bind_assoc]
    congr 1
    funext next
    exact ih

theorem resolve_concat (path : List Index) (index : Index) :
    resolve child words node (path ++ [index]) =
      (resolve child words node path).bind fun next => child (words next index) := by
  rw [resolve_append]
  congr 1
  funext next
  rw [resolve]
  cases child (words next index) <;> rfl

theorem resolve_of_isPrefix (h : resolve child words root path = some node) :
    resolve child words root (path ++ rest) = resolve child words node rest := by
  rw [resolve_append, h, Option.bind_some]

theorem resolve_congr (hsame : ∀ initial index, initial ++ [index] <+: path →
      initial.length < path.length → ∀ middle, resolve child words root initial = some middle →
        words' middle index = words middle index) :
    resolve child words' root path = resolve child words root path := by
  induction path generalizing root with
  | nil => rfl
  | cons first path ih =>
    have hfirst : words' root first = words root first :=
      hsame [] first (prefix_append [first] path) (Nat.succ_pos _) root rfl
    rw [resolve, resolve, hfirst]
    cases hchild : child (words root first) with
    | none => rfl
    | some =>
      refine ih fun initial index hpre hlt middle hmid => ?_
      refine hsame (first :: initial) index ?_ (Nat.succ_lt_succ hlt) middle ?_
      · exact (prefix_append_right_inj [first]).mpr hpre
      · rw [resolve, hchild, Option.bind_some]
        exact hmid

variable {index' : Index} {entries : Index → Entry}

section Storing

variable [DecidableEq Node] [DecidableEq Index]

theorem setEntry_self : setEntry words node index entry node index = entry := by
  rw [setEntry, update_self, update_self]

theorem setEntry_of_ne {node' : Node} (h : ¬ (node' = node ∧ index' = index)) :
    setEntry words node index entry node' index' = words node' index' := by
  rw [setEntry]
  by_cases hnode : node' = node
  · subst hnode
    rw [update_self, update_of_ne fun hidx => h ⟨rfl, hidx⟩]
  · rw [update_of_ne hnode]

theorem setEntry_table_of_ne {node' : Node} (h : node' ≠ node) :
    setEntry words node index entry node' = words node' := update_of_ne h _ _

section

variable (h : Unshared child words root depth) (hpath : resolve child words root path = some node)
  (hlen : path.length ≤ depth)
include h hpath hlen

/-- The entries a path reads are those of other tables, or at other indices, unless the path
goes through the entry that is stored. -/
theorem Unshared.setEntry_on_path {initial path' : List Index} {middle : Node}
    (hinitial : initial ++ [index'] <+: path') (hlen' : initial.length ≤ depth)
    (hmid : resolve child words root initial = some middle) (hnot : ¬ path ++ [index] <+: path') :
    setEntry words node index entry middle index' = words middle index' := by
  refine setEntry_of_ne ?_
  rintro ⟨rfl, rfl⟩
  have heq := h initial path middle hlen' hlen hmid hpath
  exact hnot (heq ▸ hinitial)

theorem resolve_setEntry_of_not_isPrefix (hlen' : path'.length ≤ depth + 1)
    (hnot : ¬ path ++ [index] <+: path') :
    resolve child (setEntry words node index entry) root path' = resolve child words root path' :=
  resolve_congr fun _ _ hinitial hlt _ hmid =>
    h.setEntry_on_path hpath hlen hinitial (by omega) hmid hnot

theorem resolve_setEntry_of_isPrefix :
    resolve child (setEntry words node index entry) root (path ++ index :: rest) =
      (child entry).bind fun next => resolve child (setEntry words node index entry) next rest := by
  have hself : resolve child (setEntry words node index entry) root path = some node := by
    rw [resolve_setEntry_of_not_isPrefix h hpath hlen (by omega), hpath]
    intro hpre
    have hle := hpre.length_le
    rw [length_append, length_singleton] at hle
    omega
  rw [resolve_of_isPrefix hself, resolve, setEntry_self]

theorem resolve_cut (hentry : child entry = none) (hlen' : path'.length ≤ depth + 1) :
    resolve child (setEntry words node index entry) root path' =
      if path ++ [index] <+: path' then none else resolve child words root path' := by
  split
  · next hpre =>
    obtain ⟨_, rfl⟩ := hpre
    rw [append_assoc, singleton_append, resolve_setEntry_of_isPrefix h hpath hlen, hentry]
    rfl
  · next hnot => exact resolve_setEntry_of_not_isPrefix h hpath hlen hlen' hnot

theorem Unshared.cut (hentry : child entry = none) :
    Unshared child (setEntry words node index entry) root depth := by
  intro left right found hleft hright hfound hfound'
  rw [resolve_cut h hpath hlen hentry (by omega)] at hfound hfound'
  split at hfound
  · cases hfound
  split at hfound'
  · cases hfound'
  exact h left right found hleft hright hfound hfound'

end

omit [DecidableEq Index] in
theorem resolve_update_unreached (hfresh : ¬ Reaches child words root depth next)
    (hlen : path.length ≤ depth + 1) :
    resolve child (update words next entries) root path = resolve child words root path := by
  refine resolve_congr fun initial index _ hlt middle hmid => ?_
  rw [update_of_ne]
  rintro rfl
  exact hfresh ⟨initial, by omega, hmid⟩

omit [DecidableEq Index] in
theorem Unshared.update_unreached (h : Unshared child words root depth)
    (hfresh : ¬ Reaches child words root depth next) :
    Unshared child (update words next entries) root depth := by
  intro left right found hleft hright hfound hfound'
  rw [resolve_update_unreached hfresh (by omega)] at hfound hfound'
  exact h left right found hleft hright hfound hfound'

/-- A table without children is published in an entry that had no child. -/
theorem resolve_attach (h : Unshared child words root depth)
    (hpath : resolve child words root path = some node) (hlen : path.length ≤ depth)
    (hold : child (words node index) = none) (hentry : child entry = some next)
    (hfresh : ¬ Reaches child words root depth next)
    (hempty : ∀ index, child (words next index) = none) (hlen' : path'.length ≤ depth + 1) :
    resolve child (setEntry words node index entry) root path' =
      if path' = path ++ [index] then some next else resolve child words root path' := by
  by_cases hpre : path ++ [index] <+: path'
  · obtain ⟨rest, rfl⟩ := hpre
    rw [append_assoc, singleton_append, resolve_setEntry_of_isPrefix h hpath hlen, hentry,
      Option.bind_some]
    have hne : next ≠ node := by
      rintro rfl
      exact hfresh ⟨path, hlen, hpath⟩
    cases rest with
    | nil => rw [if_pos rfl, resolve]
    | cons first =>
      have hother : setEntry words node index entry next first = words next first :=
        setEntry_of_ne fun hand => hne hand.1
      rw [if_neg (by simp), resolve, hother, hempty, resolve_of_isPrefix hpath, resolve, hold]
      rfl
  · rw [resolve_setEntry_of_not_isPrefix h hpath hlen hlen' hpre, if_neg]
    rintro rfl
    exact hpre prefix_rfl

end Storing

end Kurogane.Math
