/-
# Parent relations

A relation from parents to children is well founded when climbing from any node
ends, and a walk along unique parents visits no node twice.
-/

import Mathlib.Data.Finset.Card

namespace Kurogane.Math

variable {α : Type*} {parent : α → α → Prop}

theorem not_transGen_self (h : WellFounded parent) (node : α) :
    ¬ Relation.TransGen parent node node := fun hcycle =>
  h.transGen.asymmetric node node hcycle hcycle

/-- Among the nodes of a finite set, a walk to the top takes no more steps than
the set has nodes: the nodes below the current one have all been visited, and
none of them is visited again. -/
theorem bounded_climb (h : WellFounded parent) {nodes : Finset α} {property : ℕ → α → Prop}
    (hnodes : ∀ {above below}, parent above below → above ∈ nodes)
    (htop : ∀ fuel node, (∀ above, ¬ parent above node) → property (fuel + 1) node)
    (hstep : ∀ fuel above node, parent above node → property fuel above → property (fuel + 1) node)
    {node : α} (hnode : node ∈ nodes) : property nodes.card node := by
  classical
  have hwalk : ∀ fuel node (visited : Finset α), node ∈ nodes → visited ⊆ nodes →
      (∀ below ∈ visited, Relation.TransGen parent node below) →
      nodes.card = visited.card + fuel → property fuel node := by
    intro fuel
    induction fuel with
    | zero =>
      intro node visited hnode hvisited hbelow hcard
      have hall : visited = nodes := Finset.eq_of_subset_of_card_le hvisited (by omega)
      exact absurd (hbelow node (hall ▸ hnode)) (not_transGen_self h node)
    | succ fuel ih =>
      intro node visited hnode hvisited hbelow hcard
      by_cases hpar : ∃ above, parent above node
      · obtain ⟨above, habove⟩ := hpar
        have hnew : node ∉ visited := fun hmem => not_transGen_self h node (hbelow node hmem)
        refine hstep fuel above node habove (ih above (insert node visited) (hnodes habove)
          (Finset.insert_subset hnode hvisited) ?_ ?_)
        · intro below hmem
          rcases Finset.mem_insert.mp hmem with rfl | hmem
          · exact Relation.TransGen.single habove
          · exact Relation.TransGen.head habove (hbelow below hmem)
        · rw [Finset.card_insert_of_notMem hnew]
          omega
      · exact htop fuel node (not_exists.mp hpar)
  exact hwalk nodes.card node ∅ hnode (Finset.empty_subset _) (by simp) (by simp)

end Kurogane.Math
