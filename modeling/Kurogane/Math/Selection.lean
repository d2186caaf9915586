/-
# Selecting a best candidate

A scan that keeps the best candidate seen so far, the earlier one on a tie. The
scan is described by what it has seen, so that scans can be nested and composed.
-/

import Mathlib.Data.Set.Basic

namespace Kurogane.Math

variable {α ι : Type} {priority : α → ℕ} {seen : Set α} {best : Option α}

/-- Keep the candidate with the higher priority, the earlier one on a tie. -/
def keepBetter (priority : α → ℕ) (best candidate : Option α) : Option α :=
  match candidate, best with
  | none, _ => best
  | some offered, none => some offered
  | some offered, some kept => if priority offered > priority kept then some offered else some kept

/-- `best` is of maximal priority among the candidates seen; there is one unless
nothing was seen. -/
def IsBest (priority : α → ℕ) (seen : Set α) : Option α → Prop
  | none => seen = ∅
  | some kept => kept ∈ seen ∧ ∀ candidate ∈ seen, priority candidate ≤ priority kept

theorem isBest_empty (priority : α → ℕ) : IsBest priority ∅ none := rfl

theorem IsBest.keepBetter (h : IsBest priority seen best) (candidate : Option α) :
    IsBest priority (seen ∪ {offered | candidate = some offered})
      (keepBetter priority best candidate) := by
  cases candidate with
  | none =>
    have hnothing : {offered : α | none = some offered} = ∅ := by
      ext offered
      simp
    rw [hnothing, Set.union_empty]
    cases best <;> exact h
  | some =>
    cases best with
    | none =>
      subst h
      refine ⟨.inr rfl, ?_⟩
      rintro other (hother | hother)
      · exact hother.elim
      · cases hother
        exact le_rfl
    | some =>
      obtain ⟨hkept, hmax⟩ := h
      rw [Math.keepBetter]
      split
      next hbetter =>
        refine ⟨.inr rfl, ?_⟩
        rintro other (hother | hother)
        · exact (hmax other hother).trans hbetter.le
        · cases hother
          exact le_rfl
      rename_i hworse
      refine ⟨.inl hkept, ?_⟩
      rintro other (hother | hother)
      · exact hmax other hother
      · cases hother
        exact not_lt.mp hworse

/-- A scan over a list, each step of which sees some more candidates. -/
theorem IsBest.foldl (h : IsBest priority seen best) (step : Option α → ι → Option α)
    (sees : ι → Set α) (hstep : ∀ seen best position, IsBest priority seen best →
      IsBest priority (seen ∪ sees position) (step best position)) (list : List ι) :
    IsBest priority (seen ∪ {candidate | ∃ position ∈ list, candidate ∈ sees position})
      (list.foldl step best) := by
  induction list generalizing seen best with
  | nil =>
    have hnothing : {candidate | ∃ position ∈ ([] : List ι), candidate ∈ sees position} = ∅ := by
      ext candidate
      simp
    rw [hnothing, Set.union_empty]
    exact h
  | cons position list ih =>
    have hnext := ih (hstep seen best position h)
    have hsplit : seen ∪ sees position ∪ {candidate | ∃ other ∈ list, candidate ∈ sees other} =
        seen ∪ {candidate | ∃ other ∈ position :: list, candidate ∈ sees other} := by
      ext candidate
      simp [or_assoc]
    rw [hsplit] at hnext
    exact hnext

theorem IsBest.scan (h : IsBest priority seen best) (look : ι → Option α) (list : List ι) :
    IsBest priority (seen ∪ {candidate | ∃ position ∈ list, look position = some candidate})
      (list.foldl (fun best position => Math.keepBetter priority best (look position)) best) :=
  h.foldl _ _ (fun _ _ position hbest => hbest.keepBetter (look position)) list

end Kurogane.Math
