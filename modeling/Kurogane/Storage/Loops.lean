/-
# Counting loops that can stop early

`foldRange` is a `for` loop over consecutive indices that carries a state and
stops at the first error; `searchRange` additionally stops at the first result.
The rules characterize the outcome by what the body does at every index.
-/

import Mathlib.Data.Nat.Notation

namespace Kurogane.Storage

variable {E α σ : Type}

/-- Run `body` at the `count` indices from `index` on. -/
def foldRange (body : σ → ℕ → Except E σ) : ℕ → ℕ → σ → Except E σ
  | 0, _, state => .ok state
  | count + 1, index, state =>
    match body state index with
    | .error error => .error error
    | .ok state => foldRange body count (index + 1) state

/-- Run `body` at the `count` indices from `index` on until it finds something. -/
def searchRange (body : ℕ → Except E (Option α)) : ℕ → ℕ → Except E (Option α)
  | 0, _ => .ok none
  | count + 1, index =>
    match body index with
    | .error error => .error error
    | .ok (some result) => .ok (some result)
    | .ok none => searchRange body count (index + 1)

/-- A loop without state succeeds exactly when every iteration does. -/
theorem foldRange_unit_eq_ok_iff {body : Unit → ℕ → Except E Unit} {count index : ℕ} :
    foldRange body count index () = .ok () ↔
      ∀ i, index ≤ i → i < index + count → body () i = .ok () := by
  induction count generalizing index with
  | zero =>
    simp only [foldRange, true_iff]
    intro i hlow hhigh
    omega
  | succ _ ih =>
    rw [foldRange]
    constructor
    · intro h i hlow hhigh
      cases hbody : body () index with
      | error => simp [hbody] at h
      | ok _ =>
        rw [hbody] at h
        rcases Nat.eq_or_lt_of_le hlow with rfl | hlow
        · exact hbody
        · exact ih.mp h i hlow (by omega)
    · intro h
      rw [h index (Nat.le_refl _) (by omega)]
      exact ih.mpr fun i hlow hhigh => h i (by omega) (by omega)

/-- A loop ends with its invariant or with the error of one of its rounds. -/
theorem foldRange_rule {body : σ → ℕ → Except E σ} {invariant : ℕ → σ → Prop} {failure : E → Prop}
    {count index : ℕ} {state : σ} (hstart : invariant index state)
    (hstep : ∀ i state, index ≤ i → i < index + count → invariant i state →
      (∃ next, body state i = .ok next ∧ invariant (i + 1) next) ∨
        ∃ error, body state i = .error error ∧ failure error) :
    (∃ final, foldRange body count index state = .ok final ∧ invariant (index + count) final) ∨
      ∃ error, foldRange body count index state = .error error ∧ failure error := by
  induction count generalizing index state with
  | zero => exact .inl ⟨state, rfl, hstart⟩
  | succ count ih =>
    rw [foldRange]
    rcases hstep index state (Nat.le_refl _) (by omega) hstart with
      ⟨next, hnext, hinv⟩ | ⟨error, herror, hfailure⟩
    · rw [hnext]
      rw [show index + (count + 1) = index + 1 + count by omega]
      exact ih hinv fun i state hlow hhigh => hstep i state (by omega) (by omega)
    · rw [herror]
      exact .inr ⟨error, rfl, hfailure⟩

end Kurogane.Storage
