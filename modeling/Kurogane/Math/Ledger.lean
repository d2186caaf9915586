/-
# Ledgers of resources

A ledger lists, newest first, which resources were taken and which were given back.
It tells what is held, and whether everything given back was held at that time. A
table whose slots hold resources is compared with a ledger by the sum over its slots.
-/

import Mathlib.Algebra.BigOperators.Group.Finset.Basic
import Mathlib.Data.Fintype.Basic

namespace Kurogane.Math

open Function Finset

inductive LedgerEvent (κ : Type) where
  | taken (key : κ)
  | returned (key : κ)

variable {κ α ι M : Type} [DecidableEq κ]

/-- The resources that were taken and not given back. -/
def outstanding : List (LedgerEvent κ) → Multiset κ
  | [] => 0
  | .taken key :: rest => key ::ₘ outstanding rest
  | .returned key :: rest => (outstanding rest).erase key

/-- What was given back was outstanding, so that nothing is given back twice. -/
def ReturnedOnce : List (LedgerEvent κ) → Prop
  | [] => True
  | .taken _ :: rest => ReturnedOnce rest
  | .returned key :: rest => key ∈ outstanding rest ∧ ReturnedOnce rest

def returnAll (events : List (LedgerEvent κ)) : List κ → List (LedgerEvent κ)
  | [] => events
  | key :: rest => returnAll (.returned key :: events) rest

theorem outstanding_returnAll (events : List (LedgerEvent κ)) (keys : List κ) :
    outstanding (returnAll events keys) = outstanding events - (keys : Multiset κ) := by
  induction keys generalizing events with
  | nil => rw [returnAll, Multiset.coe_nil, tsub_zero]
  | cons _ _ ih =>
    rw [returnAll, ih, ← Multiset.cons_coe, Multiset.sub_cons]
    rfl

theorem sum_update_add [Fintype ι] [DecidableEq ι] [AddCommMonoid M] (value : α → M) (table : ι → α)
    (slot : ι) (entry : α) :
    ∑ other, value (update table slot entry other) + value (table slot) =
      ∑ other, value (table other) + value entry := by
  have hmem := mem_univ slot
  have hrest : ∑ other ∈ univ.erase slot, value (update table slot entry other) =
      ∑ other ∈ univ.erase slot, value (table other) := by
    refine sum_congr rfl fun other hother => ?_
    rw [update_of_ne (ne_of_mem_erase hother)]
  rw [← sum_erase_add _ _ hmem, ← sum_erase_add _ (fun other => value (table other))
    hmem, hrest, update_self, add_assoc, add_assoc, add_comm (value entry)]

end Kurogane.Math
