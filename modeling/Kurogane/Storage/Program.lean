/-
# Fallible programs over a persistent store

A program reads a store of addressed values, writes one address at a time and
asks for the writes to be made durable. Writes and flushes are the only places
where the environment has a say: each of them reports whether it was carried
out. Everything else a program does is determined by what it observes.

Two ways of running a program are given. `run` is the reliable device, and
`crash` is the store left behind when the power goes after some number of
writes of the reliable run.
-/

import Mathlib.Data.Nat.Notation
import Mathlib.Logic.Function.Basic

namespace Kurogane.Storage

variable {A V E F α β : Type}

/-- A program over a store `A → V` that ends with a value or an error. A
write, and likewise a flush, tells its continuation whether it succeeded. -/
inductive Prog (A V E α : Type) : Type
  | done (result : Except E α)
  | observe (next : (A → V) → Prog A V E α)
  | write (address : A) (value : V) (next : Bool → Prog A V E α)
  | flush (next : Bool → Prog A V E α)

namespace Prog

/-- Sequencing stops at the first error. -/
def bind : Prog A V E α → (α → Prog A V E β) → Prog A V E β
  | done (.ok value), continuation => continuation value
  | done (.error error), _ => done (.error error)
  | observe next, continuation => observe fun store => (next store).bind continuation
  | write address value next, continuation =>
    write address value fun success => (next success).bind continuation
  | flush next, continuation => flush fun success => (next success).bind continuation

instance : Monad (Prog A V E) where
  pure value := done (.ok value)
  bind := bind

def fail (error : E) : Prog A V E α := done (.error error)

/-- Evaluate a fallible read of the current store. -/
def read (reader : (A → V) → Except E α) : Prog A V E α :=
  observe fun store => done (reader store)

/-- Turn the outcome of a program into a value, so that its caller can look at
an error and go on. -/
def attempt : Prog A V E α → Prog A V F (Except E α)
  | done result => done (.ok result)
  | observe next => observe fun store => (next store).attempt
  | write address value next => write address value fun success => (next success).attempt
  | flush next => flush fun success => (next success).attempt

/-- Relabel the errors of a program. -/
def mapError (relabel : E → F) : Prog A V E α → Prog A V F α
  | done result => done (result.mapError relabel)
  | observe next => observe fun store => (next store).mapError relabel
  | write address value next =>
    write address value fun success => (next success).mapError relabel
  | flush next => flush fun success => (next success).mapError relabel

section Execution

variable [DecidableEq A]

/-- The reliable device: every write and every flush is carried out. -/
def run : Prog A V E α → (A → V) → Except E α × (A → V)
  | done result, store => (result, store)
  | observe next, store => (next store).run store
  | write address value next, store =>
    (next true).run (Function.update store address value)
  | flush next, store => (next true).run store

/-- The writes of the reliable run, in the order in which they are issued. -/
def trace : Prog A V E α → (A → V) → List (A × V)
  | done _, _ => []
  | observe next, store => (next store).trace store
  | write address value next, store =>
    (address, value) :: (next true).trace (Function.update store address value)
  | flush next, store => (next true).trace store

def applyWrites (store : A → V) (writes : List (A × V)) : A → V :=
  writes.foldl (fun current entry => Function.update current entry.1 entry.2) store

/-- The store left behind when the run is cut after its first `cut` writes. -/
def crash (program : Prog A V E α) (store : A → V) (cut : ℕ) : A → V :=
  applyWrites store ((program.trace store).take cut)

theorem applyWrites_trace (program : Prog A V E α) (store : A → V) :
    applyWrites store (program.trace store) = (program.run store).2 := by
  induction program generalizing store with
  | done => rfl
  | observe _ ih => exact ih store store
  | write address value _ ih => exact ih true (Function.update store address value)
  | flush _ ih => exact ih true store

end Execution

end Prog

end Kurogane.Storage
