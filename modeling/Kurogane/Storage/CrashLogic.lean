/-
# Weakest preconditions with crash conditions

`wp` computes, from a postcondition for values, a postcondition for errors and
a crash condition, what a store has to satisfy before a program runs. The crash
condition is asserted after every single write, so that it covers the stores a
power cut can leave behind. In faulty mode both answers of every write and
flush are considered.

The rules are equations, one for each way of building a program. Adequacy ties
the calculus to `run` and `crash`.
-/

import Kurogane.Storage.Program

namespace Kurogane.Storage

/-- Whether the device may refuse writes and flushes. -/
inductive Mode
  | reliable
  | faulty
  deriving DecidableEq

namespace Prog

variable {A V E F α β : Type} [DecidableEq A] {mode : Mode}

/-- The stores from which `program` ends in `onValue` or `onError` and passes
only through stores satisfying `onCrash` after each of its writes. -/
def wp (mode : Mode) : Prog A V E α → (α → (A → V) → Prop) → (E → (A → V) → Prop) →
    ((A → V) → Prop) → (A → V) → Prop
  | done (.ok value), onValue, _, _, store => onValue value store
  | done (.error error), _, onError, _, store => onError error store
  | observe next, onValue, onError, onCrash, store =>
    (next store).wp mode onValue onError onCrash store
  | write address value next, onValue, onError, onCrash, store =>
    onCrash (Function.update store address value) ∧
    (next true).wp mode onValue onError onCrash (Function.update store address value) ∧
    (mode = .faulty → (next false).wp mode onValue onError onCrash store)
  | flush next, onValue, onError, onCrash, store =>
    (next true).wp mode onValue onError onCrash store ∧
    (mode = .faulty → (next false).wp mode onValue onError onCrash store)

variable {onValue onValue' : α → (A → V) → Prop} {onError onError' : E → (A → V) → Prop}
  {onCrash onCrash' : (A → V) → Prop} {store : A → V}

@[simp]
theorem wp_pure (value : α) :
    (pure value : Prog A V E α).wp mode onValue onError onCrash store = onValue value store := rfl

@[simp]
theorem wp_write (address : A) (value : V) (next : Bool → Prog A V E α) :
    (write address value next).wp mode onValue onError onCrash store =
      (onCrash (Function.update store address value) ∧
        (next true).wp mode onValue onError onCrash (Function.update store address value) ∧
        (mode = .faulty → (next false).wp mode onValue onError onCrash store)) := rfl

@[simp]
theorem wp_flush (next : Bool → Prog A V E α) :
    (flush next).wp mode onValue onError onCrash store =
      ((next true).wp mode onValue onError onCrash store ∧
        (mode = .faulty → (next false).wp mode onValue onError onCrash store)) := rfl

/-- Sequencing: the continuation is the value postcondition of what precedes it. -/
@[simp]
theorem wp_bind (program : Prog A V E α) (continuation : α → Prog A V E β)
    {onValue : β → (A → V) → Prop} :
    (program >>= continuation).wp mode onValue onError onCrash store =
      program.wp mode
        (fun value => (continuation value).wp mode onValue onError onCrash)
        onError onCrash store := by
  change (program.bind continuation).wp mode onValue onError onCrash store = _
  induction program generalizing store with
  | done result => cases result <;> rfl
  | observe _ ih => exact ih store
  | write _ _ _ ih => simp only [bind, wp_write, ih]
  | flush _ ih => simp only [bind, wp_flush, ih]

/-- A read leaves the store alone, so it is the case distinction on its result. -/
theorem wp_read (reader : (A → V) → Except E α) :
    (read reader).wp mode onValue onError onCrash store ↔
      (∀ value, reader store = .ok value → onValue value store) ∧
        ∀ error, reader store = .error error → onError error store := by
  change (done (reader store)).wp mode onValue onError onCrash store ↔ _
  cases reader store with
  | ok => simp [wp]
  | error => simp [wp]

theorem wp_read_of_ok {reader : (A → V) → Except E α} {value : α} (hread : reader store = .ok value)
    (h : onValue value store) : (read reader).wp mode onValue onError onCrash store := by
  rw [wp_read]
  simp [hread, h]

theorem wp_read_of_error {reader : (A → V) → Except E α} {error : E}
    (hread : reader store = .error error) (h : onError error store) :
    (read reader).wp mode onValue onError onCrash store := by
  rw [wp_read]
  simp [hread, h]

@[simp]
theorem wp_attempt (program : Prog A V E α) {onValue : Except E α → (A → V) → Prop}
    {onError : F → (A → V) → Prop} :
    (program.attempt : Prog A V F (Except E α)).wp mode onValue onError onCrash store =
      program.wp mode (fun value => onValue (.ok value)) (fun error => onValue (.error error))
        onCrash store := by
  induction program generalizing store with
  | done result => cases result <;> rfl
  | observe _ ih => exact ih store
  | write _ _ _ ih => simp only [attempt, wp_write, ih]
  | flush _ ih => simp only [attempt, wp_flush, ih]

@[simp]
theorem wp_mapError (relabel : E → F) (program : Prog A V E α) {onError : F → (A → V) → Prop} :
    (program.mapError relabel).wp mode onValue onError onCrash store =
      program.wp mode onValue (fun error => onError (relabel error)) onCrash store := by
  induction program generalizing store with
  | done result => cases result <;> rfl
  | observe _ ih => exact ih store
  | write _ _ _ ih => simp only [mapError, wp_write, ih]
  | flush _ ih => simp only [mapError, wp_flush, ih]

variable {program : Prog A V E α}

/-- Consequence: all three conditions may be weakened. -/
theorem wp.mono (h : program.wp mode onValue onError onCrash store)
    (hvalue : ∀ value current, onValue value current → onValue' value current)
    (herror : ∀ error current, onError error current → onError' error current)
    (hcrash : ∀ current, onCrash current → onCrash' current) :
    program.wp mode onValue' onError' onCrash' store := by
  induction program generalizing store with
  | done result =>
    cases result with
    | ok => exact hvalue _ _ h
    | error => exact herror _ _ h
  | observe _ ih => exact ih store h
  | write _ _ _ ih =>
    exact ⟨hcrash _ h.1, ih true h.2.1, fun hfault => ih false (h.2.2 hfault)⟩
  | flush _ ih => exact ⟨ih true h.1, fun hfault => ih false (h.2 hfault)⟩

/-- The program goes through the stages up to `last` and ends in it. A refusal leaves it at one
of them. -/
abbrev Stages (mode : Mode) (program : Prog A V E α) (stage : ℕ → (A → V) → Prop) (last : ℕ)
    (store : A → V) : Prop :=
  program.wp mode (fun _ => stage last)
    (fun _ current => mode = .faulty ∧ ∃ done ≤ last, stage done current)
    (fun current => ∃ done ≤ last, stage done current) store

/-- What every stage gives holds wherever the program is cut or refused. -/
theorem Stages.kept {stage : ℕ → (A → V) → Prop} {last : ℕ} {kept : (A → V) → Prop}
    (h : program.Stages mode stage last store)
    (hkept : ∀ {done current}, done ≤ last → stage done current → kept current)
    (hvalue : ∀ value current, stage last current → onValue value current)
    (herror : ∀ error current, mode = .faulty ∧ kept current → onError error current)
    (hcrash : ∀ current, kept current → onCrash current) :
    program.wp mode onValue onError onCrash store := by
  refine h.mono hvalue ?_ ?_
  · rintro error current ⟨hfault, _, hdone, hstage⟩
    exact herror error current ⟨hfault, hkept hdone hstage⟩
  · rintro current ⟨_, hdone, hstage⟩
    exact hcrash current (hkept hdone hstage)

/-! ## Relations kept along a program -/

/-- Every store reached from `store`, at a write or at the end, is related to it. -/
def Respects (mode : Mode) (relation : (A → V) → (A → V) → Prop) (program : Prog A V E α) : Prop :=
  ∀ store, program.wp mode (fun _ => relation store) (fun _ => relation store)
    (relation store) store

section Respects

variable {relation : (A → V) → (A → V) → Prop}

theorem Respects.done [Std.Refl relation] (result : Except E α) :
    (done result : Prog A V E α).Respects mode relation := by
  intro store
  cases result <;> exact Std.Refl.refl store

theorem Respects.pure [Std.Refl relation] (value : α) :
    (Pure.pure value : Prog A V E α).Respects mode relation :=
  Respects.done (.ok value)

theorem Respects.read [Std.Refl relation] (reader : (A → V) → Except E α) :
    (read reader).Respects mode relation := by
  intro store
  exact (Respects.done (reader store)) store

theorem Respects.bind [IsTrans (A → V) relation] {continuation : α → Prog A V E β}
    (hprogram : program.Respects mode relation)
    (hcontinuation : ∀ value, (continuation value).Respects mode relation) :
    (program >>= continuation).Respects mode relation := by
  intro store
  rw [wp_bind]
  refine (hprogram store).mono ?_ (fun _ _ h => h) (fun _ h => h)
  intro value middle hmid
  refine (hcontinuation value middle).mono ?_ ?_ ?_
  · exact fun _ last hlast => IsTrans.trans store middle last hmid hlast
  · exact fun _ last hlast => IsTrans.trans store middle last hmid hlast
  · exact fun last hlast => IsTrans.trans store middle last hmid hlast

end Respects

/-! ## Adequacy -/

/-- The reliable run ends where `wp` says. -/
theorem wp.run (h : program.wp .reliable onValue onError onCrash store) :
    (∀ value, (program.run store).1 = .ok value → onValue value (program.run store).2) ∧
      ∀ error, (program.run store).1 = .error error → onError error (program.run store).2 := by
  induction program generalizing store with
  | done result =>
    cases result with
    | ok =>
      refine ⟨fun value' hvalue => ?_, nofun⟩
      cases hvalue
      exact h
    | error =>
      refine ⟨nofun, fun error' herror => ?_⟩
      cases herror
      exact h
  | observe _ ih => exact ih store h
  | write _ _ _ ih => exact ih true h.2.1
  | flush _ ih => exact ih true h.1

theorem wp.exists_value (h : program.wp .reliable onValue (fun _ _ => False) onCrash store) :
    ∃ value, (program.run store).1 = .ok value ∧ onValue value (program.run store).2 := by
  cases hres : (program.run store).1 with
  | ok value => exact ⟨value, rfl, h.run.1 value hres⟩
  | error error => exact (h.run.2 error hres).elim

/-- Every cut of the reliable run satisfies the crash condition, provided the
store did so before the first write. -/
theorem wp.crash (h : program.wp .reliable onValue onError onCrash store) (hstart : onCrash store)
    (cut : ℕ) : onCrash (program.crash store cut) := by
  induction program generalizing store cut with
  | done => simpa [Prog.crash, trace, applyWrites] using hstart
  | observe _ ih => exact ih store h hstart cut
  | write _ _ _ ih =>
    cases cut with
    | zero => exact hstart
    | succ cut => exact ih true h.2.1 h.1 cut
  | flush _ ih => exact ih true h.1 hstart cut

end Prog

end Kurogane.Storage
