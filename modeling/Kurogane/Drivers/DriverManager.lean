/-
# The table of registered drivers

A driver is registered under a name of any length. The table keeps the part of the name
that fits its field, while a search compares the whole presented name with what was kept:
names that fit are unique and found again, longer ones are neither.
-/

import Mathlib.Algebra.Group.Nat.Defs
import Mathlib.Data.List.Nodup

namespace Kurogane.Drivers

open List

inductive KStatus where
  | ok
  | invalidArgument
  | alreadyExists
  | noMemory
  | badState
  deriving DecidableEq

/-- A terminated text: the bytes in front of its NUL. -/
@[ext]
structure Text where
  bytes : List UInt8
  nonzero : 0 ∉ bytes
  deriving DecidableEq

/-- One byte of the destination is kept for the terminator. -/
def copyLoop : ℕ → List UInt8 → List UInt8
  | capacity + 2, char :: source => char :: copyLoop (capacity + 1) source
  | _, _ => []

theorem copyLoop_eq_take (capacity : ℕ) (source : List UInt8) :
    copyLoop (capacity + 1) source = source.take capacity := by
  induction capacity generalizing source with
  | zero => cases source <;> simp [copyLoop]
  | succ capacity ih =>
    cases source with
    | nil => rfl
    | cons char source => rw [copyLoop, ih, take_succ_cons]

def copyText (capacity : ℕ) (source : Text) : Text where
  bytes := copyLoop (capacity + 1) source.bytes
  nonzero := by
    rw [copyLoop_eq_take]
    exact fun hmem => source.nonzero (List.mem_of_mem_take hmem)

/-- The loop stops at a difference or at a terminator; two texts of different lengths
differ at the terminator of the shorter one. -/
def textEqual : List UInt8 → List UInt8 → Bool
  | left :: lefts, right :: rights => if left = right then textEqual lefts rights else false
  | [], [] => true
  | _, _ => false

theorem textEqual_iff (left right : List UInt8) : textEqual left right ↔ left = right := by
  fun_induction textEqual left right with
  | case1 char lefts rights ih => rw [ih, cons_inj_right]
  | case2 => simp_all
  | case3 => simp
  | case4 left right hcons hnil =>
    rcases left with _ | ⟨left, lefts⟩ <;> rcases right with _ | ⟨right, rights⟩
    · exact absurd rfl (hnil rfl)
    · simp
    · simp
    · exact absurd rfl (hcons left lefts right rights rfl)

abbrev DriverId := ℕ

def invalidDriverId : DriverId := 2 ^ 32 - 1

def maximumDrivers : ℕ := 32

def maximumNameLength : ℕ := 31

inductive Status where
  | registered
  | ready
  | degraded
  | failed

/-- What a descriptor and the table's entry share. The callbacks are not called here. -/
structure Profile (Callback : Type) where
  priority : ℤ
  timeoutTicks : ℕ
  matchDevice : Option Callback
  probe : Option Callback
  attach : Option Callback
  detach : Option Callback
  context : ℕ

structure Descriptor (Callback : Type) extends Profile Callback where
  name : Option Text

structure Driver (Callback : Type) extends Profile Callback where
  id : DriverId
  name : Text
  status : Status

/-- The used part of the table. -/
structure Manager (Callback : Type) where
  initialized : Bool
  drivers : List (Driver Callback)

variable {Callback : Type} {manager : Manager Callback} {name : Text}

def find (manager : Manager Callback) : Option Text → Option (Driver Callback)
  | none => none
  | some name => manager.drivers.find? fun driver => textEqual driver.name.bytes name.bytes

/-- A registration: the descriptor, and the caller's identifier unless the pointer to it
is null. -/
structure Registration (Callback : Type) where
  descriptor : Descriptor Callback
  id : Option DriverId

/-- The arguments refused before the table is looked at. -/
def Registration.invalid (call : Registration Callback) : Bool :=
  call.id.isNone || call.descriptor.name.all (·.bytes.isEmpty) ||
    call.descriptor.timeoutTicks == 0 || call.descriptor.matchDevice.isNone ||
    call.descriptor.probe.isNone || call.descriptor.attach.isNone

def entry (manager : Manager Callback) (descriptor : Descriptor Callback) (name : Text) :
    Driver Callback :=
  { descriptor with
    id := manager.drivers.length, name := copyText maximumNameLength name, status := .registered }

/-- The table afterwards, the status, and what the caller's identifier then holds. -/
def registerDriver (manager : Manager Callback) (call : Registration Callback) :
    Manager Callback × KStatus × Option DriverId :=
  if !manager.initialized then (manager, .badState, call.id)
  else
    match call.descriptor.name with
    | none => (manager, .invalidArgument, call.id)
    | some name =>
      if call.invalid then (manager, .invalidArgument, call.id)
      else if (find manager (some name)).isSome then
        (manager, .alreadyExists, some invalidDriverId)
      else if manager.drivers.length ≥ maximumDrivers then
        (manager, .noMemory, some invalidDriverId)
      else
        let value := entry manager call.descriptor name
        ({ manager with drivers := manager.drivers ++ [value] }, .ok, some value.id)

def registerAll (manager : Manager Callback) : List (Registration Callback) → Manager Callback
  | [] => manager
  | call :: calls => registerAll (registerDriver manager call).1 calls

/-- The names under which they registered a driver. -/
def accepted (manager : Manager Callback) : List (Registration Callback) → List Text
  | [] => []
  | call :: calls =>
    (if (registerDriver manager call).2.1 = .ok then call.descriptor.name.toList else []) ++
      accepted (registerDriver manager call).1 calls

/-! ## What a registration does -/

theorem registerAll_append (manager : Manager Callback)
    (calls later : List (Registration Callback)) :
    registerAll manager (calls ++ later) = registerAll (registerAll manager calls) later := by
  induction calls generalizing manager with
  | nil => rfl
  | cons call calls ih => exact ih _

/-- A registration changes nothing, or it adds an entry under a name not found before. -/
theorem registerDriver_cases (manager : Manager Callback) (call : Registration Callback) :
    ((registerDriver manager call).1 = manager ∧ (registerDriver manager call).2.1 ≠ .ok) ∨
      ∃ name, call.descriptor.name = some name ∧ manager.initialized ∧
        find manager (some name) = none ∧ registerDriver manager call =
          ({ manager with drivers := manager.drivers ++ [entry manager call.descriptor name] },
            .ok, some manager.drivers.length) := by
  fun_cases registerDriver manager call with
  | case6 hinit name hname _ hfind =>
    exact .inr ⟨name, hname, by simpa using hinit, by simpa using hfind, rfl⟩
  | _ => exact .inl ⟨rfl, nofun⟩

theorem exists_registerAll_eq (manager : Manager Callback) (calls : List (Registration Callback)) :
    ∃ later, registerAll manager calls = { manager with drivers := manager.drivers ++ later } := by
  induction calls generalizing manager with
  | nil => exact ⟨[], by simp [registerAll]⟩
  | cons call calls ih =>
    obtain ⟨later, hlater⟩ := ih (registerDriver manager call).1
    rw [registerAll, hlater]
    rcases registerDriver_cases manager call with ⟨hsame, -⟩ | ⟨name, -, -, -, heq⟩
    · exact ⟨later, by rw [hsame]⟩
    · exact ⟨_, by rw [heq, append_assoc]⟩

abbrev Text.Fits (name : Text) : Prop := name.bytes.length ≤ maximumNameLength

theorem copyText_of_fits (hfits : name.Fits) : copyText maximumNameLength name = name := by
  rw [copyText, Text.mk.injEq, copyLoop_eq_take, take_of_length_le hfits]

theorem find_eq_none_iff :
    find manager (some name) = none ↔ ∀ driver ∈ manager.drivers, driver.name ≠ name := by
  simp [find, textEqual_iff, Text.ext_iff]

theorem nodup_registerAll (calls : List (Registration Callback))
    (hfits : ∀ name ∈ accepted manager calls, name.Fits)
    (hnodup : (manager.drivers.map (·.name)).Nodup) :
    ((registerAll manager calls).drivers.map (·.name)).Nodup := by
  induction calls generalizing manager with
  | nil => exact hnodup
  | cons call calls ih =>
    simp only [accepted, forall_mem_append] at hfits
    refine ih hfits.2 ?_
    rcases registerDriver_cases manager call with ⟨hsame, -⟩ | ⟨name, hname, -, hfind, heq⟩
    · rwa [hsame]
    rw [heq, if_pos rfl, hname] at hfits
    have hstored := copyText_of_fits (hfits.1 name (mem_singleton_self name))
    rw [find_eq_none_iff] at hfind
    rw [heq, map_append, nodup_append]
    refine ⟨hnodup, nodup_singleton _, ?_⟩
    simpa [entry, hstored] using hfind

theorem fits_registerAll (calls : List (Registration Callback))
    (hfits : ∀ driver ∈ manager.drivers, driver.name.Fits) :
    ∀ driver ∈ (registerAll manager calls).drivers, driver.name.Fits := by
  induction calls generalizing manager with
  | nil => exact hfits
  | cons call calls ih =>
    refine ih ?_
    rcases registerDriver_cases manager call with ⟨hsame, -⟩ | ⟨name, -, -, -, heq⟩
    · rwa [hsame]
    rw [heq, forall_mem_append, forall_mem_singleton]
    exact ⟨hfits, by simp [entry, copyText, copyLoop_eq_take, Nat.min_le_left]⟩

/-- A driver is found under the name it was registered under exactly if that fits. -/
theorem find_registered {call : Registration Callback} (hname : call.descriptor.name = some name)
    (hok : (registerDriver manager call).2.1 = .ok) (later : List (Registration Callback))
    {table : Manager Callback} (htable : registerAll (registerDriver manager call).1 later = table)
    (hstored : ∀ driver ∈ table.drivers, driver.name.Fits) :
    table.initialized ∧ entry manager call.descriptor name ∈ table.drivers ∧
      find table (some name) =
        if name.Fits then some (entry manager call.descriptor name) else none := by
  rcases registerDriver_cases manager call with ⟨-, hfail⟩ | ⟨other, hother, hinit, hfind, heq⟩
  · exact absurd hok hfail
  obtain rfl : name = other := Option.some.inj (hname.symm.trans hother)
  obtain ⟨behind, hbehind⟩ := exists_registerAll_eq (registerDriver manager call).1 later
  rw [heq] at hbehind htable
  subst htable
  rw [hbehind] at hstored ⊢
  refine ⟨hinit, by simp, ?_⟩
  split
  next hfits =>
    rw [find] at hfind
    rw [find, append_assoc, find?_append, hfind]
    simp [entry, copyText_of_fits hfits, textEqual_iff]
  next hlong =>
    rw [find_eq_none_iff]
    exact fun driver hdriver heq => hlong (heq ▸ hstored driver hdriver)

/-- **Registered names are unique exactly while they fit their field.** If every name under
which a driver was registered fits, no two drivers are stored under the same name. Whatever
was registered before, a driver registered under a name that fits is found under it from then
on and no other registration under that name succeeds. One registered under a longer name is
never found under it, and while there is room the same name registers a second driver, which
is stored under the same name as the first. -/
theorem driver_names_unique (initialized : Bool) (calls : List (Registration Callback)) :
    ((∀ name ∈ accepted ⟨initialized, []⟩ calls, name.Fits) →
      ((registerAll ⟨initialized, []⟩ calls).drivers.map (·.name)).Nodup) ∧
    ∀ (call : Registration Callback) (name : Text) (later : List (Registration Callback)) table,
      call.descriptor.name = some name →
      (registerDriver (registerAll ⟨initialized, []⟩ calls) call).2.1 = .ok →
      table = registerAll ⟨initialized, []⟩ (calls ++ call :: later) →
      find table (some name) = (if name.Fits then
        some (entry (registerAll ⟨initialized, []⟩ calls) call.descriptor name) else none) ∧
      ∀ again : Registration Callback, again.descriptor.name = some name →
        again.invalid = false →
        if name.Fits then (registerDriver table again).2.1 = .alreadyExists
        else table.drivers.length < maximumDrivers → (registerDriver table again).2.1 = .ok ∧
          ¬ ((registerDriver table again).1.drivers.map (·.name)).Nodup := by
  refine ⟨fun hfits => nodup_registerAll calls hfits nodup_nil, ?_⟩
  rintro call name later table hname hok rfl
  have hstored := @fits_registerAll _ ⟨initialized, []⟩ (calls ++ call :: later) nofun
  obtain ⟨hinit, hmem, hfound⟩ := find_registered hname hok later
    (registerAll_append ⟨initialized, []⟩ calls (call :: later)).symm hstored
  refine ⟨hfound, fun again hagain hvalid => ?_⟩
  generalize registerAll ⟨initialized, []⟩ (calls ++ call :: later) = table at hinit hmem hfound ⊢
  split at hfound
  next hfits =>
    rw [if_pos hfits, registerDriver]
    simp [hinit, hagain, hvalid, hfound]
  next hlong =>
    rw [if_neg hlong]
    intro hroom
    have hadded : registerDriver table again =
        ({ table with drivers := table.drivers ++ [entry table again.descriptor name] }, .ok,
          some table.drivers.length) := by
      rw [registerDriver]
      simpa [hinit, hagain, hvalid, hfound, entry] using hroom
    rw [hadded, map_append, nodup_append]
    exact ⟨rfl, fun hnodup => hnodup.2.2 _ (mem_map_of_mem hmem) _ (mem_singleton_self _) rfl⟩

/-- A registration of a driver with callbacks, under a name of `length` letters. -/
def lettered (length : ℕ) : Registration Unit where
  id := some 0
  descriptor :=
    { name := some ⟨List.replicate length 97, by simp⟩, priority := 0, timeoutTicks := 1,
      matchDevice := (), probe := (), attach := (), detach := none, context := 0 }

/-- The longest name that fits is registered once. -/
theorem lettered_unique :
    (find (registerAll ⟨true, []⟩ [lettered 31, lettered 30])
      (lettered 31).descriptor.name).map (·.id) = some 0 := by
  obtain ⟨-, hfound⟩ := driver_names_unique true ([] : List (Registration Unit))
  have h := hfound (lettered 31) _ [lettered 30] _ rfl (by decide +kernel) rfl
  exact congrArg _ (h.1.trans (if_pos (by decide)))

/-- A name of one byte more than the field holds is not found again, and registers a second
driver under the stored name of the first. -/
theorem lettered_twice :
    (registerDriver ⟨true, []⟩ (lettered 32)).2.1 = .ok ∧
    (find (registerAll ⟨true, []⟩ [lettered 32]) (lettered 32).descriptor.name).isNone ∧
    (registerDriver (registerAll ⟨true, []⟩ [lettered 32]) (lettered 32)).2.1 = .ok ∧
    ¬ ((registerAll ⟨true, []⟩ [lettered 32, lettered 32]).drivers.map (·.name)).Nodup := by
  decide +kernel

end Kurogane.Drivers
