/-
# Runs of the virtual file system

Each call is shown to end in a transition of the tables, a failed call in none. From
this the invariant holds along every run, backend files are closed once and with
their last reference, and a handle that is retired stays refused.
-/

import Kurogane.Math.Selection
import Kurogane.Vfs.Tables

namespace Kurogane.Vfs

open Bool hiding not_not not_or

open Math Call List

variable {ε α β : Type} {world world' : World ε}

/-! ## What calls answer -/

/-- Started with these tables, a failed call leaves them alone, and a successful one leaves what
is said. -/
def Call.Ends (call : Call ε α) (base : World ε) (holds : α → World ε → Prop) : Prop :=
  ∀ world : World ε, world.Same base →
    match call world with
    | (.ok value, world') => holds value world'
    | (.error _, world') => world'.Same base

/-- The call leaves the tables alone in any case. -/
def Call.Checks (call : Call ε α) (base : World ε) (holds : α → Prop) : Prop :=
  call.Ends base fun value world' => world'.Same base ∧ holds value

variable {call : Call ε α} {file : OpenFile} {value : β} {generation generation' : ℕ}

namespace Call

variable {base : World ε} {next : α → Call ε β} {holds : α → Prop}

theorem Ends.seq {middle : α → World ε → Prop} {later : β → World ε → Prop}
    (hcall : call.Ends base middle)
    (hnext : ∀ value world', middle value world' → match next value world' with
      | (.ok value, world') => later value world'
      | (.error _, world') => world'.Same base) : (call >>= next).Ends base later := by
  intro world hworld
  have hbind : (call >>= next) world = Call.bind call next world := rfl
  have hfirst := hcall world hworld
  revert hfirst
  rw [hbind, Call.bind]
  rcases call world with ⟨_ | value, world'⟩
  · exact fun hfirst => hfirst
  · exact hnext value world'

theorem Ends.bind {later : β → World ε → Prop} (hcall : call.Checks base holds)
    (hnext : ∀ value, holds value → (next value).Ends base later) :
    (call >>= next).Ends base later :=
  hcall.seq fun value world' hfirst => hnext value hfirst.2 world' hfirst.1

theorem Ends.mono {holds later : α → World ε → Prop} (h : call.Ends base holds)
    (himp : ∀ value world', holds value world' → later value world') : call.Ends base later := by
  intro world hworld
  have hend := h world hworld
  revert hend
  rcases call world with ⟨_ | value, world'⟩
  · exact fun hend => hend
  · exact fun hend => himp value world' hend

theorem Ends.returning {holds : World ε → Prop} (h : call.Ends base fun _ world' => holds world') :
    (call >>= fun _ => pure value : Call ε β).Ends base fun _ world' => holds world' :=
  h.seq fun _ _ hend => hend

theorem checks_pure {value : α} (h : holds value) : (pure value : Call ε α).Checks base holds :=
  fun _ hworld => ⟨hworld, h⟩

variable {status : Status}

theorem checks_fail : (fail status : Call ε α).Checks base holds :=
  fun _ hworld => hworld

theorem checks_require (condition : Bool) (status : Status) :
    (require condition status : Call ε Unit).Checks base fun _ => condition := by
  rw [require]
  split
  · next hcondition => exact checks_pure hcondition
  · exact checks_fail

theorem checks_demand (value : Option α) (status : Status) :
    (demand value status : Call ε α).Checks base fun found => value = some found := by
  cases value with
  | none => exact fun _ hworld => hworld
  | some => exact fun _ hworld => ⟨hworld, rfl⟩

theorem checks_ofExcept (result : Except Status α) :
    (ofExcept result : Call ε α).Checks base fun value => result = .ok value := by
  cases result with
  | error => exact fun _ hworld => hworld
  | ok => exact fun _ hworld => ⟨hworld, rfl⟩

theorem checks_getState : (getState : Call ε (State ε)).Checks base fun state =>
    state = base.state :=
  fun _ hworld => ⟨hworld, hworld.state⟩

section

variable {later : β → World ε → Prop}

theorem Ends.getState {next : State ε → Call ε β} (h : (next base.state).Ends base later) :
    (getState >>= next).Ends base later :=
  .bind checks_getState fun _ heq => heq ▸ h

theorem Ends.require {condition : Bool} {next : Unit → Call ε β}
    (h : condition → (next ()).Ends base later) :
    (require condition status >>= next).Ends base later :=
  .bind (checks_require _ _) fun _ => h

theorem Ends.demand {value : Option α}
    (h : ∀ found, value = some found → (next found).Ends base later) :
    (demand value status >>= next).Ends base later :=
  .bind (checks_demand _ _) h

theorem Ends.ofExcept {result : Except Status α}
    (h : ∀ value, result = .ok value → (next value).Ends base later) :
    (ofExcept result >>= next).Ends base later :=
  .bind (checks_ofExcept _) h

end

theorem checks_backend (operation : Backend ε α) :
    (backend operation).Checks base fun _ => True := by
  intro world hworld
  rw [backend]
  cases (operation world.environment).1 with
  | error => exact ⟨hworld.state, hworld.events⟩
  | ok => exact ⟨⟨hworld.state, hworld.events⟩, trivial⟩

end Call

variable {base : World ε}

theorem backendStat_checks (filesystem : Option (FileSystem ε)) (path : List UInt8) :
    (backendStat filesystem path).Checks base fun _ => True :=
  Ends.bind (checks_demand _ _) fun _ _ => Ends.bind (checks_backend _) fun _ _ =>
    Ends.bind (checks_require _ _) fun _ _ => checks_pure trivial

theorem lookupCanonical_checks (path : NormalizedPath) :
    (lookupCanonical path : Call ε Vnode).Checks base fun _ => True :=
  Ends.bind checks_getState fun _ _ => Ends.bind (checks_ofExcept _) fun _ _ =>
    Ends.bind (backendStat_checks _ _) fun _ _ => Ends.bind (checks_require _ _) fun _ _ =>
      Ends.bind (checks_require _ _) fun _ _ => checks_pure trivial

theorem checkMountRoot_checks (filesystem : FileSystem ε) :
    (checkMountRoot filesystem).Checks base fun _ => True :=
  Ends.bind (backendStat_checks _ _) fun _ _ => (checks_require _ _).mono fun _ _ h =>
    ⟨h.1, trivial⟩

section

variable (filesystem : Option (FileSystem ε))
include filesystem

theorem syncBackend_checks : (syncBackend filesystem).Checks base fun _ => True := by
  rw [syncBackend]
  split
  · exact checks_pure trivial
  · exact checks_backend _

theorem backendSize_checks (file : BackendFile) :
    (backendSize filesystem file).Checks base fun _ => True :=
  Ends.bind (checks_demand _ _) fun _ _ => Ends.bind (checks_backend _) fun _ _ =>
    Ends.bind (checks_require _ _) fun _ _ => checks_pure trivial

theorem writeOffset_checks (file : OpenFile) :
    (writeOffset filesystem file).Checks base fun _ => True := by
  rw [writeOffset]
  split
  · exact backendSize_checks _ _
  · exact checks_pure trivial

theorem seekBase_checks (file : OpenFile)
    (origin : SeekOrigin) : (seekBase filesystem file origin).Checks base fun _ => True := by
  cases origin with
  | start => exact checks_pure trivial
  | current => exact checks_pure trivial
  | finish => exact backendSize_checks _ _
  | other => exact checks_fail

end

/-! ## Slots and handles -/

theorem validFilesystem_serves {filesystem : FileSystem ε} (h : validFilesystem filesystem) :
    filesystem.Serves := by
  intro hopen
  rw [validFilesystem] at h
  split at h
  · cases h
  split at h
  · cases h
  next heq =>
  rw [ne_eq, not_not] at heq
  rw [← Option.not_isNone, ← heq, Option.not_isNone]
  exact hopen

theorem freeSlot_spec {active : ℕ → Bool} {generation : ℕ → ℕ} {slot found next : ℕ}
    (h : freeSlot active generation slot = some (found, next)) :
    found = slot ∧ active slot = false ∧ generation slot ≠ uint32Max ∧
      next = generation slot + 1 := by
  rw [freeSlot] at h
  split at h
  · cases h
  next hact =>
  rw [nextGeneration] at h
  split at h
  · cases h
  next hlimit =>
  rw [Option.map_some, Option.some.injEq, Prod.mk.injEq] at h
  exact ⟨h.1.symm, eq_false_iff.mpr hact, hlimit, h.2.symm⟩

variable {state : State ε}

theorem findMountSlot_spec {slot : ℕ} (h : findMountSlot state = some (slot, generation)) :
    slot ≠ 0 ∧ (state.mounts slot).active = false ∧ (state.mounts slot).generation ≠ uint32Max ∧
      generation = (state.mounts slot).generation + 1 := by
  obtain ⟨_, hmem, hfree⟩ := exists_of_findSome?_eq_some h
  obtain ⟨rfl, hrest⟩ := freeSlot_spec hfree
  refine ⟨?_, hrest⟩
  rintro rfl
  exact absurd hmem (by decide)

theorem findOpenSlot_spec {slot : ℕ} (h : findOpenSlot state = some (slot, generation)) :
    slot < maxOpenFiles ∧ (state.openFiles slot).active = false ∧
      (state.openFiles slot).generation ≠ uint32Max ∧
      generation = (state.openFiles slot).generation + 1 := by
  obtain ⟨_, hmem, hfree⟩ := exists_of_findSome?_eq_some h
  obtain ⟨rfl, hrest⟩ := freeSlot_spec hfree
  exact ⟨mem_range.mp hmem, hrest⟩

variable {index : ℕ}

theorem validateMountHandle_spec {handle : MountHandle}
    (h : validateMountHandle state handle = .ok index) :
    index = handle.slot - 1 ∧ index < maxMounts ∧ (state.mounts index).active ∧
      (state.mounts index).generation = handle.generation := by
  rw [validateMountHandle] at h
  split at h
  · cases h
  split at h
  · cases h
  dsimp only at h
  split at h
  · cases h
  next hlive =>
  cases h
  rw [not_or, not_not, not_eq_true, not_eq_false'] at hlive
  exact ⟨rfl, by omega, hlive⟩

theorem validateOpenHandle_spec {handle : OpenFileHandle}
    (h : validateOpenHandle state handle = .ok index) :
    state.initialized ∧ index = handle.slot - 1 ∧ index < maxOpenFiles ∧
      (state.openFiles index).active ∧
      (state.openFiles index).generation = handle.generation := by
  rw [validateOpenHandle] at h
  split at h
  · cases h
  next hinit =>
  split at h
  · cases h
  dsimp only at h
  split at h
  · cases h
  next hlive =>
  split at h
  · cases h
  split at h
  · cases h
  cases h
  rw [not_or, not_not, not_eq_true, not_eq_false'] at hlive
  rw [not_eq_true, not_eq_false'] at hinit
  exact ⟨hinit, rfl, by omega, hlive⟩

/-- The mounts that `route_path` chooses from. -/
def State.above (state : State ε) (path : List UInt8) : Set ℕ :=
  {slot | slot < maxMounts ∧ (state.mounts slot).active = true ∧
    pathIsComponentPrefix (state.mounts slot).path path = true}

theorem selectMount_isBest (state : State ε) (path : List UInt8) :
    IsBest (fun slot => (state.mounts slot).path.length) (state.above path)
      ((List.range maxMounts).foldl (selectMount state path) none) := by
  have hbest := (isBest_empty fun slot => (state.mounts slot).path.length).foldl
    (selectMount state path) (fun position => {slot | slot = position ∧
      (state.mounts slot).active ∧
      pathIsComponentPrefix (state.mounts slot).path path = true}) ?_ (List.range maxMounts)
  · convert hbest using 1
    ext slot
    simp [State.above]
  intro seen best position h
  by_cases hserves : (state.mounts position).active ∧
      pathIsComponentPrefix (state.mounts position).path path
  · convert h.keepBetter (some position) using 1
    · ext slot
      grind
    · cases best <;> simp [selectMount, keepBetter, hserves]
  convert h.keepBetter none using 1
  · ext slot
    grind
  · simp only [selectMount, keepBetter]
    grind

theorem routePath_spec {path : NormalizedPath} {route : Route}
    (h : routePath state path = .ok route) :
    route.mountIndex < maxMounts ∧ (state.mounts route.mountIndex).active := by
  rw [routePath] at h
  split at h
  · cases h
  have hbest := selectMount_isBest state path.value
  split at h
  · cases h
  next hfold =>
  cases h
  rw [hfold] at hbest
  exact ⟨hbest.1.1, hbest.1.2.1⟩

/-! ## The calls -/

/-- However the call ends, it has taken one of the steps, and no file has more references or
fewer. -/
def Steps (base : World ε) (call : Call ε α) : Prop :=
  call.Ends base fun _ world' => Transition (fun _ => False) base world'

theorem initializeVfs_ends (filesystem : Option (FileSystem ε)) :
    Steps base (initializeVfs filesystem) := by
  refine .getState ?_
  refine .require fun hblank => ?_
  refine .demand fun filesystem _ => ?_
  refine .require fun hvalid => ?_
  refine Ends.bind (checkMountRoot_checks _) fun _ _ world hworld => ?_
  rw [not_eq_true'] at hblank
  exact .boot filesystem hblank (validFilesystem_serves hvalid) rfl hworld.events

theorem exactNonRootMount_eq_false {path : List UInt8} (h : exactNonRootMount state path = false) :
    ∀ other < maxMounts, other ≠ 0 → (state.mounts other).active →
      (state.mounts other).path ≠ path := by
  intro other hlt hne hact hpath
  rw [exactNonRootMount, any_eq_false] at h
  refine h other (mem_range.mpr hlt) ?_
  simp [hne, hact, hpath]

variable (environment : ε) (context : Option PathContext)

theorem mount_ends (target : Option Text) (filesystem : Option (FileSystem ε)) :
    Steps base (mount context target filesystem) := by
  refine .getState ?_
  refine .require fun hinit => ?_
  refine .demand fun filesystem _ => ?_
  refine .require fun hvalid => ?_
  refine .demand ?_
  rintro ⟨slot, _⟩ hslot
  refine .ofExcept fun normalized hnorm => ?_
  refine .require fun hnew => ?_
  refine Ends.bind (lookupCanonical_checks _) fun vnode _ => ?_
  refine .require fun _ => ?_
  refine Ends.bind (checkMountRoot_checks _) fun _ _ world hworld => ?_
  obtain ⟨hne, hfree, hlimit, rfl⟩ := findMountSlot_spec hslot
  obtain ⟨components, hcanon, hvalue⟩ := normalizePath_canonical_of_ok hnorm
  rw [not_eq_true', or_eq_false_iff, hvalue, decide_eq_false_iff_not] at hnew
  refine .mount slot filesystem components hinit hne hfree hlimit hcanon hnew.2
    (exactNonRootMount_eq_false hnew.1) (validFilesystem_serves hvalid) ?_ hworld.events
  rw [← hvalue, ← hworld.state]

theorem mountInUse_eq_false (hinv : TableInvariant base.state base.events)
    (h : mountInUse base.state index = false) :
    ∀ file, (base.state.openFiles file).active → (base.state.openFiles file).mountSlot ≠ index := by
  rintro file hact rfl
  rw [mountInUse, any_eq_false] at h
  refine h file (mem_range.mpr (hinv.within file hact)) ?_
  simp [hact, (hinv.mounted file hact).2.2]

theorem mountBeneath_eq_false (h : mountBeneath state index = false) :
    ∀ other < maxMounts, other ≠ 0 → other ≠ index → (state.mounts other).active →
      pathIsComponentPrefix (state.mounts index).path (state.mounts other).path = false := by
  intro other hlt hzero hne hact
  rw [mountBeneath, any_eq_false] at h
  have hother := h other (mem_range.mpr hlt)
  simpa [hzero, hne, hact] using hother

/-- What a successful `unmount` found and did. -/
structure Unmounted (handle : MountHandle) (base world : World ε) : Prop where
  slot_ne_zero : handle.slot - 1 ≠ 0
  slot_lt : handle.slot - 1 < maxMounts
  valid : validateMountHandle base.state handle = .ok (handle.slot - 1)
  unused : ∀ file, (base.state.openFiles file).active →
    (base.state.openFiles file).mountSlot ≠ handle.slot - 1
  uncovered : ∀ other < maxMounts, other ≠ 0 → other ≠ handle.slot - 1 →
    (base.state.mounts other).active →
    pathIsComponentPrefix (base.state.mounts (handle.slot - 1)).path
      (base.state.mounts other).path = false
  state_eq : world.state = base.state.withMount (handle.slot - 1)
    { generation := (base.state.mounts (handle.slot - 1)).generation }
  events_eq : world.events = base.events

theorem unmount_ends (hinv : TableInvariant base.state base.events) (handle : MountHandle) :
    (unmount handle).Ends base fun _ world' => Unmounted handle base world' := by
  refine .getState ?_
  refine .ofExcept fun index hidx => ?_
  obtain ⟨rfl, hlt, -, -⟩ := validateMountHandle_spec hidx
  refine .require fun hroot => ?_
  refine .require fun hbeneath => ?_
  refine .require fun hinuse => ?_
  refine Ends.bind (syncBackend_checks _) fun _ _ world hworld => ?_
  rw [not_eq_true'] at hbeneath hinuse
  refine ⟨of_decide_eq_true hroot, hlt, hidx, mountInUse_eq_false hinv hinuse,
    mountBeneath_eq_false hbeneath, ?_, hworld.events⟩
  rw [← hworld.state]

theorem Unmounted.tableInvariant {handle : MountHandle} (h : Unmounted handle base world)
    (hinv : TableInvariant base.state base.events) : TableInvariant world.state world.events := by
  rw [h.state_eq, h.events_eq]
  exact hinv.unmount h.slot_ne_zero (validateMountHandle_spec h.valid).2.2.1 h.unused

theorem openPath_ends (path : Option Text) (flags : Flags) (handleGiven : Bool) :
    Steps base (openPath context path flags handleGiven) := by
  refine .getState ?_
  refine .require fun hinit => ?_
  refine .require fun _ => ?_
  refine .require fun _ => ?_
  refine .demand ?_
  rintro ⟨slot, _⟩ hslot
  refine .ofExcept fun normalized _ => ?_
  refine .ofExcept fun route hroute => ?_
  refine .demand fun openFile hopen => ?_
  refine .require fun _ => ?_
  refine Ends.bind (lookupCanonical_checks _) fun vnode _ => ?_
  refine .require fun _ => ?_
  refine .require fun _ => ?_
  refine Ends.bind (checks_backend _) fun file _ world hworld => ?_
  obtain ⟨hlt, hfree, hlimit, rfl⟩ := findOpenSlot_spec hslot
  obtain ⟨hidx, hact⟩ := routePath_spec hroute
  refine .openFile slot (newOpenFile _ flags ⟨route.mountIndex + 1,
    (base.state.mounts route.mountIndex).generation⟩ vnode.info file normalized.value) hlt
      hinit hfree hlimit rfl rfl rfl hidx hact rfl
    (Option.isSome_of_eq_some hopen) ?_ ?_
  · rw [← hworld.state]
  · rw [← hworld.events]
    rfl

theorem Steps.onFile {handle : OpenFileHandle} {next : State ε → ℕ → Call ε α}
    (h : ∀ index, (∀ offset : ℕ, Steps base
      (setOpenFile index { base.state.openFiles index with offset })) →
      Steps base (next base.state index)) :
    Steps base (getState >>= fun state =>
      ofExcept (validateOpenHandle state handle) >>= next state) := by
  refine .getState (.ofExcept fun index hidx => ?_)
  obtain ⟨hinit, -, hlt, -, -⟩ := validateOpenHandle_spec hidx
  refine h index fun offset world hworld => ?_
  exact .adjust index { base.state.openFiles index with offset } hlt hinit
    ⟨rfl, rfl, fun h => h, rfl, rfl, rfl⟩ (.inr rfl) (by rw [← hworld.state]) hworld.events

/-- What a successful `retain` did: the file has one more reference. -/
structure Retained (handle : OpenFileHandle) (base world : World ε) : Prop where
  valid : validateOpenHandle base.state handle = .ok (handle.slot - 1)
  state_eq : world.state = base.state.withOpenFile (handle.slot - 1)
    { base.state.openFiles (handle.slot - 1) with
      referenceCount := (base.state.openFiles (handle.slot - 1)).referenceCount + 1 }
  events_eq : world.events = base.events

theorem retain_ends (handle : OpenFileHandle) :
    (retain handle).Ends base fun _ world' => Retained handle base world' := by
  refine .getState (.ofExcept fun index hidx => ?_)
  obtain ⟨-, rfl, -⟩ := validateOpenHandle_spec hidx
  refine .require fun _ world hworld => ?_
  exact ⟨hidx, by rw [← hworld.state], hworld.events⟩

theorem Retained.transition {handle : OpenFileHandle} (h : Retained handle base world) :
    Transition (· = handle.slot - 1) base world := by
  obtain ⟨hinit, -, hlt, -, -⟩ := validateOpenHandle_spec h.valid
  refine .adjust _ _ hlt hinit ?_ (.inl rfl) h.state_eq h.events_eq
  exact ⟨rfl, rfl, fun _ => Nat.le_add_left _ _, rfl, rfl, rfl⟩

/-- What a successful `close` did: the last reference closes the backend file. -/
structure Closed (handle : OpenFileHandle) (base world : World ε) : Prop where
  valid : validateOpenHandle base.state handle = .ok (handle.slot - 1)
  last : (base.state.openFiles (handle.slot - 1)).referenceCount = 1 →
    world.state = base.state.withOpenFile (handle.slot - 1)
        { generation := (base.state.openFiles (handle.slot - 1)).generation } ∧
      world.events = .closed (base.state.openFiles (handle.slot - 1)).key :: base.events
  shared : (base.state.openFiles (handle.slot - 1)).referenceCount ≠ 1 →
    1 < (base.state.openFiles (handle.slot - 1)).referenceCount ∧
      world.state = base.state.withOpenFile (handle.slot - 1)
        { base.state.openFiles (handle.slot - 1) with
          referenceCount := (base.state.openFiles (handle.slot - 1)).referenceCount - 1 } ∧
      world.events = base.events

variable {slot : ℕ}

theorem TableInvariant.closable (hinv : TableInvariant base.state base.events)
    (hact : (base.state.openFiles slot).active) :
    ∃ closeFile, (base.state.mounts (base.state.openFiles slot).mountSlot).filesystem.bind
      FileSystem.closeFile = some closeFile := by
  have hopen := hinv.openable slot hact
  cases hfilesystem : (base.state.mounts (base.state.openFiles slot).mountSlot).filesystem with
  | none =>
    rw [hfilesystem] at hopen
    cases hopen
  | some filesystem =>
    rw [hfilesystem] at hopen
    exact Option.isSome_iff_exists.mp
      (hinv.serves _ filesystem (hinv.mounted slot hact).2.1 hfilesystem hopen)

theorem close_ends (hinv : TableInvariant base.state base.events) (handle : OpenFileHandle) :
    (close handle).Ends base fun _ world' => Closed handle base world' := by
  refine .getState ?_
  refine .ofExcept fun index hidx => ?_
  obtain ⟨_, rfl, _, hact, -⟩ := validateOpenHandle_spec hidx
  refine .require fun hcount => ?_
  rw [decide_eq_true_eq] at hcount
  split
  · next hshared =>
    intro world hworld
    refine ⟨hidx, fun hone => absurd hone (by omega), fun _ => ⟨hshared, ?_, hworld.events⟩⟩
    rw [← hworld.state]
  obtain ⟨_, hclose⟩ := hinv.closable hact
  intro world hworld
  simp only [closeBackend, hclose]
  refine ⟨hidx, fun _ => ⟨?_, ?_⟩, fun hne => absurd hne (by omega)⟩
  · rw [← hworld.state]
  · rw [← hworld.events]

theorem Closed.transition {handle : OpenFileHandle} (h : Closed handle base world)
    (hne : (base.state.openFiles (handle.slot - 1)).referenceCount ≠ 1) :
    Transition (· = handle.slot - 1) base world := by
  obtain ⟨hinit, -, hlt, -, -⟩ := validateOpenHandle_spec h.valid
  obtain ⟨hmany, hstate, hevs⟩ := h.shared hne
  refine .adjust _ _ hlt hinit ?_ (.inl rfl) hstate hevs
  exact ⟨rfl, rfl, fun _ => Nat.le_sub_one_of_lt hmany, rfl, rfl, rfl⟩

section

variable (handle : OpenFileHandle)
include handle

theorem read_ends (bufferGiven : Bool) (size : ℕ) : Steps base (read handle bufferGiven size) := by
  refine .onFile fun index hset => ?_
  refine .require fun _ => ?_
  refine .require fun _ => ?_
  refine .require fun _ => ?_
  split
  · exact fun _ hworld => .idle hworld
  refine .demand fun readFile _ => ?_
  refine .require fun _ => ?_
  refine Ends.bind (checks_backend _) ?_
  rintro ⟨_, _⟩ -
  refine .require fun _ => ?_
  exact (hset _).returning

theorem write_ends (buffer : Option (List UInt8)) (size : ℕ) :
    Steps base (write handle buffer size) := by
  refine .onFile fun index hset => ?_
  refine .require fun _ => ?_
  refine .require fun _ => ?_
  refine .require fun _ => ?_
  refine .require fun _ => ?_
  split
  · exact fun _ hworld => .idle hworld
  refine .demand fun writeFile _ => ?_
  refine Ends.bind (writeOffset_checks _ _) fun offset _ => ?_
  refine .require fun _ => ?_
  refine Ends.bind (checks_backend _) fun completed _ => ?_
  refine .require fun _ => ?_
  exact (hset _).returning

theorem seek_ends (offset : ℤ) (origin : SeekOrigin) : Steps base (seek handle offset origin) := by
  refine .onFile fun index hset => ?_
  refine .require fun _ => ?_
  refine Ends.bind (seekBase_checks _ _ _) fun start _ => ?_
  refine .ofExcept fun candidate _ => ?_
  exact (hset _).returning

theorem readEntry_ends : Steps base (readEntry handle) := by
  refine .onFile fun index hset => ?_
  refine .require fun _ => ?_
  refine .require fun _ => ?_
  refine .demand fun readdir _ => ?_
  refine Ends.bind (checks_backend _) ?_
  rintro ⟨_, _⟩ -
  refine .require fun _ => ?_
  refine .demand fun child _ => ?_
  exact (hset _).returning

theorem readdir_ends (entryGiven : Bool) : Steps base (readdir handle entryGiven) :=
  Ends.bind (checks_require _ _) fun _ _ => readEntry_ends handle

end

/-! ## Requests -/

inductive Request (ε : Type)
  | initializeVfs (filesystem : Option (FileSystem ε))
  | mount (context : Option PathContext) (target : Option Text)
      (filesystem : Option (FileSystem ε))
  | unmount (handle : MountHandle)
  | openPath (context : Option PathContext) (path : Option Text) (flags : Flags)
      (handleGiven : Bool)
  | retain (handle : OpenFileHandle)
  | close (handle : OpenFileHandle)
  | read (handle : OpenFileHandle) (bufferGiven : Bool) (size : ℕ)
  | write (handle : OpenFileHandle) (buffer : Option (List UInt8)) (size : ℕ)
  | seek (handle : OpenFileHandle) (offset : ℤ) (origin : SeekOrigin)
  | readdir (handle : OpenFileHandle) (entryGiven : Bool)

def serve : Request ε → Call ε Unit
  | .initializeVfs filesystem => initializeVfs filesystem
  | .mount context target filesystem => do
      let _ ← mount context target filesystem
      pure ()
  | .unmount handle => unmount handle
  | .openPath context path flags handleGiven => do
      let _ ← openPath context path flags handleGiven
      pure ()
  | .retain handle => retain handle
  | .close handle => close handle
  | .read handle bufferGiven size => do
      let _ ← read handle bufferGiven size
      pure ()
  | .write handle buffer size => do
      let _ ← write handle buffer size
      pure ()
  | .seek handle offset origin => do
      let _ ← seek handle offset origin
      pure ()
  | .readdir handle entryGiven => do
      let _ ← readdir handle entryGiven
      pure ()

def Request.fileHandle : Request ε → Option OpenFileHandle
  | .retain handle | .close handle | .read handle _ _ | .write handle _ _ | .seek handle _ _
  | .readdir handle _ => some handle
  | .initializeVfs _ | .mount _ _ _ | .unmount _ | .openPath _ _ _ _ => none

/-- The slots of the files whose number of references the request may change. -/
def Request.recounts : Request ε → ℕ → Prop
  | .retain handle | .close handle => (· = handle.slot - 1)
  | _ => fun _ => False

def run (world : World ε) (requests : List (Request ε)) : World ε :=
  requests.foldl (fun world request => (serve request world).2) world

def bootWorld (environment : ε) : World ε := ⟨⟨false, fun _ => {}, fun _ => {}⟩, environment, []⟩

theorem Call.Ends.apply {holds : α → World ε → Prop} (h : call.Ends base holds) :
    (∀ value, (call base).1 = .ok value → holds value (call base).2) ∧
      ∀ status, (call base).1 = .error status → (call base).2.Same base := by
  have hend := h base (.refl base)
  revert hend
  rcases call base with ⟨_ | _, _⟩
  · exact fun hend => ⟨nofun, fun _ _ => hend⟩
  · rintro hend
    refine ⟨?_, nofun⟩
    rintro _ ⟨⟩
    exact hend

/-- What a request that succeeds may do: a transition, or a mount or an open file is retired. -/
def Effect (request : Request ε) (base world : World ε) : Prop :=
  Transition request.recounts base world ∨
    (∃ handle, request = .unmount handle ∧ Unmounted handle base world) ∨
    ∃ handle, request = .close handle ∧ Closed handle base world ∧
      (base.state.openFiles (handle.slot - 1)).referenceCount = 1

section

variable (hinv : TableInvariant base.state base.events) (request : Request ε)
include hinv request

theorem serve_ends : (serve request).Ends base fun _ world => Effect request base world := by
  cases request with
  | unmount handle =>
    exact (unmount_ends hinv handle).mono fun _ _ h => .inr (.inl ⟨handle, rfl, h⟩)
  | close handle =>
    refine (close_ends hinv handle).mono fun _ _ h => ?_
    by_cases hone : (base.state.openFiles (handle.slot - 1)).referenceCount = 1
    · exact .inr (.inr ⟨handle, rfl, h, hone⟩)
    · exact .inl (h.transition hone)
  | retain handle => exact (retain_ends handle).mono fun _ _ h => .inl h.transition
  | initializeVfs filesystem => exact (initializeVfs_ends filesystem).mono fun _ _ => .inl
  | mount context target filesystem =>
    exact (mount_ends context target filesystem).returning.mono fun _ _ => .inl
  | openPath context path flags handleGiven =>
    exact (openPath_ends context path flags handleGiven).returning.mono fun _ _ => .inl
  | read handle bufferGiven size =>
    exact (read_ends handle bufferGiven size).returning.mono fun _ _ => .inl
  | write handle buffer size =>
    exact (write_ends handle buffer size).returning.mono fun _ _ => .inl
  | seek handle offset origin =>
    exact (seek_ends handle offset origin).returning.mono fun _ _ => .inl
  | readdir handle entryGiven =>
    exact (readdir_ends handle entryGiven).returning.mono fun _ _ => .inl

theorem serve_cases : Effect request base (serve request base).2 := by
  obtain ⟨hok, herror⟩ := (serve_ends hinv request).apply
  cases hanswer : (serve request base).1 with
  | ok => exact hok _ hanswer
  | error => exact .inl (.idle (herror _ hanswer))

theorem serve_tableInvariant :
    TableInvariant (serve request base).2.state (serve request base).2.events := by
  rcases serve_cases hinv request with h | ⟨_, -, h⟩ | ⟨_, -, h, hone⟩
  · exact hinv.step h
  · exact h.tableInvariant hinv
  · obtain ⟨-, -, hlt, hact, -⟩ := validateOpenHandle_spec h.valid
    rw [(h.last hone).1, (h.last hone).2]
    exact hinv.release hlt hact

end

theorem tableInvariant_boot :
    TableInvariant (bootWorld environment).state (bootWorld environment).events := by
  refine ⟨fun _ => ⟨fun _ => rfl, fun _ => rfl⟩, nofun, by rintro _ _ _ _ ⟨⟩,
    by rintro _ ⟨⟩, by rintro _ _ ⟨⟩, by rintro _ ⟨⟩, by rintro _ ⟨⟩, by rintro _ ⟨⟩,
    by rintro _ ⟨⟩, ?_, trivial⟩
  exact (Finset.sum_eq_zero fun _ _ => rfl).symm

theorem run_tableInvariant (requests : List (Request ε)) :
    TableInvariant (run (bootWorld environment) requests).state
      (run (bootWorld environment) requests).events := by
  induction requests using List.reverseRecOn with
  | nil => exact tableInvariant_boot environment
  | append_singleton _ request ih =>
    rw [run, foldl_concat]
    exact serve_tableInvariant ih request

/-! ## Retired handles -/

/-- The slot of the handle has had its generation, and does not stand for it. -/
def MountHandle.Retired (state : State ε) (handle : MountHandle) : Prop :=
  state.initialized ∧
    handle.generation ≤ (state.mounts (handle.slot - 1)).generation ∧
    ((state.mounts (handle.slot - 1)).active →
      (state.mounts (handle.slot - 1)).generation ≠ handle.generation)

def OpenFileHandle.Retired (state : State ε) (handle : OpenFileHandle) : Prop :=
  state.initialized ∧
    handle.generation ≤ (state.openFiles (handle.slot - 1)).generation ∧
    ((state.openFiles (handle.slot - 1)).active →
      (state.openFiles (handle.slot - 1)).generation ≠ handle.generation)

/-- What one slot of a table goes through: it stays as it is, is retired, or is filled under the
next generation. -/
structure SlotStep (active active' : Bool) (generation generation' : ℕ) : Prop where
  filled : active' → active ∧ generation' = generation ∨
    active = false ∧ generation ≠ uint32Max ∧ generation' = generation + 1
  cleared : active' = false → generation' = generation

namespace SlotStep

theorem refl (active : Bool) (generation : ℕ) : SlotStep active active generation generation :=
  ⟨fun h => .inl ⟨h, rfl⟩, fun _ => rfl⟩

theorem retired {active active' : Bool} {retired : ℕ}
    (h : SlotStep active active' generation generation') (hle : retired ≤ generation)
    (hne : active → generation ≠ retired) :
    retired ≤ generation' ∧ (active' → generation' ≠ retired) := by
  cases active' with
  | false => exact ⟨hle.trans (h.cleared rfl).ge, nofun⟩
  | true =>
    rcases h.filled rfl with ⟨hact, rfl⟩ | ⟨-, -, rfl⟩
    · exact ⟨hle, fun _ => hne hact⟩
    · exact ⟨hle.trans (Nat.le_succ _), fun _ => by omega⟩

end SlotStep

/-- How the slots of both tables change. -/
structure SlotsStep (state state' : State ε) : Prop where
  initialized : state'.initialized
  mounts : ∀ slot, SlotStep (state.mounts slot).active (state'.mounts slot).active
    (state.mounts slot).generation (state'.mounts slot).generation
  openFiles : ∀ slot, SlotStep (state.openFiles slot).active (state'.openFiles slot).active
    (state.openFiles slot).generation (state'.openFiles slot).generation

theorem SlotsStep.withMount (hinit : state.initialized) {entry : Mount ε}
    (h : SlotStep (state.mounts slot).active entry.active
      (state.mounts slot).generation entry.generation) :
    SlotsStep state (state.withMount slot entry) := by
  refine ⟨hinit, fun other => ?_, fun other => .refl _ _⟩
  rw [withMount_mounts]
  split
  · next heq =>
    rw [heq]
    exact h
  · exact .refl _ _

theorem SlotsStep.withOpenFile (hinit : state.initialized)
    (h : SlotStep (state.openFiles slot).active file.active
      (state.openFiles slot).generation file.generation) :
    SlotsStep state (state.withOpenFile slot file) := by
  refine ⟨hinit, fun other => .refl _ _, fun other => ?_⟩
  rw [withOpenFile_openFiles]
  split
  · next heq =>
    rw [heq]
    exact h
  · exact .refl _ _

variable {recounts : ℕ → Prop}

theorem Transition.slots (h : Transition recounts base world) (hinit : base.state.initialized) :
    SlotsStep base.state world.state := by
  cases h with
  | idle hsame =>
    rw [hsame.state]
    exact ⟨hinit, fun _ => .refl _ _, fun _ => .refl _ _⟩
  | boot _ hblank =>
    rw [hblank] at hinit
    cases hinit
  | mount _ _ _ _ _ hfree hgen _ _ _ _ hstate =>
      rw [hstate]
      exact .withMount hinit ⟨fun _ => .inr ⟨hfree, hgen, rfl⟩, nofun⟩
  | openFile _ _ _ _ hfree hlimit hact hgen _ _ _ _ _ hstate =>
      rw [hstate]
      exact .withOpenFile hinit ⟨fun _ => .inr ⟨hfree, hlimit, hgen⟩,
        fun hclear => absurd hact (by rw [hclear]; exact false_ne_true)⟩
  | adjust _ _ _ _ hadjusted _ hstate =>
    rw [hstate]
    refine .withOpenFile hinit ?_
    rw [hadjusted.active, hadjusted.generation]
    exact .refl _ _

theorem serve_slots (hinv : TableInvariant base.state base.events)
    (hinit : base.state.initialized) (request : Request ε) :
    SlotsStep base.state (serve request base).2.state := by
  rcases serve_cases hinv request with h | ⟨_, -, h⟩ | ⟨_, -, h, hone⟩
  · exact h.slots hinit
  · rw [h.state_eq]
    exact .withMount hinit ⟨nofun, fun _ => rfl⟩
  · rw [(h.last hone).1]
    exact .withOpenFile hinit ⟨nofun, fun _ => rfl⟩

theorem validateMountHandle_retired {handle : MountHandle}
    (h : handle.Retired state) : ∃ status, validateMountHandle state handle = .error status := by
  cases hvalid : validateMountHandle state handle with
  | error status => exact ⟨status, rfl⟩
  | ok =>
    obtain ⟨rfl, -, hact, hgen⟩ := validateMountHandle_spec hvalid
    exact absurd hgen (h.2.2 hact)

theorem validateOpenHandle_retired {handle : OpenFileHandle}
    (h : handle.Retired state) : ∃ status, validateOpenHandle state handle = .error status := by
  cases hvalid : validateOpenHandle state handle with
  | error status => exact ⟨status, rfl⟩
  | ok =>
    obtain ⟨-, rfl, -, hact, hgen⟩ := validateOpenHandle_spec hvalid
    exact absurd hgen (h.2.2 hact)

/-- A call that starts with a check of the state ends there when the check fails. -/
theorem getState_refuses {check : State ε → Except Status α} {next : State ε → α → Call ε β}
    (h : check base.state = .error status) :
    (do let state ← getState; let value ← ofExcept (check state); next state value : Call ε β)
      base = (.error status, base) := by
  have hstep : ((ofExcept (check base.state) >>= next base.state : Call ε β)) base =
      (.error status, base) := by
    rw [h]
    rfl
  exact hstep

theorem returning_refuses (h : call base = (.error status, base)) :
    (call >>= fun _ => pure value : Call ε β) base = (.error status, base) := by
  have hbind : (call >>= fun _ => pure value : Call ε β) base =
      Call.bind call (fun _ => pure value) base := rfl
  rw [hbind, Call.bind, h]

theorem serve_refused {request : Request ε} {handle : OpenFileHandle}
    (hreq : request.fileHandle = some handle) (h : handle.Retired base.state) :
    ∃ status, serve request base = (.error status, base) := by
  obtain ⟨status, hstat⟩ := validateOpenHandle_retired h
  cases request with
  | initializeVfs | mount | unmount | openPath => cases hreq
  | retain | close =>
    cases hreq
    exact ⟨status, getState_refuses hstat⟩
  | read | write | seek =>
    cases hreq
    exact ⟨status, returning_refuses (getState_refuses hstat)⟩
  | readdir _ entryGiven =>
    cases hreq
    cases entryGiven with
    | false => exact ⟨.invalidArgument, rfl⟩
    | true =>
      have hentry : readEntry handle base = (.error status, base) := getState_refuses hstat
      exact ⟨status, returning_refuses hentry⟩

/-! ## What a request does -/

/-- How many references a slot's file has: a new one has a single reference, and the number stays
the same unless the request is one that changes it. -/
structure OpenFile.Counted (changes : Prop) (file file' : OpenFile) : Prop where
  opened : file.active = false → file'.active → file'.referenceCount = 1
  kept : file.active → ¬ changes → file'.referenceCount = file.referenceCount

/-- What serving a request does in a world, and what it may not do. -/
structure Served (world : World ε) (request : Request ε) (answer : Except Status Unit)
    (world' : World ε) : Prop where
  /-- A failed request changes nothing. -/
  failed : ∀ status, answer = .error status → world'.Same world
  /-- A successful `retain` adds a reference. -/
  retained : ∀ handle, request = .retain handle → answer = .ok () →
    Retained handle world world'
  /-- A successful `close` drops a reference, or the backend file and the slot with the last. -/
  closed : ∀ handle, request = .close handle → answer = .ok () → Closed handle world world'
  /-- Nothing else changes the number of references. -/
  counted : ∀ slot, (world.state.openFiles slot).Counted (request.recounts slot)
    (world'.state.openFiles slot)
  /-- A backend file is opened with an open file and closed with the last reference to one. -/
  events : world'.events = world.events ∨
    (∃ slot, (world.state.openFiles slot).active = false ∧
      (world'.state.openFiles slot).active ∧
      world'.events = .opened (world'.state.openFiles slot).key :: world.events) ∨
    ∃ handle, request = .close handle ∧
      (world.state.openFiles (handle.slot - 1)).active ∧
      (world.state.openFiles (handle.slot - 1)).referenceCount = 1 ∧
      world'.events = .closed (world.state.openFiles (handle.slot - 1)).key :: world.events
  /-- An open file ends with the close of its last reference, and its handle is retired. -/
  file_retired : ∀ slot, (world.state.openFiles slot).active →
    (world'.state.openFiles slot).active = false →
    ∃ handle : OpenFileHandle, request = .close handle ∧ slot = handle.slot - 1 ∧
      (world.state.openFiles slot).referenceCount = 1 ∧ handle.Retired world'.state
  /-- A mount ends when no open file is on it and no other mount beneath it. -/
  mount_retired : ∀ slot, (world.state.mounts slot).active →
    (world'.state.mounts slot).active = false →
    ∃ handle : MountHandle, request = .unmount handle ∧ slot = handle.slot - 1 ∧
      (∀ file, (world.state.openFiles file).active →
        (world.state.openFiles file).mountSlot ≠ slot) ∧
      (∀ other < maxMounts, other ≠ slot → (world.state.mounts other).active →
        pathIsComponentPrefix (world.state.mounts slot).path
          (world.state.mounts other).path = false) ∧
      handle.Retired world'.state
  /-- A retired handle stays retired. -/
  mount_stale : ∀ handle : MountHandle, handle.Retired world.state → handle.Retired world'.state
  file_stale : ∀ handle : OpenFileHandle, handle.Retired world.state → handle.Retired world'.state
  /-- No slot is filled beyond the largest generation. -/
  mount_exhausted : ∀ slot, (world.state.mounts slot).active = false →
    (world.state.mounts slot).generation = uint32Max → (world'.state.mounts slot).active = false
  file_exhausted : ∀ slot, (world.state.openFiles slot).active = false →
    (world.state.openFiles slot).generation = uint32Max →
    (world'.state.openFiles slot).active = false

theorem Transition.events (h : Transition recounts base world) :
    world.events = base.events ∨ ∃ slot, (base.state.openFiles slot).active = false ∧
      (world.state.openFiles slot).active ∧
      world.events = .opened (world.state.openFiles slot).key :: base.events := by
  cases h with
  | idle hsame => exact .inl hsame.events
  | boot _ _ _ _ hevs => exact .inl hevs
  | mount _ _ _ _ _ _ _ _ _ _ _ _ hevs => exact .inl hevs
  | openFile slot _ _ _ hfree _ hact _ _ _ _ _ _ hstate hevs =>
      refine .inr ⟨slot, hfree, ?_⟩
      rw [hstate, withOpenFile_openFiles, if_pos rfl]
      exact ⟨hact, hevs⟩
  | adjust _ _ _ _ _ _ _ hevs => exact .inl hevs

theorem Transition.active (h : Transition recounts base world)
    (hinv : TableInvariant base.state base.events) :
    (∀ slot, (base.state.mounts slot).active → (world.state.mounts slot).active) ∧
      ∀ slot, (base.state.openFiles slot).active →
        (world.state.openFiles slot).active := by
  cases h with
  | idle hsame =>
    rw [hsame.state]
    exact ⟨fun _ h => h, fun _ h => h⟩
  | boot _ hblank =>
    obtain ⟨hmounts, hfiles⟩ := hinv.blank hblank
    exact ⟨fun slot h => absurd h (by simp [hmounts slot]),
      fun slot h => absurd h (by simp [hfiles slot])⟩
  | mount _ _ _ _ _ _ _ _ _ _ _ hstate =>
      rw [hstate]
      refine ⟨fun other hother => ?_, fun _ h => h⟩
      rw [withMount_mounts]
      split
      · rfl
      · exact hother
  | openFile _ _ _ _ _ _ hact _ _ _ _ _ _ hstate =>
      rw [hstate]
      refine ⟨fun _ h => h, fun other hother => ?_⟩
      rw [withOpenFile_openFiles]
      split
      · exact hact
      · exact hother
  | adjust _ _ _ _ hadjusted _ hstate =>
    rw [hstate]
    refine ⟨fun _ h => h, fun other hother => ?_⟩
    rw [withOpenFile_openFiles]
    split
    · next heq => rw [hadjusted.active, ← heq, hother]
    · exact hother

theorem OpenFile.Counted.refl {changes : Prop} (file : OpenFile) : file.Counted changes file := by
  refine ⟨fun hidle hact => ?_, fun _ _ => rfl⟩
  rw [hidle] at hact
  cases hact

theorem Transition.counted (h : Transition recounts base world)
    (hinv : TableInvariant base.state base.events) (slot : ℕ) :
    (base.state.openFiles slot).Counted (recounts slot) (world.state.openFiles slot) := by
  cases h with
  | idle hsame => exact hsame.state ▸ .refl _
  | boot _ hblank _ hstate =>
    rw [hstate, (hinv.blank hblank).2 slot]
    exact .refl _
  | mount _ _ _ _ _ _ _ _ _ _ _ hstate => exact hstate ▸ .refl _
  | openFile _ _ _ _ hfree _ _ _ hcount _ _ _ _ hstate =>
    rw [hstate, withOpenFile_openFiles]
    split
    · next heq =>
      refine ⟨fun _ _ => hcount, fun hact => ?_⟩
      rw [heq, hfree] at hact
      cases hact
    · exact .refl _
  | adjust _ _ _ _ hadjusted hcount hstate =>
    rw [hstate, withOpenFile_openFiles]
    split
    · next heq =>
      refine ⟨fun hidle hact => ?_, fun _ hnot => heq ▸ hcount.resolve_left (heq ▸ hnot)⟩
      rw [hadjusted.active, ← heq, hidle] at hact
      cases hact
    · exact .refl _

theorem root_not_beneath (hinv : TableInvariant base.state base.events)
    (hinit : base.state.initialized) (hslot : slot < maxMounts) (hne : slot ≠ 0)
    (hact : (base.state.mounts slot).active) :
    pathIsComponentPrefix (base.state.mounts slot).path (base.state.mounts 0).path = false := by
  obtain ⟨hroot, hpath⟩ := hinv.root hinit
  obtain ⟨_, hcanon, hslotpath⟩ := hinv.canonical slot hact
  rw [eq_false_iff, hslotpath, hpath, ← joinPath_nil,
    ne_eq, pathIsComponentPrefix_iff hcanon isCanonical_nil, prefix_nil]
  rintro rfl
  refine hne (hinv.distinct slot 0 hslot (by decide) hact hroot ?_)
  rw [hslotpath, hpath, joinPath_nil]

theorem SlotStep.exhausted {active active' : Bool}
    (h : SlotStep active active' generation generation') (hfree : active = false)
    (hlimit : generation = uint32Max) : active' = false := by
  cases active' with
  | false => rfl
  | true =>
    rcases h.filled rfl with ⟨hact, -⟩ | ⟨-, hbelow, -⟩
    · rw [hfree] at hact
      cases hact
    · exact absurd hlimit hbelow

theorem serve_counted (hinv : TableInvariant base.state base.events) (request : Request ε)
    (slot : ℕ) : (base.state.openFiles slot).Counted (request.recounts slot)
      ((serve request base).2.state.openFiles slot) := by
  rcases serve_cases hinv request with h | ⟨_, -, h⟩ | ⟨handle, rfl, h, hone⟩
  · exact h.counted hinv slot
  · rw [h.state_eq]
    exact .refl _
  · rw [(h.last hone).1, withOpenFile_openFiles]
    split
    · next heq => exact ⟨nofun, fun _ hnot => absurd heq hnot⟩
    · exact .refl _

theorem serve_served (hinv : TableInvariant base.state base.events) (request : Request ε) :
    Served base request (serve request base).1 (serve request base).2 where
  failed := (serve_ends hinv request).apply.2
  retained := by
    rintro handle rfl
    exact (retain_ends handle).apply.1 ()
  closed := by
    rintro handle rfl
    exact (close_ends hinv handle).apply.1 ()
  counted := serve_counted hinv request
  events := by
    rcases serve_cases hinv request with h | ⟨_, -, h⟩ | ⟨handle, hreq, h, hone⟩
    · exact h.events.imp_right .inl
    · exact .inl h.events_eq
    · obtain ⟨-, -, -, hact, -⟩ := validateOpenHandle_spec h.valid
      exact .inr (.inr ⟨handle, hreq, hact, hone, (h.last hone).2⟩)
  file_retired slot hact hretired := by
    rw [← not_eq_true] at hretired
    rcases serve_cases hinv request with h | ⟨_, -, h⟩ | ⟨handle, hreq, h, hone⟩
    · exact absurd ((h.active hinv).2 slot hact) hretired
    · rw [h.state_eq, withMount_openFiles] at hretired
      exact absurd hact hretired
    · obtain ⟨hinit, -, -, -, hgen⟩ := validateOpenHandle_spec h.valid
      have hstate := (h.last hone).1
      have hslot : slot = handle.slot - 1 := by
        by_contra hne
        rw [hstate, withOpenFile_openFiles, if_neg hne] at hretired
        exact hretired hact
      refine ⟨handle, hreq, hslot, hslot ▸ hone, ?_⟩
      rw [OpenFileHandle.Retired, hstate, withOpenFile_openFiles, if_pos rfl]
      exact ⟨hinit, hgen.ge, nofun⟩
  mount_retired slot hact hretired := by
    have hinit := hinv.initialized_of_mount hact
    rw [← not_eq_true] at hretired
    rcases serve_cases hinv request with h | ⟨handle, hreq, h⟩ | ⟨_, -, h, hone⟩
    · exact absurd ((h.active hinv).1 slot hact) hretired
    · obtain ⟨-, -, hmount, hgen⟩ := validateMountHandle_spec h.valid
      have hslot : slot = handle.slot - 1 := by
        by_contra hne
        rw [h.state_eq, withMount_mounts, if_neg hne] at hretired
        exact hretired hact
      refine ⟨handle, hreq, hslot, hslot ▸ h.unused, fun other hother hne hlive => ?_, ?_⟩
      · rw [hslot] at hne ⊢
        by_cases hzero : other = 0
        · rw [hzero]
          exact root_not_beneath hinv hinit h.slot_lt h.slot_ne_zero hmount
        · exact h.uncovered other hother hzero hne hlive
      · rw [MountHandle.Retired, h.state_eq, withMount_mounts, if_pos rfl]
        exact ⟨hinit, hgen.ge, nofun⟩
    · rw [(h.last hone).1] at hretired
      exact absurd hact hretired
  mount_stale handle hretired := by
    have hslots := serve_slots hinv hretired.1 request
    exact ⟨hslots.initialized, (hslots.mounts _).retired hretired.2.1 hretired.2.2⟩
  file_stale handle hretired := by
    have hslots := serve_slots hinv hretired.1 request
    exact ⟨hslots.initialized, (hslots.openFiles _).retired hretired.2.1 hretired.2.2⟩
  mount_exhausted slot hfree hlimit := by
    by_cases hinit : base.state.initialized
    · exact ((serve_slots hinv hinit request).mounts slot).exhausted hfree hlimit
    · rw [(hinv.blank (eq_false_iff.mpr hinit)).1 slot] at hlimit
      exact absurd hlimit (show 0 ≠ uint32Max by decide)
  file_exhausted slot hfree hlimit := by
    by_cases hinit : base.state.initialized
    · exact ((serve_slots hinv hinit request).openFiles slot).exhausted hfree hlimit
    · rw [(hinv.blank (eq_false_iff.mpr hinit)).2 slot] at hlimit
      exact absurd hlimit (show 0 ≠ uint32Max by decide)

theorem serve_unmount_refused {handle : MountHandle} (h : handle.Retired base.state) :
    ∃ status, serve (.unmount handle) base = (.error status, base) := by
  obtain ⟨status, hstat⟩ := validateMountHandle_retired h
  exact ⟨status, getState_refuses hstat⟩

/-- Along every run over arbitrary backends the tables keep their invariant, every request does
only what is allowed, and retired handles are refused without an effect. -/
theorem vfs_tables_hold (environment : ε) (requests : List (Request ε)) :
    TableInvariant (run (bootWorld environment) requests).state
        (run (bootWorld environment) requests).events ∧
      ∀ request, Served (run (bootWorld environment) requests) request
          (serve request (run (bootWorld environment) requests)).1
          (serve request (run (bootWorld environment) requests)).2 ∧
        (∀ handle : OpenFileHandle, request.fileHandle = some handle →
          handle.Retired (run (bootWorld environment) requests).state →
          ∃ status, serve request (run (bootWorld environment) requests) =
            (.error status, run (bootWorld environment) requests)) ∧
        ∀ handle : MountHandle, request = .unmount handle →
          handle.Retired (run (bootWorld environment) requests).state →
          ∃ status, serve request (run (bootWorld environment) requests) =
            (.error status, run (bootWorld environment) requests) := by
  have hinvariant := run_tableInvariant environment requests
  refine ⟨hinvariant, fun request => ⟨serve_served hinvariant request,
    fun handle hrequest hretired => serve_refused hrequest hretired, ?_⟩⟩
  rintro _ rfl hretired
  exact serve_unmount_refused hretired

end Kurogane.Vfs
