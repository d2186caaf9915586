/-
# Walking page tables

`walk` is the walk of `walk_to_leaf` over the words alone; the module performs it
unless the backend refuses a pointer on the way. A walk is not affected by
tables it does not read, nor by an empty table that appears or disappears below
an entry it reads.
-/

import Kurogane.Memory.PageEntries

namespace Kurogane.Memory

open Math List

variable {σ : Type} {space : AddressSpace σ} {mask page : Word}
  {words words' : Word → Fin 512 → Word}

/-! ## The walk -/

/-- Why an entry does not lead to a table. -/
def entryFault (level : ℕ) (value : Word) : PageStatus :=
  if value &&& entryPresent = 0#64 then .notMapped
  else if value &&& entryHugeOrPat ≠ 0#64 then
    if level = 0 then .corruptPageTable else .hugePageConflict
  else .corruptPageTable

def walkLeaf (mask leaf : Word) (tables : List Word) (access : Access) :
    Except PageStatus WalkPath :=
  if leaf &&& entryPresent = 0#64 then .error .notMapped
  else if leaf &&& (architecturalAddressMask &&& ~~~mask) ≠ 0#64 then .error .corruptPageTable
  else .ok ⟨tables, leaf, access.restrict leaf⟩

def walk (mask : Word) (words : Word → Fin 512 → Word) (page : Word) :
    List ℕ → List Word → Word → Access → Except PageStatus WalkPath
  | [], above, table, access =>
    walkLeaf mask (words table (tableIndex page 3)) (table :: above) access
  | level :: levels, above, table, access =>
    match childOf mask (words table (tableIndex page level)) with
    | some next =>
      walk mask words page levels (table :: above) next
        (access.restrict (words table (tableIndex page level)))
    | none => .error (entryFault level (words table (tableIndex page level)))

/-- What a query of an address answers if the backend grants all accesses. -/
def translation (space : AddressSpace σ) (words : Word → Fin 512 → Word) (address : Word) :
    Except PageStatus Mapping :=
  if !canonicalAddress address then .error .nonCanonicalAddress
  else (walk space.physicalAddressMask words address [0, 1, 2] [] space.rootTablePhysical
    ⟨true, true, false⟩).map (mappingFromPath space address)

/-! ## The backend -/

def Backend.pages (backend : Backend σ) : Set Word :=
  {table | ∃ context context', backend.allocateTable context = (some table, context')}

/-- A backend hands out pages it does not yet count as owned, and owns what it has handed out
until it is freed. Any callback may fail at any time. -/
structure Backend.Lawful (backend : Backend σ) (owned : σ → Set Word) : Prop where
  allocated : ∀ context table context', backend.allocateTable context = (some table, context') →
    table ∉ owned context ∧ owned context' = insert table (owned context)
  refused : ∀ context context', backend.allocateTable context = (none, context') →
    owned context' = owned context
  freed : ∀ context, ∀ table ∈ backend.pages,
    owned (backend.freeTable context table) = owned context \ {table}
  accessed : ∀ context page, owned (backend.physicalToVirtual context page).2 = owned context
  invalidated : ∀ context page, owned (backend.invalidatePage context page) = owned context

/-- Nothing has changed but the context of the backend, which owns the same pages. -/
structure Machine.Same (owned : σ → Set Word) (machine machine' : Machine σ) : Prop where
  words : machine'.words = machine.words
  events : machine'.events = machine.events
  owned : owned machine'.context = owned machine.context

variable {owned : σ → Set Word} {machine machine' machine'' : Machine σ}

@[refl]
theorem Machine.Same.refl (machine : Machine σ) : machine.Same owned machine := ⟨rfl, rfl, rfl⟩

theorem Machine.Same.trans (h : machine.Same owned machine')
    (h' : machine'.Same owned machine'') : machine.Same owned machine'' :=
  ⟨h'.words.trans h.words, h'.events.trans h.events, h'.owned.trans h.owned⟩

/-- A call answers `value` and changes nothing, or the backend refuses. -/
structure Answers {α : Type} (owned : σ → Set Word) (machine : Machine σ)
    (result : Except PageStatus α × Machine σ) (value : Except PageStatus α) : Prop where
  answer : result.1 = .error .backendFailure ∨ result.1 = value
  same : machine.Same owned result.2

section Lawful

variable (hspace : space.Valid) (hlaw : space.backend.Lawful owned)
include hspace hlaw

theorem tableForPhysical_cases {physical : Word} (hphys : Within physical space.physicalAddressMask)
    (machine : Machine σ) :
    ((tableForPhysical space physical machine).1 = .ok ∨
        (tableForPhysical space physical machine).1 = .backendFailure) ∧
      machine.Same owned (tableForPhysical space physical machine).2 := by
  have hvalid := (validatePhysicalPage_eq_ok_iff hspace).mpr hphys
  have hsame : machine.Same owned (machine.access space.backend physical).2 :=
    ⟨rfl, rfl, hlaw.accessed _ _⟩
  rw [tableForPhysical, if_neg (not_not.mpr hvalid)]
  split
  · next next' heq =>
    rw [heq] at hsame
    exact ⟨.inl rfl, hsame⟩
  · next next' heq =>
    rw [heq] at hsame
    exact ⟨.inr rfl, hsame⟩

/-- The child of an entry is what `childOf` says, or the backend refuses. -/
theorem childTableFromEntry_cases {entry : Word} (hpres : entry &&& entryPresent ≠ 0#64)
    (hhuge : entry &&& entryHugeOrPat = 0#64) (machine : Machine σ) :
    Answers owned machine (childTableFromEntry space entry machine)
      (match childOf space.physicalAddressMask entry with
        | some next => .ok next
        | none => .error .corruptPageTable) := by
  rw [childTableFromEntry, childOf]
  split
  · next hexcess =>
    rw [if_neg fun hand => hexcess hand.2.2]
    exact ⟨.inr rfl, .refl _⟩
  next hexcess =>
  rw [if_pos ⟨hpres, hhuge, not_not.mp hexcess⟩]
  obtain ⟨hstat, hsame⟩ := tableForPhysical_cases hspace hlaw
    (within_and entry space.physicalAddressMask) machine
  generalize tableForPhysical space (entry &&& space.physicalAddressMask) machine = result
    at hstat hsame
  obtain ⟨_, _⟩ := result
  rcases hstat with rfl | rfl
  · exact ⟨.inr rfl, hsame⟩
  · exact ⟨.inl rfl, hsame⟩

theorem walkFrom_cases (page : Word) (levels : List ℕ) (above : List Word) (table : Word)
    (access : Access) (machine : Machine σ) :
    Answers owned machine (walkFrom space page levels above table access machine)
      (walk space.physicalAddressMask machine.words page levels above table access) := by
  induction levels generalizing above table access machine with
  | nil =>
    rw [walkFrom, walk, walkLeaf]
    split
    · exact ⟨.inr rfl, .refl _⟩
    split
    · exact ⟨.inr rfl, .refl _⟩
    · exact ⟨.inr rfl, .refl _⟩
  | cons level _ ih =>
    rw [walkFrom, walk]
    generalize machine.words table (tableIndex page level) = value
    split
    · next habsent =>
      rw [childOf, if_neg fun hand => hand.1 habsent, entryFault, if_pos habsent]
      exact ⟨.inr rfl, .refl _⟩
    next hpres =>
    split
    · next hhuge =>
      have hnone : childOf space.physicalAddressMask value = none :=
        if_neg fun hand => hhuge hand.2.1
      rw [hnone, entryFault, if_neg hpres, if_pos hhuge]
      exact ⟨.inr rfl, .refl _⟩
    next hhuge =>
    obtain ⟨hchild, hsame⟩ := childTableFromEntry_cases hspace hlaw hpres (not_not.mp hhuge) machine
    generalize childTableFromEntry space value machine = result at hchild hsame
    obtain ⟨result, next⟩ := result
    rcases hchild with rfl | hchild
    · exact ⟨.inl rfl, hsame⟩
    cases hof : childOf space.physicalAddressMask value with
    | none =>
      rw [hof] at hchild
      subst hchild
      rw [entryFault, if_neg hpres, if_neg hhuge]
      exact ⟨.inr rfl, hsame⟩
    | some child =>
      rw [hof] at hchild
      subst hchild
      have hnext := ih (table :: above) child (access.restrict value) next
      rw [hsame.words] at hnext
      exact ⟨hnext.1, hsame.trans hnext.2⟩

theorem walkToLeaf_cases (page : Word) (machine : Machine σ) :
    Answers owned machine (walkToLeaf space page machine) (walk space.physicalAddressMask
      machine.words page [0, 1, 2] [] space.rootTablePhysical ⟨true, true, false⟩) := by
  obtain ⟨hstat, hsame⟩ := tableForPhysical_cases hspace hlaw hspace.root machine
  rw [walkToLeaf]
  generalize tableForPhysical space space.rootTablePhysical machine = result at hstat hsame
  obtain ⟨_, next⟩ := result
  rcases hstat with rfl | rfl
  · have hwalk := walkFrom_cases hspace hlaw page [0, 1, 2] []
      space.rootTablePhysical ⟨true, true, false⟩ next
    rw [hsame.words] at hwalk
    exact ⟨hwalk.1, hsame.trans hwalk.2⟩
  · exact ⟨.inl rfl, hsame⟩

/-- A query answers the translation and changes nothing, or the backend refuses. -/
theorem queryPage_cases (address : Word) (machine : Machine σ) :
    Answers owned machine (queryPage space address machine)
      (translation space machine.words address) := by
  rw [queryPage, translation, hspace.initialized]
  rw [if_neg (by simp)]
  split
  · exact ⟨.inr rfl, .refl _⟩
  obtain ⟨hwalk, hsame⟩ := walkToLeaf_cases hspace hlaw address machine
  generalize walkToLeaf space address machine = result at hwalk hsame
  obtain ⟨result, _⟩ := result
  rcases hwalk with rfl | rfl
  · exact ⟨.inl rfl, hsame⟩
  cases walk space.physicalAddressMask machine.words address [0, 1, 2] []
    space.rootTablePhysical ⟨true, true, false⟩ with
  | error => exact ⟨.inr rfl, hsame⟩
  | ok => exact ⟨.inr rfl, hsame⟩

end Lawful

variable {levels : List ℕ} {above : List Word} {access : Access}

/-! ## What a walk depends on -/

variable {table : Word}

/-- A walk reads the same result if the entries on its path are the same. -/
theorem walk_congr (hsame : ∀ initial index,
      initial ++ [index] <+: levels.map (tableIndex page) ++ [tableIndex page 3] →
        initial.length ≤ levels.length → ∀ middle,
          resolve (childOf mask) words table initial = some middle →
            words' middle index = words middle index) :
    walk mask words' page levels above table access =
      walk mask words page levels above table access := by
  induction levels generalizing above table access with
  | nil =>
    rw [walk, walk, hsame [] _ prefix_rfl le_rfl table rfl]
  | cons level _ ih =>
    have hfirst : words' table (tableIndex page level) = words table (tableIndex page level) :=
      hsame [] _ (prefix_append [tableIndex page level] _) (Nat.zero_le _) table rfl
    rw [walk, walk, hfirst]
    cases hchild : childOf mask (words table (tableIndex page level)) with
    | none => rfl
    | some =>
      refine ih fun initial index hinitial hlen middle hmid => ?_
      refine hsame (tableIndex page level :: initial) index ?_ (Nat.succ_le_succ hlen) middle ?_
      · exact (prefix_append_right_inj [tableIndex page level]).mpr hinitial
      · rw [resolve, hchild, Option.bind_some]
        exact hmid

theorem walk_through {levels levels' : List ℕ} {node : Word} {status : PageStatus}
    (hresolve : resolve (childOf mask) words table (levels.map (tableIndex page)) = some node)
    (hwalk : ∀ above access, walk mask words page levels' above node access = .error status) :
    walk mask words page (levels ++ levels') above table access = .error status := by
  induction levels generalizing above table access with
  | nil =>
    cases Option.some.inj hresolve
    exact hwalk above access
  | cons _ _ ih =>
    obtain ⟨_, hchild, hnext⟩ := Option.bind_eq_some_iff.mp hresolve
    rw [cons_append, walk, hchild]
    exact ih hnext

theorem walk_zero {level : ℕ} (hzero : words table (tableIndex page level) = 0#64) :
    walk mask words page (level :: levels) above table access = .error .notMapped := by
  rw [walk, hzero, childOf_zero]
  rfl

theorem walk_empty (hempty : ∀ index, words table index = 0#64) :
    walk mask words page levels above table access = .error .notMapped := by
  cases levels with
  | nil =>
    rw [walk, hempty]
    rfl
  | cons => exact walk_zero (hempty _)

/-! ## Parts of a walk -/

/-- A walk on its way: the tables it has passed, the table it has reached, and the
permissions so far. -/
structure WalkState where
  above : List Word
  table : Word
  access : Access

def advance (mask : Word) (words : Word → Fin 512 → Word) (page : Word) :
    List ℕ → WalkState → Option WalkState
  | [], state => some state
  | level :: levels, state =>
    let value := words state.table (tableIndex page level)
    match childOf mask value with
    | some next =>
      advance mask words page levels
        ⟨state.table :: state.above, next, state.access.restrict value⟩
    | none => none

variable {state state' : WalkState}

theorem advance_append (levels levels' : List ℕ) :
    advance mask words page (levels ++ levels') state =
      (advance mask words page levels state).bind (advance mask words page levels') := by
  induction levels generalizing state with
  | nil => rfl
  | cons level _ ih =>
    rw [cons_append, advance, advance]
    cases childOf mask (words state.table (tableIndex page level)) with
    | none => rfl
    | some => exact ih

theorem resolve_of_advance (h : advance mask words page levels state = some state') :
    resolve (childOf mask) words state.table (levels.map (tableIndex page)) =
      some state'.table := by
  induction levels generalizing state with
  | nil =>
    cases h
    rfl
  | cons level _ ih =>
    rw [advance] at h
    split at h
    next hchild =>
      rw [map_cons, resolve, hchild]
      exact ih h
    cases h

theorem walk_of_advance (levels' : List ℕ)
    (h : advance mask words page levels state = some state') :
    walk mask words page (levels ++ levels') state.above state.table state.access =
      walk mask words page levels' state'.above state'.table state'.access := by
  induction levels generalizing state with
  | nil =>
    cases h
    rfl
  | cons level _ ih =>
    rw [advance] at h
    split at h
    next hchild =>
      rw [cons_append, walk, hchild]
      exact ih h
    cases h

theorem advance_congr
    (hsame : ∀ initial index, initial ++ [index] <+: levels.map (tableIndex page) →
      initial.length < levels.length → ∀ middle,
        resolve (childOf mask) words state.table initial = some middle →
          words' middle index = words middle index) :
    advance mask words' page levels state = advance mask words page levels state := by
  induction levels generalizing state with
  | nil => rfl
  | cons level _ ih =>
    have hfirst : words' state.table (tableIndex page level) =
        words state.table (tableIndex page level) :=
      hsame [] _ (prefix_append [tableIndex page level] _) (Nat.succ_pos _) state.table rfl
    rw [advance, advance, hfirst]
    cases hchild : childOf mask (words state.table (tableIndex page level)) with
    | none => rfl
    | some =>
      refine ih fun initial index hinitial hlen middle hmid => ?_
      refine hsame (tableIndex page level :: initial) index ?_ (Nat.succ_le_succ hlen) middle ?_
      · exact (prefix_append_right_inj [tableIndex page level]).mpr hinitial
      · rw [resolve, hchild, Option.bind_some]
        exact hmid

theorem length_above_of_advance (h : advance mask words page levels state = some state') :
    state'.above.length = state.above.length + levels.length := by
  induction levels generalizing state with
  | nil =>
    cases h
    rfl
  | cons level _ ih =>
    rw [advance] at h
    split at h
    · rw [ih h, length_cons, length_cons]
      omega
    cases h

theorem exists_advance_of_walk {path : WalkPath}
    (h : walk mask words page levels state.above state.table state.access = .ok path) :
    ∃ state', advance mask words page levels state = some state' ∧
      path = ⟨state'.table :: state'.above, words state'.table (tableIndex page 3),
        state'.access.restrict (words state'.table (tableIndex page 3))⟩ ∧
      words state'.table (tableIndex page 3) &&& entryPresent ≠ 0#64 := by
  induction levels generalizing state with
  | nil =>
    rw [walk, walkLeaf] at h
    split at h
    · cases h
    next hpres =>
    split at h
    · cases h
    · cases h
      exact ⟨state, rfl, rfl, hpres⟩
  | cons level _ ih =>
    rw [walk] at h
    split at h
    next next hchild =>
      rw [advance, hchild]
      exact @ih ⟨state.table :: state.above, next,
        state.access.restrict (words state.table (tableIndex page level))⟩ h
    cases h

end Kurogane.Memory
