/-
# The log of page-table operations

Everything the module does to page tables and through its backend is in the log:
the words and the tables handed out can be recomputed from it. A call is safe if
it frees a table only while it is handed out, and only when the table has been
detached and then the page of the call invalidated, or was never attached at all.
-/

import Kurogane.Memory.PageWalk

namespace Kurogane.Memory

open Math List Set

/-- The state in which the module got the tables: their words, and the pages in use. -/
structure Origin where
  words : Word → Fin 512 → Word
  owned : Set Word

/-- A call that is under way: its page, and the log as the call found it. -/
structure Call where
  page : Word
  past : List Event

variable {σ : Type} {space : AddressSpace σ} {owned : σ → Set Word} {machine : Machine σ}
  {origin : Origin} {call : Call}

def replay (words : Word → Fin 512 → Word) : List Event → Word → Fin 512 → Word
  | [] => words
  | .stored table index value :: earlier => setEntry (replay words earlier) table index value
  | .cleared table :: earlier => Function.update (replay words earlier) table fun _ => 0#64
  | _ :: earlier => replay words earlier

/-- The tables that were handed out and not freed since. -/
def outstanding : List Event → Set Word
  | [] => ∅
  | .allocated table :: earlier => insert table (outstanding earlier)
  | .freed table :: earlier => outstanding earlier \ {table}
  | _ :: earlier => outstanding earlier

section

variable (space : AddressSpace σ) (words : Word → Fin 512 → Word)

/-- The page tables that are in use in some state of memory. -/
def AddressSpace.Attached (table : Word) : Prop :=
  Reaches (childOf space.physicalAddressMask) words space.rootTablePhysical 3 table

/-- The latest events are frees that follow an invalidation of the page, and the table was
detached at that time. -/
def DetachedAndInvalidated (page table : Word) (earlier : List Event) : Prop :=
  ∃ frees before, earlier = frees ++ .invalidated page :: before ∧
    (∀ event ∈ frees, ∃ other, event = .freed other) ∧ ¬ space.Attached (replay words before) table

/-- When a table may be freed. A table that was handed out but is not usable goes back
at once. -/
def FreeAllowed (page table : Word) (earlier : List Event) : Prop :=
  table ∈ outstanding earlier ∧
    ((∃ before, earlier = .allocated table :: before) ∨
      DetachedAndInvalidated space words page table earlier)

/-- Every table that was freed since the call began was freed when it could be. -/
inductive SafeSince (call : Call) : List Event → Prop
  | start : SafeSince call call.past
  | step {event : Event} {earlier : List Event} (hsafe : SafeSince call earlier)
      (hfreed : ∀ table, event = .freed table → FreeAllowed space words call.page table earlier) :
      SafeSince call (event :: earlier)

end

/-- The log explains the machine in the middle of a call. -/
structure Machine.Traced (space : AddressSpace σ) (owned : σ → Set Word) (origin : Origin)
    (call : Call) (machine : Machine σ) : Prop where
  words : machine.words = replay origin.words machine.events
  owned : owned machine.context = origin.owned ∪ outstanding machine.events
  apart : ∀ table ∈ outstanding machine.events, table ∉ origin.owned
  pages : ∀ table ∈ outstanding machine.events, table ∈ space.backend.pages
  safe : SafeSince space origin.words call machine.events

variable {table : Word}

namespace Machine.Traced

section

variable (h : machine.Traced space owned origin call)
include h

theorem restart (page : Word) :
    machine.Traced space owned origin ⟨page, machine.events⟩ :=
  { h with safe := .start }

theorem same {machine' : Machine σ} (hsame : machine.Same owned machine') :
    machine'.Traced space owned origin call where
  words := by rw [hsame.words, hsame.events, h.words]
  owned := by rw [hsame.owned, hsame.events, h.owned]
  apart := by
    rw [hsame.events]
    exact h.apart
  pages := by
    rw [hsame.events]
    exact h.pages
  safe := by
    rw [hsame.events]
    exact h.safe

theorem storeEntry (table : Word) (index : Fin 512) (value : Word) :
    (machine.storeEntry table index value).Traced space owned origin call :=
  { h with
    words := by rw [Machine.storeEntry, replay, ← h.words]
    safe := .step h.safe nofun }

theorem clearTable (table : Word) :
    (machine.clearTable table).Traced space owned origin call :=
  { h with
    words := by rw [Machine.clearTable, replay, ← h.words]
    safe := .step h.safe nofun }

end

section Lawful

variable (hlaw : space.backend.Lawful owned)
include hlaw

section

variable (h : machine.Traced space owned origin call)
include h

theorem invalidatePage (page : Word) :
    (machine.invalidatePage space.backend page).Traced space owned origin call :=
  { h with
    owned := (hlaw.invalidated _ _).trans h.owned
    safe := .step h.safe nofun }

theorem allocated {context : σ}
    (heq : space.backend.allocateTable machine.context = (some table, context)) :
    Machine.Traced space owned origin call
      { machine with context, events := .allocated table :: machine.events } where
  words := h.words
  owned := by
    change owned context = _
    rw [(hlaw.allocated _ _ _ heq).2, h.owned, outstanding, union_insert]
  apart := by
    rintro other (rfl | hother) hinitial
    · refine (hlaw.allocated _ _ _ heq).1 ?_
      rw [h.owned]
      exact .inl hinitial
    · exact h.apart other hother hinitial
  pages := by
    rintro other (rfl | hother)
    · exact ⟨_, _, heq⟩
    · exact h.pages other hother
  safe := .step h.safe nofun

theorem freeTable (hallowed : FreeAllowed space origin.words call.page table machine.events) :
    (machine.freeTable space.backend table).Traced space owned origin call where
  words := h.words
  owned := by
    have hapart := h.apart table hallowed.1
    rw [Machine.freeTable, hlaw.freed _ _ (h.pages table hallowed.1), h.owned, outstanding,
      union_sdiff_distrib,
      sdiff_singleton_eq_self hapart]
  apart := fun other hother => h.apart other hother.1
  pages := fun other hother => h.pages other hother.1
  safe := .step h.safe fun _ heq => by
    cases heq
    exact hallowed

end

end Lawful

end Machine.Traced

theorem Machine.Traced.of_no_events (hevs : machine.events = []) (page : Word) :
    machine.Traced space owned ⟨machine.words, owned machine.context⟩ ⟨page, machine.events⟩ := by
  refine ⟨?_, ?_, ?_, ?_, .start⟩
  · rw [hevs]
    rfl
  · rw [hevs, outstanding, union_empty]
  · rw [hevs]
    exact nofun
  · rw [hevs]
    exact nofun

theorem freeTables_traced (hlaw : space.backend.Lawful owned) (tables : List Word)
    (hnodup : tables.Nodup) {frees before : List Event}
    (h : machine.Traced space owned origin call)
    (hout : ∀ table ∈ tables, table ∈ outstanding machine.events)
    (hevs : machine.events = frees ++ .invalidated call.page :: before)
    (hfrees : ∀ event ∈ frees, ∃ other, event = .freed other)
    (hdetached : ∀ table ∈ tables, ¬ space.Attached (replay origin.words before) table) :
    (tables.foldl (fun machine table => machine.freeTable space.backend table) machine).Traced
        space owned origin call ∧
      (tables.foldl (fun machine table => machine.freeTable space.backend table) machine).words =
        machine.words ∧
      outstanding
        (tables.foldl (fun machine table => machine.freeTable space.backend table) machine).events =
        {table ∈ outstanding machine.events | table ∉ tables} := by
  induction tables generalizing machine frees with
  | nil => simpa using h
  | cons table _ ih =>
    obtain ⟨hnot, hnodup⟩ := nodup_cons.mp hnodup
    have hallowed : FreeAllowed space origin.words call.page table machine.events :=
      ⟨hout table mem_cons_self, .inr ⟨frees, before, hevs, hfrees,
        hdetached table mem_cons_self⟩⟩
    have hevs' : (machine.freeTable space.backend table).events =
        (.freed table :: frees) ++ .invalidated call.page :: before := by
      rw [Machine.freeTable, hevs]
      rfl
    have hfrees' : ∀ event ∈ Event.freed table :: frees, ∃ other, event = .freed other := by
      intro event hevent
      rcases mem_cons.mp hevent with rfl | hevent
      · exact ⟨table, rfl⟩
      · exact hfrees event hevent
    obtain ⟨htraced, hwords, houtstanding⟩ := ih hnodup (h.freeTable hlaw hallowed)
      (fun other hother => ⟨hout other (mem_cons_of_mem _ hother),
        fun heq => hnot (heq ▸ hother)⟩) hevs' hfrees'
      (fun other hother => hdetached other (mem_cons_of_mem _ hother))
    refine ⟨htraced, hwords, ?_⟩
    rw [foldl_cons, houtstanding]
    ext other
    simp only [Machine.freeTable, outstanding, mem_sdiff, mem_singleton_iff,
      mem_ofPred_eq, mem_cons, not_or]
    constructor
    · rintro ⟨⟨hmem, hne⟩, hother⟩
      exact ⟨hmem, hne, hother⟩
    · rintro ⟨hmem, hne, hother⟩
      exact ⟨⟨hmem, hne⟩, hother⟩

end Kurogane.Memory
