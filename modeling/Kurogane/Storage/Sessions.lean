/-
# Sessions with a cached store

A store takes its changes in order but keeps them in a cache until it is synchronised.
What a crash leaves is one of the stores since the last synchronisation. A session asks
the store for effects, each of which passes through a list of stores; the environment may
refuse an effect, cut it short or crash.

The precondition `wp` is a rule for each kind of request. It asks that every store on the
way is safe, so that a crash leaves a safe store wherever it comes.
-/

import Mathlib.Data.List.Basic

namespace Kurogane.Storage

open List

variable {S R α β : Type}

/-- The current store, and the older ones that a crash may still bring back. -/
structure Cached (S : Type) where
  current : S
  older : List S := []

variable {stores : List S} {post : α → S → Bool → Prop} {cached : Cached S} {store : S}

namespace Cached

variable (cached : Cached S)

def survivors : List S := cached.current :: cached.older

def pass (stores : List S) : Cached S :=
  stores.foldl (fun earlier store => ⟨store, earlier.survivors⟩) cached

def sync : Cached S := ⟨cached.current, []⟩

/-- The environment chooses the store that survives. -/
def crash (choice : ℕ) : Cached S := ⟨cached.survivors.getD choice cached.current, []⟩

variable {cached}

theorem mem_survivors_pass
    (h : store ∈ (cached.pass stores).survivors) : store ∈ cached.survivors ∨ store ∈ stores := by
  induction stores generalizing cached with
  | nil => exact .inl h
  | cons _ _ ih =>
    rcases ih h with hpassed | hlater
    · rcases mem_cons.mp hpassed with rfl | hearlier
      · exact .inr mem_cons_self
      · exact .inl hearlier
    · exact .inr (mem_cons_of_mem _ hlater)

theorem current_pass (stores : List S) :
    (cached.pass stores).current = stores.getLastD cached.current := by
  induction stores generalizing cached with
  | nil => rfl
  | cons _ _ ih => rw [getLastD_cons]; exact ih

theorem mem_survivors_crash {choice : ℕ}
    (h : store ∈ (cached.crash choice).survivors) : store ∈ cached.survivors := by
  obtain rfl : store = cached.survivors.getD choice cached.current := mem_singleton.mp h
  rw [getD_eq_getElem?_getD]
  cases hchoice : cached.survivors[choice]? with
  | none => exact mem_cons_self
  | some => exact mem_of_getElem? hchoice

end Cached

/-- A program over a store. An effect gives an answer and the stores it passes through. -/
inductive Session (S R α : Type) : Type
  | done (value : α)
  | call (effect : S → R × List S) (next : R → Session S R α)
  | sync (next : Bool → Session S R α)

/-- What the environment does to a request. -/
inductive Fate
  | performed
  | cut (count : ℕ)
  | crash (choice : ℕ)

namespace Session

def bind : Session S R α → (α → Session S R β) → Session S R β
  | done value, continuation => continuation value
  | call effect next, continuation => call effect fun answer => (next answer).bind continuation
  | sync next, continuation => sync fun success => (next success).bind continuation

instance : Monad (Session S R) where
  pure := done
  bind := bind

/-- Run a session under a schedule; when it has been used up, everything is performed. An
effect that is cut short answers `failure` and does not reach its last store. -/
def run (failure : R) : Session S R α → List Fate → Cached S → Option α × Cached S
  | done value, _, cached => (some value, cached)
  | call effect next, fates, cached =>
    match fates.headD .performed with
    | .performed =>
      (next (effect cached.current).1).run failure fates.tail
        (cached.pass (effect cached.current).2)
    | .cut count =>
      (next failure).run failure fates.tail
        (cached.pass ((effect cached.current).2.dropLast.take count))
    | .crash choice => (none, cached.crash choice)
  | sync next, fates, cached =>
    match fates.headD .performed with
    | .performed => (next true).run failure fates.tail cached.sync
    | .cut _ => (next false).run failure fates.tail cached
    | .crash choice => (none, cached.crash choice)

/-- The session ends in `post` and passes only through safe stores. The flag says that the
current store is the only one that can survive. -/
def wp (failure : R) (safe : S → Prop) :
    Session S R α → (α → S → Bool → Prop) → S → Bool → Prop
  | done value, post, store, clean => post value store clean
  | call effect next, post, store, clean =>
    (∀ passed ∈ (effect store).2, safe passed) ∧
    (next (effect store).1).wp failure safe post ((effect store).2.getLastD store)
      (clean && (effect store).2.isEmpty) ∧
    ∀ count, (next failure).wp failure safe post
      (((effect store).2.dropLast.take count).getLastD store)
      (clean && ((effect store).2.dropLast.take count).isEmpty)
  | sync next, post, store, clean =>
    (next true).wp failure safe post store true ∧ (next false).wp failure safe post store clean

variable {failure : R} {safe : S → Prop} {store : S} {clean : Bool}

@[simp]
theorem wp_bind (session : Session S R α) (continuation : α → Session S R β)
    (post : β → S → Bool → Prop) :
    (session >>= continuation).wp failure safe post store clean =
      session.wp failure safe (fun value => (continuation value).wp failure safe post)
        store clean := by
  change (session.bind continuation).wp failure safe post store clean = _
  induction session generalizing store clean with
  | done => rfl
  | call _ _ ih => simp only [bind, wp, ih]
  | sync _ ih => simp only [bind, wp, ih]

theorem wp.mono {session : Session S R α} {weaker : α → S → Bool → Prop}
    (h : session.wp failure safe post store clean)
    (hpost : ∀ value last flag, post value last flag → weaker value last flag) :
    session.wp failure safe weaker store clean := by
  induction session generalizing store clean with
  | done => exact hpost _ _ _ h
  | call _ _ ih => exact ⟨h.1, ih _ h.2.1, fun count => ih _ (h.2.2 count)⟩
  | sync _ ih => exact ⟨ih _ h.1, ih _ h.2⟩

/-- The stores that can survive are safe, and there is only one if the flag says so. -/
structure Guarded (safe : S → Prop) (cached : Cached S) (clean : Bool) : Prop where
  safe : ∀ store ∈ cached.survivors, safe store
  clean : clean = true → cached.older = []

theorem Guarded.pass (h : Guarded safe cached clean) (hstores : ∀ store ∈ stores, safe store) :
    Guarded safe (cached.pass stores) (clean && stores.isEmpty) where
  safe store hstore := by
    rcases Cached.mem_survivors_pass hstore with hearlier | hpassed
    · exact h.safe store hearlier
    · exact hstores store hpassed
  clean hflag := by
    obtain ⟨hclean, hempty⟩ := Bool.and_eq_true_iff.mp hflag
    rw [isEmpty_iff.mp hempty]
    exact h.clean hclean

theorem Guarded.sync (h : Guarded safe cached clean) : Guarded safe cached.sync true where
  safe store hstore := by
    obtain rfl : store = cached.current := mem_singleton.mp hstore
    exact h.safe _ mem_cons_self
  clean _ := rfl

theorem Guarded.crash (h : Guarded safe cached clean) (choice : ℕ) :
    Guarded safe (cached.crash choice) true where
  safe store hstore := h.safe store (Cached.mem_survivors_crash hstore)
  clean _ := rfl

/-- A session that meets `wp` leaves a safe store at a crash and ends in its
postcondition otherwise, under every schedule. -/
theorem wp.run {session : Session S R α} (h : session.wp failure safe post cached.current clean)
    (hguarded : Guarded safe cached clean) (fates : List Fate) :
    ∃ flag, Guarded safe (session.run failure fates cached).2 flag ∧
      ∀ value, (session.run failure fates cached).1 = some value →
        post value (session.run failure fates cached).2.current flag := by
  induction session generalizing cached clean fates with
  | done value =>
    refine ⟨clean, hguarded, fun result hres => ?_⟩
    obtain rfl : value = result := Option.some.inj hres
    exact h
  | call _ _ ih =>
    rw [Session.run]
    cases fates.headD .performed with
    | performed =>
      refine ih _ ?_ (hguarded.pass h.1) _
      rw [Cached.current_pass]
      exact h.2.1
    | cut count =>
      refine ih _ ?_ (hguarded.pass fun store hstore => h.1 store
        (dropLast_subset _ (mem_of_mem_take hstore))) _
      rw [Cached.current_pass]
      exact h.2.2 count
    | crash choice => exact ⟨true, hguarded.crash choice, by rintro value ⟨⟩⟩
  | sync next ih =>
    rw [Session.run]
    cases fates.headD .performed with
    | performed =>
      have hsynced : (next true).wp failure safe post cached.sync.current true := h.1
      exact ih true hsynced hguarded.sync _
    | cut => exact ih _ h.2 hguarded _
    | crash choice => exact ⟨true, hguarded.crash choice, by rintro _ ⟨⟩⟩

end Session

end Kurogane.Storage
