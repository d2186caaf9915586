/-
# Routes

`route_path` over every mount table that the calls can build. A canonical path goes to
the nearest mount above it and to what is left of the path there, and both together give
the path back.
-/

import Kurogane.Vfs.Contexts
import Kurogane.Vfs.TableRuns

namespace Kurogane.Vfs

open Math List

variable {ε : Type} {state : State ε} {components front below : List Component}

/-- An active mount, and the components of its path. -/
structure Mount.At (mount : Mount ε) (front : List Component) : Prop where
  active : mount.active = true
  canonical : IsCanonical front
  path_eq : mount.path = joinPath separator front

/-- Of the mounts above the path, all are above the one in the slot. -/
structure State.Nearest (state : State ε) (components : List Component) (slot : ℕ)
    (front : List Component) : Prop where
  bound : slot < maxMounts
  mounted : (state.mounts slot).At front
  above : front <+: components
  nearest : ∀ other < maxMounts, ∀ others, (state.mounts other).At others →
    others <+: components → others <+: front

theorem joinPath_injective (hcanon : IsCanonical components) (hfront : IsCanonical front)
    (h : joinPath separator components = joinPath separator front) : components = front := by
  rw [← splitPath_joinPath hcanon.isComponent, h, splitPath_joinPath hfront.isComponent]

theorem IsCanonical.of_append (h : IsCanonical (front ++ below)) : IsCanonical below := by
  have hmem : ∀ component ∈ below, component ∈ front ++ below := fun component hmem =>
    mem_append_right _ hmem
  refine ⟨fun component h' => h.valid component (hmem component h'),
    fun component h' => h.separated component (hmem component h'),
    fun component h' => h.unterminated component (hmem component h'), ?_, ?_⟩
  · have hdepth := h.depth_le
    rw [length_append] at hdepth
    omega
  have hlen := h.length_le
  by_cases hfront : front = []
  · rwa [hfront, nil_append] at hlen
  by_cases hbelow : below = []
  · rw [hbelow, joinPath_nil]
    decide
  rw [joinPath_append hfront hbelow, length_append] at hlen
  omega

theorem length_joinPath_lt (hcanon : IsCanonical (front ++ below)) (hbelow : below ≠ []) :
    (joinPath separator front).length < (joinPath separator (front ++ below)).length := by
  have hpos : ∀ components, 0 < (joinPath separator components).length := fun _ =>
    Nat.zero_lt_succ _
  by_cases hnil : front = []
  · have hlong := (length_joinPath_nil_iff hcanon.isComponent).not.mpr (by simp [hbelow])
    have := hpos (front ++ below)
    rw [hnil, joinPath_nil, length_singleton, ← hnil]
    omega
  · rw [joinPath_append hnil hbelow, length_append]
    have := hpos below
    omega

/-- What `route_path` leaves of a path below a mount. -/
theorem backendPath_eq (hfront : IsCanonical front) (hcanon : IsCanonical (front ++ below)) :
    (if (joinPath separator (front ++ below)).length = (joinPath separator front).length then
        [separator]
      else if (joinPath separator front).length = 1 then joinPath separator (front ++ below)
      else (joinPath separator (front ++ below)).drop (joinPath separator front).length) =
      joinPath separator below := by
  have hroot := length_joinPath_nil_iff hfront.isComponent
  by_cases hbelow : below = []
  · rw [hbelow, append_nil, if_pos rfl, joinPath_nil]
  rw [if_neg (length_joinPath_lt hcanon hbelow).ne']
  by_cases hnil : front = []
  · rw [if_pos (hroot.mpr hnil), hnil, nil_append]
  · rw [if_neg (hroot.not.mpr hnil), joinPath_append hnil hbelow, drop_left]

variable {events : List BackendEvent}

theorem State.Nearest.slot_eq (hinv : TableInvariant state events)
    {slot other : ℕ} {others : List Component} (h : state.Nearest components slot front)
    (h' : state.Nearest components other others) : other = slot := by
  have hsame : others = front := (h.nearest _ h'.bound _ h'.mounted h'.above).eq_of_length_le
    (h'.nearest _ h.bound _ h.mounted h.above).length_le
  refine hinv.distinct _ _ h'.bound h.bound h'.mounted.active h.mounted.active ?_
  rw [h'.mounted.path_eq, h.mounted.path_eq, hsame]

theorem routePath_nearest (hinv : TableInvariant state events)
    (hinit : state.initialized = true) (hcanon : IsCanonical components) :
    ∃ slot front below, front ++ below = components ∧ state.Nearest components slot front ∧
      ∀ path : NormalizedPath, path.value = joinPath separator components →
        routePath state path = .ok ⟨slot, joinPath separator below⟩ := by
  have hbest := selectMount_isBest state (joinPath separator components)
  revert hbest
  rcases hfold : (List.range maxMounts).foldl (selectMount state (joinPath separator components))
    none with _ | slot
  · intro hnone
    have hroot : 0 ∈ state.above (joinPath separator components) := by
      obtain ⟨hactive, hpath⟩ := hinv.root hinit
      refine ⟨by decide, hactive, ?_⟩
      rw [hpath, ← joinPath_nil]
      exact (pathIsComponentPrefix_iff isCanonical_nil hcanon).mpr nil_prefix
    rw [show state.above _ = ∅ from hnone] at hroot
    exact hroot.elim
  rintro ⟨⟨hslot, hactive, habove⟩, hlongest⟩
  obtain ⟨front, hfront, hpath⟩ := hinv.canonical slot hactive
  rw [hpath, pathIsComponentPrefix_iff hfront hcanon] at habove
  obtain ⟨below, rfl⟩ := habove
  refine ⟨slot, front, below, rfl, ⟨hslot, ⟨hactive, hfront, hpath⟩, ⟨below, rfl⟩, ?_⟩, ?_⟩
  · intro other hother others hat hpre
    have hlen := hlongest other ⟨hother, hat.active, by
      rwa [hat.path_eq, pathIsComponentPrefix_iff hat.canonical hcanon]⟩
    dsimp only at hlen
    rw [hpath, hat.path_eq] at hlen
    rcases prefix_or_prefix_of_prefix hpre ⟨below, rfl⟩ with hfar | ⟨between, rfl⟩
    · exact hfar
    by_cases hnone : between = []
    · rw [hnone, append_nil]
    · exact absurd (length_joinPath_lt hat.canonical hnone) hlen.not_gt
  · intro path hvalue
    rw [routePath, hinit, hvalue]
    simp only [Bool.not_true, Bool.false_eq_true, if_false, hfold, hpath,
      backendPath_eq hfront hcanon]

/-- Every canonical path has one route in every mount table that the calls can build: to the
mount nearest above it, which no other one is, and to a canonical path there. The two together
are the path, so that no other path has the same route. -/
theorem routePath_exact (environment : ε) (requests : List (Request ε))
    (hinit : (run (bootWorld environment) requests).state.initialized = true)
    (components : List Component) (hcanonical : IsCanonical components) :
    ∃ slot front below, IsCanonical below ∧ front ++ below = components ∧
      (run (bootWorld environment) requests).state.Nearest components slot front ∧
      (∀ other others, (run (bootWorld environment) requests).state.Nearest components other
        others → other = slot) ∧
      (∀ path : NormalizedPath, path.value = joinPath separator components →
        routePath (run (bootWorld environment) requests).state path =
          .ok ⟨slot, joinPath separator below⟩) ∧
      ∀ others, IsCanonical others → ∀ path : NormalizedPath,
        path.value = joinPath separator others →
        routePath (run (bootWorld environment) requests).state path =
          .ok ⟨slot, joinPath separator below⟩ → others = components := by
  have hinvariant := run_tableInvariant environment requests
  obtain ⟨slot, front, below, rfl, hnearest, hroute⟩ :=
    routePath_nearest hinvariant hinit hcanonical
  refine ⟨slot, front, below, hcanonical.of_append, rfl, hnearest,
    fun other others h => hnearest.slot_eq hinvariant h, hroute, ?_⟩
  intro others hothers path hvalue hsame
  obtain ⟨_, _, _, rfl, hnearest', hroute'⟩ := routePath_nearest hinvariant hinit hothers
  have heq := (hroute' path hvalue).symm.trans hsame
  simp only [Except.ok.injEq, Route.mk.injEq] at heq
  obtain ⟨rfl, hbelow⟩ := heq
  rw [joinPath_injective hothers.of_append hcanonical.of_append hbelow,
    joinPath_injective hnearest'.mounted.canonical hnearest.mounted.canonical
      (hnearest'.mounted.path_eq.symm.trans hnearest.mounted.path_eq)]

def nestedRequests : List (Request Unit) :=
  [.initializeVfs (some plainFileSystem), .mount (some globalContext)
    (some (terminated [47, 97])) (some plainFileSystem)]

/-- There `/a/b` leads to its `/b`. -/
theorem routePath_exact_nested :
    routePath (run (bootWorld ()) nestedRequests).state ⟨[47, 97, 47, 98], false, false⟩ =
        .ok ⟨1, [47, 98]⟩ ∧
      ∃ slot front below, front ++ below = [[97], [98]] ∧
        (run (bootWorld ()) nestedRequests).state.Nearest [[97], [98]] slot front := by
  obtain ⟨slot, front, below, -, happend, hnearest, -⟩ := routePath_exact () nestedRequests
    (by rfl) [[97], [98]] (by constructor <;> decide)
  exact ⟨by rfl, slot, front, below, happend, hnearest⟩

end Kurogane.Vfs
