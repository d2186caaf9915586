/-
# Replacement is crash-atomic

What a recovery makes of the four files can be read off them: a rollback file wins over the
target, and the target over a committed file. No operation of the protocol, of its roll-back
paths or of the recovery changes that outcome to something else than the old or the new
content, so that a crash may come at any point.
-/

import Kurogane.Install.ReliableFile

namespace Kurogane.Install.ReliableFile

open Storage Function List Session Option

variable {α : Type} {post : α → Files → Bool → Prop} {next failed : Call α} {data : Content}

/-! ## Rules for the backend -/

section Rules

variable {safe : Files → Prop} {files : Files} {clean : Bool} {path source destination : Path}

theorem wp_existsFile {next : Except Status Bool → Call α}
    (hfound : (next (.ok (files path).isSome)).wp .failure safe post files clean)
    (hfail : (next (.error .recoveryFailed)).wp .failure safe post files clean) :
    (existsFile path >>= next).wp .failure safe post files clean := by
  rw [wp_bind]
  cases hpath : (files path).isSome with
  | false => simpa [existsFile, stat, Session.wp, hpath] using ⟨by rwa [hpath] at hfound, hfail⟩
  | true => simpa [existsFile, stat, Session.wp, hpath] using ⟨by rwa [hpath] at hfound, hfail⟩

section

variable (hfail : failed.wp .failure safe post files clean)
include hfail

theorem wp_create (habsent : files path = none → safe (update files path (some [])) ∧
      next.wp .failure safe post (update files path (some [])) false) :
    (create path >>= fun status => if status ≠ .ok then failed else next).wp .failure safe post
      files clean := by
  rw [wp_bind]
  cases hpath : files path with
  | none => simpa [create, Session.wp, hpath, hfail] using habsent hpath
  | some => simpa [create, Session.wp, hpath] using hfail

theorem wp_unlink (hpres : (files path).isSome → safe (update files path none) ∧
      next.wp .failure safe post (update files path none) false)
    (habsent : files path = none → next.wp .failure safe post files clean) :
    (unlink path >>= fun status =>
      if status ≠ .ok ∧ status ≠ .notFound then failed else next).wp .failure safe post
        files clean := by
  rw [wp_bind]
  cases hpath : files path with
  | none => simpa [unlink, Session.wp, hpath, hfail] using habsent hpath
  | some => simpa [unlink, Session.wp, hpath, hfail] using hpres (by simp [hpath])

theorem wp_rename (hmoved : (files source).isSome → files destination = none →
      safe (update (update files source none) destination (files source)) ∧
      next.wp .failure safe post
        (update (update files source none) destination (files source)) false) :
    (rename source destination >>= fun status => if status ≠ .ok then failed else next).wp
      .failure safe post files clean := by
  rw [wp_bind]
  cases hsource : files source with
  | none => simpa [rename, Session.wp, hsource] using hfail
  | some =>
    cases hdest : files destination with
    | none =>
      have hdone := hmoved (by simp [hsource]) hdest
      simpa [rename, Session.wp, hsource, hdest, hfail] using hdone
    | some => simpa [rename, Session.wp, hsource, hdest] using hfail

theorem wp_syncOk (hsynced : next.wp .failure safe post files true) :
    (syncOk >>= fun synced => if synced then next else failed).wp .failure safe post
      files clean := by
  rw [wp_bind]
  exact ⟨hsynced, hfail⟩

end

/-- Writing to an empty file; a write that is cut short leaves some content or other. -/
theorem wp_write (hempty : files path = some []) (hdata : data ≠ [])
    (hsafe : ∀ content, safe (update files path (some content)))
    (hwritten : next.wp .failure safe post (update files path (some data)) false)
    (hcut : ∀ content flag, failed.wp .failure safe post (update files path (some content)) flag) :
    (write path data >>= fun status => if status ≠ .ok then failed else next).wp .failure safe post
      files clean := by
  obtain ⟨length, hlen⟩ := Nat.exists_eq_succ_of_ne_zero fun hzero =>
    hdata (length_eq_zero_iff.mp hzero)
  rw [wp_bind, write, Session.wp]
  simp only [hempty]
  generalize hstores : (List.range data.length).map (fun count =>
    update files path (some (data.take (count + 1) ++ [].drop (count + 1)))) = stores
  have hlast : stores.getLastD files = update files path (some data) := by
    rw [← hstores, hlen, range_succ, map_append, map_singleton,
      getLastD_concat, ← Nat.succ_eq_add_one, ← hlen, take_length, drop_nil,
      append_nil]
  have hnonempty : stores.isEmpty = false := by
    rw [← hstores, isEmpty_eq_false_iff, Ne, map_eq_nil_iff, range_eq_nil, hlen]
    exact Nat.succ_ne_zero length
  have hpassed : ∀ store ∈ stores, ∃ content, store = update files path (some content) := by
    intro store hstore
    rw [← hstores] at hstore
    obtain ⟨count, -, rfl⟩ := mem_map.mp hstore
    exact ⟨_, rfl⟩
  refine ⟨fun store hstore => ?_, ?_, fun count => ?_⟩
  · obtain ⟨content, rfl⟩ := hpassed store hstore
    exact hsafe content
  · rw [hlast, hnonempty, Bool.and_false]
    exact hwritten
  have hreached := getLastD_mem_cons (l := stores.dropLast.take count) (a := files)
  rcases mem_cons.mp hreached with hnone | hsome
  · have hsame : files = update files path (some []) := by
      rw [← hempty, update_eq_self]
    rw [hnone, hsame]
    exact hcut _ _
  obtain ⟨_, hcontent⟩ := hpassed _ (dropLast_subset _ (mem_of_mem_take hsome))
  rw [hcontent]
  exact hcut _ _

end Rules

/-! ## The four files -/

structure View where
  target : Option Content
  staging : Option Content
  rollback : Option Content
  committed : Option Content

def look (paths : Paths) (files : Files) : View :=
  ⟨files paths.target, files paths.staging, files paths.rollback, files paths.committed⟩

def View.outcome (view : View) : Option Content :=
  view.rollback.or (view.target.or view.committed)

/-- The files can be recovered, to a content that is allowed. -/
structure Legal (allowed : List (Option Content)) (view : View) : Prop where
  consistent : view.rollback = none ∨ view.committed = none
  outcome : view.outcome ∈ allowed

section Views

variable {paths : Paths} {files : Files}

section

variable (hvalid : validPaths paths) (content : Option Content)
include hvalid content

theorem look_update :
    look paths (update files paths.target content) =
        { look paths files with target := content } ∧
      look paths (update files paths.staging content) =
        { look paths files with staging := content } ∧
      look paths (update files paths.rollback content) =
        { look paths files with rollback := content } ∧
      look paths (update files paths.committed content) =
        { look paths files with committed := content } := by
  simp only [validPaths, decide_eq_true_iff] at hvalid
  simp only [look, update_apply]
  grind

end

variable {allowed : List (Option Content)} {target staging committed : Option Content}
  {old new : Content}

theorem legal_target (htarget : target ∈ allowed) : Legal allowed ⟨target, staging, none, none⟩ :=
  ⟨.inl rfl, by simpa [View.outcome] using htarget⟩

theorem legal_rollback (hold : some old ∈ allowed) :
    Legal allowed ⟨target, staging, some old, none⟩ :=
  ⟨.inr rfl, by simpa [View.outcome] using hold⟩

theorem legal_committed (hnew : some new ∈ allowed) :
    Legal allowed ⟨some new, staging, none, committed⟩ :=
  ⟨.inl rfl, by simpa [View.outcome] using hnew⟩

theorem legal_only_committed (hold : some old ∈ allowed) :
    Legal allowed ⟨none, staging, none, some old⟩ :=
  ⟨.inl rfl, by simpa [View.outcome] using hold⟩

def Safe (paths : Paths) (allowed : List (Option Content)) (files : Files) : Prop :=
  Legal allowed (look paths files)

theorem Safe.of_look {view : View} (hview : look paths files = view)
    (hlegal : Legal allowed view) : Safe paths allowed files := by
  rw [Safe, hview]
  exact hlegal

variable {clean : Bool}

section

variable {path source destination : Path} {content : Content} (view : View)
  (hfail : failed.wp .failure (Safe paths allowed) post files clean)
include hfail

theorem wp_move (hsource : files source = some content)
    (hmoved : look paths (update (update files source none) destination (some content)) = view)
    (hlegal : Legal allowed view)
    (hpost : ∀ moved, look paths moved = view → Safe paths allowed moved →
      next.wp .failure (Safe paths allowed) post moved false) :
    (rename source destination >>= fun status => if status ≠ .ok then failed else next).wp
      .failure (Safe paths allowed) post files clean := by
  refine wp_rename hfail fun _ _ => ?_
  rw [hsource]
  exact ⟨.of_look hmoved hlegal, hpost _ hmoved (.of_look hmoved hlegal)⟩

theorem wp_remove (hpath : files path = some content)
    (hremoved : look paths (update files path none) = view) (hlegal : Legal allowed view)
    (hpost : ∀ rest, look paths rest = view → Safe paths allowed rest →
      next.wp .failure (Safe paths allowed) post rest false) :
    (unlink path >>= fun status =>
      if status ≠ .ok ∧ status ≠ .notFound then failed else next).wp .failure
        (Safe paths allowed) post files clean :=
  wp_unlink hfail (fun _ => ⟨.of_look hremoved hlegal,
    hpost _ hremoved (.of_look hremoved hlegal)⟩) (by simp [hpath])

end

/-! ## Recovery -/

/-- The end of a recovery that keeps `target`. -/
structure Recovered (paths : Paths) (allowed : List (Option Content)) (target : Option Content)
    (status : Status) (files : Files) : Prop where
  safe : Safe paths allowed files
  noConflict : status ≠ .stateConflict
  settled : status = .ok → look paths files = ⟨target, none, none, none⟩

section

variable (hvalid : validPaths paths)
include hvalid

theorem removeStaging_spec (hview : look paths files = ⟨target, staging, none, none⟩)
    (htarget : target ∈ allowed) :
    (removeStaging paths).wp .failure (Safe paths allowed)
      (fun status files _ => Recovered paths allowed target status files) files clean := by
  have hsafe := Safe.of_look hview (legal_target htarget)
  have hstaging : files paths.staging = staging := congrArg View.staging hview
  rw [removeStaging]
  refine wp_existsFile ?_ ⟨hsafe, by simp, by simp⟩
  rw [hstaging]
  cases staging with
  | none => exact ⟨hsafe, by simp, fun _ => hview⟩
  | some =>
    simp only [isSome_some]
    refine wp_remove ⟨target, none, none, none⟩ ⟨hsafe, by simp, by simp⟩ hstaging
      (by rw [(look_update hvalid _).2.1, hview]) (legal_target htarget) fun rest hrest hsafe => ?_
    exact wp_syncOk ⟨hsafe, by simp, by simp⟩ ⟨hsafe, by simp, fun _ => hrest⟩

/-- The end of a roll-back: the old content is the target again, or can still be had. -/
structure Restored (paths : Paths) (allowed : List (Option Content)) (old : Content)
    (staging : Option Content) (status : Status) (files : Files) : Prop where
  safe : Safe paths allowed files
  settled : status = .ok → look paths files = ⟨some old, staging, none, none⟩

section

variable (hview : look paths files = ⟨target, staging, some old, none⟩) (hold : some old ∈ allowed)
include hview hold

theorem renameRollback_spec :
    (renameRollback paths).wp .failure (Safe paths allowed)
      (fun status files _ => Restored paths allowed old staging status files) files clean := by
  have hsafe := Safe.of_look hview (legal_rollback hold)
  have hrollback : files paths.rollback = some old := congrArg View.rollback hview
  rw [renameRollback]
  refine wp_move ⟨some old, staging, none, none⟩ ⟨hsafe, by simp⟩ hrollback
    (by rw [(look_update hvalid _).1, (look_update hvalid _).2.2.1, hview]) (legal_target hold)
    fun moved hmoved hsafe => ?_
  exact wp_syncOk ⟨hsafe, by simp⟩ ⟨hsafe, fun _ => hmoved⟩

theorem restoreRollback_spec (targetMayExist : Bool) :
    (restoreRollback paths targetMayExist).wp .failure (Safe paths allowed)
      (fun status files _ => Restored paths allowed old staging status files) files clean := by
  have hsafe := Safe.of_look hview (legal_rollback hold)
  rw [restoreRollback]
  cases targetMayExist with
  | false => exact renameRollback_spec hvalid hview hold
  | true =>
    have hrem : look paths (update files paths.target none) = ⟨none, staging, some old, none⟩ := by
      rw [(look_update hvalid _).1, hview]
    exact wp_unlink ⟨hsafe, by simp⟩ (fun _ => ⟨.of_look hrem (legal_rollback hold),
      renameRollback_spec hvalid hrem hold⟩) fun _ => renameRollback_spec hvalid hview hold

end

theorem retireCommitted_spec (hview : look paths files = ⟨target, staging, none, some old⟩)
    (htarget : target.or (some old) ∈ allowed) :
    (retireCommitted paths target.isSome).wp .failure (Safe paths allowed)
      (fun status files _ => Recovered paths allowed (target.or (some old)) status files)
      files clean := by
  have hcommitted : files paths.committed = some old := congrArg View.committed hview
  rw [retireCommitted]
  cases target with
  | none =>
    have hsafe := Safe.of_look hview (legal_only_committed htarget)
    refine wp_move ⟨some old, staging, none, none⟩ ⟨hsafe, by simp, by simp⟩ hcommitted
      (by rw [(look_update hvalid _).1, (look_update hvalid _).2.2.2, hview])
      (legal_target htarget) fun moved hmoved hsafe => ?_
    exact wp_syncOk ⟨hsafe, by simp, by simp⟩ (removeStaging_spec hvalid hmoved htarget)
  | some new =>
    have hsafe := Safe.of_look hview (legal_committed htarget)
    refine wp_remove ⟨some new, staging, none, none⟩ ⟨hsafe, by simp, by simp⟩ hcommitted
      (by rw [(look_update hvalid _).2.2.2, hview]) (legal_target htarget)
      fun rest hrest hsafe => ?_
    exact wp_syncOk ⟨hsafe, by simp, by simp⟩ (removeStaging_spec hvalid hrest htarget)

/-- A recovery from files that can be recovered gives the target their outcome. -/
theorem recoverInterrupted_spec (hsafe : Safe paths allowed files) :
    (recoverInterrupted paths).wp .failure (Safe paths allowed)
      (fun status last _ => Recovered paths allowed (look paths files).outcome status last)
      files clean := by
  obtain ⟨view, hview⟩ : ∃ view, look paths files = view := ⟨_, rfl⟩
  have hfail : Recovered paths allowed (look paths files).outcome .recoveryFailed files :=
    ⟨hsafe, by simp, by simp⟩
  have hlegal := hsafe
  rw [Safe, hview] at hlegal
  rw [hview] at hfail ⊢
  obtain ⟨target, staging, rollback, committed⟩ := view
  have htarget : files paths.target = target := congrArg View.target hview
  have hrollback : files paths.rollback = rollback := congrArg View.rollback hview
  have hcommitted : files paths.committed = committed := congrArg View.committed hview
  rw [recoverInterrupted]
  refine wp_existsFile ?_ hfail
  simp only [hrollback]
  refine wp_existsFile ?_ hfail
  rw [hcommitted]
  have houtcome := hlegal.outcome
  cases rollback with
  | none =>
    simp only [isSome_none, Bool.false_eq_true, false_and, if_false]
    refine wp_existsFile ?_ hfail
    rw [htarget]
    cases committed with
    | none =>
      have hsame : View.outcome ⟨target, staging, none, none⟩ = target := by
        simp [View.outcome]
      rw [hsame] at houtcome ⊢
      exact removeStaging_spec hvalid hview houtcome
    | some => exact retireCommitted_spec hvalid hview houtcome
  | some =>
    obtain rfl : committed = none := hlegal.consistent.resolve_left (by simp)
    simp only [isSome_none, Bool.false_eq_true, and_false, if_false]
    refine wp_existsFile ?_ hfail
    simp only [isSome_some, if_true, wp_bind]
    refine (restoreRollback_spec hvalid hview houtcome _).mono ?_
    intro status last flag hrestored
    by_cases hok : status = .ok
    · rw [if_neg (not_not.mpr hok)]
      exact removeStaging_spec hvalid (hrestored.settled hok) houtcome
    · rw [if_pos hok]
      exact ⟨hrestored.safe, by simp, by simp⟩

/-! ## Replacement -/

/-- The end of a replacement: the target can be recovered, and after an Ok it is in place
and durable. -/
structure Replaced (paths : Paths) (allowed : List (Option Content)) (new : Content)
    (status : Status) (files : Files) (clean : Bool) : Prop where
  safe : Safe paths allowed files
  settled : status = .ok → look paths files = ⟨some new, none, none, none⟩ ∧ clean = true

theorem rollBack_spec (hview : look paths files = ⟨target, staging, some old, none⟩)
    (hold : some old ∈ allowed) (targetMayExist : Bool) {reason : Status} (hreason : reason ≠ .ok) :
    (rollBack paths targetMayExist reason).wp .failure (Safe paths allowed)
      (Replaced paths allowed new) files clean := by
  rw [rollBack, wp_bind]
  refine (restoreRollback_spec hvalid hview hold targetMayExist).mono ?_
  intro status last flag hrestored
  split
  · exact ⟨hrestored.safe, fun hok => absurd hok hreason⟩
  next hstat => exact ⟨hrestored.safe, fun hok => absurd hok hstat⟩

theorem retireRollback_spec (hview : look paths files = ⟨some new, none, some old, none⟩)
    (hold : some old ∈ allowed) (hnew : some new ∈ allowed) :
    (retireRollback paths).wp .failure (Safe paths allowed) (Replaced paths allowed new)
      files clean := by
  have hsafe := Safe.of_look hview (legal_rollback hold)
  have hrollback : files paths.rollback = some old := congrArg View.rollback hview
  rw [retireRollback]
  refine wp_move ⟨some new, none, none, some old⟩ ⟨hsafe, by simp⟩ hrollback
    (by rw [(look_update hvalid _).2.2.2, (look_update hvalid _).2.2.1, hview])
    (legal_committed hnew) fun moved hmoved hsafe => ?_
  have hcommitted : moved paths.committed = some old := congrArg View.committed hmoved
  refine wp_syncOk ⟨hsafe, by simp⟩ ?_
  refine wp_remove ⟨some new, none, none, none⟩ ⟨hsafe, by simp⟩ hcommitted
    (by rw [(look_update hvalid _).2.2.2, hmoved]) (legal_target hnew) fun rest hrest hsafe => ?_
  exact wp_syncOk ⟨hsafe, by simp⟩ ⟨hsafe, fun _ => ⟨hrest, rfl⟩⟩

theorem publish_spec {rollback : Option Content}
    (hview : look paths files = ⟨none, some new, rollback, none⟩) (hold : rollback ∈ allowed)
    (hnew : some new ∈ allowed) :
    (publish paths rollback.isSome).wp .failure (Safe paths allowed) (Replaced paths allowed new)
      files clean := by
  have hstaging : files paths.staging = some new := congrArg View.staging hview
  have hlegal : Legal allowed ⟨some new, none, rollback, none⟩ := by
    cases rollback with
    | none => exact legal_target hnew
    | some => exact legal_rollback hold
  rw [publish]
  refine wp_move ⟨some new, none, rollback, none⟩ ?_ hstaging
    (by rw [(look_update hvalid _).1, (look_update hvalid _).2.1, hview]) hlegal
    fun moved hmoved hsafe => ?_
  · cases rollback with
    | none => exact ⟨.of_look hview (legal_target hold), by simp⟩
    | some => exact rollBack_spec hvalid hview hold false (by simp)
  cases rollback with
  | none => exact wp_syncOk ⟨hsafe, by simp⟩ ⟨hsafe, fun _ => ⟨hmoved, rfl⟩⟩
  | some =>
    exact wp_syncOk (rollBack_spec hvalid hmoved hold true (by simp))
      (retireRollback_spec hvalid hmoved hold hnew)

theorem exchange_spec (hview : look paths files = ⟨target, some new, none, none⟩)
    (htarget : target ∈ allowed) (hnew : some new ∈ allowed) :
    (exchange paths).wp .failure (Safe paths allowed) (Replaced paths allowed new) files clean := by
  have hsafe := Safe.of_look hview (legal_target htarget)
  have hpres : files paths.target = target := congrArg View.target hview
  rw [exchange]
  refine wp_syncOk ⟨hsafe, by simp⟩ ?_
  refine wp_existsFile ?_ ⟨hsafe, by simp⟩
  rw [hpres]
  cases target with
  | none => exact publish_spec hvalid hview htarget hnew
  | some old =>
    simp only [isSome_some, if_true]
    refine wp_move ⟨none, some new, some old, none⟩ ⟨hsafe, by simp⟩ hpres
      (by rw [(look_update hvalid _).2.2.1, (look_update hvalid _).1, hview])
      (legal_rollback htarget) fun moved hmoved hsafe => ?_
    exact wp_syncOk (rollBack_spec hvalid hmoved htarget false (by simp))
      (publish_spec hvalid hmoved htarget hnew)

theorem stage_spec (hview : look paths files = ⟨target, none, none, none⟩)
    (htarget : target ∈ allowed) (hnew : some new ∈ allowed) :
    (stage paths new).wp .failure (Safe paths allowed) (Replaced paths allowed new)
      files clean := by
  have hsafe := Safe.of_look hview (legal_target htarget)
  have hstaged : ∀ content, look paths (update files paths.staging content) =
      ⟨target, content, none, none⟩ := by
    intro content
    rw [(look_update hvalid _).2.1, hview]
  have hstagedSafe : ∀ content, Safe paths allowed (update files paths.staging content) := by
    intro content
    rw [Safe, hstaged]
    exact legal_target htarget
  rw [stage]
  refine wp_create ⟨hsafe, by simp⟩ fun _ => ⟨hstagedSafe _, ?_⟩
  by_cases hempty : new.length = 0
  · obtain rfl := length_eq_zero_iff.mp hempty
    exact exchange_spec hvalid (hstaged _) htarget hnew
  rw [if_pos hempty]
  have hnonempty : new ≠ [] := fun hnil => hempty (length_eq_zero_iff.mpr hnil)
  refine wp_write (update_self ..) hnonempty (fun content => ?_) ?_ fun content flag => ?_
  · rw [update_idem]
    exact hstagedSafe _
  · rw [update_idem]
    exact exchange_spec hvalid (hstaged _) htarget hnew
  · rw [update_idem]
    exact ⟨hstagedSafe _, by simp⟩

theorem replace_spec (hsafe : Safe paths allowed files) (hnew : some new ∈ allowed) :
    (replace paths new).wp .failure (Safe paths allowed) (Replaced paths allowed new)
      files clean := by
  rw [replace, if_neg (by simp [hvalid]), wp_bind]
  refine (recoverInterrupted_spec hvalid hsafe).mono fun status last flag hrecovered => ?_
  by_cases hok : status = .ok
  · rw [if_neg (not_not.mpr hok)]
    exact stage_spec hvalid (hrecovered.settled hok) hsafe.outcome hnew
  · rw [if_pos hok]
    exact ⟨hrecovered.safe, fun hstat => absurd hstat hok⟩

end

/-! ## Histories -/

/-- Every store that a crash can leave can be recovered. -/
def Sound (paths : Paths) (history : History) : Prop :=
  ∃ flag, Session.Guarded (Safe paths history.allowed) history.disk flag

theorem Safe.mono {more : List (Option Content)} (hsafe : Safe paths allowed files)
    (hmore : allowed ⊆ more) : Safe paths more files :=
  ⟨hsafe.consistent, hmore hsafe.outcome⟩

theorem Sound.after {history : History} (hsound : Sound paths history) (hvalid : validPaths paths)
    (event : Event) : Sound paths (history.after paths event) := by
  obtain ⟨flag, hguarded⟩ := hsound
  cases event with
  | crash choice => exact ⟨true, hguarded.crash choice⟩
  | replace data fates =>
    have hwider : Session.Guarded (Safe paths (some data :: history.allowed)) history.disk flag :=
      ⟨fun store hstore => (hguarded.safe store hstore).mono (subset_cons_self _ _), hguarded.clean⟩
    obtain ⟨last, hlast, hpost⟩ := (replace_spec hvalid
      (hwider.safe _ mem_cons_self) mem_cons_self).run hwider fates
    rw [History.after]
    split
    next hok =>
      obtain ⟨hview, rfl⟩ := (hpost .ok hok).settled rfl
      refine ⟨true, fun store hstore => ?_, hlast.clean⟩
      rw [Cached.survivors, hlast.clean rfl] at hstore
      obtain rfl := mem_singleton.mp hstore
      rw [Safe, hview]
      exact legal_target mem_cons_self
    · exact ⟨last, hlast⟩

theorem sound_run (hvalid : validPaths paths)
    (hview : look paths files = ⟨target, none, none, none⟩) (events : List Event) :
    Sound paths (History.run paths files events) := by
  have hstart : Sound paths ⟨⟨files, []⟩, [files paths.target]⟩ := by
    refine ⟨true, fun store hstore => ?_, fun _ => rfl⟩
    obtain rfl := mem_singleton.mp hstore
    rw [Safe, hview]
    refine legal_target (mem_singleton.mpr ?_)
    exact (congrArg View.target hview).symm
  unfold History.run
  generalize (⟨⟨files, []⟩, [files paths.target]⟩ : History) = history at hstart
  induction events generalizing history with
  | nil => exact hstart
  | cons event _ ih => exact ih _ (hstart.after hvalid event)

theorem allowed_foldl_subset (paths : Paths) (events : List Event) (history : History) :
    (events.foldl (History.after paths) history).allowed ⊆ history.allowed ++ attempted events := by
  induction events generalizing history with
  | nil => exact fun content hcontent => mem_append_left _ hcontent
  | cons event _ ih =>
    intro content hcontent
    have hlater := ih _ hcontent
    cases event with
    | crash => exact hlater
    | replace data fates =>
      have hstep : (history.after paths (.replace data fates)).allowed ⊆
          some data :: history.allowed := by
        rw [History.after]
        split
        · exact cons_subset_cons _ (nil_subset _)
        · exact fun _ h => h
      rcases mem_append.mp hlater with hearlier | hattempted
      · rcases mem_cons.mp (hstep hearlier) with rfl | hpre
        · exact mem_append_right _ mem_cons_self
        · exact mem_append_left _ hpre
      · exact mem_append_right _ (mem_cons_of_mem _ hattempted)

/-- After a replacement that returned Ok, only its content and later ones are possible. -/
theorem allowed_run_of_ok {earlier later : List Event} {fates : List Fate}
    (hok : ((replace paths data).run .failure fates (History.run paths files earlier).disk).1 =
      some .ok) :
    (History.run paths files (earlier ++ .replace data fates :: later)).allowed ⊆
      some data :: attempted later := by
  have hreset : ((History.run paths files earlier).after paths (.replace data fates)).allowed =
      [some data] := by
    rw [History.after, if_pos hok]
  have hsubset := allowed_foldl_subset paths later
    ((History.run paths files earlier).after paths (.replace data fates))
  rw [hreset] at hsubset
  rw [History.run, foldl_append]
  exact hsubset

end Views

/-- After any history of replacements, failures and crashes, a recovery does not end in a
conflict. If it succeeds, the other three files are gone and the target has its first
content or that of a replacement; it does not disappear, and a replacement that returned
Ok is not undone. -/
theorem recovery_atomic (paths : Paths) (hvalid : validPaths paths = true) (files : Files)
    (old : Option Content) (hfiles : look paths files = ⟨old, none, none, none⟩)
    (events : List Event) (fates : List Fate) :
    ((recoverInterrupted paths).run .failure fates (History.run paths files events).disk).1 ≠
        some .stateConflict ∧
      (((recoverInterrupted paths).run .failure fates (History.run paths files events).disk).1 =
          some .ok →
        ∃ content,
          look paths ((recoverInterrupted paths).run .failure fates
            (History.run paths files events).disk).2.current = ⟨content, none, none, none⟩ ∧
          content ∈ old :: attempted events ∧ (old ≠ none → content ≠ none) ∧
          ∀ earlier data before later, events = earlier ++ .replace data before :: later →
            ((replace paths data).run .failure before (History.run paths files earlier).disk).1 =
              some .ok →
            content ∈ some data :: attempted later) := by
  obtain ⟨_, hguarded⟩ := sound_run hvalid hfiles events
  have hsafe := hguarded.safe _ mem_cons_self
  obtain ⟨_, -, hpost⟩ := (recoverInterrupted_spec hvalid hsafe).run hguarded fates
  refine ⟨fun hconflict => (hpost _ hconflict).noConflict rfl, fun hok => ?_⟩
  have hold : files paths.target = old := congrArg View.target hfiles
  have hcontent : (look paths (History.run paths files events).disk.current).outcome ∈
      old :: attempted events := by
    rw [← hold]
    exact allowed_foldl_subset paths events _ hsafe.outcome
  refine ⟨_, (hpost _ hok).settled rfl, hcontent, fun hpresent => ?_, ?_⟩
  · rcases mem_cons.mp hcontent with hsame | hattempted
    · rwa [hsame]
    obtain ⟨event, -, hevent⟩ := mem_filterMap.mp hattempted
    cases event with
    | crash => simp at hevent
    | replace =>
      rw [← some.inj hevent]
      simp
  · rintro _ _ _ _ rfl hreturned
    exact allowed_run_of_ok hreturned hsafe.outcome

/-- A crash after the new content has been published but before the commit marker. -/
def interrupted : List Event :=
  [.replace [8, 9] (List.replicate 12 .performed ++ [.crash 0])]

def samplePaths : Paths := ⟨[1], [2], [3], [4]⟩

def sampleFiles : Files := Function.update (fun _ => none) [1] (some [7])

theorem interrupted_recovery :
    (look samplePaths (History.run samplePaths sampleFiles interrupted).disk.current).target =
        some [8, 9] ∧
      ∃ content,
        look samplePaths ((recoverInterrupted samplePaths).run .failure []
          (History.run samplePaths sampleFiles interrupted).disk).2.current =
            ⟨content, none, none, none⟩ ∧
        content ∈ some [7] :: attempted interrupted := by
  refine ⟨by decide +kernel, ?_⟩
  obtain ⟨content, hview, hcontent, -⟩ := (recovery_atomic samplePaths (by decide) sampleFiles
    (some [7]) rfl interrupted []).2 (by decide +kernel)
  exact ⟨content, hview, hcontent⟩

end Kurogane.Install.ReliableFile
