/-
# Reliable replacement of a file

`src/kernel/install/reliable_file.cpp`. A target is replaced with the help of three more
files: the new content is staged, the old target becomes the rollback file until the new
one has been published, and the committed file until it has been cleaned up. Each call
first recovers from whatever an earlier one has left.

The backend is a store of files behind a cache. Renaming refuses to overwrite; a write that
is cut short leaves part of its data.
-/

import Kurogane.Storage.Sessions

namespace Kurogane.Install.ReliableFile

open Storage Function

abbrev Path := List UInt8

abbrev Content := List UInt8

abbrev Files := Path → Option Content

inductive BackendStatus where
  | ok
  | notFound
  | alreadyExists
  | failure
  deriving DecidableEq, Repr

structure Paths where
  target : Path
  staging : Path
  rollback : Path
  committed : Path

inductive Status where
  | ok
  | invalidArgument
  | stateConflict
  | recoveryFailed
  | stagingCleanupFailed
  | stagingCreateFailed
  | stagingWriteFailed
  | stagingSyncFailed
  | backupRenameFailed
  | backupSyncFailed
  | publishRenameFailed
  | publishSyncFailed
  | commitMarkerRenameFailed
  | commitMarkerSyncFailed
  | cleanupFailed
  | cleanupSyncFailed
  | rollbackFailed
  | rollbackSyncFailed
  deriving DecidableEq, Repr

/-! ## The backend -/

abbrev Call := Session Files BackendStatus

def stat (path : Path) : Call BackendStatus :=
  .call (fun files => (if (files path).isSome then .ok else .notFound, [])) .done

def create (path : Path) : Call BackendStatus :=
  .call (fun files =>
    if (files path).isSome then (.alreadyExists, [])
    else (.ok, [update files path (some [])])) .done

/-- A write at the start of a file, byte by byte. -/
def write (path : Path) (data : Content) : Call BackendStatus :=
  .call (fun files =>
    match files path with
    | none => (.notFound, [])
    | some content =>
      (.ok, (List.range data.length).map fun count =>
        update files path
          (some (data.take (count + 1) ++ content.drop (count + 1))))) .done

def unlink (path : Path) : Call BackendStatus :=
  .call (fun files =>
    if (files path).isSome then (.ok, [update files path none])
    else (.notFound, [])) .done

def rename (source destination : Path) : Call BackendStatus :=
  .call (fun files =>
    if (files source).isNone then (.notFound, [])
    else if (files destination).isSome then (.alreadyExists, [])
    else
      (.ok, [update (update files source none) destination (files source)]))
    .done

def syncOk : Call Bool := .sync .done

/-! ## Recovery -/

def validPaths (paths : Paths) : Bool :=
  paths.target ≠ [] ∧ paths.staging ≠ [] ∧ paths.rollback ≠ [] ∧ paths.committed ≠ [] ∧
    paths.target ≠ paths.staging ∧ paths.target ≠ paths.rollback ∧
    paths.target ≠ paths.committed ∧ paths.staging ≠ paths.rollback ∧
    paths.staging ≠ paths.committed ∧ paths.rollback ≠ paths.committed

def existsFile (path : Path) : Call (Except Status Bool) := do
  match ← stat path with
  | .ok => pure (.ok true)
  | .notFound => pure (.ok false)
  | _ => pure (.error .recoveryFailed)

variable (paths : Paths)

def removeStaging : Call Status := do
  match ← existsFile paths.staging with
  | .error status => pure status
  | .ok false => pure .ok
  | .ok true =>
    let removed ← unlink paths.staging
    if removed ≠ .ok ∧ removed ≠ .notFound then pure .stagingCleanupFailed
    else if ← syncOk then pure .ok
    else pure .stagingCleanupFailed

/-- The part of `restore_rollback` after the target is out of the way. -/
def renameRollback : Call Status := do
  let restored ← rename paths.rollback paths.target
  if restored ≠ .ok then pure .rollbackFailed
  else if ← syncOk then pure .ok
  else pure .rollbackSyncFailed

def restoreRollback (targetMayExist : Bool) : Call Status := do
  if targetMayExist then
    let removed ← unlink paths.target
    if removed ≠ .ok ∧ removed ≠ .notFound then pure .rollbackFailed
    else renameRollback paths
  else renameRollback paths

/-- What `recover_interrupted` does about a committed file. -/
def retireCommitted (targetPresent : Bool) : Call Status := do
  if targetPresent then
    let removed ← unlink paths.committed
    if removed ≠ .ok ∧ removed ≠ .notFound then pure .recoveryFailed
    else if ← syncOk then removeStaging paths
    else pure .recoveryFailed
  else
    let restored ← rename paths.committed paths.target
    if restored ≠ .ok then pure .recoveryFailed
    else if ← syncOk then removeStaging paths
    else pure .recoveryFailed

def recoverInterrupted : Call Status := do
  match ← existsFile paths.rollback with
  | .error status => pure status
  | .ok rollbackPresent =>
    match ← existsFile paths.committed with
    | .error status => pure status
    | .ok committedPresent =>
      if rollbackPresent ∧ committedPresent then pure .stateConflict
      else
        match ← existsFile paths.target with
        | .error status => pure status
        | .ok targetPresent =>
          if rollbackPresent then
            let status ← restoreRollback paths targetPresent
            if status ≠ .ok then pure .recoveryFailed else removeStaging paths
          else if committedPresent then retireCommitted paths targetPresent
          else removeStaging paths

/-! ## Replacement -/

/-- The end of a failed step: the old target is put back. -/
def rollBack (targetMayExist : Bool) (reason : Status) : Call Status := do
  let rollback ← restoreRollback paths targetMayExist
  if rollback = .ok then pure reason else pure rollback

/-- The old target has been published over; its last copy goes. -/
def retireRollback : Call Status := do
  let renamed ← rename paths.rollback paths.committed
  if renamed ≠ .ok then pure .commitMarkerRenameFailed
  else if ← syncOk then
    let removed ← unlink paths.committed
    if removed ≠ .ok ∧ removed ≠ .notFound then pure .cleanupFailed
    else if ← syncOk then pure .ok
    else pure .cleanupSyncFailed
  else pure .commitMarkerSyncFailed

def publish (targetPresent : Bool) : Call Status := do
  let renamed ← rename paths.staging paths.target
  if renamed ≠ .ok then
    if targetPresent then rollBack paths false .publishRenameFailed
    else pure .publishRenameFailed
  else if ← syncOk then
    if targetPresent then retireRollback paths else pure .ok
  else if targetPresent then rollBack paths true .publishSyncFailed
  else pure .publishSyncFailed

/-- The staged content takes the place of the target. -/
def exchange : Call Status := do
  if ← syncOk then
    match ← existsFile paths.target with
    | .error status => pure status
    | .ok targetPresent =>
      if targetPresent then
        let renamed ← rename paths.target paths.rollback
        if renamed ≠ .ok then pure .backupRenameFailed
        else if ← syncOk then publish paths true
        else rollBack paths false .backupSyncFailed
      else publish paths false
  else pure .stagingSyncFailed

def stage (data : Content) : Call Status := do
  let created ← create paths.staging
  if created ≠ .ok then pure .stagingCreateFailed
  else if data.length ≠ 0 then
    let written ← write paths.staging data
    if written ≠ .ok then pure .stagingWriteFailed else exchange paths
  else exchange paths

def replace (data : Content) : Call Status := do
  if validPaths paths = false then pure .invalidArgument
  else
    let status ← recoverInterrupted paths
    if status ≠ .ok then pure status else stage paths data

/-! ## Histories -/

/-- A replacement under a schedule, or a crash between two of them. -/
inductive Event where
  | replace (data : Content) (fates : List Fate)
  | crash (choice : ℕ)

/-- The contents of the replacements of a history. -/
def attempted (events : List Event) : List (Option Content) :=
  events.filterMap fun event =>
    match event with
    | .replace data _ => some (some data)
    | .crash _ => none

/-- The disk, and the contents the target may have: those of the replacements since the
last one that returned Ok, or the content before them. -/
structure History where
  disk : Cached Files
  allowed : List (Option Content)

def History.after (history : History) : Event → History
  | .replace data fates =>
    let result := (ReliableFile.replace paths data).run .failure fates history.disk
    if result.1 = some .ok then ⟨result.2, [some data]⟩
    else ⟨result.2, some data :: history.allowed⟩
  | .crash choice => { history with disk := history.disk.crash choice }

/-- The history that starts with durable files. -/
def History.run (files : Files) (events : List Event) : History :=
  events.foldl (History.after paths) ⟨⟨files, []⟩, [files paths.target]⟩

end Kurogane.Install.ReliableFile
