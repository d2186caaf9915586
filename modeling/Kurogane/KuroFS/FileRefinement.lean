/-
# Files as byte strings

Sequences of writes and resizes on a reliable device, on any files in any order. Each
file reads as the byte string that the successful calls on it make of its bytes, as long
as no resize exposes old bytes of an extent.
-/

import Kurogane.KuroFS.FileAtomicity

namespace Kurogane.KuroFS

open Storage Storage.Buffer Function

variable {fs : FileSystem} {image : Image} {inode : Inode} {bytes : List UInt8}

/-! ## Runs -/

abbrev FileCall := Inode × FileRequest

def FileCall.run (fs : FileSystem) (image : Image) (call : FileCall) :
    Except (Status × Inode) Inode × Image := (call.2.perform fs call.1).run image

def runCalls (fs : FileSystem) (image : Image) (calls : List FileCall) : Image :=
  calls.foldl (fun image call => (call.run fs image).2) image

/-- The byte string of a file: what the calls on it that succeed make of its bytes. -/
def abstractFile (fs : FileSystem) (inodeId : ℕ) :
    Image → List FileCall → List UInt8 → List UInt8
  | _, [], bytes => bytes
  | image, call :: calls, bytes =>
    abstractFile fs inodeId (call.run fs image).2 calls
      (if call.1.id = inodeId ∧ (call.run fs image).1.isOk then call.2.result bytes else bytes)

def Unexposed (fs : FileSystem) : Image → List FileCall → Prop
  | _, [] => True
  | image, call :: calls =>
    (∀ current bytes, view fs.geometry image call.1.id = .used current bytes →
      ¬ call.2.Exposes image call.1 current) ∧ Unexposed fs (call.run fs image).2 calls

/-! ## One call -/

/-- What a call with the given effect leaves behind, when its result is the wanted one. -/
theorem Updates.run_cases {result wanted : List UInt8 → List UInt8} {idle refused : Prop}
    {program : KProg (Status × Inode) Inode} (hmounted : Mounted fs image)
    (h : Updates .reliable fs.geometry ∅ image inode result idle refused program image)
    (hidle : ∀ bytes, OpenFile fs.geometry image inode bytes → idle → wanted bytes = bytes)
    (hresult : ∀ bytes updated image', OpenFile fs.geometry image inode bytes →
      FileUpdate fs.geometry ∅ image inode (result bytes) updated image' →
      result bytes = wanted bytes) :
    Mounted fs (program.run image).2 ∧
      ((∃ updated bytes, (program.run image).1 = .ok updated ∧
        OpenFile fs.geometry image inode bytes ∧ view fs.geometry (program.run image).2 =
          update (view fs.geometry image) inode.id (.used updated (wanted bytes))) ∨
      ∃ error, (program.run image).1 = .error error ∧
        view fs.geometry (program.run image).2 = view fs.geometry image) := by
  obtain ⟨hvalue, herror⟩ := Prog.wp.run h
  cases hrun : (program.run image).1 with
  | ok updated =>
    obtain ⟨bytes, hopen, ⟨hsame, rfl, himage⟩ | hupd⟩ := hvalue updated hrun
    · refine ⟨by rwa [himage], .inl ⟨updated, bytes, rfl, hopen, ?_⟩⟩
      rw [himage, hidle bytes hopen hsame, ← hopen.view, update_eq_self]
    · refine ⟨hupd.mounted hmounted hopen, .inl ⟨updated, bytes, rfl, hopen, ?_⟩⟩
      rw [hupd.2.view, hresult bytes updated _ hopen hupd]
  | error error =>
    rcases herror error hrun with ⟨hquiet, -⟩ | ⟨hfault, -⟩
    · exact ⟨hmounted.quiet hquiet, .inr ⟨error, rfl, hquiet.view⟩⟩
    · cases hfault

/-- A call gives its file the bytes of its result, or fails and changes no file. -/
theorem FileCall.run_cases (h : Mounted fs image) (call : FileCall)
    (hexposes : ∀ current bytes, view fs.geometry image call.1.id = .used current bytes →
      ¬ call.2.Exposes image call.1 current) :
    Mounted fs (call.run fs image).2 ∧
      ((∃ updated bytes, (call.run fs image).1 = .ok updated ∧
        OpenFile fs.geometry image call.1 bytes ∧ view fs.geometry (call.run fs image).2 =
          update (view fs.geometry image) call.1.id
            (.used updated (call.2.result bytes))) ∨
      ∃ error, (call.run fs image).1 = .error error ∧
        view fs.geometry (call.run fs image).2 = view fs.geometry image) := by
  obtain ⟨inode, request⟩ := call
  cases request with
  | write offset source =>
    refine Updates.run_cases h (writeInodeData_wp h.toReady h.consistent.owns inode offset source)
      ?_ fun _ _ _ _ _ => rfl
    rintro bytes - rfl
    rfl
  | resize newSize =>
    refine Updates.run_cases h (resizeInode_wp h.toReady h.consistent.owns inode newSize) ?_
      fun bytes _ _ hopen hupd => hupd.resizedContents_eq hopen.view
        (hexposes inode bytes hopen.view)
    rintro bytes hopen rfl
    rw [FileRequest.result, ← length_of_view hopen.view, resize, List.take_length, Nat.sub_self]
    exact List.append_nil bytes

/-! ## All calls -/

/-- Each file reads as its byte string. -/
theorem files_refine_bytes (h : Mounted fs image) (calls : List FileCall)
    (hunexposed : Unexposed fs image calls) (inodeId : ℕ) (inode : Inode) (bytes : List UInt8)
    (hview : view fs.geometry image inodeId = .used inode bytes) :
    ∃ last, view fs.geometry (runCalls fs image calls) inodeId =
        .used last (abstractFile fs inodeId image calls bytes) ∧
      ∀ offset capacity, readInodeData fs (runCalls fs image calls) last offset capacity =
        .ok (((abstractFile fs inodeId image calls bytes).drop offset).take capacity) := by
  induction calls generalizing image inode bytes with
  | nil =>
    refine ⟨inode, hview, readInodeData_eq h.toReady h.consistent.owns ?_⟩
    rwa [id_of_view hview]
  | cons call _ ih =>
    obtain ⟨hmounted, hcases⟩ := call.run_cases h hunexposed.1
    rcases hcases with ⟨updated, bytes', hok, hopen, hafter⟩ | ⟨_, herror, hafter⟩
    · by_cases hself : call.1.id = inodeId
      · subst hself
        obtain ⟨rfl, rfl⟩ : call.1 = inode ∧ bytes' = bytes := by
          simpa using hopen.view.symm.trans hview
        rw [abstractFile, if_pos ⟨rfl, by rw [hok]; rfl⟩]
        exact ih hmounted hunexposed.2 updated _ (by rw [hafter, Function.update_self])
      · rw [abstractFile, if_neg fun hboth => hself hboth.1]
        refine ih hmounted hunexposed.2 inode bytes ?_
        rwa [hafter, Function.update_of_ne (Ne.symm hself)]
    · rw [abstractFile, if_neg fun hboth => by rw [herror] at hboth; exact nomatch hboth.2]
      exact ih hmounted hunexposed.2 inode bytes (by rwa [hafter])

abbrev slackImage : Image := ((prepareSlack smallFileSystem).run smallImage).2

theorem slack_write_refined : ∃ inode last, Mounted smallFileSystem slackImage ∧
    view smallGeometry slackImage inode.id = .used inode [0] ∧
    Unexposed smallFileSystem slackImage [(inode, .write 2 [7])] ∧
    readInodeData smallFileSystem (runCalls smallFileSystem slackImage [(inode, .write 2 [7])])
        last 0 3 =
      .ok (((abstractFile smallFileSystem inode.id slackImage [(inode, .write 2 [7])]
        [0]).drop 0).take 3) := by
  obtain ⟨inode, -, hmounted, hview, -⟩ := exists_slackFile
  have hunexposed : Unexposed smallFileSystem slackImage [(inode, .write 2 [7])] :=
    ⟨fun _ _ _ => id, trivial⟩
  obtain ⟨last, -, hread⟩ := files_refine_bytes hmounted _ hunexposed inode.id inode [0] hview
  exact ⟨inode, last, hmounted, hview, hunexposed, hread 0 3⟩

/-- Growing that file succeeds and lets its byte 5 read as 1, where the byte string has a
zero. -/
theorem resize_reads_old_byte : ∃ inode updated contents, Mounted smallFileSystem slackImage ∧
    view smallGeometry slackImage inode.id = .used inode [0] ∧ inode.type = .regular ∧
    FileCall.run smallFileSystem slackImage (inode, .resize 600) =
      (.ok updated, runCalls smallFileSystem slackImage [(inode, .resize 600)]) ∧
    readInodeData smallFileSystem (runCalls smallFileSystem slackImage [(inode, .resize 600)])
      updated 0 600 = .ok contents ∧ ofList contents 5 = 1 ∧
    ofList (abstractFile smallFileSystem inode.id slackImage [(inode, .resize 600)] [0]) 5 =
      0 := by
  obtain ⟨inode, -, hmounted, hview, hreg, hsize, hblks, hrev, hbyte⟩ := exists_slackFile
  obtain ⟨hexposes, _, _⟩ := slack_exposes hsize hblks hrev hbyte
  obtain ⟨updated, hok, hupd⟩ := FileRequest.run_of_exposes hmounted hview hreg hexposes
  have hafter := hupd.mounted hmounted ⟨hview, hreg⟩
  have hnode := hupd.view_self
  rw [← hupd.1.id] at hnode
  refine ⟨inode, updated, _, hmounted, hview, hreg, Prod.ext hok rfl,
    readInodeData_eq hafter.toReady hafter.consistent.owns hnode 0 600, ?_, ?_⟩
  · rwa [List.drop_zero, List.take_of_length_le (length_resizedContents _ _ _).le]
  · rwa [abstractFile, if_pos ⟨rfl, by rw [FileCall.run, FileRequest.perform, hok]; rfl⟩]

/-! ## Crashes -/

/-- The devices after calls that were cut after any of their sector writes or returned, none
exposing old bytes. The inode of a call may be out of date. The second list has the calls that
returned Ok. -/
inductive Crashed (fs : FileSystem) (image : Image) : List FileCall → List FileCall → Image → Prop
  | start : Crashed fs image [] [] image
  | cut {calls done image' current bytes} (h : Crashed fs image calls done image')
      (call : FileCall) (cut : ℕ)
      (hview : view fs.geometry image' call.1.id = .used current bytes)
      (hexposes : ¬ call.2.Exposes image' call.1 current) :
      Crashed fs image (calls ++ [call]) done ((call.2.perform fs call.1).crash image' cut)
  | returned {calls done image' current bytes} (h : Crashed fs image calls done image')
      (call : FileCall) (hview : view fs.geometry image' call.1.id = .used current bytes)
      (hexposes : ¬ call.2.Exposes image' call.1 current) :
      Crashed fs image (calls ++ [call])
        (if (call.run fs image').1.isOk then done ++ [call] else done) (call.run fs image').2

/-- A file has the bytes that some of the calls on it, in their order, make of its bytes. All
calls that returned Ok are among them. -/
def Survives (fs : FileSystem) (image : Image) (calls done : List FileCall) (inodeId : ℕ)
    (bytes : List UInt8) : Prop :=
  ∃ last kept, (done.filter (·.1.id = inodeId)).Sublist kept ∧
    kept.Sublist (calls.filter (·.1.id = inodeId)) ∧ view fs.geometry image inodeId =
      .used last (kept.foldl (fun bytes call => call.2.result bytes) bytes)

section

variable {calls done : List FileCall} {image' : Image} {inodeId : ℕ} {call : FileCall}
  (h : Survives fs image calls done inodeId bytes)
include h

theorem Survives.idle (hview : view fs.geometry image' = view fs.geometry image) :
    Survives fs image' (calls ++ [call]) done inodeId bytes := by
  obtain ⟨last, kept, hdone, hkept, hlast⟩ := h
  refine ⟨last, kept, hdone, ?_, by rwa [hview]⟩
  exact hkept.trans ((List.sublist_append_left _ [call]).filter _)

theorem Survives.update {updated : Inode} {bytes' : List UInt8}
    (hopen : OpenFile fs.geometry image call.1 bytes') (hview : view fs.geometry image' =
      Function.update (view fs.geometry image) call.1.id (.used updated (call.2.result bytes')))
    {done' : List FileCall} (hdone' : done'.Sublist (done ++ [call])) :
    Survives fs image' (calls ++ [call]) done' inodeId bytes := by
  obtain ⟨last, kept, hdone, hkept, hlast⟩ := h
  have hmore := hdone'.filter (·.1.id = inodeId)
  rw [List.filter_append] at hmore
  rw [Survives, List.filter_append, hview]
  by_cases hself : call.1.id = inodeId
  · subst hself
    cases hopen.view.symm.trans hlast
    refine ⟨updated, kept ++ [call], ?_, ?_, ?_⟩
    · simpa using hmore.trans (hdone.append_right _)
    · simpa using hkept.append_right [call]
    · rw [update_self, List.foldl_append]
      rfl
  · rw [update_of_ne (Ne.symm hself)]
    have hnone : [call].filter (·.1.id = inodeId) = [] := by simp [hself]
    rw [hnone, List.append_nil] at hmore ⊢
    exact ⟨last, kept, hmore.trans hdone, hkept, hlast⟩

end

/-- After any number of crashes the volume mounts as it is, and each file has the bytes that some
of the calls on it make of its bytes, among them all that returned Ok. -/
theorem files_survive_crashes (h : Mounted fs image) {calls done : List FileCall} {image' : Image}
    (hcrashed : Crashed fs image calls done image') :
    Mounted fs image' ∧ (mount fs.device).run image' = (.ok fs, image') ∧
      ∀ inodeId inode bytes, view fs.geometry image inodeId = .used inode bytes →
        Survives fs image' calls done inodeId bytes := by
  induction hcrashed with
  | start =>
    exact ⟨h, h.run_mount, fun _ inode _ hview => ⟨inode, [], .slnil, .slnil, hview⟩⟩
  | cut _ call cut hview hexposes ih =>
    obtain ⟨hmiddle, -, hfiles⟩ := ih
    rcases call.2.crash_of_not_exposes hmiddle cut hview hexposes with hquiet | ⟨_, hopen, hupd⟩
    · have hmounted := hmiddle.quiet hquiet
      exact ⟨hmounted, hmounted.run_mount, fun inodeId inode bytes hinode =>
        (hfiles inodeId inode bytes hinode).idle hquiet.view⟩
    · have hmounted := hupd.mounted hmiddle hopen
      exact ⟨hmounted, hmounted.run_mount, fun inodeId inode bytes hinode =>
        (hfiles inodeId inode bytes hinode).update hopen hupd.2.view
          (List.sublist_append_left _ _)⟩
  | returned _ call hview hexposes ih =>
    obtain ⟨hmiddle, -, hfiles⟩ := ih
    obtain ⟨hmounted, hcases⟩ := call.run_cases hmiddle fun _ _ hview' => by
      cases hview.symm.trans hview'
      exact hexposes
    refine ⟨hmounted, hmounted.run_mount, fun inodeId inode bytes hinode => ?_⟩
    rcases hcases with ⟨_, _, hok, hopen, hafter⟩ | ⟨_, herror, hafter⟩
    · exact (hfiles inodeId inode bytes hinode).update hopen hafter (by rw [hok]; exact .refl _)
    · rw [herror]
      exact (hfiles inodeId inode bytes hinode).idle hafter

theorem files_survive_slack : ∃ inode image',
    Crashed smallFileSystem slackImage [(inode, .write 2 [7])] [] image' ∧
      (mount smallDevice).run image' = (.ok smallFileSystem, image') := by
  obtain ⟨inode, -, hmounted, hview, -⟩ := exists_slackFile
  have hcrashed : Crashed smallFileSystem slackImage _ _ _ :=
    .cut .start (inode, .write 2 [7]) 1 hview id
  exact ⟨inode, _, hcrashed, (files_survive_crashes hmounted hcrashed).2.1⟩

end Kurogane.KuroFS
