/-
# Paths of the virtual file system

The path code of `src/kernel/fs/vfs.cpp`. A canonical path is edited in one buffer:
every appended component leaves behind the length of the buffer in front of it, and
a `..` cuts the buffer back to the last such length. Here the buffer is shown to
spell a list of components, so that normalising a path is folding its components
over those of the root or of the working directory.
-/

import Kurogane.Math.Separated
import Mathlib.Data.Fintype.Basic

namespace Kurogane.Vfs

open Math List

def maxNameLength : ℕ := 63
def maxPathLength : ℕ := 255
def maxPathDepth : ℕ := 32

inductive Status
  | notInitialized
  | alreadyInitialized
  | invalidArgument
  | invalidFlags
  | invalidPath
  | pathTooLong
  | nameTooLong
  | pathTooDeep
  | noRootFilesystem
  | notFound
  | alreadyExists
  | notDirectory
  | isDirectory
  | directoryNotEmpty
  | rootProtected
  | readOnly
  | permissionDenied
  | unsupported
  | notSeekable
  | endOfDirectory
  | bufferTooSmall
  | invalidHandle
  | staleHandle
  | mountNotFound
  | busy
  | mountTableFull
  | openFileTableFull
  | crossDevice
  | outOfRange
  | arithmeticOverflow
  | noSpace
  | outOfMemory
  | ioError
  | corruptFilesystem
  | backendFailure
  deriving DecidableEq

abbrev Component := List UInt8

/-- The bytes behind a pointer to text. -/
abbrev Text := ℕ → UInt8

def separator : UInt8 := 47
def dot : Component := [46]
def dotDot : Component := [46, 46]

/-- A buffer that holds the bytes and is zero behind them. -/
def terminated (bytes : List UInt8) : Text := fun index => bytes.getD index 0

/-- `bounded_length`: the bytes in front of the first zero. -/
def boundedText (text : Text) : Except Status (List UInt8) :=
  match (range (maxPathLength + 1)).find? fun index => text index == 0 with
  | some length => .ok ((range length).map text)
  | none => .error .pathTooLong

def pathIsComponentPrefix (front path : List UInt8) : Bool :=
  if front = [separator] then path.head? == some separator
  else if !(front.isPrefixOf path) then false
  else front.length == path.length || path[front.length]? == some separator

def validComponent (component : Component) : Bool :=
  component ≠ [] && component.length ≤ maxNameLength && component ≠ dot && component ≠ dotDot

/-- The loop of `validate_canonical_global`. -/
def countComponents : List Component → ℕ → Except Status ℕ
  | [], depth => .ok depth
  | component :: rest, depth =>
    if !validComponent component then .error .invalidPath
    else if depth = maxPathDepth then .error .pathTooDeep
    else countComponents rest (depth + 1)

def validateCanonicalGlobal (path : Text) : Except Status (List UInt8 × ℕ) :=
  match boundedText path with
  | .error status => .error status
  | .ok value =>
    if value.head? ≠ some separator ∨ (1 < value.length ∧ value.getLast? = some separator) then
      .error .invalidPath
    else
      match countComponents (splitPath separator value) 0 with
      | .error status => .error status
      | .ok depth => .ok (value, depth)

structure PathContext where
  root : Text
  cwd : Text

structure ContextPaths where
  root : List UInt8
  rootDepth : ℕ
  cwd : List UInt8

def validateContext : Option PathContext → Except Status ContextPaths
  | none => .error .invalidArgument
  | some context =>
    match validateCanonicalGlobal context.root with
    | .error _ => .error .invalidPath
    | .ok (root, rootDepth) =>
      match validateCanonicalGlobal context.cwd with
      | .error _ => .error .invalidPath
      | .ok (cwd, _) =>
        if pathIsComponentPrefix root cwd then .ok ⟨root, rootDepth, cwd⟩
        else .error .invalidPath

/-- The path under construction; `bases` is the used part of `component_bases`. -/
structure Candidate where
  value : List UInt8
  bases : List ℕ
  terminalSpecial : Bool

def appendComponent (candidate : Candidate) (component : Component) : Except Status Candidate :=
  if candidate.bases.length = maxPathDepth then .error .pathTooDeep
  else if component.length > maxNameLength then .error .nameTooLong
  else
    let gap := if candidate.value.length = 1 then [] else [separator]
    if candidate.value.length > maxPathLength - gap.length ∨
        component.length > maxPathLength - candidate.value.length - gap.length then
      .error .pathTooLong
    else
      .ok { candidate with
        value := candidate.value ++ gap ++ component
        bases := candidate.bases ++ [candidate.value.length] }

def appendCanonicalPath (candidate : Candidate) (path : List UInt8) : Except Status Candidate :=
  (splitPath separator path).foldlM appendComponent candidate

/-- One component of the input in `normalize_path`. -/
def normalizeComponent (rootDepth : ℕ) (candidate : Candidate) (component : Component) :
    Except Status Candidate :=
  if component.length > maxNameLength then .error .nameTooLong
  else if component = dot then .ok { candidate with terminalSpecial := true }
  else if component = dotDot then
    if candidate.bases.length > rootDepth then
      .ok ⟨candidate.value.take (candidate.bases.getLastD 0), candidate.bases.dropLast, true⟩
    else .ok { candidate with terminalSpecial := true }
  else appendComponent { candidate with terminalSpecial := false } component

/-- The components of the input; runs of separators are skipped. -/
def inputComponents (input : List UInt8) : List Component :=
  (input.splitOn separator).filter (· ≠ [])

structure NormalizedPath where
  value : List UInt8
  trailingSeparator : Bool
  terminalSpecial : Bool

/-- The canonical absolute path that a text stands for, below the root of the context. A path
with a separator in front starts at that root, any other at the working directory. -/
def normalizePath (context : Option PathContext) : Option Text → Except Status NormalizedPath
  | none => .error .invalidArgument
  | some path =>
    match validateContext context with
    | .error status => .error status
    | .ok paths =>
      match boundedText path with
      | .error status => .error status
      | .ok input =>
        if input = [] then .error .invalidPath
        else
          let base := if input.head? = some separator then paths.root else paths.cwd
          match appendCanonicalPath ⟨[separator], [], false⟩ base with
          | .error status => .error status
          | .ok candidate =>
            match (inputComponents input).foldlM (normalizeComponent paths.rootDepth)
              candidate with
            | .error status => .error status
            | .ok result =>
              .ok ⟨result.value, input.getLast? == some separator,
                result.terminalSpecial⟩

/-! ## Canonical paths -/

/-- The components of a path that the checks accept. -/
structure IsCanonical (components : List Component) : Prop where
  valid : ∀ component ∈ components, validComponent component
  separated : ∀ component ∈ components, separator ∉ component
  unterminated : ∀ component ∈ components, 0 ∉ component
  depth_le : components.length ≤ maxPathDepth
  length_le : (joinPath separator components).length ≤ maxPathLength

variable {components others : List Component} {component : Component} {candidate : Candidate}

theorem validComponent_iff :
    validComponent component ↔
      component ≠ [] ∧ component.length ≤ maxNameLength ∧ component ≠ dot ∧
        component ≠ dotDot := by
  simp [validComponent, and_assoc]

theorem IsCanonical.isComponent (hcanon : IsCanonical components) :
    ∀ component ∈ components, IsComponent separator component := fun component hmem =>
  ⟨(validComponent_iff.mp (hcanon.valid component hmem)).1, hcanon.separated component hmem⟩

theorem isCanonical_nil : IsCanonical [] where
  valid := by simp
  separated := by simp
  unterminated := by simp
  depth_le := by simp
  length_le := by simp [joinPath_nil, maxPathLength]

theorem length_joinPath_concat (components : List Component) (component : Component) :
    (joinPath separator components).length ≤
      (joinPath separator (components ++ [component])).length := by
  rw [joinPath_concat]
  split
  · next hnil =>
    rw [hnil, joinPath_nil]
    simp
  · simp

theorem IsCanonical.dropLast (hcanon : IsCanonical components) :
    IsCanonical components.dropLast := by
  rcases eq_nil_or_concat' components with rfl | ⟨front, last, rfl⟩
  · exact hcanon
  rw [dropLast_concat]
  have hmem : ∀ component ∈ front, component ∈ front ++ [last] := fun component hmem =>
    mem_append_left _ hmem
  have hdepth := hcanon.depth_le
  rw [length_append] at hdepth
  exact ⟨fun component h => hcanon.valid component (hmem component h),
    fun component h => hcanon.separated component (hmem component h),
    fun component h => hcanon.unterminated component (hmem component h), by omega,
    (length_joinPath_concat front last).trans hcanon.length_le⟩

theorem zero_notMem_joinPath (hcanon : IsCanonical components) :
    (0 : UInt8) ∉ joinPath separator components := by
  rw [mem_joinPath_iff]
  rintro (hzero | ⟨component, hmem, hzero⟩)
  · exact absurd hzero (by decide)
  · exact hcanon.unterminated component hmem hzero

/-! ## Reading text -/

variable {result : Candidate} {inputs root : List Component} {value : List UInt8}
  {output : NormalizedPath} {context : PathContext} {path : Text} {depth rootDepth : ℕ}

theorem boundedText_spec {text : Text} (h : boundedText text = .ok value) :
    value.length ≤ maxPathLength ∧ (0 : UInt8) ∉ value := by
  rw [boundedText] at h
  split at h
  · next length hfind =>
    cases h
    have hmem := mem_range.mp (mem_of_find?_eq_some hfind)
    refine ⟨by simp only [length_map, length_range]; omega, ?_⟩
    rw [mem_map]
    rintro ⟨index, hidx, hzero⟩
    rw [mem_range] at hidx
    obtain ⟨-, before, _, happend, hpre⟩ := find?_eq_some_iff_append.mp hfind
    -- Every index in front of the one found was tried first.
    have hlen : before.length = length := by
      have hget := congrArg (·[before.length]?) happend
      simp only [getElem?_append_right le_rfl, Nat.sub_self, getElem?_cons_zero] at hget
      exact ((List.getElem?_eq_some_iff.mp hget).2.symm.trans (List.getElem_range _)).symm
    have hin : index ∈ before := by
      have hget := congrArg (·[index]?) happend
      simp only [getElem?_append_left (hlen ▸ hidx)] at hget
      rw [getElem?_range (by omega)] at hget
      exact mem_of_getElem? hget.symm
    simpa [hzero] using hpre index hin
  · cases h

theorem boundedText_terminated {bytes : List UInt8} (hlen : bytes.length ≤ maxPathLength)
    (hzero : (0 : UInt8) ∉ bytes) : boundedText (terminated bytes) = .ok bytes := by
  have hrange : range (maxPathLength + 1) = range bytes.length ++ bytes.length ::
        (range (maxPathLength - bytes.length)).map (bytes.length + 1 + ·) := by
    rw [show maxPathLength + 1 = (bytes.length + 1) + (maxPathLength - bytes.length) by omega,
      range_add, range_succ, append_assoc]
    rfl
  have hfind : (range (maxPathLength + 1)).find? (fun index => terminated bytes index == 0) =
      some bytes.length := by
    rw [find?_eq_some_iff_append]
    refine ⟨by simp [terminated], _, _, hrange, fun index hidx => ?_⟩
    have hlt := mem_range.mp hidx
    have hne : bytes[index] ≠ 0 := fun heq => hzero (heq ▸ getElem_mem hlt)
    simpa [terminated, hlt] using hne
  rw [boundedText, hfind]
  refine congrArg Except.ok (ext_getElem (by simp) fun index hleft hright => ?_)
  simp [terminated, hright]

/-! ## The global check -/

theorem countComponents_eq_ok_iff {total : ℕ} (hdepth : depth ≤ maxPathDepth) :
    countComponents components depth = .ok total ↔
      (∀ component ∈ components, validComponent component) ∧
        total = depth + components.length ∧ total ≤ maxPathDepth := by
  induction components generalizing depth with
  | nil =>
    rw [countComponents, Except.ok.injEq]
    simp only [not_mem_nil, false_implies, implies_true, length_nil, true_and]
    omega
  | cons _ _ ih =>
    rw [countComponents]
    simp only [mem_cons, forall_eq_or_imp, length_cons]
    split
    · next hvalid => simp_all
    next hvalid =>
    rw [Bool.not_eq_true', Bool.not_eq_false] at hvalid
    split
    · next hfull =>
      simp only [reduceCtorEq, false_iff, not_and]
      rintro - rfl
      omega
    rw [ih (by omega)]
    simp only [hvalid, true_and]
    refine and_congr_right fun _ => ?_
    omega

theorem validateCanonicalGlobal_spec (h : validateCanonicalGlobal path = .ok (value, depth)) :
    boundedText path = .ok value ∧
      ∃ components, IsCanonical components ∧ value = joinPath separator components ∧
        depth = components.length := by
  rw [validateCanonicalGlobal] at h
  split at h
  · cases h
  next bytes hbytes =>
  split at h
  · cases h
  next hform =>
  rw [not_or, not_not] at hform
  split at h
  · cases h
  next total hcount =>
  rw [Except.ok.injEq, Prod.mk.injEq] at h
  obtain ⟨rfl, rfl⟩ := h
  obtain ⟨hvalid, _, _⟩ := (countComponents_eq_ok_iff (Nat.zero_le _)).mp hcount
  obtain ⟨hlen, hzero⟩ := boundedText_spec hbytes
  have hjoin := joinPath_splitPath hform.1
  have hsep : ∀ component ∈ splitPath separator bytes, separator ∉ component := by
    intro component hmem
    rw [splitPath] at hmem
    split at hmem
    · exact absurd hmem not_mem_nil
    · exact not_mem_of_mem_splitOn hmem
  refine ⟨hbytes, _, ⟨hvalid, hsep, ?_, ?_, ?_⟩, hjoin.symm, by omega⟩
  · intro component hmem hmember
    apply hzero
    rw [← hjoin]
    exact mem_joinPath_iff.mpr (.inr ⟨component, hmem, hmember⟩)
  · omega
  · rw [hjoin]
    exact hlen

theorem validateCanonicalGlobal_terminated (hcanon : IsCanonical components) :
    validateCanonicalGlobal (terminated (joinPath separator components)) =
      .ok (joinPath separator components, components.length) := by
  have hbytes := boundedText_terminated hcanon.length_le (zero_notMem_joinPath hcanon)
  have hcount : countComponents components 0 = .ok components.length :=
    (countComponents_eq_ok_iff (Nat.zero_le _)).mpr
      ⟨hcanon.valid, by omega, hcanon.depth_le⟩
  have hform : ¬((joinPath separator components).head? ≠ some separator ∨
      (1 < (joinPath separator components).length ∧
        (joinPath separator components).getLast? = some separator)) := by
    rintro (hhead | ⟨hlen, hlast⟩)
    · exact hhead rfl
    · refine getLast?_joinPath hcanon.isComponent ?_ hlast
      rintro rfl
      exact absurd hlen (by rw [joinPath_nil]; simp)
  rw [validateCanonicalGlobal, hbytes]
  simp only [if_neg hform, splitPath_joinPath hcanon.isComponent, hcount]

/-! ## Component prefixes -/

theorem pathIsComponentPrefix_iff (hfront : IsCanonical components) (hpath : IsCanonical others) :
    pathIsComponentPrefix (joinPath separator components) (joinPath separator others) ↔
      components <+: others := by
  by_cases hnil : components = []
  · subst hnil
    rw [pathIsComponentPrefix, if_pos joinPath_nil]
    simp [joinPath]
  have hroot : joinPath separator components ≠ [separator] := fun heq =>
    hnil ((length_joinPath_nil_iff hfront.isComponent).mp (by rw [heq, length_singleton]))
  rw [← continues_joinPath_iff hfront.isComponent hpath.isComponent hnil, pathIsComponentPrefix,
    if_neg hroot]
  constructor
  · intro h
    split at h
    · cases h
    next hstarts =>
    rw [Bool.not_eq_true', Bool.not_eq_false, isPrefixOf_iff_prefix] at hstarts
    obtain ⟨rest, hrest⟩ := hstarts
    refine ⟨rest, hrest.symm, ?_⟩
    rw [Bool.or_eq_true, beq_iff_eq, beq_iff_eq, ← hrest, length_append,
      getElem?_append_right le_rfl, Nat.sub_self] at h
    rcases h with _ | hhead
    · exact .inl (length_eq_zero_iff.mp (by omega))
    · rw [← head?_eq_getElem?] at hhead
      exact .inr hhead
  · rintro ⟨_, hrest, hend⟩
    rw [hrest, if_neg (by simp)]
    rw [Bool.or_eq_true, beq_iff_eq, beq_iff_eq, length_append,
      getElem?_append_right le_rfl, Nat.sub_self, ← head?_eq_getElem?]
    rcases hend with rfl | hhead
    · exact .inl (by simp)
    · exact .inr hhead

theorem validateContext_spec {paths : ContextPaths}
    (h : validateContext (some context) = .ok paths) :
    ∃ root cwd, IsCanonical root ∧ IsCanonical cwd ∧ root <+: cwd ∧
      paths = ⟨joinPath separator root, root.length, joinPath separator cwd⟩ ∧
      boundedText context.root = .ok (joinPath separator root) ∧
      boundedText context.cwd = .ok (joinPath separator cwd) := by
  rw [validateContext] at h
  split at h
  · cases h
  next root rootDepth hroot =>
  split at h
  · cases h
  next cwd cwdDepth hcwd =>
  split at h
  · next hbelow =>
    cases h
    obtain ⟨hroottext, rootComponents, hrootcanonical, rfl, rfl⟩ :=
      validateCanonicalGlobal_spec hroot
    obtain ⟨hcwdtext, cwdComponents, hcwdcanonical, rfl, -⟩ := validateCanonicalGlobal_spec hcwd
    exact ⟨rootComponents, cwdComponents, hrootcanonical, hcwdcanonical,
      (pathIsComponentPrefix_iff hrootcanonical hcwdcanonical).mp hbelow, rfl, hroottext, hcwdtext⟩
  · cases h

/-! ## The buffer spells a list of components -/

/-- The buffer is the text of the components, and each base the length of the text in front of
its component. -/
structure Candidate.Spells (candidate : Candidate) (components : List Component) : Prop where
  canonical : IsCanonical components
  value_eq : candidate.value = joinPath separator components
  bases_eq : candidate.bases = (range components.length).map fun index =>
    (joinPath separator (components.take index)).length

namespace Candidate.Spells

section

variable (hspells : candidate.Spells components)
include hspells

theorem bases_length : candidate.bases.length = components.length := by
  rw [hspells.bases_eq, length_map, length_range]

theorem mark (special : Bool) : { candidate with terminalSpecial := special }.Spells components :=
  { hspells with }

/-- What `append_component` does to the buffer is what joining one more component does. -/
theorem appendComponent_eq (component : Component) :
    appendComponent candidate component =
      if components.length = maxPathDepth then .error .pathTooDeep
      else if component.length > maxNameLength then .error .nameTooLong
      else if maxPathLength < (joinPath separator (components ++ [component])).length then
        .error .pathTooLong
      else .ok { candidate with
        value := joinPath separator (components ++ [component])
        bases := candidate.bases ++ [(joinPath separator components).length] } := by
  rw [appendComponent, hspells.bases_length, hspells.value_eq]
  refine if_congr Iff.rfl rfl (if_congr Iff.rfl rfl ?_)
  have hle := hspells.canonical.length_le
  have hone := length_joinPath_nil_iff hspells.canonical.isComponent
  rw [joinPath_concat]
  by_cases hnil : components = []
  · subst hnil
    simp only [joinPath_nil, length_singleton, ↓reduceIte, length_nil, append_nil, singleton_append]
    refine if_congr ?_ rfl rfl
    simp only [length_cons, maxPathLength]
    omega
  simp only [mt hone.mp hnil, hnil, ↓reduceIte, length_singleton, append_assoc, singleton_append]
  refine if_congr ?_ rfl rfl
  simp only [length_append, length_cons, maxPathLength] at hle ⊢
  omega

theorem concat (hvalid : validComponent component) (hsep : separator ∉ component)
    (hunterm : (0 : UInt8) ∉ component) (hdepth : components.length < maxPathDepth)
    (hlen : (joinPath separator (components ++ [component])).length ≤ maxPathLength) :
    { candidate with
      value := joinPath separator (components ++ [component])
      bases := candidate.bases ++ [(joinPath separator components).length] }.Spells
        (components ++ [component]) := by
  refine ⟨⟨?_, ?_, ?_, ?_, hlen⟩, rfl, ?_⟩
  · simpa [or_imp, forall_and] using ⟨hspells.canonical.valid, hvalid⟩
  · simpa [or_imp, forall_and] using ⟨hspells.canonical.separated, hsep⟩
  · simpa [or_imp, forall_and] using ⟨hspells.canonical.unterminated, hunterm⟩
  · rw [length_append, length_singleton]
    exact hdepth
  simp only [hspells.bases_eq, length_append, length_singleton, range_succ,
    map_append, map_singleton, take_left]
  refine congrArg (· ++ _) (map_congr_left fun index hidx => ?_)
  rw [take_append_of_le_length (mem_range.mp hidx).le]

theorem append_spec (hne : component ≠ []) (hdot : component ≠ dot)
    (hdotdot : component ≠ dotDot) (hsep : separator ∉ component)
    (hunterm : (0 : UInt8) ∉ component) (h : appendComponent candidate component = .ok result) :
    result.Spells (components ++ [component]) := by
  rw [hspells.appendComponent_eq] at h
  have hdepth := hspells.canonical.depth_le
  split at h
  · cases h
  split at h
  · cases h
  split at h
  · cases h
  cases h
  exact hspells.concat (validComponent_iff.mpr ⟨hne, by omega, hdot, hdotdot⟩) hsep
    hunterm (by omega) (by omega)

/-- Cutting the buffer at the last base takes the last component off. -/
theorem pop (hne : components ≠ []) (special : Bool) :
    Candidate.Spells ⟨candidate.value.take (candidate.bases.getLastD 0), candidate.bases.dropLast,
      special⟩ components.dropLast := by
  obtain ⟨front, _, rfl⟩ := eq_nil_or_concat' components |>.resolve_left hne
  have hbases : candidate.bases = ((range front.length).map fun index =>
      (joinPath separator (front.take index)).length) ++ [(joinPath separator front).length] := by
    rw [hspells.bases_eq, length_append, length_singleton, range_succ,
      map_append, map_singleton, take_left]
    refine congrArg (· ++ _) (map_congr_left fun index hidx => ?_)
    rw [take_append_of_le_length (mem_range.mp hidx).le]
  refine ⟨hspells.canonical.dropLast, ?_, ?_⟩
  · simp only [hbases, hspells.value_eq, dropLast_concat, getLastD_concat]
    rw [joinPath_concat]
    split
    · next hnil =>
      rw [hnil, joinPath_nil]
      rfl
    · rw [take_left]
  · simp only [hbases, dropLast_concat]

end

end Candidate.Spells

theorem spells_start : Candidate.Spells ⟨[separator], [], false⟩ [] :=
  ⟨isCanonical_nil, rfl, rfl⟩

/-- A step that appends valid components appends every list of them that stays within the
bounds. -/
theorem foldlM_append {step : Candidate → Component → Except Status Candidate}
    (hstep : ∀ {candidate component}, candidate.terminalSpecial = false →
      validComponent component → step candidate component = appendComponent candidate component)
    (hspells : candidate.Spells components) (hplain : candidate.terminalSpecial = false)
    (hcanon : IsCanonical (components ++ others)) :
    ∃ result : Candidate, others.foldlM step candidate = .ok result ∧
      result.Spells (components ++ others) ∧ result.terminalSpecial = false := by
  induction others generalizing candidate components with
  | nil => exact ⟨candidate, rfl, by rwa [append_nil], hplain⟩
  | cons component rest ih =>
    have happend : components ++ component :: rest = components ++ [component] ++ rest := by simp
    have hmem : component ∈ components ++ component :: rest := by simp
    have hvalid := hcanon.valid component hmem
    have hdepth := hcanon.depth_le
    simp only [length_append, length_cons] at hdepth
    have hlen : (joinPath separator (components ++ [component])).length ≤ maxPathLength := by
      refine le_trans ?_ hcanon.length_le
      rw [happend]
      clear ih hcanon happend hmem hdepth
      induction rest using reverseRecOn with
      | nil => rw [append_nil]
      | append_singleton _ _ ih =>
        refine ih.trans ?_
        rw [← append_assoc]
        exact length_joinPath_concat _ _
    have hnext := hspells.concat hvalid (hcanon.separated component hmem)
      (hcanon.unterminated component hmem) (by omega) hlen
    have hshort := (validComponent_iff.mp hvalid).2.1
    rw [foldlM_cons, hstep hplain hvalid, hspells.appendComponent_eq, if_neg (by omega),
      if_neg (by omega), if_neg (by omega), happend]
    exact ih hnext hplain (happend ▸ hcanon)

theorem appendCanonicalPath_joinPath (hcanon : IsCanonical components) :
    ∃ candidate : Candidate,
      appendCanonicalPath ⟨[separator], [], false⟩ (joinPath separator components) =
        .ok candidate ∧
      candidate.Spells components ∧ candidate.terminalSpecial = false := by
  rw [appendCanonicalPath, splitPath_joinPath hcanon.isComponent]
  exact foldlM_append (fun _ _ => rfl) spells_start rfl hcanon

/-! ## Normalising is folding -/

/-- The component list after one more component of the input, `..` clamped at the root. -/
def resolveComponent (rootDepth : ℕ) (components : List Component) (component : Component) :
    List Component :=
  if component = dot then components
  else if component = dotDot then
    if rootDepth < components.length then components.dropLast else components
  else components ++ [component]

/-- Folding the components of the input over a list of components. -/
def resolve (rootDepth : ℕ) (base inputs : List Component) : List Component :=
  inputs.foldl (resolveComponent rootDepth) base

theorem normalizeComponent_spec (hspells : candidate.Spells components) (hne : component ≠ [])
    (hsep : separator ∉ component) (hunterm : (0 : UInt8) ∉ component)
    (h : normalizeComponent rootDepth candidate component = .ok result) :
    result.Spells (resolveComponent rootDepth components component) := by
  rw [normalizeComponent] at h
  rw [resolveComponent]
  split at h
  · cases h
  split at h
  · next hdot =>
    cases h
    rw [if_pos hdot]
    exact hspells.mark true
  next hdot =>
  rw [if_neg hdot]
  split at h
  · next hdotdot =>
    rw [if_pos hdotdot]
    rw [hspells.bases_length] at h
    split at h
    · next hdepth =>
      cases h
      rw [if_pos hdepth]
      exact hspells.pop (by rintro rfl; simp at hdepth) true
    next hdepth =>
    cases h
    rw [if_neg hdepth]
    exact hspells.mark true
  · next hdotdot =>
    rw [if_neg hdotdot]
    exact (hspells.mark false).append_spec hne hdot hdotdot hsep hunterm h

theorem normalizeComponent_valid {candidate : Candidate} {component : Component}
    (hplain : candidate.terminalSpecial = false) (hvalid : validComponent component) :
    normalizeComponent rootDepth candidate component = appendComponent candidate component := by
  obtain ⟨-, _, hdot, hdotdot⟩ := validComponent_iff.mp hvalid
  rw [normalizeComponent, if_neg (by omega), if_neg hdot, if_neg hdotdot, ← hplain]

theorem foldlM_normalizeComponent
    (hspells : candidate.Spells components) (hne : ∀ component ∈ inputs, component ≠ [])
    (hsep : ∀ component ∈ inputs, separator ∉ component)
    (hunterm : ∀ component ∈ inputs, (0 : UInt8) ∉ component)
    (h : inputs.foldlM (normalizeComponent rootDepth) candidate = .ok result) :
    result.Spells (resolve rootDepth components inputs) := by
  induction inputs generalizing candidate components with
  | nil =>
    cases h
    exact hspells
  | cons component _ ih =>
    rw [forall_mem_cons] at hne hsep hunterm
    rw [foldlM_cons] at h
    cases hstep : normalizeComponent rootDepth candidate component with
    | error =>
      rw [hstep] at h
      cases h
    | ok =>
      rw [hstep] at h
      exact ih (normalizeComponent_spec hspells hne.1 hsep.1 hunterm.1 hstep)
        hne.2 hsep.2 hunterm.2 h

theorem isPrefix_resolve {base : List Component} (h : root <+: base) :
    root <+: resolve root.length base inputs := by
  induction inputs generalizing base with
  | nil => exact h
  | cons _ _ ih =>
    refine ih ?_
    rw [resolveComponent]
    split
    · exact h
    split
    · split
      · next hlen =>
        obtain ⟨others, rfl⟩ := h
        have hothers : others ≠ [] := by
          rintro rfl
          simp at hlen
        rw [dropLast_append_of_ne_nil hothers]
        exact prefix_append _ _
      · exact h
    · exact h.trans (prefix_append _ _)

theorem mem_inputComponents {input : List UInt8} (h : component ∈ inputComponents input) :
    component ≠ [] ∧ separator ∉ component ∧ ∀ byte ∈ component, byte ∈ input := by
  rw [inputComponents, mem_filter, decide_eq_true_eq] at h
  exact ⟨h.2, not_mem_of_mem_splitOn h.1, fun byte hbyte => mem_of_mem_splitOn h.1 hbyte⟩

theorem inputComponents_joinPath (hcanon : IsCanonical components) :
    inputComponents (joinPath separator components) = components := by
  have hfilter : components.filter (· ≠ []) = components := filter_eq_self.mpr fun component hmem =>
      decide_eq_true (hcanon.isComponent component hmem).1
  by_cases hnil : components = []
  · rw [hnil]
    rfl
  rw [inputComponents, joinPath, splitOn, splitOnP_cons_eq_if_modifyHead,
    if_pos (by simp), filter_cons_of_neg (by simp), ← splitOn,
    splitOn_intercalate separator hcanon.separated hnil, hfilter]

/-- What a successful `normalize_path` returns. -/
theorem normalizePath_spec (h : normalizePath (some context) (some path) = .ok output) :
    ∃ root cwd input, IsCanonical root ∧ IsCanonical cwd ∧ root <+: cwd ∧
      boundedText context.root = .ok (joinPath separator root) ∧
      boundedText context.cwd = .ok (joinPath separator cwd) ∧
      boundedText path = .ok input ∧
      ∃ components, components = resolve root.length
          (if input.head? = some separator then root else cwd) (inputComponents input) ∧
        IsCanonical components ∧ root <+: components ∧
        output.value = joinPath separator components := by
  rw [normalizePath] at h
  split at h
  · cases h
  next paths hpaths =>
  obtain ⟨root, cwd, hroot, hcwd, hbelow, rfl, hroottext, hcwdtext⟩ := validateContext_spec hpaths
  split at h
  · cases h
  next input hinput =>
  split at h
  · cases h
  dsimp only at h
  have hbase : (if input.head? = some separator then joinPath separator root
      else joinPath separator cwd) =
      joinPath separator (if input.head? = some separator then root else cwd) := by
    split <;> rfl
  have hcanon : IsCanonical (if input.head? = some separator then root else cwd) := by
    split
    · exact hroot
    · exact hcwd
  have hfront : root <+: if input.head? = some separator then root else cwd := by
    split
    · exact prefix_rfl
    · exact hbelow
  obtain ⟨_, hcand, hspells, -⟩ := appendCanonicalPath_joinPath hcanon
  rw [hbase, hcand] at h
  dsimp only at h
  split at h
  · cases h
  next result hres =>
  cases h
  have hfinal := foldlM_normalizeComponent hspells
    (fun component hmem => (mem_inputComponents hmem).1)
    (fun component hmem => (mem_inputComponents hmem).2.1)
    (fun component hmem hzero => (boundedText_spec hinput).2
      ((mem_inputComponents hmem).2.2 0 hzero)) hres
  exact ⟨root, cwd, input, hroot, hcwd, hbelow, hroottext, hcwdtext, hinput, _, rfl,
    hfinal.canonical, isPrefix_resolve hfront, hfinal.value_eq⟩

theorem normalizePath_canonical_of_ok {context : Option PathContext} {path : Option Text}
    (h : normalizePath context path = .ok output) :
    ∃ components, IsCanonical components ∧ output.value = joinPath separator components := by
  cases path with
  | none => cases h
  | some =>
    cases context with
    | none => cases h
    | some =>
      obtain ⟨-, -, -, -, -, -, -, -, -, components, -, hcanon, -, hvalue⟩ := normalizePath_spec h
      exact ⟨components, hcanon, hvalue⟩

/-- The context in which every path is meant from the global root. -/
def globalContext : PathContext := ⟨terminated [separator], terminated [separator]⟩

theorem validateContext_terminated {cwd : List Component} (hroot : IsCanonical root)
    (hcwd : IsCanonical cwd) (hbelow : root <+: cwd) :
    validateContext (some ⟨terminated (joinPath separator root),
        terminated (joinPath separator cwd)⟩) =
      .ok ⟨joinPath separator root, root.length, joinPath separator cwd⟩ := by
  simp only [validateContext, validateCanonicalGlobal_terminated hroot,
    validateCanonicalGlobal_terminated hcwd, (pathIsComponentPrefix_iff hroot hcwd).mpr hbelow,
    ↓reduceIte]

/-- A canonical path is normalised to itself in the global context. -/
theorem normalizePath_canonical (hcanon : IsCanonical components) :
    ∃ trailing, normalizePath (some globalContext)
        (some (terminated (joinPath separator components))) =
      .ok ⟨joinPath separator components, trailing, false⟩ := by
  have hcontext : validateContext (some globalContext) = .ok ⟨[separator], 0, [separator]⟩ :=
    validateContext_terminated isCanonical_nil isCanonical_nil prefix_rfl
  have hbytes := boundedText_terminated hcanon.length_le (zero_notMem_joinPath hcanon)
  have hne : joinPath separator components ≠ [] := cons_ne_nil _ _
  obtain ⟨_, hres, hspells, hplain⟩ := foldlM_append (@normalizeComponent_valid 0) spells_start rfl
      (show IsCanonical ([] ++ components) from hcanon)
  refine ⟨(joinPath separator components).getLast? == some separator, ?_⟩
  have hstart : appendCanonicalPath ⟨[separator], [], false⟩ [separator] =
      .ok ⟨[separator], [], false⟩ := rfl
  simp only [normalizePath, hcontext, hbytes, if_neg hne, ite_self, hstart,
    inputComponents_joinPath hcanon, hres, hspells.value_eq, hplain, nil_append]

end Kurogane.Vfs
