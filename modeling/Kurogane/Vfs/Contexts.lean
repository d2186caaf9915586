/-
# Path contexts

A path context starts at the global root once the file system is up, and is changed by
`chdir` and `chroot` only. Whatever the backends answer, its working directory stays
below its root, and a path normalised in it stays below the root too.
-/

import Kurogane.Vfs.Vfs

namespace Kurogane.Vfs

open Math Call

variable {ε α β : Type}

inductive ContextRequest
  | chdir (path : Option Text)
  | chroot (path : Option Text)

/-- A failed request leaves the context as it was. -/
def changeContext (context : PathContext) (world : World ε) : ContextRequest → PathContext
  | .chdir path => (chdir context path world).1.toOption.getD context
  | .chroot path => (chroot context path world).1.toOption.getD context

/-- The contexts that `initialize_path_context`, and then `chdir` and `chroot`, lead to, in
whatever worlds they are called. -/
inductive ContextReachable (ε : Type) : PathContext → Prop
  | start {context : PathContext} (world : World ε)
      (hstart : (initializePathContext world).1 = .ok context) : ContextReachable ε context
  | change {context : PathContext} (hreachable : ContextReachable ε context) (world : World ε)
      (request : ContextRequest) : ContextReachable ε (changeContext context world request)

/-- The context holds canonical paths, the working directory below the root. -/
def PathContext.Confined (context : PathContext) (root cwd : List Component) : Prop :=
  IsCanonical root ∧ IsCanonical cwd ∧ root <+: cwd ∧
    context = ⟨terminated (joinPath separator root), terminated (joinPath separator cwd)⟩

variable {root cwd : List Component} {path : Option Text} {world : World ε}

theorem bind_eq_ok {call : Call ε α} {next : α → Call ε β} {value : β}
    (h : ((call >>= next) world).1 = .ok value) :
    ∃ first, (call world).1 = .ok first ∧ (next first (call world).2).1 = .ok value := by
  have hbind : (call >>= next) world = Call.bind call next world := rfl
  revert h
  rw [hbind, Call.bind]
  rcases call world with ⟨_ | first, _⟩
  · rintro ⟨⟩
  · exact fun h => ⟨first, rfl, h⟩

variable {context : PathContext}

theorem findDirectory_spec {normalized : NormalizedPath}
    (h : (findDirectory context path world).1 = .ok normalized) :
    normalizePath (some context) path = .ok normalized := by
  obtain ⟨_, -, h⟩ := bind_eq_ok h
  obtain ⟨-, -, h⟩ := bind_eq_ok h
  obtain ⟨_, hfound, h⟩ := bind_eq_ok h
  obtain ⟨_, -, h⟩ := bind_eq_ok h
  obtain ⟨-, -, h⟩ := bind_eq_ok h
  cases h
  exact hfound

/-- Where a confined context leads, when it leads anywhere. -/
theorem PathContext.Confined.normalizePath_eq_ok (hconfined : context.Confined root cwd)
    {output : NormalizedPath} (h : normalizePath (some context) path = .ok output) :
    ∃ text input components, path = some text ∧ boundedText text = .ok input ∧
      components = resolve root.length
        (if input.head? = some separator then root else cwd) (inputComponents input) ∧
      IsCanonical components ∧ root <+: components ∧
      output.value = joinPath separator components := by
  obtain ⟨hroot, hcwd, -, rfl⟩ := hconfined
  cases path with
  | none => cases h
  | some text =>
    obtain ⟨_, _, input, hroot', hcwd', -, hroottext, hcwdtext, hinput, components,
      hcomps, hrest⟩ := normalizePath_spec h
    -- The context spells only one root and one working directory.
    have hunique : ∀ {left right : List Component}, IsCanonical left → IsCanonical right →
        boundedText (terminated (joinPath separator left)) =
          .ok (joinPath separator right) → right = left := by
      intro left right hleft hright htext
      rw [boundedText_terminated hleft.length_le (zero_notMem_joinPath hleft),
        Except.ok.injEq] at htext
      rw [← splitPath_joinPath hright.isComponent, ← htext, splitPath_joinPath hleft.isComponent]
    obtain rfl := hunique hroot hroot' hroottext
    obtain rfl := hunique hcwd hcwd' hcwdtext
    exact ⟨text, input, components, rfl, hinput, hcomps, hrest⟩

theorem PathContext.Confined.change
    (hconfined : context.Confined root cwd) (world : World ε) (request : ContextRequest) :
    ∃ root' cwd', (changeContext context world request).Confined root' cwd' := by
  cases request with
  | chdir path =>
    rw [changeContext]
    cases hres : (Vfs.chdir context path world).1 with
    | error => exact ⟨root, cwd, hconfined⟩
    | ok =>
      obtain ⟨normalized, hfound, hchanged⟩ := bind_eq_ok hres
      cases hchanged
      obtain ⟨-, -, components, -, -, -, hcanon, hbelow, hvalue⟩ :=
        hconfined.normalizePath_eq_ok (findDirectory_spec hfound)
      obtain ⟨hroot, -, -, rfl⟩ := hconfined
      exact ⟨root, components, hroot, hcanon, hbelow, by rw [← hvalue]; rfl⟩
  | chroot path =>
    rw [changeContext]
    cases hres : (Vfs.chroot context path world).1 with
    | error => exact ⟨root, cwd, hconfined⟩
    | ok =>
      obtain ⟨_, hfound, hchanged⟩ := bind_eq_ok hres
      cases hchanged
      obtain ⟨-, -, components, -, -, -, hcanon, -, hvalue⟩ :=
        hconfined.normalizePath_eq_ok (findDirectory_spec hfound)
      exact ⟨components, components, hcanon, hcanon, List.prefix_rfl, by rw [← hvalue]; rfl⟩

theorem ContextReachable.confined (h : ContextReachable ε context) :
    ∃ root cwd, context.Confined root cwd := by
  induction h with
  | start world hstart =>
    obtain ⟨_, -, hstart⟩ := bind_eq_ok hstart
    obtain ⟨_, -, hstart⟩ := bind_eq_ok hstart
    cases hstart
    exact ⟨[], [], isCanonical_nil, isCanonical_nil, List.prefix_rfl, rfl⟩
  | change _ world request ih =>
    obtain ⟨_, _, hconfined⟩ := ih
    exact hconfined.change world request

/-- In every context that can be reached, the working directory is below the root, and a path
that is normalised is canonical, below the root, what folding its components gives, and left as
it is when it is normalised again from the global root. -/
theorem normalizePath_confined (hreachable : ContextReachable ε context) (path : Option Text) :
    ∃ root cwd, IsCanonical root ∧ IsCanonical cwd ∧ root <+: cwd ∧
      context = ⟨terminated (joinPath separator root), terminated (joinPath separator cwd)⟩ ∧
      ∀ output, normalizePath (some context) path = .ok output →
        ∃ text input components, path = some text ∧ boundedText text = .ok input ∧
          components = resolve root.length
            (if input.head? = some separator then root else cwd) (inputComponents input) ∧
          IsCanonical components ∧ root <+: components ∧
          output.value = joinPath separator components ∧
          validateCanonicalGlobal (terminated output.value) =
            .ok (output.value, components.length) ∧
          ∃ again, normalizePath (some globalContext) (some (terminated output.value)) =
            .ok again ∧ again.value = output.value := by
  obtain ⟨root, cwd, hconfined⟩ := hreachable.confined
  refine ⟨root, cwd, hconfined.1, hconfined.2.1, hconfined.2.2.1, hconfined.2.2.2,
    fun output houtput => ?_⟩
  obtain ⟨text, input, components, hpath, hinput, hcomponents, hcanonical, hfront, hvalue⟩ :=
    hconfined.normalizePath_eq_ok houtput
  obtain ⟨_, hagain⟩ := normalizePath_canonical hcanonical
  rw [← hvalue] at hagain
  refine ⟨text, input, components, hpath, hinput, hcomponents, hcanonical, hfront, hvalue, ?_,
    _, hagain, rfl⟩
  rw [hvalue]
  exact validateCanonicalGlobal_terminated hcanonical

def plainFileSystem : FileSystem Unit where
  statPath := some fun _ environment => (.ok ⟨.directory, 0, 0⟩, environment)
  openFile := none
  closeFile := none
  readFile := none
  writeFile := none
  statOpen := none
  readdir := none
  create := none
  unlink := none
  rename := none
  mkdir := none
  rmdir := none
  sync := none
  isReadOnly := true

def plainWorld : World Unit := ⟨rootState plainFileSystem, (), []⟩

def jail : PathContext := changeContext globalContext plainWorld (.chroot (terminated [47, 106]))

/-- From the jail `../b` leads to `/j/b`. -/
theorem normalizePath_confined_jail :
    ContextReachable Unit jail ∧
      (normalizePath jail (terminated [46, 46, 47, 98])).map NormalizedPath.value =
        .ok [47, 106, 47, 98] ∧
      ∃ root cwd, root <+: cwd ∧
        jail = ⟨terminated (joinPath separator root), terminated (joinPath separator cwd)⟩ ∧
        ∀ output, normalizePath jail (terminated [46, 46, 47, 98]) = .ok output →
          ∃ components, root <+: components ∧ output.value = joinPath separator components := by
  have hreachable : ContextReachable Unit jail := .change (.start plainWorld rfl) _ _
  obtain ⟨root, cwd, -, -, hbelow, hjail, houtput⟩ :=
    normalizePath_confined hreachable (terminated [46, 46, 47, 98])
  refine ⟨hreachable, by rfl, root, cwd, hbelow, hjail, fun output hok => ?_⟩
  obtain ⟨-, -, components, -, -, -, -, hfront, hvalue, -⟩ := houtput output hok
  exact ⟨components, hfront, hvalue⟩

end Kurogane.Vfs
