/-
# User pointers

The checks of `src/kernel/user/runtime_base.inc` on the pointers a process passes
to the kernel. A buffer is accepted page by page: the loop queries the page of its
first byte, and goes on until it has queried that of its last. What is accepted is
stated byte by byte.
-/

import Kurogane.Memory.SpaceRuns
import Kurogane.Vfs.Paths

namespace Kurogane.User

open BitVec hiding and_assoc

open Memory Function

variable {σ : Type} {region : Region}

/-! ## The source -/

def userRegionBase : Word := 0x0000400000000000

def userRegionSize : Word := 64 * 1024 * 1024

def userRegionEnd : Word := userRegionBase + userRegionSize

/-- What the checks read of a process. An active process has an address space that was
initialized over the frames of the kernel. -/
structure Context (region : Region) where
  active : Bool
  addressSpace : AddressSpace (Frames region)
  created : active = true → ∃ root bits machine machine',
    initializeAddressSpace root (kernelBackend region bits) machine = (.ok addressSpace, machine')

/-- The loop over the pages up to the last one. -/
def validatePages (space : AddressSpace σ) (requireWritable : Bool) (lastPage : Word) :
    ℕ → Word → Machine σ → Option (Bool × Machine σ)
  | 0, _, _ => none
  | fuel + 1, page, machine =>
    match queryPage space page machine with
    | (.error _, machine) => some (false, machine)
    | (.ok mapping, machine) =>
      if !hasFlag mapping.flags .user || (requireWritable && !hasFlag mapping.flags .writable) then
        some (false, machine)
      else if page = lastPage then some (true, machine)
      else
        validatePages space requireWritable lastPage fuel (page + BitVec.ofNat 64 pageSize) machine

def validateUserBuffer (context : Context region) (fuel : ℕ) (address size : Word)
    (requireWritable : Bool) (machine : Machine (Frames region)) :
    Option (Bool × Machine (Frames region)) :=
  if !context.active then some (false, machine)
  else if size = 0#64 then some (true, machine)
  else if address < userRegionBase ∨ address ≥ userRegionEnd ∨ size > userRegionEnd - address then
    some (false, machine)
  else
    let last := address + size - 1#64
    validatePages context.addressSpace requireWritable (last &&& ~~~pageOffsetMask) fuel
      (address &&& ~~~pageOffsetMask) machine

def copyBytes (source : ℕ → UInt8) : ℕ → ℕ → (ℕ → UInt8) → Bool × (ℕ → UInt8)
  | 0, _, output => (true, output)
  | remaining + 1, index, output =>
    if source index = 0 then (false, output)
    else copyBytes source remaining (index + 1) (Function.update output index (source index))

/-- `copy_user_path` with the bytes at the addresses of the process and the output buffer. -/
def copyUserPath (context : Context region) (fuel : ℕ) (bytes : Word → UInt8)
    (address length : Word) (output : ℕ → UInt8) (machine : Machine (Frames region)) :
    Option (Bool × (ℕ → UInt8) × Machine (Frames region)) :=
  if length = 0#64 ∨ length.toNat > Vfs.maxPathLength then some (false, output, machine)
  else
    match validateUserBuffer context fuel address length false machine with
    | none => none
    | some (false, machine) => some (false, output, machine)
    | some (true, machine) =>
      match copyBytes (fun index => bytes (address + BitVec.ofNat 64 index)) length.toNat 0
          output with
      | (false, output) => some (false, output, machine)
      | (true, output) =>
        let output := Function.update output length.toNat 0
        some (output 0 != 0, output, machine)

/-! ## What is mapped -/

section

variable (space : AddressSpace σ) (words : Word → Fin 512 → Word)

/-- The tables map a page, and the kernel has a pointer to each of them. -/
def Mapped (page : Word)
    (mapping : Mapping) : Prop :=
  canonicalAddress page ∧ ∃ path,
    walk space.physicalAddressMask words page [0, 1, 2] [] space.rootTablePhysical
      ⟨true, true, false⟩ = .ok path ∧
    0#64 ∉ path.tables ∧ mapping = mappingFromPath space page path

def Accessible (writing : Bool)
    (page : Word) : Prop :=
  ∃ mapping, Mapped space words page mapping ∧ hasFlag mapping.flags .user ∧
    (writing → hasFlag mapping.flags .writable)

def pageAt (number : ℕ) : Word := BitVec.ofNat 64 (number * pageSize)

/-- A byte of the user region, by its address, on a page the process may access. -/
def UserByte (writing : Bool)
    (byte : ℕ) : Prop :=
  userRegionBase.toNat ≤ byte ∧ byte < userRegionEnd.toNat ∧
    Accessible space words writing (pageAt (byte / pageSize))

end

/-! ## Queries -/

theorem userRegionBase_toNat : userRegionBase.toNat = 0x400000000000 := by
  decide

theorem userRegionEnd_toNat : userRegionEnd.toNat = 0x400004000000 := by
  decide

variable {size address : Word} {words : Word → Fin 512 → Word} {fuel : ℕ}

theorem toNat_ne_zero (hsize : size ≠ 0#64) : size.toNat ≠ 0 :=
  fun hzero => hsize (toNat_inj.mp hzero)

theorem pageAt_inj {number number' : ℕ} (h : number < 2 ^ 52) (h' : number' < 2 ^ 52)
    (heq : pageAt number = pageAt number') : number = number' := by
  have hval := congrArg BitVec.toNat heq
  simp only [pageAt, pageSize, toNat_ofNat] at hval
  omega

theorem pageAt_add_pageSize (number : ℕ) :
    pageAt number + BitVec.ofNat 64 pageSize = pageAt (number + 1) := by
  rw [pageAt, pageAt, ← ofNat_add, Nat.succ_mul]

theorem page_eq_pageAt (address : Word) :
    address &&& ~~~pageOffsetMask = pageAt (address.toNat / pageSize) := by
  rw [← toNat_inj, toNat_and_not_pageOffsetMask, pageAt, toNat_ofNat, pageSize]
  omega

section Walks

variable {page table : Word} {levels : List ℕ} {above : List Word} {access : Access}
  {path : WalkPath}

theorem mem_walk_tables {mask : Word}
    (h : walk mask words page levels above table access = .ok path) : table ∈ path.tables := by
  suffices hsubset : table :: above ⊆ path.tables from hsubset List.mem_cons_self
  induction levels generalizing above table access with
  | nil =>
    rw [walk, walkLeaf] at h
    split at h
    · cases h
    split at h
    · cases h
    · cases h
      exact List.Subset.refl _
  | cons _ _ ih =>
    rw [walk] at h
    split at h
    · exact fun other hother => ih h (List.mem_cons_of_mem _ hother)
    · cases h

variable {space : AddressSpace (Frames region)} {bits : ℕ} {machine : Machine (Frames region)}
  (hspace : space.Valid) (hbackend : space.backend = kernelBackend region bits)
include hspace hbackend

theorem tableForPhysical_kernel {physical : Word}
    (hphys : Within physical space.physicalAddressMask) :
    tableForPhysical space physical machine =
      (if physical = 0#64 then .backendFailure else .ok, machine) := by
  have hvalid := (validatePhysicalPage_eq_ok_iff hspace).mpr hphys
  have haccess : machine.access space.backend physical = (physical != 0#64, machine) := by
    rw [hbackend]
    rfl
  rw [tableForPhysical, if_neg (not_not.mpr hvalid), haccess]
  by_cases hzero : physical = 0#64
  · rw [hzero]
    rfl
  · rw [bne_iff_ne.mpr hzero, if_neg hzero]

theorem walkFrom_child {next : Word} {level : ℕ}
    (hchild : childOf space.physicalAddressMask (machine.words table (tableIndex page level)) =
      some next) :
    walkFrom space page (level :: levels) above table access machine =
      if next = 0#64 then (.error .backendFailure, machine)
      else walkFrom space page levels (table :: above) next
        (access.restrict (machine.words table (tableIndex page level))) machine := by
  rw [walkFrom]
  generalize machine.words table (tableIndex page level) = value at hchild ⊢
  rw [childOf] at hchild
  split at hchild
  · next hvalue =>
    cases hchild
    rw [if_neg hvalue.1, if_neg (not_not.mpr hvalue.2.1), childTableFromEntry,
      if_neg (not_not.mpr hvalue.2.2),
      tableForPhysical_kernel hspace hbackend (within_and value _)]
    by_cases hzero : value &&& space.physicalAddressMask = 0#64
    · rw [if_pos hzero, if_pos hzero]
    · rw [if_neg hzero, if_neg hzero]
  · cases hchild

theorem walkFrom_eq_ok_iff (htables : 0#64 ∉ table :: above) :
    (walkFrom space page levels above table access machine).1 = .ok path ↔
      walk space.physicalAddressMask machine.words page levels above table access = .ok path ∧
        0#64 ∉ path.tables := by
  induction levels generalizing above table access with
  | nil =>
    rw [walkFrom, walk, walkLeaf]
    split
    · simp
    split
    · simp
    · refine ⟨fun h => ?_, And.left⟩
      cases h
      exact ⟨rfl, htables⟩
  | cons level levels ih =>
    cases hchild : childOf space.physicalAddressMask
        (machine.words table (tableIndex page level)) with
    | none =>
      have hcases := (walkFrom_cases hspace (hbackend ▸ kernelBackend_lawful region bits) page
        (level :: levels) above table access machine).1
      rw [walk, hchild] at hcases ⊢
      rcases hcases with hres | hres
      · simp [hres]
      · simp [hres]
    | some next =>
      rw [walkFrom_child hspace hbackend hchild, walk, hchild]
      by_cases hzero : next = 0#64
      · rw [if_pos hzero]
        refine iff_of_false (by simp) fun h => ?_
        exact h.2 (hzero ▸ mem_walk_tables h.1)
      rw [if_neg hzero]
      refine ih fun hmem => ?_
      rcases List.mem_cons.mp hmem with heq | hmem
      · exact hzero heq.symm
      · exact htables hmem

/-- A query succeeds exactly on what is mapped. -/
theorem queryPage_eq_ok_iff (page : Word) (machine : Machine (Frames region)) (mapping : Mapping) :
    (queryPage space page machine).1 = .ok mapping ↔ Mapped space machine.words page mapping := by
  rw [queryPage, hspace.initialized, if_neg (by simp), Mapped, walkToLeaf,
    tableForPhysical_kernel hspace hbackend hspace.root]
  by_cases hcanon : canonicalAddress page
  · rw [if_neg (by simpa using hcanon)]
    by_cases hroot : space.rootTablePhysical = 0#64
    · rw [if_pos hroot]
      refine iff_of_false (by simp) ?_
      rintro ⟨-, _, hwalk, htables, -⟩
      exact htables (hroot ▸ mem_walk_tables hwalk)
    have htables : 0#64 ∉ [space.rootTablePhysical] := by simpa using Ne.symm hroot
    simp only [if_neg hroot, hcanon, true_and, ← and_assoc,
      ← walkFrom_eq_ok_iff hspace hbackend htables]
    generalize walkFrom space page [0, 1, 2] [] space.rootTablePhysical ⟨true, true, false⟩
      machine = result
    obtain ⟨result, _⟩ := result
    cases result with
    | error => simp
    | ok => simp [eq_comm]
  · rw [if_pos (by simpa using hcanon)]
    exact iff_of_false (by simp) fun h => hcanon h.1

theorem queryPage_words (page : Word) (machine : Machine (Frames region)) :
    (queryPage space page machine).2.words = machine.words :=
  (queryPage_cases hspace (hbackend ▸ kernelBackend_lawful region bits) page machine).2.words

/-! ## The loop over the pages -/

/-- From one page to another the loop finds out whether all pages are accessible. -/
theorem validatePages_spec (writing : Bool) {first last : ℕ} (hle : first ≤ last)
    (hlast : last < 2 ^ 52) (hfuel : last < first + fuel) (machine : Machine (Frames region)) :
    ∃ answer machine', validatePages space writing (pageAt last) fuel
        (pageAt first) machine = some (answer, machine') ∧
      (answer ↔ ∀ page, first ≤ page → page ≤ last →
        Accessible space machine.words writing (pageAt page)) := by
  induction fuel generalizing first machine with
  | zero => omega
  | succ _ ih =>
    have hquery := queryPage_eq_ok_iff hspace hbackend (pageAt first) machine
    have hwords := queryPage_words hspace hbackend (pageAt first) machine
    rw [validatePages]
    generalize queryPage space (pageAt first) machine = result at hquery hwords
    obtain ⟨result, machine'⟩ := result
    have hrefused (h : ¬ Accessible space machine.words writing (pageAt first)) :
        (false ↔ ∀ page, first ≤ page → page ≤ last →
          Accessible space machine.words writing (pageAt page)) :=
      iff_of_false (by simp) fun hall => h (hall first le_rfl hle)
    cases result with
    | error =>
      refine ⟨false, machine', rfl, hrefused ?_⟩
      rintro ⟨mapping, hmapped, -⟩
      cases (hquery mapping).mpr hmapped
    | ok mapping =>
      have hmapped := (hquery mapping).mp rfl
      dsimp only at hwords ⊢
      split
      · next hflags =>
        refine ⟨false, machine', rfl, hrefused ?_⟩
        rintro ⟨other, hother, _, _⟩
        cases (hquery other).mpr hother
        simp_all
      have haccessible : Accessible space machine.words writing (pageAt first) := by
        refine ⟨mapping, hmapped, ?_⟩
        simp_all
      split
      · next heq =>
        refine ⟨true, machine', rfl, iff_of_true rfl fun page hfirst hpage => ?_⟩
        have hnumber := pageAt_inj (by omega) (by omega) heq
        obtain rfl : page = first := by omega
        exact haccessible
      next hne =>
      have hlt : first < last := lt_of_le_of_ne hle fun heq => hne (congrArg pageAt heq)
      obtain ⟨answer, machine'', hrun, hanswer⟩ := ih hlt (by omega) machine'
      refine ⟨answer, machine'', by rw [pageAt_add_pageSize, hrun], ?_⟩
      rw [hanswer, hwords]
      refine ⟨fun hall page hfirst hpage => ?_, fun hall page hfirst => hall page (by omega)⟩
      rcases hfirst.eq_or_lt with rfl | hfirst
      · exact haccessible
      · exact hall page hfirst hpage

end Walks

/-! ## Buffers and paths -/

/-- All bytes of a buffer may be accessed. The end of the buffer is computed without
wrap-around. -/
def UserBuffer (space : AddressSpace σ) (words : Word → Fin 512 → Word) (writing : Bool)
    (address size : Word) : Prop :=
  ∀ byte, address.toNat ≤ byte → byte < address.toNat + size.toNat →
    UserByte space words writing byte

/-- A nonempty buffer lies in the region, and the pages of its bytes are those from the page of
the first byte to that of the last. -/
theorem userBuffer_iff {space : AddressSpace σ} {writing : Bool} (hsize : size ≠ 0#64) :
    UserBuffer space words writing address size ↔
      (userRegionBase.toNat ≤ address.toNat ∧ address.toNat + size.toNat ≤ userRegionEnd.toNat) ∧
      ∀ page, address.toNat / pageSize ≤ page →
        page ≤ (address.toNat + size.toNat - 1) / pageSize →
          Accessible space words writing (pageAt page) := by
  have hpos := toNat_ne_zero hsize
  rw [pageSize]
  constructor
  · intro h
    have hfirst := h address.toNat le_rfl (by omega)
    have hlast := h (address.toNat + size.toNat - 1) (by omega) (by omega)
    refine ⟨⟨hfirst.1, by have := hlast.2.1; omega⟩, fun page hle hpage => ?_⟩
    -- a page after the first is touched at its first byte
    by_cases hstart : address.toNat ≤ page * 4096
    · have hbyte := (h (page * 4096) hstart (by omega)).2.2
      rwa [pageSize, Nat.mul_div_cancel _ (by decide)] at hbyte
    · obtain rfl : page = address.toNat / 4096 := by omega
      exact hfirst.2.2
  · rintro ⟨⟨_, _⟩, hpages⟩ _ hle _
    refine ⟨by omega, by omega, hpages _ ?_ ?_⟩
    · exact Nat.div_le_div_right hle
    · exact Nat.div_le_div_right (by omega)

theorem outside_iff (hsize : size ≠ 0#64) :
    (address < userRegionBase ∨ address ≥ userRegionEnd ∨ size > userRegionEnd - address) ↔
      ¬ (userRegionBase.toNat ≤ address.toNat ∧
        address.toNat + size.toNat ≤ userRegionEnd.toNat) := by
  have hpos := toNat_ne_zero hsize
  simp only [ge_iff_le, gt_iff_lt, lt_def, le_def]
  by_cases hlt : userRegionEnd.toNat ≤ address.toNat
  · omega
  · have hsub := toNat_sub_of_le (le_def.mpr (Nat.le_of_not_le hlt))
    omega

theorem toNat_last (hsize : size ≠ 0#64) (hfits : address.toNat + size.toNat < 2 ^ 64) :
    (address + size - 1#64).toNat = address.toNat + size.toNat - 1 := by
  have hpos := toNat_ne_zero hsize
  simp only [toNat_sub, toNat_add, toNat_ofNat]
  omega

/-- With fuel for the pages of the region the check ends, and it accepts exactly the buffers
whose bytes may all be accessed. -/
theorem validateUserBuffer_spec (context : Context region) (hfuel : 2 ^ 14 ≤ fuel)
    (address size : Word) (writing : Bool) (machine : Machine (Frames region)) :
    ∃ answer machine', validateUserBuffer context fuel address size writing machine =
        some (answer, machine') ∧
      (answer ↔ context.active ∧ (size = 0#64 ∨
        UserBuffer context.addressSpace machine.words writing address size)) := by
  rw [validateUserBuffer]
  cases hact : context.active with
  | false => exact ⟨false, machine, rfl, by simp⟩
  | true =>
    obtain ⟨_, _, _, _, hcreated⟩ := context.created hact
    obtain ⟨hspace, hbackend⟩ := AddressSpace.of_initialized hcreated
    rw [if_neg (by simp)]
    by_cases hsize : size = 0#64
    · rw [if_pos hsize]
      exact ⟨true, machine, rfl, by simp [hsize]⟩
    rw [if_neg hsize]
    simp only [hsize, true_and, false_or, userBuffer_iff hsize]
    have hpos := toNat_ne_zero hsize
    have hbase := userRegionBase_toNat
    have hend := userRegionEnd_toNat
    split
    · next houtside =>
      refine ⟨false, machine, rfl, iff_of_false (by simp) fun h => ?_⟩
      exact (outside_iff hsize).mp houtside h.1
    next hinside =>
    have hinside := not_not.mp ((outside_iff hsize).not.mp hinside)
    rw [page_eq_pageAt, page_eq_pageAt, toNat_last hsize (by omega)]
    rw [and_iff_right hinside]
    apply validatePages_spec hspace hbackend writing
    · exact Nat.div_le_div_right (by omega)
    · rw [pageSize]
      omega
    · rw [pageSize]
      omega

theorem copyBytes_spec (source : ℕ → UInt8) (remaining index : ℕ) (output : ℕ → UInt8) :
    ((copyBytes source remaining index output).1 ↔
        ∀ position, index ≤ position → position < index + remaining → source position ≠ 0) ∧
      ((copyBytes source remaining index output).1 →
        ∀ position, (copyBytes source remaining index output).2 position =
          if index ≤ position ∧ position < index + remaining then source position
          else output position) := by
  induction remaining generalizing index output with
  | zero =>
    refine ⟨iff_of_true rfl fun position hle hlt => by omega, fun _ position => ?_⟩
    rw [if_neg (by omega)]
    rfl
  | succ _ ih =>
    rw [copyBytes]
    split
    · next hzero =>
      refine ⟨iff_of_false (by simp) fun hall => ?_, by simp⟩
      exact hall index le_rfl (by omega) hzero
    next hnz =>
    obtain ⟨hiff, hvalues⟩ := ih (index + 1) (update output index (source index))
    refine ⟨hiff.trans ⟨fun hall position hle hlt => ?_, fun hall position hle hlt => ?_⟩,
      fun hok position => ?_⟩
    · rcases hle.eq_or_lt with rfl | hle
      · exact hnz
      · exact hall position hle (by omega)
    · exact hall position (by omega) (by omega)
    rw [hvalues hok, update_apply]
    by_cases heq : position = index
    · subst heq
      simp
    · simp only [heq, if_false]
      congr 1
      grind

/-- A path that may be copied: of admissible length, readable and without a NUL. -/
def UserPath (context : Context region) (words : Word → Fin 512 → Word) (bytes : Word → UInt8)
    (address length : Word) : Prop :=
  (1 ≤ length.toNat ∧ length.toNat ≤ Vfs.maxPathLength) ∧ context.active ∧
    UserBuffer context.addressSpace words false address length ∧
    ∀ index < length.toNat, bytes (address + BitVec.ofNat 64 index) ≠ 0

def HoldsPath (bytes : Word → UInt8) (address length : Word) (output : ℕ → UInt8) : Prop :=
  (∀ index < length.toNat, output index = bytes (address + BitVec.ofNat 64 index)) ∧
    output length.toNat = 0

theorem copyUserPath_spec (context : Context region) (hfuel : 2 ^ 14 ≤ fuel)
    (bytes : Word → UInt8) (address length : Word) (output : ℕ → UInt8)
    (machine : Machine (Frames region)) :
    ∃ answer output' machine',
      copyUserPath context fuel bytes address length output machine =
          some (answer, output', machine') ∧
        (answer ↔ UserPath context machine.words bytes address length) ∧
        (answer → HoldsPath bytes address length output') := by
  have hzero : length = 0#64 ↔ length.toNat = 0 := by
    rw [← toNat_inj]
    rfl
  rw [copyUserPath]
  split
  · next hlen =>
    refine ⟨false, output, machine, rfl, iff_of_false (by simp) fun h => ?_, by simp⟩
    rw [hzero] at hlen
    have hbounds := h.1
    omega
  next hlen =>
  obtain ⟨answer, machine', hrun, hanswer⟩ :=
    validateUserBuffer_spec context hfuel address length false machine
  rw [hrun]
  rw [or_iff_right (fun h => hlen (.inl h))] at hanswer
  cases answer with
  | false =>
    refine ⟨false, output, machine', rfl, iff_of_false (by simp) fun h => ?_, by simp⟩
    exact Bool.false_ne_true (hanswer.mpr ⟨h.2.1, h.2.2.1⟩)
  | true =>
    obtain ⟨hact, hread⟩ := hanswer.mp rfl
    obtain ⟨hiff, hvalues⟩ := copyBytes_spec
      (fun index => bytes (address + BitVec.ofNat 64 index)) length.toNat 0 output
    generalize copyBytes (fun index => bytes (address + BitVec.ofNat 64 index)) length.toNat 0
      output = result at hiff hvalues
    obtain ⟨copied, output'⟩ := result
    cases copied with
    | false =>
      refine ⟨false, output', machine', rfl, iff_of_false (by simp) fun h => ?_, by simp⟩
      exact Bool.false_ne_true (hiff.mpr fun index _ hlt => h.2.2.2 index (by omega))
    | true =>
      have hnz := hiff.mp rfl
      have hcopied (index : ℕ) (hlt : index < length.toNat) : update output' length.toNat 0 index =
            bytes (address + BitVec.ofNat 64 index) := by
        rw [update_of_ne hlt.ne]
        exact (hvalues rfl index).trans (if_pos ⟨Nat.zero_le _, by omega⟩)
      have hbounds : 1 ≤ length.toNat ∧ length.toNat ≤ Vfs.maxPathLength := by
        rw [hzero] at hlen
        omega
      refine ⟨_, _, machine', rfl, iff_of_true ?_ ⟨hbounds, hact, hread, ?_⟩,
        fun _ => ⟨hcopied, update_self ..⟩⟩
      · rw [bne_iff_ne, hcopied 0 (by omega)]
        exact hnz 0 le_rfl (by omega)
      · exact fun index hlt => hnz index (Nat.zero_le _) (by omega)

/-- The check of a buffer ends and accepts exactly what the process may access; a path is copied
exactly if it has an admissible length, may be read and has no NUL. -/
theorem userPointers_exact (context : Context region) (requests : List PageRequest)
    (initial : Machine (Frames region)) (fuel : ℕ) :
    let machine := requests.foldl (fun machine request =>
      request.perform context.addressSpace machine) initial
    (∀ address size writing, ∃ answer machine',
      validateUserBuffer context (fuel + 2 ^ 14) address size writing machine =
          some (answer, machine') ∧
        (answer = true ↔ context.active = true ∧ (size = 0#64 ∨
          UserBuffer context.addressSpace machine.words writing address size))) ∧
    ∀ bytes address length output, ∃ answer output' machine',
      copyUserPath context (fuel + 2 ^ 14) bytes address length output machine =
          some (answer, output', machine') ∧
        (answer = true ↔ UserPath context machine.words bytes address length) ∧
        (answer = true → HoldsPath bytes address length output') := by
  intro machine
  refine ⟨fun address size writing => ?_, fun bytes address length output => ?_⟩
  · exact validateUserBuffer_spec context (Nat.le_add_left _ fuel) address size writing machine
  · exact copyUserPath_spec context (Nat.le_add_left _ fuel) bytes address length output machine

/-- A process in the small memory, whose root table is empty at first. -/
def smallContext : Context smallRegion where
  active := true
  addressSpace := smallMemory.space smallMemory.kernelRoot
  created _ := ⟨smallMemory.kernelRoot, 0, smallMemory.machine, smallMemory.machine, rfl⟩

/-- With the first page of the region mapped, a buffer may reach to the end of the page and not
beyond it. -/
theorem userPointers_exact_mapped :
    let machine := (PageRequest.mapPage userRegionBase 0x9000
      (MapFlags.writable ||| MapFlags.user)).perform smallContext.addressSpace smallMemory.machine
    UserBuffer smallContext.addressSpace machine.words true (userRegionBase + 8) 0xFF8 ∧
      ¬ UserBuffer smallContext.addressSpace machine.words true (userRegionBase + 8) 0xFF9 := by
  intro machine
  have hexact := fun size => (userPointers_exact smallContext [.mapPage userRegionBase 0x9000
    (MapFlags.writable ||| MapFlags.user)] smallMemory.machine 0).1 (userRegionBase + 8) size true
  obtain ⟨answer, _, hrun, hanswer⟩ := hexact 0xFF8
  obtain ⟨answer', _, hrun', hanswer'⟩ := hexact 0xFF9
  have hinside : some answer = some true :=
    (congrArg (Option.map Prod.fst) hrun).symm.trans (by decide +kernel)
  have hbeyond : some answer' = some false :=
    (congrArg (Option.map Prod.fst) hrun').symm.trans (by decide +kernel)
  cases hinside
  cases hbeyond
  refine ⟨(hanswer.mp rfl).2.resolve_left (by decide), fun hbuffer => ?_⟩
  exact Bool.false_ne_true (hanswer'.mpr ⟨rfl, .inr hbuffer⟩)

end Kurogane.User
