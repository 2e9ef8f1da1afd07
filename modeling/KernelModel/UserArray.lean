import KernelModel.MmapRun

/-!
System calls that take an array of handles from user memory.

The array has to lie inside a region of the caller. Its size is the product of a count from user
memory and the size of a handle, in 64 bits. The memory that such a call reads or writes through
the caller's pointer is listed.
-/

namespace KernelModel.UserArray

open MemoryMap KeyTree

/-- `sizeof(handle_id_t)` -/
def handleIdSize : ℕ := 8

/-- The memory map of the caller, with the flag `MMAP_REGION_FLAG_VMM_USER` of its regions. -/
structure Process where
  mmap : Mmap
  isUser : Region → Bool

/-- A handle to a container as the caller gets it, with the flags of the caller's access. -/
structure ContainerHandle where
  mayAccess : Bool
  mayModify : Bool
  tree : List ℕ

inductive Error
  | invalidArgument (index : ℕ)
  | invalidHandle
  | denied
  deriving DecidableEq

/-- Memory that is read or written through a pointer of the caller. -/
structure Access where
  isWrite : Bool
  start : ℕ
  length : ℕ

variable (p : Process)

/-- `syscall_get_user_pointer_max_length` -/
def syscallGetUserPointerMaxLength (address : ℕ) : ℕ :=
  match mmapLookup p.mmap address with
  | none => 0
  | some region =>
    if p.isUser region then (region.key + region.length + 2 ^ 64 - address) % 2 ^ 64 else 0

/-- The two checks of an array, with the numbers of the arguments in the errors. -/
def checkArray (pointer count pointerIndex countIndex : ℕ) : Except Error Unit :=
  if count = 0 then .error (.invalidArgument countIndex)
  else if count * handleIdSize % 2 ^ 64 > syscallGetUserPointerMaxLength p pointer then
    .error (.invalidArgument pointerIndex)
  else .ok ()

/-- `syscall_container_add`: what it reads. -/
def syscallContainerAdd (container : Option ContainerHandle) (handles handleCount : ℕ) :
    Except Error (List Access) :=
  match container with
  | none => .error .invalidHandle
  | some container =>
    if !container.mayModify then .error .denied
    else (checkArray p handles handleCount 1 2).map fun _ =>
      [⟨false, handles, handleCount * handleIdSize % 2 ^ 64⟩]

/-- The number of handles that `syscall_container_get` finds from the offset on. -/
def foundCount (tree : List ℕ) (offset handleCount : ℕ) : ℕ :=
  min (tree.countP fun key => (offset + 1) % 2 ^ 64 ≤ key) handleCount

/-- `syscall_container_get`: what it writes. -/
def syscallContainerGet (container : Option ContainerHandle) (offset handles handleCount : ℕ) :
    Except Error (List Access) :=
  match container with
  | none => .error .invalidHandle
  | some container =>
    if !container.mayAccess then .error .denied
    else (checkArray p handles handleCount 2 3).map fun _ =>
      [⟨true, handles, foundCount container.tree offset handleCount * handleIdSize % 2 ^ 64⟩]

/-- `syscall_thread_await_events`: what it reads. -/
def syscallThreadAwaitEvents (events eventCount : ℕ) : Except Error (List Access) :=
  (checkArray p events eventCount 0 1).map fun _ =>
    [⟨false, events, eventCount * handleIdSize % 2 ^ 64⟩]

inductive Call
  | containerAdd (container : Option ContainerHandle) (handles handleCount : ℕ)
  | containerGet (container : Option ContainerHandle) (offset handles handleCount : ℕ)
  | threadAwaitEvents (events eventCount : ℕ)

namespace Call

def result : Call → Except Error (List Access)
  | containerAdd container handles handleCount =>
    syscallContainerAdd p container handles handleCount
  | containerGet container offset handles handleCount =>
    syscallContainerGet p container offset handles handleCount
  | threadAwaitEvents events eventCount => syscallThreadAwaitEvents p events eventCount

def pointer : Call → ℕ
  | containerAdd _ handles _ => handles
  | containerGet _ _ handles _ => handles
  | threadAwaitEvents events _ => events

def count : Call → ℕ
  | containerAdd _ _ handleCount => handleCount
  | containerGet _ _ _ handleCount => handleCount
  | threadAwaitEvents _ eventCount => eventCount

/-- The caller may make the call, whatever its array is. -/
def Admitted : Call → Prop
  | containerAdd container _ _ => ∃ h, container = some h ∧ h.mayModify
  | containerGet container _ _ _ => ∃ h, container = some h ∧ h.mayAccess
  | threadAwaitEvents _ _ => True

end Call

/-- The array of an accepted call lies in one user region, and what the call accesses does too. -/
def Inside (c : Call) : Prop :=
  ∀ accesses, c.result p = .ok accesses → ∃ r ∈ p.mmap.addressTree, p.isUser r ∧
    r.key ≤ c.pointer ∧ c.pointer + c.count * handleIdSize ≤ r.key + r.length ∧
    ∀ a ∈ accesses, r.key ≤ a.start ∧ a.start + a.length ≤ r.key + r.length

/-- The product of the count wraps around to a size that the region of the pointer has room for. -/
def Wraps (c : Call) : Prop :=
  2 ^ 61 ≤ c.count ∧
    c.count * handleIdSize % 2 ^ 64 ≤ syscallGetUserPointerMaxLength p c.pointer

variable {p} {bottomAddress topAddress pointer count : ℕ}

/-! ### The checks -/

lemma checkArray_ok {pointerIndex countIndex : ℕ} :
    checkArray p pointer count pointerIndex countIndex = .ok () ↔
      count ≠ 0 ∧ count * handleIdSize % 2 ^ 64 ≤ syscallGetUserPointerMaxLength p pointer := by
  rw [checkArray, ← Nat.not_lt]
  split
  · simp [*]
  · split
    · simp only [reduceCtorEq, false_iff, not_and, not_not]
      exact fun _ => ‹_›
    · exact iff_of_true rfl ⟨‹_›, ‹_›⟩

lemma checkArray_map {pointerIndex countIndex : ℕ} {l accesses : List Access} :
    (checkArray p pointer count pointerIndex countIndex).map (fun _ => l) = .ok accesses ↔
      (count ≠ 0 ∧ count * handleIdSize % 2 ^ 64 ≤ syscallGetUserPointerMaxLength p pointer) ∧
        l = accesses := by
  rw [← @checkArray_ok p pointer count pointerIndex countIndex]
  cases checkArray p pointer count pointerIndex countIndex with
  | error e => simp [Except.map]
  | ok u => simp [Except.map]

lemma maxLength_pos (hi : Inv bottomAddress topAddress p.mmap)
    (h : 0 < syscallGetUserPointerMaxLength p pointer) :
    ∃ r ∈ p.mmap.addressTree, p.isUser r ∧ r.key ≤ pointer ∧
      pointer + syscallGetUserPointerMaxLength p pointer = r.key + r.length := by
  rw [syscallGetUserPointerMaxLength] at h ⊢
  cases hlookup : mmapLookup p.mmap pointer with
  | none => simp [hlookup] at h
  | some r =>
    simp only [hlookup] at h ⊢
    obtain ⟨hr, hle, hlt⟩ := (mmapLookup_iff hi pointer).mp hlookup
    have hstop := stop_lt hi hr
    by_cases huser : p.isUser r
    · refine ⟨r, hr, huser, hle, ?_⟩
      rw [if_pos huser, show r.key + r.length + 2 ^ 64 - pointer =
        r.key + r.length - pointer + 2 ^ 64 by omega, Nat.add_mod_right,
        Nat.mod_eq_of_lt (by omega)]
      omega
    · rw [if_neg huser] at h
      exact absurd h (lt_irrefl 0)

lemma Call.result_ok (c : Call) : (∃ accesses, c.result p = .ok accesses) ↔
    c.Admitted ∧ c.count ≠ 0 ∧
      c.count * handleIdSize % 2 ^ 64 ≤ syscallGetUserPointerMaxLength p c.pointer := by
  cases c with
  | containerAdd container handles handleCount =>
    cases container with
    | none => simp [Call.result, syscallContainerAdd, Call.Admitted]
    | some h =>
      rw [Call.result, syscallContainerAdd]
      cases hmay : h.mayModify <;>
        simp [hmay, Call.Admitted, checkArray_map, Call.count, Call.pointer]
  | containerGet container offset handles handleCount =>
    cases container with
    | none => simp [Call.result, syscallContainerGet, Call.Admitted]
    | some h =>
      rw [Call.result, syscallContainerGet]
      cases hmay : h.mayAccess <;>
        simp [hmay, Call.Admitted, checkArray_map, Call.count, Call.pointer]
  | threadAwaitEvents events eventCount =>
    simp [Call.result, syscallThreadAwaitEvents, Call.Admitted, checkArray_map, Call.count,
      Call.pointer]

/-- What an accepted call accesses starts at the pointer and is no longer than the array. -/
lemma Call.access_le {c : Call} {accesses : List Access} (h : c.result p = .ok accesses) :
    ∀ a ∈ accesses, a.start = c.pointer ∧ a.length ≤ c.count * handleIdSize := by
  cases c with
  | containerAdd container handles handleCount =>
    cases container with
    | none => cases h
    | some container =>
      rw [Call.result, syscallContainerAdd] at h
      split at h
      · cases h
      · obtain ⟨-, rfl⟩ := checkArray_map.mp h
        intro a ha
        obtain rfl := List.mem_singleton.mp ha
        exact ⟨rfl, Nat.mod_le _ _⟩
  | containerGet container offset handles handleCount =>
    cases container with
    | none => cases h
    | some container =>
      rw [Call.result, syscallContainerGet] at h
      split at h
      · cases h
      · obtain ⟨-, rfl⟩ := checkArray_map.mp h
        intro a ha
        obtain rfl := List.mem_singleton.mp ha
        exact ⟨rfl, (Nat.mod_le _ _).trans (Nat.mul_le_mul_right _ (min_le_right _ _))⟩
  | threadAwaitEvents events eventCount =>
    obtain ⟨-, rfl⟩ := checkArray_map.mp h
    intro a ha
    obtain rfl := List.mem_singleton.mp ha
    exact ⟨rfl, Nat.mod_le _ _⟩

/-! ### The array -/

/-- **The array** of a call lies inside a user region unless an admitted call wraps around. -/
theorem inside_iff (hi : Inv bottomAddress topAddress p.mmap) (c : Call) :
    Inside p c ↔ ¬(c.Admitted ∧ Wraps p c) := by
  have hbytes : c.count * handleIdSize = 8 * c.count := Nat.mul_comm _ _
  constructor
  · rintro hinside ⟨hadmitted, hlarge, hproduct⟩
    obtain ⟨accesses, hok⟩ := c.result_ok.mpr ⟨hadmitted, by omega, hproduct⟩
    obtain ⟨r, hr, -, -, hend, -⟩ := hinside accesses hok
    have hstop := stop_lt hi hr
    omega
  · intro hwraps accesses hok
    obtain ⟨hadmitted, hpos, hproduct⟩ := c.result_ok.mp ⟨accesses, hok⟩
    have hsmall : c.count < 2 ^ 61 := by
      by_contra hlarge
      exact hwraps ⟨hadmitted, Nat.le_of_not_lt hlarge, hproduct⟩
    rw [Nat.mod_eq_of_lt (by omega)] at hproduct
    have hroom : 0 < syscallGetUserPointerMaxLength p c.pointer := by omega
    obtain ⟨r, hr, huser, hle, hlength⟩ := maxLength_pos hi hroom
    refine ⟨r, hr, huser, hle, by omega, fun a ha => ?_⟩
    obtain ⟨hstart, hshort⟩ := Call.access_le hok a ha
    omega

/-- A process with one region, the last page of its memory map. -/
def onePage : Process where
  mmap :=
    { mmapInit 0x8400000 0x7fff80000000 with
      heapAddress := 0x7fff80000000 - 0x1000
      addressTree := [⟨0x7fff80000000 - 0x1000, 0x1000, false⟩] }
  isUser := fun _ => true

lemma onePage_inv : Inv 0x8400000 0x7fff80000000 onePage.mmap where
  free := by
    refine ⟨⟨.nil, .nil, nofun, nofun⟩, (Tiled.nil 0x7fff80000000).grow ?_, ?_⟩
    · norm_num [onePage, mmapInit]
    · norm_num [onePage, mmapInit]
  ordered := List.pairwise_singleton _ _
  region := fun r hr => by
    obtain rfl := List.mem_singleton.mp hr
    exact ⟨Nat.zero_le _, by norm_num⟩
  topAddress_eq := rfl
  breakAddress_eq := rfl

/-- The whole page is accepted. -/
theorem inside_onePage : Inside onePage (.threadAwaitEvents 0x7fff7ffff000 512) :=
  (inside_iff onePage_inv _).mpr fun h => absurd h.2.1 (by norm_num [Call.count])

/-- `2 ^ 61` handles have the size zero, which any pointer has room for. -/
theorem not_inside_wrapped : ¬Inside onePage (.threadAwaitEvents 0x10000 (2 ^ 61)) :=
  fun h => (inside_iff onePage_inv _).mp h
    ⟨trivial, le_rfl, by norm_num [Call.count, handleIdSize]⟩

end KernelModel.UserArray
