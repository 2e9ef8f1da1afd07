import KernelModel.Runs

/-!
The I/O lock of a node: who holds it, whom it lets through, and how it is given back.

A lock is held for the handle of a thread, a process or a process group. A call acts for the party
it is given; the handles that can still be looked up change between the calls.
-/

namespace KernelModel.VfsLock

open Runs

/-! ### The lock -/

abbrev HandleId := ℕ

def handleIdGetType (handle : HandleId) : ℕ := handle % 2 ^ 16

/-- The threads, processes and process groups; a process does not change its group while it has
threads. -/
structure World (τ π γ : Type) where
  threadHandleType : ℕ
  processHandleType : ℕ
  processGroupHandleType : ℕ
  threadHandle : τ → HandleId
  processHandle : π → HandleId
  processGroupHandle : γ → HandleId
  process : τ → π
  processGroup : π → γ
  processKernel : π

/-- `VFS_NODE_LOCK_TYPE_*` -/
inductive LockType
  | none
  | processGroup
  | process
  | thread
  | invalid
  deriving DecidableEq

structure Lock where
  type : LockType
  handle : HandleId
  deriving DecidableEq

/-- For whom a call asks. -/
inductive Party (τ π γ : Type)
  | thread (t : τ)
  | process (p : π)
  | processGroup (g : γ)

variable {τ π γ δ : Type} [DecidableEq π]

section

variable (w : World τ π γ)

def checkProcessGroup (lock : Lock) (g : γ) : Bool :=
  lock.type = .none ∨ lock.type = .processGroup ∧ lock.handle = w.processGroupHandle g

def checkProcess (lock : Lock) (p : π) : Bool :=
  lock.type = .none ∨
    (lock.type = .processGroup ∧ lock.handle = w.processGroupHandle (w.processGroup p)) ∨
    (lock.type = .process ∧ lock.handle = w.processHandle p) ∨ p = w.processKernel

def checkThread (lock : Lock) (t : τ) : Bool :=
  lock.type = .none ∨
    (lock.type = .processGroup ∧
      lock.handle = w.processGroupHandle (w.processGroup (w.process t))) ∨
    (lock.type = .process ∧ lock.handle = w.processHandle (w.process t)) ∨
    (lock.type = .thread ∧ lock.handle = w.threadHandle t) ∨ w.process t = w.processKernel

def check (lock : Lock) : Party τ π γ → Bool
  | .thread t => checkThread w lock t
  | .process p => checkProcess w lock p
  | .processGroup g => checkProcessGroup w lock g

def getTypeFromHandle (handle : HandleId) : LockType :=
  if handle = 0 then .none
  else if handleIdGetType handle = w.threadHandleType then .thread
  else if handleIdGetType handle = w.processHandleType then .process
  else if handleIdGetType handle = w.processGroupHandleType then .processGroup
  else .invalid

end

/-- A node, and the handles that a lookup finds. -/
structure State (δ : Type) where
  lock : Lock
  data : δ
  alive : HandleId → Bool

/-- `vfs_lock_init` -/
def init (data : δ) (alive : HandleId → Bool) : State δ := ⟨⟨.none, 0⟩, data, alive⟩

def State.unlockIfHandleClosed (s : State δ) : State δ :=
  if s.lock.handle = 0 then s
  else if s.alive s.lock.handle then s
  else { s with lock := ⟨.none, 0⟩ }

/-! ### The calls -/

/-- The functions of a node; each may be missing. They are given the offset and the flags. -/
structure Functions (δ : Type) where
  /-- For a buffer of some size, the bytes that are read. -/
  read : Option (δ → ℕ → ℕ → ℕ → δ × List UInt8)
  write : Option (δ → ℕ → List UInt8 → ℕ → δ × ℕ)
  resize : Option (δ → ℤ → ℕ → δ × ℕ)

def flagBypassLock : ℕ := 4096

def Bypass (flags : ℕ) : Prop := flags &&& flagBypassLock ≠ 0

instance (flags : ℕ) : Decidable (Bypass flags) := inferInstanceAs (Decidable (_ ≠ _))

/-- What a call returns, and the bytes in the buffer. -/
structure Result where
  value : ℕ
  buffer : List UInt8
  deriving DecidableEq

def Result.zero : Result := ⟨0, []⟩

inductive Label (τ π γ : Type)
  | lock (party : Party τ π γ) (handle : HandleId)
  | read (t : τ) (offset size flags : ℕ)
  | write (t : τ) (offset : ℕ) (buffer : List UInt8) (flags : ℕ)
  | resize (t : τ) (offset : ℤ) (flags : ℕ)
  /-- Handles are created and die. -/
  | environment (alive : HandleId → Bool)

section

variable (w : World τ π γ) (f : Functions δ)

/-- `vfs_lock_lock_thread`, `vfs_lock_lock_process` and `vfs_lock_lock_process_group` -/
def lockFor (s : State δ) (party : Party τ π γ) (handle : HandleId) : State δ × Result :=
  let type := getTypeFromHandle w handle
  if type = .invalid then (s, .zero)
  else
    let s := s.unlockIfHandleClosed
    if check w s.lock party then ({ s with lock := ⟨type, handle⟩ }, ⟨1, []⟩) else (s, .zero)

/-- `vfs_lock_verify_thread` for a call without the bypass flag, and then the call of the node. -/
def guarded (s : State δ) (t : τ) (flags : ℕ) (call : State δ → State δ × Result) :
    State δ × Result :=
  if Bypass flags then call s
  else
    let s := s.unlockIfHandleClosed
    if checkThread w s.lock t then call s else (s, .zero)

def vfsNodeRead (s : State δ) (t : τ) (offset size flags : ℕ) : State δ × Result :=
  match f.read with
  | none => (s, .zero)
  | some read =>
    if size = 0 then (s, .zero)
    else
      guarded w s t flags fun s =>
        let (data, bytes) := read s.data offset size flags
        ({ s with data := data }, ⟨bytes.length, bytes⟩)

def vfsNodeWrite (s : State δ) (t : τ) (offset : ℕ) (buffer : List UInt8) (flags : ℕ) :
    State δ × Result :=
  match f.write with
  | none => (s, .zero)
  | some write =>
    if buffer = [] then (s, .zero)
    else
      guarded w s t flags fun s =>
        let (data, count) := write s.data offset buffer flags
        ({ s with data := data }, ⟨count, []⟩)

def vfsNodeResize (s : State δ) (t : τ) (offset : ℤ) (flags : ℕ) : State δ × Result :=
  match f.resize with
  | none => (s, .zero)
  | some resize =>
    guarded w s t flags fun s =>
      let (data, size) := resize s.data offset flags
      ({ s with data := data }, ⟨size, []⟩)

def call (s : State δ) : Label τ π γ → State δ × Result
  | .lock party handle => lockFor w s party handle
  | .read t offset size flags => vfsNodeRead w f s t offset size flags
  | .write t offset buffer flags => vfsNodeWrite w f s t offset buffer flags
  | .resize t offset flags => vfsNodeResize w f s t offset flags
  | .environment alive => ({ s with alive := alive }, .zero)

def step (s : State δ) (l : Label τ π γ) : Option (State δ) := some (call w f s l).1

end

/-! ### Exclusion -/

section

variable (w : World τ π γ)

/-- The handle is the party's own, or that of the process or the group it belongs to. -/
def Covers (handle : HandleId) : Party τ π γ → Prop
  | .thread t =>
    handle = w.threadHandle t ∨ handle = w.processHandle (w.process t) ∨
      handle = w.processGroupHandle (w.processGroup (w.process t))
  | .process p => handle = w.processHandle p ∨ handle = w.processGroupHandle (w.processGroup p)
  | .processGroup g => handle = w.processGroupHandle g

/-- A thread of the kernel process, or the process itself. -/
def IsKernel : Party τ π γ → Prop
  | .thread t => w.process t = w.processKernel
  | .process p => p = w.processKernel
  | .processGroup _ => False

/-- Who calls, if the call respects the lock. -/
def Label.caller : Label τ π γ → Option (Party τ π γ)
  | .lock party _ => some party
  | .read t _ _ flags => if Bypass flags then none else some (.thread t)
  | .write t _ _ flags => if Bypass flags then none else some (.thread t)
  | .resize t _ flags => if Bypass flags then none else some (.thread t)
  | .environment _ => none

/-- The node is locked for a handle that is alive. -/
def State.Locked (s : State δ) : Prop := s.lock.type ≠ .none ∧ s.alive s.lock.handle

/-- The caller is outside of the kernel and of what the handle covers. -/
def Foreign (handle : HandleId) (party : Party τ π γ) : Prop :=
  ¬IsKernel w party ∧ ¬Covers w handle party

end

variable {w : World τ π γ} {f : Functions δ} {s t : State δ} {party : Party τ π γ}

/-- A foreign call does nothing. -/
def Refused (w : World τ π γ) (f : Functions δ) (s : State δ) (l : Label τ π γ) : Prop :=
  call w f s l = (s, .zero)

lemma unlockIfHandleClosed_of_locked (h : s.Locked) : s.unlockIfHandleClosed = s := by
  rw [State.unlockIfHandleClosed, if_pos h.2]
  exact ite_self s

lemma check_of_foreign (htype : s.lock.type ≠ .none) (h : Foreign w s.lock.handle party) :
    check w s.lock party = false := by
  obtain ⟨hkernel, hcovers⟩ := h
  cases party with
  | thread t =>
    simp only [IsKernel, Covers] at hkernel hcovers
    simp only [check, checkThread, decide_eq_false_iff_not]
    tauto
  | process p =>
    simp only [IsKernel, Covers] at hkernel hcovers
    simp only [check, checkProcess, decide_eq_false_iff_not]
    tauto
  | processGroup g =>
    simp only [Covers] at hcovers
    simp only [check, checkProcessGroup, decide_eq_false_iff_not]
    tauto

lemma guarded_of_foreign {th : τ} {flags : ℕ} {call : State δ → State δ × Result}
    (hlocked : s.Locked)
    (hbypass : ¬Bypass flags) (h : Foreign w s.lock.handle (.thread th)) :
    guarded w s th flags call = (s, .zero) := by
  have hcheck : checkThread w s.lock th = false := check_of_foreign hlocked.1 h
  simp only [guarded, if_neg hbypass, unlockIfHandleClosed_of_locked hlocked, hcheck,
    Bool.false_eq_true, if_false]

/-- **A foreign call** transfers nothing, and leaves the node and its lock as they are. -/
lemma refused_of_foreign {l : Label τ π γ} (hlocked : s.Locked) (hcaller : l.caller = some party)
    (h : Foreign w s.lock.handle party) : Refused w f s l := by
  cases l with
  | lock party' handle =>
    obtain rfl := Option.some.inj hcaller
    simp only [Refused, call, lockFor, unlockIfHandleClosed_of_locked hlocked,
      check_of_foreign hlocked.1 h, Bool.false_eq_true, if_false, ite_self]
  | read th offset size flags =>
    rw [Label.caller] at hcaller
    split_ifs at hcaller with hbypass
    obtain rfl := Option.some.inj hcaller
    rw [Refused, call, vfsNodeRead]
    split
    · rfl
    · split_ifs
      · rfl
      · exact guarded_of_foreign hlocked hbypass h
  | write th offset buffer flags =>
    rw [Label.caller] at hcaller
    split_ifs at hcaller with hbypass
    obtain rfl := Option.some.inj hcaller
    rw [Refused, call, vfsNodeWrite]
    split
    · rfl
    · split_ifs
      · rfl
      · exact guarded_of_foreign hlocked hbypass h
  | resize th offset flags =>
    rw [Label.caller] at hcaller
    split_ifs at hcaller with hbypass
    obtain rfl := Option.some.inj hcaller
    rw [Refused, call, vfsNodeResize]
    split
    · rfl
    · exact guarded_of_foreign hlocked hbypass h
  | environment alive => cases hcaller

/-! ### Release -/

/-- The lock becomes free because its handle has died, or because a party that it covers, or the
kernel, has released it. -/
def Released (w : World τ π γ) (s : State δ) (l : Label τ π γ) : Prop :=
  ¬s.alive s.lock.handle ∨
    ∃ party, l = .lock party 0 ∧ (Covers w s.lock.handle party ∨ IsKernel w party)

lemma unlockIfHandleClosed_cases (s : State δ) :
    s.unlockIfHandleClosed = s ∨ ¬s.alive s.lock.handle := by
  rw [State.unlockIfHandleClosed]
  split_ifs with hzero halive
  · exact .inl rfl
  · exact .inl rfl
  · exact .inr halive

omit [DecidableEq π] in
lemma getTypeFromHandle_eq_none {handle : HandleId} (h : getTypeFromHandle w handle = .none) :
    handle = 0 := by
  rw [getTypeFromHandle] at h
  split_ifs at h with hzero
  exact hzero

lemma dead_of_guarded {th : τ} {flags : ℕ} {call : State δ → State δ × Result}
    (htype : s.lock.type ≠ .none) (hfree : (guarded w s th flags call).1.lock.type = .none)
    (hcall : ∀ s, (call s).1.lock = s.lock) : ¬s.alive s.lock.handle := by
  rcases unlockIfHandleClosed_cases s with hsame | hdead
  · rw [guarded] at hfree
    simp only [hsame] at hfree
    split_ifs at hfree
    · exact absurd (hcall s ▸ hfree) htype
    · exact absurd (hcall s ▸ hfree) htype
    · exact absurd hfree htype
  · exact hdead

lemma released_of_free {l : Label τ π γ} (htype : s.lock.type ≠ .none)
    (hfree : (call w f s l).1.lock.type = .none) : Released w s l := by
  cases l with
  | lock party handle =>
    rcases unlockIfHandleClosed_cases s with hsame | hdead
    · rw [call, lockFor] at hfree
      simp only [hsame] at hfree
      split_ifs at hfree with hinvalid hcheck
      · exact absurd hfree htype
      · have hzero := getTypeFromHandle_eq_none hfree
        have hmay : Covers w s.lock.handle party ∨ IsKernel w party := by
          by_contra hforeign
          rw [not_or] at hforeign
          rw [check_of_foreign htype ⟨hforeign.2, hforeign.1⟩] at hcheck
          cases hcheck
        exact .inr ⟨party, by rw [hzero], hmay⟩
      · exact absurd hfree htype
    · exact .inl hdead
  | read th offset size flags =>
    rw [call, vfsNodeRead] at hfree
    split at hfree
    · exact absurd hfree htype
    · split_ifs at hfree
      · exact absurd hfree htype
      · exact .inl (dead_of_guarded htype hfree fun _ => rfl)
  | write th offset buffer flags =>
    rw [call, vfsNodeWrite] at hfree
    split at hfree
    · exact absurd hfree htype
    · split_ifs at hfree
      · exact absurd hfree htype
      · exact .inl (dead_of_guarded htype hfree fun _ => rfl)
  | resize th offset flags =>
    rw [call, vfsNodeResize] at hfree
    split at hfree
    · exact absurd hfree htype
    · exact .inl (dead_of_guarded htype hfree fun _ => rfl)
  | environment alive => exact absurd hfree htype

/-! ### Runs -/

/-- What a lock promises at a call. -/
structure Exclusive (w : World τ π γ) (f : Functions δ) (s : State δ) (l : Label τ π γ) : Prop where
  refused : s.Locked → ∀ party, l.caller = some party → Foreign w s.lock.handle party →
    Refused w f s l
  released : s.lock.type ≠ .none → (call w f s l).1.lock.type = .none → Released w s l

/-- A call that is foreign to a handle, or a change of the handles that lets it live. -/
def Outside (w : World τ π γ) (handle : HandleId) (l : Label τ π γ) : Prop :=
  (∃ party, l.caller = some party ∧ Foreign w handle party) ∨
    ∃ alive, l = .environment alive ∧ alive handle

lemma step_of_outside {l : Label τ π γ} (hlocked : s.Locked) (h : Outside w s.lock.handle l) :
    (call w f s l).1.lock = s.lock ∧ (call w f s l).1.data = s.data ∧
      (call w f s l).1.Locked := by
  rcases h with ⟨party, hcaller, hforeign⟩ | ⟨alive, rfl, halive⟩
  · have hrefused : call w f s l = (s, .zero) := refused_of_foreign hlocked hcaller hforeign
    rw [hrefused]
    exact ⟨rfl, rfl, hlocked⟩
  · exact ⟨rfl, rfl, hlocked.1, halive⟩

lemma run_of_outside {lock : Lock} {data : δ} (labels : List (Label τ π γ)) (hlocked : s.Locked)
    (hlock : s.lock = lock) (hdata : s.data = data) (h : ∀ l ∈ labels, Outside w lock.handle l)
    (hrun : run (step w f) s labels = some t) : t.lock = lock ∧ t.data = data := by
  induction labels generalizing s with
  | nil =>
    obtain rfl := Option.some.inj hrun
    exact ⟨hlock, hdata⟩
  | cons l labels ih =>
    have hstep : run (step w f) (call w f s l).1 labels = some t := hrun
    obtain ⟨hlock', hdata', hlocked'⟩ :=
      @step_of_outside _ _ _ _ _ w f s l hlocked (hlock ▸ h l List.mem_cons_self)
    exact ih hlocked' (hlock'.trans hlock) (hdata'.trans hdata)
      (fun l' hl' => h l' (List.mem_cons_of_mem _ hl')) hstep

/-- **I/O locks are exclusive.** In every run each call keeps what the lock promises; and as long as
all that happens to a locked node comes from outside, the node and its lock stay as they are. -/
theorem exclusive (w : World τ π γ) (f : Functions δ) (data : δ) (alive : HandleId → Bool)
    (labels : List (Label τ π γ)) :
    Along (step w f) (Exclusive w f) (init data alive) labels ∧
      ∀ s : State δ, s.Locked → (∀ l ∈ labels, Outside w s.lock.handle l) →
        ∀ t, run (step w f) s labels = some t → t.lock = s.lock ∧ t.data = s.data := by
  constructor
  · have halways : ∀ (s : State δ) (l : Label τ π γ), Exclusive w f s l := fun s l =>
      ⟨fun hlocked party hcaller h => refused_of_foreign hlocked hcaller h, released_of_free⟩
    exact along_of_inv (I := fun _ => True) (fun _ _ _ _ _ _ => trivial)
      (fun s l _ _ => halways s l)
      labels _ trivial (along_true _ _)
  · intro s hlocked h t hrun
    exact run_of_outside labels hlocked rfl rfl h hrun

/-! ### The kernel releases a lock -/

/-- Three processes with one thread each; the last one is the kernel. -/
def machine : World (Fin 3) (Fin 3) (Fin 3) where
  threadHandleType := 1
  processHandleType := 2
  processGroupHandleType := 3
  threadHandle t := 1 + 65536 * t
  processHandle p := 2 + 65536 * p
  processGroupHandle g := 3 + 65536 * g
  process t := t
  processGroup p := p
  processKernel := 2

/-- A node with one byte that can be written. -/
def cell : Functions UInt8 where
  read := some fun data _ _ _ => (data, [data])
  write := some fun _ _ buffer _ => (buffer.headD 0, 1)
  resize := none

/-- The node is locked for the first thread. -/
def lockedCell : State UInt8 := ⟨⟨.thread, 1⟩, 0, fun _ => true⟩

/-- The second thread writes. -/
theorem exclusive_cell :
    ∀ t, run (step machine cell) lockedCell [.write 1 0 [7] 0] = some t →
      t.lock = lockedCell.lock ∧ t.data = lockedCell.data := by
  have hforeign : Foreign machine lockedCell.lock.handle (.thread 1) := by
    refine ⟨by simp [IsKernel, machine], ?_⟩
    simp [Covers, machine, lockedCell]
  refine (exclusive machine cell 0 (fun _ => true) [.write 1 0 [7] 0]).2 lockedCell
    ⟨by decide, rfl⟩ ?_
  intro l hl
  obtain rfl := List.mem_singleton.mp hl
  exact .inl ⟨.thread 1, rfl, hforeign⟩

/-- The thread of the kernel gives back a lock whose handle does not cover it. -/
theorem kernel_releases :
    ¬∀ (data : UInt8) (alive : HandleId → Bool) (labels : List (Label (Fin 3) (Fin 3) (Fin 3))),
      Along (step machine cell)
        (fun s l =>
          (s.Locked → ∀ party, l.caller = some party → Foreign machine s.lock.handle party →
            Refused machine cell s l) ∧
          (s.lock.type ≠ .none → (call machine cell s l).1.lock.type = .none →
            ¬s.alive s.lock.handle ∨
              ∃ party, l = .lock party 0 ∧ Covers machine s.lock.handle party))
        (init data alive) labels := by
  intro h
  have hrun := h 0 (fun _ => true) [.lock (.thread 0) 1, .lock (.thread 2) 0]
  have hlast := (hrun.2 _ rfl).1.2 (by decide) (by decide)
  rcases hlast with hdead | ⟨party, hparty, hcovers⟩
  · exact hdead rfl
  · obtain rfl : Party.thread 2 = party := (Label.lock.inj hparty).1
    rcases hcovers with hthread | hprocess | hgroup
    · exact absurd hthread (by decide)
    · exact absurd hprocess (by decide)
    · exact absurd hgroup (by decide)

end KernelModel.VfsLock
