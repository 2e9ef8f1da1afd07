import KernelModel.Runs

/-!
The system calls on mutexes, and their panics.

A call is one step, but for an acquisition of a held mutex: its thread waits, with a reference of
the handle, and looks again any time later. Threads belong to processes by `process`; process zero
is the kernel. Names, profiling and the events are left out, and so is the thread's own reference
count.
-/

namespace KernelModel.MutexCalls

open Runs

/-- The three panics. -/
inductive Panic
  /-- `mutex_release: lock released by wrong thread` -/
  | wrongThread
  /-- `mutex_delete: lock is held` -/
  | held
  /-- `_mutex_handle_destructor: unreferenced mutex not deleted` -/
  | notDeleted
  deriving DecidableEq

inductive Acl
  | delete
  | query
  | io
  deriving DecidableEq

/-- `mutex_handle_t` with its `mutex_t`; the handle is in its tree while its count is not zero. -/
structure MutexHandle (ι : Type*) where
  rc : ℕ
  isDeleted : Bool
  acl : ℕ → Finset Acl
  holder : Option ι

structure State (ι : Type*) where
  mutex : ℕ → MutexHandle ι
  count : ℕ
  /-- the mutex that a thread waits for inside of `mutex_acquire` -/
  waiting : ι → Option ℕ
  panicked : Option Panic

variable {ι : Type*} [DecidableEq ι]

def State.init : State ι where
  mutex := fun _ => ⟨0, false, fun _ => ∅, none⟩
  count := 0
  waiting := fun _ => none
  panicked := none

def State.set (s : State ι) (h : ℕ) (m : MutexHandle ι) : State ι :=
  { s with mutex := Function.update s.mutex h m }

/-- `acl_get` of one flag -/
def aclGet (m : MutexHandle ι) (process : ℕ) (flag : Acl) : Prop :=
  process = 0 ∨ flag ∈ m.acl process

instance (m : MutexHandle ι) (process : ℕ) (flag : Acl) : Decidable (aclGet m process flag) :=
  inferInstanceAs (Decidable (_ ∨ _))

/-! ### The calls -/

/-- `_mutex_handle_destructor` with `mutex_delete` -/
def mutexHandleDestructor (s : State ι) (h : ℕ) : Except Panic (State ι) :=
  if !(s.mutex h).isDeleted then .error .notDeleted
  else if (s.mutex h).holder.isSome then .error .held
  else .ok s

def handleRelease (s : State ι) (h : ℕ) : Except Panic (State ι) :=
  let m := s.mutex h
  let s := s.set h { m with rc := m.rc - 1 }
  if m.rc - 1 ≠ 0 then .ok s else mutexHandleDestructor s h

/-- `mutex_release` -/
def mutexRelease (s : State ι) (i : ι) (h : ℕ) : Except Panic (State ι) :=
  let m := s.mutex h
  if m.holder ≠ some i then .error .wrongThread else .ok (s.set h { m with holder := none })

inductive Reply
  | ok
  | handle (h : ℕ)
  | invalidHandle
  | denied
  deriving DecidableEq

def syscallMutexCreate (s : State ι) (process : ℕ) : State ι :=
  let acl := Function.update (fun _ => ∅) process {.delete, .query, .io}
  let m := { rc := 1, isDeleted := false, acl := acl, holder := none }
  { s.set s.count m with count := s.count + 1 }

/-- The start of the other calls: the lookup, the test for a deleted mutex, and the check of the
access control list. -/
def lookup (s : State ι) (process h : ℕ) (flag : Acl) : Reply :=
  if (s.mutex h).rc = 0 then .invalidHandle
  else if (s.mutex h).isDeleted then .invalidHandle
  else if ¬aclGet (s.mutex h) process flag then .denied
  else .ok

/-- The reference of the lookup -/
def acquired (s : State ι) (h : ℕ) : State ι :=
  s.set h { s.mutex h with rc := (s.mutex h).rc + 1 }

/-- `syscall_mutex_delete`; a refused call gives its reference back. -/
def syscallMutexDelete (s : State ι) (process h : ℕ) : Except Panic (State ι) :=
  if lookup s process h .delete = .ok then do
    let s := acquired s h
    let s ← handleRelease (s.set h { s.mutex h with isDeleted := true }) h
    handleRelease s h
  else .ok s

/-- `syscall_mutex_get_holder` only reads. -/
def syscallMutexGetHolder (s : State ι) (process h : ℕ) : Reply × Option ι :=
  (lookup s process h .query, (s.mutex h).holder)

/-- The end of `mutex_acquire`, with the release that follows it. -/
def finishAcquire (s : State ι) (i : ι) (h : ℕ) : Except Panic (State ι) :=
  handleRelease (s.set h { s.mutex h with holder := some i }) h

/-- `syscall_mutex_acquire`, to its end or to its wait -/
def syscallMutexAcquire (s : State ι) (i : ι) (process h : ℕ) : Except Panic (State ι) :=
  if lookup s process h .io = .ok then
    let s := acquired s h
    if (s.mutex h).holder.isSome then .ok { s with waiting := Function.update s.waiting i (some h) }
    else finishAcquire s i h
  else .ok s

def syscallMutexRelease (s : State ι) (i : ι) (process h : ℕ) : Except Panic (State ι) :=
  if lookup s process h .io = .ok then do
    let s ← mutexRelease (acquired s h) i h
    handleRelease s h
  else .ok s

/-! ### Runs -/

inductive Op
  | create
  | acquire (h : ℕ)
  | release (h : ℕ)
  | getHolder (h : ℕ)
  | delete (h : ℕ)
  /-- A waiting thread tests the holder again. -/
  | resume
  deriving DecidableEq

/-- A call of a thread that does not wait, or the next test of one that does. -/
def State.call (s : State ι) (i : ι) (process : ℕ) : Op → Option (Except Panic (State ι))
  | .resume =>
    match s.waiting i with
    | none => none
    | some h =>
      if (s.mutex h).holder.isSome then some (.ok s)
      else some (finishAcquire { s with waiting := Function.update s.waiting i none } i h)
  | op =>
    if (s.waiting i).isSome then none
    else some <| match op with
      | .create => .ok (syscallMutexCreate s process)
      | .acquire h => syscallMutexAcquire s i process h
      | .release h => syscallMutexRelease s i process h
      | .delete h => syscallMutexDelete s process h
      | _ => .ok s

/-- A panic ends all calls. -/
def step (process : ι → ℕ) (s : State ι) (l : ι × Op) : Option (State ι) :=
  if s.panicked.isSome then none
  else (s.call l.1 (process l.1) l.2).map fun
    | .ok s' => s'
    | .error e => { s with panicked := some e }

/-- A release is by the holder. A mutex is deleted while it is free or others wait for it, and
an acquisition that was waiting does not end on a deleted mutex that nobody else waits for. -/
def Orderly (process : ι → ℕ) (s : State ι) (l : ι × Op) : Prop :=
  s.panicked = none → match l.2 with
    | .release h => s.waiting l.1 = none → lookup s (process l.1) h .io = .ok →
        (s.mutex h).holder = some l.1
    | .delete h => s.waiting l.1 = none → lookup s (process l.1) h .delete = .ok →
        (s.mutex h).holder = none ∨ ∃ j, s.waiting j = some h
    | .resume => ∀ h, s.waiting l.1 = some h → (s.mutex h).holder = none →
        (s.mutex h).isDeleted = true → ∃ j, j ≠ l.1 ∧ s.waiting j = some h
    | _ => True

end KernelModel.MutexCalls
