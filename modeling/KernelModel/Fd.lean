import KernelModel.Runs

/-!
File descriptors and their references.

A reference of a descriptor belongs to the handle list of a process, or to one of the three
standard streams of a process. The calls are taken one after another. A handle is written as its
index in the descriptor type, that starts at one here; zero is no handle. The node, the offset and
the flags of a descriptor are left out.
-/

namespace KernelModel.Fd

open Runs

inductive Acl
  | stat
  | dup
  | io
  | close
  deriving DecidableEq

inductive Stream
  | stdin
  | stdout
  | stderr
  deriving DecidableEq

def streams : List Stream := [.stdin, .stdout, .stderr]

structure State where
  /-- the reference counts; a handle is in its tree while its count is not zero -/
  rc : ℕ → ℕ
  /-- the access control list of a handle, by process -/
  acl : ℕ → ℕ → Finset Acl
  /-- the index of the next handle -/
  count : ℕ
  processCount : ℕ
  alive : ℕ → Bool
  handleList : ℕ → List ℕ
  fdStd : ℕ → Stream → ℕ
  /-- `fd_ref` took a reference for this stream; no code reads it -/
  fdHeld : ℕ → Stream → Bool

/-- One process without descriptors. -/
def State.init : State where
  rc := fun _ => 0
  acl := fun _ _ => ∅
  count := 1
  processCount := 1
  alive := fun p => p = 0
  handleList := fun _ => []
  fdStd := fun _ _ => 0
  fdHeld := fun _ _ => false

/-! ### Handles -/

def handleLookupAndAcquire (s : State) (h : ℕ) : Option State :=
  if s.rc h = 0 then none else some { s with rc := Function.update s.rc h (s.rc h + 1) }

/-- `handle_release`; the last release deletes the handle and its access control list. -/
def handleRelease (s : State) (h : ℕ) : State :=
  { s with rc := Function.update s.rc h (s.rc h - 1)
           acl := if s.rc h - 1 = 0 then Function.update s.acl h fun _ => ∅ else s.acl }

/-- `handle_new`: the handle and the state with it. -/
def handleNew (s : State) : ℕ × State :=
  (s.count, { s with rc := Function.update s.rc s.count 1
                     count := s.count + 1 })

def handleListPush (s : State) (p h : ℕ) : State :=
  { s with handleList := Function.update s.handleList p (s.handleList p ++ [h]) }

/-- `handle_list_pop` does not tell whether the handle was in the list. -/
def handleListPop (s : State) (p h : ℕ) : State :=
  { s with handleList := Function.update s.handleList p ((s.handleList p).erase h) }

def aclSet (s : State) (h p : ℕ) (flags : Finset Acl) : State :=
  { s with acl := Function.update s.acl h
             (Function.update (s.acl h) p (s.acl h p ∪ flags)) }

/-- One round of `handle_list_destroy`. -/
def handleListDestroyEntry (s : State) (h : ℕ) : State :=
  match handleLookupAndAcquire s h with
  | none => s
  | some s =>
    let s := handleRelease s h
    if s.rc h ≠ 0 then handleRelease s h else s

/-- `handle_list_destroy`: handles are created in ascending order, the order of the tree. -/
def handleListDestroy (s : State) (p : ℕ) : State :=
  (s.handleList p).foldl handleListDestroyEntry
    { s with handleList := Function.update s.handleList p [] }

/-! ### Descriptors -/

/-- `fd_from_node`, and the part of `syscall_fd_dup` that makes the new descriptor. -/
def fdFromNode (s : State) (p : ℕ) : ℕ × State :=
  let (h, s) := handleNew s
  let s := handleListPush s p h
  let s := { s with acl := Function.update s.acl h fun _ => ∅ }
  (h, aclSet s h p {.stat, .dup, .io, .close})

def fdAllowDup (s : State) (h p : ℕ) : State :=
  match handleLookupAndAcquire s h with
  | none => s
  | some s => handleRelease (aclSet s h p {.dup}) h

/-- `fd_ref` keeps the reference of its lookup. -/
def fdRef (s : State) (h : ℕ) : State :=
  match handleLookupAndAcquire s h with
  | none => s
  | some s => s

def fdUnref (s : State) (h : ℕ) : State :=
  match handleLookupAndAcquire s h with
  | none => s
  | some s => handleRelease (handleRelease s h) h

inductive Reply
  | ok
  | handle (h : ℕ)
  | invalidHandle
  | denied
  | notFound
  deriving DecidableEq

/-- `syscall_fd_open` from the descriptor `root`, or from the root node for zero; `found` is
whether there is a node to open. -/
def syscallFdOpen (s : State) (p root : ℕ) (found : Bool) : Reply × State :=
  if root ≠ 0 ∧ s.rc root = 0 then (.invalidHandle, s)
  else if !found then (.notFound, s)
  else
    let (h, s) := fdFromNode s p
    (.handle h, s)

def syscallFdClose (s : State) (p fd : ℕ) : Reply × State :=
  match handleLookupAndAcquire s fd with
  | none => (.invalidHandle, s)
  | some s =>
    if .close ∉ s.acl fd p then (.denied, handleRelease s fd)
    else
      let s := handleListPop s p fd
      (.ok, handleRelease (handleRelease s fd) fd)

inductive Dup
  | cwd
  | stream (t : Stream)
  | handle (h : ℕ)
  deriving DecidableEq

/-- The handle that `syscall_fd_dup` looks up; `FD_DUP_STDIN` is no handle itself. -/
def Dup.target (s : State) (p : ℕ) : Dup → ℕ
  | .cwd => 0
  | .stream t => s.fdStd p t
  | .handle h => h

def syscallFdDup (s : State) (p : ℕ) (fd : Dup) : Reply × State :=
  if fd = .cwd then
    let (h, s) := fdFromNode s p
    (.handle h, s)
  else
    let fd := fd.target s p
    match handleLookupAndAcquire s fd with
    | none => (.invalidHandle, s)
    | some s =>
      if .dup ∉ s.acl fd p then (.denied, handleRelease s fd)
      else
        let (h, s) := fdFromNode s p
        (.handle h, handleRelease s fd)

/-! ### Processes -/

/-- One stream of a new process: `fd_ref`, noted in `fdHeld`. -/
def startStream (child : ℕ) (s : State) (t : Stream) : State :=
  let held := s.rc (s.fdStd child t) ≠ 0
  { fdRef s (s.fdStd child t) with
    fdHeld := Function.update s.fdHeld child (Function.update (s.fdHeld child) t held) }

/-- `syscall_process_start` with the streams that the caller gives, or its own for zero; `loaded`
is whether `elf_load` made the process. -/
def syscallProcessStart (s : State) (p : ℕ) (std : Stream → ℕ) (loaded : Bool) : State :=
  if !loaded then s
  else
    let child := s.processCount
    let fdStd := fun t => if std t ≠ 0 then std t else s.fdStd p t
    let s := { s with processCount := child + 1
                      alive := Function.update s.alive child true
                      handleList := Function.update s.handleList child []
                      fdStd := Function.update s.fdStd child fdStd
                      fdHeld := Function.update s.fdHeld child fun _ => false }
    let s := streams.foldl (startStream child) s
    streams.foldl (fun s t => fdAllowDup s (fdStd t) child) s

/-- `_process_handle_destructor` -/
def processHandleDestructor (s : State) (p : ℕ) : State :=
  let s := streams.foldl (fun s t => fdUnref s (s.fdStd p t)) s
  let s := handleListDestroy s p
  { s with alive := Function.update s.alive p false
           fdHeld := Function.update s.fdHeld p fun _ => false }

/-! ### Runs -/

inductive Op
  | fdOpen (p root : ℕ) (found : Bool)
  | fdDup (p : ℕ) (fd : Dup)
  | fdClose (p fd : ℕ)
  | processStart (p : ℕ) (std : Stream → ℕ) (loaded : Bool)
  | processEnd (p : ℕ)

def Op.process : Op → ℕ
  | .fdOpen p _ _ | .fdDup p _ | .fdClose p _ | .processStart p _ _ | .processEnd p => p

def State.apply (s : State) : Op → State
  | .fdOpen p root found => (syscallFdOpen s p root found).2
  | .fdDup p fd => (syscallFdDup s p fd).2
  | .fdClose p fd => (syscallFdClose s p fd).2
  | .processStart p std loaded => syscallProcessStart s p std loaded
  | .processEnd p => processHandleDestructor s p

/-- One call of a process that has not ended, or its end. -/
def step (s : State) (op : Op) : Option State :=
  if s.alive op.process then some (s.apply op) else none

/-- The references that a process has: those of its list and those of its streams. -/
def State.refs (s : State) (p : ℕ) : List ℕ :=
  s.handleList p ++ (streams.filter (s.fdHeld p)).map (s.fdStd p)

/-- The number of holders of a handle. -/
def State.holders (s : State) (h : ℕ) : ℕ :=
  ∑ p ∈ Finset.range s.processCount, (s.refs p).count h

/-- Every reference has its holder, and every holder its reference. -/
def State.Balanced (s : State) : Prop := ∀ h, s.rc h = s.holders h

/-- A close drops at most the reference that the caller's list has. -/
def ClosesOwn (s : State) : Op → Prop
  | .fdClose p fd => s.alive p = true →
      ∀ h, s.rc h ≤ (syscallFdClose s p fd).2.rc h + (s.handleList p).count h
  | _ => True

/-- A close that is not refused is of a handle in the caller's list. A process that ends has no
stream that names, without a reference, a descriptor of others. -/
def Owned (s : State) : Op → Prop
  | .fdClose p fd => s.alive p = true → s.rc fd ≠ 0 → .close ∈ s.acl fd p → fd ∈ s.handleList p
  | .processEnd p => s.alive p = true → ∀ t, s.fdHeld p t = false → s.rc (s.fdStd p t) ≠ 0 →
      s.rc (s.fdStd p t) ≤ (s.refs p).count (s.fdStd p t)
  | _ => True

end KernelModel.Fd
