import KernelModel.Runs

/-!
Handles: reference counts, the tree that lookups search, and the delete callback.

The handles are those of one descriptor, whose lock orders the lookups and the removals. A CPU
makes one atomic access at a time. A call without an effect of its own is counted with its first
access: `handle_release` starts with its decrement and `handle_acquire` is its increment.
-/

namespace KernelModel.Handles

open Runs

/-- What a CPU does next; `idle` is outside of the functions. -/
inductive Pc (η : Type)
  | idle
  /-- `handle_lookup_and_acquire`, under the read lock, before the search -/
  | lookupTree (h : η)
  /-- the handle was found; before its count is increased -/
  | lookupAcquire (h : η)
  /-- before the read lock is given back -/
  | lookupUnlock (h : η) (found : Bool)
  /-- `handle_release`, between the decrement and the read of the count -/
  | test (h : η)
  /-- `_handle_delete_internal`, before its first read of the count -/
  | delete (h : η)
  /-- before the write lock is taken -/
  | lock (h : η)
  /-- under the write lock, before the second read of the count -/
  | retest (h : η)
  /-- under the write lock, before `rb_tree_remove_node` -/
  | remove (h : η)
  /-- before the write lock is given back -/
  | unlock (h : η) (removed : Bool)
  /-- before the delete callback -/
  | callback (h : η)
  deriving DecidableEq, Repr

/-- The CPU holds the descriptor's lock for reading. -/
@[simp] def Pc.reads {η : Type} : Pc η → Bool
  | .lookupTree _ | .lookupAcquire _ | .lookupUnlock _ _ => true
  | _ => false

/-- The CPU holds the descriptor's lock for writing. -/
@[simp] def Pc.writes {η : Type} : Pc η → Bool
  | .retest _ | .remove _ | .unlock _ _ => true
  | _ => false

structure Handle where
  rc : ℕ
  inTree : Bool
  created : Bool
  /-- the references that were handed out and not yet released -/
  refs : ℕ
  /-- how often the delete callback was called -/
  callbacks : ℕ
  /-- the count was decremented to zero -/
  dropped : Bool
  deriving DecidableEq, Repr

/-- A lookup that returned a handle: what was true of the handle then. -/
structure Returned (η : Type) where
  handle : η
  dropped : Bool
  callbacks : ℕ
  deriving DecidableEq, Repr

structure State (κ η : Type) where
  handle : η → Handle
  pc : κ → Pc η
  returned : List (Returned η)

def notCreated : Handle :=
  { rc := 0
    inTree := false
    created := false
    refs := 0
    callbacks := 0
    dropped := false }

def initial (κ η : Type) : State κ η :=
  { handle := fun _ => notCreated
    pc := fun _ => .idle
    returned := [] }

inductive Action (η : Type)
  | new (h : η)
  | lookup (h : η)
  | acquire (h : η)
  | release (h : η)
  | step
  deriving DecidableEq, Repr

/-- `handle_new`: the creation reference. -/
def handleNew : Handle :=
  { rc := 1
    inTree := true
    created := true
    refs := 1
    callbacks := 0
    dropped := false }

/-- The increment of `handle_acquire`, as a CPU makes it that has a reference already. -/
def Handle.increment (x : Handle) : Handle := { x with rc := (x.rc + 1) % 2 ^ 64 }

/-- The decrement of `handle_release`. -/
def Handle.decrement (x : Handle) : Handle :=
  let rc := (x.rc + 2 ^ 64 - 1) % 2 ^ 64
  { x with
    rc
    refs := x.refs - 1
    dropped := x.dropped || rc = 0 }

variable {κ η : Type} [DecidableEq κ] [DecidableEq η]

def State.goto (s : State κ η) (i : κ) (p : Pc η) : State κ η :=
  { s with pc := Function.update s.pc i p }

def State.setHandle (s : State κ η) (h : η) (x : Handle) : State κ η :=
  { s with handle := Function.update s.handle h x }

variable [Fintype κ]

/-- One access of CPU `i` inside of a function. -/
def access (s : State κ η) (i : κ) : Option (State κ η) :=
  match s.pc i with
  | .idle => none
  | .lookupTree h =>
    some (s.goto i (if (s.handle h).inTree then .lookupAcquire h else .lookupUnlock h false))
  | .lookupAcquire h =>
    some ((s.setHandle h (s.handle h).increment).goto i (.lookupUnlock h true))
  | .lookupUnlock h found =>
    if found then
      let x := s.handle h
      some ({ s with returned := ⟨h, x.dropped, x.callbacks⟩ :: s.returned }.setHandle h
        { x with refs := x.refs + 1 } |>.goto i .idle)
    else some (s.goto i .idle)
  | .test h => some (s.goto i (if (s.handle h).rc ≠ 0 then .idle else .delete h))
  | .delete h => some (s.goto i (if (s.handle h).rc ≠ 0 then .idle else .lock h))
  | .lock h =>
    if ∀ j, (s.pc j).reads = false ∧ (s.pc j).writes = false then some (s.goto i (.retest h))
    else none
  | .retest h => some (s.goto i (if (s.handle h).rc ≠ 0 then .unlock h false else .remove h))
  | .remove h =>
    some ((s.setHandle h { s.handle h with inTree := false }).goto i (.unlock h true))
  | .unlock h removed => some (s.goto i (if removed then .callback h else .idle))
  | .callback h =>
    some ((s.setHandle h { s.handle h with callbacks := (s.handle h).callbacks + 1 }).goto i .idle)

/-- One move of CPU `l.1`. References are acquired and released only where one is held. -/
def step (s : State κ η) (l : κ × Action η) : Option (State κ η) :=
  let i := l.1
  match l.2 with
  | .new h =>
    if s.pc i = .idle ∧ (s.handle h).created = false ∧
        ∀ j, (s.pc j).reads = false ∧ (s.pc j).writes = false then
      some (s.setHandle h handleNew)
    else none
  | .lookup h =>
    if s.pc i = .idle ∧ ∀ j, (s.pc j).writes = false then some (s.goto i (.lookupTree h))
    else none
  | .acquire h =>
    let x := s.handle h
    if s.pc i = .idle ∧ 0 < x.refs then
      some (s.setHandle h { x.increment with refs := x.refs + 1 })
    else none
  | .release h =>
    if s.pc i = .idle ∧ 0 < (s.handle h).refs then
      some ((s.setHandle h (s.handle h).decrement).goto i (.test h))
    else none
  | .step => access s i

/-- The CPU is inside of a function for handle `h`. -/
def Pc.concerns (h : η) : Pc η → Bool
  | .idle => false
  | .lookupTree k | .lookupAcquire k | .lookupUnlock k _ | .test k | .delete k | .lock k
  | .retest k | .remove k | .unlock k _ | .callback k => k = h

/-- Every handle is deleted once: its callback runs at most once and only when all references are
released, it has run once they are and no CPU is inside of a function for the handle, and no lookup
has returned the handle after its count was zero or its callback had started. -/
structure Once (s : State κ η) : Prop where
  atMost : ∀ h, (s.handle h).callbacks ≤ 1
  after : ∀ h, (s.handle h).callbacks ≠ 0 → (s.handle h).refs = 0 ∧ (s.handle h).rc = 0
  atLeast : ∀ h, (s.handle h).created = true → (s.handle h).refs = 0 →
    (∀ i, (s.pc i).concerns h = false) → (s.handle h).callbacks = 1
  lookups : ∀ r ∈ s.returned, r.dropped = false ∧ r.callbacks = 0

end KernelModel.Handles
