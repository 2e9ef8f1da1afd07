import KernelModel.Runs

/-!
The ring buffer: items go in under one lock and come out under another.

Each lock lets one CPU at a time into its critical section, so a state has at most one push and
one pop or peek under way; their accesses to the shared fields happen one at a time and in any
order. The events only decide when a caller that found the ring full or empty tries again.

`pushed` and `popped` are the items that have gone in and come out so far, and `peeks` the items
that peeks have returned, each with the number of pops before it.
-/

namespace KernelModel.Rings

open Runs

/-- Where the CPU with the write lock is in `ring_push`. -/
inductive PushPc
  | idle
  /-- before the test of `write_count` -/
  | check (item : ℕ)
  /-- before the store into the buffer -/
  | store (item : ℕ)
  /-- before `read_count++` -/
  | incReadCount (item : ℕ)
  /-- before `write_count--` -/
  | decWriteCount
  /-- before `write_index++` -/
  | incWriteIndex
  deriving DecidableEq, Repr

/-- Where the CPU with the read lock is in `_get_item`. -/
inductive GetPc
  | idle
  /-- before the test of `read_count` -/
  | check (pop : Bool)
  /-- before the load from the buffer -/
  | load (pop : Bool)
  /-- before `read_index++` -/
  | incReadIndex (item : ℕ)
  /-- before `read_count--` -/
  | decReadCount (item : ℕ)
  /-- before `write_count++` -/
  | incWriteCount
  deriving DecidableEq, Repr

/-- `ring_t`, with the two critical sections and the history. -/
structure Ring where
  buffer : ℕ → ℕ
  capacity : ℕ
  readIndex : ℕ
  readCount : ℕ
  writeIndex : ℕ
  writeCount : ℕ
  pushPc : PushPc
  getPc : GetPc
  pushed : List ℕ
  popped : List ℕ
  peeks : List (ℕ × ℕ)

/-- `ring_init` -/
def ringInit (buffer : ℕ → ℕ) (capacity : ℕ) : Option Ring :=
  if capacity = 0 then none
  else if capacity &&& (capacity - 1) ≠ 0 then none
  else some
    { buffer := buffer
      capacity := capacity
      readIndex := 0
      readCount := 0
      writeIndex := 0
      writeCount := capacity
      pushPc := .idle
      getPc := .idle
      pushed := []
      popped := []
      peeks := [] }

def inc (n : ℕ) : ℕ := (n + 1) % 2 ^ 32
def dec (n : ℕ) : ℕ := (n + 2 ^ 32 - 1) % 2 ^ 32

inductive Move
  /-- `ring_push` takes the write lock -/
  | push (item : ℕ)
  /-- `ring_pop` or `ring_peek` takes the read lock -/
  | get (pop : Bool)
  /-- the next access of the push -/
  | pushStep
  /-- the next access of the pop or peek -/
  | getStep
  deriving DecidableEq, Repr

def pushStep (r : Ring) : Option Ring :=
  match r.pushPc with
  | .idle => none
  | .check item => some { r with pushPc := if r.writeCount = 0 then .idle else .store item }
  | .store item =>
    some { r with buffer := Function.update r.buffer r.writeIndex item
                  pushPc := .incReadCount item }
  | .incReadCount item =>
    some { r with readCount := inc r.readCount
                  pushed := r.pushed ++ [item]
                  pushPc := .decWriteCount }
  | .decWriteCount => some { r with writeCount := dec r.writeCount, pushPc := .incWriteIndex }
  | .incWriteIndex => some { r with writeIndex := inc r.writeIndex, pushPc := .idle }

def getStep (r : Ring) : Option Ring :=
  match r.getPc with
  | .idle => none
  | .check pop => some { r with getPc := if r.readCount = 0 then .idle else .load pop }
  | .load true => some { r with getPc := .incReadIndex (r.buffer r.readIndex) }
  | .load false =>
    some { r with peeks := (r.popped.length, r.buffer r.readIndex) :: r.peeks, getPc := .idle }
  | .incReadIndex item => some { r with readIndex := inc r.readIndex, getPc := .decReadCount item }
  | .decReadCount item =>
    some { r with readCount := dec r.readCount
                  popped := r.popped ++ [item]
                  getPc := .incWriteCount }
  | .incWriteCount => some { r with writeCount := inc r.writeCount, getPc := .idle }

def step (r : Ring) : Move → Option Ring
  | .push item => if r.pushPc = .idle then some { r with pushPc := .check item } else none
  | .get pop => if r.getPc = .idle then some { r with getPc := .check pop } else none
  | .pushStep => pushStep r
  | .getStep => getStep r

/-- A bounded queue: what comes out is a prefix of what went in, a peek saw what the next pop
takes, buffer accesses are inside, and the counts add up when no call is under way. -/
structure Fifo (r : Ring) : Prop where
  popped : r.popped <+: r.pushed
  peeks : ∀ p ∈ r.peeks, ∀ item, r.popped[p.1]? = some item → item = p.2
  store : ∀ item, r.pushPc = .store item → r.writeIndex < r.capacity
  load : ∀ pop, r.getPc = .load pop → r.readIndex < r.capacity
  counts : r.pushPc = .idle → r.getPc = .idle → r.readCount + r.writeCount = r.capacity

/-- A push that finds room is one of the first `capacity` ones. -/
def Early (r : Ring) (m : Move) : Prop :=
  match m, r.pushPc with
  | .pushStep, .check _ => r.writeCount = 0 ∨ r.pushed.length < r.capacity
  | _, _ => True

instance (r : Ring) (m : Move) : Decidable (Early r m) := by
  unfold Early
  split <;> infer_instance

end KernelModel.Rings
