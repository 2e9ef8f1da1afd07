import KernelModel.Runs

/-!
The reader-writer lock: one word, changed by single atomic accesses.

Bit `0` of the word is the spin bit, bit `1` says that the lock is held for reading and
the remaining thirty bits count the readers. A CPU calls one of the functions and then
makes its atomic accesses one at a time, so that accesses of other CPUs may fall between
any two of them.
-/

namespace KernelModel.RwLock

open Runs

def rwlockLockBit : ℕ := 0
def rwlockReadBit : ℕ := 1
def rwlockFirstCounterBit : ℕ := 2

def lockMask : ℕ := 1 <<< rwlockLockBit
def readMask : ℕ := 1 <<< rwlockReadBit
def counterUnit : ℕ := 1 <<< rwlockFirstCounterBit

/-- The atomic access a CPU makes next; `idle` is outside of the lock's functions. -/
inductive Pc
  | idle
  /-- `rwlock_try_acquire_write`, before its fetch-or -/
  | tryWrite
  /-- `rwlock_acquire_write`, before a fetch-or -/
  | writeSpin
  /-- a fetch-or found the spin bit clear; before the store of a writer -/
  | writeStore
  /-- `rwlock_release_write`, before its store -/
  | writeRelease
  /-- `rwlock_acquire_read`, before a fetch-or -/
  | readSpin
  /-- a fetch-or found the read bit set; before the add-fetch -/
  | readAdd
  /-- a fetch-or found the word unlocked; before the store of the first reader -/
  | readStore
  /-- `rwlock_release_read`, before its sub-fetch -/
  | readRelease
  /-- the sub-fetch found no reader left; before the store of zero -/
  | readClear
  deriving DecidableEq, Repr

/-- A CPU: its next access, the read acquisitions it holds and whether it is the writer. -/
structure Cpu where
  pc : Pc
  reads : ℕ
  writing : Bool
  deriving DecidableEq, Repr

def released : Cpu := ⟨.idle, 0, false⟩

structure State (ι : Type) where
  value : ℕ
  cpu : ι → Cpu

/-- `rwlock_init`, with every CPU outside of the lock. -/
def rwlockInit (ι : Type) : State ι := ⟨0, fun _ => released⟩

inductive Call
  | tryAcquireWrite
  | acquireWrite
  | releaseWrite
  | acquireRead
  | releaseRead
  deriving DecidableEq, Repr

/-- What a CPU does: enter a function of the lock, or make its next access. -/
inductive Action
  | call (f : Call)
  | access
  deriving DecidableEq, Repr

/-- Entering a function. A release is only called by a CPU that holds what it releases. -/
def call (x : Cpu) : Call → Option Cpu
  | .tryAcquireWrite => if x.pc = .idle then some { x with pc := .tryWrite } else none
  | .acquireWrite => if x.pc = .idle then some { x with pc := .writeSpin } else none
  | .releaseWrite =>
    if x.pc = .idle ∧ x.writing then some { x with pc := .writeRelease } else none
  | .acquireRead => if x.pc = .idle then some { x with pc := .readSpin } else none
  | .releaseRead =>
    if x.pc = .idle ∧ 0 < x.reads then some { x with pc := .readRelease } else none

/-- One atomic access: the word and the CPU after it. -/
def access (value : ℕ) (x : Cpu) : Option (ℕ × Cpu) :=
  match x.pc with
  | .idle => none
  | .tryWrite =>
    some (value ||| lockMask,
      { x with pc := if value &&& lockMask ≠ 0 then .idle else .writeStore })
  | .writeSpin =>
    some (value ||| lockMask,
      { x with pc := if value &&& lockMask ≠ 0 then .writeSpin else .writeStore })
  | .writeStore => some (lockMask, { x with pc := .idle, writing := true })
  | .writeRelease => some (0, { x with pc := .idle, writing := false })
  | .readSpin =>
    some (value ||| lockMask,
      { x with pc := if value &&& readMask ≠ 0 then .readAdd
                     else if value &&& lockMask = 0 then .readStore
                     else .readSpin })
  | .readAdd =>
    some ((value + counterUnit) % 2 ^ 32, { x with pc := .idle, reads := x.reads + 1 })
  | .readStore =>
    some (lockMask ||| readMask ||| counterUnit, { x with pc := .idle, reads := x.reads + 1 })
  | .readRelease =>
    let value' := (value + 2 ^ 32 - counterUnit) % 2 ^ 32
    some (value',
      { x with pc := if value' = lockMask ||| readMask then .readClear else .idle
               reads := x.reads - 1 })
  | .readClear => some (0, { x with pc := .idle })

variable {ι : Type} [DecidableEq ι]

/-- One move of CPU `l.1`. -/
def step (s : State ι) (l : ι × Action) : Option (State ι) :=
  match l.2 with
  | .call f => (call (s.cpu l.1) f).map fun x => { s with cpu := Function.update s.cpu l.1 x }
  | .access => (access s.value (s.cpu l.1)).map fun r =>
      ⟨r.1, Function.update s.cpu l.1 r.2⟩

/-- A writer inside its critical section is alone: no reader, and no other writer. -/
def Exclusive (s : State ι) : Prop :=
  ∀ i, (s.cpu i).writing = true →
    ∀ j, (s.cpu j).reads = 0 ∧ ((s.cpu j).writing = true → j = i)

/-- Once every CPU has released, the word is the initial one. -/
def Restored (s : State ι) : Prop :=
  (∀ i, s.cpu i = released) → s.value = (rwlockInit ι).value

variable [Fintype ι]

/-- The read acquisitions held by all CPUs together. -/
def readers (s : State ι) : ℕ := ∑ i, (s.cpu i).reads

/-- What the other CPUs must not be doing at a CPU's next access `p`: the last reader takes
its count away only while no reader is about to add its own, no reader looks at the word
while a leaving one is about to clear it, and the counter has room. -/
def Clear (s : State ι) : Pc → Prop
  | .readRelease => readers s = 1 → ∀ j, (s.cpu j).pc ≠ .readAdd
  | .readSpin => ∀ j, (s.cpu j).pc ≠ .readClear
  | .readAdd => readers s + 1 < 2 ^ 30
  | _ => True

/-- The moves that keep a joining reader and the last leaving one apart. -/
def Apart (s : State ι) (l : ι × Action) : Prop :=
  l.2 = .access → Clear s (s.cpu l.1).pc

instance (s : State ι) : (p : Pc) → Decidable (Clear s p)
  | .readRelease => inferInstanceAs (Decidable (readers s = 1 → ∀ j, (s.cpu j).pc ≠ .readAdd))
  | .readSpin => inferInstanceAs (Decidable (∀ j, (s.cpu j).pc ≠ .readClear))
  | .readAdd => inferInstanceAs (Decidable (readers s + 1 < 2 ^ 30))
  | .idle | .tryWrite | .writeSpin | .writeStore | .writeRelease | .readStore | .readClear =>
    isTrue trivial

instance (s : State ι) (l : ι × Action) : Decidable (Apart s l) :=
  inferInstanceAs (Decidable (l.2 = .access → Clear s (s.cpu l.1).pc))

end KernelModel.RwLock
