import KernelModel.KeyTree
import KernelModel.Runs

/-!
Managers of resource ids.

A manager keeps the used and the unused ids of its range as regions in a tree, ordered by their
first ids. Ids are 64-bit words, and sums of them wrap. The tree is the list of its nodes; a
region has an address, by which it is known to the allocator, and the addresses given back are
recorded.
-/

namespace KernelModel.Resource

open KeyTree

/-- `resource_region_t` -/
structure Region where
  addr : ℕ
  key : ℕ
  length : ℕ
  isUsed : Bool
  deriving DecidableEq, Repr

/-- `resource_manager_t`, with the regions that have been freed and the number of those that
have been allocated. -/
structure Manager where
  tree : List Region
  max : ℕ
  allocated : ℕ
  freed : List ℕ
  deriving DecidableEq, Repr

/-- The next id. -/
def succ64 (x : ℕ) : ℕ := (x + 1) % 2 ^ 64

namespace Manager

/-- Allocates a region and puts it into the tree; there is no result if its key is taken. -/
def insertNew (m : Manager) (key length : ℕ) (isUsed : Bool) : Option Manager :=
  (insertNode Region.key m.tree ⟨m.allocated, key, length, isUsed⟩).map fun t =>
    { m with
      tree := t
      allocated := m.allocated + 1 }

def insert (m : Manager) (r : Region) : Option Manager :=
  (insertNode Region.key m.tree r).map fun t => { m with tree := t }

def remove (m : Manager) (r : Region) : Manager :=
  { m with tree := removeNode Region.key m.tree r.key }

/-- Changes the length of the region with a key. -/
def addLength (m : Manager) (key n : ℕ) : Manager :=
  { m with tree := modifyNode Region.key m.tree key fun r => { r with length := r.length + n } }

def setLength (m : Manager) (key n : ℕ) : Manager :=
  { m with tree := modifyNode Region.key m.tree key fun r => { r with length := n } }

/-- `omm_dealloc` -/
def free (m : Manager) (r : Region) : Manager := { m with freed := m.freed ++ [r.addr] }

end Manager

def resourceManagerCreate (min max : ℕ) : Option Manager :=
  let min := if min = 0 then 1 else min
  if min ≥ max then none
  else Manager.insertNew ⟨[], max, 0, []⟩ min (max - min + 1) false

/-- The loop of `resource_manager_delete`; it has no result if there is no region any more. -/
def deleteLoop : ℕ → Manager → ℕ → Option Manager
  | 0, _, _ => none
  | f + 1, m, value =>
    if value ≤ m.max then
      (lookupIncreasingNode Region.key m.tree value).bind fun region =>
        deleteLoop f ((m.remove region).free region) ((region.key + region.length) % 2 ^ 64)
    else some m

def resourceManagerDelete (f : ℕ) (m : Manager) : Option Manager := deleteLoop f m 1

/-- The part of `resource_alloc` after the search: `region` is the first unused one, and
`prevRegion` the key of the used one before it, if there is one. -/
def takeFirst (m : Manager) (prevRegion : Option ℕ) (region : Region) : Option (ℕ × Manager) :=
  let out := region.key
  let m := m.remove region
  let prev := prevRegion.getD out
  let created := if prevRegion.isSome then some m else m.insertNew out 0 true
  created.bind fun m =>
    let m := m.addLength prev 1
    let rest : Region := { region with length := region.length - 1 }
    if rest.length ≠ 0 then
      (m.insert { rest with key := succ64 rest.key }).map fun m => (out, m)
    else
      let m := m.free region
      match lookupNode Region.key m.tree (succ64 out) with
      | some next => some (out, ((m.remove next).addLength prev next.length).free next)
      | none => some (out, m)

def resourceAlloc (m : Manager) : Option (ℕ × Manager) :=
  (lookupIncreasingNode Region.key m.tree 1).bind fun region =>
    if region.isUsed then
      match lookupNode Region.key m.tree ((region.key + region.length) % 2 ^ 64) with
      | some next => takeFirst m (some region.key) next
      | none => some (0, m)
    else takeFirst m none region

/-- `resource_dealloc` of the first id of a used region. -/
def deallocFirst (m : Manager) (region : Region) (resource : ℕ) : Option Manager :=
  let m := m.remove region
  let prev := lookupDecreasingNode Region.key m.tree (resource - 1)
  let prevKey := (prev.map Region.key).getD resource
  let grown := match prev with
    | some prev => some (m.addLength prev.key 1)
    | none => m.insertNew resource 1 false
  grown.bind fun m =>
    let rest : Region := { region with length := region.length - 1 }
    if rest.length ≠ 0 then m.insert { rest with key := succ64 rest.key }
    else
      let m := m.free region
      match lookupIncreasingNode Region.key m.tree (succ64 resource) with
      | some next => some (((m.remove next).addLength prevKey next.length).free next)
      | none => some m

/-- `resource_dealloc` of the last id of a used region with more than one. -/
def deallocLast (m : Manager) (region : Region) (resource : ℕ) : Option Manager :=
  let inserted := match lookupNode Region.key m.tree (succ64 resource) with
    | some next => (m.remove next).insert { next with
        key := resource
        length := next.length + 1 }
    | none => m.insertNew resource 1 false
  inserted.map fun m => m.setLength region.key (region.length - 1)

/-- `resource_dealloc` of an id inside of a used region. -/
def deallocMiddle (m : Manager) (region : Region) (resource : ℕ) : Option Manager :=
  (m.insertNew resource 1 false).bind fun m =>
    (m.insertNew (succ64 resource) (region.key + region.length - resource - 1) true).map fun m =>
      m.setLength region.key (resource - region.key)

def resourceDealloc (m : Manager) (resource : ℕ) : Option (Bool × Manager) :=
  if resource = 0 ∨ resource > m.max then some (false, m)
  else
    match lookupDecreasingNode Region.key m.tree resource with
    | none => some (false, m)
    | some region =>
      if !region.isUsed then some (false, m)
      else
        let changed :=
          if resource = region.key then deallocFirst m region resource
          else if resource = (region.key + region.length - 1) % 2 ^ 64 then
            deallocLast m region resource
          else deallocMiddle m region resource
        changed.map fun m => (true, m)

def resourceIsUsed (m : Manager) (resource : ℕ) : Bool :=
  match lookupDecreasingNode Region.key m.tree resource with
  | some region => region.isUsed
  | none => false

/-! ### Runs -/

inductive Call
  | alloc
  | dealloc (resource : ℕ)
  | isUsed (resource : ℕ)
  deriving DecidableEq, Repr

inductive Answer
  | resource (out : ℕ)
  | bool (out : Bool)
  deriving DecidableEq, Repr

def call (m : Manager) : Call → Option (Answer × Manager)
  | .alloc => (resourceAlloc m).map fun r => (.resource r.1, r.2)
  | .dealloc x => (resourceDealloc m x).map fun r => (.bool r.1, r.2)
  | .isUsed x => some (.bool (resourceIsUsed m x), m)

/-- The answers to a sequence of calls, and the manager after them. -/
def calls (m : Manager) : List Call → Option (List Answer × Manager)
  | [] => some ([], m)
  | c :: cs => (call m c).bind fun r => (calls r.2 cs).map fun rs => (r.1 :: rs.1, rs.2)

/-! ### The set of used ids -/

/-- The ids of a range that are not used. -/
def unused (lo hi : ℕ) (used : Finset ℕ) : Finset ℕ := Finset.Icc lo hi \ used

/-- The reference: the answer to a call, and the used ids after it. -/
def reference (lo hi : ℕ) (used : Finset ℕ) : Call → Answer × Finset ℕ
  | .alloc =>
    if h : (unused lo hi used).Nonempty then
      (.resource ((unused lo hi used).min' h), insert ((unused lo hi used).min' h) used)
    else (.resource 0, used)
  | .dealloc x => (.bool (x ∈ used), used.erase x)
  | .isUsed x => (.bool (x ∈ used), used)

def references (lo hi : ℕ) (used : Finset ℕ) : List Call → List Answer × Finset ℕ
  | [] => ([], used)
  | c :: cs =>
    let r := reference lo hi used c
    let rs := references lo hi r.2 cs
    (r.1 :: rs.1, rs.2)

/-- The regions, in order, cover the ids from `lo` to before `hi`, and are not empty. -/
def Tiles : ℕ → List Region → ℕ → Prop
  | lo, [], hi => lo = hi
  | lo, r :: t, hi => r.key = lo ∧ 0 < r.length ∧ Tiles (lo + r.length) t hi

/-- Neighbours are of different kinds. -/
def Alternates : List Region → Prop
  | r :: s :: t => r.isUsed ≠ s.isUsed ∧ Alternates (s :: t)
  | _ => True

def Region.Has (r : Region) (x : ℕ) : Prop := r.key ≤ x ∧ x < r.key + r.length

instance (r : Region) (x : ℕ) : Decidable (r.Has x) := inferInstanceAs (Decidable (_ ∧ _))

/-- The manager of the ids from `lo` to `max` has exactly the ids `used` in use. -/
structure Manages (m : Manager) (lo : ℕ) (used : Finset ℕ) : Prop where
  tiles : Tiles lo m.tree (m.max + 1)
  alternates : Alternates m.tree
  used_iff : ∀ x, x ∈ used ↔ ∃ r ∈ m.tree, r.isUsed = true ∧ r.Has x

end KernelModel.Resource
