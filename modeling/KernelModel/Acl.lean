import KernelModel.Ids

/-!
Access control lists: the permissions that processes have on a handle.

The tree of the list is a map from process keys. A small cache with one slot for each residue of
the key stands before it; an entry of key `0` is empty.
-/

namespace KernelModel.Acls

open Ids

def aclProcessCacheSize : ℕ := 16

def aclPermissionMask : BitVec 64 := 0x7fffffffffffffff

/-- `HANDLE_ID_GET_INDEX` -/
def handleIdGetIndex (id : ℕ) : ℕ := id >>> 16

/-- `HANDLE_ID_GET_TYPE` -/
def handleIdGetType (id : ℕ) : ℕ := id &&& 0xffff

/-- A process, known by its handle; the handles of processes have one type. -/
structure Process (processHandleType : ℕ) where
  id : ℕ
  type_eq : handleIdGetType id = processHandleType
  deriving DecidableEq

/-- `acl_cache_entry_t` -/
structure CacheEntry where
  key : ℕ
  flags : BitVec 64
  deriving DecidableEq

/-- `acl_t`, without its lock -/
structure Acl where
  cache : ℕ → CacheEntry
  tree : ℕ → Option (BitVec 64)

def aclCreate : Acl := ⟨fun _ => ⟨0, 0⟩, fun _ => none⟩

/-- The cache slot of a key. -/
def slot (key : ℕ) : ℕ := key &&& (aclProcessCacheSize - 1)

/-- `acl_get`, for the process with the given handle: the permissions, and the list after it. -/
def aclGet (acl : Acl) (process : ℕ) : BitVec 64 × Acl :=
  let key := handleIdGetIndex process
  if key = 0 then (aclPermissionMask, acl)
  else if (acl.cache (slot key)).key = key then ((acl.cache (slot key)).flags, acl)
  else
    match acl.tree key with
    | none => (0, acl)
    | some flags =>
      (flags, { acl with cache := Function.update acl.cache (slot key) ⟨key, flags⟩ })

/-- The node of a key in the tree after its flags have changed. -/
def setNode (node : Option (BitVec 64)) (clear set : BitVec 64) : Option (BitVec 64) :=
  match node with
  | none => if set ≠ 0 then some set else none
  | some flags =>
    let flags := (flags &&& ~~~clear) ||| set
    if flags = 0 then none else some flags

def aclSet (acl : Acl) (process : ℕ) (clear set : BitVec 64) : Acl :=
  let key := handleIdGetIndex process
  if key = 0 then acl
  else
    let node := setNode (acl.tree key) clear set
    let entry := acl.cache (slot key)
    let entry :=
      match node with
      | some flags => if entry.key = 0 ∨ entry.key = key then ⟨key, flags⟩ else entry
      | none => if entry.key = key then { entry with key := 0 } else entry
    ⟨Function.update acl.cache (slot key) entry, Function.update acl.tree key node⟩

/-! ### Runs of calls on one list -/

variable {t : ℕ}

inductive Call (t : ℕ)
  | get (process : Process t)
  | set (process : Process t) (clear set : BitVec 64)

def step (acl : Acl) : Call t → Acl
  | .get process => (aclGet acl process.id).2
  | .set process clear set => aclSet acl process.id clear set

/-- The list after the calls. -/
def after (calls : List (Call t)) : Acl := calls.foldl step aclCreate

end KernelModel.Acls
