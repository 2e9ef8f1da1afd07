import Mathlib.Tactic

/-!
Users and groups, and the flags that the rest of the kernel reads off them.

The trees of the two tables are maps from ids. `uid_get_flags` and `gid_get_flags` return an
error code in the place of the flags when there is no such id.
-/

namespace KernelModel.Ids

/-- `uid_t` and `gid_t` -/
abbrev Id := BitVec 32

/-- `id_flags_t` -/
abbrev IdFlags := BitVec 64

/-- `error_t` -/
abbrev Error := BitVec 64

def errorOk : Error := -0x0000
def errorNotFound : Error := -0x0003
def errorAlreadyPresent : Error := -0x000e

def idFlagBypassVfsPermissions : IdFlags := 1
def idFlagRootAcl : IdFlags := 2

/-- `uid_data_t` -/
structure UidData where
  name : String
  groupTree : Finset Id
  flags : IdFlags

/-- `gid_data_t` -/
structure GidData where
  name : String
  flags : IdFlags

structure Tables where
  uidTree : Id → Option UidData
  gidTree : Id → Option GidData

/-! ### Users -/

def uidCreate (s : Tables) (uid : Id) (name : String) : Error × Tables :=
  match s.uidTree uid with
  | some _ => (errorAlreadyPresent, s)
  | none => (errorOk, { s with uidTree := Function.update s.uidTree uid (some ⟨name, ∅, 0⟩) })

/-- The groups of the user are freed with it. -/
def uidDelete (s : Tables) (uid : Id) : Error × Tables :=
  match s.uidTree uid with
  | none => (errorNotFound, s)
  | some _ => (errorOk, { s with uidTree := Function.update s.uidTree uid none })

def uidAddGroup (s : Tables) (uid gid : Id) : Error × Tables :=
  match s.uidTree uid with
  | none => (errorNotFound, s)
  | some d =>
    if gid ∈ d.groupTree then (errorAlreadyPresent, s)
    else
      let d := { d with groupTree := insert gid d.groupTree }
      (errorOk, { s with uidTree := Function.update s.uidTree uid (some d) })

def uidRemoveGroup (s : Tables) (uid gid : Id) : Error × Tables :=
  match s.uidTree uid with
  | none => (errorNotFound, s)
  | some d =>
    if gid ∉ d.groupTree then (errorNotFound, s)
    else
      let d := { d with groupTree := d.groupTree.erase gid }
      (errorOk, { s with uidTree := Function.update s.uidTree uid (some d) })

def uidGetFlags (s : Tables) (uid : Id) : IdFlags :=
  match s.uidTree uid with
  | none => errorNotFound
  | some d => d.flags

def uidSetFlags (s : Tables) (uid : Id) (clear set : IdFlags) : Error × Tables :=
  match s.uidTree uid with
  | none => (errorNotFound, s)
  | some d =>
    let d := { d with flags := (d.flags &&& ~~~clear) ||| set }
    (errorOk, { s with uidTree := Function.update s.uidTree uid (some d) })

/-! ### Groups -/

def gidCreate (s : Tables) (gid : Id) (name : String) : Error × Tables :=
  match s.gidTree gid with
  | some _ => (errorAlreadyPresent, s)
  | none => (errorOk, { s with gidTree := Function.update s.gidTree gid (some ⟨name, 0⟩) })

def gidDelete (s : Tables) (gid : Id) : Error × Tables :=
  match s.gidTree gid with
  | none => (errorNotFound, s)
  | some _ => (errorOk, { s with gidTree := Function.update s.gidTree gid none })

def gidGetFlags (s : Tables) (gid : Id) : IdFlags :=
  match s.gidTree gid with
  | none => errorNotFound
  | some d => d.flags

def gidSetFlags (s : Tables) (gid : Id) (clear set : IdFlags) : Error × Tables :=
  match s.gidTree gid with
  | none => (errorNotFound, s)
  | some d =>
    let d := { d with flags := (d.flags &&& ~~~clear) ||| set }
    (errorOk, { s with gidTree := Function.update s.gidTree gid (some d) })

/-! ### What reads the flags -/

/-- Whether `vfs_lookup_for_creation` drops its permission checks. -/
def vfsBypass (s : Tables) (uid gid : Id) : Bool :=
  (uidGetFlags s uid ||| gidGetFlags s gid) &&& idFlagBypassVfsPermissions ≠ 0

/-- `process_get_id_flags`, for a process of that user and group. -/
def processGetIdFlags (s : Tables) (uid gid : Id) : IdFlags :=
  uidGetFlags s uid ||| gidGetFlags s gid

/-! ### Histories -/

/-- Which of the two tables. -/
inductive Kind
  | user
  | group
  deriving DecidableEq

inductive Call
  | create (k : Kind) (id : Id) (name : String)
  | delete (k : Kind) (id : Id)
  | setFlags (k : Kind) (id : Id) (clear set : IdFlags)
  | addGroup (uid gid : Id)
  | removeGroup (uid gid : Id)

def step (s : Tables) : Call → Tables
  | .create .user id name => (uidCreate s id name).2
  | .create .group id name => (gidCreate s id name).2
  | .delete .user id => (uidDelete s id).2
  | .delete .group id => (gidDelete s id).2
  | .setFlags .user id clear set => (uidSetFlags s id clear set).2
  | .setFlags .group id clear set => (gidSetFlags s id clear set).2
  | .addGroup uid gid => (uidAddGroup s uid gid).2
  | .removeGroup uid gid => (uidRemoveGroup s uid gid).2

/-- The tables after the initialisation: the root user, in the root group. -/
def init : Tables :=
  let s := (gidCreate ⟨fun _ => none, fun _ => none⟩ 0 "root").2
  let s := (uidCreate s 0 "root").2
  (uidAddGroup s 0 0).2

/-- The tables after a history of calls. -/
def after (calls : List Call) : Tables := calls.foldl step init

end KernelModel.Ids
