import KernelModel.Ids

/-!
Path resolution in the virtual file system.

Nodes are known by numbers. What a lookup only reads of them is in a `Tree`, and so is what the
drivers find on their media. The `State` is what a lookup changes: the lists of children in
memory, which grow when a driver loads a node, and the reference counts. A lookup that recurs
deeper than a given number of calls has no result.
-/

namespace KernelModel.Vfs

open Ids

/-- The types of a node: `VFS_NODE_TYPE_*` -/
inductive NodeType
  | unknown
  | file
  | directory
  | link
  | pipe
  | socket
  deriving DecidableEq, Repr

/-- The part of `vfs_node_t` that lookups read. The contents are what `functions->read` gives, if
there is such a function and the node is not locked for the reader. -/
structure Node where
  name : List Char
  parent : Option ℕ
  type : NodeType
  isVirtual : Bool
  isTemporary : Bool
  permissions : BitVec 16
  uid : Id
  gid : Id
  isReadable : Bool
  contents : List Char

/-- The nodes, also those that are not in memory yet, and what `functions->lookup` finds. -/
structure Tree where
  node : ℕ → Node
  disk : ℕ → List Char → Option ℕ

structure State where
  loaded : ℕ → Bool
  children : ℕ → List ℕ
  rc : ℕ → ℕ
  /-- The nodes that were given to `vfs_node_delete`. -/
  deleted : List ℕ

/-- The nodes of a process. -/
structure Process where
  vfsRoot : ℕ
  vfsCwd : ℕ
  vfsHome : ℕ
  deriving DecidableEq, Repr

/-- `VFS_LOOKUP_FLAG_*` -/
structure Flags where
  followLinks : Bool
  checkPermissions : Bool
  findLinks : Bool
  deriving DecidableEq, Repr

/-- What is fixed during a lookup: the tree, the process of the current thread (there may be no
thread), the root of the file system, the users and groups, and who looks up with which flags. -/
structure Env where
  tree : Tree
  process : Option Process
  vfsRootNode : ℕ
  ids : Tables
  flags : Flags
  uid : Id
  gid : Id

/-! ### Nodes -/

/-- `uid_has_group`; the answer for an unknown user is an error code. -/
def uidHasGroup (ids : Tables) (uid gid : Id) : Error :=
  match ids.uidTree uid with
  | some d => if gid ∈ d.groupTree then 1 else 0
  | none => errorNotFound

def vfsPermissionsGet (ids : Tables) (node : Node) (uid gid : Id) : BitVec 16 :=
  let permissions := node.permissions &&& 0x1ff
  let permissions :=
    if uid = 0 ∨ gid = 0 then permissions ||| (permissions >>> 6) else permissions
  let permissions :=
    if node.uid = uid ∨ node.gid = gid ∨ uidHasGroup ids uid node.gid ≠ 0 then
      permissions ||| (permissions >>> 3)
    else permissions
  permissions &&& 7

def vfsNodeRef (s : State) (n : ℕ) : State :=
  { s with rc := Function.update s.rc n (s.rc n + 1) }

/-- `vfs_node_unref`, with `_vfs_node_process_unref`. -/
def vfsNodeUnref (t : Tree) (s : State) (n : ℕ) : State :=
  let s := { s with rc := Function.update s.rc n (s.rc n - 1) }
  if s.rc n = 0 ∧
      (((t.node n).parent.isNone ∧ ¬ (t.node n).isVirtual) ∨ (t.node n).isTemporary) then
    { s with deleted := s.deleted ++ [n] }
  else s

/-- The child with a name, in memory or on the medium. -/
def childOf (t : Tree) (s : State) (n : ℕ) (name : List Char) : Option ℕ :=
  ((s.children n).find? fun c => (t.node c).name = name).or (t.disk n name)

/-- A driver makes a node for what it has found, and the node becomes a child. -/
def load (s : State) (n c : ℕ) : State where
  loaded := Function.update s.loaded c true
  children := Function.update s.children n (c :: s.children n)
  rc := Function.update (Function.update s.rc c 1) n
    (Function.update s.rc c 1 n + 1)
  deleted := s.deleted

def vfsNodeLookup (t : Tree) (s : State) (n : ℕ) (name : List Char) : Option ℕ × State :=
  match (s.children n).find? fun c => (t.node c).name = name with
  | some c => (some c, vfsNodeRef s c)
  | none =>
    match t.disk n name with
    | some c => (some c, load s n c)
    | none => (none, s)

/-! ### Paths -/

/-- What the loop of `vfs_lookup_for_creation` finds at the start of the rest of the path. -/
inductive Token
  | slash
  | dot
  | dotDot
  | name (s : List Char)
  | tooLong
  deriving DecidableEq, Repr

def smmMaxLength : ℕ := 255

def token (path : List Char) : Token :=
  if path.head? = some '/' then .slash
  else
    let s := path.takeWhile (· ≠ '/')
    if s.length > smmMaxLength then .tooLong
    else if s = ['.'] then .dot
    else if s = ['.', '.'] then .dotDot
    else .name s

/-- The path behind it. -/
def rest (path : List Char) : List Char :=
  if path.head? = some '/' then path.tail else path.dropWhile (· ≠ '/')

/-- What is left of a path when it has been seen where it starts. -/
def startPath (path : List Char) : List Char :=
  match path with
  | '/' :: r => r
  | '~' :: r => if r.head? = none ∨ r.head? = some '/' then r else path
  | _ => path

/-- The path in a link: the first 4095 bytes of its contents, up to a zero byte. -/
def linkPath (node : Node) : List Char :=
  if node.isReadable then (node.contents.take 4095).takeWhile (· ≠ '\x00') else []

namespace Env

variable (e : Env)

/-- `base_root_node` -/
def base : ℕ := (e.process.map Process.vfsRoot).getD e.vfsRootNode

def home : ℕ := (e.process.map Process.vfsHome).getD e.base

def cwd : ℕ := (e.process.map Process.vfsCwd).getD e.base

/-- Where a path starts. -/
def start (root : Option ℕ) (path : List Char) : ℕ :=
  match path with
  | '/' :: _ => e.base
  | '~' :: r => if r.head? = none ∨ r.head? = some '/' then e.home else root.getD e.cwd
  | _ => root.getD e.cwd

/-- `_has_read_permissions`, with the flags as a lookup uses them. -/
def hasReadPermissions (n : ℕ) : Bool :=
  if e.flags.checkPermissions && !vfsBypass e.ids e.uid e.gid then
    vfsPermissionsGet e.ids (e.tree.node n) e.uid e.gid &&& 4 ≠ 0
  else true

/-- A link at which a lookup does not go on as with other nodes. -/
def stopsAt (n : ℕ) : Bool :=
  (e.flags.followLinks || e.flags.findLinks) && (e.tree.node n).type = .link

end Env

/-! ### `vfs_lookup_for_creation` -/

/-- What is returned. -/
inductive Found
  | node (n : ℕ)
  | null
  | linkFound
  deriving DecidableEq, Repr

/-- What is returned, and `*parent` with `*child_name` (they stay `NULL` where there is none). -/
structure Result where
  out : Found
  parent : Option (ℕ × List Char)
  deriving DecidableEq, Repr

/-- A recursive call, with no place for the parent. -/
abbrev Recur := State → Option ℕ → List Char → Option (State × Found)

/-- Going on from a node, or `goto _cleanup`. -/
inductive Next
  | root (n : ℕ)
  | cleanup (out : Found)

/-- The part that follows links; it is in the loop and behind it. -/
def followLink (e : Env) (recur : Recur) (s : State) (root : ℕ) : Option (State × Next) :=
  if e.stopsAt root then
    if e.flags.findLinks then some (s, .cleanup .linkFound)
    else if !e.hasReadPermissions root then some (s, .cleanup .null)
    else if linkPath (e.tree.node root) = [] then some (s, .cleanup .null)
    else
      (recur s (e.tree.node root).parent (linkPath (e.tree.node root))).map fun r =>
        match r.2 with
        | .node newRoot => (vfsNodeUnref e.tree r.1 root, .root newRoot)
        | _ => (r.1, .cleanup .null)
  else some (s, .root root)

/-- How the loop ends: it has used up the path, or goes to `_cleanup`. -/
inductive LoopEnd
  | done (root : Option ℕ)
  | cleanup (root : ℕ) (result : Result)

/-- The loop, at most `f` times. `parent` says whether there is a place for the parent. -/
def loop (e : Env) (recur : Recur) (parent : Bool) :
    ℕ → State → ℕ → List Char → Option (State × LoopEnd)
  | 0, s, root, path => if path = [] then some (s, .done (some root)) else none
  | f + 1, s, root, path =>
    if path = [] then some (s, .done (some root))
    else
      (followLink e recur s root).bind fun r =>
        let s := r.1
        match r.2 with
        | .cleanup out => some (s, .cleanup root ⟨out, none⟩)
        | .root root =>
          match token path with
          | .slash => loop e recur parent f s root (rest path)
          | .tooLong => some (s, .cleanup root ⟨.null, none⟩)
          | .dot => loop e recur parent f s root (rest path)
          | .dotDot =>
            match (e.tree.node root).parent with
            | some p =>
              if root ≠ e.base then
                loop e recur parent f (vfsNodeUnref e.tree (vfsNodeRef s p) root) p (rest path)
              else loop e recur parent f s root (rest path)
            | none => loop e recur parent f s root (rest path)
          | .name name =>
            if !e.hasReadPermissions root then some (s, .cleanup root ⟨.null, none⟩)
            else
              let looked := vfsNodeLookup e.tree s root name
              let s := looked.2
              match looked.1 with
              | none =>
                if parent then
                  some (s, .cleanup root
                    ⟨.null, if rest path = [] then some (root, name) else none⟩)
                else some (vfsNodeUnref e.tree s root, .done none)
              | some child =>
                if child = e.base then some (s, .cleanup root ⟨.null, none⟩)
                else loop e recur parent f (vfsNodeUnref e.tree s root) child (rest path)

/-- `_cleanup` -/
def cleanup (e : Env) (s : State) (root : ℕ) (result : Result) : State × Result :=
  (vfsNodeUnref e.tree (vfsNodeUnref e.tree s e.base) root, result)

/-- One call, with its recursive calls. -/
def lookupBody (e : Env) (recur : Recur) (s : State) (root : Option ℕ) (path : List Char)
    (parent : Bool) : Option (State × Result) :=
  let s := vfsNodeRef s e.base
  let first := e.start root path
  let s := vfsNodeRef s first
  let path := startPath path
  (loop e recur parent path.length s first path).bind fun r =>
    let s := r.1
    match r.2 with
    | .cleanup root result => some (cleanup e s root result)
    | .done none => some (vfsNodeUnref e.tree s e.base, ⟨.null, none⟩)
    | .done (some root) =>
      (followLink e recur s root).map fun r =>
        match r.2 with
        | .cleanup out => cleanup e r.1 root ⟨out, none⟩
        | .root root => (vfsNodeUnref e.tree r.1 e.base, ⟨.node root, none⟩)

/-- The lookup with at most `d` calls inside of each other. -/
def vfsLookupForCreation (e : Env) : ℕ → State → Option ℕ → List Char → Bool →
    Option (State × Result)
  | 0, _, _, _, _ => none
  | d + 1, s, root, path, parent =>
    lookupBody e (fun s root path =>
      (vfsLookupForCreation e d s root path false).map fun r => (r.1, r.2.out)) s root path parent

def vfsLookup (e : Env) (d : ℕ) (s : State) (root : Option ℕ) (path : List Char) :
    Option (State × Found) :=
  (vfsLookupForCreation e d s root path false).map fun r => (r.1, r.2.out)

end KernelModel.Vfs
