import KernelModel.ChildLists
import KernelModel.VfsCalls

/-!
Moving a socket to a path.

The node is taken out of its directory first and attached to its new one at the end. In between,
the path is looked up, without permissions and without links. Directories are lists of children
here; what the pointers between the children do is in `ChildLists`.
-/

namespace KernelModel.SocketMove

open Vfs Recursion

/-- The names and parents of the nodes change here as well. -/
structure Files where
  tree : Tree
  state : State

def Files.setNode (f : Files) (n : ℕ) (g : Node → Node) : Files :=
  { f with tree := { f.tree with node := Function.update f.tree.node n (g (f.tree.node n)) } }

def vfsNodeDettachChild (f : Files) (node : ℕ) : Files :=
  match (f.tree.node node).parent with
  | none => f
  | some parent =>
    let s := { f.state with
      children := Function.update f.state.children parent ((f.state.children parent).erase node) }
    let f := { f with state := vfsNodeUnref f.tree s parent }
    f.setNode node fun n => { n with parent := none }

def vfsNodeAttachChild (f : Files) (node child : ℕ) : Files :=
  let f :=
    if (f.tree.node child).parent.isSome then f
    else
      { f.setNode child (fun n => { n with parent := some node }) with
        state := vfsNodeRef f.state node }
  { f with state := { f.state with
      children := Function.update f.state.children node (child :: f.state.children node) } }

def socketMoveDirect (f : Files) (node parent : ℕ) (childName : List Char) : Files × Bool :=
  if (f.tree.node node).type ≠ .socket then (f, false)
  else
    let f := vfsNodeDettachChild f node
    let f := f.setNode node fun n => { n with name := childName }
    (vfsNodeAttachChild f parent node, true)

/-- The lookup of a target: the kernel asks, without flags. -/
def lookupEnv (e : Env) (f : Files) : Env :=
  { e with tree := f.tree, flags := ⟨false, false, false⟩, uid := 0, gid := 0 }

/-- `socket_move`, with the directory of the sockets without a path and the name that
`_get_unique_id` gives. Where the lookup stores no parent, `socket_move_direct` is called with a
null pointer, and there is no result. -/
def socketMove (e : Env) (d socketRoot : ℕ) (uniqueId : List Char) (f : Files) (node : ℕ)
    (path : Option (List Char)) : Option (Files × Bool) :=
  if (f.tree.node node).type ≠ .socket then some (f, false)
  else
    let f := vfsNodeDettachChild f node
    match path with
    | none =>
      let f := f.setNode node fun n => { n with name := uniqueId }
      some (vfsNodeAttachChild f socketRoot node, true)
    | some path =>
      (vfsLookupForCreation (lookupEnv e f) d f.state none path true).bind fun r =>
        let f := { f with state := r.1 }
        match r.2.out with
        | .null => r.2.parent.map fun p => socketMoveDirect f node p.1 p.2
        | _ => some (f, false)

/-! ### What is claimed -/

/-- The node is where it was, and so are the counts, but for children that were loaded. -/
structure Unchanged (f f' : Files) (node : ℕ) : Prop where
  parent : (f'.tree.node node).parent = (f.tree.node node).parent
  name : (f'.tree.node node).name = (f.tree.node node).name
  attached : ∀ d, node ∈ f'.state.children d ↔ node ∈ f.state.children d
  counts : ∀ n, f'.state.rc n + (f.state.children n).length
    = f.state.rc n + (f'.state.children n).length

/-- The node is attached once, in this directory and under this name. -/
structure AttachedAt (f : Files) (node parent : ℕ) (name : List Char) : Prop where
  parent_eq : (f.tree.node node).parent = some parent
  name_eq : (f.tree.node node).name = name
  once : ∀ d, (f.state.children d).count node = if d = parent then 1 else 0

/-- What is at a path when the node has been taken out. -/
def atPath (e : Env) (f : Files) (node : ℕ) (path : List Char) : Option Outcome :=
  let f := vfsNodeDettachChild f node
  eval (resolution (lookupEnv e f) (childOf f.tree f.state)) 1 (none, path)

/-- The directory and the name that a socket is moved to. -/
def IsTarget (e : Env) (socketRoot : ℕ) (uniqueId : List Char) (f : Files) (node : ℕ)
    (path : Option (List Char)) (parent : ℕ) (name : List Char) : Prop :=
  match path with
  | none => parent = socketRoot ∧ name = uniqueId
  | some path => atPath e f node path = some (.missing parent name)

/-- A failure changes nothing, and a success moves the node to its target. -/
def Atomic (e : Env) (d socketRoot : ℕ) (uniqueId : List Char) (f : Files) (node : ℕ)
    (path : Option (List Char)) : Prop :=
  ∀ f' moved, socketMove e d socketRoot uniqueId f node path = some (f', moved) →
    (moved = false → Unchanged f f' node) ∧
    (moved = true → ∃ parent name, IsTarget e socketRoot uniqueId f node path parent name ∧
      AttachedAt f' node parent name)

/-- A socket in a file tree. No driver finds sockets, somebody has a reference to this one, and
the directory that it is in stays without it. -/
structure Movable (e : Env) (f : Files) (node : ℕ) : Prop where
  callable : Callable (lookupEnv e f) f.state none
  nodup : ∀ d, (f.state.children d).Nodup
  socket : (f.tree.node node).type = .socket
  loaded : f.state.loaded node = true
  held : 0 < f.state.rc node
  not_on_disk : ∀ n name, f.tree.disk n name ≠ some node
  parent_ne : (f.tree.node node).parent ≠ some node
  parent_stays : ∀ p, (f.tree.node node).parent = some p → 1 < f.state.rc p ∨ Stays f.tree p

variable {e : Env} {f : Files} {node : ℕ} {d socketRoot : ℕ} {uniqueId name : List Char}

/-! ### Taking out -/

lemma setNode_node (n : ℕ) (g : Node → Node) (u : ℕ) :
    (f.setNode n g).tree.node u = if u = n then g (f.tree.node u) else f.tree.node u := by
  show Function.update f.tree.node n (g (f.tree.node n)) u = _
  by_cases h : u = n
  · rw [h, Function.update_self, if_pos rfl]
  · rw [Function.update_of_ne h, if_neg h]

/-- What there is after the node was taken out. -/
structure Removed (f f' : Files) (node : ℕ) : Prop where
  nodes : ∀ u, f'.tree.node u =
    if u = node then { f.tree.node u with parent := none } else f.tree.node u
  disk : f'.tree.disk = f.tree.disk
  loaded : f'.state.loaded = f.state.loaded
  children : ∀ u, f'.state.children u = (f.state.children u).erase node
  rc : ∀ u, f'.state.rc u =
    if (f.tree.node node).parent = some u then f.state.rc u - 1 else f.state.rc u

lemma Movable.mem_iff (h : Movable e f node) (u : ℕ) :
    node ∈ f.state.children u ↔ (f.tree.node node).parent = some u :=
  ⟨fun hu => h.callable.sound.child_parent hu, fun hu => h.callable.sound.parent_child h.loaded hu⟩

lemma Movable.removed (h : Movable e f node) : Removed f (vfsNodeDettachChild f node) node := by
  have hother : ∀ u, (f.tree.node node).parent ≠ some u →
      (f.state.children u).erase node = f.state.children u :=
    fun u hu => List.erase_of_not_mem fun hmem => hu ((h.mem_iff u).mp hmem)
  cases hp : (f.tree.node node).parent with
  | none =>
    have hsame : vfsNodeDettachChild f node = f := by
      rw [vfsNodeDettachChild, hp]
    rw [hsame]
    refine ⟨fun u => ?_, rfl, rfl, fun u => ?_, fun u => ?_⟩
    · split_ifs with hu
      · subst hu
        rw [← hp]
      · rfl
    · exact (hother u (by rw [hp]; simp)).symm
    · rw [if_neg (by rw [hp]; simp)]
  | some parent =>
    -- the parent has no reason to go
    have hunref : ∀ c, vfsNodeUnref f.tree { f.state with children := c } parent =
        { f.state with
          children := c
          rc := Function.update f.state.rc parent (f.state.rc parent - 1) } := by
      intro c
      rw [vfsNodeUnref]
      simp only [Function.update_self]
      rw [if_neg]
      rintro ⟨hzero, hcond⟩
      rcases h.parent_stays parent hp with hmany | ⟨hpar, htmp⟩
      · omega
      · rcases hcond with ⟨hnone, hvirt⟩ | htemp
        · rcases hpar with hpar | hpar
          · exact hpar (Option.isNone_iff_eq_none.mp hnone)
          · exact hvirt hpar
        · rw [htmp] at htemp
          cases htemp
    rw [vfsNodeDettachChild]
    simp only [hp]
    rw [hunref]
    refine ⟨fun u => ?_, rfl, rfl, fun u => ?_, fun u => ?_⟩
    · rw [setNode_node]
    · show Function.update f.state.children parent _ u = _
      by_cases hu : u = parent
      · rw [hu, Function.update_self]
      · rw [Function.update_of_ne hu, hother u (by rw [hp]; simpa using Ne.symm hu)]
    · show Function.update f.state.rc parent _ u = _
      by_cases hu : u = parent
      · rw [hu, Function.update_self, if_pos hp]
      · rw [Function.update_of_ne hu, if_neg (by rw [hp]; simpa using Ne.symm hu)]

lemma Movable.callable_removed (h : Movable e f node) :
    Callable (lookupEnv e (vfsNodeDettachChild f node))
      (vfsNodeDettachChild f node).state none := by
  have hr := h.removed
  have hsound := h.callable.sound
  set f' := vfsNodeDettachChild f node with hf'
  have hnode : (f'.tree.node node).parent = none := by
    rw [hr.nodes, if_pos rfl]
  have hother : ∀ u, u ≠ node → f'.tree.node u = f.tree.node u := fun u hu => by
    rw [hr.nodes, if_neg hu]
  have hmem : ∀ u c, c ∈ f'.state.children u ↔ c ≠ node ∧ c ∈ f.state.children u := fun u c => by
    rw [hr.children, (h.nodup u).mem_erase_iff]
  have hname : ∀ u, (f'.tree.node u).name = (f.tree.node u).name := fun u => by
    rw [hr.nodes]
    split_ifs <;> rfl
  have hload : ∀ u, f'.state.loaded u = f.state.loaded u := fun u => by rw [hr.loaded]
  have hdisk : ∀ {n name c}, f'.tree.disk n name = some c →
      f.tree.disk n name = some c ∧ c ≠ node := by
    intro n name c hc
    rw [hr.disk] at hc
    exact ⟨hc, fun heq => h.not_on_disk n name (heq ▸ hc)⟩
  refine ⟨?_, fun _ _ => rfl, ?_, ?_, ?_, by simp⟩
  · exact
      { child_loaded := fun {n c} hc => by
          rw [hload]
          exact hsound.child_loaded ((hmem n c).mp hc).2
        child_parent := fun {n c} hc => by
          obtain ⟨hne, hc⟩ := (hmem n c).mp hc
          show (f'.tree.node c).parent = some n
          rw [hother c hne]
          exact hsound.child_parent hc
        parent_child := fun {n p} hn hp => by
          have hne : n ≠ node := by
            rintro rfl
            exact absurd (hnode.symm.trans hp) (by simp)
          change (f'.tree.node n).parent = some p at hp
          rw [hother n hne] at hp
          rw [hload] at hn
          exact (hmem p n).mpr ⟨hne, hsound.parent_child hn hp⟩
        parent_loaded := fun {n p} hn hp => by
          have hne : n ≠ node := by
            rintro rfl
            exact absurd (hnode.symm.trans hp) (by simp)
          change (f'.tree.node n).parent = some p at hp
          rw [hother n hne] at hp
          rw [hload] at hn ⊢
          exact hsound.parent_loaded hn hp
        disk_name := fun {n name c} hc => (hname c).trans (hsound.disk_name (hdisk hc).1)
        disk_parent := fun {n name c} hc => by
          obtain ⟨hc, hne⟩ := hdisk hc
          show (f'.tree.node c).parent = some n
          rw [hother c hne]
          exact hsound.disk_parent hc
        disk_kept := fun {n name c} hc => by
          obtain ⟨hc, hne⟩ := hdisk hc
          show (f'.tree.node c).isTemporary = false
          rw [hother c hne]
          exact hsound.disk_kept hc
        unloaded := fun {n} hn => by
          rw [hload] at hn
          rw [hr.rc, hsound.unloaded hn]
          split_ifs <;> rfl
        kept := fun {n} hn hrc => by
          rw [hload] at hn
          rw [hr.rc] at hrc
          have hne : n ≠ node := by
            rintro rfl
            rw [if_neg h.parent_ne] at hrc
            exact absurd hrc h.held.ne'
          have hstays : Stays f.tree n := by
            split_ifs at hrc with hp
            · rcases h.parent_stays n hp with hmany | hstays
              · omega
              · exact hstays
            · exact hsound.kept hn hrc
          show ((f'.tree.node n).parent ≠ none ∨ (f'.tree.node n).isVirtual = true) ∧
            (f'.tree.node n).isTemporary = false
          rw [hother n hne]
          exact hstays }
  · rw [hload]
    exact h.callable.base
  · rw [hload]
    exact h.callable.home
  · rw [hload]
    exact h.callable.cwd

/-! ### Attaching -/

lemma attachedAt_attach (p : ℕ) (hparent : (f.tree.node node).parent = none)
    (hnot : ∀ u, node ∉ f.state.children u) :
    AttachedAt (vfsNodeAttachChild (f.setNode node fun n => { n with name := name }) p node) node p
      name := by
  have hrenamed : ((f.setNode node fun n => { n with name := name }).tree.node node) =
      { f.tree.node node with name := name } := by
    rw [setNode_node, if_pos rfl]
  rw [vfsNodeAttachChild, hrenamed, if_neg (by rw [hparent]; simp)]
  refine ⟨?_, ?_, fun u => ?_⟩
  · simp only [setNode_node, if_true]
  · simp only [setNode_node, if_true]
  · show (Function.update f.state.children p (node :: f.state.children p) u).count node = _
    by_cases hu : u = p
    · rw [hu, Function.update_self, List.count_cons_self, List.count_eq_zero_of_not_mem (hnot p),
        if_pos rfl]
    · rw [Function.update_of_ne hu, List.count_eq_zero_of_not_mem (hnot u), if_neg hu]

lemma not_mem_of_parent {t : Tree} {s : State} (hsound : Sound t s)
    (hparent : (t.node node).parent = none) (u : ℕ) : node ∉ s.children u := by
  intro hu
  rw [hsound.child_parent hu] at hparent
  cases hparent

/-- **The links agree with the lists**: where they are right before a move, the nodes on the way
forward from each directory are its children after the move. -/
theorem socketMoveDirect_forward (h : Movable e f node) {links : ChildLists.State}
    (hw : ChildLists.WellFormed links f.state.children) (parent d : ℕ) (name : List Char) :
    ChildLists.Forward (ChildLists.vfsNodeAttachChild (ChildLists.vfsNodeDettachChild links node)
      parent node) d ((socketMoveDirect f node parent name).1.state.children d) := by
  have hparent : (((vfsNodeDettachChild f node).setNode node fun n =>
      { n with name := name }).tree.node node).parent = none := by
    rw [setNode_node, if_pos rfl, h.removed.nodes, if_pos rfl]
  have hchildren : (vfsNodeDettachChild f node).state.children =
      fun d => (f.state.children d).erase node := funext h.removed.children
  rw [socketMoveDirect, if_neg (by rw [h.socket]; simp)]
  simp only [vfsNodeAttachChild, hparent, Option.isSome_none, Bool.false_eq_true, if_false]
  show ChildLists.Forward _ d (Function.update (vfsNodeDettachChild f node).state.children parent
    (node :: (vfsNodeDettachChild f node).state.children parent) d)
  rw [hchildren]
  exact hw.forward_moved node parent d

/-! ### Moving -/

lemma advance_ne_linkFound {child : ℕ → List Char → Option ℕ} (n : ℕ) (path : List Char) :
    advance e child n path ≠ .ends .linkFound := by
  unfold advance
  cases token path with
  | slash => simp
  | tooLong => simp
  | dot => simp
  | dotDot =>
    dsimp only
    split
    · split_ifs <;> simp
    · simp
  | name name =>
    dsimp only
    by_cases hperm : e.hasReadPermissions n = true
    · simp only [hperm, Bool.not_true, Bool.false_eq_true, if_false]
      cases child n name with
      | none => split_ifs <;> simp
      | some c =>
        dsimp only
        split_ifs <;> simp
    · simp [hperm]

lemma walk_ne_linkFound {child : ℕ → List Char → Option ℕ} {r : Query → Option Outcome}
    (hstop : ∀ n, e.stopsAt n = false) (k n : ℕ) (path : List Char) :
    walk e child r k n path ≠ some .linkFound := by
  have hhere : ∀ n, followed e r n = some (.here n) := fun n => by
    rw [followed, if_neg (by rw [hstop]; simp)]
  induction k generalizing n path with
  | zero =>
    rw [walk, hhere]
    split_ifs <;> simp [Place.outcome]
  | succ k ih =>
    by_cases hp : path = []
    · rw [walk, if_pos hp, hhere]
      simp [Place.outcome]
    · rw [walk_here hp (hhere n)]
      cases ha : advance e child n path with
      | here m => exact ih m _
      | ends o =>
        rintro ⟨⟩
        exact advance_ne_linkFound n path ha

lemma exists_atPath (e : Env) (f : Files) (node : ℕ) (path : List Char) :
    ∃ o, o ≠ .linkFound ∧ atPath e f node path = some o ∧
      ∀ d, eval (resolution (lookupEnv e (vfsNodeDettachChild f node))
        (childOf (vfsNodeDettachChild f node).tree (vfsNodeDettachChild f node).state)) (d + 1)
          (none, path) = some o := by
  obtain ⟨o, ho⟩ := @eval_of_flags (lookupEnv e (vfsNodeDettachChild f node))
    (childOf (vfsNodeDettachChild f node).tree (vfsNodeDettachChild f node).state)
    (.inl rfl) (none, path)
  refine ⟨o, ?_, ho 0, ho⟩
  rintro rfl
  exact walk_ne_linkFound (fun n => rfl) _ _ _ (ho 0)

/-- **Without a path** the socket goes back to the other sockets. -/
lemma socketMove_none (h : Movable e f node) (d socketRoot : ℕ) (uniqueId : List Char) :
    ∃ f', socketMove e d socketRoot uniqueId f node none = some (f', true) ∧
      AttachedAt f' node socketRoot uniqueId := by
  have hparent : ((vfsNodeDettachChild f node).tree.node node).parent = none := by
    rw [h.removed.nodes, if_pos rfl]
  refine ⟨_, ?_, attachedAt_attach socketRoot hparent
    (not_mem_of_parent h.callable_removed.sound hparent)⟩
  rw [socketMove, if_neg (by rw [h.socket]; simp)]

section

variable (h : Movable e f node) {path : List Char}

include h

/-- **A node is there already**: the socket stays out of the tree. -/
lemma socketMove_found (d socketRoot : ℕ) (uniqueId : List Char) {m : ℕ}
    (hm : atPath e f node path = some (.found m)) :
    ∃ f', socketMove e (d + 1) socketRoot uniqueId f node (some path) = some (f', false) ∧
      ¬ Unchanged f f' node := by
  obtain ⟨o, -, ho, heval⟩ := exists_atPath e f node path
  rw [hm] at ho
  obtain rfl := Option.some.inj ho
  obtain ⟨s, hs, hl⟩ := (vfsLookupForCreation_follows _ _ _ path true h.callable_removed).2 _
    (heval d)
  refine ⟨⟨(vfsNodeDettachChild f node).tree, s⟩, ?_, fun hun => ?_⟩
  · rw [socketMove, if_neg (by rw [h.socket]; simp)]
    simp only [hs]
    rfl
  · have hparent : ((vfsNodeDettachChild f node).tree.node node).parent = none := by
      rw [h.removed.nodes, if_pos rfl]
    -- it was in no directory before, and then the node that was found has a reference too many
    have hnone : (f.tree.node node).parent = none := hun.parent.symm.trans hparent
    have hrc := h.removed.rc m
    rw [if_neg (by rw [hnone]; simp)] at hrc
    have hchildren : (vfsNodeDettachChild f node).state.children m = f.state.children m := by
      rw [h.removed.children]
      exact List.erase_of_not_mem (not_mem_of_parent h.callable.sound hnone m)
    have hcounts := hl.counts m
    have hbefore : s.rc m + (f.state.children m).length =
      f.state.rc m + (s.children m).length := hun.counts m
    rw [hrc, hchildren] at hcounts
    simp only [Outcome.refs, List.count_singleton_self] at hcounts
    omega

/-- **Only the last name is missing**: the socket is attached there. -/
lemma socketMove_missing (d socketRoot : ℕ) (uniqueId : List Char) {p : ℕ} {name : List Char}
    (hp : atPath e f node path = some (.missing p name)) :
    ∃ f', socketMove e (d + 1) socketRoot uniqueId f node (some path) = some (f', true) ∧
      AttachedAt f' node p name := by
  obtain ⟨o, -, ho, heval⟩ := exists_atPath e f node path
  rw [hp] at ho
  obtain rfl := Option.some.inj ho
  obtain ⟨s, hs, hl⟩ := (vfsLookupForCreation_follows _ _ _ path true h.callable_removed).2 _
    (heval d)
  have hnode : (vfsNodeDettachChild f node).tree.node node =
      { f.tree.node node with parent := none } := by
    rw [h.removed.nodes, if_pos rfl]
  have hparent : ((vfsNodeDettachChild f node).tree.node node).parent = none := by
    rw [hnode]
  -- the second call that takes the socket out finds nothing to do
  have hagain : vfsNodeDettachChild ⟨(vfsNodeDettachChild f node).tree, s⟩ node =
      ⟨(vfsNodeDettachChild f node).tree, s⟩ := by
    rw [vfsNodeDettachChild]
    simp only [hparent]
  have hmoved : socketMoveDirect ⟨(vfsNodeDettachChild f node).tree, s⟩ node p name =
      (vfsNodeAttachChild (Files.setNode ⟨(vfsNodeDettachChild f node).tree, s⟩ node fun n =>
        { n with name := name }) p node, true) := by
    rw [socketMoveDirect, if_neg (by simp only [hnode, h.socket]; simp), hagain]
  refine ⟨_, ?_, attachedAt_attach (f := ⟨(vfsNodeDettachChild f node).tree, s⟩) p hparent
    (not_mem_of_parent hl.sound hparent)⟩
  rw [socketMove, if_neg (by rw [h.socket]; simp)]
  simp only [hs, Option.bind_some]
  show some (socketMoveDirect ⟨(vfsNodeDettachChild f node).tree, s⟩ node p name) = _
  rw [hmoved]

/-- **The path leads nowhere**: there is no directory to attach the socket to. -/
lemma socketMove_nowhere (d socketRoot : ℕ) (uniqueId : List Char) {o : Outcome}
    (ho : atPath e f node path = some o) (hnowhere : o = .notFound ∨ o = .cycle) :
    socketMove e (d + 1) socketRoot uniqueId f node (some path) = none := by
  obtain ⟨o', -, ho', heval⟩ := exists_atPath e f node path
  rw [ho] at ho'
  obtain rfl := Option.some.inj ho'
  obtain ⟨s, hs, -⟩ := (vfsLookupForCreation_follows _ _ _ path true h.callable_removed).2 _
    (heval d)
  rw [socketMove, if_neg (by rw [h.socket]; simp)]
  simp only [hs]
  rcases hnowhere with rfl | rfl <;> rfl

/-- A move is **all or nothing** exactly if no node is at the path once the socket has been taken
out. It gives no answer exactly if there is no directory to attach the socket to. -/
theorem socketMove_atomic_iff (d socketRoot : ℕ) (uniqueId : List Char)
    (path : Option (List Char)) :
    (Atomic e (d + 1) socketRoot uniqueId f node path ↔
      ∀ q ∈ path, ∀ m, atPath e f node q ≠ some (.found m)) ∧
    (socketMove e (d + 1) socketRoot uniqueId f node path = none ↔
      ∃ q ∈ path, atPath e f node q = some .notFound ∨ atPath e f node q = some .cycle) := by
  cases path with
  | none =>
    obtain ⟨f', hrun, hat⟩ := socketMove_none h (d + 1) socketRoot uniqueId
    refine ⟨iff_of_true ?_ (by simp), iff_of_false (by rw [hrun]; simp) (by simp)⟩
    intro f'' moved hrun'
    rw [hrun] at hrun'
    cases hrun'
    exact ⟨by simp, fun _ => ⟨socketRoot, uniqueId, ⟨rfl, rfl⟩, hat⟩⟩
  | some q =>
    obtain ⟨o, hne, ho, -⟩ := exists_atPath e f node q
    simp only [Option.mem_some_iff, forall_eq', exists_eq_left', ho, Option.some.injEq]
    cases o with
    | found m =>
      obtain ⟨f', hrun, hchanged⟩ := socketMove_found h d socketRoot uniqueId ho
      refine ⟨iff_of_false (fun hatomic => ?_) (by simp),
        iff_of_false (by rw [hrun]; simp) (by simp)⟩
      exact hchanged ((hatomic f' false hrun).1 rfl)
    | missing p name =>
      obtain ⟨f', hrun, hat⟩ := socketMove_missing h d socketRoot uniqueId ho
      refine ⟨iff_of_true ?_ (by simp), iff_of_false (by rw [hrun]; simp) (by simp)⟩
      intro f'' moved hrun'
      rw [hrun] at hrun'
      cases hrun'
      exact ⟨by simp, fun _ => ⟨p, name, ho, hat⟩⟩
    | notFound =>
      have hrun := socketMove_nowhere h d socketRoot uniqueId ho (.inl rfl)
      refine ⟨iff_of_true ?_ (by simp), iff_of_true hrun (by simp)⟩
      intro f'' moved hrun'
      rw [hrun] at hrun'
      cases hrun'
    | cycle =>
      have hrun := socketMove_nowhere h d socketRoot uniqueId ho (.inr rfl)
      refine ⟨iff_of_true ?_ (by simp), iff_of_true hrun (by simp)⟩
      intro f'' moved hrun'
      rw [hrun] at hrun'
      cases hrun'
    | linkFound => exact absurd rfl hne

end

/-! ### A root directory with the file `a` and the socket `s` -/

def sampleNode : ℕ → Node
  | 1 => ⟨['a'], some 0, .file, false, false, 0, 0, 0, true, []⟩
  | 2 => ⟨['s'], some 0, .socket, true, false, 0, 0, 0, true, []⟩
  | _ => ⟨[], none, .directory, true, false, 0, 0, 0, true, []⟩

def sampleFiles : Files where
  tree := ⟨sampleNode, fun _ _ => none⟩
  state :=
    { loaded := fun n => n < 3
      children := fun n => if n = 0 then [2, 1] else []
      rc := fun n => if n = 0 then 3 else if n = 2 then 1 else 0
      deleted := [] }

def sampleEnv : Env where
  tree := sampleFiles.tree
  process := some ⟨0, 0, 0⟩
  vfsRootNode := 0
  ids := Ids.init
  flags := ⟨false, false, false⟩
  uid := 0
  gid := 0

lemma sample_movable : Movable sampleEnv sampleFiles 2 := by
  have hmem : ∀ {n c}, c ∈ sampleFiles.state.children n → n = 0 ∧ (c = 2 ∨ c = 1) := by
    intro n c hc
    change c ∈ (if n = 0 then [2, 1] else []) at hc
    by_cases hn : n = 0
    · subst hn
      exact ⟨rfl, by simpa using hc⟩
    · simp [hn] at hc
  have hpar : ∀ {n p}, (sampleNode n).parent = some p → p = 0 ∧ (n = 2 ∨ n = 1) := by
    intro n p hp
    unfold sampleNode at hp
    split at hp
    · exact ⟨(Option.some.inj hp).symm, .inr rfl⟩
    · exact ⟨(Option.some.inj hp).symm, .inl rfl⟩
    · cases hp
  have hsound : Sound sampleFiles.tree sampleFiles.state :=
    { child_loaded := fun hc => by
        obtain ⟨-, rfl | rfl⟩ := hmem hc <;> rfl
      child_parent := fun hc => by
        obtain ⟨rfl, rfl | rfl⟩ := hmem hc <;> rfl
      parent_child := fun _ hp => by
        obtain ⟨rfl, rfl | rfl⟩ := hpar hp <;> simp [sampleFiles]
      parent_loaded := fun _ hp => by
        obtain ⟨rfl, -⟩ := hpar hp
        rfl
      disk_name := nofun
      disk_parent := nofun
      disk_kept := nofun
      unloaded := fun {n} hn => by
        have hn3 : ¬ n < 3 := by simpa [sampleFiles] using hn
        have hn0 : n ≠ 0 := by omega
        have hn2 : n ≠ 2 := by omega
        simp [sampleFiles, hn0, hn2]
      kept := fun {n} hn hrc => by
        have hn3 : n < 3 := by simpa [sampleFiles] using hn
        interval_cases n
        · cases hrc
        · exact ⟨.inl (by simp [sampleFiles, sampleNode]), rfl⟩
        · cases hrc }
  exact
    { callable := ⟨hsound, fun _ _ => rfl, rfl, rfl, rfl, by simp⟩
      nodup := fun d => by
        show (if d = 0 then [2, 1] else []).Nodup
        split_ifs <;> simp
      socket := rfl
      loaded := rfl
      held := by decide
      not_on_disk := nofun
      parent_ne := by decide
      parent_stays := fun p hp => by
        obtain ⟨rfl, -⟩ := hpar hp
        exact .inl (by decide) }

/-- A move to the new name `x`. -/
theorem socketMove_atomic_new :
    Atomic sampleEnv 1 0 ['7'] sampleFiles 2 (some ['/', 'x']) := by
  refine (socketMove_atomic_iff sample_movable 0 0 ['7'] (some ['/', 'x'])).1.mpr ?_
  rintro q ⟨⟩ m hm
  have hmissing : atPath sampleEnv sampleFiles 2 ['/', 'x'] = some (.missing 0 ['x']) := by
    decide +kernel
  rw [hmissing] at hm
  cases hm

/-- A move to the name of the file fails, and the socket is in no directory any more. -/
theorem socketMove_not_atomic_taken :
    ¬ Atomic sampleEnv 1 0 ['7'] sampleFiles 2 (some ['/', 'a']) := by
  intro hatomic
  obtain ⟨f', hrun, hchanged⟩ := socketMove_found sample_movable 0 0 ['7']
    (show atPath sampleEnv sampleFiles 2 ['/', 'a'] = some (.found 1) by decide +kernel)
  exact hchanged ((hatomic f' false hrun).1 rfl)

end KernelModel.SocketMove
