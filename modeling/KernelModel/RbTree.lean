import Mathlib.Tactic

/-!
The red-black tree of the kernel, on a heap of nodes.

An address is a 64-bit word, and `0` is the null pointer. Nodes lie at even addresses, so that
the lowest bit of the word with the parent's address is free for the colour: `1` is red. There
is no sentinel: a missing child and the parent of the root are null pointers.

The lock is left out; every function holds it from its first access to its last.
-/

namespace KernelModel.RbTree

/-- `rb_tree_node_t`; the child on side `true` is the right one. -/
structure Node where
  key : ℕ
  rbParentAndColor : ℕ
  rbNodes : Bool → ℕ

/-- The tree with the memory of its nodes. -/
structure Tree where
  root : ℕ
  heap : ℕ → Node

def Tree.modify (s : Tree) (a : ℕ) (f : Node → Node) : Tree :=
  ⟨s.root, Function.update s.heap a (f (s.heap a))⟩

def getParent (s : Tree) (node : ℕ) : ℕ := (s.heap node).rbParentAndColor &&& 0xfffffffffffffffe

def setParent (s : Tree) (node parent : ℕ) : Tree :=
  s.modify node fun n => { n with rbParentAndColor := parent ||| (n.rbParentAndColor &&& 1) }

def getColor (s : Tree) (node : ℕ) : Bool := (s.heap node).rbParentAndColor &&& 1 ≠ 0

def setColor (s : Tree) (node : ℕ) (color : Bool) : Tree :=
  s.modify node fun n =>
    { n with rbParentAndColor := (n.rbParentAndColor &&& 0xfffffffffffffffe) ||| color.toNat }

/-- `node->rb_nodes[dir]` -/
def child (s : Tree) (node : ℕ) (dir : Bool) : ℕ := (s.heap node).rbNodes dir

def setChild (s : Tree) (node : ℕ) (dir : Bool) (a : ℕ) : Tree :=
  s.modify node fun n => { n with rbNodes := Function.update n.rbNodes dir a }

/-- Puts `z` in the place of `x`, whose parent is `y`. -/
def replaceChild (s : Tree) (y x z : ℕ) : Tree :=
  if y ≠ 0 then setChild s y (x = child s y true) z else { s with root := z }

def rotateSubtree (s : Tree) (x : ℕ) (dir : Bool) : Tree :=
  let y := getParent s x
  let z := child s x (!dir)
  let s := setChild s x (!dir) (child s z dir)
  let s := if child s z dir ≠ 0 then setParent s (child s z dir) x else s
  let s := setChild s z dir x
  let s := setParent s x z
  let s := setParent s z y
  replaceChild s y x z

def rbTreeInit (heap : ℕ → Node) : Tree := ⟨0, heap⟩

/-! ### Insertion -/

/-- The descent from `y` to the node that gets the new child, or to a node with the same key. -/
def insertDescend (s : Tree) (key : ℕ) : ℕ → ℕ → Option ℕ
  | 0, _ => none
  | f + 1, y =>
    if child s y ((s.heap y).key < key) ≠ 0 then
      if key = (s.heap y).key then some y
      else insertDescend s key f (child s y ((s.heap y).key < key))
    else some y

/-- The loop after the new node has been linked. -/
def insertFixup : ℕ → Tree → ℕ → ℕ → Option Tree
  | 0, _, _, _ => none
  | f + 1, s, x, y =>
    if y ≠ 0 ∧ getColor s y then
      let z := getParent s y
      if z = 0 then some (setColor s y false)
      else
        let dir : Bool := y = child s z true
        let w := child s z (!dir)
        if w = 0 ∨ !getColor s w then
          let inner : Bool := x = child s y (!dir)
          let s₁ := if inner then rotateSubtree s y dir else s
          let y₁ := if inner then child s₁ z dir else y
          let s₂ := rotateSubtree s₁ z (!dir)
          let s₃ := setColor s₂ y₁ false
          some (setColor s₃ z true)
        else
          let s := setColor s y false
          let s := setColor s z true
          let s := setColor s w false
          insertFixup f s z (getParent s z)
    else some s

/-- `rb_tree_lookup_or_insert_node`: the tree and the returned pointer; `f` bounds the rounds
of the loops. -/
def rbTreeLookupOrInsertNode (f : ℕ) (s : Tree) (x : ℕ) : Option (Tree × ℕ) :=
  let s := setChild s x false 0
  let s := setChild s x true 0
  if s.root = 0 then
    some (⟨x, (s.modify x fun n => { n with rbParentAndColor := 0 }).heap⟩, 0)
  else
    let s := s.modify x fun n => { n with rbParentAndColor := 1 }
    let key := (s.heap x).key
    (insertDescend s key f s.root).bind fun y =>
      if key = (s.heap y).key then some (s, x)
      else
        let s := setParent s x y
        let s := setChild s y ((s.heap y).key < key) x
        (insertFixup f s x y).map fun s => (s, 0)

/-- `rb_tree_insert_node`, with no result if it panics. -/
def rbTreeInsertNode (f : ℕ) (s : Tree) (x : ℕ) : Option Tree :=
  (rbTreeLookupOrInsertNode f s x).bind fun r => if r.2 ≠ 0 then none else some r.1

/-! ### Removal -/

/-- The loop that goes to the leftmost node. -/
def leftmost (s : Tree) : ℕ → ℕ → Option ℕ
  | 0, _ => none
  | f + 1, z => if child s z false ≠ 0 then leftmost s f (child s z false) else some z

/-- Exchanges node `x`, that has two children, with its successor `z`; `y` is the parent. -/
def exchange (s : Tree) (x y z : ℕ) : Tree :=
  let s := replaceChild s y x z
  let s := setChild s z false (child s x false)
  let s := setChild s x false 0
  let s := setParent s (child s z false) z
  let s :=
    if z = child s x true then
      let s := setChild s x true (child s z true)
      let s := setChild s z true x
      setParent s x z
    else
      let w := child s x true
      let s := setChild s x true (child s z true)
      let s := setChild s z true w
      let s := setParent s (child s z true) z
      let w := getParent s z
      let s := setChild s w (z = child s w true) x
      setParent s x w
  let s := if child s x true ≠ 0 then setParent s (child s x true) x else s
  let s := setParent s z y
  let tmp := getColor s z
  let s := setColor s z (getColor s x)
  setColor s x tmp

/-- The body of the loop in `rb_tree_remove_node` once the sibling `z` of the short side is
black, with its far child `u` and its near child `v`: the tree, and the node and the side to
go on with. -/
def removeRoundBlack (s : Tree) (y z u v : ℕ) (dir : Bool) : Tree × Option (ℕ × Bool) :=
  if u ≠ 0 ∧ getColor s u then
    let s := rotateSubtree s y dir
    let s := setColor s z (getColor s y)
    let s := setColor s y false
    (setColor s u false, none)
  else if v ≠ 0 ∧ getColor s v then
    let s := rotateSubtree s z (!dir)
    let s := rotateSubtree s y dir
    let s := setColor s v (getColor s y)
    let s := setColor s y false
    (setColor s z false, none)
  else
    let s := setColor s z true
    if getColor s y then (setColor s y false, none)
    else
      let x := y
      let y := getParent s x
      if y = 0 then (s, none) else (s, some (y, x = child s y true))

/-- The body of the loop: the side `dir` of `y` is one black node short. -/
def removeRound (s : Tree) (y : ℕ) (dir : Bool) : Tree × Option (ℕ × Bool) :=
  let z := child s y (!dir)
  let u := child s z (!dir)
  let v := child s z dir
  if getColor s z then
    let s := rotateSubtree s y dir
    let s := setColor s y true
    let s := setColor s z false
    let z := v
    let u := child s z (!dir)
    let v := child s z dir
    removeRoundBlack s y z u v dir
  else removeRoundBlack s y z u v dir

/-- The loop that restores the balance. -/
def removeFixup : ℕ → Tree → ℕ → Bool → Option Tree
  | 0, _, _, _ => none
  | f + 1, s, y, dir =>
    match removeRound s y dir with
    | (s, none) => some s
    | (s, some (y, dir)) => removeFixup f s y dir

/-- The end of `rb_tree_remove_node`, for a node `x` with at most one child and parent `y`. -/
def removeLeaf (f : ℕ) (s : Tree) (x y : ℕ) : Option Tree :=
  if child s x false ≠ 0 ∨ child s x true ≠ 0 then
    let z := if child s x false ≠ 0 then child s x false else child s x true
    let s := replaceChild s y x z
    let s := setColor s z false
    some (setParent s z y)
  else if x = s.root then some { s with root := 0 }
  else
    let dir : Bool := x = child s y true
    let s := setChild s y dir 0
    if getColor s x then some s else removeFixup f s y dir

def rbTreeRemoveNode (f : ℕ) (s : Tree) (x : ℕ) : Option Tree :=
  let y := getParent s x
  if child s x false ≠ 0 ∧ child s x true ≠ 0 then
    (leftmost s f (child s x true)).bind fun z =>
      let s := exchange s x y z
      removeLeaf f s x (getParent s x)
  else removeLeaf f s x y

end KernelModel.RbTree
