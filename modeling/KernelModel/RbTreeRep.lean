import KernelModel.RbTree
import KernelModel.RedBlack

/-!
The tree that a heap of nodes represents.

A node of the heap is described by its label, its parent, its colour and its two children.
The tree on the heap and the place of a pointer in it are described node by node; a change of
one node leaves the description of all others as it is.
-/

namespace KernelModel.RbTree

open RedBlack RedBlack.CTree

/-- A node in the tree: where it is and what its key is. -/
structure Label where
  addr : ℕ
  key : ℕ
  deriving DecidableEq, Repr

/-- Where a node may lie. -/
def Aligned (a : ℕ) : Prop := a ≠ 0 ∧ a % 2 = 0 ∧ a < 2 ^ 64

/-! ### The word with parent and colour -/

lemma and_mask {w : ℕ} (hw : w < 2 ^ 64) : w &&& 0xfffffffffffffffe = w / 2 * 2 := by
  have hmask : 0xfffffffffffffffe = (2 ^ 63 - 1) * 2 ^ 1 := by norm_num
  rw [hmask]
  apply Nat.eq_of_testBit_eq
  intro i
  rw [Nat.testBit_and, Nat.testBit_mul_two_pow, Nat.testBit_two_pow_sub_one,
    show w / 2 * 2 = w / 2 ^ 1 * 2 ^ 1 by rw [pow_one], Nat.testBit_mul_two_pow,
    Nat.testBit_div_two_pow]
  by_cases hi : 1 ≤ i
  · rw [Nat.sub_add_cancel hi]
    by_cases hi' : i < 64
    · simp [hi, show i - 1 < 63 by omega]
    · have : w.testBit i = false :=
        Nat.testBit_lt_two_pow (lt_of_lt_of_le hw (Nat.pow_le_pow_right (by omega) (by omega)))
      simp [this]
  · simp [hi]

lemma even_or_toNat {p : ℕ} (hp : p % 2 = 0) (c : Bool) : p ||| c.toNat = p + c.toNat := by
  have hlt : c.toNat < 2 ^ 1 := by cases c <;> norm_num
  have h := Nat.shiftLeft_add_eq_or_of_lt hlt (p / 2)
  rw [Nat.shiftLeft_eq, pow_one, Nat.div_mul_cancel (Nat.dvd_of_mod_eq_zero hp)] at h
  exact h.symm

/-- A possible parent: a node, or nothing. -/
def IsParent (p : ℕ) : Prop := p % 2 = 0 ∧ p < 2 ^ 64

lemma Aligned.isParent {a : ℕ} (h : Aligned a) : IsParent a := h.2

section

variable {p : ℕ} (hp : IsParent p) (c : Bool)

include hp

lemma IsParent.add_and_mask : (p + c.toNat) &&& 0xfffffffffffffffe = p := by
  obtain ⟨heven, hlt⟩ := hp
  have hc : c.toNat < 2 := by cases c <;> norm_num
  rw [and_mask (by omega)]
  omega

lemma IsParent.add_and_one : (p + c.toNat) &&& 1 = c.toNat := by
  have hc : c.toNat < 2 := by cases c <;> norm_num
  have := hp.1
  rw [Nat.and_one_is_mod]
  omega

end

/-! ### Nodes -/

/-- The node `x` on the heap: its parent and colour, the child on side `d` and the other. -/
structure IsNode (s : Tree) (x : Label) (par : ℕ) (c d : Bool) (p q : ℕ) : Prop where
  aligned : Aligned x.addr
  isParent : IsParent par
  key : (s.heap x.addr).key = x.key
  word : (s.heap x.addr).rbParentAndColor = par + c.toNat
  near : child s x.addr d = p
  far : child s x.addr (!d) = q

namespace IsNode

variable {s : Tree} {x : Label} {par : ℕ} {c d : Bool} {p q : ℕ}

lemma swap (h : IsNode s x par c d p q) : IsNode s x par c (!d) q p :=
  ⟨h.aligned, h.isParent, h.key, h.word, h.far, by rw [Bool.not_not]; exact h.near⟩

lemma getParent_eq (h : IsNode s x par c d p q) : getParent s x.addr = par := by
  rw [getParent, h.word, h.isParent.add_and_mask]

lemma getColor_eq (h : IsNode s x par c d p q) : getColor s x.addr = c := by
  rw [getColor, h.word, h.isParent.add_and_one]
  cases c <;> simp

lemma modify (h : IsNode s x par c d p q) {a : ℕ} (ha : a ≠ x.addr) (f : Node → Node) :
    IsNode (s.modify a f) x par c d p q := by
  have hheap : (s.modify a f).heap x.addr = s.heap x.addr := by
    simp [Tree.modify, Function.update_of_ne ha.symm]
  exact ⟨h.aligned, h.isParent, by rw [hheap]; exact h.key, by rw [hheap]; exact h.word,
    by rw [child, hheap]; exact h.near, by rw [child, hheap]; exact h.far⟩

lemma setParent (h : IsNode s x par c d p q) {par' : ℕ} (hp : IsParent par') :
    IsNode (setParent s x.addr par') x par' c d p q := by
  refine ⟨h.aligned, hp, ?_, ?_, ?_, ?_⟩
  · simpa [RbTree.setParent, Tree.modify] using h.key
  · simp only [RbTree.setParent, Tree.modify, Function.update_self]
    rw [h.word, h.isParent.add_and_one, even_or_toNat hp.1]
  · simpa [RbTree.setParent, Tree.modify, child] using h.near
  · simpa [RbTree.setParent, Tree.modify, child] using h.far

lemma setColor (h : IsNode s x par c d p q) (c' : Bool) :
    IsNode (setColor s x.addr c') x par c' d p q := by
  refine ⟨h.aligned, h.isParent, ?_, ?_, ?_, ?_⟩
  · simpa [RbTree.setColor, Tree.modify] using h.key
  · simp only [RbTree.setColor, Tree.modify, Function.update_self]
    rw [h.word, h.isParent.add_and_mask, even_or_toNat h.isParent.1]
  · simpa [RbTree.setColor, Tree.modify, child] using h.near
  · simpa [RbTree.setColor, Tree.modify, child] using h.far

lemma setNear (h : IsNode s x par c d p q) (p' : ℕ) :
    IsNode (setChild s x.addr d p') x par c d p' q := by
  refine ⟨h.aligned, h.isParent, ?_, ?_, ?_, ?_⟩
  · simpa [setChild, Tree.modify] using h.key
  · simpa [setChild, Tree.modify] using h.word
  · simp [setChild, Tree.modify, child]
  · have := h.far
    simpa [setChild, Tree.modify, child] using this

lemma setFar (h : IsNode s x par c d p q) (q' : ℕ) :
    IsNode (setChild s x.addr (!d) q') x par c d p q' := by
  have := h.swap.setNear q'
  simpa using this.swap

end IsNode

/-! ### Trees and places -/

def ptr : CTree Label → ℕ
  | .nil => 0
  | .node _ _ a _ => a.addr

@[simp] lemma ptr_nil : ptr .nil = 0 := rfl

@[simp] lemma ptr_join (d c : Bool) (a : Label) (t u : CTree Label) :
    ptr (join d c a t u) = a.addr := by
  cases d <;> rfl

/-- The addresses of the nodes. -/
def addrs (t : CTree Label) : List ℕ := t.toList.map Label.addr

/-- The heap holds the nodes of the tree, whose parent is `par`. -/
def Rep (s : Tree) (par : ℕ) : CTree Label → Prop
  | .nil => True
  | .node c l a r => IsNode s a par c false (ptr l) (ptr r) ∧ Rep s a.addr l ∧ Rep s a.addr r

/-- The node above a place. -/
def up : List (Frame Label) → ℕ
  | [] => 0
  | f :: _ => f.label.addr

/-- The heap holds the nodes around the place of the pointer `p`. -/
def RepAround (s : Tree) : List (Frame Label) → ℕ → Prop
  | [], p => s.root = p
  | f :: fs, p => IsNode s f.label (up fs) f.red f.dir p (ptr f.sib) ∧ Rep s f.label.addr f.sib ∧
      RepAround s fs f.label.addr

/-- The addresses around a place. -/
def addrsAround : List (Frame Label) → List ℕ
  | [] => []
  | f :: fs => f.label.addr :: addrs f.sib ++ addrsAround fs

lemma rep_join {s : Tree} {par : ℕ} {d c : Bool} {a : Label} {t u : CTree Label} :
    Rep s par (join d c a t u) ↔
      IsNode s a par c d (ptr t) (ptr u) ∧ Rep s a.addr t ∧ Rep s a.addr u := by
  cases d
  · exact Iff.rfl
  · simp only [join, Rep]
    constructor
    · rintro ⟨h, hu, ht⟩
      exact ⟨h.swap, ht, hu⟩
    · rintro ⟨h, ht, hu⟩
      exact ⟨h.swap, hu, ht⟩

lemma addrs_join (d c : Bool) (a : Label) (t u : CTree Label) :
    (addrs (join d c a t u)).Perm (a.addr :: addrs t ++ addrs u) := by
  cases d
  · simp [addrs, join, toList]
  · simp only [addrs, join, toList, List.map_append, List.map_cons]
    exact List.perm_middle.trans ((List.perm_append_comm).cons _)

lemma addrs_plug (fs : List (Frame Label)) (t : CTree Label) :
    (addrs (plug fs t)).Perm (addrs t ++ addrsAround fs) := by
  induction fs generalizing t with
  | nil => simp [addrsAround]
  | cons f fs ih =>
    refine (ih (f.fill t)).trans ?_
    rw [Frame.fill, addrsAround]
    refine ((addrs_join _ _ _ _ _).append_right _).trans ?_
    simp only [List.cons_append, List.append_assoc]
    exact (List.perm_middle).symm

lemma ptr_mem_addrs {t : CTree Label} (h : ptr t ≠ 0) : ptr t ∈ addrs t := by
  cases t with
  | nil => exact absurd rfl h
  | node c l a r => simp [addrs, toList, ptr]

lemma Rep.modify {s : Tree} {a : ℕ} (f : Node → Node) : ∀ {par : ℕ} {t : CTree Label},
    Rep s par t → a ∉ addrs t → Rep (s.modify a f) par t
  | _, .nil, _, _ => trivial
  | par, .node c l x r, ⟨hx, hl, hr⟩, ha => by
    simp only [addrs, toList, List.map_append, List.map_cons, List.mem_append, List.mem_cons,
      not_or] at ha
    exact ⟨hx.modify ha.2.1 f, hl.modify f ha.1, hr.modify f ha.2.2⟩

lemma RepAround.modify {s : Tree} {a : ℕ} (f : Node → Node) : ∀ {fs : List (Frame Label)} {p : ℕ},
    RepAround s fs p → a ∉ addrsAround fs → RepAround (s.modify a f) fs p
  | [], _, h, _ => h
  | g :: fs, p, ⟨hg, hsib, hfs⟩, ha => by
    simp only [addrsAround, List.cons_append, List.mem_cons, List.mem_append, not_or] at ha
    exact ⟨hg.modify ha.1 f, hsib.modify f ha.2.1, hfs.modify f ha.2.2⟩

lemma Rep.setParent {s : Tree} {par par' : ℕ} {t : CTree Label} (h : Rep s par t)
    (hp : IsParent par') (hn : (addrs t).Nodup) : Rep (setParent s (ptr t) par') par' t := by
  cases t with
  | nil => trivial
  | node c l a r =>
    obtain ⟨ha, hl, hr⟩ := h
    have hn' := ((addrs_join false c a l r).nodup_iff.mp hn)
    simp only [List.cons_append, List.nodup_cons, List.mem_append, not_or] at hn'
    exact ⟨ha.setParent hp, hl.modify _ hn'.1.1, hr.modify _ hn'.1.2⟩

lemma RepAround.isParent {s : Tree} {fs : List (Frame Label)} {p : ℕ} (h : RepAround s fs p) :
    IsParent (up fs) := by
  cases fs with
  | nil => exact ⟨rfl, by norm_num [up]⟩
  | cons f fs => exact h.1.aligned.isParent

lemma up_mem {fs : List (Frame Label)} (h : up fs ≠ 0) : up fs ∈ addrsAround fs := by
  cases fs with
  | nil => exact absurd rfl h
  | cons f fs => simp [up, addrsAround]

lemma RepAround.side {s : Tree} {f : Frame Label} {fs : List (Frame Label)} {p : ℕ}
    (h : RepAround s (f :: fs) p) (hp : p ≠ 0) (hn : p ∉ addrs f.sib) :
    (decide (p = child s f.label.addr true)) = f.dir := by
  obtain ⟨hf, -, -⟩ := h
  cases hd : f.dir
  · -- on the left, the right child is the sibling
    have hfar := hf.far
    rw [hd] at hfar
    simp only [Bool.not_false] at hfar
    rw [hfar, decide_eq_false_iff_not]
    rintro rfl
    exact hn (ptr_mem_addrs hp)
  · have hnear := hf.near
    rw [hd] at hnear
    rw [hnear, decide_eq_true rfl]

lemma RepAround.replaceChild {s : Tree} {fs : List (Frame Label)} {p : ℕ} (q : ℕ)
    (h : RepAround s fs p) (hp : p ≠ 0) (hn : p ∉ addrsAround fs)
    (hnodup : (addrsAround fs).Nodup) :
    RepAround (replaceChild s (up fs) p q) fs q := by
  cases fs with
  | nil =>
    simp [RbTree.replaceChild, up, RepAround]
  | cons f fs =>
    obtain ⟨hf, hsib, hfs⟩ := h
    simp only [addrsAround, List.cons_append, List.mem_cons, List.mem_append, not_or,
      List.nodup_cons] at hn hnodup
    have hside := RepAround.side (s := s) (f := f) ⟨hf, hsib, hfs⟩ hp hn.2.1
    rw [up, RbTree.replaceChild, if_pos hf.aligned.1, hside]
    exact ⟨hf.setNear q, hsib.modify _ hnodup.1.1, hfs.modify _ hnodup.1.2⟩

/-- Replacing the pointer at a place does not change subtrees that are not above it. -/
lemma Rep.replaceChild {s : Tree} {par : ℕ} {t : CTree Label} (h : Rep s par t) {y : ℕ}
    (hy : y ≠ 0 → y ∉ addrs t) (x z : ℕ) : Rep (replaceChild s y x z) par t := by
  rw [RbTree.replaceChild]
  split
  · rename_i hne
    exact h.modify _ (hy hne)
  · have hroot : ∀ {par : ℕ} {t : CTree Label}, Rep s par t → Rep { s with root := z } par t := by
      intro par t h
      induction t generalizing par with
      | nil => trivial
      | node c l a r ihl ihr =>
        exact ⟨⟨h.1.aligned, h.1.isParent, h.1.key, h.1.word, h.1.near, h.1.far⟩, ihl h.2.1,
          ihr h.2.2⟩
    exact hroot h

lemma IsNode.replaceChild {s : Tree} {a : Label} {par : ℕ} {c d : Bool} {p q : ℕ}
    (h : IsNode s a par c d p q) {y : ℕ} (hy : y ≠ a.addr) (x z : ℕ) :
    IsNode (replaceChild s y x z) a par c d p q := by
  rw [RbTree.replaceChild]
  split
  · exact h.modify hy _
  · exact ⟨h.aligned, h.isParent, h.key, h.word, h.near, h.far⟩

/-- The tree in the heap has `t` at the place `fs`, and no node twice. -/
structure Holds (s : Tree) (fs : List (Frame Label)) (t : CTree Label) : Prop where
  around : RepAround s fs (ptr t)
  rep : Rep s (up fs) t
  nodup : (addrs t ++ addrsAround fs).Nodup

lemma holds_cons {s : Tree} {f : Frame Label} {fs : List (Frame Label)} {t : CTree Label} :
    Holds s (f :: fs) t ↔ Holds s fs (f.fill t) := by
  have hrep : RepAround s (f :: fs) (ptr t) ∧ Rep s f.label.addr t ↔
      RepAround s fs (ptr (f.fill t)) ∧ Rep s (up fs) (f.fill t) := by
    rw [Frame.fill, ptr_join, rep_join, RepAround]
    tauto
  have hperm : (addrs t ++ addrsAround (f :: fs)).Perm
      (addrs (f.fill t) ++ addrsAround fs) :=
    (addrs_plug (f :: fs) t).symm.trans (addrs_plug fs (f.fill t))
  constructor
  · rintro ⟨ha, hr, hn⟩
    obtain ⟨ha', hr'⟩ := hrep.mp ⟨ha, hr⟩
    exact ⟨ha', hr', hperm.nodup_iff.mp hn⟩
  · rintro ⟨ha, hr, hn⟩
    obtain ⟨ha', hr'⟩ := hrep.mpr ⟨ha, hr⟩
    exact ⟨ha', hr', hperm.nodup_iff.mpr hn⟩

lemma holds_join {s : Tree} {d c : Bool} {a : Label} {t u : CTree Label}
    {fs : List (Frame Label)} : Holds s (⟨d, c, a, u⟩ :: fs) t ↔ Holds s fs (join d c a t u) :=
  holds_cons

lemma holds_join_not {s : Tree} {d c : Bool} {a : Label} {t u : CTree Label}
    {fs : List (Frame Label)} : Holds s (⟨!d, c, a, t⟩ :: fs) u ↔ Holds s fs (join d c a t u) := by
  rw [holds_join, join_not]

end KernelModel.RbTree
