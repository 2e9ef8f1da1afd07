import KernelModel.RbTreeRun

/-!
Lookups in the red-black tree: the last node whose key is not above a bound, and the first
node. No operation changes a key.
-/

namespace KernelModel.RbTree

open RedBlack RedBlack.CTree

variable {s : Tree} {fs : List (Frame Label)}

/-- The loop that goes to the rightmost node. -/
def rightmost (s : Tree) : ℕ → ℕ → Option ℕ
  | 0, _ => none
  | f + 1, x => if child s x true ≠ 0 then rightmost s f (child s x true) else some x

/-- The loop that goes up from `x` until it comes from the right. -/
def climbLeft (s : Tree) : ℕ → ℕ → Option ℕ
  | 0, _ => none
  | f + 1, y =>
    let x := getParent s y
    if x ≠ 0 ∧ y = child s x false then climbLeft s f x else some x

/-- The loop of `rb_tree_lookup_decreasing_node`; `g` bounds the rounds of the loops in it. -/
def lookupDecreasing (s : Tree) (key g : ℕ) : ℕ → ℕ → Option ℕ
  | 0, _ => none
  | f + 1, x =>
    if x ≠ 0 ∧ (s.heap x).key ≠ key then
      let y := child s x ((s.heap x).key < key)
      if y ≠ 0 then lookupDecreasing s key g f y
      else if (s.heap x).key < key then some x
      else if child s x false ≠ 0 then rightmost s g (child s x false)
      else climbLeft s g x
    else some x

def rbTreeLookupDecreasingNode (f : ℕ) (s : Tree) (key : ℕ) : Option ℕ :=
  lookupDecreasing s key f f s.root

def rbTreeIterStart (f : ℕ) (s : Tree) : Option ℕ :=
  if s.root = 0 then some 0 else leftmost s f s.root

/-! ### The last node up to a key -/

/-- The address of the last node, or null. -/
def lastAddr (L : List Label) : ℕ := (L.getLast?.map Label.addr).getD 0

/-- The pointer to the last of the nodes with a key up to `k`, null if there is none. -/
def IsLastUpTo (L : List Label) (k a : ℕ) : Prop :=
  (a = 0 ∧ ∀ b ∈ L, k < b.key) ∨
    ∃ x ∈ L, x.addr = a ∧ x.key ≤ k ∧ ∀ b ∈ L, b.key ≤ k → b.key ≤ x.key

/-- **The way up** from a node ends at the node before its subtree. -/
lemma climbLeft_spec : ∀ {f : ℕ} {fs : List (Frame Label)} {t : CTree Label}, Holds s fs t →
    t ≠ .nil → fs.length < f → climbLeft s f (ptr t) = some (lastAddr (around fs).1) := by
  intro f
  induction f with
  | zero => intro fs t _ _ hf; omega
  | succ f ih =>
    intro fs t h hne hf
    have hpar : getParent s (ptr t) = up fs := by
      obtain ⟨c, a, l, r, rfl⟩ := eq_join false t hne
      rw [ptr_join, h.isNode.getParent_eq]
    have h0 : ptr t ≠ 0 := fun h0 => hne (h.rep.eq_nil h0)
    rw [climbLeft, hpar]
    cases fs with
    | nil => simp [up, around, lastAddr]
    | cons g gs =>
      have hg := h.around.1
      have hup := holds_cons.mp h
      rw [up]
      cases hd : g.dir
      · -- from the left: the node above lies behind
        rw [hd] at hg
        rw [if_pos ⟨hg.aligned.1, hg.near.symm⟩]
        have hfill : ptr (g.fill t) = g.label.addr := by rw [Frame.fill, ptr_join]
        have := ih hup (fun he => hg.aligned.1 (by rw [← hfill, he, ptr_nil]))
          (by rw [List.length_cons] at hf; omega)
        rw [hfill] at this
        rw [this, around, hd]
        simp
      · rw [hd] at hg
        have hfar : child s g.label.addr false = ptr g.sib := hg.far
        have hside : ptr t ≠ child s g.label.addr false := by
          intro he
          have hn := h.nodup
          rw [addrsAround, List.nodup_append'] at hn
          refine hn.2.2 (ptr_mem_addrs h0) ?_
          have hmem : ptr g.sib ∈ addrs g.sib := ptr_mem_addrs (by rw [← hfar, ← he]; exact h0)
          rw [he, hfar]
          simp [hmem]
        rw [if_neg (fun hc => hside hc.2), around, hd]
        simp [lastAddr]

/-- The last node before a place is the last one up to a key that belongs there. -/
lemma Between.isLastUpTo {k : ℕ} (h : Between fs k) (hs : Sorted (plug fs .nil).toList) :
    IsLastUpTo (plug fs .nil).toList k (lastAddr (around fs).1) := by
  rw [toList_plug, toList, List.append_nil] at hs ⊢
  rcases List.eq_nil_or_concat (around fs).1 with hnil | ⟨P, x, hP⟩
  · refine .inl ⟨by rw [hnil]; rfl, fun b hb => ?_⟩
    rw [hnil, List.nil_append] at hb
    exact h.after b hb
  · have hx : x ∈ (around fs).1 := by simp [hP]
    refine .inr ⟨x, List.mem_append_left _ hx, by simp [hP, lastAddr], (h.before x hx).le, ?_⟩
    intro b hb hbk
    rcases List.mem_append.mp hb with hb | hb
    · rw [Sorted, hP, List.concat_eq_append, List.append_assoc, List.pairwise_append] at hs
      rw [hP, List.concat_eq_append, List.mem_append, List.mem_singleton] at hb
      rcases hb with hb | rfl
      · exact (hs.2.2 b hb x (by simp)).le
      · exact le_rfl
    · exact absurd (h.after b hb) (by omega)

lemma lookupDecreasing_spec {k g : ℕ} : ∀ {f : ℕ} {fs : List (Frame Label)} {t : CTree Label},
    Holds s fs t → t ≠ .nil → Sorted (plug fs t).toList → Sorted t.toList → Between fs k →
    t.toList.length ≤ f → (plug fs t).toList.length < g →
    ∃ a, lookupDecreasing s k g f (ptr t) = some a ∧ IsLastUpTo (plug fs t).toList k a := by
  intro f
  induction f with
  | zero =>
    intro fs t _ hne _ _ _ hf _
    cases t with
    | nil => exact absurd rfl hne
    | node c l a r => simp [toList] at hf
  | succ f ih =>
    intro fs t h hne hS hs hb hf hg
    obtain ⟨c, y, t, u, rfl⟩ : ∃ c y t' u, t = join (decide (Label.key y < k)) c y t' u := by
      obtain ⟨c, y, l, r, rfl⟩ := eq_join false t hne
      by_cases hlt : y.key < k
      · exact ⟨c, y, r, l, by simp [hlt, join]⟩
      · exact ⟨c, y, l, r, by simp [hlt]⟩
    have hy := h.isNode
    have hmem : y ∈ (plug fs (join (decide (y.key < k)) c y t u)).toList := by
      rw [toList_plug]
      simp [mem_join]
    rw [ptr_join, lookupDecreasing, hy.key, hy.near]
    by_cases hk : y.key = k
    · rw [if_neg (fun hc => hc.2 hk)]
      exact ⟨y.addr, rfl, .inr ⟨y, hmem, rfl, hk.le, fun b _ hb => hk ▸ hb⟩⟩
    rw [if_pos ⟨hy.aligned.1, hk⟩]
    have hb' := hb.cons hs (Ne.symm hk)
    have ht := holds_join.mpr h
    by_cases h0 : ptr t = 0
    · obtain rfl := ht.rep.eq_nil h0
      have hlast := hb'.isLastUpTo hS
      rw [if_neg (fun hc => hc h0)]
      by_cases hlt : y.key < k
      · rw [if_pos hlt]
        refine ⟨y.addr, rfl, ?_⟩
        simpa [around, hlt, lastAddr, Frame.fill] using hlast
      · have hnear := hy.near
        simp only [hlt, decide_false] at hnear
        rw [if_neg hlt, hnear, if_neg (fun hc => hc h0)]
        have hlen := length_le_toList fs (join (decide (y.key < k)) c y .nil u)
        have hup := climbLeft_spec (f := g) h hne (by omega)
        rw [ptr_join] at hup
        refine ⟨_, hup, ?_⟩
        simpa [around, hlt, Frame.fill] using hlast
    · rw [if_pos h0]
      have hlen := length_join (decide (y.key < k)) c y t u
      exact ih ht (by rintro rfl; exact h0 rfl) hS hs.left hb' (by omega) hg

lemma IsLastUpTo.perm {L N : List Label} {k a : ℕ} (h : IsLastUpTo L k a) (hp : L.Perm N) :
    IsLastUpTo N k a := by
  rcases h with ⟨ha, hall⟩ | ⟨x, hx, hxa, hxk, hall⟩
  · exact .inl ⟨ha, fun b hb => hall b (hp.mem_iff.mpr hb)⟩
  · exact .inr ⟨x, hp.mem_iff.mp hx, hxa, hxk, fun b hb => hall b (hp.mem_iff.mpr hb)⟩

/-- **The lookup** finds the last node up to the key. -/
theorem rbTreeLookupDecreasingNode_spec {f : ℕ} {N : List Label} (h : IsRbTree s N) (k : ℕ)
    (hf : N.length < f) :
    ∃ a, rbTreeLookupDecreasingNode f s k = some a ∧ IsLastUpTo N k a := by
  obtain ⟨L, ⟨t, n, ht, -, rfl⟩, hs, hp⟩ := isRbTree_iff.mp h
  have hroot : s.root = ptr t := ht.around
  rw [rbTreeLookupDecreasingNode, hroot]
  by_cases hne : t = .nil
  · subst hne
    obtain ⟨f, rfl⟩ : ∃ g, f = g + 1 := ⟨f - 1, by omega⟩
    refine ⟨0, by simp [lookupDecreasing], .inl ⟨rfl, fun b hb => ?_⟩⟩
    exact absurd (hp.mem_iff.mpr hb) (by simp [toList])
  · have hlen := hp.length_eq
    obtain ⟨a, ha, hlast⟩ := lookupDecreasing_spec (k := k) (g := f) (f := f) ht hne hs hs
      ⟨by simp [around], by simp [around]⟩ (by omega) (by rw [plug_nil]; omega)
    exact ⟨a, ha, hlast.perm hp⟩

/-! ### The first node -/

/-- The pointer to the first node, null if there is none. -/
def IsFirst (N : List Label) (a : ℕ) : Prop :=
  (a = 0 ∧ N = []) ∨ ∃ x ∈ N, x.addr = a ∧ ∀ b ∈ N, x.key ≤ b.key

theorem rbTreeIterStart_spec {f : ℕ} {N : List Label} (h : IsRbTree s N) (hf : N.length ≤ f) :
    ∃ a, rbTreeIterStart f s = some a ∧ IsFirst N a := by
  obtain ⟨L, ⟨t, n, ht, -, rfl⟩, hs, hp⟩ := isRbTree_iff.mp h
  have hroot : s.root = ptr t := ht.around
  rw [rbTreeIterStart, hroot]
  by_cases hne : t = .nil
  · subst hne
    exact ⟨0, by simp, .inl ⟨rfl, hp.symm.eq_nil⟩⟩
  · obtain ⟨gs, c, z, Q, hz, rfl, hgs⟩ := leftmost_spec ht hne (hp.length_eq ▸ hf)
    rw [if_neg (fun h0 => hne (ht.rep.eq_nil h0))]
    refine ⟨z.addr, hz, .inr ⟨z, ?_⟩⟩
    have hlist : (plug gs (join false c z .nil Q)).toList = z :: (Q.toList ++ (around gs).2) := by
      rw [toList_plug, hgs]
      simp [join, toList]
    rw [hlist] at hp hs
    refine ⟨hp.mem_iff.mp (by simp), rfl, fun b hb => ?_⟩
    rcases List.mem_cons.mp (hp.mem_iff.mpr hb) with rfl | hb
    · exact le_rfl
    · exact ((List.pairwise_cons.mp hs).1 b hb).le

/-! ### Keys and addresses of the nodes -/

lemma Rep.isNode : ∀ {par : ℕ} {t : CTree Label}, Rep s par t → ∀ x ∈ t.toList,
    Aligned x.addr ∧ (s.heap x.addr).key = x.key
  | _, .nil, _, x, hx => absurd hx (by simp [toList])
  | par, .node c l a r, ⟨ha, hl, hr⟩, x, hx => by
    rcases mem_join (d := false).mp hx with rfl | hx | hx
    · exact ⟨ha.aligned, ha.key⟩
    · exact hl.isNode x hx
    · exact hr.isNode x hx

lemma IsRbTree.isNode {N : List Label} (h : IsRbTree s N) {x : Label} (hx : x ∈ N) :
    Aligned x.addr ∧ (s.heap x.addr).key = x.key := by
  obtain ⟨t, n, -, ht, -, -, -, hp⟩ := h
  exact ht.isNode x (hp.mem_iff.mpr hx)

lemma IsRbTree.nodup {N : List Label} (h : IsRbTree s N) : (N.map Label.addr).Nodup := by
  obtain ⟨t, n, -, -, hn, -, -, hp⟩ := h
  exact (hp.map _).nodup_iff.mp hn

lemma IsRbTree.setKey {N : List Label} (h : IsRbTree s N) {x : Label}
    (hx : x.addr ∉ N.map Label.addr) : IsRbTree (setKey s x) N := by
  obtain ⟨L, hL, hs, hp⟩ := isRbTree_iff.mp h
  exact isRbTree_iff.mpr ⟨L, hL.setKey (fun hm => hx ((hp.map _).mem_iff.mp hm)), hs, hp⟩

/-! ### The keys stay -/

/-- The two heaps have the same keys. -/
def SameKeys (s s' : Tree) : Prop := ∀ a, (s'.heap a).key = (s.heap a).key

namespace SameKeys

variable {s' s'' : Tree}

lemma refl (s : Tree) : SameKeys s s := fun _ => rfl

lemma trans (h : SameKeys s s') (h' : SameKeys s' s'') : SameKeys s s'' := fun a =>
  (h' a).trans (h a)

lemma modify (h : SameKeys s s') (a : ℕ) {g : Node → Node} (hg : ∀ n, (g n).key = n.key) :
    SameKeys s (s'.modify a g) := by
  intro b
  rw [← h b, Tree.modify]
  by_cases hb : b = a
  · subst hb
    simp [hg]
  · simp [Function.update_of_ne hb]

lemma setParent (h : SameKeys s s') (a p : ℕ) : SameKeys s (setParent s' a p) :=
  h.modify a fun _ => rfl

lemma setColor (h : SameKeys s s') (a : ℕ) (c : Bool) : SameKeys s (setColor s' a c) :=
  h.modify a fun _ => rfl

lemma setChild (h : SameKeys s s') (a : ℕ) (d : Bool) (b : ℕ) : SameKeys s (setChild s' a d b) :=
  h.modify a fun _ => rfl

lemma setRoot (h : SameKeys s s') (r : ℕ) : SameKeys s { s' with root := r } := h

lemma ite {p : Prop} [Decidable p] (h : SameKeys s s') (h' : SameKeys s s'') :
    SameKeys s (if p then s' else s'') := by
  split
  · exact h
  · exact h'

lemma replaceChild (h : SameKeys s s') (y x z : ℕ) : SameKeys s (replaceChild s' y x z) :=
  (h.setChild _ _ _).ite (h.setRoot _)

lemma rotateSubtree (h : SameKeys s s') (x : ℕ) (d : Bool) :
    SameKeys s (rotateSubtree s' x d) := by
  refine SameKeys.replaceChild
    (setParent (setParent (setChild (ite (setParent ?_ _ _) ?_) _ _ _) _ _) _ _) _ _ _
  · exact h.setChild _ _ _
  · exact h.setChild _ _ _

lemma exchange (h : SameKeys s s') (x y z : ℕ) : SameKeys s (exchange s' x y z) := by
  have h₁ := (((h.replaceChild y x z).setChild z false (child (RbTree.replaceChild s' y x z) x
    false)).setChild x false 0)
  refine setColor (setColor (setParent (ite (setParent ?_ _ _) ?_) _ _) _ _) _ _
  all_goals
    refine ite (setParent (setChild (setChild (h₁.setParent _ _) _ _ _) _ _ _) _ _) ?_
    exact setParent (setChild (setParent (setChild (setChild (h₁.setParent _ _) _ _ _) _ _ _)
      _ _) _ _ _) _ _

lemma insertFixup : ∀ {f : ℕ} {s' : Tree} {x y : ℕ}, SameKeys s s' →
    RbTree.insertFixup f s' x y = some s'' → SameKeys s s''
  | 0, _, _, _, _, hr => by simp [RbTree.insertFixup] at hr
  | f + 1, s', x, y, h, hr => by
    simp only [RbTree.insertFixup] at hr
    split at hr
    · split at hr
      · cases hr
        exact h.setColor _ _
      split at hr
      · cases hr
        exact (((h.rotateSubtree _ _).ite h).rotateSubtree _ _).setColor _ _ |>.setColor _ _
      · exact insertFixup (((h.setColor _ _).setColor _ _).setColor _ _) hr
    · cases hr
      exact h

lemma removeRoundBlack (h : SameKeys s s') (y z u v : ℕ) (d : Bool) :
    SameKeys s (removeRoundBlack s' y z u v d).1 := by
  unfold RbTree.removeRoundBlack
  split
  · exact (((h.rotateSubtree _ _).setColor _ _).setColor _ _).setColor _ _
  split
  · exact ((((h.rotateSubtree _ _).rotateSubtree _ _).setColor _ _).setColor _ _).setColor _ _
  simp only
  split
  · exact (h.setColor _ _).setColor _ _
  split
  · exact h.setColor _ _
  · exact h.setColor _ _

lemma removeRound (h : SameKeys s s') (y : ℕ) (d : Bool) :
    SameKeys s (removeRound s' y d).1 := by
  unfold RbTree.removeRound
  simp only
  split
  · exact (((h.rotateSubtree _ _).setColor _ _).setColor _ _).removeRoundBlack _ _ _ _ _
  · exact h.removeRoundBlack _ _ _ _ _

lemma removeFixup : ∀ {f : ℕ} {s' : Tree} {y : ℕ} {d : Bool}, SameKeys s s' →
    RbTree.removeFixup f s' y d = some s'' → SameKeys s s''
  | 0, _, _, _, _, hr => by simp [RbTree.removeFixup] at hr
  | f + 1, s', y, d, h, hr => by
    have hround := h.removeRound y d
    simp only [RbTree.removeFixup] at hr
    split at hr
    · rename_i heq
      cases hr
      rwa [heq] at hround
    · rename_i heq
      rw [heq] at hround
      exact removeFixup hround hr

lemma removeLeaf {f x y : ℕ} (h : SameKeys s s') (hr : RbTree.removeLeaf f s' x y = some s'') :
    SameKeys s s'' := by
  simp only [RbTree.removeLeaf] at hr
  split at hr
  · cases hr
    exact ((h.replaceChild _ _ _).setColor _ _).setParent _ _
  split at hr
  · cases hr
    exact h.setRoot _
  split at hr
  · cases hr
    exact h.setChild _ _ _
  · exact (h.setChild _ _ _).removeFixup hr

end SameKeys

lemma sameKeys_rbTreeRemoveNode {f x : ℕ} {s' : Tree} (h : rbTreeRemoveNode f s x = some s') :
    SameKeys s s' := by
  simp only [rbTreeRemoveNode] at h
  split at h
  · rw [Option.bind_eq_some_iff] at h
    obtain ⟨z, -, h⟩ := h
    exact ((SameKeys.refl s).exchange _ _ _).removeLeaf h
  · exact (SameKeys.refl s).removeLeaf h

lemma sameKeys_rbTreeLookupOrInsertNode {f x r : ℕ} {s' : Tree}
    (h : rbTreeLookupOrInsertNode f s x = some (s', r)) : SameKeys s s' := by
  have h₀ := ((SameKeys.refl s).setChild x false 0).setChild x true 0
  simp only [rbTreeLookupOrInsertNode] at h
  split at h
  · simp only [Option.some.injEq, Prod.mk.injEq] at h
    obtain ⟨rfl, -⟩ := h
    exact h₀.modify x (g := fun n => { n with rbParentAndColor := 0 }) fun _ => rfl
  · have h₁ := h₀.modify x (g := fun n => { n with rbParentAndColor := 1 }) fun _ => rfl
    rw [Option.bind_eq_some_iff] at h
    obtain ⟨y, -, h⟩ := h
    split at h
    · simp only [Option.some.injEq, Prod.mk.injEq] at h
      obtain ⟨rfl, -⟩ := h
      exact h₁
    · rw [Option.map_eq_some_iff] at h
      obtain ⟨s₂, hs₂, h⟩ := h
      cases h
      exact ((h₁.setParent _ _).setChild _ _ _).insertFixup hs₂

end KernelModel.RbTree
