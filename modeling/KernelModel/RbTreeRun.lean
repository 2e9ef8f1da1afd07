import KernelModel.RbTreeExchange

/-!
Removal of any node, and runs of insertions and removals.
-/

namespace KernelModel.RbTree

open RedBlack RedBlack.CTree

variable {s : Tree} {fs : List (Frame Label)}

/-! ### The successor -/

lemma leftmost_spec : ∀ {f : ℕ} {fs : List (Frame Label)} {t : CTree Label}, Holds s fs t →
    t ≠ .nil → t.toList.length ≤ f → ∃ gs c z Q, leftmost s f (ptr t) = some z.addr ∧
      t = plug gs (join false c z .nil Q) ∧ (around gs).1 = [] := by
  intro f
  induction f with
  | zero =>
    intro fs t _ hne hf
    cases t with
    | nil => exact absurd rfl hne
    | node c l a r => simp [toList] at hf
  | succ f ih =>
    intro fs t h hne hf
    obtain ⟨c, z, l, r, rfl⟩ := eq_join false t hne
    have hz := h.isNode
    rw [ptr_join, leftmost, hz.near]
    by_cases hl : ptr l = 0
    · rw [if_neg (by simpa using hl)]
      obtain rfl := (holds_join.mpr h).rep.eq_nil hl
      exact ⟨[], c, z, r, rfl, rfl, rfl⟩
    · rw [if_pos hl]
      have hlen := length_join false c z l r
      obtain ⟨gs, c', z', Q, hz', rfl, hgs⟩ := ih (holds_join.mpr h)
        (by rintro rfl; exact hl rfl) (by omega)
      refine ⟨gs ++ [⟨false, c, z, r⟩], c', z', Q, hz', ?_, ?_⟩
      · rw [plug_append]
        rfl
      · rw [around_append, hgs]
        rfl

lemma addrsAround_append (gs hs : List (Frame Label)) :
    addrsAround (gs ++ hs) = addrsAround gs ++ addrsAround hs := by
  induction gs with
  | nil => rfl
  | cons g gs ih => simp [addrsAround, ih]

lemma up_append_cons (gs : List (Frame Label)) (g : Frame Label) (hs : List (Frame Label)) :
    up (gs ++ g :: hs) ∈ addrsAround (gs ++ [g]) := by
  cases gs with
  | nil => simp [up, addrsAround]
  | cons f gs => simp [up, addrsAround]

lemma ptr_plug_mem (g : Frame Label) (gs : List (Frame Label)) (t : CTree Label) :
    ptr (plug (g :: gs) t) ∈ addrsAround (g :: gs) := by
  induction gs generalizing g t with
  | nil => simp [Frame.fill, addrsAround]
  | cons g' gs ih =>
    rw [plug_cons, addrsAround]
    exact List.mem_append.mpr (.inr (ih g' (g.fill t)))

lemma holds_append {gs hs : List (Frame Label)} {t : CTree Label} :
    Holds s (gs ++ hs) t ↔ Holds s hs (plug gs t) := by
  rw [holds_plug, plug_append, ← holds_plug]

lemma Holds.up_ne_zero {f : Frame Label} {t : CTree Label} (h : Holds s (f :: fs) t) :
    up (f :: fs) ≠ 0 := h.around.1.aligned.1

lemma Holds.pair {gs : List (Frame Label)} {cx cz : Bool} {x z : Label} {L Q : CTree Label}
    (h : Holds s (gs ++ ⟨true, cx, x, L⟩ :: fs) (join false cz z .nil Q)) :
    Pair s x.addr (up fs) z.addr (ptr L) (ptr (plug gs (join false cz z .nil Q))) (ptr Q)
      (up (gs ++ ⟨true, cx, x, L⟩ :: fs)) cx cz := by
  have hX := holds_join.mp (holds_append.mp h)
  have hz := h.isNode
  have hx := hX.isNode
  have hzf := h.fresh
  have hxf := hX.fresh
  have hxK : x.addr ∈ addrsAround (gs ++ ⟨true, cx, x, L⟩ :: fs) := by
    simp [addrsAround_append, addrsAround]
  have hLK : ∀ a ∈ addrs L, a ∈ addrsAround (gs ++ ⟨true, cx, x, L⟩ :: fs) := by
    intro a ha
    simp [addrsAround_append, addrsAround, ha]
  have hfsK : ∀ a ∈ addrsAround fs, a ∈ addrsAround (gs ++ ⟨true, cx, x, L⟩ :: fs) := by
    intro a ha
    simp [addrsAround_append, addrsAround, ha]
  have hsplit : addrsAround (gs ++ ⟨true, cx, x, L⟩ :: fs)
      = addrsAround (gs ++ [⟨true, cx, x, L⟩]) ++ addrsAround fs := by
    rw [← addrsAround_append, List.append_assoc]
    rfl
  have hwK := up_append_cons gs ⟨true, cx, x, L⟩ fs
  have hw0 : up (gs ++ ⟨true, cx, x, L⟩ :: fs) ≠ 0 := by
    cases gs with
    | nil => exact h.up_ne_zero
    | cons g gs => exact h.up_ne_zero
  have hdisj := hzf.nodup_around
  rw [hsplit, List.nodup_append'] at hdisj
  have hptr : ∀ {t : CTree Label} {a : ℕ}, a ≠ 0 → ptr t = a → a ∈ addrs t := by
    rintro t a ha rfl
    exact ptr_mem_addrs ha
  exact
    { wordX := hx.toWord
      wordZ := hz.toWord
      left := hx.far
      right := hx.near
      none := hz.near
      only := hz.far
      ne := fun he => hzf.around (he ▸ hxK)
      yx := fun he => hxf.around (he ▸ up_mem (he ▸ hx.aligned.1))
      yz := fun he => hzf.around (he ▸ hfsK _ (up_mem (he ▸ hz.aligned.1)))
      wz := fun he => hzf.around (he ▸ hsplit ▸ List.mem_append_left _ hwK)
      wy := fun he => hdisj.2.2 hwK (he ▸ up_mem (he ▸ hw0))
      near_iff := by
        cases gs with
        | nil => simp [up]
        | cons g gs =>
          constructor
          · intro he
            have hm := ptr_plug_mem g gs (join false cz z .nil Q)
            rw [← he] at hm
            exact absurd (by rw [addrsAround_append]; exact List.mem_append_left _ hm) hzf.around
          · intro he
            have hn := hzf.nodup_around
            rw [addrsAround_append, List.nodup_append'] at hn
            have hg : x.addr ∈ addrsAround (g :: gs) := he ▸ by simp [up, addrsAround]
            exact absurd (by simp [addrsAround]) (hn.2.2 hg)
      lx := fun he => hxf.right (hptr hx.aligned.1 he)
      lz := fun he => hzf.around (hLK _ (hptr hz.aligned.1 he))
      rx := fun he => hxf.left (hptr hx.aligned.1 he)
      qx := fun he => hzf.right_around (hptr hx.aligned.1 he) hxK
      qz := fun he => hzf.right (hptr hz.aligned.1 he)
      alignedX := hx.aligned
      alignedZ := hz.aligned
      parentW := hz.isParent }

/-! ### Removal -/

lemma length_le_toList (fs : List (Frame Label)) (t : CTree Label) :
    fs.length ≤ (plug fs t).toList.length := by
  have h1 := length_le_around fs
  have h2 := (addrs_plug fs t).length_eq
  rw [addrs, List.length_map, List.length_append] at h2
  omega

lemma Holds.nodup_toList {t : CTree Label} (h : Holds s fs t) : (plug fs t).toList.Nodup := by
  have hn := (addrs_plug fs t).nodup_iff.mpr h.nodup
  exact hn.of_map _

lemma erase_middle {x : Label} {U S : List Label} (h : (U ++ x :: S).Nodup) :
    (U ++ x :: S).erase x = U ++ S := by
  rw [List.nodup_append'] at h
  have hx : x ∉ U := fun hm => h.2.2 hm (List.mem_cons_self ..)
  rw [List.erase_append_right _ hx, List.erase_cons_head]

lemma map_swap {x z : Label} {U S : List Label} (h : (U ++ x :: z :: S).Nodup) :
    (U ++ x :: S).map (Equiv.swap x z) = (U ++ x :: z :: S).erase x := by
  rw [erase_middle h]
  rw [List.nodup_append', List.nodup_cons, List.nodup_cons] at h
  obtain ⟨-, ⟨hx, hz, -⟩, hd⟩ := h
  have hfix : ∀ l : List Label, x ∉ l → z ∉ l → l.map (Equiv.swap x z) = l := by
    intro l hxl hzl
    refine (List.map_congr_left fun a ha => ?_).trans (List.map_id l)
    exact Equiv.swap_apply_of_ne_of_ne (fun he => hxl (he ▸ ha)) (fun he => hzl (he ▸ ha))
  rw [List.map_append, List.map_cons, Equiv.swap_apply_left,
    hfix U (fun hm => hd hm (by simp)) (fun hm => hd hm (by simp)),
    hfix S (fun hm => hx (List.mem_cons_of_mem _ hm)) hz]

lemma rbTreeRemoveNode_one {f : ℕ} {d c : Bool} {x : Label} {A : CTree Label} {n : ℕ}
    (h : Holds s fs (join d c x A .nil)) (hb : Balanced (plug fs (join d c x A .nil)) n)
    (hf : (plug fs (join d c x A .nil)).toList.length ≤ f) :
    ∃ s', rbTreeRemoveNode f s x.addr = some s' ∧
      Represents s' ((plug fs (join d c x A .nil)).toList.erase x) := by
  have hx := h.isNode
  have hno : ¬ (child s x.addr false ≠ 0 ∧ child s x.addr true ≠ 0) := by
    have hfar := hx.far
    cases d
    · exact fun hc => hc.2 hfar
    · exact fun hc => hc.1 hfar
  obtain ⟨m, hm, hfits, -⟩ := fits_of_plug _ hb
  have hlen : fs.length < f + 1 := by
    have := length_le_toList fs (join d c x A .nil)
    omega
  obtain ⟨s', hs', hrep⟩ := removeLeaf_spec h hm hfits hlen
  refine ⟨s', ?_, ?_⟩
  · rw [rbTreeRemoveNode, if_neg hno, hx.getParent_eq, hs']
  · have hn := h.nodup_toList
    rw [toList_plug] at hrep hn ⊢
    rw [toList_join] at hn ⊢
    cases d
    · simp only [Bool.false_eq_true, if_false, toList] at hn ⊢
      rw [← List.append_assoc, List.append_assoc, List.cons_append, List.nil_append,
        erase_middle (by simpa using hn)]
      exact hrep
    · simp only [if_true, toList, List.nil_append, List.append_assoc, List.cons_append] at hn ⊢
      rw [erase_middle hn]
      rwa [List.append_assoc] at hrep

lemma rbTreeRemoveNode_two {f : ℕ} {c : Bool} {x : Label} {A B : CTree Label} {n : ℕ}
    (h : Holds s fs (.node c A x B)) (hA : A ≠ .nil) (hB : B ≠ .nil)
    (hb : Balanced (plug fs (.node c A x B)) n)
    (hf : (plug fs (.node c A x B)).toList.length ≤ f) :
    ∃ s', rbTreeRemoveNode f s x.addr = some s' ∧
      Represents s' ((plug fs (.node c A x B)).toList.erase x) := by
  have hAB : Holds s fs (join true c x B A) := h
  have hx := hAB.isNode
  have hrB := holds_join.mpr hAB
  have hB0 : ptr B ≠ 0 := fun h0 => hB (hrB.rep.eq_nil h0)
  have hA0 : ptr A ≠ 0 := fun h0 => hA ((rep_join.mp hAB.rep).2.2.eq_nil h0)
  have hlenB : B.toList.length ≤ f := by
    rw [toList_plug] at hf
    simp only [toList, List.length_append, List.length_cons] at hf
    omega
  obtain ⟨gs, cz, z, Q, hleft, rfl, hgs⟩ := leftmost_spec hrB hB hlenB
  have hz := holds_append.mpr hrB
  have hpair := hz.pair
  have htree : plug fs (.node c A x (plug gs (join false cz z .nil Q)))
      = plug (gs ++ ⟨true, c, x, A⟩ :: fs) (join false cz z .nil Q) := by
    rw [plug_append]
    rfl
  rw [htree] at hb hf ⊢
  have hlist : (plug (gs ++ ⟨true, c, x, A⟩ :: fs) (join false cz z .nil Q)).toList
      = ((around fs).1 ++ A.toList) ++ x :: z ::
        (Q.toList ++ ((around gs).2 ++ (around fs).2)) := by
    rw [toList_plug, around_append, hgs]
    simp [around, toList_join, toList]
  have hw0 : up (gs ++ ⟨true, c, x, A⟩ :: fs) ≠ 0 := by
    cases gs with
    | nil => exact hz.up_ne_zero
    | cons g gs => exact hz.up_ne_zero
  -- the exchange, and the removal of the renamed node
  have hex := hpair.holds (holds_plug.mp hz) (by rw [hlist]; simp) (by rw [hlist]; simp) hw0
  have hb' := hb.map (Equiv.swap x z)
  rw [map_plug, map_join, Equiv.swap_apply_right, map_nil] at hex hb'
  have hex' := holds_plug.mpr hex
  obtain ⟨m, hm, hfits, -⟩ := fits_of_plug _ hb'
  have hlen : ((gs ++ ⟨true, c, x, A⟩ :: fs).map (Frame.map (Equiv.swap x z))).length < f + 1 := by
    have := length_le_toList (gs ++ ⟨true, c, x, A⟩ :: fs) (join false cz z .nil Q)
    rw [List.length_map]
    omega
  obtain ⟨s', hs', hrep⟩ := removeLeaf_spec (d := true) hex' hm hfits hlen
  refine ⟨s', ?_, ?_⟩
  · have hboth : child s x.addr false ≠ 0 ∧ child s x.addr true ≠ 0 := by
      have hfar : child s x.addr false = ptr A := hx.far
      rw [hfar, hx.near]
      exact ⟨hA0, hB0⟩
    rw [rbTreeRemoveNode, if_pos hboth, hx.near, hleft, Option.bind_some, hx.getParent_eq]
    simp only [hex'.isNode.getParent_eq, hs']
  · have hn := hz.nodup_toList
    rw [hlist] at hn ⊢
    rw [← map_swap hn]
    rw [toList_plug, around_map, around_append, hgs, toList_map] at hrep
    simpa [around] using hrep

/-- **Removal** of any node. -/
theorem rbTreeRemoveNode_spec {f : ℕ} {L : List Label} {x : Label} (h : Represents s L)
    (hx : x ∈ L) (hf : L.length ≤ f) :
    ∃ s', rbTreeRemoveNode f s x.addr = some s' ∧ Represents s' (L.erase x) := by
  obtain ⟨t, n, ht, hb, rfl⟩ := h
  obtain ⟨fs, c, A, B, rfl⟩ := exists_place hx
  have hx' := holds_plug.mpr ht
  by_cases hA : A = .nil
  · subst hA
    exact rbTreeRemoveNode_one (d := true) hx' hb hf
  by_cases hB : B = .nil
  · subst hB
    exact rbTreeRemoveNode_one (d := false) hx' hb hf
  · exact rbTreeRemoveNode_two hx' hA hB hb hf

/-! ### Runs -/

/-- What the kernel does with a tree. A node's key is set before the node is inserted. -/
inductive Op
  | insertNode (x : Label)
  | lookupOrInsertNode (x : Label)
  | removeNode (x : Label)

def setKey (s : Tree) (x : Label) : Tree := s.modify x.addr fun n => { n with key := x.key }

def step (f : ℕ) (s : Tree) : Op → Option Tree
  | .insertNode x => rbTreeInsertNode f (setKey s x) x.addr
  | .lookupOrInsertNode x => (rbTreeLookupOrInsertNode f (setKey s x) x.addr).map Prod.fst
  | .removeNode x => rbTreeRemoveNode f s x.addr

def run (f : ℕ) : Tree → List Op → Option Tree
  | s, [] => some s
  | s, o :: os => (step f s o).bind fun s => run f s os

/-- A node that is not in the tree, with a key that is not in it. -/
def Op.Inserts (N : List Label) (x : Label) : Prop :=
  Aligned x.addr ∧ x.addr ∉ N.map Label.addr ∧ x.key ∉ N.map Label.key

/-- The nodes after an operation, if it is called as it has to be. -/
inductive Op.Changes : List Label → Op → List Label → Prop
  | insertNode {N : List Label} {x : Label} (h : Inserts N x) : Changes N (.insertNode x) (x :: N)
  | lookupOrInsertNode {N : List Label} {x : Label} (h : Inserts N x) :
    Changes N (.lookupOrInsertNode x) (x :: N)
  | removeNode {N : List Label} {x : Label} (h : x ∈ N) : Changes N (.removeNode x) (N.erase x)

/-- A sequence of such calls: the inserted nodes without the removed ones. -/
inductive Op.Leaves : List Label → List Op → List Label → Prop
  | nil (N : List Label) : Leaves N [] N
  | cons {N N' N'' : List Label} {o : Op} {os : List Op} (h : Changes N o N')
    (hs : Leaves N' os N'') : Leaves N (o :: os) N''

/-- The heap holds a search tree of exactly the nodes `N`, each once, with all links in place, no
red node below a red one and equally many black nodes on every way down. -/
def IsRbTree (s : Tree) (N : List Label) : Prop :=
  ∃ t n, s.root = ptr t ∧ Rep s 0 t ∧ (addrs t).Nodup ∧ Balanced t n ∧ Sorted t.toList ∧
    t.toList.Perm N

lemma isRbTree_iff {N : List Label} :
    IsRbTree s N ↔ ∃ L, Represents s L ∧ Sorted L ∧ L.Perm N := by
  constructor
  · rintro ⟨t, n, hroot, hrep, hn, hb, hs, hp⟩
    exact ⟨t.toList, ⟨t, n, ⟨hroot, hrep, by rwa [addrsAround, List.append_nil]⟩, hb, rfl⟩, hs, hp⟩
  · rintro ⟨L, ⟨t, n, ht, hb, rfl⟩, hs, hp⟩
    have hn := ht.nodup
    rw [addrsAround, List.append_nil] at hn
    exact ⟨t, n, ht.around, ht.rep, hn, hb, hs, hp⟩

lemma Represents.setKey {L : List Label} {x : Label} (h : Represents s L)
    (hx : x.addr ∉ L.map Label.addr) : Represents (setKey s x) L := by
  obtain ⟨t, n, ht, hb, rfl⟩ := h
  refine ⟨t, n, ht.modify ?_ _, hb, rfl⟩
  rwa [addrsAround, List.append_nil]

lemma IsRbTree.insert {f : ℕ} {N : List Label} {x : Label} (h : IsRbTree s N)
    (hx : Op.Inserts N x) (hf : N.length < f) :
    ∃ s', rbTreeLookupOrInsertNode f (setKey s x) x.addr = some (s', 0) ∧ IsRbTree s' (x :: N) := by
  obtain ⟨L, hL, hs, hp⟩ := isRbTree_iff.mp h
  obtain ⟨hal, haddr, hkey⟩ := hx
  have haddr' : x.addr ∉ L.map Label.addr := fun hm => haddr ((hp.map _).mem_iff.mp hm)
  have hkey' : ∀ b ∈ L, x.key ≠ b.key := fun b hb he =>
    hkey ((hp.map _).mem_iff.mp (he ▸ List.mem_map_of_mem hb))
  obtain ⟨s', L', hs', hL', hsL, hpL⟩ := rbTreeLookupOrInsertNode_spec (hL.setKey haddr') hs hal
    (by simp [setKey, Tree.modify]) haddr' hkey' (hp.length_eq ▸ hf)
  exact ⟨s', hs', isRbTree_iff.mpr ⟨L', hL', hsL, hpL.trans (hp.cons x)⟩⟩

lemma step_isRbTree {f : ℕ} {N N' : List Label} {o : Op} (h : IsRbTree s N)
    (ho : o.Changes N N') (hf : N.length < f) :
    ∃ s', step f s o = some s' ∧ IsRbTree s' N' := by
  cases ho with
  | insertNode hx =>
    obtain ⟨s', hs', hN⟩ := h.insert hx hf
    exact ⟨s', by simp [step, rbTreeInsertNode, hs'], hN⟩
  | lookupOrInsertNode hx =>
    obtain ⟨s', hs', hN⟩ := h.insert hx hf
    exact ⟨s', by simp [step, hs'], hN⟩
  | removeNode hx =>
    obtain ⟨L, hL, hs, hp⟩ := isRbTree_iff.mp h
    obtain ⟨s', hs', hL'⟩ := rbTreeRemoveNode_spec hL (hp.mem_iff.mpr hx)
      (hp.length_eq ▸ hf.le)
    exact ⟨s', hs', isRbTree_iff.mpr ⟨_, hL', hs.sublist List.erase_sublist, hp.erase _⟩⟩

lemma Op.Changes.length_le {N N' : List Label} {o : Op} (h : o.Changes N N') :
    N'.length ≤ N.length + 1 := by
  cases h with
  | insertNode => simp
  | lookupOrInsertNode => simp
  | removeNode hx =>
    rw [List.length_erase_of_mem hx]
    omega

lemma run_isRbTree_from {f : ℕ} {N N' : List Label} {os : List Op} (ho : Op.Leaves N os N') :
    ∀ {s : Tree}, IsRbTree s N → N.length + os.length < f →
    ∃ s', run f s os = some s' ∧ IsRbTree s' N' := by
  induction ho with
  | nil N => exact fun h _ => ⟨_, rfl, h⟩
  | cons hc _ ih =>
    intro s h hf
    have hlen := hc.length_le
    rw [List.length_cons] at hf
    obtain ⟨s₁, hs₁, h₁⟩ := step_isRbTree (f := f) h hc (by omega)
    obtain ⟨s', hs', h'⟩ := ih h₁ (by omega)
    exact ⟨s', by rw [run, hs₁, Option.bind_some, hs'], h'⟩

/-- **Every sequence of insertions and removals** runs to its end and leaves a red-black tree of
the inserted nodes without the removed ones. -/
theorem run_isRbTree {f : ℕ} {os : List Op} {N : List Label} (heap : ℕ → Node)
    (ho : Op.Leaves [] os N) (hf : os.length < f) :
    ∃ s, run f (rbTreeInit heap) os = some s ∧ IsRbTree s N :=
  run_isRbTree_from ho ⟨.nil, 0, rfl, trivial, by simp [addrs, toList], .nil, List.Pairwise.nil,
    .refl _⟩ (by simpa using hf)

/-- Four nodes, the last of which makes the root red. -/
def fourNodes : List Op :=
  [.insertNode ⟨16, 2⟩, .insertNode ⟨32, 1⟩, .lookupOrInsertNode ⟨48, 3⟩, .insertNode ⟨64, 4⟩]

lemma leaves_fourNodes {os : List Op} {N : List Label}
    (h : Op.Leaves [⟨64, 4⟩, ⟨48, 3⟩, ⟨32, 1⟩, ⟨16, 2⟩] os N) :
    Op.Leaves [] (fourNodes ++ os) N := by
  refine .cons (.insertNode ?_) (.cons (.insertNode ?_) (.cons (.lookupOrInsertNode ?_)
    (.cons (.insertNode ?_) h))) <;> norm_num [Op.Inserts, Aligned]

theorem run_four_nodes_isRbTree : ∃ s, run 6 (rbTreeInit fun _ => ⟨0, 0, fun _ => 0⟩)
    (fourNodes ++ [.removeNode ⟨16, 2⟩]) = some s ∧ IsRbTree s [⟨64, 4⟩, ⟨48, 3⟩, ⟨32, 1⟩] :=
  run_isRbTree _ (leaves_fourNodes (.cons (.removeNode (by simp)) (.nil _))) (by decide)

/-- The root is not always black: a black root with two red children turns red when a node is
inserted below them. -/
theorem run_four_nodes_root_red :
    Op.Leaves [] fourNodes [⟨64, 4⟩, ⟨48, 3⟩, ⟨32, 1⟩, ⟨16, 2⟩] ∧
    (run 5 (rbTreeInit fun _ => ⟨0, 0, fun _ => 0⟩) fourNodes).map
      (fun s => (s.root, getColor s s.root)) = some (16, true) :=
  ⟨leaves_fourNodes (.nil _), by decide +kernel⟩

end KernelModel.RbTree
