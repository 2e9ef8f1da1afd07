import KernelModel.RbTreeLookup

/-!
The queries of the red-black tree: the node with a key, the first node from a key on, the next
node, and what the insertion does with a key that is there already.
-/

namespace KernelModel.RbTree

open RedBlack RedBlack.CTree

variable {s : Tree} {fs : List (Frame Label)}

/-- The loop of `rb_tree_lookup_node`. -/
def lookupNode (s : Tree) (key : ℕ) : ℕ → ℕ → Option ℕ
  | 0, _ => none
  | f + 1, x =>
    if x = 0 then some 0
    else if (s.heap x).key = key then some x
    else lookupNode s key f (child s x ((s.heap x).key < key))

def rbTreeLookupNode (f : ℕ) (s : Tree) (key : ℕ) : Option ℕ := lookupNode s key f s.root

/-- The loop that goes up from `x` until it comes from the left. -/
def climbRight (s : Tree) : ℕ → ℕ → Option ℕ
  | 0, _ => none
  | f + 1, y =>
    let x := getParent s y
    if x ≠ 0 ∧ y = child s x true then climbRight s f x else some x

/-- The loop of `rb_tree_lookup_increasing_node`; `g` bounds the rounds of the loops in it. -/
def lookupIncreasing (s : Tree) (key g : ℕ) : ℕ → ℕ → Option ℕ
  | 0, _ => none
  | f + 1, x =>
    if x ≠ 0 ∧ (s.heap x).key ≠ key then
      let y := child s x ((s.heap x).key < key)
      if y ≠ 0 then lookupIncreasing s key g f y
      else if (s.heap x).key > key then some x
      else if child s x true ≠ 0 then leftmost s g (child s x true)
      else climbRight s g x
    else some x

def rbTreeLookupIncreasingNode (f : ℕ) (s : Tree) (key : ℕ) : Option ℕ :=
  lookupIncreasing s key f f s.root

def rbTreeIterNext (f : ℕ) (s : Tree) (x : ℕ) : Option ℕ :=
  if child s x true ≠ 0 then leftmost s f (child s x true) else climbRight s f x

/-- The nodes that `rb_tree_iter_next` visits from `x` on. -/
def iterate (f : ℕ) (s : Tree) : ℕ → ℕ → Option (List ℕ)
  | 0, _ => none
  | g + 1, x =>
    if x = 0 then some []
    else (rbTreeIterNext f s x).bind fun y => (iterate f s g y).map (x :: ·)

/-- `for (x=rb_tree_iter_start(tree);x;x=rb_tree_iter_next(tree,x))` -/
def rbTreeIterate (f : ℕ) (s : Tree) : Option (List ℕ) :=
  (rbTreeIterStart f s).bind (iterate f s f)

/-! ### The node with a key -/

/-- The pointer to the node with a key, null if there is none. -/
def IsNodeWith (L : List Label) (k a : ℕ) : Prop :=
  (a = 0 ∧ ∀ b ∈ L, b.key ≠ k) ∨ ∃ x ∈ L, x.addr = a ∧ x.key = k

lemma Sorted.right {d c : Bool} {a : Label} {t u : CTree Label}
    (h : Sorted (join d c a t u).toList) : Sorted u.toList := by
  rw [← join_not] at h
  exact h.left

lemma Sorted.ne_far {c : Bool} {y : Label} {t u : CTree Label} {k : ℕ}
    (h : Sorted (join (decide (y.key < k)) c y t u).toList) :
    ∀ b ∈ u.toList, b.key ≠ k := by
  intro b hb
  rw [Sorted, toList_join] at h
  by_cases hlt : y.key < k
  · simp only [hlt, decide_true, if_true] at h
    have hby := (List.pairwise_append.mp h).2.2 b hb y (List.mem_cons_self ..)
    omega
  · simp only [hlt, decide_false, Bool.false_eq_true, if_false] at h
    have hyb := (List.pairwise_cons.mp (List.pairwise_append.mp h).2.1).1 b hb
    omega

lemma eq_join_toward (k : ℕ) {t : CTree Label} (h : t ≠ .nil) :
    ∃ c y t' u, t = join (decide (Label.key y < k)) c y t' u := by
  obtain ⟨c, y, l, r, rfl⟩ := eq_join false t h
  by_cases hlt : y.key < k
  · exact ⟨c, y, r, l, by simp [hlt, join]⟩
  · exact ⟨c, y, l, r, by simp [hlt]⟩

lemma lookupNode_spec {k : ℕ} : ∀ {f : ℕ} {fs : List (Frame Label)} {t : CTree Label},
    Holds s fs t → Sorted t.toList → t.toList.length < f →
    ∃ a, lookupNode s k f (ptr t) = some a ∧ IsNodeWith t.toList k a := by
  intro f
  induction f with
  | zero => intro fs t _ _ hf; omega
  | succ f ih =>
    intro fs t h hs hf
    by_cases hne : t = .nil
    · subst hne
      exact ⟨0, by simp [lookupNode], .inl ⟨rfl, by simp [toList]⟩⟩
    obtain ⟨c, y, t, u, rfl⟩ := eq_join_toward k hne
    have hy := h.isNode
    rw [ptr_join, lookupNode, if_neg hy.aligned.1, hy.key]
    by_cases hk : y.key = k
    · exact ⟨y.addr, if_pos hk, .inr ⟨y, mem_join.mpr (.inl rfl), rfl, hk⟩⟩
    · have hlen := length_join (decide (y.key < k)) c y t u
      obtain ⟨a, ha, hspec⟩ := ih (holds_join.mpr h) hs.left (by omega)
      refine ⟨a, by rw [if_neg hk, hy.near, ha], ?_⟩
      rcases hspec with ⟨h0, hall⟩ | ⟨x, hx, hxa, hxk⟩
      · refine .inl ⟨h0, fun b hb => ?_⟩
        rcases mem_join.mp hb with rfl | hb | hb
        · exact hk
        · exact hall b hb
        · exact hs.ne_far b hb
      · exact .inr ⟨x, mem_join.mpr (.inr (.inl hx)), hxa, hxk⟩

lemma IsNodeWith.perm {L N : List Label} {k a : ℕ} (h : IsNodeWith L k a) (hp : L.Perm N) :
    IsNodeWith N k a := by
  rcases h with ⟨ha, hall⟩ | ⟨x, hx, hxa, hxk⟩
  · exact .inl ⟨ha, fun b hb => hall b (hp.mem_iff.mpr hb)⟩
  · exact .inr ⟨x, hp.mem_iff.mp hx, hxa, hxk⟩

lemma rbTreeLookupNode_spec {f : ℕ} {N : List Label} (h : IsRbTree s N) (k : ℕ)
    (hf : N.length < f) : ∃ a, rbTreeLookupNode f s k = some a ∧ IsNodeWith N k a := by
  obtain ⟨L, ⟨t, n, ht, -, rfl⟩, hs, hp⟩ := isRbTree_iff.mp h
  have hroot : s.root = ptr t := ht.around
  rw [rbTreeLookupNode, hroot]
  obtain ⟨a, ha, hspec⟩ := lookupNode_spec (k := k) ht hs (hp.length_eq ▸ hf)
  exact ⟨a, ha, hspec.perm hp⟩

/-! ### The first node from a key on -/

/-- The address of the first node, or null. -/
def firstAddr (L : List Label) : ℕ := (L.head?.map Label.addr).getD 0

/-- The pointer to the first of the nodes with a key from `k` on, null if there is none. -/
def IsFirstFrom (L : List Label) (k a : ℕ) : Prop :=
  (a = 0 ∧ ∀ b ∈ L, b.key < k) ∨
    ∃ x ∈ L, x.addr = a ∧ k ≤ x.key ∧ ∀ b ∈ L, k ≤ b.key → x.key ≤ b.key

/-- **The way up** from a node ends at the node behind its subtree. -/
lemma climbRight_spec : ∀ {f : ℕ} {fs : List (Frame Label)} {t : CTree Label}, Holds s fs t →
    t ≠ .nil → fs.length < f → climbRight s f (ptr t) = some (firstAddr (around fs).2) := by
  intro f
  induction f with
  | zero => intro fs t _ _ hf; omega
  | succ f ih =>
    intro fs t h hne hf
    have hpar : getParent s (ptr t) = up fs := by
      obtain ⟨c, a, l, r, rfl⟩ := eq_join false t hne
      rw [ptr_join, h.isNode.getParent_eq]
    have h0 : ptr t ≠ 0 := fun h0 => hne (h.rep.eq_nil h0)
    rw [climbRight, hpar]
    cases fs with
    | nil => simp [up, around, firstAddr]
    | cons g gs =>
      have hg := h.around.1
      have hside := h.side h0
      have hup := holds_cons.mp h
      rw [up]
      cases hd : g.dir
      · have hne : ptr t ≠ child s g.label.addr true := by
          rw [hd] at hside
          exact of_decide_eq_false hside
        rw [if_neg (fun hc => hne hc.2), around, hd]
        simp [firstAddr]
      · -- from the right: the node above lies before
        rw [hd] at hg
        rw [if_pos ⟨hg.aligned.1, hg.near.symm⟩]
        have hfill : ptr (g.fill t) = g.label.addr := by rw [Frame.fill, ptr_join]
        have hnext := ih hup (fun he => hg.aligned.1 (by rw [← hfill, he, ptr_nil]))
          (by rw [List.length_cons] at hf; omega)
        rw [hfill] at hnext
        rw [hnext, around, hd]
        simp

/-- The first node behind a place is the first one from a key on that belongs there. -/
lemma Between.isFirstFrom {k : ℕ} (h : Between fs k) (hs : Sorted (plug fs .nil).toList) :
    IsFirstFrom (plug fs .nil).toList k (firstAddr (around fs).2) := by
  rw [toList_plug, toList, List.append_nil] at hs ⊢
  cases hP : (around fs).2 with
  | nil =>
    refine .inl ⟨rfl, fun b hb => ?_⟩
    rw [List.append_nil] at hb
    exact h.before b hb
  | cons x P =>
    have hx : x ∈ (around fs).2 := by simp [hP]
    refine .inr ⟨x, List.mem_append_right _ (List.mem_cons_self ..), rfl, (h.after x hx).le, ?_⟩
    intro b hb hbk
    rcases List.mem_append.mp hb with hb | hb
    · exact absurd (h.before b hb) (by omega)
    · rw [Sorted, hP, List.pairwise_append, List.pairwise_cons] at hs
      rcases List.mem_cons.mp hb with rfl | hb
      · exact le_rfl
      · exact (hs.2.1.1 b hb).le

lemma lookupIncreasing_spec {k g : ℕ} : ∀ {f : ℕ} {fs : List (Frame Label)} {t : CTree Label},
    Holds s fs t → t ≠ .nil → Sorted (plug fs t).toList → Sorted t.toList → Between fs k →
    t.toList.length ≤ f → (plug fs t).toList.length < g →
    ∃ a, lookupIncreasing s k g f (ptr t) = some a ∧ IsFirstFrom (plug fs t).toList k a := by
  intro f
  induction f with
  | zero =>
    intro fs t _ hne _ _ _ hf _
    cases t with
    | nil => exact absurd rfl hne
    | node c l a r => simp [toList] at hf
  | succ f ih =>
    intro fs t h hne hS hs hb hf hg
    obtain ⟨c, y, t, u, rfl⟩ := eq_join_toward k hne
    have hy := h.isNode
    have hmem : y ∈ (plug fs (join (decide (y.key < k)) c y t u)).toList := by
      rw [toList_plug]
      simp [mem_join]
    rw [ptr_join, lookupIncreasing, hy.key, hy.near]
    by_cases hk : y.key = k
    · rw [if_neg (fun hc => hc.2 hk)]
      exact ⟨y.addr, rfl, .inr ⟨y, hmem, rfl, hk.ge, fun b _ hb => hk ▸ hb⟩⟩
    rw [if_pos ⟨hy.aligned.1, hk⟩]
    have hb' := hb.cons hs (Ne.symm hk)
    have ht := holds_join.mpr h
    by_cases h0 : ptr t = 0
    · obtain rfl := ht.rep.eq_nil h0
      have hfirst := hb'.isFirstFrom hS
      rw [if_neg (fun hc => hc h0)]
      by_cases hgt : y.key > k
      · have hlt : ¬y.key < k := by omega
        rw [if_pos hgt]
        refine ⟨y.addr, rfl, ?_⟩
        simpa [around, hlt, firstAddr, Frame.fill] using hfirst
      · have hlt : y.key < k := by omega
        have hnear := hy.near
        simp only [hlt, decide_true] at hnear
        rw [if_neg hgt, hnear, if_neg (fun hc => hc h0)]
        have hlen := length_le_toList fs (join (decide (y.key < k)) c y .nil u)
        have hup := climbRight_spec (f := g) h hne (by omega)
        rw [ptr_join] at hup
        refine ⟨_, hup, ?_⟩
        simpa [around, hlt, Frame.fill] using hfirst
    · rw [if_pos h0]
      have hlen := length_join (decide (y.key < k)) c y t u
      exact ih ht (by rintro rfl; exact h0 rfl) hS hs.left hb' (by omega) hg

lemma IsFirstFrom.perm {L N : List Label} {k a : ℕ} (h : IsFirstFrom L k a) (hp : L.Perm N) :
    IsFirstFrom N k a := by
  rcases h with ⟨ha, hall⟩ | ⟨x, hx, hxa, hxk, hall⟩
  · exact .inl ⟨ha, fun b hb => hall b (hp.mem_iff.mpr hb)⟩
  · exact .inr ⟨x, hp.mem_iff.mp hx, hxa, hxk, fun b hb => hall b (hp.mem_iff.mpr hb)⟩

/-- **The lookup** finds the first node from the key on. -/
lemma rbTreeLookupIncreasingNode_spec {f : ℕ} {N : List Label} (h : IsRbTree s N) (k : ℕ)
    (hf : N.length < f) :
    ∃ a, rbTreeLookupIncreasingNode f s k = some a ∧ IsFirstFrom N k a := by
  obtain ⟨L, ⟨t, n, ht, -, rfl⟩, hs, hp⟩ := isRbTree_iff.mp h
  have hroot : s.root = ptr t := ht.around
  rw [rbTreeLookupIncreasingNode, hroot]
  by_cases hne : t = .nil
  · subst hne
    obtain ⟨f, rfl⟩ : ∃ g, f = g + 1 := ⟨f - 1, by omega⟩
    refine ⟨0, by simp [lookupIncreasing], .inl ⟨rfl, fun b hb => ?_⟩⟩
    exact absurd (hp.mem_iff.mpr hb) (by simp [toList])
  · have hlen := hp.length_eq
    obtain ⟨a, ha, hfirst⟩ := lookupIncreasing_spec (k := k) (g := f) (f := f) ht hne hs hs
      ⟨by simp [around], by simp [around]⟩ (by omega) (by rw [plug_nil]; omega)
    exact ⟨a, ha, hfirst.perm hp⟩

/-! ### The next node -/

/-- **The next node** is the one behind `x`, null behind the last one. -/
lemma rbTreeIterNext_spec {f : ℕ} {t : CTree Label} {P R : List Label} {x : Label}
    (h : Holds s [] t) (hL : t.toList = P ++ x :: R) (hf : t.toList.length < f) :
    rbTreeIterNext f s x.addr = some (firstAddr R) := by
  obtain ⟨fs, c, l, r, rfl⟩ := exists_place (show x ∈ t.toList by rw [hL]; simp)
  have hx : Holds s fs (join true c x r l) := holds_plug.mpr h
  have hnode := hx.isNode
  have hnodup : (P ++ x :: R).Nodup := hL ▸ hx.nodup_toList
  -- what lies behind `x` in the list is what lies behind it in the tree
  have hR : R = r.toList ++ (around fs).2 := by
    have hlist : P ++ x :: R = ((around fs).1 ++ l.toList) ++ x :: (r.toList ++ (around fs).2) := by
      rw [← hL, toList_plug]
      simp [toList]
    obtain ⟨-, hrest, hdisj⟩ := List.nodup_append'.mp hnodup
    have hbefore : x ∉ P := fun hm => hdisj hm (List.mem_cons_self ..)
    have hbehind : x ∉ R := (List.nodup_cons.mp hrest).1
    exact ((List.append_cons_inj_of_notMem hbefore hbehind).mp hlist).2.2
  have hlen := length_le_toList fs (.node c l x r)
  rw [rbTreeIterNext, hnode.near]
  by_cases h0 : ptr r = 0
  · obtain rfl := (holds_join.mpr hx).rep.eq_nil h0
    have hup := climbRight_spec (f := f) hx (by simp [join]) (by omega)
    rw [ptr_join] at hup
    rw [if_neg (fun hc => hc h0), hup, hR, toList, List.nil_append]
  · have hrlen : r.toList.length ≤ f := by
      rw [hL, hR] at hf
      simp only [List.length_append, List.length_cons] at hf
      omega
    obtain ⟨gs, c', z, Q, hz, rfl, hgs⟩ := leftmost_spec (holds_join.mpr hx)
      (by rintro rfl; exact h0 rfl) hrlen
    rw [if_pos h0, hz, hR, toList_plug, hgs]
    simp [join, toList, firstAddr]

lemma iterate_spec {f : ℕ} {t : CTree Label} (h : Holds s [] t) (hf : t.toList.length < f) :
    ∀ {g : ℕ} {P R : List Label}, t.toList = P ++ R → R.length < g →
      iterate f s g (firstAddr R) = some (R.map Label.addr) := by
  intro g
  induction g with
  | zero => intro P R _ hg; omega
  | succ g ih =>
    intro P R hL hg
    cases R with
    | nil => simp [iterate, firstAddr]
    | cons x R =>
      have h0 : x.addr ≠ 0 := (h.rep.isNode x (hL ▸ by simp)).1.1
      have hrest := ih (P := P ++ [x]) (R := R) (by simpa using hL)
        (by simpa using Nat.lt_of_succ_lt_succ hg)
      show iterate f s (g + 1) x.addr = _
      rw [iterate, if_neg h0, rbTreeIterNext_spec h hL hf, Option.bind_some, hrest]
      rfl

lemma Holds.firstAddr_eq {f : ℕ} {t : CTree Label} (h : Holds s [] t)
    (hf : t.toList.length ≤ f) : rbTreeIterStart f s = some (firstAddr t.toList) := by
  have hroot : s.root = ptr t := h.around
  rw [rbTreeIterStart, hroot]
  by_cases hne : t = .nil
  · subst hne
    rfl
  · obtain ⟨gs, c, z, Q, hz, rfl, hgs⟩ := leftmost_spec h hne hf
    rw [if_neg (fun h0 => hne (h.rep.eq_nil h0)), hz, toList_plug, hgs]
    simp [join, toList, firstAddr]

/-- **The iteration** visits every node once, in the order of the keys. -/
lemma rbTreeIterate_spec {f : ℕ} {N : List Label} (h : IsRbTree s N) (hf : N.length < f) :
    ∃ L, rbTreeIterate f s = some (L.map Label.addr) ∧ L.Perm N ∧ Sorted L := by
  obtain ⟨L, ⟨t, n, ht, -, rfl⟩, hs, hp⟩ := isRbTree_iff.mp h
  have hlen : t.toList.length < f := hp.length_eq ▸ hf
  refine ⟨t.toList, ?_, hp, hs⟩
  rw [rbTreeIterate, ht.firstAddr_eq hlen.le, Option.bind_some]
  exact iterate_spec ht hlen (P := []) rfl hlen

/-! ### A key that is there already -/

lemma insertDescend_present {k : ℕ} : ∀ {f : ℕ} {fs : List (Frame Label)} {t : CTree Label},
    Holds s fs t → t ≠ .nil → Sorted t.toList → (∃ b ∈ t.toList, b.key = k) →
    t.toList.length < f → ∃ y ∈ t.toList, insertDescend s k f (ptr t) = some y.addr ∧
      y.key = k := by
  intro f
  induction f with
  | zero => intro fs t _ _ _ _ hf; omega
  | succ f ih =>
    intro fs t h hne hs hk hf
    obtain ⟨c, y, t, u, rfl⟩ := eq_join_toward k hne
    have hy := h.isNode
    have ht := holds_join.mpr h
    have hmem : y ∈ (join (decide (y.key < k)) c y t u).toList := mem_join.mpr (.inl rfl)
    rw [ptr_join, insertDescend, hy.key, hy.near]
    by_cases hky : k = y.key
    · refine ⟨y, hmem, ?_, hky.symm⟩
      split
      · rfl
      · rfl
    · -- the node with the key lies on the side of the key
      have hdeep : ∃ b ∈ t.toList, b.key = k := by
        obtain ⟨b, hb, hbk⟩ := hk
        rcases mem_join.mp hb with rfl | hb | hb
        · exact absurd hbk.symm hky
        · exact ⟨b, hb, hbk⟩
        · exact absurd hbk (hs.ne_far b hb)
      have hne' : t ≠ .nil := by
        rintro rfl
        obtain ⟨b, hb, -⟩ := hdeep
        simp [toList] at hb
      have hlen := length_join (decide (y.key < k)) c y t u
      obtain ⟨z, hz, hdesc, hzk⟩ := ih ht hne' hs.left hdeep (by omega)
      rw [if_pos (fun h0 => hne' (ht.rep.eq_nil h0)), if_neg hky, hdesc]
      exact ⟨z, mem_join.mpr (.inr (.inl hz)), rfl, hzk⟩

/-- **The new node is returned**, not the one that has its key. -/
lemma rbTreeLookupOrInsertNode_present {f : ℕ} {N : List Label} {x : Label} (h : IsRbTree s N)
    (hx : x.addr ∉ N.map Label.addr) (hk : x.key ∈ N.map Label.key) (hf : N.length < f) :
    ∃ s', rbTreeLookupOrInsertNode f (setKey s x) x.addr = some (s', x.addr) ∧ IsRbTree s' N := by
  obtain ⟨L, hL, hs, hp⟩ := isRbTree_iff.mp (h.setKey hx)
  obtain ⟨t, n, ht, hb, rfl⟩ := hL
  have hout : x.addr ∉ addrs t ++ addrsAround [] := by
    rw [addrsAround, List.append_nil]
    exact fun hm => hx ((hp.map _).mem_iff.mp hm)
  obtain ⟨b, hbN, hbk⟩ := List.mem_map.mp hk
  have hbt := hp.mem_iff.mpr hbN
  have hne : t ≠ .nil := by
    rintro rfl
    simp [toList] at hbt
  set s₃ := (setChild (setChild (setKey s x) x.addr false 0) x.addr true 0).modify x.addr
    fun n => { n with rbParentAndColor := 1 } with hs₃
  have ht₃ : Holds s₃ [] t := ((ht.modify hout _).modify hout _).modify hout _
  have hroot : s₃.root = ptr t := ht₃.around
  have hkey : (s₃.heap x.addr).key = x.key := by simp [hs₃, setChild, setKey, Tree.modify]
  obtain ⟨y, hy, hdesc, hyk⟩ := insertDescend_present ht₃ hne hs ⟨b, hbt, hbk⟩
    (hp.length_eq ▸ hf)
  refine ⟨s₃, ?_, isRbTree_iff.mpr ⟨_, ⟨t, n, ht₃, hb, rfl⟩, hs, hp⟩⟩
  have hroot₀ : (setChild (setChild (setKey s x) x.addr false 0) x.addr true 0).root ≠ 0 :=
    fun h0 => hne (ht₃.rep.eq_nil (hroot.symm.trans h0))
  have hykey : (s₃.heap y.addr).key = y.key := (ht₃.rep.isNode y hy).2
  simp only [rbTreeLookupOrInsertNode, if_neg hroot₀, ← hs₃, hkey, hroot, hdesc,
    Option.bind_some, hykey, hyk, if_true]

/-! ### All queries -/

/-- The nodes in a list lie in both heaps, under the same root. -/
def Unchanged (N : List Label) (s s' : Tree) : Prop :=
  s'.root = s.root ∧ ∀ b ∈ N, s'.heap b.addr = s.heap b.addr

/-- The insertion returns the node that has the key, or inserts the new one. -/
def LooksUpOrInserts (f : ℕ) (s : Tree) (N : List Label) (x : Label) : Prop :=
  (∃ y ∈ N, y.key = x.key ∧ ∃ s', rbTreeLookupOrInsertNode f (setKey s x) x.addr =
    some (s', y.addr) ∧ Unchanged N s s') ∨
  (x.key ∉ N.map Label.key ∧ ∃ s', rbTreeLookupOrInsertNode f (setKey s x) x.addr =
    some (s', 0) ∧ IsRbTree s' (x :: N))

/-- What the queries find in a tree with the nodes `N`, for a key `k` and for a new node `x`. -/
structure Exact (f : ℕ) (s : Tree) (N : List Label) (k : ℕ) (x : Label) : Prop where
  lookupNode : ∃ a, rbTreeLookupNode f s k = some a ∧ IsNodeWith N k a
  lookupDecreasingNode : ∃ a, rbTreeLookupDecreasingNode f s k = some a ∧ IsLastUpTo N k a
  lookupIncreasingNode : ∃ a, rbTreeLookupIncreasingNode f s k = some a ∧ IsFirstFrom N k a
  lookupOrInsertNode : LooksUpOrInserts f s N x
  iterate : ∃ L, rbTreeIterate f s = some (L.map Label.addr) ∧ L.Perm N ∧ Sorted L

/-- A new node that may have the key of another one. -/
structure IsNew (N : List Label) (x : Label) : Prop where
  aligned : Aligned x.addr
  addr : x.addr ∉ N.map Label.addr

lemma looksUpOrInserts_iff {f : ℕ} {N : List Label} {x : Label} (h : IsRbTree s N)
    (hx : IsNew N x) (hf : N.length < f) :
    LooksUpOrInserts f s N x ↔ x.key ∉ N.map Label.key := by
  constructor
  · intro hspec hk
    obtain ⟨s', hs', -⟩ := rbTreeLookupOrInsertNode_present h hx.addr hk hf
    rcases hspec with ⟨y, hy, -, s'', hs'', -⟩ | ⟨hnk, -⟩
    · rw [hs'] at hs''
      have haddr : x.addr = y.addr := congrArg Prod.snd (Option.some.inj hs'')
      exact hx.addr (haddr ▸ List.mem_map_of_mem hy)
    · exact hnk hk
  · intro hk
    exact .inr ⟨hk, h.insert ⟨hx.aligned, hx.addr, hk⟩ hf⟩

/-- **The queries** are exact, but for an insertion whose key is there already. -/
theorem exact_iff {f : ℕ} {N : List Label} {x : Label} (h : IsRbTree s N) (k : ℕ)
    (hx : IsNew N x) (hf : N.length < f) : Exact f s N k x ↔ x.key ∉ N.map Label.key := by
  rw [← looksUpOrInserts_iff h hx hf]
  constructor
  · exact Exact.lookupOrInsertNode
  · intro hspec
    exact ⟨rbTreeLookupNode_spec h k hf, rbTreeLookupDecreasingNode_spec h k hf,
      rbTreeLookupIncreasingNode_spec h k hf, hspec, rbTreeIterate_spec h hf⟩

/-- A tree of one black node. -/
def oneNode : Tree := ⟨16, fun _ => ⟨5, 0, fun _ => 0⟩⟩

lemma isRbTree_oneNode : IsRbTree oneNode [⟨16, 5⟩] :=
  ⟨.node false .nil ⟨16, 5⟩ .nil, 1, rfl,
    ⟨⟨by norm_num [Aligned], by norm_num [IsParent], rfl, rfl, rfl, rfl⟩, trivial, trivial⟩,
    List.nodup_singleton _, .black .nil .nil, List.pairwise_singleton _ _, List.Perm.refl _⟩

theorem exact_oneNode : Exact 2 oneNode [⟨16, 5⟩] 6 ⟨32, 6⟩ :=
  (exact_iff isRbTree_oneNode 6 ⟨by norm_num [Aligned], by simp⟩ (by decide)).mpr (by simp)

/-- A second node with the key of the first is returned itself. -/
theorem not_exact_oneNode : IsRbTree oneNode [⟨16, 5⟩] ∧ ¬Exact 2 oneNode [⟨16, 5⟩] 5 ⟨32, 5⟩ :=
  ⟨isRbTree_oneNode, fun h => (looksUpOrInserts_iff isRbTree_oneNode
    ⟨by norm_num [Aligned], by simp⟩ (by decide)).mp h.lookupOrInsertNode (by simp)⟩

end KernelModel.RbTree
