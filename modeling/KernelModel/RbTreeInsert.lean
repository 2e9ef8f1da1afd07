import KernelModel.RbTreeOps

/-!
Insertion keeps the tree balanced.

The new red leaf goes where the descent ends. The loop after that moves a red node with a red
parent upwards until a rotation or the root resolves the conflict.
-/

namespace KernelModel.RbTree

open RedBlack RedBlack.CTree

variable {s : Tree} {fs : List (Frame Label)}

lemma holds_plug {t : CTree Label} : Holds s fs t ↔ Holds s [] (plug fs t) := by
  induction fs generalizing t with
  | nil => exact Iff.rfl
  | cons f fs ih => rw [holds_cons, ih, plug_cons]

/-- The heap holds a balanced tree with the labels `L` from left to right. -/
def Represents (s : Tree) (L : List Label) : Prop :=
  ∃ t n, Holds s [] t ∧ Balanced t n ∧ t.toList = L

lemma Holds.represents {t : CTree Label} {n : ℕ} (h : Holds s fs t) (ht : Balanced t n)
    (hfs : Fits fs n) (hr : headRed fs → t.isRed = false) :
    Represents s (plug fs t).toList := by
  obtain ⟨m, hm⟩ := hfs.plug ht hr
  exact ⟨plug fs t, m, holds_plug.mp h, hm, rfl⟩

lemma toList_plug_congr {t u : CTree Label} (h : t.toList = u.toList) :
    (plug fs t).toList = (plug fs u).toList := by
  rw [toList_plug, toList_plug, h]

lemma Rep.red_iff {par : ℕ} {t : CTree Label} (h : Rep s par t) :
    (ptr t = 0 ∨ !getColor s (ptr t)) ↔ t.isRed = false := by
  cases t with
  | nil => simp [isRed]
  | node c l a r =>
    have hc := h.1.getColor_eq
    have ha := h.1.aligned.1
    simp [ptr, isRed, hc, ha]

lemma Holds.ptr_ne_zero {d c : Bool} {a : Label} {t u : CTree Label}
    (h : Holds s fs (join d c a t u)) : ptr (join d c a t u) ≠ 0 := by
  rw [ptr_join]
  exact h.isNode.aligned.1

lemma Holds.side {f : Frame Label} {t : CTree Label} (h : Holds s (f :: fs) t) (ht : ptr t ≠ 0) :
    (decide (ptr t = child s f.label.addr true)) = f.dir := by
  refine h.around.side ht fun hm => ?_
  have hfr : Fresh fs f.label t f.sib := (holds_cons.mp h).fresh
  exact hfr.left_right (ptr_mem_addrs ht) hm

/-! ### The branches of the loop -/

section

variable {f x y : ℕ}

lemma insertFixup_black (h : y = 0 ∨ getColor s y = false) :
    insertFixup (f + 1) s x y = some s := by
  rw [insertFixup, if_neg]
  rcases h with h | h <;> simp [h]

lemma insertFixup_root (hy : y ≠ 0) (hc : getColor s y = true) (hz : getParent s y = 0) :
    insertFixup (f + 1) s x y = some (setColor s y false) := by
  rw [insertFixup, if_pos ⟨hy, hc⟩]
  simp only [hz, if_true]

variable {z : ℕ} {d : Bool} (hy : y ≠ 0) (hc : getColor s y = true) (hz : getParent s y = z)
  (hz0 : z ≠ 0) (hd : decide (y = child s z true) = d)

include hy hc hz hz0 hd

lemma insertFixup_outer (hw : child s z (!d) = 0 ∨ !getColor s (child s z (!d)))
    (hx : x ≠ child s y (!d)) : insertFixup (f + 1) s x y =
      some (setColor (setColor (rotateSubtree s z (!d)) y false) z true) := by
  rw [insertFixup, if_pos ⟨hy, hc⟩]
  simp only [hz, if_neg hz0, hd, if_pos hw, hx, decide_false, Bool.false_eq_true, if_false]

lemma insertFixup_inner (hw : child s z (!d) = 0 ∨ !getColor s (child s z (!d)))
    (hx : x = child s y (!d)) {y' : ℕ} (hy' : child (rotateSubtree s y d) z d = y') :
    insertFixup (f + 1) s x y =
      some (setColor (setColor (rotateSubtree (rotateSubtree s y d) z (!d)) y' false) z true) := by
  rw [insertFixup, if_pos ⟨hy, hc⟩]
  simp only [hz, if_neg hz0, hd, if_pos hw, hx, decide_true, if_true, hy']

lemma insertFixup_uncle {w : ℕ} (hw : child s z (!d) = w) (hwc : ¬ (w = 0 ∨ !getColor s w))
    {s' : Tree} (hs' : setColor (setColor (setColor s y false) z true) w false = s') :
    insertFixup (f + 1) s x y = insertFixup f s' z (getParent s' z) := by
  rw [insertFixup, if_pos ⟨hy, hc⟩]
  simp only [hz, if_neg hz0, hd, hw, if_neg hwc, hs']

end

/-! ### The loop -/

/-- **The loop of the insertion**, from a red node at a place where its black height fits. -/
lemma insertFixup_spec : ∀ {f : ℕ} {fs : List (Frame Label)} {s : Tree} {t : CTree Label} {n : ℕ},
    fs.length < f → Holds s fs t → Balanced t n → t.isRed = true → Fits fs n →
    ∃ s', insertFixup f s (ptr t) (up fs) = some s' ∧ Represents s' (plug fs t).toList := by
  intro f
  induction f using Nat.strong_induction_on with
  | _ f ih =>
  intro fs s t n hf h ht hred hfs
  obtain ⟨f, rfl⟩ : ∃ g, f = g + 1 := ⟨f - 1, by omega⟩
  match fs, hf, h, hfs with
  | [], _, h, hfs =>
    exact ⟨s, insertFixup_black (.inl rfl), h.represents ht hfs (by simp [headRed])⟩
  | ⟨dy, false, y, S⟩ :: gs, _, h, hfs =>
    refine ⟨s, insertFixup_black (.inr ?_), h.represents ht hfs (by simp [headRed])⟩
    exact (holds_join.mp h).isNode.getColor_eq
  | [⟨dy, true, y, S⟩], _, h, hfs =>
    -- the red parent is the root
    have hy := holds_join.mp h
    obtain ⟨hS, -, -, -⟩ := hfs.of_red
    refine ⟨_, insertFixup_root hy.isNode.aligned.1 hy.isNode.getColor_eq
      hy.isNode.getParent_eq, ?_⟩
    have := (hy.setColor false).represents (ht.join_black hS) (.nil _) (by simp [headRed])
    rwa [toList_plug_congr (u := join dy true y t S) (by cases dy <;> rfl)] at this
  | ⟨dy, true, y, S⟩ :: ⟨d, true, z, U⟩ :: ks, _, h, hfs =>
    obtain ⟨-, -, -, hr⟩ := hfs.of_red
    simp [headRed] at hr
  | ⟨dy, true, y, S⟩ :: ⟨d, false, z, U⟩ :: ks, hf, h, hfs =>
    obtain ⟨hS, hSr, hfs', -⟩ := hfs.of_red
    obtain ⟨hU, hks⟩ := hfs'.of_black
    have hy := holds_join.mp h
    have hz := holds_join.mp hy
    have hyn := hy.isNode
    have hzn := hz.isNode
    have hpy : ptr (join dy true y t S) = y.addr := ptr_join _ _ _ _ _
    have hside : decide (y.addr = child s z.addr true) = d := by
      have := hy.side hy.ptr_ne_zero
      rwa [hpy] at this
    obtain ⟨ct, xl, P, Q, rfl⟩ := eq_join d t (by rintro rfl; simp [isRed] at hred)
    rw [isRed_join] at hred
    subst hred
    obtain ⟨hP, hQ, hPr, hQr⟩ := ht.of_join_red
    have hUrep := (rep_join.mp hz.rep).2.2
    have hw : child s z.addr (!d) = ptr U := hzn.far
    simp only [up]
    by_cases hUr : U.isRed = false
    · have hwc := hUrep.red_iff.mpr hUr
      rw [← hw] at hwc
      by_cases hdy : dy = d
      · -- the red nodes are on the same side: one rotation
        subst hdy
        have hne : ptr (join dy true xl P Q) ≠ child s y.addr (!dy) := by
          rw [hyn.far]
          intro heq
          have hm := ptr_mem_addrs h.ptr_ne_zero
          exact hy.fresh.left_right hm (heq ▸ ptr_mem_addrs (heq ▸ h.ptr_ne_zero))
        refine ⟨_, insertFixup_outer hyn.aligned.1 hyn.getColor_eq hyn.getParent_eq
          hzn.aligned.1 hside hwc hne, ?_⟩
        have h₁ := holds_join_not.mpr (hz.rotate_not.setColor false)
        have h₂ := holds_join_not.mp (h₁.setColor true)
        have := h₂.represents (ht.join_black (hS.join_red hU hSr hUr)) hks (by simp)
        rwa [toList_plug_congr (toList_rotate dy false true false true y z _ S U).symm] at this
      · -- the red node is on the inner side: it goes up by two rotations
        obtain rfl : dy = !d := by cases dy <;> cases d <;> simp_all
        have hfar := hyn.near
        rw [join_not] at hy hz
        have h₁ := hy.rotate
        have hy' : child (rotateSubtree s y.addr d) z.addr d = xl.addr := by
          have := (holds_join.mp h₁).isNode.near
          rwa [ptr_join] at this
        refine ⟨_, insertFixup_inner hyn.aligned.1 hyn.getColor_eq hyn.getParent_eq
          hzn.aligned.1 hside hwc hfar.symm hy', ?_⟩
        have h₂ := holds_join_not.mpr ((holds_join.mp h₁).rotate_not.setColor false)
        have h₃ := holds_join_not.mp (h₂.setColor true)
        have := h₃.represents ((hS.join_red hP hSr hPr).join_black (hQ.join_red hU hQr hUr)) hks
          (by simp)
        rwa [toList_plug_congr (u := join d false z (join (!d) true y (join d true xl P Q) S) U)
          (by cases d <;> simp [join, toList])] at this
    · -- the uncle is red: the conflict moves up
      obtain ⟨cu, w, U₁, U₂, rfl⟩ := eq_join d U (by rintro rfl; simp [isRed] at hUr)
      rw [isRed_join, Bool.not_eq_false] at hUr
      subst hUr
      have hwc : ¬ (w.addr = 0 ∨ !getColor s w.addr) := by
        have := (not_congr hUrep.red_iff).mpr (by simp)
        rwa [ptr_join] at this
      rw [ptr_join] at hw
      have h₁ := (holds_join.mp (hy.setColor false)).setColor true
      have h₂ := holds_join_not.mp ((holds_join_not.mpr h₁).setColor false)
      obtain ⟨s', hs', hrep⟩ := ih f (by omega) (by simp at hf ⊢; omega) h₂
        ((ht.join_black hS).join_red hU.blacken (by simp) (by simp)) (by simp) hks
      refine ⟨s', ?_, ?_⟩
      · rw [insertFixup_uncle (z := z.addr) hyn.aligned.1 hyn.getColor_eq hyn.getParent_eq
          hzn.aligned.1 hside
          hw hwc rfl, h₂.isNode.getParent_eq, ← hs', ptr_join]
      · rwa [toList_plug_congr (u := join d false z (join dy true y (join d true xl P Q) S)
          (join d true w U₁ U₂)) (by cases d <;> cases dy <;> rfl)] at hrep

/-! ### The descent -/

/-- The keys increase from left to right. -/
def Sorted (L : List Label) : Prop := L.Pairwise fun a b => a.key < b.key

/-- The place is where a node with this key belongs. -/
structure Between (fs : List (Frame Label)) (k : ℕ) : Prop where
  before : ∀ a ∈ (around fs).1, a.key < k
  after : ∀ a ∈ (around fs).2, k < a.key

lemma Between.cons {k : ℕ} {c : Bool} {a : Label} {t u : CTree Label} (h : Between fs k)
    (hs : Sorted (join (decide (a.key < k)) c a t u).toList) (hk : k ≠ a.key) :
    Between (⟨decide (a.key < k), c, a, u⟩ :: fs) k := by
  rw [Sorted, toList_join] at hs
  by_cases hlt : a.key < k
  · simp only [hlt, decide_true, if_true, List.pairwise_append, List.mem_cons] at hs
    refine ⟨fun b hb => ?_, fun b hb => ?_⟩
    · simp only [around, hlt, decide_true, if_true, List.mem_append, List.mem_singleton] at hb
      rcases hb with hb | hb | rfl
      · exact h.before b hb
      · exact (hs.2.2 b hb a (.inl rfl)).trans hlt
      · exact hlt
    · simp only [around, hlt, decide_true, if_true] at hb
      exact h.after b hb
  · have hgt : k < a.key := by omega
    simp only [hlt, decide_false, Bool.false_eq_true, if_false, List.pairwise_append,
      List.pairwise_cons] at hs
    refine ⟨fun b hb => ?_, fun b hb => ?_⟩
    · simp only [around, hlt, decide_false, Bool.false_eq_true, if_false] at hb
      exact h.before b hb
    · simp only [around, hlt, decide_false, Bool.false_eq_true, if_false, List.mem_append,
        List.mem_cons] at hb
      rcases hb with (rfl | hb) | hb
      · exact hgt
      · exact hgt.trans (hs.2.1.1 b hb)
      · exact h.after b hb

lemma Sorted.left {d c : Bool} {a : Label} {t u : CTree Label}
    (h : Sorted (join d c a t u).toList) : Sorted t.toList := by
  rw [Sorted, toList_join] at h
  cases d
  · exact (List.pairwise_append.mp h).1
  · exact (List.pairwise_cons.mp (List.pairwise_append.mp h).2.1).2

lemma mem_join {d c : Bool} {a b : Label} {t u : CTree Label} :
    b ∈ (join d c a t u).toList ↔ b = a ∨ b ∈ t.toList ∨ b ∈ u.toList := by
  rw [toList_join]
  cases d <;> simp <;> tauto

lemma length_join (d c : Bool) (a : Label) (t u : CTree Label) :
    (join d c a t u).toList.length = t.toList.length + u.toList.length + 1 := by
  cases d <;> simp [join, toList] <;> omega

lemma Rep.eq_nil {par : ℕ} {t : CTree Label} (h : Rep s par t) (h0 : ptr t = 0) : t = .nil := by
  cases t with
  | nil => rfl
  | node c l a r => exact absurd h0 h.1.aligned.1

/-- **The descent** ends at the node under which the key belongs. -/
lemma insertDescend_spec {k : ℕ} : ∀ {f : ℕ} {fs : List (Frame Label)} {t : CTree Label},
    Holds s fs t → t ≠ .nil → Sorted t.toList → (∀ b ∈ t.toList, k ≠ b.key) → Between fs k →
    t.toList.length < f → ∃ gs c y S, insertDescend s k f (ptr t) = some y.addr ∧ k ≠ y.key ∧
      plug gs (join (decide (y.key < k)) c y .nil S) = plug fs t ∧
      Between (⟨decide (y.key < k), c, y, S⟩ :: gs) k := by
  intro f
  induction f with
  | zero => intro fs t _ _ _ _ _ hf; omega
  | succ f ih =>
    intro fs t h hne hs hk hb hf
    obtain ⟨c₀, y₀, t₀, u₀, rfl⟩ := eq_join false t hne
    obtain ⟨c, y, t, u, hy, rfl⟩ : ∃ c y t u, join false c₀ y₀ t₀ u₀
        = join (decide (Label.key y < k)) c y t u ∧ y = y₀ := by
      by_cases hlt : y₀.key < k
      · exact ⟨c₀, y₀, u₀, t₀, by simp [hlt, join], rfl⟩
      · exact ⟨c₀, y₀, t₀, u₀, by simp [hlt], rfl⟩
    rw [hy] at h hs hk hf ⊢
    have hyn := h.isNode
    have hky := hk y (mem_join.mpr (.inl rfl))
    have hb' := hb.cons hs hky
    have ht := holds_join.mpr h
    rw [ptr_join, insertDescend, hyn.key, hyn.near]
    by_cases h0 : ptr t = 0
    · obtain rfl := ht.rep.eq_nil h0
      exact ⟨fs, c, y, u, by simp, hky, rfl, hb'⟩
    · rw [if_pos h0, if_neg hky]
      have hlen := length_join (decide (y.key < k)) c y t u
      exact ih ht (by rintro rfl; exact h0 rfl) hs.left
        (fun b hb => hk b (mem_join.mpr (.inr (.inl hb)))) hb' (by omega)

/-! ### Linking the new node -/

lemma Holds.modify {t : CTree Label} (h : Holds s fs t) {a : ℕ}
    (ha : a ∉ addrs t ++ addrsAround fs) (g : Node → Node) : Holds (s.modify a g) fs t := by
  rw [List.mem_append, not_or] at ha
  exact ⟨h.around.modify g ha.2, h.rep.modify g ha.1, h.nodup⟩

lemma Holds.link {d c : Bool} {x y : Label} {S : CTree Label}
    (h : Holds s fs (join d c y .nil S)) (hx : IsNode s x 0 true false 0 0)
    (hfr : x.addr ∉ addrs (join d c y .nil S) ++ addrsAround fs) :
    Holds (setChild (setParent s x.addr y.addr) y.addr d x.addr) (⟨d, c, y, S⟩ :: fs)
      (.node true .nil x .nil) := by
  have h' := h.modify hfr fun n =>
    { n with rbParentAndColor := y.addr ||| (n.rbParentAndColor &&& 1) }
  have hf := h.fresh
  rw [List.mem_append, mem_addrs_join, not_or, not_or, not_or] at hfr
  obtain ⟨⟨hxy, -, hxS⟩, hxK⟩ := hfr
  obtain ⟨hy, -, hS⟩ := rep_join.mp h'.rep
  have hK := h'.around
  rw [ptr_join] at hK
  have hx' := (hx.setParent hy.aligned.isParent).modify (Ne.symm hxy)
    fun n => { n with rbNodes := Function.update n.rbNodes d x.addr }
  refine ⟨⟨hy.setNear x.addr, hS.modify _ hf.right, hK.modify _ hf.around⟩,
    ⟨hx', trivial, trivial⟩, ?_⟩
  simp only [addrs, toList, addrsAround, List.map_cons, List.map_nil,
    List.nil_append, List.cons_append, List.nodup_cons, List.mem_cons, List.mem_append, not_or]
  exact ⟨⟨hxy, hxS, hxK⟩, ⟨hf.right, hf.around⟩,
    List.nodup_append'.mpr ⟨hf.nodup_right, hf.nodup_around, hf.right_around⟩⟩

lemma length_le_around (fs : List (Frame Label)) : fs.length ≤ (addrsAround fs).length := by
  induction fs with
  | nil => simp
  | cons f fs ih =>
    simp only [addrsAround, List.length_cons, List.length_append]
    omega

lemma Between.sorted {k : ℕ} {x : Label} (h : Between fs k) (hk : x.key = k)
    (hs : Sorted ((around fs).1 ++ (around fs).2)) :
    Sorted ((around fs).1 ++ [x] ++ (around fs).2) := by
  rw [Sorted, List.pairwise_append] at hs
  rw [Sorted, List.append_assoc, List.pairwise_append]
  refine ⟨hs.1, List.pairwise_cons.mpr ⟨fun b hb => hk ▸ h.after b hb, hs.2.1⟩, fun a ha b hb => ?_⟩
  rcases List.mem_cons.mp hb with rfl | hb
  · exact hk ▸ h.before a ha
  · exact hs.2.2 a ha b hb

/-- **Insertion** of a node with a new key. -/
theorem rbTreeLookupOrInsertNode_spec {f : ℕ} {L : List Label} {x : Label} (h : Represents s L)
    (hs : Sorted L) (hx : Aligned x.addr) (hkey : (s.heap x.addr).key = x.key)
    (hfresh : x.addr ∉ L.map Label.addr) (hnew : ∀ b ∈ L, x.key ≠ b.key) (hf : L.length < f) :
    ∃ s' L', rbTreeLookupOrInsertNode f s x.addr = some (s', 0) ∧ Represents s' L' ∧ Sorted L' ∧
      L'.Perm (x :: L) := by
  obtain ⟨t, n, ht, hbal, rfl⟩ := h
  have hout : x.addr ∉ addrs t ++ addrsAround [] := by
    rw [addrsAround, List.append_nil]
    exact hfresh
  rw [rbTreeLookupOrInsertNode]
  set s₂ := setChild (setChild s x.addr false 0) x.addr true 0 with hs₂
  have ht₂ : Holds s₂ [] t := (ht.modify hout _).modify hout _
  have hheap : ∀ w, ∃ s₃, (s₂.modify x.addr fun n => { n with rbParentAndColor := w }) = s₃ ∧
      (s₃.heap x.addr).key = x.key ∧ (s₃.heap x.addr).rbParentAndColor = w ∧
      child s₃ x.addr false = 0 ∧ child s₃ x.addr true = 0 := by
    intro w
    refine ⟨_, rfl, ?_⟩
    simp [hs₂, setChild, Tree.modify, child, hkey]
  by_cases hroot : s₂.root = 0
  · -- the first node
    obtain rfl : t = .nil := ht₂.rep.eq_nil (by rw [← hroot]; exact ht₂.around.symm)
    obtain ⟨s₃, hs₃, hk, hw, hl, hr⟩ := hheap 0
    simp only [hroot, if_true, hs₃]
    refine ⟨_, [x], rfl, ⟨.node false .nil x .nil, 1, ⟨rfl, ⟨?_, trivial, trivial⟩, ?_⟩,
      .black .nil .nil, rfl⟩, List.pairwise_singleton _ _, List.Perm.refl _⟩
    · exact ⟨hx, ⟨rfl, by norm_num [up]⟩, hk, hw, hl, hr⟩
    · simp [addrs, toList, addrsAround]
  · obtain ⟨s₃, hs₃, hk, hw, hl, hr⟩ := hheap 1
    have ht₃ : Holds s₃ [] t := hs₃ ▸ ht₂.modify hout _
    have hxn : IsNode s₃ x 0 true false 0 0 :=
      ⟨hx, ⟨rfl, by norm_num⟩, hk, by simpa using hw, hl, hr⟩
    have hroot₃ : s₃.root = ptr t := ht₃.around
    have hne : t ≠ .nil := by
      rintro rfl
      exact hroot ht₂.around
    obtain ⟨gs, c, y, S, hdesc, hky, hplug, hb⟩ := insertDescend_spec (k := x.key) ht₃ hne hs hnew
      ⟨by simp [around], by simp [around]⟩ hf
    have hy : Holds s₃ gs (join (decide (y.key < x.key)) c y .nil S) := by
      rw [holds_plug, hplug]
      exact ht₃
    have hyn := hy.isNode
    have hperm := addrs_plug gs (join (decide (y.key < x.key)) c y .nil S)
    rw [hplug, plug_nil] at hperm
    have hout' : x.addr ∉ addrs (join (decide (y.key < x.key)) c y .nil S) ++ addrsAround gs :=
      fun hm => hfresh (hperm.mem_iff.mpr hm)
    have hlink := hy.link hxn hout'
    rw [← plug_nil t, ← hplug] at hbal
    obtain ⟨m, hm, hfits, -⟩ := fits_of_plug (⟨decide (y.key < x.key), c, y, S⟩ :: gs)
      (t := .nil) hbal
    obtain rfl : m = 0 := by cases hm; rfl
    have hlen : (⟨decide (y.key < x.key), c, y, S⟩ :: gs : List (Frame Label)).length < f := by
      have h1 := length_le_around gs
      have h2 := hperm.length_eq
      rw [List.length_append, addrs, addrs, List.length_map, List.length_map, length_join] at h2
      simp only [List.length_cons]
      omega
    obtain ⟨s', hfix, hrep⟩ := insertFixup_spec hlen hlink (.red .nil .nil rfl rfl) rfl hfits
    have hlist : t.toList = (around (⟨decide (y.key < x.key), c, y, S⟩ :: gs)).1
        ++ (around (⟨decide (y.key < x.key), c, y, S⟩ :: gs)).2 := by
      have := toList_plug (⟨decide (y.key < x.key), c, y, S⟩ :: gs) .nil
      rw [plug_cons, Frame.fill, hplug, plug_nil] at this
      simpa [toList] using this
    rw [toList_plug] at hrep
    refine ⟨s', _, ?_, hrep, hb.sorted rfl (hlist ▸ hs), ?_⟩
    · simp only [if_neg hroot, hs₃, hk, hroot₃, hdesc, Option.bind_some, hyn.key, if_neg hky]
      have hkey' : ((setParent s₃ x.addr y.addr).heap y.addr).key = y.key := by
        have hne' : x.addr ≠ y.addr := by
          intro he
          exact hout' (List.mem_append.mpr (.inl (mem_addrs_join.mpr (.inl he))))
        exact (hyn.modify hne' _).key
      rw [hkey']
      have hfix' : insertFixup f (setChild (setParent s₃ x.addr y.addr) y.addr
          (decide (y.key < x.key)) x.addr) x.addr y.addr = some s' := hfix
      rw [hfix', Option.map_some]
    · rw [hlist, List.append_assoc]
      exact List.perm_middle

end KernelModel.RbTree
