import KernelModel.RbTreeInsert

/-!
Removal of a node with at most one child.

When a black leaf goes, its side of the tree is one black node short. The loop repairs this by
rotations around the sibling, or hands the shortage on to the parent.
-/

namespace KernelModel.RbTree

open RedBlack RedBlack.CTree

variable {s : Tree} {fs : List (Frame Label)}

/-! ### The loop -/

/-- A node of the same colour and the same black height can take the place of the last frame's
node. -/
lemma Fits.refill {d c : Bool} {a : Label} {w : CTree Label} {m : ℕ}
    (h : Fits (⟨d, c, a, w⟩ :: fs) m) :
    Balanced w m ∧ Fits fs (m + if c then 0 else 1) ∧ (headRed fs → c = false) := by
  cases c
  · obtain ⟨hw, hfs⟩ := h.of_black
    exact ⟨hw, hfs, fun _ => rfl⟩
  · obtain ⟨hw, -, hfs, hr⟩ := h.of_red
    exact ⟨hw, hfs, fun hc => by simp [hr] at hc⟩

lemma Rep.test_red {par : ℕ} {t : CTree Label} (h : Rep s par t) :
    (ptr t ≠ 0 ∧ getColor s (ptr t)) ↔ t.isRed = true := by
  cases t with
  | nil => simp [isRed]
  | node c l a r =>
    have hc := h.1.getColor_eq
    have ha := h.1.aligned.1
    simp [ptr, isRed, hc, ha]

/-- What a round of the loop leaves: the whole tree balanced, or, when the parent of the short
side was black, the shortage further up. -/
def RoundDone (r : Tree × Option (ℕ × Bool)) (cy : Bool) (fs : List (Frame Label))
    (L : List Label) : Prop :=
  (r.2 = none ∧ Represents r.1 L) ∨
    cy = false ∧ ∃ d c y W gs t n, r.2 = some (y.addr, d) ∧ fs = ⟨d, c, y, W⟩ :: gs ∧
      Holds r.1 fs t ∧ Balanced t n ∧ Fits fs (n + 1) ∧ (plug fs t).toList = L

section

variable {d cy : Bool} {y z : Label} {t V U : CTree Label} {n : ℕ}
  (h : Holds s fs (join d cy y t (join d false z V U))) (ht : Balanced t n) (hV : Balanced V n)
  (hU : Balanced U n) (hfs : Fits fs (n + 1 + if cy then 0 else 1)) (hr : headRed fs → cy = false)

include h ht hV hU hfs hr

lemma removeRoundBlack_far (hUr : U.isRed = true) :
    RoundDone (removeRoundBlack s y.addr z.addr (ptr U) (ptr V) d) cy fs
      (plug fs (join d cy y t (join d false z V U))).toList := by
  obtain ⟨c, u, U₁, U₂, rfl⟩ := eq_join d U (by rintro rfl; simp [isRed] at hUr)
  rw [isRed_join] at hUr
  subst hUr
  have hz := holds_join_not.mpr h
  have hu := (rep_join.mp hz.rep).2.2.test_red.mpr (by simp)
  have h₁ := h.rotate
  have hcol : getColor (rotateSubtree s y.addr d) y.addr = cy :=
    (holds_join.mpr h₁).isNode.getColor_eq
  have h₂ := h₁.setColor cy
  have h₃ := holds_join.mp ((holds_join.mpr h₂).setColor false)
  have h₄ := holds_join_not.mp ((holds_join_not.mpr h₃).setColor false)
  refine .inl ⟨?_, ?_⟩
  · rw [removeRoundBlack, if_pos hu]
  · rw [removeRoundBlack, if_pos hu]
    simp only [hcol, ptr_join]
    have hbal := (ht.join_black (d := d) (a := y) hV).join (d := d) (c := cy) (a := z)
      (hU.blacken) (by simp) (by simp)
    have := h₄.represents hbal hfs (by simpa using hr)
    rwa [toList_plug_congr (u := join d cy y t (join d false z V (join d true u U₁ U₂)))
      (by cases d <;> simp [join, toList])] at this

lemma removeRoundBlack_near (hUr : U.isRed = false) (hVr : V.isRed = true) :
    RoundDone (removeRoundBlack s y.addr z.addr (ptr U) (ptr V) d) cy fs
      (plug fs (join d cy y t (join d false z V U))).toList := by
  obtain ⟨c, v, V₁, V₂, rfl⟩ := eq_join d V (by rintro rfl; simp [isRed] at hVr)
  rw [isRed_join] at hVr
  subst hVr
  obtain ⟨hV₁, hV₂, -, -⟩ := hV.of_join_red
  have hz := holds_join_not.mpr h
  have hu : ¬ (ptr U ≠ 0 ∧ getColor s (ptr U)) := by
    rw [(rep_join.mp hz.rep).2.2.test_red, hUr]
    simp
  have hv := (rep_join.mp hz.rep).2.1.test_red.mpr (by simp)
  have h₁ := holds_join_not.mp hz.rotate_not
  have h₂ := h₁.rotate
  have hcol : getColor (rotateSubtree (rotateSubtree s z.addr (!d)) y.addr d) y.addr = cy :=
    (holds_join.mpr h₂).isNode.getColor_eq
  have h₃ := holds_join.mp ((holds_join.mpr (h₂.setColor cy)).setColor false)
  have h₄ := holds_join_not.mp ((holds_join_not.mpr h₃).setColor false)
  refine .inl ⟨?_, ?_⟩
  · rw [removeRoundBlack, if_neg hu, if_pos hv]
  · rw [removeRoundBlack, if_neg hu, if_pos hv]
    simp only [hcol, ptr_join]
    have hbal := (ht.join_black (d := d) (a := y) hV₁).join (d := d) (c := cy) (a := v)
      (hV₂.join_black (d := d) (a := z) hU) (by simp) (by simp)
    have := h₄.represents hbal hfs (by simpa using hr)
    rwa [toList_plug_congr (u := join d cy y t (join d false z (join d true v V₁ V₂) U))
      (by cases d <;> simp [join, toList])] at this

/-- Both children of the sibling are black: it turns red, and the parent becomes black or is
short now. -/
lemma removeRoundBlack_none (hUr : U.isRed = false) (hVr : V.isRed = false) :
    RoundDone (removeRoundBlack s y.addr z.addr (ptr U) (ptr V) d) cy fs
      (plug fs (join d cy y t (join d false z V U))).toList := by
  have hz := holds_join_not.mpr h
  have hu : ¬ (ptr U ≠ 0 ∧ getColor s (ptr U)) := by
    rw [(rep_join.mp hz.rep).2.2.test_red, hUr]
    simp
  have hv : ¬ (ptr V ≠ 0 ∧ getColor s (ptr V)) := by
    rw [(rep_join.mp hz.rep).2.1.test_red, hVr]
    simp
  have h₁ := holds_join_not.mp (hz.setColor true)
  have hW : Balanced (join d true z V U) n := hV.join_red hU hVr hUr
  have hcol : getColor (setColor s z.addr true) y.addr = cy := h₁.isNode.getColor_eq
  have hround : removeRoundBlack s y.addr z.addr (ptr U) (ptr V) d =
      if cy then (setColor (setColor s z.addr true) y.addr false, none)
      else if up fs = 0 then (setColor s z.addr true, none)
      else (setColor s z.addr true,
        some (up fs, decide (y.addr = child (setColor s z.addr true) (up fs) true))) := by
    rw [removeRoundBlack, if_neg hu, if_neg hv]
    simp only [hcol, h₁.isNode.getParent_eq]
  have hlist : ∀ c c', (join d c y t (join d c' z V U)).toList
      = (join d cy y t (join d false z V U)).toList := by
    intro c c'
    cases d <;> rfl
  rw [hround]
  cases cy
  · simp only [Bool.false_eq_true, if_false] at hfs ⊢
    have hbal := ht.join_black (d := d) (a := y) hW
    match fs, h₁, hfs with
    | [], h₁, _ =>
      refine .inl ⟨rfl, ?_⟩
      have := h₁.represents hbal (.nil _) (by simp [headRed])
      rwa [toList_plug_congr (hlist _ _)] at this
    | ⟨d', c', y', W'⟩ :: gs, h₁, hfs =>
      have hy' := (holds_join.mp h₁).isNode
      have hside := h₁.side h₁.ptr_ne_zero
      rw [ptr_join] at hside
      have hup : up (⟨d', c', y', W'⟩ :: gs) = y'.addr := rfl
      rw [hup, if_neg hy'.aligned.1, hside]
      exact .inr ⟨rfl, d', c', y', W', gs, _, n + 1, rfl, rfl, h₁, hbal, hfs,
        toList_plug_congr (hlist _ _)⟩
  · simp only [if_true] at hfs ⊢
    refine .inl ⟨rfl, ?_⟩
    have := (h₁.setColor false).represents (ht.join_black hW) hfs (by simp)
    rwa [toList_plug_congr (hlist _ _)] at this

lemma removeRoundBlack_spec :
    RoundDone (removeRoundBlack s y.addr z.addr (ptr U) (ptr V) d) cy fs
      (plug fs (join d cy y t (join d false z V U))).toList := by
  cases hUr : U.isRed
  · cases hVr : V.isRed
    · exact removeRoundBlack_none h ht hV hU hfs hr hUr hVr
    · exact removeRoundBlack_near h ht hV hU hfs hr hUr hVr
  · exact removeRoundBlack_far h ht hV hU hfs hr hUr

end

/-- **A round.** A red sibling first goes up by a rotation; the parent is red then, and the
round ends the loop. -/
lemma removeRound_spec {d cy : Bool} {y : Label} {t W : CTree Label} {n : ℕ}
    (h : Holds s (⟨d, cy, y, W⟩ :: fs) t) (ht : Balanced t n)
    (hfs : Fits (⟨d, cy, y, W⟩ :: fs) (n + 1)) :
    RoundDone (removeRound s y.addr d) cy fs (plug (⟨d, cy, y, W⟩ :: fs) t).toList := by
  obtain ⟨hW, hfs', hr⟩ := Fits.refill hfs
  obtain ⟨cz, z, V, U, rfl⟩ := eq_join d W hW.ne_nil
  have h₀ := holds_join.mp h
  have hz := holds_join_not.mpr h₀
  have hcz := hz.isNode.getColor_eq
  have hzc : child s y.addr (!d) = z.addr := by
    rw [h₀.isNode.far, ptr_join]
  rw [removeRound, hzc, hz.isNode.near, hz.isNode.far, hcz]
  cases cz
  · obtain ⟨m, hm, hV, hU⟩ := hW.of_join_black
    obtain rfl : m = n := by omega
    simp only [Bool.false_eq_true, if_false]
    exact removeRoundBlack_spec h₀ ht hV hU hfs' hr
  · obtain ⟨hV, hU, hVr, hUr⟩ := hW.of_join_red
    obtain rfl : cy = false := by
      cases cy
      · rfl
      · obtain ⟨-, hzr, -, -⟩ := hfs.of_red
        simp at hzr
    simp only [if_true, Bool.false_eq_true, if_false] at hfs' ⊢
    obtain ⟨cv, v, V₁, V₂, rfl⟩ := eq_join d V hV.ne_nil
    rw [isRed_join] at hVr
    subst hVr
    obtain ⟨m, hm, hV₁, hV₂⟩ := hV.of_join_black
    obtain rfl : m = n := by omega
    have h₁ := h₀.rotate
    have h₂ := holds_join.mp ((holds_join.mpr h₁).setColor true)
    have h₃ := holds_join.mpr (h₂.setColor false)
    have hv := holds_join_not.mpr h₃
    have hdone := removeRoundBlack_spec h₃ ht hV₁ hV₂ (.black hU hfs') (by simp [headRed])
    rw [ptr_join, hv.isNode.near, hv.isNode.far]
    rcases hdone with ⟨hnone, hrep⟩ | ⟨hcon, -⟩
    · refine .inl ⟨hnone, ?_⟩
      rwa [plug_cons, toList_plug_congr (u := join d false y t (join d true z
        (join d false v V₁ V₂) U)) (by cases d <;> simp [Frame.fill, join, toList])] at hrep
    · simp at hcon

lemma removeFixup_spec : ∀ {f : ℕ} {fs : List (Frame Label)} {s : Tree} {d cy : Bool} {y : Label}
    {t W : CTree Label} {n : ℕ}, fs.length < f → Holds s (⟨d, cy, y, W⟩ :: fs) t → Balanced t n →
    Fits (⟨d, cy, y, W⟩ :: fs) (n + 1) → ∃ s', removeFixup f s y.addr d = some s' ∧
      Represents s' (plug (⟨d, cy, y, W⟩ :: fs) t).toList := by
  intro f
  induction f with
  | zero => intro fs s d cy y t W n hf; omega
  | succ f ih =>
    intro fs s d cy y t W n hf h ht hfs
    have hround := removeRound_spec h ht hfs
    rw [removeFixup]
    generalize removeRound s y.addr d = r at hround
    rcases hround with ⟨hnone, hrep⟩ | ⟨-, d', c', y', W', gs, t', n', hsome, rfl, h', ht',
      hfs', hlist⟩
    · obtain ⟨s', _⟩ := r
      obtain rfl : _ = none := hnone
      exact ⟨s', rfl, hrep⟩
    · obtain ⟨s', _⟩ := r
      obtain rfl : _ = some (y'.addr, d') := hsome
      rw [← hlist]
      exact ih (by simpa using hf) h' ht' hfs'

/-! ### Unlinking the node -/

lemma RepAround.root_mem : ∀ {fs : List (Frame Label)} {f : Frame Label} {p : ℕ},
    RepAround s (f :: fs) p → s.root ∈ addrsAround (f :: fs)
  | [], f, _, h => by
    rw [h.2.2]
    simp [addrsAround]
  | g :: fs, f, _, h => by
    have := RepAround.root_mem h.2.2
    rw [addrsAround]
    exact List.mem_append.mpr (.inr this)

lemma Holds.cut {d c : Bool} {y : Label} {t W : CTree Label} (h : Holds s (⟨d, c, y, W⟩ :: fs) t) :
    Holds (setChild s y.addr d 0) (⟨d, c, y, W⟩ :: fs) .nil := by
  obtain ⟨hy, hW, hK⟩ := h.around
  have hf := (holds_join.mp h).fresh
  refine ⟨⟨hy.setNear 0, hW.modify _ hf.right, hK.modify _ hf.around⟩, trivial, ?_⟩
  have := h.nodup
  rw [List.nodup_append'] at this
  exact this.2.1

lemma Holds.splice {d dz c cz : Bool} {x z : Label} {B C : CTree Label}
    (h : Holds s fs (join d c x (join dz cz z B C) .nil)) :
    Holds (setParent (RbTree.setColor (replaceChild s (up fs) x.addr z.addr) z.addr false) z.addr
      (up fs)) fs (join dz false z B C) := by
  have hf := h.fresh
  have hfz := (holds_join.mpr h).fresh
  obtain ⟨hx, hA, -⟩ := rep_join.mp h.rep
  obtain ⟨hz, hB, hC⟩ := rep_join.mp hA
  have hK := h.around
  rw [ptr_join] at hK
  have hzK : z.addr ∉ addrsAround fs := hf.left_around (mem_addrs_join.mpr (.inl rfl))
  have hBK : (addrs B).Disjoint (addrsAround fs) := fun a ha =>
    hf.left_around (mem_addrs_join.mpr (.inr (.inl ha)))
  have hCK : (addrs C).Disjoint (addrsAround fs) := fun a ha =>
    hf.left_around (mem_addrs_join.mpr (.inr (.inr ha)))
  have hupz : up fs ≠ z.addr := fun he => hzK (he ▸ up_mem (he ▸ hz.aligned.1))
  have hz₁ := ((hz.replaceChild hupz x.addr z.addr).setColor false).setParent hx.isParent
  have hB₁ := hB.replaceChild (fun hne hm => hBK hm (up_mem hne)) x.addr z.addr
  have hC₁ := hC.replaceChild (fun hne hm => hCK hm (up_mem hne)) x.addr z.addr
  have hK₁ := hK.replaceChild z.addr hx.aligned.1 hf.around hf.nodup_around
  refine ⟨?_, rep_join.mpr ⟨hz₁, ?_, ?_⟩, ?_⟩
  · rw [ptr_join]
    exact (hK₁.modify _ hzK).modify _ hzK
  · exact (hB₁.modify _ hfz.left).modify _ hfz.left
  · exact (hC₁.modify _ hfz.right).modify _ hfz.right
  · exact nodup_join.mpr ⟨hfz.left, hfz.right, hzK, hfz.nodup_left, hfz.nodup_right,
      hf.nodup_around, hfz.left_right, hBK, hCK⟩

/-- A node with one child is black, and the child is a red leaf, that turns black. -/
lemma removeLeaf_one {d c : Bool} {x : Label} {A : CTree Label} {n f : ℕ}
    (h : Holds s fs (join d c x A .nil)) (hA : A ≠ .nil) (hb : Balanced (join d c x A .nil) n)
    (hfs : Fits fs n) : ∃ s', removeLeaf f s x.addr (up fs) = some s' ∧
      Represents s' (plug fs A).toList := by
  obtain ⟨m, rfl, hAb, hnil, hAr, -⟩ := hb.of_join
  obtain rfl : m = 0 := by cases hnil; rfl
  obtain ⟨cz, z, B, C, rfl⟩ := eq_join d A hA
  cases cz
  · obtain ⟨m, hm, -, -⟩ := hAb.of_join_black
    omega
  · obtain rfl : c = false := by
      cases c
      · rfl
      · simp at hAr
    have hz0 := (holds_join.mpr h).isNode.aligned.1
    have hx := h.isNode
    rw [ptr_join, ptr_nil] at hx
    have hsel : (if child s x.addr false ≠ 0 then child s x.addr false else child s x.addr true)
        = z.addr := by
      cases d
      · rw [hx.near, if_pos hz0]
      · have hfar := hx.far
        rw [Bool.not_true] at hfar
        rw [hfar, if_neg (by simp), hx.near]
    have hchild : child s x.addr false ≠ 0 ∨ child s x.addr true ≠ 0 := by
      have hnear := hx.near
      cases d
      · exact .inl (hnear ▸ hz0)
      · exact .inr (hnear ▸ hz0)
    have hrep := h.splice.represents hAb.blacken hfs (by simp)
    rw [toList_plug_congr (u := join d true z B C) (by cases d <;> rfl)] at hrep
    refine ⟨_, ?_, hrep⟩
    rw [removeLeaf, if_pos hchild]
    simp only [hsel]

lemma removeLeaf_cut {f x y : ℕ} {d c : Bool}
    (hx : ¬ (child s x false ≠ 0 ∨ child s x true ≠ 0)) (hroot : x ≠ s.root)
    (hd : decide (x = child s y true) = d) (hc : getColor (setChild s y d 0) x = c) :
    removeLeaf f s x y =
      if c then some (setChild s y d 0) else removeFixup f (setChild s y d 0) y d := by
  rw [removeLeaf, if_neg hx, if_neg hroot]
  simp only [hd, hc]

lemma removeLeaf_zero {c : Bool} {x : Label} {n f : ℕ} (h : Holds s fs (.node c .nil x .nil))
    (hb : Balanced (.node c .nil x .nil) n) (hfs : Fits fs n) (hf : fs.length < f + 1) :
    ∃ s', removeLeaf f s x.addr (up fs) = some s' ∧ Represents s' (plug fs .nil).toList := by
  have hx : IsNode s x (up fs) c false 0 0 := h.rep.1
  have hchild : ¬ (child s x.addr false ≠ 0 ∨ child s x.addr true ≠ 0) := by
    have hfar := hx.far
    rw [Bool.not_false] at hfar
    rw [hx.near, hfar]
    simp
  match fs, h, hx, hfs, hf with
  | [], h, _, _, _ =>
    have hroot : x.addr = s.root := h.around.symm
    rw [removeLeaf, if_neg hchild, if_pos hroot]
    exact ⟨_, rfl, .nil, 0, ⟨rfl, trivial, by simp [addrs, toList, addrsAround]⟩, .nil, rfl⟩
  | ⟨d, cy, y, W⟩ :: gs, h, hx, hfs, hf =>
    have hxK : x.addr ∉ addrsAround (⟨d, cy, y, W⟩ :: gs) :=
      fun hm => (List.nodup_append'.mp h.nodup).2.2 (by simp [addrs, toList]) hm
    have hroot : x.addr ≠ s.root := fun he => hxK (he ▸ h.around.root_mem)
    have hyx : y.addr ≠ x.addr := fun he => hxK (by rw [← he]; simp [addrsAround])
    have hcol := (hx.modify hyx fun n =>
      { n with rbNodes := Function.update n.rbNodes d 0 }).getColor_eq
    have hcut := removeLeaf_cut (f := f) hchild hroot (h.side hx.aligned.1) hcol
    rw [up, hcut]
    cases c
    · have hn : n = 0 + 1 := by cases hb with | black hl _ => cases hl; rfl
      exact removeFixup_spec (by simpa using hf) h.cut .nil (hn ▸ hfs)
    · have hn : n = 0 := by cases hb with | red hl _ _ _ => cases hl; rfl
      exact ⟨_, rfl, h.cut.represents .nil (hn ▸ hfs) (by simp [isRed])⟩

lemma removeLeaf_spec {d c : Bool} {x : Label} {A : CTree Label} {n f : ℕ}
    (h : Holds s fs (join d c x A .nil)) (hb : Balanced (join d c x A .nil) n) (hfs : Fits fs n)
    (hf : fs.length < f + 1) : ∃ s', removeLeaf f s x.addr (up fs) = some s' ∧
      Represents s' (plug fs A).toList := by
  by_cases hA : A = .nil
  · subst hA
    have hleaf : join d c x .nil .nil = .node c .nil x .nil := by cases d <;> rfl
    rw [hleaf] at h hb
    exact removeLeaf_zero h hb hfs hf
  · exact removeLeaf_one h hA hb hfs

end KernelModel.RbTree
