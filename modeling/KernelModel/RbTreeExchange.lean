import KernelModel.RbTreeRemove

/-!
The exchange of a node with its successor.

Seen from outside the exchange renames the two nodes into each other: every link to the one
becomes a link to the other. So the tree after it is the tree before it with the two labels
swapped.
-/

namespace KernelModel.RbTree

open RedBlack RedBlack.CTree

variable {s : Tree}

/-! ### The fields after a change -/

lemma child_setChild (n : ℕ) (e : Bool) (v a : ℕ) (d : Bool) :
    child (setChild s n e v) a d = if a = n ∧ d = e then v else child s a d := by
  by_cases ha : a = n
  · subst ha
    by_cases hd : d = e
    · subst hd
      simp [child, setChild, Tree.modify]
    · simp [child, setChild, Tree.modify, hd]
  · simp [child, setChild, Tree.modify, ha]

lemma child_setParent (n p a : ℕ) (d : Bool) : child (setParent s n p) a d = child s a d := by
  by_cases ha : a = n
  · subst ha
    simp [child, setParent, Tree.modify]
  · simp [child, setParent, Tree.modify, ha]

lemma child_setColor (n : ℕ) (c : Bool) (a : ℕ) (d : Bool) :
    child (setColor s n c) a d = child s a d := by
  by_cases ha : a = n
  · subst ha
    simp [child, setColor, Tree.modify]
  · simp [child, setColor, Tree.modify, ha]

lemma child_replaceChild (y x z a : ℕ) (d : Bool) : child (replaceChild s y x z) a d =
    if y ≠ 0 ∧ a = y ∧ d = decide (x = child s y true) then z else child s a d := by
  rw [replaceChild]
  by_cases hy : y = 0
  · simp [hy, child]
  · simp [hy, child_setChild]

lemma getColor_setChild (n : ℕ) (e : Bool) (v a : ℕ) :
    getColor (setChild s n e v) a = getColor s a := by
  by_cases ha : a = n
  · subst ha
    simp [getColor, setChild, Tree.modify]
  · simp [getColor, setChild, Tree.modify, ha]

lemma getColor_replaceChild (y x z a : ℕ) :
    getColor (replaceChild s y x z) a = getColor s a := by
  rw [replaceChild]
  split
  · exact getColor_setChild _ _ _ _
  · rfl

lemma getColor_setParent {p : ℕ} (hp : IsParent p) (n a : ℕ) :
    getColor (setParent s n p) a = getColor s a := by
  by_cases ha : a = n
  · subst ha
    have hp' : p &&& 1 = 0 := by rw [Nat.and_one_is_mod, hp.1]
    simp only [getColor, setParent, Tree.modify, Function.update_self, Nat.and_or_distrib_right,
      hp', Nat.and_assoc, Nat.and_self, Nat.zero_or]
  · simp [getColor, setParent, Tree.modify, ha]

lemma getColor_setColor (n : ℕ) (c : Bool) (a : ℕ) :
    getColor (setColor s n c) a = if a = n then c else getColor s a := by
  by_cases ha : a = n
  · subst ha
    simp only [getColor, setColor, Tree.modify, Function.update_self, Nat.and_or_distrib_right,
      Nat.and_assoc, if_true]
    cases c <;> simp
  · simp [getColor, setColor, Tree.modify, ha]

/-- The parent and the colour in a node's word. -/
def Word (s : Tree) (a p : ℕ) (c : Bool) : Prop :=
  IsParent p ∧ (s.heap a).rbParentAndColor = p + c.toNat

namespace Word

variable {a p : ℕ} {c : Bool}

lemma getParent_eq (h : Word s a p c) : getParent s a = p := by
  rw [getParent, h.2, h.1.add_and_mask]

lemma getColor_eq (h : Word s a p c) : getColor s a = c := by
  rw [getColor, h.2, h.1.add_and_one]
  cases c <;> simp

lemma setChild (h : Word s a p c) (n : ℕ) (e : Bool) (v : ℕ) :
    Word (setChild s n e v) a p c := by
  refine ⟨h.1, h.2 ▸ ?_⟩
  by_cases ha : a = n
  · subst ha
    simp [RbTree.setChild, Tree.modify]
  · simp [RbTree.setChild, Tree.modify, ha]

lemma replaceChild (h : Word s a p c) (y x z : ℕ) : Word (replaceChild s y x z) a p c := by
  rw [RbTree.replaceChild]
  split
  · exact h.setChild _ _ _
  · exact h

lemma setParent (h : Word s a p c) {q : ℕ} (hq : IsParent q) (n : ℕ) :
    Word (setParent s n q) a (if a = n then q else p) c := by
  by_cases ha : a = n
  · subst ha
    rw [if_pos rfl]
    refine ⟨hq, ?_⟩
    simp only [RbTree.setParent, Tree.modify, Function.update_self]
    rw [h.2, h.1.add_and_one, even_or_toNat hq.1]
  · rw [if_neg ha]
    exact ⟨h.1, by simpa [RbTree.setParent, Tree.modify, ha] using h.2⟩

lemma setColor (h : Word s a p c) (n : ℕ) (c' : Bool) :
    Word (setColor s n c') a p (if a = n then c' else c) := by
  refine ⟨h.1, ?_⟩
  by_cases ha : a = n
  · subst ha
    rw [if_pos rfl]
    simp only [RbTree.setColor, Tree.modify, Function.update_self]
    rw [h.2, h.1.add_and_mask, even_or_toNat h.1.1]
  · rw [if_neg ha]
    simpa [RbTree.setColor, Tree.modify, ha] using h.2

end Word

lemma IsNode.toWord {x : Label} {par : ℕ} {c d : Bool} {p q : ℕ} (h : IsNode s x par c d p q) :
    Word s x.addr par c := ⟨h.isParent, h.word⟩

/-! ### The exchange without its intermediate reads -/

/-- The two nodes: neither is above or below itself, and `z` has no left child. -/
structure Pair (s : Tree) (x y z l r q w : ℕ) (cx cz : Bool) : Prop where
  wordX : Word s x y cx
  wordZ : Word s z w cz
  left : child s x false = l
  right : child s x true = r
  none : child s z false = 0
  only : child s z true = q
  ne : x ≠ z
  yx : y ≠ x
  yz : y ≠ z
  wz : w ≠ z
  wy : w ≠ y
  near_iff : z = r ↔ w = x
  lx : l ≠ x
  lz : l ≠ z
  rx : r ≠ x
  qx : q ≠ x
  qz : q ≠ z
  alignedX : Aligned x
  alignedZ : Aligned z
  parentW : IsParent w

section

variable {x y z l r q w : ℕ} {cx cz : Bool} (h : Pair s x y z l r q w cx cz)

include h

lemma Pair.exchange_near (hr : z = r) : exchange s x y z =
    (let s := setChild (setChild (replaceChild s y x z) z false l) x false 0
     let s := setChild (setChild (setParent s l z) x true q) z true x
     let s := setParent s x z
     let s := if q ≠ 0 then setParent s q x else s
     setColor (setColor (setParent s z y) z cx) x cz) := by
  have hz := h.alignedZ.isParent
  have hx := h.alignedX.isParent
  have hy := h.wordX.1
  have hxz := h.ne
  have hyx := h.yx
  have hyz := h.yz
  by_cases hq : q = 0 <;>
    simp [exchange, child_setParent, child_setChild, child_replaceChild, getColor_setColor,
      getColor_setParent hz, getColor_setParent hx, getColor_setParent hy, getColor_setChild,
      getColor_replaceChild, h.left, h.right, h.none, h.only, h.wordX.getColor_eq,
      h.wordZ.getColor_eq, hxz, hxz.symm, hyx.symm, hyz.symm, hr.symm, hq]

lemma Pair.exchange_far (hr : z ≠ r) (hwx : w ≠ x) : exchange s x y z =
    (let side : Bool := z = child s w true
     let s := setChild (setChild (replaceChild s y x z) z false l) x false 0
     let s := setChild (setChild (setParent s l z) x true q) z true r
     let s := setParent (setChild (setParent s r z) w side x) x w
     let s := if q ≠ 0 then setParent s q x else s
     setColor (setColor (setParent s z y) z cx) x cz) := by
  have hz := h.alignedZ.isParent
  have hx := h.alignedX.isParent
  have hy := h.wordX.1
  have hw := h.parentW
  have hxz := h.ne
  have hyx := h.yx
  have hyz := h.yz
  have hwz := h.wz
  have hword : getParent (setParent (setChild (setChild (setParent (setChild (setChild
      (replaceChild s y x z) z false l) x false 0) l z) x true q) z true r) r z) z = w := by
    have h₁ := ((((h.wordZ.replaceChild y x z).setChild z false l).setChild x false 0).setParent
      hz l).setChild x true q
    have h₂ := (h₁.setChild z true r).setParent hz r
    rw [h₂.getParent_eq, if_neg hr, if_neg h.lz.symm]
  rcases eq_or_ne q 0 with rfl | hq
  · simp [exchange, child_setParent, child_setChild, child_replaceChild, getColor_setColor,
      getColor_setParent hz, getColor_setParent hx, getColor_setParent hy, getColor_setParent hw,
      getColor_setChild, hword,
      getColor_replaceChild, h.left, h.right, h.none, h.only, h.wordX.getColor_eq,
      h.wordZ.getColor_eq, hxz, hxz.symm, hyx.symm, hyz.symm, hr, hwx, hwx.symm, hwz, hwz.symm,
      h.wy]
  · simp [exchange, child_setParent, child_setChild, child_replaceChild, getColor_setColor,
      getColor_setParent hz, getColor_setParent hx, getColor_setParent hy, getColor_setParent hw,
      getColor_setChild, hword, hq,
      getColor_replaceChild, h.left, h.right, h.none, h.only, h.wordX.getColor_eq,
      h.wordZ.getColor_eq, hxz, hxz.symm, hyx.symm, hyz.symm, hr, hwx, hwx.symm, hwz, hwz.symm,
      h.wy]

lemma Pair.word_near (hr : z = r) {b p : ℕ} {c : Bool} (hb : Word s b p c) :
    Word (exchange s x y z) b
      (if b = z then y else if q ≠ 0 ∧ b = q then x else if b = x then z else
        if b = l then z else p)
      (if b = x then cz else if b = z then cx else c) := by
  rw [h.exchange_near hr]
  have hz := h.alignedZ.isParent
  have hx := h.alignedX.isParent
  have h₁ := ((hb.replaceChild y x z).setChild z false l).setChild x false 0
  have h₂ := ((h₁.setParent hz l).setChild x true q).setChild z true x
  have h₃ := h₂.setParent hz x
  by_cases hq : q = 0
  · have h₄ := ((h₃.setParent h.wordX.1 z).setColor z cx).setColor x cz
    simpa [hq] using h₄
  · have h₄ := (((h₃.setParent hx q).setParent h.wordX.1 z).setColor z cx).setColor x cz
    simpa [hq] using h₄

lemma Pair.word_far (hr : z ≠ r) (hwx : w ≠ x) {b p : ℕ} {c : Bool} (hb : Word s b p c) :
    Word (exchange s x y z) b
      (if b = z then y else if q ≠ 0 ∧ b = q then x else if b = x then w else
        if b = r then z else if b = l then z else p)
      (if b = x then cz else if b = z then cx else c) := by
  rw [h.exchange_far hr hwx]
  have hz := h.alignedZ.isParent
  have hx := h.alignedX.isParent
  have h₁ := ((hb.replaceChild y x z).setChild z false l).setChild x false 0
  have h₂ := ((h₁.setParent hz l).setChild x true q).setChild z true r
  have h₃ := ((h₂.setParent hz r).setChild w (z = child s w true) x).setParent h.parentW x
  by_cases hq : q = 0
  · have h₄ := ((h₃.setParent h.wordX.1 z).setColor z cx).setColor x cz
    simpa [hq] using h₄
  · have h₄ := (((h₃.setParent hx q).setParent h.wordX.1 z).setColor z cx).setColor x cz
    simpa [hq] using h₄

lemma Pair.child_near (hr : z = r) (b : ℕ) (d : Bool) : child (exchange s x y z) b d =
    if b = z then (if d then x else l) else if b = x then (if d then q else 0)
    else if y ≠ 0 ∧ b = y ∧ d = decide (x = child s y true) then z else child s b d := by
  rw [h.exchange_near hr]
  have hif : ∀ s' : Tree, child (if q ≠ 0 then setParent s' q x else s') b d = child s' b d := by
    intro s'
    split
    · exact child_setParent _ _ _ _
    · rfl
  simp only [child_setColor, child_setParent, hif, child_setChild, child_replaceChild]
  have hxz := h.ne
  cases d
  · by_cases hbz : b = z
    · simp [hbz, hxz.symm]
    · by_cases hbx : b = x <;> simp [hbz, hbx, hxz]
  · by_cases hbz : b = z
    · simp [hbz]
    · by_cases hbx : b = x <;> simp [hbz, hbx, hxz]

lemma Pair.child_far (hr : z ≠ r) (hwx : w ≠ x) (b : ℕ) (d : Bool) :
    child (exchange s x y z) b d =
      if b = z then (if d then r else l) else if b = x then (if d then q else 0)
      else if b = w ∧ d = decide (z = child s w true) then x
      else if y ≠ 0 ∧ b = y ∧ d = decide (x = child s y true) then z else child s b d := by
  rw [h.exchange_far hr hwx]
  have hif : ∀ s' : Tree, child (if q ≠ 0 then setParent s' q x else s') b d = child s' b d := by
    intro s'
    split
    · exact child_setParent _ _ _ _
    · rfl
  have hxz := h.ne
  have hwz := h.wz
  simp only [child_setColor, child_setParent, hif, child_setChild, child_replaceChild]
  cases d
  · by_cases hbz : b = z
    · simp [hbz, hxz.symm, hwz.symm]
    · by_cases hbx : b = x <;> simp [hbz, hbx, hxz, hwx.symm]
  · by_cases hbz : b = z
    · simp [hbz, hwz.symm]
    · by_cases hbx : b = x <;> simp [hbz, hbx, hxz, hwx.symm]

lemma Pair.root_eq : (exchange s x y z).root = if y ≠ 0 then s.root else z := by
  have hroot : (replaceChild s y x z).root = if y ≠ 0 then s.root else z := by
    rw [replaceChild]
    split <;> rfl
  rw [← hroot]
  by_cases hr : z = r
  · rw [h.exchange_near hr]
    by_cases hq : q = 0 <;> simp [hq, setColor, setParent, setChild, Tree.modify]
  · rw [h.exchange_far hr (fun hw => hr (h.near_iff.mpr hw))]
    by_cases hq : q = 0 <;> simp [hq, setColor, setParent, setChild, Tree.modify]

lemma Pair.key_eq (b : ℕ) : ((exchange s x y z).heap b).key = (s.heap b).key := by
  have hset : ∀ (s : Tree) n d v, ((setChild s n d v).heap b).key = (s.heap b).key := by
    intro s n d v
    by_cases hb : b = n <;> simp [setChild, Tree.modify, hb]
  have hpar : ∀ (s : Tree) n p, ((setParent s n p).heap b).key = (s.heap b).key := by
    intro s n p
    by_cases hb : b = n <;> simp [setParent, Tree.modify, hb]
  have hcol : ∀ (s : Tree) n c, ((setColor s n c).heap b).key = (s.heap b).key := by
    intro s n c
    by_cases hb : b = n <;> simp [setColor, Tree.modify, hb]
  have hrep : ((replaceChild s y x z).heap b).key = (s.heap b).key := by
    rw [replaceChild]
    split
    · exact hset _ _ _ _
    · rfl
  by_cases hr : z = r
  · rw [h.exchange_near hr]
    by_cases hq : q = 0 <;> simp [hq, hcol, hpar, hset, hrep]
  · rw [h.exchange_far hr (fun hw => hr (h.near_iff.mpr hw))]
    by_cases hq : q = 0 <;> simp [hq, hcol, hpar, hset, hrep]

lemma Pair.child_eq (b : ℕ) (d : Bool) : child (exchange s x y z) b d =
    if b = z then (if d then Equiv.swap x z r else l) else if b = x then (if d then q else 0)
    else if b = w ∧ d = decide (z = child s w true) then x
    else if y ≠ 0 ∧ b = y ∧ d = decide (x = child s y true) then z else child s b d := by
  by_cases hr : z = r
  · rw [h.child_near hr, ← hr, Equiv.swap_apply_right, h.near_iff.mp hr]
    by_cases hb : b = x <;> simp [hb]
  · rw [h.child_far hr (fun hw => hr (h.near_iff.mpr hw)),
      Equiv.swap_apply_of_ne_of_ne h.rx (Ne.symm hr)]

lemma Pair.word_eq {b p : ℕ} {c : Bool} (hb : Word s b p c) :
    Word (exchange s x y z) b
      (if b = z then y else if q ≠ 0 ∧ b = q then x else if b = x then Equiv.swap x z w else
        if b = r ∨ b = l then z else p)
      (if b = x then cz else if b = z then cx else c) := by
  by_cases hr : z = r
  · have hw := h.word_near hr hb
    rw [h.near_iff.mp hr, Equiv.swap_apply_left, ← hr]
    by_cases hbz : b = z
    · simpa [hbz] using hw
    · simpa [hbz] using hw
  · have hwx : w ≠ x := fun hw => hr (h.near_iff.mpr hw)
    have hw := h.word_far hr hwx hb
    rw [Equiv.swap_apply_of_ne_of_ne hwx h.wz]
    by_cases hbr : b = r
    · simpa [hbr] using hw
    · simpa [hbr] using hw

end

/-! ### The links of a tree -/

/-- Links down and links up belong together. -/
structure Linked (s : Tree) (A : List ℕ) : Prop where
  ne_zero : ∀ a ∈ A, a ≠ 0
  down : ∀ a ∈ A, ∀ d, child s a d ≠ 0 → getParent s (child s a d) = a
  upward : ∀ a ∈ A, getParent s a ≠ 0 → ∃ d, child s (getParent s a) d = a
  sides : ∀ a ∈ A, child s a false = child s a true → child s a false = 0

namespace Linked

variable {A : List ℕ} (h : Linked s A)

include h

lemma child_eq_iff {a b p : ℕ} (ha : a ∈ A) (hb : b ∈ A) (hp : getParent s b = p) (d : Bool) :
    child s a d = b ↔ a = p ∧ d = decide (b = child s p true) := by
  have hb0 := h.ne_zero b hb
  constructor
  · intro hd
    have hpa : a = p := by
      rw [← hp, ← hd]
      exact (h.down a ha d (hd ▸ hb0)).symm
    subst hpa
    refine ⟨rfl, ?_⟩
    cases d
    · refine (decide_eq_false fun hbt => hb0 ?_).symm
      rw [← hd]
      exact h.sides a ha (hd.trans hbt)
    · rw [hd, decide_eq_true rfl]
  · rintro ⟨rfl, rfl⟩
    obtain ⟨e, he⟩ := h.upward b hb (hp ▸ h.ne_zero a ha)
    rw [hp] at he
    by_cases hbt : b = child s a true
    · rw [decide_eq_true hbt, ← hbt]
    · rw [decide_eq_false hbt]
      cases e
      · exact he
      · exact absurd he.symm hbt

lemma parent_eq_iff {a n : ℕ} (ha : a ∈ A) (hn : n ∈ A) :
    getParent s a = n ↔ ∃ d, child s n d = a := by
  constructor
  · rintro rfl
    exact h.upward a ha (h.ne_zero _ hn)
  · rintro ⟨d, rfl⟩
    exact h.down n hn d (h.ne_zero _ ha)

end Linked

section

variable {x y z l r q w : ℕ} {cx cz : Bool} {A : List ℕ} (h : Pair s x y z l r q w cx cz)
  (hl : Linked s A) (hx : x ∈ A) (hz : z ∈ A)

include h hl hx hz

lemma Pair.child_exchange {a : ℕ} (ha : a ∈ A) (d : Bool) :
    child (exchange s x y z) (Equiv.swap x z a) d = Equiv.swap x z (child s a d) := by
  have hx0 := hl.ne_zero x hx
  have hz0 := hl.ne_zero z hz
  have hy := hl.child_eq_iff ha hx h.wordX.getParent_eq d
  have hw := hl.child_eq_iff ha hz h.wordZ.getParent_eq d
  have hxz := h.ne
  have hσ0 : Equiv.swap x z 0 = 0 := Equiv.swap_apply_of_ne_of_ne hx0.symm hz0.symm
  have hσl : Equiv.swap x z l = l := Equiv.swap_apply_of_ne_of_ne h.lx h.lz
  have hσq : Equiv.swap x z q = q := Equiv.swap_apply_of_ne_of_ne h.qx h.qz
  rw [h.child_eq]
  by_cases hax : a = x
  · subst hax
    rw [Equiv.swap_apply_left, if_pos rfl]
    cases d
    · rw [if_neg (by simp), h.left, hσl]
    · rw [if_pos rfl, h.right]
  by_cases haz : a = z
  · subst haz
    rw [Equiv.swap_apply_right, if_neg hxz, if_pos rfl]
    cases d
    · rw [if_neg (by simp), h.none, hσ0]
    · rw [if_pos rfl, h.only, hσq]
  rw [Equiv.swap_apply_of_ne_of_ne hax haz, if_neg haz, if_neg hax]
  by_cases hcz : child s a d = z
  · rw [if_pos (hw.mp hcz), hcz, Equiv.swap_apply_right]
  rw [if_neg fun hn => hcz (hw.mpr hn)]
  by_cases hcx : child s a d = x
  · obtain ⟨hay, hd⟩ := hy.mp hcx
    rw [if_pos ⟨hay ▸ hl.ne_zero a ha, hay, hd⟩, hcx, Equiv.swap_apply_left]
  · rw [if_neg fun hn => hcx (hy.mpr hn.2), Equiv.swap_apply_of_ne_of_ne hcx hcz]

lemma Pair.word_exchange {a p : ℕ} {c : Bool} (ha : a ∈ A) (hp : Word s a p c) :
    Word (exchange s x y z) (Equiv.swap x z a) (Equiv.swap x z p) c := by
  have hxz := h.ne
  by_cases hax : a = x
  · subst hax
    have hw := h.word_eq h.wordZ
    obtain rfl : p = y := hp.getParent_eq.symm.trans h.wordX.getParent_eq
    obtain rfl : c = cx := hp.getColor_eq.symm.trans h.wordX.getColor_eq
    rw [Equiv.swap_apply_left, Equiv.swap_apply_of_ne_of_ne h.yx h.yz]
    simpa [hxz.symm] using hw
  by_cases haz : a = z
  · subst haz
    have hw := h.word_eq h.wordX
    obtain rfl : p = w := hp.getParent_eq.symm.trans h.wordZ.getParent_eq
    obtain rfl : c = cz := hp.getColor_eq.symm.trans h.wordZ.getColor_eq
    rw [Equiv.swap_apply_right]
    simpa [hxz, h.qx.symm] using hw
  have hpx := hl.parent_eq_iff ha hx
  have hpz := hl.parent_eq_iff ha hz
  rw [hp.getParent_eq, Bool.exists_bool] at hpx hpz
  rw [h.left, h.right] at hpx
  rw [h.none, h.only] at hpz
  have ha0 := hl.ne_zero a ha
  have hw := h.word_eq hp
  rw [if_neg haz, if_neg hax, if_neg hax, if_neg haz] at hw
  rw [Equiv.swap_apply_of_ne_of_ne hax haz]
  by_cases hcz : p = z
  · have haq : q = a := (hpz.mp hcz).resolve_left fun h0 => ha0 h0.symm
    rw [if_pos ⟨haq ▸ ha0, haq.symm⟩] at hw
    rwa [hcz, Equiv.swap_apply_right]
  rw [if_neg fun hn => hcz (hpz.mpr (.inr hn.2.symm))] at hw
  by_cases hcx : p = x
  · rw [if_pos ((hpx.mp hcx).symm.imp Eq.symm Eq.symm)] at hw
    rwa [hcx, Equiv.swap_apply_left]
  · rw [if_neg fun hn => hcx (hpx.mpr (hn.symm.imp Eq.symm Eq.symm))] at hw
    rwa [Equiv.swap_apply_of_ne_of_ne hcx hcz]

end

lemma Rep.getParent_ptr {par : ℕ} {t : CTree Label} (h : Rep s par t) (ht : ptr t ≠ 0) :
    getParent s (ptr t) = par := by
  cases t with
  | nil => exact absurd rfl ht
  | node c l a r => exact h.1.getParent_eq

lemma mem_addrs_node {c : Bool} {a : Label} {l r : CTree Label} {b : ℕ} :
    b ∈ addrs (.node c l a r) ↔ b = a.addr ∨ b ∈ addrs l ∨ b ∈ addrs r :=
  mem_addrs_join (d := false)

lemma Rep.ne_zero {par : ℕ} {t : CTree Label} (h : Rep s par t) : ∀ a ∈ addrs t, a ≠ 0 := by
  induction t generalizing par with
  | nil => simp [addrs, toList]
  | node c l a r ihl ihr =>
    intro b hb
    rcases mem_addrs_node.mp hb with rfl | hb | hb
    · exact h.1.aligned.1
    · exact ihl h.2.1 b hb
    · exact ihr h.2.2 b hb

lemma Rep.down {par : ℕ} {t : CTree Label} (h : Rep s par t) :
    ∀ a ∈ addrs t, ∀ d, child s a d ≠ 0 → getParent s (child s a d) = a := by
  induction t generalizing par with
  | nil => simp [addrs, toList]
  | node c l a r ihl ihr =>
    obtain ⟨ha, hl, hr⟩ := h
    intro b hb d hd
    rcases mem_addrs_node.mp hb with rfl | hb | hb
    · cases d
      · rw [ha.near] at hd ⊢
        exact hl.getParent_ptr hd
      · have hfar : child s a.addr true = ptr r := ha.far
        rw [hfar] at hd ⊢
        exact hr.getParent_ptr hd
    · exact ihl hl b hb d hd
    · exact ihr hr b hb d hd

lemma Rep.upward {par : ℕ} {t : CTree Label} (h : Rep s par t) : ∀ a ∈ addrs t,
    a = ptr t ∧ getParent s a = par ∨
      getParent s a ∈ addrs t ∧ ∃ d, child s (getParent s a) d = a := by
  induction t generalizing par with
  | nil => simp [addrs, toList]
  | node c l a r ihl ihr =>
    obtain ⟨ha, hl, hr⟩ := h
    intro b hb
    rcases mem_addrs_node.mp hb with rfl | hb | hb
    · exact .inl ⟨rfl, ha.getParent_eq⟩
    · rcases ihl hl b hb with ⟨rfl, hp⟩ | ⟨hm, hex⟩
      · rw [hp]
        exact .inr ⟨mem_addrs_node.mpr (.inl rfl), false, ha.near⟩
      · exact .inr ⟨mem_addrs_node.mpr (.inr (.inl hm)), hex⟩
    · rcases ihr hr b hb with ⟨rfl, hp⟩ | ⟨hm, hex⟩
      · rw [hp]
        exact .inr ⟨mem_addrs_node.mpr (.inl rfl), true, ha.far⟩
      · exact .inr ⟨mem_addrs_node.mpr (.inr (.inr hm)), hex⟩

lemma Rep.sides {par : ℕ} {t : CTree Label} (h : Rep s par t) (hn : (addrs t).Nodup) :
    ∀ a ∈ addrs t, child s a false = child s a true → child s a false = 0 := by
  induction t generalizing par with
  | nil => simp [addrs, toList]
  | node c l a r ihl ihr =>
    obtain ⟨ha, hl, hr⟩ := h
    have hn' : (addrs (join false c a l r) ++ addrsAround []).Nodup := by
      rw [addrsAround, List.append_nil]
      exact hn
    have hf := nodup_join.mp hn'
    intro b hb hlr
    rcases mem_addrs_node.mp hb with rfl | hb | hb
    · have hfar : child s a.addr true = ptr r := ha.far
      rw [ha.near, hfar] at hlr
      rw [ha.near]
      by_contra h0
      exact hf.left_right (ptr_mem_addrs h0) (hlr ▸ ptr_mem_addrs (hlr ▸ h0))
    · exact ihl hl hf.nodup_left b hb hlr
    · exact ihr hr hf.nodup_right b hb hlr

lemma Holds.linked {t : CTree Label} (h : Holds s [] t) : Linked s (addrs t) := by
  have hn := h.nodup
  rw [addrsAround, List.append_nil] at hn
  refine ⟨h.rep.ne_zero, h.rep.down, fun a ha h0 => ?_, h.rep.sides hn⟩
  exact ((h.rep.upward a ha).resolve_left fun hp => h0 hp.2).2

/-! ### Renaming a tree in the heap -/

lemma Rep.exists_isNode {par : ℕ} {t : CTree Label} (h : Rep s par t) :
    ∀ a ∈ t.toList, ∃ par c p q, IsNode s a par c false p q := by
  induction t generalizing par with
  | nil => simp [toList]
  | node c l a r ihl ihr =>
    intro b hb
    rcases List.mem_append.mp hb with hb | hb
    · exact ihl h.2.1 b hb
    rcases List.mem_cons.mp hb with rfl | hb
    · exact ⟨_, _, _, _, h.1⟩
    · exact ihr h.2.2 b hb

lemma ptr_map {σ : ℕ → ℕ} {g : Label → Label} (h0 : σ 0 = 0) {t : CTree Label}
    (h : ∀ a ∈ t.toList, (g a).addr = σ a.addr) : ptr (t.map g) = σ (ptr t) := by
  cases t with
  | nil => exact h0.symm
  | node c l a r => exact h a (by simp [toList])

lemma Rep.rename {s' : Tree} {σ : ℕ → ℕ} {g : Label → Label} (h0 : σ 0 = 0) :
    ∀ {t : CTree Label} {par : ℕ}, (∀ a ∈ t.toList, (g a).addr = σ a.addr) →
    (∀ a ∈ t.toList, ∀ par c p q, IsNode s a par c false p q →
      IsNode s' (g a) (σ par) c false (σ p) (σ q)) →
    Rep s par t → Rep s' (σ par) (t.map g)
  | .nil, _, _, _, _ => trivial
  | .node c l a r, par, hg, hnode, ⟨ha, hl, hr⟩ => by
    have hgl : ∀ b ∈ l.toList, (g b).addr = σ b.addr := fun b hb => hg b (by simp [toList, hb])
    have hgr : ∀ b ∈ r.toList, (g b).addr = σ b.addr := fun b hb => hg b (by simp [toList, hb])
    have hga := hg a (by simp [toList])
    refine ⟨?_, ?_, ?_⟩
    · rw [ptr_map h0 hgl, ptr_map h0 hgr]
      exact hnode a (by simp [toList]) par c _ _ ha
    · rw [hga]
      exact hl.rename h0 hgl fun b hb => hnode b (by simp [toList, hb])
    · rw [hga]
      exact hr.rename h0 hgr fun b hb => hnode b (by simp [toList, hb])

/-- **The exchange renames the two nodes into each other.** -/
theorem Pair.holds {x z : Label} {y l r q w : ℕ} {cx cz : Bool} {t : CTree Label}
    (h : Pair s x.addr y z.addr l r q w cx cz) (ht : Holds s [] t) (hx : x ∈ t.toList)
    (hz : z ∈ t.toList) (hw : w ≠ 0) :
    Holds (exchange s x.addr y z.addr) [] (t.map (Equiv.swap x z)) := by
  have hl := ht.linked
  have hn := ht.nodup
  rw [addrsAround, List.append_nil] at hn
  have hxm : x.addr ∈ addrs t := List.mem_map_of_mem hx
  have hzm : z.addr ∈ addrs t := List.mem_map_of_mem hz
  have h0 : Equiv.swap x.addr z.addr 0 = 0 :=
    Equiv.swap_apply_of_ne_of_ne h.alignedX.1.symm h.alignedZ.1.symm
  have hinj : ∀ a ∈ t.toList, ∀ b ∈ t.toList, a.addr = b.addr → a = b :=
    fun a ha b hb => List.inj_on_of_nodup_map hn ha hb
  have haddr : ∀ a ∈ t.toList, (Equiv.swap x z a).addr = Equiv.swap x.addr z.addr a.addr := by
    intro a ha
    by_cases hax : a = x
    · rw [hax, Equiv.swap_apply_left, Equiv.swap_apply_left]
    by_cases haz : a = z
    · rw [haz, Equiv.swap_apply_right, Equiv.swap_apply_right]
    rw [Equiv.swap_apply_of_ne_of_ne hax haz, Equiv.swap_apply_of_ne_of_ne
      (fun he => hax (hinj a ha x hx he)) (fun he => haz (hinj a ha z hz he))]
  have hmem : ∀ a ∈ t.toList, Equiv.swap x z a ∈ t.toList := by
    intro a ha
    by_cases hax : a = x
    · rwa [hax, Equiv.swap_apply_left]
    by_cases haz : a = z
    · rwa [haz, Equiv.swap_apply_right]
    rwa [Equiv.swap_apply_of_ne_of_ne hax haz]
  have hnode : ∀ a ∈ t.toList, ∀ par c p q, IsNode s a par c false p q →
      IsNode (exchange s x.addr y z.addr) (Equiv.swap x z a) (Equiv.swap x.addr z.addr par) c false
        (Equiv.swap x.addr z.addr p) (Equiv.swap x.addr z.addr q) := by
    intro a ha par c p q' hnode
    have ham : a.addr ∈ addrs t := List.mem_map_of_mem ha
    have hword := h.word_exchange hl hxm hzm ham hnode.toWord
    have hchild := h.child_exchange hl hxm hzm ham
    obtain ⟨par', c', p', q'', hb⟩ := ht.rep.exists_isNode _ (hmem a ha)
    refine ⟨hb.aligned, hword.1, ?_, ?_, ?_, ?_⟩
    · rw [h.key_eq, hb.key]
    · rw [haddr a ha, hword.2]
    · rw [haddr a ha, hchild, hnode.near]
    · rw [haddr a ha, hchild, hnode.far]
  refine ⟨?_, ?_, ?_⟩
  · have hroot : s.root = ptr t := ht.around
    have hx' := h.wordX.getParent_eq
    have hz' := h.wordZ.getParent_eq
    rw [ptr_map h0 haddr, RepAround, h.root_eq, hroot]
    by_cases hy : y = 0
    · -- `x` is the root
      rcases ht.rep.upward x.addr hxm with ⟨he, -⟩ | ⟨hm, -⟩
      · rw [if_neg (by simpa using hy), ← he, Equiv.swap_apply_left]
      · exact absurd (hx'.trans hy) (hl.ne_zero _ hm)
    · have hpt : ∀ b, ptr t = b → b ∈ addrs t → getParent s b = 0 := by
        rintro b rfl hb
        exact ht.rep.getParent_ptr (hl.ne_zero _ hb)
      rw [if_pos hy, Equiv.swap_apply_of_ne_of_ne]
      · exact fun he => hy (hx'.symm.trans (hpt _ he hxm))
      · exact fun he => hw (hz'.symm.trans (hpt _ he hzm))
  · have := ht.rep.rename h0 haddr hnode
    rwa [up, h0] at this
  · have haddrs : addrs (t.map (Equiv.swap x z)) = (addrs t).map (Equiv.swap x.addr z.addr) := by
      rw [addrs, toList_map, addrs, List.map_map, List.map_map]
      exact List.map_congr_left fun a ha => haddr a ha
    rw [addrsAround, List.append_nil, haddrs]
    exact hn.map (Equiv.injective _)

end KernelModel.RbTree
