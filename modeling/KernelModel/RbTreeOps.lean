import KernelModel.RbTreeRep

/-!
The operations on the heap as operations on trees: painting a node, and a rotation at any
place.
-/

namespace KernelModel.RbTree

open RedBlack RedBlack.CTree

variable {s : Tree} {fs : List (Frame Label)}

/-- A node, its two subtrees and everything around it have no address in common. -/
structure Fresh (fs : List (Frame Label)) (a : Label) (t u : CTree Label) : Prop where
  left : a.addr ∉ addrs t
  right : a.addr ∉ addrs u
  around : a.addr ∉ addrsAround fs
  nodup_left : (addrs t).Nodup
  nodup_right : (addrs u).Nodup
  nodup_around : (addrsAround fs).Nodup
  left_right : (addrs t).Disjoint (addrs u)
  left_around : (addrs t).Disjoint (addrsAround fs)
  right_around : (addrs u).Disjoint (addrsAround fs)

lemma nodup_join {d c : Bool} {a : Label} {t u : CTree Label} :
    (addrs (join d c a t u) ++ addrsAround fs).Nodup ↔ Fresh fs a t u := by
  rw [((addrs_join d c a t u).append_right _).nodup_iff]
  simp only [List.cons_append, List.append_assoc, List.nodup_cons, List.mem_append, not_or,
    List.nodup_append', List.disjoint_append_right]
  constructor
  · rintro ⟨⟨h1, h2, h3⟩, h4, ⟨h5, h6, h7⟩, h8, h9⟩
    exact ⟨h1, h2, h3, h4, h5, h6, h8, h9, h7⟩
  · rintro ⟨h1, h2, h3, h4, h5, h6, h7, h8, h9⟩
    exact ⟨⟨h1, h2, h3⟩, h4, ⟨h5, h6, h9⟩, h7, h8⟩

lemma mem_addrs_join {d c : Bool} {a : Label} {t u : CTree Label} {x : ℕ} :
    x ∈ addrs (join d c a t u) ↔ x = a.addr ∨ x ∈ addrs t ∨ x ∈ addrs u := by
  rw [(addrs_join d c a t u).mem_iff]
  simp

lemma Holds.fresh {d c : Bool} {a : Label} {t u : CTree Label}
    (h : Holds s fs (join d c a t u)) : Fresh fs a t u := nodup_join.mp h.nodup

lemma Holds.isNode {d c : Bool} {a : Label} {t u : CTree Label}
    (h : Holds s fs (join d c a t u)) : IsNode s a (up fs) c d (ptr t) (ptr u) :=
  (rep_join.mp h.rep).1

lemma Holds.setColor {d c : Bool} {a : Label} {t u : CTree Label}
    (h : Holds s fs (join d c a t u)) (c' : Bool) :
    Holds (setColor s a.addr c') fs (join d c' a t u) := by
  have hf := h.fresh
  obtain ⟨ha, ht, hu⟩ := rep_join.mp h.rep
  refine ⟨?_, rep_join.mpr ⟨ha.setColor c', ht.modify _ hf.left, hu.modify _ hf.right⟩,
    nodup_join.mpr hf⟩
  rw [ptr_join]
  have := h.around
  rw [ptr_join] at this
  exact this.modify _ hf.around

/-- **Rotation.** At any place the node `x` and its child `z` on side `!d` change places, and
the subtree between them goes over to `x`. -/
theorem Holds.rotate {d cx cz : Bool} {x z : Label} {A B C : CTree Label}
    (h : Holds s fs (join d cx x A (join d cz z B C))) :
    Holds (rotateSubtree s x.addr d) fs (join d cz z (join d cx x A B) C) := by
  have hf := h.fresh
  have hf' : Fresh (⟨!d, cx, x, A⟩ :: fs) z B C := by
    rw [← join_not, ← holds_join] at h
    exact h.fresh
  obtain ⟨hx, hA, hz'⟩ := rep_join.mp h.rep
  obtain ⟨hz, hB, hC⟩ := rep_join.mp hz'
  have hK := h.around
  rw [ptr_join] at hK hx
  have hpar := hx.isParent
  -- which addresses differ
  have hxz : x.addr ≠ z.addr := fun heq => hf.right (mem_addrs_join.mpr (.inl heq))
  have hxB : x.addr ∉ addrs B := fun hm => hf.right (mem_addrs_join.mpr (.inr (.inl hm)))
  have hxC : x.addr ∉ addrs C := fun hm => hf.right (mem_addrs_join.mpr (.inr (.inr hm)))
  have hzA : z.addr ∉ addrs A := fun hm => hf.left_right hm (mem_addrs_join.mpr (.inl rfl))
  have hzK : z.addr ∉ addrsAround fs := fun hm =>
    hf.right_around (mem_addrs_join.mpr (.inl rfl)) hm
  have hAB : (addrs A).Disjoint (addrs B) := fun a ha hb =>
    hf.left_right ha (mem_addrs_join.mpr (.inr (.inl hb)))
  have hBK : (addrs B).Disjoint (addrsAround fs) := fun a ha hb =>
    hf.right_around (mem_addrs_join.mpr (.inr (.inl ha))) hb
  have hCK : (addrs C).Disjoint (addrsAround fs) := fun a ha hb =>
    hf.right_around (mem_addrs_join.mpr (.inr (.inr ha))) hb
  have hAC : (addrs A).Disjoint (addrs C) := fun a ha hb =>
    hf.left_right ha (mem_addrs_join.mpr (.inr (.inr hb)))
  -- the link from `x` to the subtree between
  have hbz : child s z.addr d = ptr B := hz.near
  set s₁ := setChild s x.addr (!d) (ptr B) with hs₁
  have hx₁ : IsNode s₁ x (up fs) cx d (ptr A) (ptr B) := hx.setFar _
  have hz₁ : IsNode s₁ z x.addr cz d (ptr B) (ptr C) := hz.modify hxz _
  have hA₁ : Rep s₁ x.addr A := hA.modify _ hf.left
  have hB₁ : Rep s₁ z.addr B := hB.modify _ hxB
  have hC₁ : Rep s₁ z.addr C := hC.modify _ hxC
  have hK₁ : RepAround s₁ fs x.addr := hK.modify _ hf.around
  -- and back
  obtain ⟨s₂, hs₂, hx₂, hz₂, hA₂, hB₂, hC₂, hK₂⟩ : ∃ s₂,
      (if ptr B ≠ 0 then setParent s₁ (ptr B) x.addr else s₁) = s₂ ∧
      IsNode s₂ x (up fs) cx d (ptr A) (ptr B) ∧ IsNode s₂ z x.addr cz d (ptr B) (ptr C) ∧
      Rep s₂ x.addr A ∧ Rep s₂ x.addr B ∧ Rep s₂ z.addr C ∧ RepAround s₂ fs x.addr := by
    refine ⟨_, rfl, ?_⟩
    by_cases hB0 : ptr B = 0
    · rw [if_neg (by simpa using hB0)]
      refine ⟨hx₁, hz₁, hA₁, ?_, hC₁, hK₁⟩
      cases B with
      | nil => trivial
      | node c l a r => exact absurd hB0 hB₁.1.aligned.1
    · rw [if_pos hB0]
      have hm := ptr_mem_addrs hB0
      exact ⟨hx₁.modify (fun he => hxB (he ▸ hm)) _, hz₁.modify (fun he => hf'.left (he ▸ hm)) _,
        hA₁.modify _ (fun ha => hAB ha hm), hB₁.setParent hx.aligned.isParent hf'.nodup_left,
        hC₁.modify _ (fun hc => hf'.left_right hm hc), hK₁.modify _ (fun hk => hBK hm hk)⟩
  -- `z` over `x`
  set s₃ := setChild s₂ z.addr d x.addr with hs₃
  have hx₃ : IsNode s₃ x (up fs) cx d (ptr A) (ptr B) := hx₂.modify hxz.symm _
  have hz₃ : IsNode s₃ z x.addr cz d x.addr (ptr C) := hz₂.setNear _
  set s₄ := setParent s₃ x.addr z.addr with hs₄
  have hx₄ : IsNode s₄ x z.addr cx d (ptr A) (ptr B) := hx₃.setParent hz.aligned.isParent
  have hz₄ : IsNode s₄ z x.addr cz d x.addr (ptr C) := hz₃.modify hxz _
  set s₅ := setParent s₄ z.addr (up fs) with hs₅
  have hx₅ : IsNode s₅ x z.addr cx d (ptr A) (ptr B) := hx₄.modify hxz.symm _
  have hz₅ : IsNode s₅ z (up fs) cz d x.addr (ptr C) := hz₄.setParent hpar
  have hA₅ : Rep s₅ x.addr A := ((hA₂.modify _ hzA).modify _ hf.left).modify _ hzA
  have hB₅ : Rep s₅ x.addr B := ((hB₂.modify _ hf'.left).modify _ hxB).modify _ hf'.left
  have hC₅ : Rep s₅ z.addr C := ((hC₂.modify _ hf'.right).modify _ hxC).modify _ hf'.right
  have hK₅ : RepAround s₅ fs x.addr := ((hK₂.modify _ hzK).modify _ hf.around).modify _ hzK
  have hrot : rotateSubtree s x.addr d = replaceChild s₅ (up fs) x.addr z.addr := by
    simp only [rotateSubtree, hx.getParent_eq, hx.far, hbz, ← hs₁, hz₁.near, hs₂, ← hs₃, ← hs₄,
      ← hs₅]
  -- the link from above
  have hup : ∀ {t : CTree Label}, (addrs t).Disjoint (addrsAround fs) → up fs ≠ 0 →
      up fs ∉ addrs t := fun hd hne hm => hd hm (up_mem hne)
  have hupx : up fs ≠ x.addr := fun he =>
    hf.around (he ▸ up_mem (he ▸ hx.aligned.1))
  have hupz : up fs ≠ z.addr := fun he =>
    hzK (he ▸ up_mem (he ▸ hz.aligned.1))
  rw [hrot]
  refine ⟨?_, rep_join.mpr ⟨?_, rep_join.mpr ⟨?_, ?_, ?_⟩, ?_⟩, ?_⟩
  · rw [ptr_join]
    exact hK₅.replaceChild z.addr hx.aligned.1 hf.around hf.nodup_around
  · rw [ptr_join]
    exact hz₅.replaceChild hupz _ _
  · exact hx₅.replaceChild hupx _ _
  · exact hA₅.replaceChild (hup hf.left_around) _ _
  · exact hB₅.replaceChild (hup hBK) _ _
  · exact hC₅.replaceChild (hup hCK) _ _
  · have hperm : (addrs (join d cz z (join d cx x A B) C)).Perm
        (addrs (join d cx x A (join d cz z B C))) := by
      rw [addrs, addrs, toList_rotate d cx cz cz cx]
    exact (hperm.append_right _).nodup_iff.mpr h.nodup

lemma Holds.rotate_not {d cx cz : Bool} {x z : Label} {A B C : CTree Label}
    (h : Holds s fs (join d cx x (join d cz z C B) A)) :
    Holds (rotateSubtree s x.addr (!d)) fs (join d cz z C (join d cx x B A)) := by
  have h' : Holds s fs (join (!d) cx x A (join (!d) cz z B C)) := by
    rw [join_not, join_not]
    exact h
  have := h'.rotate
  rwa [join_not, join_not] at this

end KernelModel.RbTree
