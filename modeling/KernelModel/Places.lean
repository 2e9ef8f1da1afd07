import Mathlib.Data.List.Nodup
import Mathlib.Tactic

/-!
Things that belong to one place at a time.

The things are held by owners or stand in queues, and move between them: an owner takes a free
thing, puts it at the end of a queue, takes the first one of a queue, or lets it go.
-/

namespace KernelModel.Places

variable {ω τ : Type*}

/-- Every thing has at most one place: one owner, or one position in one queue. -/
structure InOnePlace (owns : ω → τ → Prop) (queue : ℕ → List τ) : Prop where
  alone : ∀ p q t, owns p t → owns q t → p = q
  notQueued : ∀ p t i, owns p t → t ∉ queue i
  nodup : ∀ i, (queue i).Nodup
  oneQueue : ∀ t i j, t ∈ queue i → t ∈ queue j → i = j

variable {owns owns' : ω → τ → Prop} {queue : ℕ → List τ} {t : τ} {p : ω} {i : ℕ}

lemma InOnePlace.shrink (h : InOnePlace owns queue) (howns : ∀ q u, owns' q u → owns q u) :
    InOnePlace owns' queue where
  alone q r u hq hr := h.alone q r u (howns q u hq) (howns r u hr)
  notQueued q u j hq := h.notQueued q u j (howns q u hq)
  nodup := h.nodup
  oneQueue := h.oneQueue

lemma InOnePlace.take (h : InOnePlace owns queue) (hfree : ∀ q, ¬ owns q t)
    (hqueue : ∀ j, t ∉ queue j) (howns : ∀ q u, owns' q u → owns q u ∨ q = p ∧ u = t) :
    InOnePlace owns' queue where
  alone q r u hq hr := by
    obtain hq | ⟨hqp, hqt⟩ := howns q u hq <;> obtain hr | ⟨hrp, hrt⟩ := howns r u hr
    · exact h.alone q r u hq hr
    · exact absurd (hrt ▸ hq) (hfree q)
    · exact absurd (hqt ▸ hr) (hfree r)
    · exact hqp.trans hrp.symm
  notQueued q u j hq := by
    obtain hq | ⟨-, rfl⟩ := howns q u hq
    · exact h.notQueued q u j hq
    · exact hqueue j
  nodup := h.nodup
  oneQueue := h.oneQueue

lemma InOnePlace.append (h : InOnePlace owns queue) (hp : owns p t)
    (howns : ∀ q u, owns' q u → owns q u ∧ u ≠ t) :
    InOnePlace owns' (Function.update queue i (queue i ++ [t])) where
  alone q r u hq hr := h.alone q r u (howns q u hq).1 (howns r u hr).1
  notQueued q u j hq := by
    obtain ⟨hq, hut⟩ := howns q u hq
    rw [Function.update_apply]
    split
    · simp [h.notQueued q u i hq, hut]
    · exact h.notQueued q u j hq
  nodup j := by
    rw [Function.update_apply]
    split
    · refine List.nodup_append.mpr ⟨h.nodup i, List.nodup_singleton t, ?_⟩
      intro a ha b hb hab
      rw [List.mem_singleton] at hb
      exact h.notQueued p t i hp (hb ▸ hab ▸ ha)
    · exact h.nodup j
  oneQueue u j k hj hk := by
    have hmem : ∀ l, u ∈ Function.update queue i (queue i ++ [t]) l →
        u ∈ queue l ∨ l = i ∧ u = t := by
      intro l hl
      rw [Function.update_apply] at hl
      split at hl
      · rename_i hli
        subst hli
        simpa using hl
      · exact .inl hl
    obtain hj | ⟨hji, hjt⟩ := hmem j hj <;> obtain hk | ⟨hki, hkt⟩ := hmem k hk
    · exact h.oneQueue u j k hj hk
    · exact absurd (hkt ▸ hj) (h.notQueued p t j hp)
    · exact absurd (hjt ▸ hk) (h.notQueued p t k hp)
    · exact hji.trans hki.symm

lemma InOnePlace.pop {rest : List τ} (h : InOnePlace owns queue) (hcons : queue i = t :: rest)
    (howns : ∀ q u, owns' q u → owns q u ∨ q = p ∧ u = t) :
    InOnePlace owns' (Function.update queue i rest) := by
  have hfree : ∀ q, ¬ owns q t := fun q hq => h.notQueued q t i hq (by simp [hcons])
  have hmem : ∀ u j, u ∈ Function.update queue i rest j → u ∈ queue j ∧ u ≠ t := by
    intro u j hu
    rw [Function.update_apply] at hu
    split at hu
    · rename_i hji
      subst hji
      have hnodup := hcons ▸ h.nodup j
      refine ⟨by simp [hcons, hu], ?_⟩
      rintro rfl
      exact (List.nodup_cons.mp hnodup).1 hu
    · rename_i hji
      refine ⟨hu, ?_⟩
      rintro rfl
      exact hji (h.oneQueue u j i hu (by simp [hcons]))
  refine ⟨?_, ?_, ?_, ?_⟩
  · intro q r u hq hr
    obtain hq | ⟨hqp, hqt⟩ := howns q u hq <;> obtain hr | ⟨hrp, hrt⟩ := howns r u hr
    · exact h.alone q r u hq hr
    · exact absurd (hrt ▸ hq) (hfree q)
    · exact absurd (hqt ▸ hr) (hfree r)
    · exact hqp.trans hrp.symm
  · intro q u j hq hu
    obtain ⟨hu, hut⟩ := hmem u j hu
    obtain hq | ⟨-, rfl⟩ := howns q u hq
    · exact h.notQueued q u j hq hu
    · exact hut rfl
  · intro j
    rw [Function.update_apply]
    split
    · exact (List.nodup_cons.mp (hcons ▸ h.nodup i)).2
    · exact h.nodup j
  · intro u j k hj hk
    exact h.oneQueue u j k (hmem u j hj).1 (hmem u k hk).1

end KernelModel.Places
