import Mathlib.Logic.Function.Basic
import Mathlib.Tactic

/-!
Objects on a heap and who is to free them.

An owner holds at most one address. The books are right when each object has exactly one owner and
each owner holds an object; they stay right when an object is allocated for an owner, passed on or
freed, and are wrong as soon as an owner forgets an object.
-/

namespace KernelModel.Ownership

open Function

variable {Owner Address Object : Type*}

/-- Each object has one owner, and what is owned is there. -/
structure Exact (own : Owner → Option Address) (heap : Address → Option Object) : Prop where
  owned : ∀ p, heap p ≠ none ↔ ∃ o, own o = some p
  once : ∀ o o' p, own o = some p → own o' = some p → o = o'

namespace Exact

variable [DecidableEq Owner] [DecidableEq Address] {own : Owner → Option Address}
  {heap : Address → Option Object} {o o' : Owner} {p : Address}

omit [DecidableEq Owner] [DecidableEq Address] in
lemma not_owned (h : Exact own heap) (hp : heap p = none) : own o ≠ some p :=
  fun ho => (h.owned p).mpr ⟨o, ho⟩ hp

omit [DecidableEq Owner] in
lemma change (h : Exact own heap) {x : Option Object} (hp : heap p ≠ none) (hx : x ≠ none) :
    Exact own (update heap p x) where
  owned q := by
    rw [← h.owned q]
    by_cases hq : q = p
    · rw [hq, update_self]
      exact ⟨fun _ => hp, fun _ => hx⟩
    · rw [update_of_ne hq]
  once := h.once

lemma alloc (h : Exact own heap) (x : Object) (ho : own o = none) (hp : heap p = none) :
    Exact (update own o (some p)) (update heap p (some x)) where
  owned q := by
    by_cases hq : q = p
    · rw [hq, update_self]
      exact ⟨fun _ => ⟨o, update_self ..⟩, fun _ => Option.some_ne_none x⟩
    · rw [update_of_ne hq, h.owned q]
      refine exists_congr fun o1 => ?_
      by_cases ho1 : o1 = o
      · rw [ho1, update_self, ho]
        exact ⟨fun hn => absurd hn.symm (Option.some_ne_none q),
          fun hs => absurd (Option.some.inj hs).symm hq⟩
      · rw [update_of_ne ho1]
  once o1 o2 q h1 h2 := by
    rw [update_apply] at h1 h2
    split_ifs at h1 h2 with e1 e2 e2
    · rw [e1, e2]
    · exact absurd (Option.some.inj h1 ▸ h2) (h.not_owned hp)
    · exact absurd (Option.some.inj h2 ▸ h1) (h.not_owned hp)
    · exact h.once o1 o2 q h1 h2

lemma free (h : Exact own heap) (ho : own o = some p) :
    Exact (update own o none) (update heap p none) where
  owned q := by
    by_cases hq : q = p
    · rw [hq, update_self]
      refine ⟨fun hne => absurd rfl hne, fun ⟨o1, h1⟩ => ?_⟩
      rw [update_apply] at h1
      split_ifs at h1 with e1
      exact absurd (h.once o1 o p h1 ho) e1
    · rw [update_of_ne hq, h.owned q]
      refine exists_congr fun o1 => ?_
      by_cases ho1 : o1 = o
      · rw [ho1, update_self, ho]
        exact ⟨fun hs => absurd (Option.some.inj hs).symm hq,
          fun hn => absurd hn.symm (Option.some_ne_none q)⟩
      · rw [update_of_ne ho1]
  once o1 o2 q h1 h2 := by
    rw [update_apply] at h1 h2
    split_ifs at h1 h2 with e1 e2
    exact h.once o1 o2 q h1 h2

omit [DecidableEq Address] in
lemma move (h : Exact own heap) (ho : own o = some p) (ho' : own o' = none) :
    Exact (update (update own o none) o' (some p)) heap where
  owned q := by
    rw [h.owned q]
    constructor
    · rintro ⟨o1, h1⟩
      by_cases ho1 : o1 = o
      · refine ⟨o', ?_⟩
        rw [update_self, ← ho, ← ho1, h1]
      · have hne : o1 ≠ o' := fun he => Option.some_ne_none q (h1.symm.trans (he ▸ ho'))
        exact ⟨o1, by rw [update_of_ne hne, update_of_ne ho1, h1]⟩
    · rintro ⟨o1, h1⟩
      rw [update_apply] at h1
      split_ifs at h1 with e1
      · exact ⟨o, ho.trans h1⟩
      · rw [update_apply] at h1
        split_ifs at h1
        exact ⟨o1, h1⟩
  once o1 o2 q h1 h2 := by
    have hback : ∀ {o3}, update (update own o none) o' (some p) o3 = some q → o3 ≠ o' →
        own o3 = some q ∧ o3 ≠ o := by
      intro o3 h3 hne
      rw [update_of_ne hne, update_apply] at h3
      split_ifs at h3 with e3
      exact ⟨h3, e3⟩
    by_cases e1 : o1 = o' <;> by_cases e2 : o2 = o'
    · rw [e1, e2]
    · rw [e1, update_self] at h1
      obtain ⟨hown, hne⟩ := hback h2 e2
      exact absurd (h.once o2 o q hown (ho.trans h1)) hne
    · rw [e2, update_self] at h2
      obtain ⟨hown, hne⟩ := hback h1 e1
      exact absurd (h.once o1 o q hown (ho.trans h2)) hne
    · exact h.once o1 o2 q (hback h1 e1).1 (hback h2 e2).1

omit [DecidableEq Address] in
lemma leak (h : Exact own heap) (ho : own o = some p) : ¬Exact (update own o none) heap := by
  intro hleak
  obtain ⟨o1, h1⟩ := (hleak.owned p).mp ((h.owned p).mpr ⟨o, ho⟩)
  rw [update_apply] at h1
  split_ifs at h1 with e1
  exact e1 (h.once o1 o p h1 ho)

omit [DecidableEq Owner] in
lemma leak_alloc (h : Exact own heap) (x : Object) (hp : heap p = none) :
    ¬Exact own (update heap p (some x)) := by
  intro hleak
  obtain ⟨o1, h1⟩ := (hleak.owned p).mp (by rw [update_self]; exact Option.some_ne_none x)
  exact h.not_owned hp h1

end Exact

end KernelModel.Ownership
