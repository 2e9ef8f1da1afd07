import Mathlib.Data.List.Perm.Basic
import Mathlib.Tactic

/-!
Ranges that tile an interval.

The ranges are pairwise disjoint, and together they are the interval. A range may be split, two
neighbours may be merged, and the interval may grow or lose a range at its lower end.
-/

namespace KernelModel

structure Range where
  start : ℕ
  stop : ℕ

def Range.Apart (r r' : Range) : Prop := r.stop ≤ r'.start ∨ r'.stop ≤ r.start

lemma Range.Apart.symm {r r' : Range} (h : r.Apart r') : r'.Apart r := Or.symm h

structure Tiled (first last : ℕ) (l : List Range) : Prop where
  le : first ≤ last
  inside : ∀ r ∈ l, first ≤ r.start ∧ r.start < r.stop ∧ r.stop ≤ last
  apart : l.Pairwise Range.Apart
  cover : ∀ a, first ≤ a → a < last → ∃ r ∈ l, r.start ≤ a ∧ a < r.stop

namespace Tiled

variable {first last a b c : ℕ} {l l' : List Range}

lemma nil (a : ℕ) : Tiled a a [] where
  le := le_rfl
  inside := nofun
  apart := .nil
  cover := fun _ hle hlt => absurd (hle.trans_lt hlt) (lt_irrefl a)

lemma perm (h : Tiled first last l) (hp : l.Perm l') : Tiled first last l' where
  le := h.le
  inside := fun r hr => h.inside r (hp.mem_iff.2 hr)
  apart := (hp.pairwise_iff fun hr => hr.symm).1 h.apart
  cover := fun x hle hlt => by
    obtain ⟨r, hr, hx⟩ := h.cover x hle hlt
    exact ⟨r, hp.mem_iff.1 hr, hx⟩

lemma start_ne {r r' : Range} (h : Tiled first last (r :: l)) (hr : r' ∈ l) :
    r'.start ≠ r.start := by
  have hapart := (List.pairwise_cons.1 h.apart).1 r' hr
  have hin := h.inside r (List.mem_cons_self ..)
  have hin' := h.inside r' (List.mem_cons_of_mem _ hr)
  rcases hapart with hle | hle <;> omega

lemma split (h : Tiled first last (⟨a, c⟩ :: l)) (hab : a < b) (hbc : b < c) :
    Tiled first last (⟨a, b⟩ :: ⟨b, c⟩ :: l) := by
  have hin := h.inside _ (List.mem_cons_self ..)
  obtain ⟨hfirst, hrest⟩ := List.pairwise_cons.1 h.apart
  simp only at hin
  refine ⟨h.le, ?_, ?_, ?_⟩
  · intro r hr
    rcases List.mem_cons.1 hr with rfl | hr
    · exact ⟨hin.1, hab, by simp only; omega⟩
    · rcases List.mem_cons.1 hr with rfl | hr
      · exact ⟨by simp only; omega, hbc, hin.2.2⟩
      · exact h.inside r (List.mem_cons_of_mem _ hr)
  · refine .cons ?_ (.cons ?_ hrest)
    · intro r hr
      rcases List.mem_cons.1 hr with rfl | hr
      · exact .inl le_rfl
      · exact (hfirst r hr).imp (fun hle => hbc.le.trans hle) id
    · exact fun r hr => (hfirst r hr).imp id fun hle => hle.trans hab.le
  · intro x hle hlt
    obtain ⟨r, hr, hx⟩ := h.cover x hle hlt
    rcases List.mem_cons.1 hr with rfl | hr
    · by_cases hxb : x < b
      · exact ⟨⟨a, b⟩, List.mem_cons_self .., hx.1, hxb⟩
      · exact ⟨⟨b, c⟩, List.mem_cons_of_mem _ (List.mem_cons_self ..), Nat.le_of_not_lt hxb, hx.2⟩
    · exact ⟨r, List.mem_cons_of_mem _ (List.mem_cons_of_mem _ hr), hx⟩

lemma merge (h : Tiled first last (⟨a, b⟩ :: ⟨b, c⟩ :: l)) : Tiled first last (⟨a, c⟩ :: l) := by
  obtain ⟨hfirst, hrest⟩ := List.pairwise_cons.1 h.apart
  obtain ⟨hsecond, hrest⟩ := List.pairwise_cons.1 hrest
  have hab := h.inside _ (List.mem_cons_self ..)
  have hbc := h.inside _ (List.mem_cons_of_mem _ (List.mem_cons_self ..))
  simp only at hab hbc
  refine ⟨h.le, ?_, .cons ?_ hrest, ?_⟩
  · intro r hr
    rcases List.mem_cons.1 hr with rfl | hr
    · exact ⟨hab.1, hab.2.1.trans hbc.2.1, hbc.2.2⟩
    · exact h.inside r (List.mem_cons_of_mem _ (List.mem_cons_of_mem _ hr))
  · intro r hr
    have hin := h.inside r (List.mem_cons_of_mem _ (List.mem_cons_of_mem _ hr))
    have hleft := hfirst r (List.mem_cons_of_mem _ hr)
    have hright := hsecond r hr
    simp only [Range.Apart] at hleft hright ⊢
    omega
  · intro x hle hlt
    obtain ⟨r, hr, hx⟩ := h.cover x hle hlt
    rcases List.mem_cons.1 hr with rfl | hr
    · exact ⟨⟨a, c⟩, List.mem_cons_self .., hx.1, hx.2.trans hbc.2.1⟩
    · rcases List.mem_cons.1 hr with rfl | hr
      · exact ⟨⟨a, c⟩, List.mem_cons_self .., hab.2.1.le.trans hx.1, hx.2⟩
      · exact ⟨r, List.mem_cons_of_mem _ hr, hx⟩

lemma grow (h : Tiled first last l) (hlt : a < first) : Tiled a last (⟨a, first⟩ :: l) where
  le := hlt.le.trans h.le
  inside := fun r hr => by
    rcases List.mem_cons.1 hr with rfl | hr
    · exact ⟨le_rfl, hlt, h.le⟩
    · have hin := h.inside r hr
      exact ⟨hlt.le.trans hin.1, hin.2⟩
  apart := .cons (fun r hr => .inl (h.inside r hr).1) h.apart
  cover := fun x hle hx => by
    by_cases hxf : x < first
    · exact ⟨⟨a, first⟩, List.mem_cons_self .., hle, hxf⟩
    · obtain ⟨r, hr, hxr⟩ := h.cover x (Nat.le_of_not_lt hxf) hx
      exact ⟨r, List.mem_cons_of_mem _ hr, hxr⟩

lemma shrink (h : Tiled first last (⟨first, b⟩ :: l)) : Tiled b last l := by
  obtain ⟨hfirst, hrest⟩ := List.pairwise_cons.1 h.apart
  have hin := h.inside _ (List.mem_cons_self ..)
  simp only at hin
  refine ⟨hin.2.2, ?_, hrest, ?_⟩
  · intro r hr
    have hr' := h.inside r (List.mem_cons_of_mem _ hr)
    have hapart := hfirst r hr
    simp only [Range.Apart] at hapart
    omega
  · intro x hle hlt
    obtain ⟨r, hr, hx⟩ := h.cover x (hin.2.1.le.trans hle) hlt
    rcases List.mem_cons.1 hr with rfl | hr
    · exact absurd hx.2 (Nat.not_lt.2 hle)
    · exact ⟨r, hr, hx⟩

end Tiled

end KernelModel
