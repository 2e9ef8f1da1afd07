import Mathlib.Tactic

/-!
Prefixes that end inside a sequence.

The pattern is a sequence `p`, of which only the first few letters matter. A prefix of it
that ends at a place of `p` itself is a border; a failure table sends every place to a
shorter border or to a marker that says there is none.
-/

namespace KernelModel.Borders

variable {α : Type*} {p w : ℕ → α}

/-- The first `b` letters of `p` stand in `w` right before place `n`. -/
def Ends (p w : ℕ → α) (n b : ℕ) : Prop := b ≤ n ∧ ∀ i < b, w (n - b + i) = p i

lemma ends_zero (p w : ℕ → α) (n : ℕ) : Ends p w n 0 := ⟨Nat.zero_le n, fun _ hi => by omega⟩

lemma Ends.trans {n b b' : ℕ} (h : Ends p w n b) (h' : Ends p p b b') : Ends p w n b' := by
  obtain ⟨hle, hw⟩ := h
  obtain ⟨hle', hp⟩ := h'
  refine ⟨hle'.trans hle, fun i hi => ?_⟩
  rw [← hp i hi, ← hw (b - b' + i) (by omega)]
  congr 1
  omega

lemma Ends.succ {n b : ℕ} (h : Ends p w n b) (heq : w n = p b) : Ends p w (n + 1) (b + 1) := by
  obtain ⟨hle, hw⟩ := h
  refine ⟨by omega, fun i hi => ?_⟩
  rcases Nat.lt_succ_iff_lt_or_eq.mp hi with hi | rfl
  · rw [← hw i hi]
    congr 1
    omega
  · rw [← heq]
    congr 1
    omega

/-- The entries below `m` of a failure table are the marker or shorter borders. -/
structure Failure (p : ℕ → α) (marker : ℕ) (table : ℕ → ℕ) (m : ℕ) : Prop where
  zero : 0 < m → table 0 = marker
  border : ∀ i < m, table i = marker ∨ table i < i ∧ Ends p p i (table i)

lemma Failure.mono {marker m m' : ℕ} {table : ℕ → ℕ} (h : Failure p marker table m)
    (hm : m' ≤ m) : Failure p marker table m' :=
  ⟨fun hpos => h.zero (by omega), fun i hi => h.border i (by omega)⟩

lemma Failure.update {marker m b : ℕ} {table : ℕ → ℕ} (h : Failure p marker table m)
    (hm : 0 < m) (hb : b = marker ∨ b < m ∧ Ends p p m b) :
    Failure p marker (Function.update table m b) (m + 1) := by
  refine ⟨fun _ => ?_, fun i hi => ?_⟩
  · rw [Function.update_of_ne (by omega)]
    exact h.zero hm
  · rcases Nat.lt_succ_iff_lt_or_eq.mp hi with hi | rfl
    · rw [Function.update_of_ne (by omega)]
      exact h.border i hi
    · rw [Function.update_self]
      exact hb

end KernelModel.Borders
