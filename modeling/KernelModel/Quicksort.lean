import Mathlib.Data.Fintype.Perm
import Mathlib.Logic.Equiv.Basic
import Mathlib.Tactic

/-!
Sorting in place: the elements before a pivot are exchanged to the front, and the two sides are
sorted on their own.

An array is a function of the positions, and an arrangement of it is the array behind a permutation
of the positions.
-/

namespace KernelModel.Quicksort

variable {α : Type*}

def exchange (f : ℕ → α) (i j : ℕ) : ℕ → α := f ∘ Equiv.swap i j

/-- The loop over the first `n` positions from `lo` on, with the pivot behind `count` positions:
the array, and the number of elements that are less than the pivot. -/
def partition (less : α → α → Bool) (lo count : ℕ) (f : ℕ → α) : ℕ → (ℕ → α) × ℕ
  | 0 => (f, 0)
  | n + 1 =>
    let (g, i) := partition less lo count f n
    if less (g (lo + n)) (g (lo + count)) then (exchange g (lo + i) (lo + n), i + 1) else (g, i)

/-- `g` has the elements of `f` from `lo` on, before `hi`, in another order. -/
def Arranged (lo hi : ℕ) (f g : ℕ → α) : Prop :=
  ∃ σ : Equiv.Perm ℕ, (∀ k, k < lo ∨ hi ≤ k → σ k = k) ∧ g = f ∘ σ

/-- No element from `lo` on, before `hi`, is less than one before it. -/
def Sorted (less : α → α → Bool) (lo hi : ℕ) (f : ℕ → α) : Prop :=
  ∀ i j, lo ≤ i → i < j → j < hi → ¬less (f j) (f i)

section

variable {less : α → α → Bool} {lo hi lo' hi' count n i j k : ℕ} {f g h : ℕ → α}

namespace Arranged

lemma refl (lo hi : ℕ) (f : ℕ → α) : Arranged lo hi f f := ⟨1, fun _ _ => rfl, rfl⟩

lemma trans (hfg : Arranged lo hi f g) (hgh : Arranged lo hi g h) : Arranged lo hi f h := by
  obtain ⟨σ, hσ, rfl⟩ := hfg
  obtain ⟨τ, hτ, rfl⟩ := hgh
  refine ⟨σ * τ, fun k hk => ?_, rfl⟩
  rw [Equiv.Perm.mul_apply, hτ k hk, hσ k hk]

lemma mono (hfg : Arranged lo hi f g) (hlo : lo' ≤ lo) (hhi : hi ≤ hi') : Arranged lo' hi' f g := by
  obtain ⟨σ, hσ, rfl⟩ := hfg
  exact ⟨σ, fun k hk => hσ k (by omega), rfl⟩

lemma outside (hfg : Arranged lo hi f g) (hk : k < lo ∨ hi ≤ k) : g k = f k := by
  obtain ⟨σ, hσ, rfl⟩ := hfg
  exact congrArg f (hσ k hk)

lemma inside (hfg : Arranged lo hi f g) (hlo : lo ≤ k) (hhi : k < hi) :
    ∃ l, lo ≤ l ∧ l < hi ∧ g k = f l := by
  obtain ⟨σ, hσ, rfl⟩ := hfg
  have hmem : lo ≤ σ k ∧ σ k < hi := by
    by_contra hout
    have hfix := hσ (σ k) (by omega)
    have hk : σ k = k := σ.injective hfix
    omega
  exact ⟨σ k, hmem.1, hmem.2, rfl⟩

lemma exchange (hi' : lo ≤ i ∧ i < hi) (hj : lo ≤ j ∧ j < hi) (f : ℕ → α) :
    Arranged lo hi f (exchange f i j) := by
  refine ⟨Equiv.swap i j, fun k hk => Equiv.swap_apply_of_ne_of_ne ?_ ?_, rfl⟩ <;> omega

lemma perm (hfg : Arranged 0 hi f g) :
    ((List.range hi).map g).Perm ((List.range hi).map f) := by
  obtain ⟨σ, hσ, rfl⟩ := hfg
  rw [← List.map_map]
  refine List.Perm.map f ?_
  rw [List.perm_ext_iff_of_nodup (List.nodup_range.map σ.injective) List.nodup_range]
  intro k
  have hmem : ∀ l, l < hi → σ l < hi := by
    intro l hl
    by_contra hout
    have hk : σ l = l := σ.injective (hσ (σ l) (.inr (Nat.le_of_not_lt hout)))
    omega
  rw [List.mem_map, List.mem_range]
  constructor
  · rintro ⟨l, hl, rfl⟩
    exact hmem l (List.mem_range.mp hl)
  · intro hk
    refine ⟨σ.symm k, List.mem_range.mpr ?_, σ.apply_symm_apply k⟩
    by_contra hout
    have hfix := hσ (σ.symm k) (.inr (Nat.le_of_not_lt hout))
    rw [σ.apply_symm_apply] at hfix
    omega

end Arranged

/-- What the loop keeps: the elements that are less than the pivot are in front. -/
structure Parted (less : α → α → Bool) (lo count : ℕ) (f g : ℕ → α) (n i : ℕ) : Prop where
  le : i ≤ n
  arranged : Arranged lo (lo + n) f g
  below : ∀ k < i, less (g (lo + k)) (f (lo + count))
  above : ∀ k, i ≤ k → k < n → ¬less (g (lo + k)) (f (lo + count))

lemma partition_spec (less : α → α → Bool) (lo : ℕ) (f : ℕ → α) (hn : n ≤ count) :
    Parted less lo count f (partition less lo count f n).1 n (partition less lo count f n).2 := by
  induction n with
  | zero => exact ⟨le_rfl, .refl lo _ f, fun k hk => absurd hk (Nat.not_lt_zero k),
      fun k _ hk => absurd hk (Nat.not_lt_zero k)⟩
  | succ n ih =>
    obtain ⟨hle, harranged, hbelow, habove⟩ := ih (Nat.le_of_succ_le hn)
    rw [partition]
    obtain ⟨⟨g, i⟩, hg⟩ : ∃ p, partition less lo count f n = p := ⟨_, rfl⟩
    rw [hg] at hle harranged hbelow habove ⊢
    dsimp only at hle harranged hbelow habove ⊢
    have hpivot : g (lo + count) = f (lo + count) := harranged.outside (.inr (by omega))
    have hwide : Arranged lo (lo + (n + 1)) f g := harranged.mono le_rfl (by omega)
    rw [hpivot]
    split_ifs with hless
    · -- The new element takes the place of the first that is not less.
      have hself : ∀ k, exchange g (lo + i) (lo + n) (lo + k) =
          if k = i then g (lo + n) else if k = n then g (lo + i) else g (lo + k) := by
        intro k
        rw [exchange, Function.comp_apply]
        split_ifs with hki hkn
        · rw [hki, Equiv.swap_apply_left]
        · rw [hkn, Equiv.swap_apply_right]
        · rw [Equiv.swap_apply_of_ne_of_ne (by omega) (by omega)]
      refine ⟨Nat.succ_le_succ hle, hwide.trans (.exchange (by omega) (by omega) g),
        fun k hk => ?_, fun k hik hk => ?_⟩
      · dsimp only at hk ⊢
        rw [hself]
        split_ifs with hki hkn
        · exact hless
        · omega
        · exact hbelow k (by omega)
      · dsimp only at hik ⊢
        rw [hself, if_neg (by omega)]
        split_ifs with hkn
        · exact habove i le_rfl (by omega)
        · exact habove k (by omega) (by omega)
    · refine ⟨by omega, hwide, hbelow, fun k hik hk => ?_⟩
      by_cases hkn : k = n
      · exact hkn ▸ hless
      · exact habove k hik (by omega)

/-- **The pivot** in its place: what is less is before it. -/
lemma pivot_spec (less : α → α → Bool) (lo count : ℕ) (f : ℕ → α) :
    let p := partition less lo count f count
    let g := exchange p.1 (lo + p.2) (lo + count)
    p.2 ≤ count ∧ Arranged lo (lo + (count + 1)) f g ∧ g (lo + p.2) = f (lo + count) ∧
      (∀ k < p.2, less (g (lo + k)) (g (lo + p.2))) ∧
      ∀ k, p.2 < k → k ≤ count → ¬less (g (lo + k)) (g (lo + p.2)) := by
  obtain ⟨hle, harranged, hbelow, habove⟩ := partition_spec less lo f (le_refl count)
  obtain ⟨⟨g, i⟩, hg⟩ : ∃ p, partition less lo count f count = p := ⟨_, rfl⟩
  rw [hg] at hle harranged hbelow habove ⊢
  dsimp only at hle harranged hbelow habove ⊢
  have hpivot : g (lo + count) = f (lo + count) := harranged.outside (.inr le_rfl)
  have hplace : exchange g (lo + i) (lo + count) (lo + i) = f (lo + count) := by
    rw [exchange, Function.comp_apply, Equiv.swap_apply_left, hpivot]
  refine ⟨hle, (harranged.mono le_rfl (by omega)).trans (.exchange (by omega) (by omega) g), hplace,
    fun k hk => ?_, fun k hik hk => ?_⟩
  · rw [hplace, exchange, Function.comp_apply,
      Equiv.swap_apply_of_ne_of_ne (by omega) (by omega)]
    exact hbelow k hk
  · rw [hplace, exchange, Function.comp_apply]
    by_cases hkn : k = count
    · rw [hkn, Equiv.swap_apply_right]
      exact habove i le_rfl (by omega)
    · rw [Equiv.swap_apply_of_ne_of_ne (by omega) (by omega)]
      exact habove k (by omega) (by omega)

lemma Sorted.congr (hf : Sorted less lo hi f) (h : ∀ k, lo ≤ k → k < hi → g k = f k) :
    Sorted less lo hi g := by
  intro i j hlo hij hj
  rw [h i hlo (hij.trans hj), h j (hlo.trans hij.le) hj]
  exact hf i j hlo hij hj

lemma sorted_of_sides [IsStrictOrder α fun a b => less a b] {p : ℕ}
    (hleft : Sorted less lo p f) (hright : Sorted less (p + 1) hi f)
    (hbelow : ∀ k, lo ≤ k → k < p → less (f k) (f p))
    (habove : ∀ k, p < k → k < hi → ¬less (f k) (f p)) : Sorted less lo hi f := by
  have htrans : ∀ {a b c : α}, less a b → less b c → less a c :=
    fun hab hbc => IsTrans.trans (r := fun a b => less a b) _ _ _ hab hbc
  have hirrefl : ∀ a : α, ¬less a a := fun a => irrefl_of (fun a b => less a b) a
  intro i j hi' hij hj
  rcases Nat.lt_trichotomy j p with hjp | rfl | hjp
  · exact hleft i j hi' hij hjp
  · exact fun hlt => hirrefl _ (htrans hlt (hbelow i hi' hij))
  · rcases Nat.lt_trichotomy i p with hip | rfl | hip
    · exact fun hlt => habove j hjp hj (htrans hlt (hbelow i hi' hip))
    · exact habove j hjp hj
    · exact hright i j hip hij hj

/-- **Both sides arranged and sorted** on their own, around a pivot in its place. -/
lemma sorted_of_arranged [IsStrictOrder α fun a b => less a b] {p : ℕ} (hp : lo ≤ p) (hhi : p < hi)
    (hleft : Arranged lo p f g) (hsortedLeft : Sorted less lo p g)
    (hright : Arranged (p + 1) hi g h) (hsortedRight : Sorted less (p + 1) hi h)
    (hbelow : ∀ k, lo ≤ k → k < p → less (f k) (f p))
    (habove : ∀ k, p < k → k < hi → ¬less (f k) (f p)) :
    Arranged lo hi f h ∧ Sorted less lo hi h := by
  have hpivot : h p = f p :=
    (hright.outside (.inl (Nat.lt_succ_self p))).trans (hleft.outside (.inr le_rfl))
  have hfront : ∀ k, k < p → h k = g k := fun k hk => hright.outside (.inl (by omega))
  refine ⟨(hleft.mono le_rfl hhi.le).trans (hright.mono (by omega) le_rfl),
    sorted_of_sides (hsortedLeft.congr fun k _ hk => hfront k hk) hsortedRight ?_ ?_⟩
  · intro k hlo hk
    obtain ⟨l, hl, hlp, heq⟩ := hleft.inside hlo hk
    rw [hpivot, hfront k hk, heq]
    exact hbelow l hl hlp
  · intro k hk hkhi
    obtain ⟨l, hl, hlhi, heq⟩ := hright.inside hk hkhi
    rw [hpivot, heq, hleft.outside (.inr (Nat.le_of_succ_le hl))]
    exact habove l hl hlhi

end

end KernelModel.Quicksort
