import Mathlib.Tactic

/-!
Circular buffers.

A buffer of size `N` is a function on indices; a window of it starts anywhere and goes on at
index `0` after the last. Copies to and from memory do not wrap, so a window is read and written
in two pieces.
-/

namespace KernelModel.Circular

variable {α : Type*} {N : ℕ}

/-- The `n` elements from index `i` on, without wrapping. -/
def slice (buf : ℕ → α) (i n : ℕ) : List α := (List.range n).map fun k => buf (i + k)

/-- The buffer after a copy of `xs` to index `i`. -/
def blit (buf : ℕ → α) (i : ℕ) (xs : List α) : ℕ → α :=
  fun j => if i ≤ j then xs.getD (j - i) (buf j) else buf j

/-- The `n` elements from index `i` on, around the end. -/
def window (N : ℕ) (buf : ℕ → α) (i n : ℕ) : List α :=
  (List.range n).map fun k => buf ((i + k) % N)

@[simp] lemma length_slice (buf : ℕ → α) (i n : ℕ) : (slice buf i n).length = n := by
  simp [slice]

@[simp] lemma length_window (buf : ℕ → α) (i n : ℕ) : (window N buf i n).length = n := by
  simp [window]

lemma window_add (buf : ℕ → α) (i m n : ℕ) :
    window N buf i (m + n) = window N buf i m ++ window N buf ((i + m) % N) n := by
  rw [window, List.range_add, List.map_append, List.map_map]
  congr 1
  refine List.map_congr_left fun k _ => ?_
  simp [Nat.add_assoc]

lemma take_window (buf : ℕ → α) (i m n : ℕ) :
    (window N buf i m).take n = window N buf i (min n m) := by
  rw [window, ← List.map_take, List.take_range, window]

lemma drop_window (buf : ℕ → α) (i : ℕ) {m n : ℕ} (h : n ≤ m) :
    (window N buf i m).drop n = window N buf ((i + n) % N) (m - n) := by
  obtain ⟨k, rfl⟩ := Nat.exists_eq_add_of_le h
  rw [window_add, Nat.add_sub_cancel_left]
  exact List.drop_left' (length_window ..)

lemma window_congr {buf buf' : ℕ → α} {i n : ℕ}
    (h : ∀ k < n, buf ((i + k) % N) = buf' ((i + k) % N)) :
    window N buf i n = window N buf' i n :=
  List.map_congr_left fun k hk => h k (List.mem_range.mp hk)

lemma slice_append_slice (buf : ℕ → α) {i n m : ℕ} (hi : i < N) (hm : m = min (N - i) n)
    (hn : n ≤ N) : slice buf i m ++ slice buf 0 (n - m) = window N buf i n := by
  obtain ⟨k, rfl⟩ : ∃ k, n = m + k := ⟨n - m, by omega⟩
  rw [window_add, Nat.add_sub_cancel_left]
  congr 1
  · refine List.map_congr_left fun j hj => ?_
    have hj := List.mem_range.mp hj
    rw [Nat.mod_eq_of_lt (by omega)]
  · refine List.map_congr_left fun j hj => ?_
    have hj := List.mem_range.mp hj
    have hend : i + m = N := by omega
    rw [hend, Nat.mod_self, Nat.zero_add, Nat.mod_eq_of_lt (by omega)]

/-! ### Writing -/

lemma blit_of_lt (buf : ℕ → α) {i j : ℕ} (xs : List α) (h : j < i) : blit buf i xs j = buf j := by
  simp [blit, Nat.not_le.mpr h]

lemma blit_of_ge (buf : ℕ → α) {i j : ℕ} (xs : List α) (h : i + xs.length ≤ j) :
    blit buf i xs j = buf j := by
  rw [blit, if_pos (by omega), List.getD_eq_getElem?_getD, List.getElem?_eq_none (by omega)]
  rfl

lemma blit_add (buf : ℕ → α) (i : ℕ) {k : ℕ} {xs : List α} (h : k < xs.length) :
    blit buf i xs (i + k) = xs[k] := by
  rw [blit, if_pos (by omega), Nat.add_sub_cancel_left, List.getD_eq_getElem?_getD,
    List.getElem?_eq_getElem h]
  rfl

@[simp] lemma blit_nil (buf : ℕ → α) (i : ℕ) : blit buf i [] = buf := by
  funext j
  simp [blit]

/-- The buffer after a copy of `xs` to index `i`, around the end. -/
def put (N : ℕ) (buf : ℕ → α) (i : ℕ) (xs : List α) : ℕ → α :=
  blit (blit buf i (xs.take (N - i))) 0 (xs.drop (N - i))

lemma blit_blit_eq_put (buf : ℕ → α) {i n m : ℕ} (xs : List α) (hm : m = min (N - i) n) :
    blit (blit buf i (xs.take m)) 0 ((xs.drop m).take (n - m)) = put N buf i (xs.take n) := by
  rw [put, List.take_take, List.drop_take]
  rcases Nat.le_total (N - i) n with h | h
  · rw [hm, min_eq_left h]
  · rw [hm, min_eq_right h, Nat.sub_self, Nat.sub_eq_zero_of_le h, List.take_zero, List.take_zero]

section

variable {buf : ℕ → α} {i : ℕ} {xs : List α} (hi : i < N) (hxs : xs.length ≤ N)

include hi hxs

lemma put_add {k : ℕ} (hk : k < xs.length) : put N buf i xs ((i + k) % N) = xs[k] := by
  rw [put]
  by_cases hw : i + k < N
  · -- in the first piece, and after the second
    rw [Nat.mod_eq_of_lt hw, blit_of_ge _ _ (by simp; omega), blit_add _ _ (by simp; omega),
      List.getElem_take]
  · have hmod : (i + k) % N = 0 + (k - (N - i)) := by
      rw [Nat.mod_eq_sub_mod (by omega), Nat.mod_eq_of_lt (by omega)]
      omega
    rw [hmod, blit_add _ _ (by simp; omega), List.getElem_drop]
    congr 1
    omega

omit hxs in
lemma put_of_ge {k : ℕ} (hk : xs.length ≤ k) (hkN : k < N) :
    put N buf i xs ((i + k) % N) = buf ((i + k) % N) := by
  rw [put]
  by_cases hw : i + k < N
  · rw [Nat.mod_eq_of_lt hw, blit_of_ge _ _ (by simp; omega), blit_of_ge _ _ (by simp; omega)]
  · have hmod : (i + k) % N = i + k - N := by
      rw [Nat.mod_eq_sub_mod (by omega), Nat.mod_eq_of_lt (by omega)]
    rw [hmod, blit_of_ge _ _ (by simp; omega), blit_of_lt _ _ (by omega)]

lemma window_put : window N (put N buf i xs) i xs.length = xs := by
  refine List.ext_getElem (by simp) fun k hk hk' => ?_
  simp only [window, List.getElem_map, List.getElem_range]
  exact put_add hi hxs hk'

omit hxs in
lemma window_put_of_before {j n : ℕ} (hji : (j + n) % N = i)
    (hn : n + xs.length ≤ N) : window N (put N buf i xs) j n = window N buf j n := by
  refine window_congr fun k hk => ?_
  -- the cell is `N - n + k` places after `i`
  have hcell : (j + k) % N = (i + (N - n + k)) % N := by
    rw [← hji, Nat.mod_add_mod, show j + n + (N - n + k) = j + k + N by omega,
      Nat.add_mod_right]
  rw [hcell]
  exact put_of_ge hi (by omega) (by omega)

end

end KernelModel.Circular
