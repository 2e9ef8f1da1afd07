import Mathlib.Data.List.GetD
import Mathlib.Tactic

/-!
Blocks of memory with bounds.

A write at or behind the end of a block fails. The loops that move the elements of a block up or
down, and the one that copies a list into it, are described by what they leave at each position.
-/

namespace KernelModel

structure Block (α : Type*) where
  size : ℕ
  data : ℕ → α

namespace Block

variable {α : Type*} (b : Block α)

def set (i : ℕ) (x : α) : Block α := { b with data := Function.update b.data i x }

def write (i : ℕ) (x : α) : Option (Block α) :=
  if i < b.size then some (b.set i x) else none

/-- `for (i = last; i > first; i--) b[i] = b[i - 1]` -/
def shiftUp (b : Block α) (first : ℕ) : ℕ → Option (Block α)
  | 0 => some b
  | last + 1 =>
    if last + 1 > first then
      (b.write (last + 1) (b.data last)).bind fun b => b.shiftUp first last
    else some b

/-- `for (; i < last; i++) b[i] = b[i + 1]` -/
def shiftDown (b : Block α) (last i : ℕ) : Option (Block α) :=
  if i < last then (b.write i (b.data (i + 1))).bind fun b => b.shiftDown last (i + 1)
  else some b
termination_by last - i

/-- The list is copied to the position. -/
def copyInto (b : Block α) (position : ℕ) : List α → Option (Block α)
  | [] => some b
  | x :: l => (b.write position x).bind fun b => b.copyInto (position + 1) l

/-- The first elements. -/
def text (n : ℕ) : List α := (List.range n).map b.data

/-- The first elements, if they are inside. -/
def read (n : ℕ) : Option (List α) := if n ≤ b.size then some (b.text n) else none

/-- `for (i = 0; i < n; i++) b[position + i] = f(i, b[position + i])` -/
def modify (b : Block α) (position : ℕ) (f : ℕ → α → α) : ℕ → Option (Block α)
  | 0 => some b
  | n + 1 => (b.modify position f n).bind fun b =>
      b.write (position + n) (f n (b.data (position + n)))

/-- The string in a block, up to its zero. -/
def string (b : Block UInt8) : List UInt8 := (b.text b.size).takeWhile (· ≠ 0)

variable {b} {i last : ℕ}

@[simp] lemma size_set (i : ℕ) (x : α) : (b.set i x).size = b.size := rfl

@[simp] lemma data_set_self (i : ℕ) (x : α) : (b.set i x).data i = x := Function.update_self _ _ _

lemma data_set_of_ne {j : ℕ} (h : j ≠ i) (x : α) : (b.set i x).data j = b.data j :=
  Function.update_of_ne h _ _

lemma write_eq (h : i < b.size) (x : α) : b.write i x = some (b.set i x) := by
  rw [write, if_pos h]

lemma some_eq {f : ℕ → α} (h : ∀ i, b.data i = f i) : some b = some ⟨b.size, f⟩ :=
  congrArg (fun data => some (Block.mk b.size data)) (funext h)

lemma shiftUp_eq (first : ℕ) (h : last < b.size) :
    b.shiftUp first last =
      some ⟨b.size, fun i => if first < i ∧ i ≤ last then b.data (i - 1) else b.data i⟩ := by
  induction last generalizing b with
  | zero => exact some_eq fun i => by rw [if_neg (by omega)]
  | succ last ih =>
    rw [shiftUp]
    by_cases hfirst : last + 1 > first
    · rw [if_pos hfirst, write_eq h, Option.bind_some]
      refine (@ih (b.set _ _) (Nat.lt_of_succ_lt h)).trans ?_
      congr 2
      funext i
      by_cases hi : i = last + 1
      · rw [if_neg (by omega), if_pos (by omega), hi, data_set_self, Nat.add_sub_cancel]
      · have hbelow : (first < i ∧ i ≤ last + 1) ↔ (first < i ∧ i ≤ last) := by omega
        simp only [hbelow, data_set_of_ne hi]
        split_ifs with hmoved
        · rw [data_set_of_ne (by omega)]
        · rfl
    · rw [if_neg hfirst]
      exact some_eq fun i => by rw [if_neg (by omega)]

lemma shiftDown_eq (h : last ≤ b.size) (i : ℕ) :
    b.shiftDown last i =
      some ⟨b.size, fun j => if i ≤ j ∧ j < last then b.data (j + 1) else b.data j⟩ := by
  induction hn : last - i generalizing b i with
  | zero =>
    rw [shiftDown, if_neg (by omega)]
    exact some_eq fun j => by rw [if_neg (by omega)]
  | succ n ih =>
    rw [shiftDown, if_pos (by omega), write_eq (by omega), Option.bind_some]
    refine (@ih (b.set _ _) h (i + 1) (by omega)).trans ?_
    congr 2
    funext j
    by_cases hj : j = i
    · rw [if_neg (by omega), if_pos (by omega), hj, data_set_self]
    · have habove : (i ≤ j ∧ j < last) ↔ (i + 1 ≤ j ∧ j < last) := by omega
      simp only [habove, data_set_of_ne hj]
      split_ifs with hmoved
      · rw [data_set_of_ne (by omega)]
      · rfl

lemma copyInto_eq {l : List α} {position : ℕ} (h : position + l.length ≤ b.size) :
    b.copyInto position l =
      some ⟨b.size, fun i => if position ≤ i then l.getD (i - position) (b.data i)
        else b.data i⟩ := by
  induction l generalizing b position with
  | nil => exact some_eq fun i => by rw [List.getD_nil, ite_self]
  | cons x l ih =>
    rw [List.length_cons] at h
    rw [copyInto, write_eq (by omega), Option.bind_some]
    refine (@ih (b.set _ _) (position + 1) (by rw [size_set]; omega)).trans ?_
    congr 2
    funext i
    rcases Nat.lt_trichotomy i position with hi | rfl | hi
    · rw [if_neg (by omega), if_neg (by omega), data_set_of_ne (by omega)]
    · rw [if_neg (by omega), if_pos le_rfl, data_set_self, Nat.sub_self,
        List.getD_cons_zero]
    · obtain ⟨n, rfl⟩ : ∃ n, i = position + 1 + n := ⟨i - (position + 1), by omega⟩
      have hn : position + 1 + n - position = n + 1 := by omega
      rw [if_pos (by omega), if_pos (by omega), data_set_of_ne (by omega), hn,
        Nat.add_sub_cancel_left, List.getD_cons_succ]

@[simp] lemma length_text (n : ℕ) : (b.text n).length = n := by
  rw [text, List.length_map, List.length_range]

lemma text_succ (n : ℕ) : b.text (n + 1) = b.text n ++ [b.data n] := by
  rw [text, List.range_succ, List.map_append]
  rfl

lemma text_congr {b' : Block α} {n : ℕ} (h : ∀ i < n, b'.data i = b.data i) :
    b'.text n = b.text n :=
  List.map_congr_left fun i hi => h i (List.mem_range.1 hi)

lemma string_eq {b : Block UInt8} {n : ℕ} (h : ∀ i < n, b.data i ≠ 0) (hzero : b.data n = 0)
    (hn : n < b.size) : b.string = b.text n := by
  obtain ⟨m, hm⟩ : ∃ m, b.size = n + 1 + m := ⟨b.size - (n + 1), by omega⟩
  have htext : ∀ x ∈ b.text n, decide (x ≠ 0) = true := by
    intro x hx
    obtain ⟨i, hi, rfl⟩ := List.mem_map.1 hx
    exact decide_eq_true (h i (List.mem_range.1 hi))
  have hsplit : b.text b.size = b.text n ++ (b.data n :: (List.range m).map fun i =>
      b.data (n + 1 + i)) := by
    rw [hm, text, List.range_add, List.map_append, List.map_map]
    exact (congrArg (· ++ _) (text_succ n)).trans (List.append_assoc _ _ _)
  rw [string, hsplit, List.takeWhile_append_of_pos htext, hzero]
  simp

lemma read_eq {n : ℕ} (h : n ≤ b.size) : b.read n = some (b.text n) := if_pos h

lemma text_add (n m : ℕ) :
    b.text (n + m) = b.text n ++ (List.range m).map fun i => b.data (n + i) := by
  rw [text, List.range_add, List.map_append, List.map_map]
  rfl

lemma data_eq_getD {n k : ℕ} {l : List α} (h : b.text n = l) (hk : k < n) (x : α) :
    b.data k = l.getD k x := by
  rw [← h, List.getD_eq_getElem _ _ (by rwa [length_text])]
  simp [text]

lemma copyInto_text {l : List α} {n : ℕ} (h : n + l.length ≤ b.size) :
    ∃ b' : Block α, b.copyInto n l = some b' ∧ b'.size = b.size ∧
      b'.text (n + l.length) = b.text n ++ l := by
  refine ⟨_, copyInto_eq h, rfl, ?_⟩
  rw [text_add]
  congr 1
  · exact text_congr fun i hi => if_neg (by omega)
  · refine List.ext_getElem (by simp) fun i h1 h2 => ?_
    rw [List.getElem_map, List.getElem_range]
    dsimp only
    rw [if_pos (by omega), Nat.add_sub_cancel_left, List.getD_eq_getElem _ _ h2]

lemma copyInto_none {l : List α} {n : ℕ} (hl : l ≠ []) (h : b.size < n + l.length) :
    b.copyInto n l = none := by
  induction l generalizing b n with
  | nil => exact absurd rfl hl
  | cons x l ih =>
    rw [List.length_cons] at h
    rw [copyInto, write]
    split_ifs with hn
    · rw [Option.bind_some]
      refine @ih (b.set n x) (n + 1) (fun hnil => ?_) (by rw [size_set]; omega)
      rw [hnil, List.length_nil] at h
      omega
    · rfl

lemma modify_eq {position n : ℕ} (f : ℕ → α → α) (h : position + n ≤ b.size) :
    b.modify position f n = some ⟨b.size, fun i =>
      if position ≤ i ∧ i < position + n then f (i - position) (b.data i) else b.data i⟩ := by
  induction n with
  | zero => exact some_eq fun i => by rw [if_neg (by omega)]
  | succ n ih =>
    rw [modify, ih (by omega), Option.bind_some, write_eq (by dsimp only; omega)]
    refine congrArg some (congrArg (Block.mk b.size) (funext fun i => ?_))
    by_cases hi : i = position + n
    · rw [hi, Function.update_self]
      dsimp only
      rw [if_neg (by omega), if_pos (by omega), Nat.add_sub_cancel_left]
    · rw [Function.update_of_ne hi]
      have hin : (position ≤ i ∧ i < position + (n + 1)) ↔ (position ≤ i ∧ i < position + n) := by
        omega
      simp only [hin]

lemma modify_text {n : ℕ} (f : α → α) (h : n ≤ b.size) :
    ∃ b' : Block α, b.modify 0 (fun _ => f) n = some b' ∧ b'.size = b.size ∧
      b'.text n = (b.text n).map f ∧ ∀ i ≥ n, b'.data i = b.data i := by
  refine ⟨_, modify_eq _ (by omega), rfl, ?_, fun i hi => if_neg (by omega)⟩
  rw [text, text, List.map_map]
  refine List.map_congr_left fun i hi => ?_
  have hlt := List.mem_range.mp hi
  exact if_pos (by omega)

end Block

end KernelModel
