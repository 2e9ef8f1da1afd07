import Mathlib.Data.List.Sort
import Mathlib.Tactic

/-!
Trees of nodes with keys, seen as the list of their nodes in the order of the keys.

The place of a node is described by the nodes before and the nodes behind it; every operation
is then an operation at that place.
-/

namespace KernelModel.KeyTree

variable {α : Type*} (key : α → ℕ)

def lookupNode (t : List α) (k : ℕ) : Option α := t.find? fun x => key x = k

/-- The first node whose key is not below `k`. -/
def lookupIncreasingNode (t : List α) (k : ℕ) : Option α := t.find? fun x => k ≤ key x

/-- The last node whose key is not above `k`. -/
def lookupDecreasingNode (t : List α) (k : ℕ) : Option α := t.reverse.find? fun x => key x ≤ k

def place : List α → α → List α
  | [], x => [x]
  | y :: t, x => if key y < key x then y :: place t x else x :: y :: t

/-- The tree with one more node; there is none if the key is taken. -/
def insertNode (t : List α) (x : α) : Option (List α) :=
  if (lookupNode key t (key x)).isSome then none else some (place key t x)

def removeNode (t : List α) (k : ℕ) : List α := t.filter fun x => key x ≠ k

/-- Changes the node with key `k`, which stays where it is. -/
def modifyNode (t : List α) (k : ℕ) (f : α → α) : List α :=
  t.map fun x => if key x = k then f x else x

/-- The keys increase. -/
def Ordered (t : List α) : Prop := t.Pairwise fun x y => key x < key y

variable {key}

/-! ### At a place -/

section

variable {A B : List α} {x : α} {k : ℕ}

lemma lookupNode_at (hA : ∀ a ∈ A, key a < k) (hx : key x = k) :
    lookupNode key (A ++ x :: B) k = some x := by
  have hnone : A.find? (fun a => key a = k) = none := by
    rw [List.find?_eq_none]
    intro a ha
    have := hA a ha
    simp only [decide_eq_true_eq]
    omega
  rw [lookupNode, List.find?_append, hnone, Option.none_or, List.find?_cons_of_pos (by simpa)]

lemma lookupNode_between (hA : ∀ a ∈ A, key a < k) (hB : ∀ b ∈ B, k < key b) :
    lookupNode key (A ++ B) k = none := by
  rw [lookupNode, List.find?_eq_none]
  intro a ha
  simp only [decide_eq_true_eq]
  rcases List.mem_append.mp ha with ha | ha
  · have := hA a ha
    omega
  · have := hB a ha
    omega

lemma lookupIncreasingNode_at (hA : ∀ a ∈ A, key a < k) (hx : k ≤ key x) :
    lookupIncreasingNode key (A ++ x :: B) k = some x := by
  have hnone : A.find? (fun a => k ≤ key a) = none := by
    rw [List.find?_eq_none]
    intro a ha
    have := hA a ha
    simp only [decide_eq_true_eq]
    omega
  rw [lookupIncreasingNode, List.find?_append, hnone, Option.none_or,
    List.find?_cons_of_pos (by simpa)]

lemma lookupIncreasingNode_none (hA : ∀ a ∈ A, key a < k) :
    lookupIncreasingNode key A k = none := by
  rw [lookupIncreasingNode, List.find?_eq_none]
  intro a ha
  have := hA a ha
  simp only [decide_eq_true_eq]
  omega

lemma lookupDecreasingNode_at (hx : key x ≤ k) (hB : ∀ b ∈ B, k < key b) :
    lookupDecreasingNode key (A ++ x :: B) k = some x := by
  have hnone : B.reverse.find? (fun b => key b ≤ k) = none := by
    rw [List.find?_eq_none]
    intro b hb
    have := hB b (List.mem_reverse.mp hb)
    simp only [decide_eq_true_eq]
    omega
  rw [lookupDecreasingNode, List.reverse_append, List.reverse_cons, List.append_assoc,
    List.find?_append, hnone, Option.none_or, List.singleton_append,
    List.find?_cons_of_pos (by simpa)]

lemma lookupDecreasingNode_none (hB : ∀ b ∈ B, k < key b) :
    lookupDecreasingNode key B k = none := by
  rw [lookupDecreasingNode, List.find?_eq_none]
  intro b hb
  have := hB b (List.mem_reverse.mp hb)
  simp only [decide_eq_true_eq]
  omega

lemma place_at (hA : ∀ a ∈ A, key a < key x) (hB : ∀ b ∈ B, key x < key b) :
    place key (A ++ B) x = A ++ x :: B := by
  induction A with
  | nil =>
    cases B with
    | nil => rfl
    | cons b B =>
      have := hB b (List.mem_cons_self ..)
      rw [List.nil_append, List.nil_append, place, if_neg (by omega)]
  | cons a A ih =>
    have := hA a (List.mem_cons_self ..)
    rw [List.cons_append, place, if_pos this,
      ih fun a ha => hA a (List.mem_cons_of_mem _ ha), List.cons_append]

lemma insertNode_at (hA : ∀ a ∈ A, key a < key x) (hB : ∀ b ∈ B, key x < key b) :
    insertNode key (A ++ B) x = some (A ++ x :: B) := by
  rw [insertNode, lookupNode_between hA hB, place_at hA hB]
  simp

lemma removeNode_at (hA : ∀ a ∈ A, key a < k) (hx : key x = k) (hB : ∀ b ∈ B, k < key b) :
    removeNode key (A ++ x :: B) k = A ++ B := by
  have hkeep : ∀ l : List α, (∀ a ∈ l, key a ≠ k) → l.filter (fun a => key a ≠ k) = l := by
    intro l hl
    rw [List.filter_eq_self]
    intro a ha
    simpa using hl a ha
  rw [removeNode, List.filter_append, hkeep A fun a ha => (hA a ha).ne,
    List.filter_cons_of_neg (by simpa), hkeep B fun b hb => (hB b hb).ne']

lemma modifyNode_at (f : α → α) (hA : ∀ a ∈ A, key a < k) (hx : key x = k)
    (hB : ∀ b ∈ B, k < key b) : modifyNode key (A ++ x :: B) k f = A ++ f x :: B := by
  have hkeep : ∀ l : List α, (∀ a ∈ l, key a ≠ k) →
      l.map (fun a => if key a = k then f a else a) = l := by
    intro l hl
    refine (List.map_congr_left fun a ha => ?_).trans (List.map_id l)
    rw [if_neg (hl a ha), id]
  rw [modifyNode, List.map_append, List.map_cons, hkeep A fun a ha => (hA a ha).ne, if_pos hx,
    hkeep B fun b hb => (hB b hb).ne']

lemma Ordered.before (h : Ordered key (A ++ x :: B)) : ∀ a ∈ A, key a < key x := fun a ha =>
  (List.pairwise_append.mp h).2.2 a ha x (List.mem_cons_self ..)

lemma Ordered.behind (h : Ordered key (A ++ x :: B)) : ∀ b ∈ B, key x < key b :=
  (List.pairwise_cons.mp (List.pairwise_append.mp h).2.1).1

end

/-! ### As a set of nodes -/

section

variable {t : List α} {x : α} {k : ℕ}

lemma perm_place (t : List α) (x : α) : (place key t x).Perm (x :: t) := by
  induction t with
  | nil => exact .refl _
  | cons y t ih =>
    rw [place]
    split_ifs
    · exact (ih.cons y).trans (.swap x y t)
    · exact .refl _

lemma insertNode_eq (h : ∀ y ∈ t, key y ≠ key x) : insertNode key t x = some (place key t x) := by
  have hnone : lookupNode key t (key x) = none := by
    rw [lookupNode, List.find?_eq_none]
    exact fun y hy => by simpa using h y hy
  rw [insertNode, hnone]
  rfl

lemma Ordered.place (ht : Ordered key t) (h : ∀ y ∈ t, key y ≠ key x) :
    Ordered key (place key t x) := by
  induction t with
  | nil => exact List.pairwise_singleton _ _
  | cons y t ih =>
    obtain ⟨hy, ht⟩ := List.pairwise_cons.1 ht
    have hne := h y (List.mem_cons_self ..)
    rw [KeyTree.place]
    split_ifs with hlt
    · refine .cons (fun z hz => ?_) (ih ht fun z hz => h z (List.mem_cons_of_mem _ hz))
      rcases List.mem_cons.1 ((perm_place t x).mem_iff.1 hz) with rfl | hz
      · exact hlt
      · exact hy z hz
    · refine .cons (fun z hz => ?_) (.cons hy ht)
      rcases List.mem_cons.1 hz with rfl | hz
      · omega
      · have := hy z hz
        omega

lemma Ordered.removeNode (ht : Ordered key t) (k : ℕ) : Ordered key (removeNode key t k) :=
  List.Pairwise.filter _ ht

lemma mem_removeNode {y : α} : y ∈ removeNode key t k ↔ y ∈ t ∧ key y ≠ k := by
  rw [KeyTree.removeNode, List.mem_filter, decide_eq_true_eq]

lemma Ordered.eq_of_key (ht : Ordered key t) {y : α} (hx : x ∈ t) (hy : y ∈ t)
    (h : key x = key y) : x = y := by
  obtain ⟨A, B, rfl⟩ := List.append_of_mem hx
  rcases List.mem_append.1 hy with hy | hy
  · exact absurd h (ht.before y hy).ne'
  · rcases List.mem_cons.1 hy with rfl | hy
    · rfl
    · exact absurd h (ht.behind y hy).ne

lemma Ordered.perm_removeNode (ht : Ordered key t) (hx : x ∈ t) :
    t.Perm (x :: KeyTree.removeNode key t (key x)) := by
  obtain ⟨A, B, rfl⟩ := List.append_of_mem hx
  rw [removeNode_at ht.before rfl ht.behind]
  exact List.perm_middle

lemma Ordered.lookupNode_eq (ht : Ordered key t) (hx : x ∈ t) (hk : key x = k) :
    lookupNode key t k = some x := by
  obtain ⟨A, B, rfl⟩ := List.append_of_mem hx
  exact lookupNode_at (hk ▸ ht.before) hk

lemma lookupNode_some (h : lookupNode key t k = some x) : x ∈ t ∧ key x = k :=
  ⟨List.mem_of_find?_eq_some h, by simpa using List.find?_some h⟩

lemma lookupNode_none (h : lookupNode key t k = none) : ∀ y ∈ t, key y ≠ k := by
  intro y hy
  simpa using List.find?_eq_none.1 h y hy

lemma lookupIncreasingNode_some (h : lookupIncreasingNode key t k = some x) :
    x ∈ t ∧ k ≤ key x :=
  ⟨List.mem_of_find?_eq_some h, by simpa using List.find?_some h⟩

lemma lookupDecreasingNode_some (h : lookupDecreasingNode key t k = some x) :
    x ∈ t ∧ key x ≤ k :=
  ⟨List.mem_reverse.1 (List.mem_of_find?_eq_some h), by simpa using List.find?_some h⟩

lemma lookupDecreasingNode_eq_none (h : lookupDecreasingNode key t k = none) :
    ∀ y ∈ t, k < key y := by
  intro y hy
  have hnot := List.find?_eq_none.1 h y (List.mem_reverse.2 hy)
  simpa using hnot

lemma Ordered.lookupDecreasingNode_max (ht : Ordered key t)
    (h : lookupDecreasingNode key t k = some x) : ∀ y ∈ t, key y ≤ k → key y ≤ key x := by
  intro y hy hle
  by_contra hlt
  obtain ⟨hx, -⟩ := lookupDecreasingNode_some h
  obtain ⟨A, B, rfl⟩ := List.append_of_mem hy
  have hfind : lookupDecreasingNode key (A ++ y :: B) k =
      ((B.reverse.find? fun b => key b ≤ k).or (some y)) := by
    rw [lookupDecreasingNode, List.reverse_append, List.reverse_cons, List.append_assoc,
      List.find?_append, List.singleton_append, List.find?_cons_of_pos (by simpa)]
  rw [hfind] at h
  cases hb : B.reverse.find? (fun b => key b ≤ k) with
  | none =>
    rw [hb, Option.none_or, Option.some.injEq] at h
    exact hlt (h ▸ le_rfl)
  | some b =>
    rw [hb, Option.some_or, Option.some.injEq] at h
    have hmem : b ∈ B := List.mem_reverse.1 (List.mem_of_find?_eq_some hb)
    exact hlt ((ht.behind b hmem).le.trans_eq (congrArg key h))

lemma mem_modifyNode {f : α → α} {y : α} :
    y ∈ modifyNode key t k f ↔ ∃ z ∈ t, (if key z = k then f z else z) = y :=
  List.mem_map

lemma Ordered.modifyNode {f : α → α} (ht : Ordered key t) (hf : ∀ z, key (f z) = key z) :
    Ordered key (modifyNode key t k f) := by
  refine List.pairwise_map.2 (ht.imp fun {a b} hab => ?_)
  have hkey : ∀ z, key (if key z = k then f z else z) = key z := by
    intro z
    split_ifs
    · exact hf z
    · rfl
  rwa [hkey, hkey]

end

end KernelModel.KeyTree
