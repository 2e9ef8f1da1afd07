import Mathlib.Data.List.Nodup
import Mathlib.Tactic

/-!
Doubly linked lists.

A list is a first and a last node; every node has a pointer to the next one and one to the one
before. An operation is described by the pointers it leaves at the nodes of the list, so that it
does not matter where these are stored.
-/

namespace KernelModel.DoublyLinked

variable {τ : Type*}

/-- The nodes from `h` on, with `p` before the first of them; behind them are `q` as the last node
and the pointer `e`. -/
def Seg (next prev : τ → Option τ) : Option τ → Option τ → List τ → Option τ → Option τ → Prop
  | p, h, [], q, e => p = q ∧ h = e
  | p, h, t :: l, q, e => h = some t ∧ prev t = p ∧ Seg next prev (some t) (next t) l q e

/-- The list with these first and last nodes has the nodes `l`. -/
def Linked (next prev : τ → Option τ) (head tail : Option τ) (l : List τ) : Prop :=
  Seg next prev none head l tail none

variable {next prev next' prev' : τ → Option τ} {p q h e head tail : Option τ} {t : τ}
  {l A B : List τ}

/-! ### Segments -/

lemma Seg.congr (hs : Seg next prev p h l q e) (hnext : ∀ u ∈ l, next' u = next u)
    (hprev : ∀ u ∈ l, prev' u = prev u) : Seg next' prev' p h l q e := by
  induction l generalizing p h with
  | nil => exact hs
  | cons u l ih =>
    obtain ⟨hh, hp, hrest⟩ := hs
    refine ⟨hh, (hprev u (by simp)).trans hp, ?_⟩
    rw [hnext u (by simp)]
    exact ih hrest (fun v hv => hnext v (by simp [hv])) fun v hv => hprev v (by simp [hv])

lemma seg_append : Seg next prev p h (A ++ B) q e ↔
    ∃ m c, Seg next prev p h A m c ∧ Seg next prev m c B q e := by
  induction A generalizing p h with
  | nil =>
    constructor
    · exact fun hs => ⟨p, h, ⟨rfl, rfl⟩, hs⟩
    · rintro ⟨m, c, ⟨rfl, rfl⟩, hs⟩
      exact hs
  | cons u A ih =>
    constructor
    · rintro ⟨hh, hp, hs⟩
      obtain ⟨m, c, hA, hB⟩ := ih.mp hs
      exact ⟨m, c, ⟨hh, hp, hA⟩, hB⟩
    · rintro ⟨m, c, ⟨hh, hp, hA⟩, hB⟩
      exact ⟨hh, hp, ih.mpr ⟨m, c, hA, hB⟩⟩

lemma Seg.ends (hs : Seg next prev p h l q e) :
    q = (l.getLast?).or p ∧ h = (l.head?).or e := by
  induction l generalizing p h with
  | nil => exact ⟨hs.1.symm, hs.2⟩
  | cons u l ih =>
    obtain ⟨hh, -, hrest⟩ := hs
    refine ⟨?_, by rw [hh]; rfl⟩
    rw [(ih hrest).1]
    cases l with
    | nil => rfl
    | cons v l =>
      rw [List.getLast?_cons_cons]
      cases hlast : (v :: l).getLast? with
      | none => simp at hlast
      | some w => rfl

/-! ### Lists -/

lemma linked_nil (next prev : τ → Option τ) : Linked next prev none none [] := ⟨rfl, rfl⟩

lemma Linked.congr (hl : Linked next prev head tail l) (hnext : ∀ u ∈ l, next' u = next u)
    (hprev : ∀ u ∈ l, prev' u = prev u) : Linked next' prev' head tail l :=
  Seg.congr hl hnext hprev

lemma Linked.head_eq (hl : Linked next prev head tail l) : head = l.head? := by
  rw [(Seg.ends hl).2, Option.or_none]

lemma Linked.tail_eq (hl : Linked next prev head tail l) : tail = l.getLast? := by
  rw [(Seg.ends hl).1, Option.or_none]

lemma Linked.at (hl : Linked next prev head tail (A ++ t :: B)) :
    prev t = A.getLast? ∧ next t = B.head? := by
  obtain ⟨m, c, hA, -, hp, hB⟩ := seg_append.mp hl
  rw [hp, hA.ends.1, hB.ends.2, Option.or_none, Option.or_none]
  exact ⟨rfl, rfl⟩

/-! ### Changes -/

variable [DecidableEq τ]

/-- **A new pointer behind** the segment, stored at its last node. -/
lemma Seg.setExit (hs : Seg next prev p h l q e) (hl : l ≠ []) (hnodup : l.Nodup) (e' : Option τ)
    (hnext : ∀ u ∈ l, next' u = if q = some u then e' else next u)
    (hprev : ∀ u ∈ l, prev' u = prev u) : Seg next' prev' p h l q e' := by
  induction l generalizing p h with
  | nil => exact absurd rfl hl
  | cons u l ih =>
    obtain ⟨hh, hp, hrest⟩ := hs
    refine ⟨hh, (hprev u (by simp)).trans hp, ?_⟩
    cases l with
    | nil =>
      have hq : q = some u := hrest.1.symm
      exact ⟨hq.symm, (hnext u (by simp)).trans (if_pos hq)⟩
    | cons v l =>
      have hends := hrest.ends.1
      have hq : q ≠ some u := by
        rintro rfl
        cases hlast : (v :: l).getLast? with
        | none => simp at hlast
        | some w =>
          rw [hlast] at hends
          obtain rfl := Option.some.inj hends
          exact (List.nodup_cons.mp hnodup).1 (List.mem_of_getLast? hlast)
      rw [hnext u (by simp), if_neg hq]
      exact ih hrest (by simp) (List.nodup_cons.mp hnodup).2
        (fun w hw => hnext w (List.mem_cons_of_mem _ hw))
        fun w hw => hprev w (List.mem_cons_of_mem _ hw)

/-- **Another node before** the segment, stored at its first node. -/
lemma Seg.setEntry (hs : Seg next prev p h l q e) (hl : l ≠ []) (hnodup : l.Nodup) (p' : Option τ)
    (hnext : ∀ u ∈ l, next' u = next u)
    (hprev : ∀ u ∈ l, prev' u = if h = some u then p' else prev u) :
    Seg next' prev' p' h l q e := by
  cases l with
  | nil => exact absurd rfl hl
  | cons u l =>
    obtain ⟨hh, -, hrest⟩ := hs
    refine ⟨hh, (hprev u (by simp)).trans (if_pos hh), ?_⟩
    rw [hnext u (by simp)]
    refine hrest.congr (fun v hv => hnext v (by simp [hv])) fun v hv => ?_
    have hne : h ≠ some v := by
      rw [hh]
      rintro heq
      obtain rfl := Option.some.inj heq
      exact (List.nodup_cons.mp hnodup).1 hv
    rw [hprev v (by simp [hv]), if_neg hne]

lemma Linked.pushFront (hl : Linked next prev head tail l) (hnodup : l.Nodup)
    (ht : prev' t = none ∧ next' t = head) (hnext : ∀ u ∈ l, next' u = next u)
    (hprev : ∀ u ∈ l, prev' u = if head = some u then some t else prev u) :
    Linked next' prev' (some t) (if head = none then some t else tail) (t :: l) := by
  refine ⟨rfl, ht.1, ?_⟩
  rw [ht.2]
  by_cases hempty : l = []
  · subst hempty
    obtain ⟨rfl, rfl⟩ := hl
    exact ⟨rfl, rfl⟩
  · have hhead : head ≠ none := by
      rw [hl.head_eq]
      simpa using hempty
    rw [if_neg hhead]
    exact Seg.setEntry hl hempty hnodup (some t) hnext hprev

lemma Linked.pushBack (hl : Linked next prev head tail l) (hnodup : l.Nodup)
    (ht : prev' t = tail ∧ next' t = none)
    (hnext : ∀ u ∈ l, next' u = if tail = some u then some t else next u)
    (hprev : ∀ u ∈ l, prev' u = prev u) :
    Linked next' prev' (if tail = none then some t else head) (some t) (l ++ [t]) := by
  refine seg_append.mpr ⟨tail, some t, ?_, rfl, ht.1, rfl, ht.2⟩
  by_cases hempty : l = []
  · subst hempty
    obtain ⟨rfl, rfl⟩ := hl
    exact ⟨rfl, rfl⟩
  · have htail : tail ≠ none := by
      rw [hl.tail_eq]
      simpa using hempty
    rw [if_neg htail]
    exact Seg.setExit hl hempty hnodup (some t) hnext hprev

lemma Linked.remove (hl : Linked next prev head tail (A ++ t :: B)) (hnodup : (A ++ t :: B).Nodup)
    (hnext : ∀ u ∈ A ++ B, next' u = if prev t = some u then next t else next u)
    (hprev : ∀ u ∈ A ++ B, prev' u = if next t = some u then prev t else prev u) :
    Linked next' prev' (if prev t = none then next t else head)
      (if next t = none then prev t else tail) (A ++ B) := by
  obtain ⟨hpt, hnt⟩ := hl.at
  obtain ⟨m, c, hA, hc, hm, hB⟩ := seg_append.mp hl
  obtain ⟨hndA, hndB, hdisj⟩ := List.nodup_append'.mp hnodup
  -- the pointers that change lie in one of the two parts
  have hnextB : ∀ u ∈ B, next' u = next u := by
    intro u hu
    rw [hnext u (by simp [hu]), if_neg]
    rw [hpt]
    exact fun hlast => hdisj (List.mem_of_getLast? hlast) (by simp [hu])
  have hprevA : ∀ u ∈ A, prev' u = prev u := by
    intro u hu
    rw [hprev u (by simp [hu]), if_neg]
    rw [hnt]
    exact fun hfirst => hdisj hu (by simp [List.mem_of_head? hfirst])
  refine seg_append.mpr ⟨prev t, next t, ?_, ?_⟩
  · by_cases hempty : A = []
    · subst hempty
      rw [if_pos (by rw [hpt]; rfl)]
      exact ⟨by rw [hpt]; rfl, rfl⟩
    · rw [if_neg (by rw [hpt]; simpa using hempty)]
      rw [← hm] at hA
      exact hA.setExit hempty hndA (next t) (fun u hu => hnext u (by simp [hu])) hprevA
  · by_cases hempty : B = []
    · subst hempty
      rw [if_pos (by rw [hnt]; rfl)]
      exact ⟨rfl, by rw [hnt]; rfl⟩
    · rw [if_neg (by rw [hnt]; simpa using hempty)]
      exact hB.setEntry hempty (List.nodup_cons.mp hndB).2 (prev t) hnextB
        fun u hu => hprev u (by simp [hu])

lemma Linked.popFront (hl : Linked next prev head tail (t :: B)) (hnodup : (t :: B).Nodup)
    (hnext : ∀ u ∈ B, next' u = next u)
    (hprev : ∀ u ∈ B, prev' u = if next t = some u then none else prev u) :
    Linked next' prev' (next t) (if next t = none then none else tail) B := by
  have hpt : prev t = none := (Linked.at (A := []) hl).1
  have hrest : Linked next' prev' (if prev t = none then next t else head)
      (if next t = none then prev t else tail) ([] ++ B) := by
    refine Linked.remove hl hnodup (fun u hu => ?_) (fun u hu => ?_)
    · rw [hpt, if_neg (by simp)]
      exact hnext u hu
    · rw [hpt]
      exact hprev u hu
  rwa [hpt, if_pos rfl] at hrest

end KernelModel.DoublyLinked
