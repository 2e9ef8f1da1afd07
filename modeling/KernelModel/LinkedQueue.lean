import Mathlib.Data.List.Nodup
import Mathlib.Tactic

/-!
Singly linked queues.

A queue is a first and a last node; every node has a pointer to the next one. Nodes of other queues
are not touched by what is done to one of them.
-/

namespace KernelModel.LinkedQueue

variable {τ : Type*}

/-- The nodes that are met from `h` on. -/
def Chain (next : τ → Option τ) : Option τ → List τ → Prop
  | h, [] => h = none
  | h, t :: l => h = some t ∧ Chain next (next t) l

/-- The queue with these first and last nodes has the nodes `l`. -/
structure Linked (next : τ → Option τ) (head tail : Option τ) (l : List τ) : Prop where
  chain : Chain next head l
  last : tail = l.getLast?

section

variable {next next' : τ → Option τ} {head tail : Option τ} {t u : τ} {l : List τ}

lemma Chain.congr {h : Option τ} (hc : Chain next h l) (heq : ∀ t ∈ l, next' t = next t) :
    Chain next' h l := by
  induction l generalizing h with
  | nil => exact hc
  | cons t l ih =>
    refine ⟨hc.1, ?_⟩
    rw [heq t (by simp)]
    exact ih hc.2 fun u hu => heq u (by simp [hu])

lemma Linked.congr (h : Linked next head tail l) (heq : ∀ t ∈ l, next' t = next t) :
    Linked next' head tail l := ⟨h.chain.congr heq, h.last⟩

lemma linked_nil (next : τ → Option τ) : Linked next none none [] := ⟨rfl, rfl⟩

lemma Linked.head_eq (h : Linked next head tail l) : head = l.head? := by
  cases l with
  | nil => exact h.chain
  | cons t l => exact h.chain.1

variable [DecidableEq τ]

lemma Chain.snoc {h : Option τ} (hc : Chain next h (l ++ [u])) (hnodup : (l ++ [u]).Nodup)
    (ht : t ∉ l ++ [u]) :
    Chain (Function.update (Function.update next t none) u (some t)) h (l ++ [u] ++ [t]) := by
  induction l generalizing h with
  | nil =>
    have hut : u ≠ t := by simpa [eq_comm] using ht
    refine ⟨hc.1, ?_, ?_⟩
    · simp
    · simp [Function.update_of_ne hut.symm, Chain]
  | cons v l ih =>
    simp only [List.cons_append, List.nodup_cons, List.mem_cons, not_or] at hnodup ht
    have hvu : v ≠ u := by
      rintro rfl
      exact hnodup.1 (by simp)
    refine ⟨hc.1, ?_⟩
    rw [Function.update_of_ne hvu, Function.update_of_ne (Ne.symm ht.1)]
    exact ih hc.2 hnodup.2 ht.2

lemma Linked.append (h : Linked next head (some u) l) (hnodup : l.Nodup) (ht : t ∉ l) :
    Linked (Function.update (Function.update next t none) u (some t)) head (some t) (l ++ [t]) := by
  obtain ⟨l, rfl⟩ : ∃ k, l = k ++ [u] := ⟨l.dropLast, by
    have := List.dropLast_append_getLast? u (by rw [← h.last]; rfl)
    exact this.symm⟩
  exact ⟨h.chain.snoc hnodup ht, by simp⟩

lemma Linked.append_nil (h : Linked next head none l) :
    l = [] ∧ Linked (Function.update next t none) (some t) (some t) [t] := by
  have hl : l = [] := List.getLast?_eq_none_iff.mp h.last.symm
  exact ⟨hl, ⟨rfl, by simp [Chain]⟩, rfl⟩

omit [DecidableEq τ] in
lemma Linked.pop (h : Linked next (some t) tail l) :
    ∃ rest, l = t :: rest ∧ Linked next (next t) (if next t = none then none else tail) rest := by
  cases l with
  | nil => cases h.chain
  | cons u rest =>
    obtain rfl := Option.some.inj h.chain.1
    refine ⟨rest, rfl, h.chain.2, ?_⟩
    have hhead : next t = rest.head? := Linked.head_eq ⟨h.chain.2, rfl⟩
    cases rest with
    | nil => simp [hhead]
    | cons v rest => simp [hhead, h.last]

end

end KernelModel.LinkedQueue
