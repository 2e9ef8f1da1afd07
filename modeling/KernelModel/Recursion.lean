import Mathlib.Data.Set.Card
import Mathlib.Logic.Relation
import Mathlib.Tactic

/-!
Recursion by calls, and how deep it goes.

A body answers a question with the help of the answers to other questions, which it asks one
after another; it has no answer if it gets none. If the questions that can be asked are finitely
many, then the recursion ends exactly if no question is asked again while it is being answered,
and it is then not deeper than there are such questions.
-/

namespace KernelModel.Recursion

open Relation

variable {κ β : Type*}

/-- The answers of `r` are answers of `t` too. -/
def Extends (r t : κ → Option β) : Prop := ∀ c b, r c = some b → t c = some b

/-- A body, with the questions that it asks. -/
structure Body (κ β : Type*) where
  answer : (κ → Option β) → κ → Option β
  calls : (κ → Option β) → κ → List κ
  /-- It has no answer only if it gets none. -/
  stuck : ∀ {r k}, answer r k = none → ∃ c ∈ calls r k, r c = none
  /-- It has an answer only if it gets all it asks for. -/
  served : ∀ {r k b}, answer r k = some b → ∀ c ∈ calls r k, ∃ a, r c = some a
  answer_mono : ∀ {r t k b}, Extends r t → answer r k = some b → answer t k = some b
  calls_mono : ∀ {r t k}, Extends r t → calls r k ⊆ calls t k
  /-- More answers do not change what it asks for if it has an answer. -/
  calls_eq : ∀ {r t k b}, Extends r t → answer r k = some b → calls t k = calls r k

variable (B : Body κ β)

/-- The answer within a depth. -/
def eval : ℕ → κ → Option β
  | 0, _ => none
  | d + 1, k => B.answer (eval d) k

lemma eval_succ (d : ℕ) (k : κ) : eval B (d + 1) k = B.answer (eval B d) k := rfl

lemma eval_extends_succ (d : ℕ) : Extends (eval B d) (eval B (d + 1)) := by
  induction d with
  | zero =>
    intro c b h
    cases h
  | succ d ih =>
    intro c b h
    exact B.answer_mono ih h

lemma eval_extends {d e : ℕ} (h : d ≤ e) : Extends (eval B d) (eval B e) := by
  induction e, h using Nat.le_induction with
  | base => exact fun c b h => h
  | succ e _ ih => exact fun c b h => eval_extends_succ B e c b (ih c b h)

/-- The recursion from `k` ends. -/
def Ends (k : κ) : Prop := ∃ d b, eval B d k = some b

open Classical in
/-- The answer within any depth. -/
noncomputable def limit (k : κ) : Option β :=
  if h : Ends B k then some h.choose_spec.choose else none

lemma eval_extends_limit (d : ℕ) : Extends (eval B d) (limit B) := by
  intro k b h
  have hk : Ends B k := ⟨d, b, h⟩
  have hspec := hk.choose_spec.choose_spec
  rw [limit, dif_pos hk]
  have h₁ := eval_extends B (le_max_left d hk.choose) k b h
  have h₂ := eval_extends B (le_max_right d hk.choose) k _ hspec
  rw [h₁] at h₂
  exact h₂.symm

/-- Answering `k` asks for `c`. -/
def Asks (k c : κ) : Prop := c ∈ B.calls (limit B) k

/-- Nothing that comes up in answering `k` comes up again while it is being answered. -/
def Straight (k : κ) : Prop := ∀ q, ReflTransGen (Asks B) k q → ¬ TransGen (Asks B) q q

variable {B}

/-- What an answer within a depth asks for is answered within a smaller one. -/
lemma asked_of_eval {d : ℕ} {k c : κ} {b : β} (h : eval B (d + 1) k = some b) (hc : Asks B k c) :
    ∃ a, eval B d c = some a := by
  have hcalls := B.calls_eq (eval_extends_limit B d) h
  rw [Asks, hcalls] at hc
  exact B.served h c hc

lemma eval_of_transGen {k c : κ} (hc : TransGen (Asks B) k c) {d : ℕ} {b : β}
    (h : eval B d k = some b) : ∃ e < d, ∃ a, eval B e c = some a := by
  induction hc using TransGen.head_induction_on generalizing d b with
  | single hc =>
    cases d with
    | zero => cases h
    | succ d => exact ⟨d, d.lt_succ_self, asked_of_eval h hc⟩
  | head hc _ ih =>
    cases d with
    | zero => cases h
    | succ d =>
      obtain ⟨a, ha⟩ := asked_of_eval h hc
      obtain ⟨e, he, hcon⟩ := ih ha
      exact ⟨e, by omega, hcon⟩

/-- A recursion that ends never asks a question again while it is being answered. -/
theorem straight_of_ends {k : κ} (h : Ends B k) : Straight B k := by
  classical
  intro q hq hloop
  have hends : Ends B q := by
    rcases reflTransGen_iff_eq_or_transGen.mp hq with rfl | hq
    · exact h
    · obtain ⟨d, b, hb⟩ := h
      obtain ⟨e, -, a, ha⟩ := eval_of_transGen hq hb
      exact ⟨e, a, ha⟩
  -- at the least depth that answers `q`, the loop answers it at a smaller one
  obtain ⟨b, hb⟩ := Nat.find_spec hends
  obtain ⟨e, he, a, ha⟩ := eval_of_transGen hloop hb
  exact Nat.find_min hends he ⟨a, ha⟩

lemma Straight.asked {k c : κ} (h : Straight B k) (hc : Asks B k c) : Straight B c :=
  fun q hq => h q (ReflTransGen.head hc hq)

section

variable {S : Finset κ}

open Classical in
/-- How many questions come up below `k`. -/
noncomputable def rank (B : Body κ β) (S : Finset κ) (k : κ) : ℕ :=
  (S.filter fun q => TransGen (Asks B) k q).card

lemma rank_lt {k c : κ} (h : Straight B k) (hc : Asks B k c) (hS : c ∈ S) :
    rank B S c < rank B S k := by
  classical
  refine Finset.card_lt_card ⟨fun q hq => ?_, fun hsub => ?_⟩
  · rw [Finset.mem_filter] at hq ⊢
    exact ⟨hq.1, TransGen.head hc hq.2⟩
  · have hmem := hsub (Finset.mem_filter.mpr ⟨hS, TransGen.single hc⟩)
    exact h c (ReflTransGen.single hc) (Finset.mem_filter.mp hmem).2

lemma eval_of_rank (hS : ∀ k c, Asks B k c → c ∈ S) {k : κ} (h : Straight B k) :
    ∃ b, eval B (rank B S k + 1) k = some b := by
  induction hn : rank B S k using Nat.strong_induction_on generalizing k with
  | _ n ih =>
    rw [eval_succ]
    by_contra hcon
    obtain ⟨c, hc, hnone⟩ := B.stuck (Option.eq_none_iff_forall_ne_some.mpr (not_exists.mp hcon))
    have hask : Asks B k c := B.calls_mono (eval_extends_limit B n) hc
    have hlt := rank_lt h hask (hS k c hask)
    obtain ⟨b, hb⟩ := ih _ (hn ▸ hlt) (h.asked hask) rfl
    rw [eval_extends B (by omega) c b hb] at hnone
    cases hnone

/-- **Termination.** If all questions that are ever asked are in `S`, then a straight recursion
ends, not deeper than there are questions in `S`. -/
theorem eval_of_straight (hS : ∀ k c, Asks B k c → c ∈ S) {k : κ} (h : Straight B k) :
    ∃ b, eval B (S.card + 1) k = some b := by
  classical
  obtain ⟨b, hb⟩ := eval_of_rank hS h
  have hle : rank B S k ≤ S.card := Finset.card_filter_le _ _
  exact ⟨b, eval_extends B (by omega) k b hb⟩

end

end KernelModel.Recursion
