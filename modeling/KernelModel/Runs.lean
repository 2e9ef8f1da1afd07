import Mathlib.Algebra.BigOperators.Fin
import Mathlib.Tactic

/-!
Runs of a step function.

A system is a partial step function on states and labels; a run feeds it a list of labels
and stops, with no result, at the first label it refuses. An interleaving of several
parties is a run whose labels say who moves. The rule at the end is the only induction on
runs that the developments of single components need.
-/

namespace KernelModel.Runs

variable {σ α : Type*}

/-- The state after the labels `as`, if every one of them is accepted. -/
def run (step : σ → α → Option σ) (s : σ) : List α → Option σ
  | [] => some s
  | a :: as => (step s a).bind fun t => run step t as

/-- Every step of the run of `as` from `s` meets the condition `Ok`. -/
def Along (step : σ → α → Option σ) (Ok : σ → α → Prop) (s : σ) : List α → Prop
  | [] => True
  | a :: as => Ok s a ∧ ∀ t, step s a = some t → Along step Ok t as

/-- Two or three parties of a concrete run are written `0`, `1` and `2`. -/
instance neZeroTwo : NeZero 2 := ⟨two_ne_zero⟩

instance neZeroThree : NeZero 3 := ⟨three_ne_zero⟩

variable {step : σ → α → Option σ} {Ok : σ → α → Prop}

@[simp] lemma run_nil (s : σ) : run step s [] = some s := rfl

@[simp] lemma run_cons (s : σ) (a : α) (as : List α) :
    run step s (a :: as) = (step s a).bind fun t => run step t as := rfl

/-- **The invariant rule.** What one admitted step preserves, a whole admitted run does. -/
theorem run_inv {I : σ → Prop}
    (hstep : ∀ s a t, I s → Ok s a → step s a = some t → I t) :
    ∀ (as : List α) (s t : σ), I s → Along step Ok s as → run step s as = some t → I t
  | [], s, t, hs, _, hr => by
    simp only [run_nil, Option.some.injEq] at hr
    exact hr ▸ hs
  | a :: as, s, t, hs, hok, hr => by
    rw [run_cons, Option.bind_eq_some_iff] at hr
    obtain ⟨u, hu, hr⟩ := hr
    exact run_inv hstep as u t (hstep s a u hs hok.1 hu) (hok.2 u hu) hr

/-- **The rule for steps.** What an invariant and the condition say of a step holds along a whole
admitted run. -/
theorem along_of_inv {I : σ → Prop} {Good : σ → α → Prop}
    (hstep : ∀ s a t, I s → Ok s a → step s a = some t → I t)
    (hgood : ∀ s a, I s → Ok s a → Good s a) :
    ∀ (as : List α) (s : σ), I s → Along step Ok s as → Along step Good s as
  | [], _, _, _ => trivial
  | a :: as, s, hs, hok =>
    ⟨hgood s a hs hok.1, fun t ht =>
      along_of_inv hstep hgood as t (hstep s a t hs hok.1 ht) (hok.2 t ht)⟩

lemma along_cons {s t : σ} {a : α} {as : List α} (hok : Ok s a) (hstep : step s a = some t)
    (hrest : Along step Ok t as) : Along step Ok s (a :: as) := by
  refine ⟨hok, fun u hu => ?_⟩
  rw [hstep] at hu
  exact Option.some.inj hu ▸ hrest

lemma Along.last : ∀ {as : List α} {s t : σ} {a : α}, Along step Ok s (as ++ [a]) →
    run step s as = some t → Ok t a
  | [], s, t, a, h, hr => by
    simp only [run_nil, Option.some.injEq] at hr
    exact hr ▸ h.1
  | b :: as, s, t, a, h, hr => by
    rw [run_cons, Option.bind_eq_some_iff] at hr
    obtain ⟨u, hu, hr⟩ := hr
    exact (h.2 u hu).last hr

/-- **The rule for blame.** If every step out of a state with `P` keeps `P` just when it meets the
condition, the states of a whole run have `P` just when its steps meet the condition. -/
theorem along_iff {I P : σ → Prop} (hinv : ∀ s a t, I s → step s a = some t → I t)
    (hstep : ∀ s a t, I s → P s → step s a = some t → (P t ↔ Ok s a))
    (hrefused : ∀ s a, step s a = none → Ok s a) :
    ∀ (as : List α) (s : σ), I s → P s →
      ((∀ before, before <+: as → ∀ t, run step s before = some t → P t) ↔ Along step Ok s as)
  | [], s, _, hP => by
    refine ⟨fun _ => trivial, fun _ before hpre t ht => ?_⟩
    rw [List.prefix_nil.mp hpre, run_nil, Option.some.injEq] at ht
    exact ht ▸ hP
  | a :: as, s, hI, hP => by
    constructor
    · intro h
      refine ⟨?_, fun t ht => ?_⟩
      · cases ha : step s a with
        | none => exact hrefused s a ha
        | some t =>
          have ht := h [a] (List.prefix_cons_inj a |>.mpr (List.nil_prefix)) t (by simp [ha])
          exact (hstep s a t hI hP ha).mp ht
      · have hPt := h [a] (List.prefix_cons_inj a |>.mpr (List.nil_prefix)) t (by simp [ht])
        refine (along_iff hinv hstep hrefused as t (hinv s a t hI ht) hPt).mp
          fun before hpre u hu => ?_
        exact h (a :: before) ((List.prefix_cons_inj a).mpr hpre) u (by simp [ht, hu])
    · intro hok before hpre u hu
      cases before with
      | nil =>
        rw [run_nil, Option.some.injEq] at hu
        exact hu ▸ hP
      | cons b before =>
        obtain ⟨rfl, hrest⟩ := List.cons_prefix_cons.mp hpre
        rw [run_cons, Option.bind_eq_some_iff] at hu
        obtain ⟨t, ht, hu⟩ := hu
        have hPt := (hstep s b t hI hP ht).mpr hok.1
        exact (along_iff hinv hstep hrefused as t (hinv s b t hI ht) hPt).mpr (hok.2 t ht)
          before hrest u hu

instance decidableAlong [∀ s a, Decidable (Ok s a)] :
    ∀ (as : List α) (s : σ), Decidable (Along step Ok s as)
  | [], _ => isTrue trivial
  | a :: as, s =>
    match h : step s a with
    | none => decidable_of_iff (Ok s a) (by simp [Along, h])
    | some t =>
      haveI := decidableAlong as t
      decidable_of_iff (Ok s a ∧ Along step Ok t as) (by simp [Along, h])

lemma along_true (s : σ) (as : List α) : Along step (fun _ _ => True) s as := by
  induction as generalizing s with
  | nil => trivial
  | cons a as ih => exact ⟨trivial, fun t _ => ih t⟩

/-! ### Counting over the parties -/

lemma sum_update {ι β : Type*} [Fintype ι] [DecidableEq ι] (f : β → ℕ) (g : ι → β) (c : ι)
    (x : β) : ∑ j, f (Function.update g c x j) + f (g c) = ∑ j, f (g j) + f x := by
  have h : ∀ j, f (Function.update g c x j) = Function.update (fun i => f (g i)) c (f x) j := by
    intro j
    by_cases hj : j = c
    · subst hj; simp
    · simp [hj]
  simp only [h]
  rw [Finset.sum_update_of_mem (Finset.mem_univ c), Finset.sdiff_singleton_eq_erase]
  have := Finset.add_sum_erase Finset.univ (fun i => f (g i)) (Finset.mem_univ c)
  omega

end KernelModel.Runs
