import KernelModel.MutexCalls

/-!
Which calls on mutexes make a panic.
-/

namespace KernelModel.MutexCalls

open Runs

variable {ι : Type*} {s s' : State ι} {i : ι} {h process : ℕ}

/-! ### References -/

@[simp] lemma set_self (s : State ι) (h : ℕ) (m : MutexHandle ι) : (s.set h m).mutex h = m :=
  Function.update_self ..

@[simp] lemma set_set (s : State ι) (h : ℕ) (m n : MutexHandle ι) :
    (s.set h m).set h n = s.set h n := by
  simp [State.set]

@[simp] lemma set_waiting (s : State ι) (h : ℕ) (m : MutexHandle ι) :
    (s.set h m).waiting = s.waiting := rfl

lemma handleRelease_of_lt (hrc : 1 < (s.mutex h).rc) : handleRelease s h =
    .ok (s.set h { s.mutex h with rc := (s.mutex h).rc - 1 }) := by
  have hne : (s.mutex h).rc - 1 ≠ 0 := by omega
  simp only [handleRelease, if_pos hne]

lemma handleRelease_last (hrc : (s.mutex h).rc = 1) (hdel : (s.mutex h).isDeleted = true) :
    handleRelease s h = if (s.mutex h).holder.isSome then .error .held
      else .ok (s.set h { s.mutex h with rc := 0 }) := by
  simp [handleRelease, hrc, mutexHandleDestructor, hdel]

lemma lookup_ok {flag : Acl} (hl : lookup s process h flag = .ok) :
    (s.mutex h).rc ≠ 0 ∧ (s.mutex h).isDeleted = false := by
  unfold lookup at hl
  split_ifs at hl with h1 h2 h3
  exact ⟨h1, by simpa using h2⟩

variable [Fintype ι]

/-- The number of threads that wait for a mutex. -/
def waiters (w : ι → Option ℕ) (h : ℕ) : ℕ := ∑ j, if w j = some h then 1 else 0

lemma waiters_eq_zero {w : ι → Option ℕ} : waiters w h = 0 ↔ ∀ j, w j ≠ some h := by
  simp [waiters]

lemma waiters_ne_zero {w : ι → Option ℕ} : waiters w h ≠ 0 ↔ ∃ j, w j = some h := by
  rw [Ne, waiters_eq_zero]
  push Not
  rfl

lemma waiters_update [DecidableEq ι] (w : ι → Option ℕ) (i : ι) (v : Option ℕ) (h : ℕ) :
    waiters (Function.update w i v) h + (if w i = some h then 1 else 0) =
      waiters w h + if v = some h then 1 else 0 :=
  sum_update (fun w => if w = some h then 1 else 0) w i v

/-- The references of a mutex: its own until it is deleted, and one for every waiter. -/
structure Inv (s : State ι) : Prop where
  fresh : ∀ h, s.count ≤ h → (s.mutex h).rc = 0
  waits_lt : ∀ j h, s.waiting j = some h → h < s.count
  rc : ∀ h < s.count,
    (s.mutex h).rc = (if (s.mutex h).isDeleted then 0 else 1) + waiters s.waiting h

lemma Inv.of_lookup (hs : Inv s) {flag : Acl} (hl : lookup s process h flag = .ok) :
    h < s.count ∧ (s.mutex h).isDeleted = false ∧ (s.mutex h).rc = 1 + waiters s.waiting h := by
  obtain ⟨hrc, hdel⟩ := lookup_ok hl
  have hlt : h < s.count := by
    by_contra hge
    exact hrc (hs.fresh h (Nat.le_of_not_lt hge))
  have hcount := hs.rc h hlt
  rw [hdel] at hcount
  exact ⟨hlt, hdel, hcount⟩

lemma Inv.set (hs : Inv s) (hlt : h < s.count) {m : MutexHandle ι} {w : ι → Option ℕ}
    (hw : ∀ j k, w j = some k → k < s.count)
    (hm : m.rc = (if m.isDeleted then 0 else 1) + waiters w h)
    (hother : ∀ k, k ≠ h → waiters w k = waiters s.waiting k) :
    Inv { s.set h m with waiting := w } := by
  refine ⟨fun k hk => ?_, hw, fun k hk => ?_⟩
  · have hne : k ≠ h := by
      have hk : s.count ≤ k := hk
      omega
    have hsame : (s.set h m).mutex k = s.mutex k := Function.update_of_ne hne _ _
    rw [hsame]
    exact hs.fresh k hk
  · by_cases hne : k = h
    · subst hne
      have hself : (s.set k m).mutex k = m := Function.update_self ..
      rw [hself]
      exact hm
    · have hsame : (s.set h m).mutex k = s.mutex k := Function.update_of_ne hne _ _
      rw [hsame, hs.rc k hk]
      congr 1
      exact (hother k hne).symm

lemma Inv.set_mutex (hs : Inv s) (hlt : h < s.count) {m : MutexHandle ι}
    (hm : m.rc = (if m.isDeleted then 0 else 1) + waiters s.waiting h) : Inv (s.set h m) :=
  hs.set hlt hs.waits_lt hm fun _ _ => rfl

/-! ### The calls -/

lemma Inv.create (hs : Inv s) (process : ℕ) : Inv (syscallMutexCreate s process) := by
  have hnone : waiters s.waiting s.count = 0 :=
    waiters_eq_zero.mpr fun j hj => (hs.waits_lt j _ hj).false
  refine ⟨fun k hk => ?_, fun j k hj => Nat.lt_succ_of_lt (hs.waits_lt j k hj), fun k hk => ?_⟩
  · have hk : s.count + 1 ≤ k := hk
    have hsame : (syscallMutexCreate s process).mutex k = s.mutex k :=
      Function.update_of_ne (by omega) _ _
    rw [hsame]
    exact hs.fresh k (by omega)
  · have hw : waiters (syscallMutexCreate s process).waiting k = waiters s.waiting k := rfl
    rw [hw]
    rcases Nat.lt_succ_iff_lt_or_eq.mp hk with hlt | rfl
    · have hsame : (syscallMutexCreate s process).mutex k = s.mutex k :=
        Function.update_of_ne hlt.ne _ _
      rw [hsame]
      exact hs.rc k hlt
    · have hself : (syscallMutexCreate s process).mutex s.count =
          ⟨1, false, Function.update (fun _ => ∅) process {.delete, .query, .io}, none⟩ :=
        Function.update_self ..
      rw [hself, hnone]
      rfl

lemma Inv.delete (hs : Inv s) (hl : lookup s process h .delete = .ok) :
    (syscallMutexDelete s process h = .error .held ∧ (s.mutex h).holder ≠ none ∧
        waiters s.waiting h = 0) ∨
      ∃ s', syscallMutexDelete s process h = .ok s' ∧ Inv s' ∧ s'.panicked = s.panicked ∧
        ((s.mutex h).holder = none ∨ waiters s.waiting h ≠ 0) := by
  obtain ⟨hlt, hdel, hrc⟩ := hs.of_lookup hl
  set m : MutexHandle ι := { s.mutex h with
    rc := (s.mutex h).rc
    isDeleted := true } with hm
  have hfirst : syscallMutexDelete s process h = handleRelease (s.set h m) h := by
    have hrel : handleRelease (s.set h { s.mutex h with
        rc := (s.mutex h).rc + 1
        isDeleted := true }) h = .ok (s.set h m) := by
      rw [handleRelease_of_lt (by simp [hrc])]
      simp [hm]
    simp only [syscallMutexDelete, if_pos hl, acquired, set_self, set_set]
    rw [hrel]
    rfl
  have hmrc : ((s.set h m).mutex h).rc = 1 + waiters s.waiting h := by simp [hm, hrc]
  by_cases hw : waiters s.waiting h = 0
  · have hlast := handleRelease_last (s := s.set h m) (h := h) (by rw [hmrc, hw]) (by simp [hm])
    rw [hfirst, hlast]
    simp only [set_self, set_set]
    by_cases hh : m.holder.isSome = true
    · left
      rw [if_pos hh]
      refine ⟨rfl, ?_, hw⟩
      exact Option.isSome_iff_ne_none.mp hh
    · right
      rw [if_neg hh]
      refine ⟨_, rfl, hs.set_mutex hlt ?_, rfl, .inl ?_⟩
      · simp [hm, hw]
      · simpa using hh
  · right
    rw [hfirst, handleRelease_of_lt (by omega)]
    refine ⟨_, rfl, ?_, rfl, .inr hw⟩
    rw [set_self, set_set]
    refine hs.set_mutex hlt ?_
    simp [hm, hrc]

variable [DecidableEq ι]

lemma Inv.release (hs : Inv s) (hl : lookup s process h .io = .ok) :
    (syscallMutexRelease s i process h = .error .wrongThread ∧ (s.mutex h).holder ≠ some i) ∨
      ∃ s', syscallMutexRelease s i process h = .ok s' ∧ Inv s' ∧ s'.panicked = s.panicked ∧
        (s.mutex h).holder = some i := by
  obtain ⟨hlt, hdel, hrc⟩ := hs.of_lookup hl
  simp only [syscallMutexRelease, if_pos hl, mutexRelease, acquired, set_self, set_set]
  by_cases hh : (s.mutex h).holder = some i
  · right
    rw [if_neg (not_not.mpr hh)]
    have hrel : handleRelease (s.set h { s.mutex h with
        rc := (s.mutex h).rc + 1
        holder := none }) h = .ok (s.set h { s.mutex h with holder := none }) := by
      rw [handleRelease_of_lt (by simp [hrc])]
      simp
    refine ⟨_, hrel, hs.set_mutex hlt ?_, rfl, hh⟩
    simp [hrc, hdel]
  · left
    rw [if_pos hh]
    exact ⟨rfl, hh⟩

lemma Inv.acquire (hs : Inv s) (hi : s.waiting i = none) (process h : ℕ) :
    ∃ s', syscallMutexAcquire s i process h = .ok s' ∧ Inv s' ∧ s'.panicked = s.panicked := by
  unfold syscallMutexAcquire
  by_cases hl : lookup s process h .io = .ok
  · obtain ⟨hlt, hdel, hrc⟩ := hs.of_lookup hl
    simp only [if_pos hl, acquired, set_self]
    by_cases hh : (s.mutex h).holder.isSome = true
    · rw [if_pos hh]
      refine ⟨_, rfl, hs.set hlt (fun j k hj => ?_) ?_ fun k hk => ?_, rfl⟩
      · by_cases hji : j = i
        · subst hji
          have hj' : Function.update s.waiting j (some h) j = some k := hj
          rw [Function.update_self, Option.some.injEq] at hj'
          exact hj' ▸ hlt
        · have hj' : Function.update s.waiting i (some h) j = some k := hj
          rw [Function.update_of_ne hji] at hj'
          exact hs.waits_lt j k hj'
      · have hup := waiters_update s.waiting i (some h) h
        rw [hi] at hup
        simp only [reduceCtorEq, if_false, if_true] at hup
        simp only [hdel, hrc, Bool.false_eq_true, if_false, set_waiting]
        omega
      · have hup := waiters_update s.waiting i (some h) k
        rw [hi] at hup
        simpa [Ne.symm hk] using hup
    · rw [if_neg hh]
      have hrel : finishAcquire (s.set h { s.mutex h with rc := (s.mutex h).rc + 1 }) i h =
          .ok (s.set h { s.mutex h with holder := some i }) := by
        unfold finishAcquire
        rw [handleRelease_of_lt (by simp [hrc])]
        simp
      refine ⟨_, hrel, hs.set_mutex hlt ?_, rfl⟩
      simp [hrc, hdel]
  · rw [if_neg hl]
    exact ⟨s, rfl, hs, rfl⟩

lemma Inv.resume (hs : Inv s) (hi : s.waiting i = some h) :
    let t := { s with waiting := Function.update s.waiting i none }
    (finishAcquire t i h = .error .held ∧ (s.mutex h).isDeleted = true ∧
        ∀ j, j ≠ i → s.waiting j ≠ some h) ∨
      ∃ s', finishAcquire t i h = .ok s' ∧ Inv s' ∧ s'.panicked = s.panicked ∧
        ((s.mutex h).isDeleted = false ∨ ∃ j, j ≠ i ∧ s.waiting j = some h) := by
  intro t
  have hlt := hs.waits_lt i h hi
  have hrc := hs.rc h hlt
  have hup := waiters_update s.waiting i none h
  rw [hi] at hup
  simp only [reduceCtorEq, if_false, if_true] at hup
  have hwt : waiters t.waiting h + 1 = waiters s.waiting h := hup
  have hother : ∀ k, k ≠ h → waiters t.waiting k = waiters s.waiting k := by
    intro k hk
    have hup := waiters_update s.waiting i none k
    rw [hi] at hup
    simpa [Ne.symm hk] using hup
  have hlt' : ∀ j k, t.waiting j = some k → k < s.count := by
    intro j k hj
    have hj' : Function.update s.waiting i none j = some k := hj
    by_cases hji : j = i
    · subst hji
      rw [Function.update_self] at hj'
      cases hj'
    · rw [Function.update_of_ne hji] at hj'
      exact hs.waits_lt j k hj'
  have hothers : waiters t.waiting h ≠ 0 ↔ ∃ j, j ≠ i ∧ s.waiting j = some h := by
    rw [waiters_ne_zero]
    refine exists_congr fun j => ?_
    by_cases hji : j = i
    · subst hji
      simp [t]
    · simp [t, hji]
  by_cases hlast : (s.mutex h).isDeleted = true ∧ waiters t.waiting h = 0
  · left
    obtain ⟨hdel, hzero⟩ := hlast
    rw [hdel] at hrc
    have hone : (s.mutex h).rc = 1 := by
      simp only [if_true] at hrc
      omega
    refine ⟨?_, hdel, fun j hj hw => hothers.mpr ⟨j, hj, hw⟩ hzero⟩
    unfold finishAcquire
    rw [handleRelease_last]
    · simp
    · simpa using hone
    · simpa using hdel
  · right
    have hlt1 : 1 < (s.mutex h).rc := by
      by_cases hdel : (s.mutex h).isDeleted = true
      · have hne : waiters t.waiting h ≠ 0 := fun hz => hlast ⟨hdel, hz⟩
        rw [if_pos hdel] at hrc
        omega
      · rw [if_neg hdel] at hrc
        omega
    have hrel : finishAcquire t i h = .ok (t.set h { s.mutex h with
        rc := (s.mutex h).rc - 1
        holder := some i }) := by
      unfold finishAcquire
      rw [handleRelease_of_lt (by simpa using hlt1)]
      simp [t]
    refine ⟨_, hrel, hs.set hlt hlt' ?_ hother, rfl, ?_⟩
    · show (s.mutex h).rc - 1 = (if (s.mutex h).isDeleted then 0 else 1) + waiters t.waiting h
      omega
    · by_cases hdel : (s.mutex h).isDeleted = true
      · exact .inr (hothers.mp fun hz => hlast ⟨hdel, hz⟩)
      · exact .inl (by simpa using hdel)

/-! ### Runs -/

omit [DecidableEq ι] in
lemma inv_init : Inv (State.init : State ι) :=
  ⟨fun _ _ => rfl, fun _ _ hj => absurd hj (by simp [State.init]),
    fun _ hk => absurd hk (Nat.not_lt_zero _)⟩

/-- The state after a call. -/
def State.after (s : State ι) : Except Panic (State ι) → State ι
  | .ok s' => s'
  | .error e => { s with panicked := some e }

omit [Fintype ι] in
/-- Only a thread that waits has its call resumed, and only the others make new calls. -/
lemma step_eq_some {process : ι → ℕ} {l : ι × Op} (hstep : step process s l = some s') :
    s.panicked = none ∧ ∃ r, s.call l.1 (process l.1) l.2 = some r ∧ s' = s.after r := by
  unfold step at hstep
  split_ifs at hstep with hp
  obtain ⟨r, hr, heq⟩ := Option.map_eq_some_iff.mp hstep
  refine ⟨by simpa using hp, r, hr, ?_⟩
  cases r <;> exact heq.symm

lemma Inv.step (hs : Inv s) {process : ι → ℕ} {l : ι × Op}
    (hstep : MutexCalls.step process s l = some s') :
    Inv s' ∧ (s'.panicked = none ↔ Orderly process s l) := by
  obtain ⟨hp, r, hr, rfl⟩ := step_eq_some hstep
  obtain ⟨i, op⟩ := l
  have herror : ∀ e, Inv (s.after (.error e)) ∧ (s.after (.error e)).panicked ≠ none := fun e =>
    ⟨⟨hs.fresh, hs.waits_lt, hs.rc⟩, by simp [State.after]⟩
  cases op with
  | create =>
    simp only [State.call] at hr
    split_ifs at hr with hi
    obtain rfl := Option.some.inj hr
    exact ⟨hs.create _, iff_of_true hp fun _ => trivial⟩
  | getHolder h =>
    simp only [State.call] at hr
    split_ifs at hr with hi
    obtain rfl := Option.some.inj hr
    exact ⟨hs, iff_of_true hp fun _ => trivial⟩
  | acquire h =>
    simp only [State.call] at hr
    split_ifs at hr with hi
    obtain rfl := Option.some.inj hr
    have hi' : s.waiting i = none := by simpa using hi
    obtain ⟨t, ht, hinv, hpt⟩ := hs.acquire hi' (process i) h
    simp only [ht]
    exact ⟨hinv, iff_of_true (hpt.trans hp) fun _ => trivial⟩
  | release h =>
    simp only [State.call] at hr
    split_ifs at hr with hi
    obtain rfl := Option.some.inj hr
    have hi' : s.waiting i = none := by simpa using hi
    by_cases hl : lookup s (process i) h .io = .ok
    · rcases hs.release (i := i) hl with ⟨ht, hne⟩ | ⟨t, ht, hinv, hpt, hh⟩
      · simp only [ht]
        obtain ⟨hinv, hpe⟩ := herror .wrongThread
        exact ⟨hinv, iff_of_false hpe fun ho => hne (ho hp hi' hl)⟩
      · simp only [ht]
        exact ⟨hinv, iff_of_true (hpt.trans hp) fun _ _ _ => hh⟩
    · have ht : syscallMutexRelease s i (process i) h = .ok s := if_neg hl
      simp only [ht]
      exact ⟨hs, iff_of_true hp fun _ _ hl' => absurd hl' hl⟩
  | delete h =>
    simp only [State.call] at hr
    split_ifs at hr with hi
    obtain rfl := Option.some.inj hr
    have hi' : s.waiting i = none := by simpa using hi
    by_cases hl : lookup s (process i) h .delete = .ok
    · rcases hs.delete hl with ⟨ht, hne, hz⟩ | ⟨t, ht, hinv, hpt, hh⟩
      · simp only [ht]
        obtain ⟨hinv, hpe⟩ := herror .held
        refine ⟨hinv, iff_of_false hpe fun ho => ?_⟩
        rcases ho hp hi' hl with hnone | ⟨j, hj⟩
        · exact hne hnone
        · exact waiters_eq_zero.mp hz j hj
      · simp only [ht]
        exact ⟨hinv, iff_of_true (hpt.trans hp) fun _ _ _ => hh.imp_right waiters_ne_zero.mp⟩
    · have ht : syscallMutexDelete s (process i) h = .ok s := if_neg hl
      simp only [ht]
      exact ⟨hs, iff_of_true hp fun _ _ hl' => absurd hl' hl⟩
  | resume =>
    simp only [State.call] at hr
    cases hi : s.waiting i with
    | none => simp [hi] at hr
    | some h =>
      simp only [hi] at hr
      split_ifs at hr with hh
      · obtain rfl := Option.some.inj hr
        refine ⟨hs, iff_of_true hp fun _ k hk hnone => ?_⟩
        obtain rfl : h = k := Option.some.inj (hi.symm.trans hk)
        rw [hnone] at hh
        cases hh
      · obtain rfl := Option.some.inj hr
        have hnone : (s.mutex h).holder = none := by simpa using hh
        rcases hs.resume hi with ⟨ht, hdel, hno⟩ | ⟨t, ht, hinv, hpt, hor⟩
        · simp only [ht]
          obtain ⟨hinv, hpe⟩ := herror .held
          refine ⟨hinv, iff_of_false hpe fun ho => ?_⟩
          obtain ⟨j, hj, hw⟩ := ho hp h hi hnone hdel
          exact hno j hj hw
        · simp only [ht]
          refine ⟨hinv, iff_of_true (hpt.trans hp) fun _ k hk _ hdel => ?_⟩
          obtain rfl : h = k := Option.some.inj (hi.symm.trans hk)
          refine hor.resolve_left fun hdel' => ?_
          rw [hdel] at hdel'
          cases hdel'

omit [Fintype ι] in
lemma orderly_of_refused {process : ι → ℕ} {l : ι × Op} (hstep : step process s l = none) :
    Orderly process s l := by
  obtain ⟨i, op⟩ := l
  intro hp
  unfold step at hstep
  rw [if_neg (by simp [hp]), Option.map_eq_none_iff] at hstep
  cases op with
  | create | acquire | getHolder => trivial
  | release h =>
    intro hi
    simp [State.call, hi] at hstep
  | delete h =>
    intro hi
    simp [State.call, hi] at hstep
  | resume =>
    intro h hi hnone
    have hi' : s.waiting i = some h := hi
    simp [State.call, hi', hnone] at hstep

/-- **Panics of the calls on mutexes.** No state of a run has panicked exactly when every release
that is not refused is by the holder, every mutex that is deleted is free or waited for, and no
acquisition that was waiting ends on a deleted mutex that nobody else waits for. -/
theorem no_panic_iff (process : ι → ℕ) (ops : List (ι × Op)) :
    (∀ before, before <+: ops → ∀ s, run (step process) .init before = some s →
      s.panicked = none) ↔ Along (step process) (Orderly process) .init ops :=
  along_iff (I := Inv) (P := fun s => s.panicked = none) (fun _ _ _ hs hstep => (hs.step hstep).1)
    (fun _ _ _ hs _ hstep => (hs.step hstep).2) (fun _ _ => orderly_of_refused) ops .init inv_init
    rfl

/-- A thread releases a mutex that it has made and not acquired. -/
theorem release_panics : ¬∀ (ops : List (Unit × Op)) (s : State Unit),
    run (step fun _ => 1) .init ops = some s → s.panicked = none := by
  intro h
  have hrun : ∃ s, run (step fun _ => 1) (.init : State Unit) [((), .create), ((), .release 0)] =
      some s ∧ s.panicked = some .wrongThread := ⟨_, rfl, by decide⟩
  obtain ⟨s, hs, hpanic⟩ := hrun
  rw [h _ s hs] at hpanic
  cases hpanic

end KernelModel.MutexCalls
