import KernelModel.Runs

/-!
The locks of the timers: one for the tree and one for each timer.

The operations are cut at their acquisitions and releases; what an operation does to the tree,
the chains and the events between them is left out. `timer_dispatch_timers` does not wait for a
timer's lock. Any number of CPUs work on any timers.
-/

namespace KernelModel.TimerLocks

open Runs

variable {ι τ : Type*} [DecidableEq ι] [DecidableEq τ]

inductive Lock (τ : Type*)
  | tree
  | timer (t : τ)
  deriving DecidableEq

inductive Op (τ : Type*)
  | update (t : τ)
  | delete (t : τ)
  | destructor (t : τ)
  | dispatch

/-- Where a CPU is: before an acquisition, or before a release. -/
inductive Pc (τ : Type*)
  | idle
  | updateTree (t : τ)
  | updateTimer (t : τ)
  | updateBody (t : τ)
  | updateExit (t : τ)
  | deleteTimer (t : τ)
  | deleteAgain (t : τ)
  | deleteTree (t : τ)
  | deleteBody (t : τ)
  | deleteExit (t : τ)
  | destructorTree (t : τ)
  | destructorBody (t : τ)
  | dispatchTree
  | dispatchTry
  | dispatchBody (t : τ)
  | dispatchExit

structure State (ι τ : Type*) where
  pc : ι → Pc τ
  holder : Lock τ → Option ι
  isDeleted : τ → Bool

def State.init : State ι τ := ⟨fun _ => .idle, fun _ => none, fun _ => false⟩

def State.goto (s : State ι τ) (c : ι) (pc : Pc τ) : State ι τ :=
  { s with pc := Function.update s.pc c pc }

/-- `rwlock_acquire_write`: no step while another has the lock. -/
def State.acquire (s : State ι τ) (c : ι) (l : Lock τ) (pc : Pc τ) : Option (State ι τ) :=
  if s.holder l = none then
    some { s.goto c pc with holder := Function.update s.holder l (some c) }
  else none

def State.release (s : State ι τ) (c : ι) (l : Lock τ) (pc : Pc τ) : State ι τ :=
  { s.goto c pc with holder := Function.update s.holder l none }

def State.markDeleted (s : State ι τ) (t : τ) : State ι τ :=
  { s with isDeleted := Function.update s.isDeleted t true }

inductive Label (ι τ : Type*)
  /-- An idle CPU calls a function. -/
  | call (c : ι) (op : Op τ)
  /-- A CPU takes its next step; `found` is what a lookup in the tree returns. -/
  | move (c : ι) (found : Option τ)

/-- The calls, up to the first acquisition. -/
def State.call (s : State ι τ) (c : ι) : Op τ → State ι τ
  | .update t => s.goto c (.updateTree t)
  | .delete t => s.goto c (.deleteTimer t)
  | .destructor t => if s.isDeleted t then s else s.goto c (.destructorTree t)
  | .dispatch => s.goto c .dispatchTree

/-- From one acquisition or release to the next. -/
def State.move (s : State ι τ) (c : ι) (found : Option τ) : Option (State ι τ) :=
  match s.pc c with
  | .idle => none
  -- `timer_update`: the tree, then the timer
  | .updateTree t => s.acquire c .tree (.updateTimer t)
  | .updateTimer t => s.acquire c (.timer t) (.updateBody t)
  | .updateBody t => some (s.release c (.timer t) (.updateExit t))
  | .updateExit _ => some (s.release c .tree .idle)
  -- `timer_delete`: the timer, then the tree; the flag is read and set under the timer's lock
  | .deleteTimer t =>
    if s.isDeleted t then s.acquire c (.timer t) (.deleteAgain t)
    else (s.markDeleted t).acquire c (.timer t) (.deleteTree t)
  | .deleteAgain t => some (s.release c (.timer t) .idle)
  | .deleteTree t => s.acquire c .tree (.deleteBody t)
  | .deleteBody t => some (s.release c .tree (.deleteExit t))
  | .deleteExit t => some (s.release c (.timer t) .idle)
  -- `_timer_handle_destructor`
  | .destructorTree t => s.acquire c .tree (.destructorBody t)
  | .destructorBody _ => some (s.release c .tree .idle)
  -- `timer_dispatch_timers`
  | .dispatchTree => s.acquire c .tree .dispatchTry
  | .dispatchTry =>
    match found with
    | none => some (s.goto c .dispatchExit)
    | some t =>
      if s.holder (.timer t) = none then s.acquire c (.timer t) (.dispatchBody t)
      else some (s.goto c .dispatchExit)
  | .dispatchBody t => some (s.release c (.timer t) .dispatchExit)
  | .dispatchExit => some (s.release c .tree .idle)

def step (s : State ι τ) : Label ι τ → Option (State ι τ)
  | .call c op =>
    match s.pc c with
    | .idle => some (s.call c op)
    | _ => none
  | .move c found => s.move c found

/-- The lock that a CPU waits for. -/
def Pc.waitsFor : Pc τ → Option (Lock τ)
  | .updateTree _ | .deleteTree _ | .destructorTree _ | .dispatchTree => some .tree
  | .updateTimer t | .deleteTimer t => some (.timer t)
  | _ => none

/-- `c` waits for a lock that `d` has. -/
def State.Blocks (s : State ι τ) (c d : ι) : Prop :=
  ∃ l, (s.pc c).waitsFor = some l ∧ s.holder l = some d

/-- A cycle of CPUs, each waiting for the next. -/
def State.Deadlock (s : State ι τ) : Prop := ∃ c, Relation.TransGen s.Blocks c c

/-- The step does not bring a `timer_update` and a `timer_delete` of one timer between their two
acquisitions at the same time. -/
def Apart (s : State ι τ) : Label ι τ → Prop
  | .call _ _ => True
  | .move c _ =>
    match s.pc c with
    | .updateTree t => s.holder .tree = none → ∀ d, s.pc d ≠ .deleteTree t
    | .deleteTimer t =>
      s.holder (.timer t) = none → s.isDeleted t = false → ∀ d, s.pc d ≠ .updateTimer t
    | _ => True

/-! ### Who has which lock -/

/-- The locks that a CPU has. -/
def Pc.holds : Pc τ → Lock τ → Prop
  | .updateTimer _, l | .updateExit _, l | .destructorBody _, l | .dispatchTry, l
  | .dispatchExit, l => l = .tree
  | .updateBody t, l | .deleteBody t, l | .dispatchBody t, l => l = .tree ∨ l = .timer t
  | .deleteAgain t, l | .deleteTree t, l | .deleteExit t, l => l = .timer t
  | _, _ => False

/-- The lock words agree with where the CPUs are. -/
def State.Owned (s : State ι τ) : Prop := ∀ c l, s.holder l = some c ↔ (s.pc c).holds l

variable {s s' : State ι τ} {c : ι} {t : τ}

omit [DecidableEq τ] in
lemma State.Owned.goto (h : s.Owned) {pc : Pc τ} (hpc : ∀ l, pc.holds l ↔ (s.pc c).holds l) :
    (s.goto c pc).Owned := by
  intro d l
  by_cases hd : d = c
  · subst hd
    simp only [State.goto, Function.update_self]
    rw [hpc]
    exact h d l
  · simp only [State.goto, Function.update_of_ne hd]
    exact h d l

lemma State.Owned.acquire (h : s.Owned) {l : Lock τ} {pc : Pc τ}
    (hpc : ∀ m, pc.holds m ↔ (s.pc c).holds m ∨ m = l) (ha : s.acquire c l pc = some s') :
    s'.Owned := by
  unfold State.acquire at ha
  split_ifs at ha with hfree
  obtain rfl := Option.some.inj ha
  intro d m
  have hd := h d m
  by_cases hm : m = l <;> by_cases hdc : d = c
  · subst hm hdc
    simp [State.goto, hpc]
  · subst hm
    simp only [Function.update_self, State.goto, Function.update_of_ne hdc, Option.some.injEq]
    rw [hfree] at hd
    simp only [reduceCtorEq, false_iff] at hd
    exact ⟨fun he => absurd he.symm hdc, fun he => absurd he hd⟩
  · subst hdc
    simp only [Function.update_of_ne hm, State.goto, Function.update_self, hpc, hm, or_false]
    exact hd
  · simp only [Function.update_of_ne hm, State.goto, Function.update_of_ne hdc]
    exact hd

lemma State.Owned.release (h : s.Owned) {l : Lock τ} {pc : Pc τ} (hl : (s.pc c).holds l)
    (hpc : ∀ m, pc.holds m ↔ (s.pc c).holds m ∧ m ≠ l) : (s.release c l pc).Owned := by
  intro d m
  have hd := h d m
  have hc := (h c l).mpr hl
  by_cases hm : m = l <;> by_cases hdc : d = c
  · subst hm hdc
    simp [State.release, State.goto, hpc]
  · subst hm
    simp only [State.release, Function.update_self, State.goto, Function.update_of_ne hdc,
      reduceCtorEq, false_iff]
    rw [← hd, hc, Option.some.injEq]
    exact fun he => hdc he.symm
  · subst hdc
    simp only [State.release, Function.update_of_ne hm, State.goto, Function.update_self, hpc,
      ne_eq,
      hm, not_false_eq_true, and_true]
    exact hd
  · simp only [State.release, Function.update_of_ne hm, State.goto, Function.update_of_ne hdc]
    exact hd

omit [DecidableEq ι] [DecidableEq τ] in
lemma State.Owned.init : (State.init : State ι τ).Owned := fun c l => by
  simp [State.init, Pc.holds]

lemma State.Owned.move (h : s.Owned) {found : Option τ} (hm : s.move c found = some s') :
    s'.Owned := by
  unfold State.move at hm
  cases hpc : s.pc c <;> simp only [hpc, reduceCtorEq, Option.some.injEq] at hm
  case deleteTree =>
    refine h.acquire (fun m => ?_) hm
    simp only [hpc, Pc.holds]
    exact or_comm
  case updateTree | destructorTree | dispatchTree | updateTimer =>
    refine h.acquire (fun m => ?_) hm
    simp [hpc, Pc.holds]
  case updateBody | deleteAgain | deleteBody | deleteExit | dispatchBody | updateExit
      | destructorBody | dispatchExit =>
    subst hm
    refine h.release ?_ fun m => ?_
    · simp [hpc, Pc.holds]
    · cases m <;> simp [hpc, Pc.holds]
  case deleteTimer t =>
    split_ifs at hm with hdel
    · refine h.acquire (fun m => ?_) hm
      simp [hpc, Pc.holds]
    · have hmark : (s.markDeleted t).Owned := h
      refine hmark.acquire (fun m => ?_) hm
      simp [State.markDeleted, hpc, Pc.holds]
  case dispatchTry =>
    have hgoto : (s.goto c .dispatchExit).Owned :=
      h.goto fun l => by simp [hpc, Pc.holds]
    cases found with
    | none => exact Option.some.inj hm ▸ hgoto
    | some t =>
      simp only at hm
      split_ifs at hm
      · refine h.acquire (fun m => ?_) hm
        simp [hpc, Pc.holds]
      · exact Option.some.inj hm ▸ hgoto

lemma State.Owned.step (h : s.Owned) {a : Label ι τ} (ha : step s a = some s') : s'.Owned := by
  cases a with
  | move c found => exact h.move ha
  | call c op =>
    simp only [TimerLocks.step] at ha
    cases hpc : s.pc c <;> simp only [hpc, reduceCtorEq, Option.some.injEq] at ha
    subst ha
    cases op with
    | destructor t =>
      simp only [State.call]
      split_ifs
      · exact h
      · exact h.goto fun l => by simp [hpc, Pc.holds]
    | update t | delete t | dispatch => exact h.goto fun l => by simp [hpc, Pc.holds]

/-! ### Deadlocks -/

/-- A `timer_update` and a `timer_delete` of one timer are both between their acquisitions. -/
def State.Clash (s : State ι τ) : Prop :=
  ∃ c d t, s.pc c = .updateTimer t ∧ s.pc d = .deleteTree t

omit [DecidableEq ι] [DecidableEq τ] in
/-- Whoever waits with the tree's lock is a `timer_update`. -/
lemma Pc.updateTimer_of_waits {pc : Pc τ} {l : Lock τ} (hw : pc.waitsFor = some l)
    (hh : pc.holds .tree) : ∃ t, pc = .updateTimer t ∧ l = .timer t := by
  cases pc <;> simp_all [Pc.waitsFor, Pc.holds]

omit [DecidableEq ι] [DecidableEq τ] in
/-- Whoever waits with a timer's lock is a `timer_delete`. -/
lemma Pc.deleteTree_of_waits {pc : Pc τ} {l : Lock τ} (hw : pc.waitsFor = some l)
    (hh : pc.holds (.timer t)) : pc = .deleteTree t ∧ l = .tree := by
  cases pc <;> simp_all [Pc.waitsFor, Pc.holds]

omit [DecidableEq ι] [DecidableEq τ] in
lemma State.Owned.deadlock_iff (h : s.Owned) : s.Deadlock ↔ s.Clash := by
  constructor
  · rintro ⟨c, hc⟩
    -- the next CPU after a member of the cycle is in the cycle as well
    have hnext : ∀ {c}, Relation.TransGen s.Blocks c c →
        ∃ d, s.Blocks c d ∧ Relation.TransGen s.Blocks d d := by
      intro c hc
      obtain ⟨d, hcd, hdc⟩ := Relation.TransGen.head'_iff.mp hc
      exact ⟨d, hcd, Relation.TransGen.tail' hdc hcd⟩
    have htree : ∀ {c d}, s.Blocks c d → s.holder .tree = some c →
        Relation.TransGen s.Blocks d d → s.Clash := by
      rintro c d ⟨l, hw, hl⟩ hc hd
      obtain ⟨t, hpc, rfl⟩ := Pc.updateTimer_of_waits hw ((h c _).mp hc)
      obtain ⟨e, ⟨m, hw', -⟩, -⟩ := hnext hd
      exact ⟨c, d, t, hpc, (Pc.deleteTree_of_waits hw' ((h d _).mp hl)).1⟩
    obtain ⟨d, ⟨l, hw, hl⟩, hd⟩ := hnext hc
    obtain ⟨e, hde, he⟩ := hnext hd
    cases l with
    | tree => exact htree hde hl he
    | timer t =>
      obtain ⟨m, hw', hm⟩ := hde
      obtain ⟨-, rfl⟩ := Pc.deleteTree_of_waits hw' ((h d _).mp hl)
      obtain ⟨f, hef, hf⟩ := hnext he
      exact htree hef hm hf
  · rintro ⟨c, d, t, hc, hd⟩
    have hcd : s.Blocks c d := ⟨.timer t, by rw [hc]; rfl, (h d _).mpr (by rw [hd]; rfl)⟩
    have hdc : s.Blocks d c := ⟨.tree, by rw [hd]; rfl, (h c _).mpr (by rw [hc]; rfl)⟩
    exact ⟨c, Relation.TransGen.head hcd (.single hdc)⟩

lemma State.acquire_pc {l : Lock τ} {pc : Pc τ} (ha : s.acquire c l pc = some s') :
    s.holder l = none ∧ s'.pc = Function.update s.pc c pc := by
  unfold State.acquire at ha
  split_ifs at ha with hfree
  exact ⟨hfree, Option.some.inj ha ▸ rfl⟩

lemma State.move_pc {found : Option τ} (hm : s.move c found = some s') :
    ∃ pc, s'.pc = Function.update s.pc c pc ∧
      (∀ t, pc = .updateTimer t ↔ s.pc c = .updateTree t ∧ s.holder .tree = none) ∧
      (∀ t, pc = .deleteTree t ↔ s.pc c = .deleteTimer t ∧ s.holder (.timer t) = none ∧
        s.isDeleted t = false) := by
  unfold State.move at hm
  cases hpc : s.pc c <;> simp only [hpc, reduceCtorEq, Option.some.injEq] at hm
  case deleteTree | updateTree | destructorTree | dispatchTree | updateTimer =>
    obtain ⟨hfree, hs'⟩ := State.acquire_pc hm
    exact ⟨_, hs', by simp [hfree], by simp⟩
  case updateBody | deleteAgain | deleteBody | deleteExit | dispatchBody | updateExit
      | destructorBody | dispatchExit =>
    subst hm
    exact ⟨_, rfl, by simp, by simp⟩
  case deleteTimer t =>
    split_ifs at hm with hdel
    · obtain ⟨-, hs'⟩ := State.acquire_pc hm
      refine ⟨_, hs', by simp, fun u => ?_⟩
      simp only [reduceCtorEq, Pc.deleteTimer.injEq, false_iff, not_and]
      rintro rfl -
      simp [hdel]
    · obtain ⟨hfree, hs'⟩ := State.acquire_pc hm
      refine ⟨_, hs', by simp, fun u => ?_⟩
      simp only [Pc.deleteTree.injEq, Pc.deleteTimer.injEq]
      refine ⟨?_, fun hu => hu.1⟩
      rintro rfl
      exact ⟨rfl, hfree, by simpa using hdel⟩
  case dispatchTry =>
    cases found with
    | none =>
      obtain rfl := Option.some.inj hm
      exact ⟨.dispatchExit, rfl, by simp, by simp⟩
    | some t =>
      simp only at hm
      split_ifs at hm
      · obtain ⟨-, hs'⟩ := State.acquire_pc hm
        exact ⟨_, hs', by simp, by simp⟩
      · obtain rfl := Option.some.inj hm
        exact ⟨.dispatchExit, rfl, by simp, by simp⟩

omit [DecidableEq τ] in
lemma State.call_pc (op : Op τ) (hc : s.pc c = .idle) : ∃ pc,
    (s.call c op).pc = Function.update s.pc c pc ∧ (∀ t, pc ≠ .updateTimer t) ∧
      ∀ t, pc ≠ .deleteTree t := by
  cases op with
  | destructor t =>
    simp only [State.call]
    split_ifs
    · exact ⟨.idle, by rw [← hc, Function.update_eq_self], by simp, by simp⟩
    · exact ⟨_, rfl, by simp, by simp⟩
  | update t | delete t | dispatch => exact ⟨_, rfl, by simp, by simp⟩

omit [DecidableEq τ] in
/-- A clash after a CPU has moved is an old one, or the CPU is one of its two. -/
lemma State.clash_update {pc : Pc τ} (hs : s'.pc = Function.update s.pc c pc) (hno : ¬s.Clash) :
    s'.Clash ↔ (∃ t, pc = .updateTimer t ∧ ∃ d, d ≠ c ∧ s.pc d = .deleteTree t) ∨
      ∃ t, pc = .deleteTree t ∧ ∃ d, d ≠ c ∧ s.pc d = .updateTimer t := by
  constructor
  · rintro ⟨d, e, t, hd, he⟩
    rw [hs] at hd he
    by_cases hdc : d = c <;> by_cases hec : e = c
    · subst hdc hec
      rw [Function.update_self] at hd he
      rw [hd] at he
      cases he
    · subst hdc
      rw [Function.update_self] at hd
      rw [Function.update_of_ne hec] at he
      exact .inl ⟨t, hd, e, hec, he⟩
    · subst hec
      rw [Function.update_self] at he
      rw [Function.update_of_ne hdc] at hd
      exact .inr ⟨t, he, d, hdc, hd⟩
    · rw [Function.update_of_ne hdc] at hd
      rw [Function.update_of_ne hec] at he
      exact absurd ⟨d, e, t, hd, he⟩ hno
  · rintro (⟨t, hpc, d, hdc, hd⟩ | ⟨t, hpc, d, hdc, hd⟩)
    · refine ⟨c, d, t, ?_, ?_⟩ <;> simp [hs, hpc, hdc, hd]
    · refine ⟨d, c, t, ?_, ?_⟩ <;> simp [hs, hpc, hdc, hd]

lemma clash_step {a : Label ι τ} (hno : ¬s.Clash) (ha : step s a = some s') :
    ¬s'.Clash ↔ Apart s a := by
  cases a with
  | call c op =>
    simp only [step] at ha
    cases hpc : s.pc c <;> simp only [hpc, reduceCtorEq, Option.some.injEq] at ha
    obtain ⟨pc, hs, hu, hd⟩ := State.call_pc op hpc
    rw [ha] at hs
    rw [State.clash_update hs hno]
    simp [hu, hd, Apart]
  | move c found =>
    obtain ⟨pc, hs, hu, hd⟩ := State.move_pc ha
    rw [State.clash_update hs hno]
    simp only [hu, hd]
    unfold Apart
    cases hpc : s.pc c
    case updateTree t =>
      simp only [hpc, Pc.updateTree.injEq, reduceCtorEq, false_and, exists_false, or_false]
      constructor
      · intro h hfree d hd'
        refine h ⟨t, ⟨rfl, hfree⟩, d, ?_, hd'⟩
        rintro rfl
        rw [hpc] at hd'
        cases hd'
      · rintro h ⟨u, ⟨rfl, hfree⟩, d, -, hd'⟩
        exact h hfree d hd'
    case deleteTimer t =>
      simp only [hpc, Pc.deleteTimer.injEq, reduceCtorEq, false_and, exists_false, false_or]
      constructor
      · intro h hfree hdel d hd'
        refine h ⟨t, ⟨rfl, hfree, hdel⟩, d, ?_, hd'⟩
        rintro rfl
        rw [hpc] at hd'
        cases hd'
      · rintro h ⟨u, ⟨rfl, hfree, hdel⟩, d, -, hd'⟩
        exact h hfree hdel d hd'
    all_goals simp [hpc]

lemma apart_of_refused {a : Label ι τ} (ha : step s a = none) : Apart s a := by
  cases a with
  | call c op => trivial
  | move c found =>
    simp only [step, State.move] at ha
    unfold Apart
    cases hpc : s.pc c <;> simp only [hpc] at ha ⊢
    case updateTree t =>
      intro hfree
      simp [State.acquire, hfree] at ha
    case deleteTimer t =>
      intro hfree hdel
      simp [State.acquire, hfree, hdel, State.markDeleted] at ha

/-- **No deadlock of the timers.** No state of a run has a deadlock exactly when no step of it
brings a `timer_update` and a `timer_delete` of one timer between their acquisitions together. -/
theorem deadlock_free_iff (labels : List (Label ι τ)) :
    (∀ before, before <+: labels → ∀ s, run step .init before = some s → ¬s.Deadlock) ↔
      Along step Apart .init labels := by
  have hinit : (State.init : State ι τ).Owned := .init
  refine along_iff (I := State.Owned) (P := fun s => ¬s.Deadlock) (fun _ _ _ h ha => h.step ha)
    (fun s a s' h hno ha => ?_) (fun _ _ => apart_of_refused) labels _ hinit ?_
  · rw [h.deadlock_iff] at hno
    rw [(h.step ha).deadlock_iff]
    exact clash_step hno ha
  · rw [hinit.deadlock_iff]
    rintro ⟨c, d, t, hc, -⟩
    cases hc

/-- One CPU updates a timer that another deletes. -/
def updateAgainstDelete : List (Label Bool Unit) :=
  [.call false (.update ()), .call true (.delete ()), .move false none, .move true none]

/-- Both CPUs wait for ever. -/
theorem update_delete_deadlock : ¬∀ (labels : List (Label Bool Unit)) s,
    run step .init labels = some s → ¬s.Deadlock := by
  intro h
  have hinit : (State.init : State Bool Unit).Owned := .init
  cases hrun : run step .init updateAgainstDelete with
  | none => exact absurd hrun (by simp [updateAgainstDelete, step, State.call, State.goto,
      State.move, State.acquire, State.markDeleted, State.init])
  | some s =>
    have hok := @along_true _ _ step (State.init : State Bool Unit) updateAgainstDelete
    have howned : s.Owned := run_inv (fun _ _ _ hI _ ha => hI.step ha) _ _ _ hinit hok hrun
    refine h _ s hrun (howned.deadlock_iff.mpr ⟨false, true, (), ?_⟩)
    simp only [updateAgainstDelete, run_cons, run_nil, step, State.call, State.goto, State.move,
      State.acquire, State.markDeleted, State.init] at hrun
    simp at hrun
    subst hrun
    exact ⟨rfl, rfl⟩

end KernelModel.TimerLocks
