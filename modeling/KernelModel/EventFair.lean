import KernelModel.EventWake

/-!
Every step of a run that leaves no containers behind is fair.

Each region keeps the invariant of the lines and the calls; the properties of a step are then read
off the invariant before it.
-/

namespace KernelModel.EventWait

open Events Runs

variable {ι ε δ : Type} [DecidableEq ι] [DecidableEq ε] [DecidableEq δ]
  {s s' : State ι ε δ} {j : ι} {e : ε} {d : δ}

/-! ### The threads -/

omit [DecidableEq ε] [DecidableEq δ] in
/-- A region that changes only thread `j`, and neither its sequence number nor what it waits for. -/
lemma Inv.move {p : Pc ε} {t : Thread} (h : Inv s) (hevent : s'.event = s.event)
    (hlock : s'.lock = s.lock) (hdispatch : s'.dispatch = s.dispatch)
    (hsince : s'.since = s.since) (hclock : s'.clock = s.clock) (hwoken : s'.woken = s.woken)
    (hpc : ∀ j', s'.pc j' = if j' = j then p else s.pc j')
    (hthread : ∀ j', s'.thread j' = if j' = j then t else s.thread j')
    (hwokenBy : ∀ j', j' ≠ j → s'.wokenBy j' = s.wokenBy j')
    (hseq : t.eventSequenceId = (s.thread j).eventSequenceId)
    (hwaits : ∀ k e, t.state = .awaitingEvent ∧ k < p.queued ∧ p.events[k]? = some e ↔
      Waits s j k e)
    (hspin : ∀ d e all, s.dispatch d = .spin e all j → t.state = .none ∧ p ≠ .idle)
    (hcancel : ∀ events i, p = .cancel events i → t.state = .awaitingEvent)
    (hcall : p ≠ .idle → t.state = .awaitingEvent ∨
      ∃ e, s'.wokenBy j = some e ∧ p.events[t.eventWakeupIndex]? = some e) : Inv s' := by
  have hj : s'.thread j = t := by rw [hthread, if_pos rfl]
  have hother : ∀ j', j' ≠ j → s'.thread j' = s.thread j' := fun j' hj' => by
    rw [hthread, if_neg hj']
  refine ⟨h.lines.frame ?_ ?_ ?_ hsince hclock, ?_⟩
  · intro e
    simp only [line, hlock, hdispatch, hevent]
  · intro j' k e
    by_cases hjj : j' = j
    · subst hjj
      rw [← hwaits, Waits, hj, hpc, if_pos rfl]
    · rw [Waits, Waits, hother j' hjj, hpc, if_neg hjj]
  · intro j'
    by_cases hjj : j' = j
    · rw [hjj, hj, hseq]
    · rw [hother j' hjj]
  · exact h.calls.thread (fun e => hevent ▸ h.calls.deleted e) hlock (fun d => by rw [hdispatch])
      (fun d => by rw [hwoken]) hpc hother hwokenBy (by rwa [hj]) (by rwa [hj]) (by rwa [hj])

omit [DecidableEq δ] in
lemma eventAwait_inv {events : List ε} (h : Inv s) (hs : eventAwait s j events = some s') :
    Inv s' := by
  unfold eventAwait at hs
  split at hs
  · rename_i hidle
    obtain rfl := Option.some.inj hs
    refine h.move (t := (s.thread j).startAwait) (p := .await events 0) rfl rfl rfl rfl rfl rfl
      (fun _ => by simp) (fun _ => by simp) (fun j' hj => Function.update_of_ne hj _ _) rfl ?_ ?_
      (by simp) ?_
    · intro k e
      simp [Waits, hidle.1, Pc.queued]
    · intro d e all hd
      exact absurd hidle.1 (h.calls.spin d e all j hd).2
    · exact fun _ => .inl rfl
  · simp at hs

omit [DecidableEq ε] [DecidableEq δ] in
lemma goto_thread_ite {p : Pc ε} (j' : ι) :
    (s.goto j p).thread j' = if j' = j then s.thread j else s.thread j' := by
  split
  · rename_i hj
    rw [hj, State.goto_thread]
  · rfl

omit [DecidableEq δ] in
lemma queue_inv {events : List ε} {i : ℕ} (h : Inv s) (hpc : s.pc j = .await events i)
    (he : events[i]? = some e) (hstate : (s.thread j).state = .awaitingEvent)
    (hactive : (s.event e).isActive = false) :
    Inv (((s.setEvent e (awaitEvent j (s.thread j) (s.event e) i).2).stamp j i).goto j
      (.await events (i + 1))) := by
  have hdeleted := h.calls.deleted e
  simp only [awaitEvent, hdeleted, hactive, Bool.false_eq_true, if_false]
  refine ⟨h.lines.queue hpc he hstate ?_ (fun _ => by simp) (fun _ => by simp)
    (fun _ _ => State.stamp_since) rfl, ?_⟩
  · intro e'
    unfold line
    rw [State.goto_event, State.stamp_event, State.setEvent_event]
    split
    · rename_i hee
      rw [hee, List.append_assoc]
      rfl
    · rfl
  · refine h.calls.thread (j := j) (p := .await events (i + 1)) ?_ rfl (fun _ => rfl)
      (fun _ => rfl) (fun _ => by simp) (fun _ _ => by simp) (fun _ _ => rfl) ?_ (by simp)
      (fun _ => .inl hstate)
    · intro e'
      simp only [State.goto_event, State.stamp_event, State.setEvent_event]
      split
      · rfl
      · exact h.calls.deleted e'
    · intro d e' all hd
      exact ⟨(h.calls.spin d e' all j hd).1, by simp⟩

omit [DecidableEq δ] in
lemma threadStep_inv (h : Inv s) (hkept : Kept s (.thread j)) (hs : threadStep s j = some s') :
    Inv s' := by
  unfold threadStep at hs
  simp only [Kept] at hkept
  split at hs
  · simp at hs
  · -- the loop over the set
    rename_i events i hpc
    rw [hpc] at hkept
    split at hs
    · rename_i hend
      have hlen := List.getElem?_eq_none_iff.mp hend
      obtain rfl := Option.some.inj hs
      refine h.move (t := s.thread j) (p := .yield events) rfl rfl rfl rfl rfl rfl
        (fun _ => by simp) goto_thread_ite (fun _ _ => rfl) rfl ?_ ?_ (by simp) ?_
      · intro k e
        simp only [Waits, hpc, Pc.queued, Pc.events]
        grind -linarith
      · intro d e all hd
        exact ⟨(h.calls.spin d e all j hd).1, by simp⟩
      · intro _
        have := h.calls.call j (by simp [hpc])
        rwa [hpc] at this
    · rename_i e he
      obtain ⟨hstate, hfirst⟩ := hkept e he
      split at hs
      · simp at hs
      · cases hactive : (s.event e).isActive with
        | true =>
          -- the first event is active: nothing was queued
          obtain rfl := hfirst hactive
          simp only [awaitEvent, h.calls.deleted e, hactive, Bool.false_eq_true, if_false,
            if_true] at hs
          obtain rfl := Option.some.inj hs
          refine h.move (t := s.thread j) (p := .cancel events 0) rfl rfl rfl rfl rfl rfl
            (fun _ => by simp) goto_thread_ite (fun _ _ => rfl) rfl ?_ ?_
            (fun _ _ _ => hstate) (fun _ => .inl hstate)
          · intro k e
            simp [Waits, hpc, Pc.queued]
          · intro d e all hd
            exact ⟨(h.calls.spin d e all j hd).1, by simp⟩
        | false =>
          have hfalse : (awaitEvent j (s.thread j) (s.event e) i).1 = false := by
            simp [awaitEvent, h.calls.deleted e, hactive]
          simp only [hfalse, Bool.false_eq_true, if_false] at hs
          obtain rfl := Option.some.inj hs
          exact queue_inv h hpc he hstate hactive
  · -- the return from an active event
    rename_i events i hpc
    obtain rfl := Option.some.inj hs
    refine h.move (t := (s.thread j).cancelAwait i) (p := .idle) rfl rfl rfl rfl rfl rfl
      (fun _ => by simp) (fun _ => by simp) (fun _ _ => rfl) rfl ?_ ?_ (by simp) (by simp)
    · intro k e
      simp [Waits, hpc, Pc.queued]
    · intro d e all hd
      have hnone := (h.calls.spin d e all j hd).1
      rw [h.calls.cancel j events i hpc] at hnone
      simp at hnone
  · -- the registers are saved
    rename_i events hpc
    obtain rfl := Option.some.inj hs
    refine h.move (t := (s.thread j).saveRegisters) (p := .asleep events) rfl rfl rfl rfl rfl rfl
      (fun _ => by simp) (fun _ => by simp) (fun _ _ => rfl) rfl ?_ ?_ (by simp) ?_
    · intro k e
      simp [Waits, hpc, Pc.queued, Pc.events, Thread.saveRegisters]
    · intro d e all hd
      exact ⟨(h.calls.spin d e all j hd).1, by simp⟩
    · intro _
      have := h.calls.call j (by simp [hpc])
      rwa [hpc] at this
  · -- a woken thread continues and returns
    rename_i events hpc
    split at hs
    · rename_i hqueued
      obtain rfl := Option.some.inj hs
      refine h.move (t := (s.thread j).continueRunning) (p := .idle) rfl rfl rfl rfl rfl rfl
        (fun _ => by simp) (fun _ => by simp) (fun _ _ => rfl) rfl ?_ ?_ (by simp) (by simp)
      · intro k e
        simp [Waits, hqueued, Pc.queued]
      · intro d e all hd
        have hnone := (h.calls.spin d e all j hd).1
        simp [hqueued] at hnone
    · simp at hs

/-! ### The dispatches -/

omit [DecidableEq ι] [DecidableEq ε] [DecidableEq δ] in
/-- What dispatch `d` does leaves the lines of the other events as they are. -/
lemma line_of_ne (h : Calls s) (hd : (s.dispatch d).event? ≠ some e)
    (hlock : s'.lock e = s.lock e) (hdispatch : ∀ d', d' ≠ d → s'.dispatch d' = s.dispatch d')
    (hqueue : (s'.event e).queue = (s.event e).queue) : line s' e = line s e := by
  unfold line
  rw [hlock, hqueue]
  cases hl : s.lock e with
  | none => rfl
  | some d' =>
    have hne : d' ≠ d := by
      rintro rfl
      exact hd ((h.lock d' e).mpr hl)
    simp only [Option.elim_some, hdispatch d' hne]

omit [DecidableEq ι] [DecidableEq ε] [DecidableEq δ] in
lemma line_of_lock (hlock : s.lock e = some d) :
    line s e = (s.dispatch d).hand ++ (s.event e).queue := by
  simp [line, hlock]

lemma eventDispatch_inv {setActive all : Bool} (h : Inv s)
    (hs : eventDispatch s d e setActive all = some s') : Inv s' := by
  unfold eventDispatch at hs
  split at hs
  · simp at hs
  · rename_i hfree
    push Not at hfree
    obtain ⟨hidle, hfree⟩ := hfree
    have hlock : s.lock e = none := by simpa using hfree
    rw [h.calls.deleted e] at hs
    obtain rfl := Option.some.inj hs
    refine ⟨h.lines.frame ?_ (fun _ _ _ => Iff.rfl) (fun _ => rfl) rfl rfl, ?_⟩
    · intro e'
      by_cases hee : e' = e
      · subst hee
        simp [line, hlock, State.setDispatch, State.setLock, State.setEvent]
      · exact line_of_ne (d := d) h.calls (by simp [hidle])
          (by simp [State.setDispatch, State.setLock, State.setEvent, hee])
          (fun d' hd => Function.update_of_ne hd _ _)
          (by simp [State.setDispatch, State.setLock, State.setEvent, hee])
    · obtain ⟨h1, h2, h3, h4, h5, h6, h7, h8⟩ := h.calls
      constructor
      all_goals simp only [State.setDispatch, State.setLock, State.setEvent, Function.update_apply]
      all_goals grind -linarith [Dispatch.event?]

omit [DecidableEq ι] [DecidableEq δ] in
lemma eventSetActive_inv {isActive : Bool} (h : Inv s)
    (hs : eventSetActive s e isActive = some s') : Inv s' := by
  unfold eventSetActive at hs
  rw [h.calls.deleted e] at hs
  split at hs
  · simp at hs
  · obtain rfl := Option.some.inj hs
    refine ⟨h.lines.frame ?_ (fun _ _ _ => Iff.rfl) (fun _ => rfl) rfl rfl, ?_⟩
    · intro e'
      unfold line
      rw [State.setEvent_event]
      split
      · rename_i hee
        rw [hee]
        rfl
      · rfl
    · refine { h.calls with deleted := ?_ }
      intro e'
      rw [State.setEvent_event]
      split
      · exact h.calls.deleted e
      · exact h.calls.deleted e'

omit [DecidableEq ι] in
lemma loop_end_inv {all : Bool} (h : Inv s) (hd : s.dispatch d = .loop e all) :
    Inv ((s.setLock e none).setDispatch d .idle) := by
  have hlock : s.lock e = some d := (h.calls.lock d e).mp (by simp [hd])
  refine ⟨h.lines.frame ?_ (fun _ _ _ => Iff.rfl) (fun _ => rfl) rfl rfl, ?_⟩
  · intro e'
    by_cases hee : e' = e
    · subst hee
      rw [line_of_lock hlock, hd]
      simp [line, State.setDispatch, State.setLock]
    · exact line_of_ne (d := d) h.calls (by simp [hd, Ne.symm hee])
        (Function.update_of_ne hee _ _) (fun d' hd => Function.update_of_ne hd _ _) rfl
  · obtain ⟨h1, h2, h3, h4, h5, h6, h7, h8⟩ := h.calls
    constructor
    all_goals simp only [State.setDispatch, State.setLock, Function.update_apply]
    all_goals grind -linarith [Dispatch.event?]

omit [DecidableEq ι] in
lemma loop_pop_inv {all : Bool} {c : Container ι} {queue : List (Container ι)} (h : Inv s)
    (hd : s.dispatch d = .loop e all) (hcons : (s.event e).queue = c :: queue) :
    Inv ((s.setEvent e { s.event e with queue := queue }).setDispatch d
      (if c.Selects (s.thread c.thread) then .wake e all c else .loop e all)) := by
  have hlock : s.lock e = some d := (h.calls.lock d e).mp (by simp [hd])
  have hline : line s e = c :: queue := by
    rw [line_of_lock hlock, hd, hcons]
    rfl
  have hother : ∀ a e', e' ≠ e →
      line ((s.setEvent e { s.event e with queue := queue }).setDispatch d a) e' = line s e' := by
    intro a e' hee
    exact line_of_ne (d := d) h.calls (by simp [hd, Ne.symm hee]) rfl
      (fun d' hd => Function.update_of_ne hd _ _)
      (by simp [State.setDispatch, hee])
  have hcalls : Calls ((s.setEvent e { s.event e with queue := queue }).setDispatch d
      (if c.Selects (s.thread c.thread) then .wake e all c else .loop e all)) := by
    obtain ⟨h1, h2, h3, h4, h5, h6, h7, h8⟩ := h.calls
    constructor
    all_goals simp only [State.setDispatch, State.setEvent, Function.update_apply]
    all_goals grind -linarith [Dispatch.event?]
  refine ⟨?_, hcalls⟩
  split
  · -- the container goes into the hand, and the line is the same
    refine h.lines.frame ?_ (fun _ _ _ => Iff.rfl) (fun _ => rfl) rfl rfl
    intro e'
    by_cases hee : e' = e
    · subst hee
      rw [hline]
      simp [line, hlock, State.setDispatch, State.setEvent]
    · exact hother _ e' hee
  · -- a current container would select its thread
    rename_i hsel
    refine h.lines.drop hline ?_ ?_ (fun _ _ _ => Iff.rfl) (fun _ => rfl) rfl rfl
    · intro hcur
      have hw := h.lines.current e c (by simp [hline]) hcur
      exact hsel ⟨hw.1, hcur.symm⟩
    · intro e'
      split
      · rename_i hee
        subst hee
        simp [line, hlock, State.setDispatch, State.setEvent]
      · rename_i hee
        exact hother _ e' hee

lemma wake_inv {all : Bool} {c : Container ι} (h : Inv s) (hd : s.dispatch d = .wake e all c)
    (hsel : c.Selects (s.thread c.thread))
    (hroom : (s.thread c.thread).eventSequenceId + 1 < 2 ^ 64) :
    Inv (((s.setThread c.thread ((s.thread c.thread).wake c.index)).recordWake d e
      c.thread).setDispatch d (.spin e all c.thread)) := by
  have hlock : s.lock e = some d := (h.calls.lock d e).mp (by simp [hd])
  have hline : line s e = c :: (s.event e).queue := by
    rw [line_of_lock hlock, hd]
    rfl
  have hw := h.lines.current e c (by simp [hline]) hsel.2.symm
  refine ⟨h.lines.wake hline hroom ?_ (fun _ => rfl) (fun _ => State.setThread_thread) rfl rfl, ?_⟩
  · intro e'
    split
    · rename_i hee
      subst hee
      simp [line, hlock, State.setDispatch, State.recordWake, State.setThread]
    · rename_i hee
      exact line_of_ne (d := d) h.calls (by simp [hd, Ne.symm hee]) rfl
        (fun d' hd => Function.update_of_ne hd _ _) rfl
  · have hnspin : ∀ d' e' all', s.dispatch d' ≠ .spin e' all' c.thread := by
      intro d' e' all' hd'
      have := (h.calls.spin d' e' all' c.thread hd').1
      simp [hsel.1] at this
    have hpc : s.pc c.thread ≠ .idle ∧ ∀ events i, s.pc c.thread ≠ .cancel events i := by
      have := hw.2.1
      constructor
      · intro hpc
        simp [hpc, Pc.queued] at this
      · intro events i hpc
        simp [hpc, Pc.queued] at this
    have hindex := hw.2.2
    have hzero : all = false → s.woken d = 0 := by
      rintro rfl
      exact h.calls.counted d e (.inr ⟨c, hd⟩)
    obtain ⟨h1, h2, h3, h4, h5, h6, h7, h8⟩ := h.calls
    constructor
    all_goals simp only [State.setDispatch, State.recordWake, State.setThread,
      Function.update_apply]
    all_goals grind -linarith [Dispatch.event?, Thread.wake]

omit [DecidableEq ε] [DecidableEq δ] in
lemma waits_enqueue {k : ι} (hk : (s.thread k).state = .none)
    (hpc : ∀ j, s'.pc j = s.pc j)
    (hthread : ∀ j, s'.thread j = if j = k then (s.thread k).enqueue else s.thread j) (j : ι)
    (i : ℕ) (e : ε) : Waits s' j i e ↔ Waits s j i e := by
  unfold Waits
  rw [hpc, hthread]
  by_cases hj : j = k
  · simp [hj, hk, Thread.enqueue]
  · simp [hj]

lemma spin_all_inv {k : ι} (h : Inv s) (hd : s.dispatch d = .spin e true k) :
    Inv ((s.setThread k (s.thread k).enqueue).setDispatch d (.loop e true)) := by
  have hlock : s.lock e = some d := (h.calls.lock d e).mp (by simp [hd])
  have hk := h.calls.spin d e true k hd
  have halone := h.calls.alone d
  refine ⟨h.lines.frame ?_ (waits_enqueue hk.1 (fun _ => rfl) fun _ => State.setThread_thread) ?_
    rfl rfl, ?_⟩
  · intro e'
    by_cases hee : e' = e
    · subst hee
      rw [line_of_lock hlock, hd]
      simp [line, hlock, State.setDispatch, State.setThread]
    · exact line_of_ne (d := d) h.calls (by simp [hd, Ne.symm hee]) rfl
        (fun d' hd => Function.update_of_ne hd _ _) rfl
  · intro j
    simp only [State.setDispatch, State.setThread_thread]
    grind -linarith [Thread.enqueue]
  · obtain ⟨h1, h2, h3, h4, h5, h6, h7, h8⟩ := h.calls
    constructor
    all_goals simp only [State.setDispatch, State.setThread, Function.update_apply]
    all_goals grind -linarith [Dispatch.event?, Thread.enqueue]

lemma spin_one_inv {k : ι} (h : Inv s) (hd : s.dispatch d = .spin e false k) :
    Inv (((s.setThread k (s.thread k).enqueue).setLock e none).setDispatch d .idle) := by
  have hlock : s.lock e = some d := (h.calls.lock d e).mp (by simp [hd])
  have hk := h.calls.spin d e false k hd
  have halone := h.calls.alone d
  refine ⟨h.lines.frame ?_ (waits_enqueue hk.1 (fun _ => rfl) fun _ => State.setThread_thread) ?_
    rfl rfl, ?_⟩
  · intro e'
    by_cases hee : e' = e
    · subst hee
      rw [line_of_lock hlock, hd]
      simp [line, State.setDispatch, State.setThread, State.setLock]
    · exact line_of_ne (d := d) h.calls (by simp [hd, Ne.symm hee])
        (Function.update_of_ne hee _ _) (fun d' hd => Function.update_of_ne hd _ _) rfl
  · intro j
    simp only [State.setDispatch, State.setLock, State.setThread_thread]
    grind -linarith [Thread.enqueue]
  · obtain ⟨h1, h2, h3, h4, h5, h6, h7, h8⟩ := h.calls
    constructor
    all_goals simp only [State.setDispatch, State.setLock, State.setThread, Function.update_apply]
    all_goals grind -linarith [Dispatch.event?, Thread.enqueue]

lemma dispatchStep_inv (h : Inv s) (hkept : Kept s (.dispatcher d))
    (hs : dispatchStep s d = some s') : Inv s' := by
  unfold dispatchStep at hs
  simp only [Kept] at hkept
  split at hs
  · simp at hs
  · rename_i e all hd
    split at hs
    · obtain rfl := Option.some.inj hs
      exact loop_end_inv h hd
    · rename_i c queue hcons
      obtain rfl := Option.some.inj hs
      exact loop_pop_inv h hd hcons
  · rename_i e all c hd
    rw [hd] at hkept
    obtain rfl := Option.some.inj hs
    exact wake_inv h hd hkept.1 hkept.2
  · rename_i e all k hd
    split at hs
    · simp at hs
    · cases all with
      | true =>
        obtain rfl := Option.some.inj hs
        exact spin_all_inv h hd
      | false =>
        obtain rfl := Option.some.inj hs
        exact spin_one_inv h hd

lemma step_inv {m : Move ι ε δ} (h : Inv s) (hkept : Kept s m) (hs : step s m = some s') :
    Inv s' := by
  cases m with
  | await j events => exact eventAwait_inv h hs
  | thread j => exact threadStep_inv h hkept hs
  | dispatch d e setActive dispatchAll => exact eventDispatch_inv h hs
  | dispatcher d => exact dispatchStep_inv h hkept hs
  | setActive e isActive => exact eventSetActive_inv h hs

/-! ### What a step does to the waiting threads -/

omit [DecidableEq δ] in
lemma threadStep_thread {j' : ι} (hs : threadStep s j = some s') (hj : j' ≠ j) :
    s'.thread j' = s.thread j' := by
  unfold threadStep at hs
  simp only at hs
  repeat' split at hs
  all_goals first
    | (obtain rfl := Option.some.inj hs
       simp [hj])
    | simp at hs

omit [DecidableEq ι] [DecidableEq ε] [DecidableEq δ] in
/-- The thread a dispatch is about to wake waits for the event of the dispatch, and longer than
anybody else. -/
lemma Inv.first {all : Bool} {c : Container ι} (h : Inv s) (hd : s.dispatch d = .wake e all c)
    (hsel : c.Selects (s.thread c.thread)) :
    Waits s c.thread c.index e ∧
      ∀ j k, Waits s j k e → s.since c.thread c.index ≤ s.since j k := by
  have hlock : s.lock e = some d := (h.calls.lock d e).mp (by simp [hd])
  have hline : line s e = c :: (s.event e).queue := by
    rw [line_of_lock hlock, hd]
    rfl
  have hcur : Current s c := hsel.2.symm
  refine ⟨h.lines.current e c (by simp [hline]) hcur, ?_⟩
  intro j k hw
  have hmem := h.lines.present j k e hw
  have hordered := h.lines.ordered e
  rw [hline] at hmem hordered
  obtain rfl | hmem := List.mem_cons.mp hmem
  · exact le_rfl
  · exact (List.rel_of_pairwise_cons hordered hmem hcur rfl).le

lemma Inv.woken {m : Move ι ε δ} (h : Inv s) (hkept : Kept s m) (hs : step s m = some s')
    (hm : m ≠ .thread j) (hj : (s.thread j).state = .awaitingEvent)
    (hj' : (s'.thread j).state ≠ .awaitingEvent) :
    ∃ d e dispatchAll c, m = .dispatcher d ∧ s.dispatch d = .wake e dispatchAll c ∧
      c.thread = j ∧ (s.pc j).events[c.index]? = some e := by
  have hchanged : s'.thread j ≠ s.thread j := by
    intro heq
    exact hj' (heq ▸ hj)
  cases m with
  | await i events =>
    simp only [step, eventAwait] at hs
    split at hs
    · obtain rfl := Option.some.inj hs
      simp only [State.goto_thread, State.setThread_thread] at hj' hchanged
      split at hj'
      · exact absurd rfl hj'
      · exact absurd hj hj'
    · simp at hs
  | thread i =>
    have hji : j ≠ i := fun hji => hm (by rw [hji])
    exact absurd (threadStep_thread hs hji) hchanged
  | dispatch d e setActive dispatchAll =>
    simp only [step, eventDispatch] at hs
    repeat' split at hs
    · simp at hs
    · exact absurd (Option.some.inj hs ▸ rfl) hchanged
    · exact absurd (Option.some.inj hs ▸ rfl) hchanged
  | setActive e isActive =>
    simp only [step, eventSetActive] at hs
    repeat' split at hs
    · simp at hs
    · exact absurd (Option.some.inj hs ▸ rfl) hchanged
    · exact absurd (Option.some.inj hs ▸ rfl) hchanged
  | dispatcher d =>
    simp only [step, dispatchStep] at hs
    simp only [Kept] at hkept
    split at hs
    · simp at hs
    · split at hs
      · exact absurd (Option.some.inj hs ▸ rfl) hchanged
      · exact absurd (Option.some.inj hs ▸ rfl) hchanged
    · -- the change of a selected thread
      rename_i e all c hd
      rw [hd] at hkept
      have hw := (h.first hd hkept.1).1
      obtain rfl := Option.some.inj hs
      have hcj : c.thread = j := by
        by_contra hne
        exact hchanged (Function.update_of_ne (Ne.symm hne) _ _)
      exact ⟨d, e, all, c, rfl, hd, hcj, hcj ▸ hw.2.2⟩
    · -- the enqueued thread does not wait
      rename_i e all k hd
      have hk := (h.calls.spin d e all k hd).1
      have hjk : j ≠ k := by
        rintro rfl
        simp [hj] at hk
      repeat' split at hs
      · simp at hs
      · exact absurd (Option.some.inj hs ▸ Function.update_of_ne hjk _ _) hchanged
      · exact absurd (Option.some.inj hs ▸ Function.update_of_ne hjk _ _) hchanged

omit [DecidableEq δ] in
/-- A call that has blocked returns the index of the event that has woken its thread. -/
lemma Inv.returned {events : List ε} (h : Inv s) (hs : threadStep s j = some s')
    (hpc : s.pc j = .asleep events) :
    ∃ e, s.wokenBy j = some e ∧ events[(s'.thread j).eventWakeupIndex]? = some e := by
  have hcall := h.calls.call j (by simp [hpc])
  simp only [threadStep, hpc] at hs
  split at hs
  · rename_i hqueued
    obtain rfl := Option.some.inj hs
    simp only [hpc, hqueued] at hcall
    simpa [Thread.continueRunning, Pc.events] using hcall
  · simp at hs

/-- A dispatch to one thread ends with one thread woken, or with nobody waiting. -/
lemma Inv.one (h : Inv s) (hs : dispatchStep s d = some s')
    (hd : s.dispatch d = .loop e false ∨ ∃ j, s.dispatch d = .spin e false j)
    (hidle : s'.dispatch d = .idle) :
    s.woken d = 1 ∨ s.woken d = 0 ∧ ∀ j k, ¬ Waits s j k e := by
  obtain hd | ⟨j, hd⟩ := hd
  · right
    refine ⟨h.calls.counted d e (.inl hd), ?_⟩
    have hlock : s.lock e = some d := (h.calls.lock d e).mp (by simp [hd])
    simp only [dispatchStep, hd] at hs
    split at hs
    · rename_i hnil
      have hline : line s e = [] := by
        rw [line_of_lock hlock, hd, hnil]
        rfl
      intro j k hw
      have hmem := h.lines.present j k e hw
      simp [hline] at hmem
    · obtain rfl := Option.some.inj hs
      simp only [State.setDispatch, Function.update_self] at hidle
      split at hidle <;> simp at hidle
  · exact .inl (h.calls.countedOne d e j hd)

lemma Inv.fair {m : Move ι ε δ} (h : Inv s) (hkept : Kept s m) (hs : step s m = some s') :
    Fair s m s' where
  woken _ hm hj hj' := h.woken hkept hs hm hj hj'
  returned j events hm hpc := by
    subst hm
    exact h.returned hs hpc
  first d e all c hm hd := by
    subst hm
    simp only [Kept, hd] at hkept
    exact h.first hd hkept.1
  one d e hm hd hidle := by
    subst hm
    exact h.one hs hd hidle

/-- **Wake-ups belong to their waits.** In every run whose moves meet the condition every move is
fair: threads are woken by events of their sets, calls return the index of that event, and a
dispatch wakes one thread, the one that has waited longest. -/
theorem fair_of_kept {moves : List (Move ι ε δ)} (hkept : Along step Kept (initial ι ε δ) moves) :
    Along step (fun s m => ∀ s', step s m = some s' → Fair s m s') (initial ι ε δ) moves :=
  along_of_inv (fun _ _ _ h hk hs => step_inv h hk hs) (fun _ _ h hk _ hs => h.fair hk hs) moves _
    initial_inv hkept

/-- Threads `0` and `1` wait for event `0`, thread `1` for event `1` as well; a dispatch of event
`0` wakes thread `0`, which came first. -/
def twoWaiters : List (Move (Fin 2) (Fin 2) Unit) :=
  [.await 0 [0], .thread 0, .thread 0, .thread 0, .await 1 [1, 0], .thread 1, .thread 1, .thread 1,
    .thread 1, .dispatch () 0 false false, .dispatcher (), .dispatcher (), .dispatcher (),
    .thread 0]

theorem twoWaiters_fair :
    (run step (initial (Fin 2) (Fin 2) Unit) twoWaiters).map
      (fun s => ((s.thread 0).state, (s.thread 1).state)) = some (.running, .awaitingEvent) ∧
    Along step (fun s m => ∀ s', step s m = some s' → Fair s m s')
      (initial (Fin 2) (Fin 2) Unit) twoWaiters :=
  ⟨by decide +kernel, fair_of_kept (by decide +kernel)⟩

local instance neZeroOne : NeZero 1 := ⟨one_ne_zero⟩

/-- A thread waits for events `0` and `1` while event `1` is active, and then for event `2`. Its
first call has left a container on event `0`, which is dispatched. -/
def staleContainer : List (Move (Fin 1) (Fin 3) Unit) :=
  [.setActive 1 true, .await 0 [0, 1], .thread 0, .thread 0, .thread 0, .await 0 [2], .thread 0,
    .thread 0, .thread 0, .dispatch () 0 false false, .dispatcher ()]

/-- The dispatch of event `0` wakes the thread, which waits for event `2` only. -/
theorem staleContainer_not_fair : ¬ ∀ moves : List (Move (Fin 1) (Fin 3) Unit),
    Along step (fun s m => ∀ s', step s m = some s' → Fair s m s') (initial (Fin 1) (Fin 3) Unit)
      moves := by
  intro h
  have hmap : (run step (initial (Fin 1) (Fin 3) Unit) staleContainer).map
      (fun s => (s.dispatch (), s.pc 0)) = some (.wake 0 false ⟨0, 0, 0⟩, .asleep [2]) := by
    decide +kernel
  obtain ⟨s, hs, heq⟩ := Option.map_eq_some_iff.mp hmap
  obtain ⟨hd, hpc⟩ := Prod.mk.inj heq
  have hfair := (h (staleContainer ++ [.dispatcher ()])).last hs
  obtain ⟨s', hs'⟩ : ∃ s', step s (.dispatcher ()) = some s' := by
    simp only [step, dispatchStep, hd]
    exact ⟨_, rfl⟩
  obtain ⟨hw, -⟩ := (hfair s' hs').first () 0 false _ rfl hd
  have hset := hw.2.2
  simp [hpc, Pc.events] at hset

end KernelModel.EventWait
