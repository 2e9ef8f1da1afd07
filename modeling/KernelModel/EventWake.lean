import KernelModel.EventAwait

/-!
Wake-ups belong to the wait they end, unless a call leaves containers behind.

The line of an event is its queue with the container a dispatch has just taken off it in front.
The invariant says that the containers in the lines that carry the present sequence number of their
thread are those of the call the thread is in, one for every event it is queued on, and that they
stand in the order in which the threads came.
-/

namespace KernelModel.EventWait

open Events Runs

variable {ι ε δ : Type} [DecidableEq ι] [DecidableEq ε] [DecidableEq δ]

/-- The condition on a region of thread `j`: an await goes on to the next event only while its
thread was not woken, and finds no event of its set active but the first. -/
def AwaitKept (s : State ι ε δ) (j : ι) : Pc ε → Prop
  | .await events i => ∀ e ∈ events[i]?,
      (s.thread j).state = .awaitingEvent ∧ ((s.event e).isActive = true → i = 0)
  | _ => True

/-- The condition on a region of a dispatch: when it changes a thread, what it has tested still
holds, and the thread's sequence number has room. -/
def WakeKept (s : State ι ε δ) : Dispatch ι ε → Prop
  | .wake _ _ c => c.Selects (s.thread c.thread) ∧
      (s.thread c.thread).eventSequenceId + 1 < 2 ^ 64
  | _ => True

/-- The condition on one move. -/
def Kept (s : State ι ε δ) : Move ι ε δ → Prop
  | .thread j => AwaitKept s j (s.pc j)
  | .dispatcher d => WakeKept s (s.dispatch d)
  | _ => True

instance (s : State ι ε δ) (j : ι) : (p : Pc ε) → Decidable (AwaitKept s j p)
  | .await events i =>
    match h : events[i]? with
    | none => isTrue (by simp [AwaitKept, h])
    | some e => decidable_of_iff ((s.thread j).state = .awaitingEvent ∧
        ((s.event e).isActive = true → i = 0)) (by simp [AwaitKept, h])
  | .idle | .cancel _ _ | .yield _ | .asleep _ => isTrue trivial

instance (s : State ι ε δ) : (p : Dispatch ι ε) → Decidable (WakeKept s p)
  | .wake _ _ _ => inferInstanceAs (Decidable (_ ∧ _))
  | .idle | .loop _ _ | .spin _ _ _ => isTrue trivial

instance (s : State ι ε δ) : (m : Move ι ε δ) → Decidable (Kept s m)
  | .thread j => inferInstanceAs (Decidable (AwaitKept s j (s.pc j)))
  | .dispatcher d => inferInstanceAs (Decidable (WakeKept s (s.dispatch d)))
  | .await _ _ | .dispatch _ _ _ _ | .setActive _ _ => isTrue trivial

/-- The event a dispatch works on, whose lock it holds. -/
@[simp] def Dispatch.event? : Dispatch ι ε → Option ε
  | .idle => none
  | .loop e _ | .wake e _ _ | .spin e _ _ => some e

/-- The container a dispatch has taken off the queue to wake its thread. -/
@[simp] def Dispatch.hand : Dispatch ι ε → List (Container ι)
  | .wake _ _ c => [c]
  | _ => []

/-- The containers of event `e` in their order, with the one in the hand of a dispatch. -/
def line (s : State ι ε δ) (e : ε) : List (Container ι) :=
  ((s.lock e).elim [] fun d => (s.dispatch d).hand) ++ (s.event e).queue

/-- The container carries the present sequence number of its thread. -/
def Current (s : State ι ε δ) (c : Container ι) : Prop :=
  c.sequenceId = (s.thread c.thread).eventSequenceId

/-- Both containers are current, and the first has come earlier. -/
def Before (s : State ι ε δ) (c c' : Container ι) : Prop :=
  Current s c → Current s c' → s.since c.thread c.index < s.since c'.thread c'.index

/-- Who stands in which line. -/
structure Lines (s : State ι ε δ) : Prop where
  past : ∀ e, ∀ c ∈ line s e, c.sequenceId ≤ (s.thread c.thread).eventSequenceId
  current : ∀ e, ∀ c ∈ line s e, Current s c → Waits s c.thread c.index e
  present : ∀ j k e, Waits s j k e → ⟨j, (s.thread j).eventSequenceId, k⟩ ∈ line s e
  ordered : ∀ e, (line s e).Pairwise (Before s)
  stamped : ∀ j k e, Waits s j k e → s.since j k < s.clock

/-- Where the threads and the dispatches are. -/
structure Calls (s : State ι ε δ) : Prop where
  deleted : ∀ e, (s.event e).isDeleted = false
  lock : ∀ d e, (s.dispatch d).event? = some e ↔ s.lock e = some d
  call : ∀ j, s.pc j ≠ .idle → (s.thread j).state = .awaitingEvent ∨
    ∃ e, s.wokenBy j = some e ∧ (s.pc j).events[(s.thread j).eventWakeupIndex]? = some e
  cancel : ∀ j events i, s.pc j = .cancel events i → (s.thread j).state = .awaitingEvent
  spin : ∀ d e all j, s.dispatch d = .spin e all j →
    (s.thread j).state = .none ∧ s.pc j ≠ .idle
  alone : ∀ d d' e e' all all' j, s.dispatch d = .spin e all j → s.dispatch d' = .spin e' all' j →
    d = d'
  counted : ∀ d e, (s.dispatch d = .loop e false ∨ ∃ c, s.dispatch d = .wake e false c) →
    s.woken d = 0
  countedOne : ∀ d e j, s.dispatch d = .spin e false j → s.woken d = 1

structure Inv (s : State ι ε δ) : Prop where
  lines : Lines s
  calls : Calls s

omit [DecidableEq ι] [DecidableEq ε] [DecidableEq δ] in
lemma initial_inv : Inv (initial ι ε δ) where
  lines :=
    { past := by simp [line, initial, eventCreate]
      current := by simp [line, initial, eventCreate]
      present := by simp [Waits, initial, runningThread]
      ordered := by simp [line, initial, eventCreate]
      stamped := by simp [Waits, initial, runningThread] }
  calls :=
    { deleted := by simp [initial, eventCreate]
      lock := by simp [initial]
      call := by simp [initial]
      cancel := by simp [initial]
      spin := by simp [initial]
      alone := by simp [initial]
      counted := by simp [initial]
      countedOne := by simp [initial] }

variable {s s' : State ι ε δ} {j : ι} {k : ℕ} {e : ε} {d : δ}

/-! ### The lines -/

omit [DecidableEq ι] [DecidableEq ε] [DecidableEq δ] in
lemma Lines.frame (h : Lines s) (hline : ∀ e, line s' e = line s e)
    (hwaits : ∀ j k e, Waits s' j k e ↔ Waits s j k e)
    (hseq : ∀ j, (s'.thread j).eventSequenceId = (s.thread j).eventSequenceId)
    (hsince : s'.since = s.since) (hclock : s'.clock = s.clock) : Lines s' := by
  have hcurrent : ∀ c, Current s' c ↔ Current s c := by
    intro c
    rw [Current, Current, hseq]
  refine ⟨?_, ?_, ?_, ?_, ?_⟩
  · intro e c hc
    rw [hseq]
    exact h.past e c (hline e ▸ hc)
  · intro e c hc hcur
    rw [hwaits]
    exact h.current e c (hline e ▸ hc) ((hcurrent c).mp hcur)
  · intro j k e hw
    rw [hline, hseq]
    exact h.present j k e ((hwaits j k e).mp hw)
  · intro e
    rw [hline]
    refine (h.ordered e).imp ?_
    intro c c' hb
    unfold Before
    rw [hcurrent, hcurrent, hsince]
    exact hb
  · intro j k e hw
    rw [hsince, hclock]
    exact h.stamped j k e ((hwaits j k e).mp hw)

omit [DecidableEq δ] in
lemma Lines.queue {i : ℕ} {events : List ε} (h : Lines s) (hpc : s.pc j = .await events i)
    (he : events[i]? = some e) (hstate : (s.thread j).state = .awaitingEvent)
    (hline : ∀ e', line s' e' =
      if e' = e then line s e ++ [⟨j, (s.thread j).eventSequenceId, i⟩] else line s e')
    (hpc' : ∀ j', s'.pc j' = if j' = j then .await events (i + 1) else s.pc j')
    (hthread : ∀ j, s'.thread j = s.thread j)
    (hsince : ∀ j' k, s'.since j' k = if j' = j ∧ k = i then s.clock else s.since j' k)
    (hclock : s'.clock = s.clock + 1) : Lines s' := by
  have hwaits : ∀ j' k e', Waits s' j' k e' ↔ Waits s j' k e' ∨ j' = j ∧ k = i ∧ e' = e := by
    intro j' k e'
    unfold Waits
    rw [hpc', hthread]
    by_cases hj : j' = j
    · subst hj
      simp only [hpc, if_true, Pc.queued, Pc.events, hstate]
      grind -linarith
    · simp [hj]
  have hnew : ∀ k e', Waits s j k e' → k ≠ i := by
    intro k e' hw
    have := hw.2.1
    rw [hpc] at this
    exact Nat.ne_of_lt this
  have hcurrent : ∀ c, Current s' c ↔ Current s c := by
    intro c
    rw [Current, Current, hthread]
  -- the stamps of the current containers stay, since they have another index or thread
  have hold : ∀ e', ∀ c ∈ line s e', Current s c →
      s'.since c.thread c.index = s.since c.thread c.index := by
    intro e' c hc hcur
    have hw := h.current e' c hc hcur
    rw [hsince, if_neg]
    rintro ⟨hj, hk⟩
    rw [hj] at hw
    exact hnew _ _ hw hk
  refine ⟨?_, ?_, ?_, ?_, ?_⟩
  · intro e' c hc
    rw [hline] at hc
    rw [hthread]
    split at hc
    · obtain hc | hc := List.mem_append.mp hc
      · exact h.past e c hc
      · obtain rfl := List.mem_singleton.mp hc
        exact le_rfl
    · exact h.past e' c hc
  · intro e' c hc hcur
    rw [hline] at hc
    rw [hwaits]
    rw [hcurrent] at hcur
    split at hc
    · rename_i hee
      obtain hc | hc := List.mem_append.mp hc
      · exact .inl (hee ▸ h.current e c hc hcur)
      · obtain rfl := List.mem_singleton.mp hc
        exact .inr ⟨rfl, rfl, hee⟩
    · exact .inl (h.current e' c hc hcur)
  · intro j' k e' hw
    rw [hline, hthread]
    obtain hw | ⟨rfl, rfl, rfl⟩ := (hwaits j' k e').mp hw
    · have := h.present j' k e' hw
      split
      · rename_i hee
        exact List.mem_append_left _ (hee ▸ this)
      · exact this
    · simp
  · intro e'
    rw [hline]
    have hpair : ∀ e', (line s e').Pairwise (Before s') := by
      intro e'
      refine (h.ordered e').imp_of_mem ?_
      intro c c' hc hc' hb hcur hcur'
      rw [hcurrent] at hcur hcur'
      rw [hold e' c hc hcur, hold e' c' hc' hcur']
      exact hb hcur hcur'
    split
    · refine List.pairwise_append.mpr ⟨hpair e, List.pairwise_singleton _ _, ?_⟩
      intro c hc c' hc' hcur _
      obtain rfl := List.mem_singleton.mp hc'
      rw [hcurrent] at hcur
      rw [hold e c hc hcur, hsince, if_pos ⟨rfl, rfl⟩]
      exact h.stamped _ _ _ (h.current e c hc hcur)
    · exact hpair e'
  · intro j' k e' hw
    rw [hclock, hsince]
    obtain hw | ⟨rfl, rfl, rfl⟩ := (hwaits j' k e').mp hw
    · have := h.stamped j' k e' hw
      split <;> omega
    · simp

omit [DecidableEq ι] [DecidableEq δ] in
lemma Lines.drop {c : Container ι} {rest : List (Container ι)} (h : Lines s)
    (hcons : line s e = c :: rest) (hc : ¬ Current s c)
    (hline : ∀ e', line s' e' = if e' = e then rest else line s e')
    (hwaits : ∀ j k e, Waits s' j k e ↔ Waits s j k e)
    (hthread : ∀ j, s'.thread j = s.thread j) (hsince : s'.since = s.since)
    (hclock : s'.clock = s.clock) : Lines s' := by
  have hcurrent : ∀ c, Current s' c ↔ Current s c := by
    intro c
    rw [Current, Current, hthread]
  have hsub : ∀ e', (line s' e').Sublist (line s e') := by
    intro e'
    rw [hline]
    split
    · rename_i hee
      rw [hee, hcons]
      exact List.sublist_cons_self c rest
    · exact List.Sublist.refl _
  refine ⟨?_, ?_, ?_, ?_, ?_⟩
  · intro e' c' hc'
    rw [hthread]
    exact h.past e' c' ((hsub e').subset hc')
  · intro e' c' hc' hcur
    rw [hwaits]
    exact h.current e' c' ((hsub e').subset hc') ((hcurrent c').mp hcur)
  · intro j' k e' hw
    have hmem := h.present j' k e' ((hwaits j' k e').mp hw)
    rw [hline, hthread]
    split
    · rename_i hee
      rw [hee, hcons] at hmem
      obtain rfl | hmem := List.mem_cons.mp hmem
      · exact absurd rfl hc
      · exact hmem
    · exact hmem
  · intro e'
    refine ((h.ordered e').sublist (hsub e')).imp ?_
    intro c c' hb
    unfold Before
    rw [hcurrent, hcurrent, hsince]
    exact hb
  · intro j' k e' hw
    rw [hsince, hclock]
    exact h.stamped j' k e' ((hwaits j' k e').mp hw)

omit [DecidableEq δ] in
/-- A dispatch wakes the thread of the first container: no other container of that thread is
current any more. -/
lemma Lines.wake {c : Container ι} {rest : List (Container ι)} (h : Lines s)
    (hcons : line s e = c :: rest) (hroom : (s.thread c.thread).eventSequenceId + 1 < 2 ^ 64)
    (hline : ∀ e', line s' e' = if e' = e then rest else line s e')
    (hpc : ∀ j, s'.pc j = s.pc j)
    (hthread : ∀ j, s'.thread j =
      if j = c.thread then (s.thread c.thread).wake c.index else s.thread j)
    (hsince : s'.since = s.since) (hclock : s'.clock = s.clock) : Lines s' := by
  have hwaits : ∀ j k e, Waits s' j k e ↔ j ≠ c.thread ∧ Waits s j k e := by
    intro j k e
    unfold Waits
    rw [hpc, hthread]
    by_cases hj : j = c.thread
    · simp [hj, Thread.wake]
    · simp [hj]
  have hseq : ∀ j, (s'.thread j).eventSequenceId =
      (s.thread j).eventSequenceId + if j = c.thread then 1 else 0 := by
    intro j
    rw [hthread]
    split
    · rename_i hj
      rw [hj]
      exact Nat.mod_eq_of_lt hroom
    · rfl
  have hsub : ∀ e', (line s' e').Sublist (line s e') := by
    intro e'
    rw [hline]
    split
    · rename_i hee
      rw [hee, hcons]
      exact List.sublist_cons_self c rest
    · exact List.Sublist.refl _
  have hcurrent : ∀ e', ∀ c' ∈ line s' e', Current s' c' → c'.thread ≠ c.thread ∧ Current s c' := by
    intro e' c' hc' hcur
    have hpast := h.past e' c' ((hsub e').subset hc')
    unfold Current at hcur ⊢
    rw [hseq] at hcur
    split at hcur
    · omega
    · rename_i hne
      exact ⟨hne, hcur⟩
  refine ⟨?_, ?_, ?_, ?_, ?_⟩
  · intro e' c' hc'
    rw [hseq]
    exact (h.past e' c' ((hsub e').subset hc')).trans (Nat.le_add_right _ _)
  · intro e' c' hc' hcur
    obtain ⟨hne, hcur⟩ := hcurrent e' c' hc' hcur
    exact (hwaits _ _ _).mpr ⟨hne, h.current e' c' ((hsub e').subset hc') hcur⟩
  · intro j' k e' hw
    obtain ⟨hne, hw⟩ := (hwaits j' k e').mp hw
    have hmem := h.present j' k e' hw
    rw [hline, hthread, if_neg hne]
    split
    · rename_i hee
      rw [hee, hcons] at hmem
      obtain rfl | hmem := List.mem_cons.mp hmem
      · exact absurd rfl hne
      · exact hmem
    · exact hmem
  · intro e'
    refine ((h.ordered e').sublist (hsub e')).imp_of_mem ?_
    intro c₁ c₂ h₁ h₂ hb hcur₁ hcur₂
    rw [hsince]
    exact hb (hcurrent e' c₁ h₁ hcur₁).2 (hcurrent e' c₂ h₂ hcur₂).2
  · intro j' k e' hw
    rw [hsince, hclock]
    exact h.stamped j' k e' ((hwaits j' k e').mp hw).2

/-! ### The calls -/

omit [DecidableEq ε] [DecidableEq δ] in
/-- A region of thread `j`: no event's lock changes hands, and the thread stays what the dispatches
believe it to be. -/
lemma Calls.thread {p : Pc ε} (h : Calls s) (hdeleted : ∀ e, (s'.event e).isDeleted = false)
    (hlock : s'.lock = s.lock) (hdispatch : ∀ d, s'.dispatch d = s.dispatch d)
    (hwoken : ∀ d, s'.woken d = s.woken d)
    (hpc : ∀ j', s'.pc j' = if j' = j then p else s.pc j')
    (hthread : ∀ j', j' ≠ j → s'.thread j' = s.thread j')
    (hwokenBy : ∀ j', j' ≠ j → s'.wokenBy j' = s.wokenBy j')
    (hspin : ∀ d e all, s.dispatch d = .spin e all j → (s'.thread j).state = .none ∧ p ≠ .idle)
    (hcancel : ∀ events i, p = .cancel events i → (s'.thread j).state = .awaitingEvent)
    (hcall : p ≠ .idle → (s'.thread j).state = .awaitingEvent ∨
      ∃ e, s'.wokenBy j = some e ∧ p.events[(s'.thread j).eventWakeupIndex]? = some e) :
    Calls s' := by
  obtain ⟨h1, h2, h3, h4, h5, h6, h7, h8⟩ := h
  constructor
  · exact hdeleted
  · grind -linarith
  · intro j' hj'
    by_cases hjj : j' = j
    · subst hjj
      rw [hpc, if_pos rfl] at hj' ⊢
      exact hcall hj'
    · rw [hpc, if_neg hjj] at hj' ⊢
      rw [hthread j' hjj, hwokenBy j' hjj]
      exact h3 j' hj'
  · grind -linarith
  · grind -linarith
  · grind -linarith
  · grind -linarith
  · grind -linarith

end KernelModel.EventWait
