import KernelModel.Teardown

/-!
When the end of a process releases all its events and timers.
-/

namespace KernelModel.Teardown

open Runs

variable {s s' : State} {p : ℕ} {current : Option ℕ}

/-- An event that was created and not deleted, with one reference. -/
def Event.Alive (p : ℕ) (x : Event) : Prop :=
  x = { rc := 1
        isDeleted := false
        acl := fun q => q = p
        destructed := 0 }

def Event.Dead (x : Event) : Prop := x.rc = 0 ∧ x.destructed = 1

/-- A timer that was created and not deleted, with one reference. -/
def Timer.Alive (p : ℕ) (x : Timer) : Prop :=
  ∃ e scheduled, x = { rc := 1
                       isDeleted := false
                       acl := fun q => q = p
                       event := e
                       scheduled := scheduled
                       destructed := 0 }

def Timer.Dead (x : Timer) : Prop := x.rc = 0 ∧ x.destructed = 1 ∧ x.scheduled = false

lemma Event.Alive.not_dead {x : Event} (h : x.Alive p) : ¬x.Dead := by
  intro hd
  have hrc := hd.1
  rw [h] at hrc
  cases hrc

lemma Timer.Alive.not_dead {x : Timer} (h : x.Alive p) : ¬x.Dead := by
  obtain ⟨e, scheduled, rfl⟩ := h
  intro hd
  cases hd.1

/-- The event after its deletion. -/
def deadEvent (p : ℕ) : Event where
  rc := 0
  isDeleted := true
  acl := fun q => q = p
  destructed := 1

lemma deadEvent_dead (p : ℕ) : (deadEvent p).Dead := ⟨rfl, rfl⟩

/-- The timer after its destructor. -/
def deadTimer (p e : ℕ) (isDeleted : Bool) : Timer where
  rc := 0
  isDeleted := isDeleted
  acl := fun q => q = p
  event := e
  scheduled := false
  destructed := 1

lemma deadTimer_dead (p e : ℕ) (isDeleted : Bool) : (deadTimer p e isDeleted).Dead :=
  ⟨rfl, rfl, rfl⟩

/-- Who ends the process may delete what the process created. -/
def MayDelete (p : ℕ) (current : Option ℕ) : Prop := allowed (fun q => q = p) current = true

lemma mayDelete_self (p : ℕ) : MayDelete p (some p) := by
  simp [MayDelete, allowed, aclGet]

/-! ### Writes -/

@[simp] lemma setEvent_events_self (s : State) (e : ℕ) (x : Event) :
    (s.setEvent e x).events e = x := Function.update_self ..

lemma setEvent_events_ne (s : State) {e e' : ℕ} (x : Event) (h : e' ≠ e) :
    (s.setEvent e x).events e' = s.events e' := Function.update_of_ne h _ _

@[simp] lemma setEvent_timers (s : State) (e : ℕ) (x : Event) :
    (s.setEvent e x).timers = s.timers := rfl

@[simp] lemma setTimer_timers_self (s : State) (t : ℕ) (x : Timer) :
    (s.setTimer t x).timers t = x := Function.update_self ..

lemma setTimer_timers_ne (s : State) {t t' : ℕ} (x : Timer) (h : t' ≠ t) :
    (s.setTimer t x).timers t' = s.timers t' := Function.update_of_ne h _ _

@[simp] lemma setTimer_events (s : State) (t : ℕ) (x : Timer) :
    (s.setTimer t x).events = s.events := rfl

@[simp] lemma setEvent_setEvent (s : State) (e : ℕ) (x y : Event) :
    (s.setEvent e x).setEvent e y = s.setEvent e y := by
  simp [State.setEvent]

@[simp] lemma setTimer_setTimer (s : State) (t : ℕ) (x y : Timer) :
    (s.setTimer t x).setTimer t y = s.setTimer t y := by
  simp [State.setTimer]

lemma setEvent_setTimer (s : State) (e t : ℕ) (x : Event) (y : Timer) :
    (s.setTimer t y).setEvent e x = (s.setEvent e x).setTimer t y := rfl

@[simp] lemma setEvent_self (s : State) (e : ℕ) : s.setEvent e (s.events e) = s := by
  simp [State.setEvent]

@[simp] lemma setTimer_self (s : State) (t : ℕ) : s.setTimer t (s.timers t) = s := by
  simp [State.setTimer]

@[simp] lemma pop_setEvent (s : State) (e : ℕ) (x : Event) (h : Handle) :
    handleListPop (s.setEvent e x) h = (handleListPop s h).setEvent e x := rfl

@[simp] lemma pop_setTimer (s : State) (t : ℕ) (x : Timer) (h : Handle) :
    handleListPop (s.setTimer t x) h = (handleListPop s h).setTimer t x := rfl

@[simp] lemma pop_events (s : State) (h : Handle) : (handleListPop s h).events = s.events := rfl

@[simp] lemma pop_timers (s : State) (h : Handle) : (handleListPop s h).timers = s.timers := rfl

/-! ### The calls -/

lemma eventDelete_alive {e : ℕ} (he : (s.events e).Alive p) (hc : MayDelete p current) :
    eventDelete s current e = some (s.setEvent e (deadEvent p)) := by
  unfold Event.Alive at he
  unfold MayDelete at hc
  simp [eventDelete, eventRelease, eventHandleDestructor, he, hc, deadEvent]

lemma eventDelete_denied {e : ℕ} (he : (s.events e).Alive p) (hc : ¬MayDelete p current) :
    eventDelete s current e = some s := by
  unfold Event.Alive at he
  unfold MayDelete at hc
  simp [eventDelete, he, hc]

lemma syscallEventDelete_dead {e : ℕ} (he : (s.events e).Dead) :
    syscallEventDelete s p e = some s := by
  simp [syscallEventDelete, he.1]

lemma syscallEventDelete_alive {e : ℕ} (he : (s.events e).Alive p) :
    syscallEventDelete s p e =
      some (handleListPop (s.setEvent e (deadEvent p)) (.event e)) := by
  have hc : aclGet (fun q => q = p) p = true := by simp [aclGet]
  unfold Event.Alive at he
  simp [syscallEventDelete, eventDelete, eventRelease, eventHandleDestructor, he, hc, allowed,
    deadEvent]

lemma syscallTimerDelete_dead {t : ℕ} (ht : (s.timers t).Dead) :
    syscallTimerDelete s p t = some s := by
  simp [syscallTimerDelete, ht.1]

lemma syscallTimerDelete_alive {t : ℕ} (ht : (s.timers t).Alive p)
    (he : (s.events (s.timers t).event).Alive p) : syscallTimerDelete s p t =
      some (handleListPop ((s.setEvent (s.timers t).event (deadEvent p)).setTimer t
        (deadTimer p (s.timers t).event true)) (.timer t)) := by
  have hc : aclGet (fun q => q = p) p = true := by simp [aclGet]
  obtain ⟨e, scheduled, ht⟩ := ht
  rw [ht] at he ⊢
  have hevent : ∀ x, eventDelete ((handleListPop s (.timer t)).setTimer t x) (some p) e =
      some (((handleListPop s (.timer t)).setTimer t x).setEvent e (deadEvent p)) := fun x =>
    eventDelete_alive he (mayDelete_self p)
  simp [syscallTimerDelete, timerDelete, timerRelease, timerHandleDestructor, ht, hc, allowed,
    hevent, setEvent_setTimer, deadTimer]

lemma entry_event {e : ℕ} (he : (s.events e).Alive p) :
    handleListDestroyEntry current s (.event e) = none := by
  unfold Event.Alive at he
  simp [handleListDestroyEntry, eventRelease, eventHandleDestructor, he]

lemma entry_timer {t : ℕ} (ht : (s.timers t).Alive p)
    (he : (s.events (s.timers t).event).Alive p) :
    ∃ s', handleListDestroyEntry current s (.timer t) = some s' ∧
      s' = (if allowed (fun q => q = p) current then s.setEvent (s.timers t).event (deadEvent p)
        else s).setTimer t (deadTimer p (s.timers t).event false) := by
  obtain ⟨e, scheduled, ht⟩ := ht
  rw [ht] at he ⊢
  by_cases hc : MayDelete p current
  · have hevent : ∀ x, eventDelete (s.setTimer t x) current e =
        some ((s.setTimer t x).setEvent e (deadEvent p)) := fun x => eventDelete_alive he hc
    unfold MayDelete at hc
    simp [handleListDestroyEntry, timerRelease, timerHandleDestructor, ht, hevent, hc,
      setEvent_setTimer, deadTimer]
  · have hevent : ∀ x, eventDelete (s.setTimer t x) current e = some (s.setTimer t x) :=
      fun x => eventDelete_denied he hc
    unfold MayDelete at hc
    simp [handleListDestroyEntry, timerRelease, timerHandleDestructor, ht, hevent, hc,
      deadTimer]

/-! ### The list -/

/-- The handles `L` are of objects that were not deleted, each with references of its own. -/
structure Pending (p : ℕ) (L : List Handle) (s : State) : Prop where
  nodup : L.Nodup
  event : ∀ e, .event e ∈ L → (s.events e).Alive p
  timer : ∀ t, .timer t ∈ L → (s.timers t).Alive p ∧ (s.events (s.timers t).event).Alive p
  own : ∀ t, .timer t ∈ L → .event (s.timers t).event ∉ L
  inj : ∀ t t', .timer t ∈ L → .timer t' ∈ L → (s.timers t).event = (s.timers t').event → t = t'

/-- The state after the end of the process has come to a timer. -/
def afterTimer (p : ℕ) (current : Option ℕ) (s : State) (t : ℕ) : State :=
  (if allowed (fun q => q = p) current then s.setEvent (s.timers t).event (deadEvent p)
    else s).setTimer t (deadTimer p (s.timers t).event false)

lemma afterTimer_timers_self (t : ℕ) : ((afterTimer p current s t).timers t).Dead := by
  rw [afterTimer, setTimer_timers_self]
  exact deadTimer_dead ..

lemma afterTimer_timers_ne {t t' : ℕ} (h : t' ≠ t) :
    (afterTimer p current s t).timers t' = s.timers t' := by
  rw [afterTimer, setTimer_timers_ne _ _ h]
  split_ifs <;> rfl

lemma afterTimer_event (hc : MayDelete p current) (t : ℕ) :
    ((afterTimer p current s t).events (s.timers t).event).Dead := by
  unfold MayDelete at hc
  rw [afterTimer, if_pos hc, setTimer_events, setEvent_events_self]
  exact deadEvent_dead p

lemma afterTimer_events {t e : ℕ} (h : ¬MayDelete p current ∨ (s.timers t).event ≠ e) :
    (afterTimer p current s t).events e = s.events e := by
  rw [afterTimer, setTimer_events]
  split_ifs with hc
  · exact setEvent_events_ne _ _ (Ne.symm (h.resolve_left (not_not.mpr hc)))
  · rfl

lemma afterTimer_counts (t : ℕ) : (afterTimer p current s t).eventCount = s.eventCount ∧
    (afterTimer p current s t).timerCount = s.timerCount := by
  unfold afterTimer
  split_ifs <;> exact ⟨rfl, rfl⟩

lemma Pending.after {t : ℕ} {L : List Handle} (h : Pending p (.timer t :: L) s) :
    Pending p L (afterTimer p current s t) := by
  have hmem : ∀ {x}, x ∈ L → x ∈ Handle.timer t :: L := List.mem_cons_of_mem _
  have hne : ∀ {t'}, .timer t' ∈ L → t' ≠ t := by
    rintro t' ht' rfl
    exact (List.nodup_cons.mp h.nodup).1 ht'
  have htimers : ∀ {t'}, .timer t' ∈ L → (afterTimer p current s t).timers t' = s.timers t' :=
    fun ht' => afterTimer_timers_ne (hne ht')
  refine ⟨(List.nodup_cons.mp h.nodup).2, fun e he => ?_, fun t' ht' => ?_, fun t' ht' => ?_,
    fun t' t'' ht' ht'' heq => ?_⟩
  · rw [afterTimer_events (.inr ?_)]
    · exact h.event e (hmem he)
    · rintro rfl
      exact h.own t List.mem_cons_self (hmem he)
  · rw [htimers ht', afterTimer_events (.inr ?_)]
    · exact h.timer t' (hmem ht')
    · exact fun heq => hne ht' (h.inj t' t (hmem ht') List.mem_cons_self heq.symm)
  · rw [htimers ht']
    exact fun he => h.own t' (hmem ht') (hmem he)
  · rw [htimers ht', htimers ht''] at heq
    exact h.inj t' t'' (hmem ht') (hmem ht'') heq

lemma Pending.destroy_event {L : List Handle} (h : Pending p L s) {e : ℕ} (he : .event e ∈ L) :
    L.foldlM (handleListDestroyEntry current) s = none := by
  induction L generalizing s with
  | nil => cases he
  | cons x L ih =>
    rw [List.foldlM_cons]
    cases x with
    | event e' => rw [entry_event (h.event e' List.mem_cons_self)]; rfl
    | timer t =>
      obtain ⟨ht, hev⟩ := h.timer t List.mem_cons_self
      obtain ⟨s', hs', rfl⟩ := @entry_timer s p current t ht hev
      rw [hs']
      have he' : .event e ∈ L := by simpa using he
      exact ih (Pending.after h) he'

lemma Pending.destroy_timers {L : List Handle} (h : Pending p L s) (hno : ∀ e, .event e ∉ L) :
    ∃ s', L.foldlM (handleListDestroyEntry current) s = some s' ∧
      s'.eventCount = s.eventCount ∧ s'.timerCount = s.timerCount ∧
      (∀ t, .timer t ∈ L → (s'.timers t).Dead) ∧
      (∀ t, .timer t ∉ L → s'.timers t = s.timers t) ∧
      (MayDelete p current → ∀ t, .timer t ∈ L → (s'.events (s.timers t).event).Dead) ∧
      ∀ e, (¬MayDelete p current ∨ ∀ t, .timer t ∈ L → (s.timers t).event ≠ e) →
        s'.events e = s.events e := by
  induction L generalizing s with
  | nil =>
    exact ⟨s, rfl, rfl, rfl, fun _ ht => absurd ht List.not_mem_nil, fun _ _ => rfl,
      fun _ _ ht => absurd ht List.not_mem_nil, fun _ _ => rfl⟩
  | cons x L ih =>
    cases x with
    | event e => exact absurd List.mem_cons_self (hno e)
    | timer t =>
      have hnot := (List.nodup_cons.mp h.nodup).1
      obtain ⟨ht, hev⟩ := h.timer t List.mem_cons_self
      obtain ⟨s₁, hs₁, hafter⟩ := @entry_timer s p current t ht hev
      have hs₁' : s₁ = afterTimer p current s t := hafter
      have hpend : Pending p L s₁ := hs₁' ▸ h.after
      obtain ⟨s', hs', hec, htc, hdead, hsame, hevd, hevs⟩ :=
        ih hpend fun e he => hno e (List.mem_cons_of_mem _ he)
      have htimers : ∀ t', .timer t' ∈ L → s₁.timers t' = s.timers t' := by
        intro t' ht'
        rw [hs₁', afterTimer_timers_ne]
        rintro rfl
        exact hnot ht'
      obtain ⟨hcount, hcount'⟩ := @afterTimer_counts s p current t
      refine ⟨s', ?_, ?_, ?_, fun t' ht' => ?_, fun t' ht' => ?_, fun hc t' ht' => ?_,
        fun e he => ?_⟩
      · rw [List.foldlM_cons, hs₁]
        exact hs'
      · rw [hec, hs₁', hcount]
      · rw [htc, hs₁', hcount']
      · rcases List.mem_cons.mp ht' with heq | ht'
        · obtain rfl : t' = t := by simpa using heq
          rw [hsame t' hnot, hs₁']
          exact afterTimer_timers_self t'
        · exact hdead t' ht'
      · rw [List.mem_cons, not_or] at ht'
        rw [hsame t' ht'.2, hs₁', afterTimer_timers_ne]
        rintro rfl
        exact ht'.1 rfl
      · rcases List.mem_cons.mp ht' with heq | ht'
        · obtain rfl : t' = t := by simpa using heq
          -- no later timer has this event
          have hother : ∀ u, .timer u ∈ L → (s₁.timers u).event ≠ (s.timers t').event := by
            intro u hu heq
            rw [htimers u hu] at heq
            have hut := h.inj u t' (List.mem_cons_of_mem _ hu) List.mem_cons_self heq
            exact hnot (hut ▸ hu)
          rw [hevs _ (.inr hother), hs₁']
          exact afterTimer_event hc t'
        · rw [← htimers t' ht']
          exact hevd hc t' ht'
      · have hrest : ¬MayDelete p current ∨ ∀ u, .timer u ∈ L → (s₁.timers u).event ≠ e := by
          refine he.imp_right fun hall u hu => ?_
          rw [htimers u hu]
          exact hall u (List.mem_cons_of_mem _ hu)
        rw [hevs e hrest, hs₁']
        exact afterTimer_events (he.imp_right fun hall => hall t List.mem_cons_self)

/-! ### Runs -/

/-- What the process has made is in its list or was deleted. -/
structure Inv (p : ℕ) (s : State) : Prop where
  pending : Pending p s.handleList s
  event_lt : ∀ e, .event e ∈ s.handleList → e < s.eventCount
  timer_lt : ∀ t, .timer t ∈ s.handleList → t < s.timerCount ∧ (s.timers t).event < s.eventCount
  event : ∀ e < s.eventCount, (s.events e).Dead ∨ .event e ∈ s.handleList ∨
    ∃ t, .timer t ∈ s.handleList ∧ (s.timers t).event = e
  timer : ∀ t < s.timerCount, (s.timers t).Dead ∨ .timer t ∈ s.handleList
  created_event : ∀ e, .event e ∈ s.created → e < s.eventCount ∧
    ∀ t, .timer t ∈ s.handleList → (s.timers t).event ≠ e
  created_timer : ∀ t, .timer t ∈ s.created → t < s.timerCount
  scheduled : ∀ t, (s.timers t).scheduled = true → .timer t ∈ s.handleList

lemma inv_init (p : ℕ) : Inv p .init := by
  refine ⟨⟨List.nodup_nil, ?_, ?_, ?_, ?_⟩, ?_, ?_, ?_, ?_, ?_, ?_, ?_⟩ <;> simp [State.init]

lemma mem_push {s : State} {h x : Handle} :
    x ∈ (handleListPush s h).handleList ↔ x = h ∨ x ∈ s.handleList := by
  simp [handleListPush, List.mem_orderedInsert]

lemma nodup_push {s : State} {h : Handle} (hs : s.handleList.Nodup) (hn : h ∉ s.handleList) :
    (handleListPush s h).handleList.Nodup := by
  have hperm := List.perm_orderedInsert (fun a b : Handle => a.key ≤ b.key) h s.handleList
  exact hperm.nodup_iff.mpr (List.nodup_cons.mpr ⟨hn, hs⟩)

lemma Inv.eventCreate (h : Inv p s) : Inv p (syscallEventCreate s p) := by
  have hnew : .event s.eventCount ∉ s.handleList := fun hm => (h.event_lt _ hm).false
  have hself : (syscallEventCreate s p).events s.eventCount = ⟨1, false, fun q => q = p, 0⟩ :=
    Function.update_self ..
  have hsame : ∀ e, e < s.eventCount → (syscallEventCreate s p).events e = s.events e :=
    fun e he => Function.update_of_ne he.ne _ _
  have htimers : (syscallEventCreate s p).timers = s.timers := rfl
  have hmem : ∀ x, x ∈ (syscallEventCreate s p).handleList ↔
      x = .event s.eventCount ∨ x ∈ s.handleList := fun x => mem_push
  have htimer : ∀ t, .timer t ∈ (syscallEventCreate s p).handleList ↔ .timer t ∈ s.handleList := by
    simp [hmem]
  refine ⟨⟨nodup_push h.pending.nodup hnew, fun e he => ?_, fun t ht => ?_, fun t ht => ?_,
    fun t t' ht ht' heq => ?_⟩, fun e he => ?_, fun t ht => ?_, fun e he => ?_, fun t ht => ?_,
    fun e he => ?_, fun t ht => ?_, fun t ht => ?_⟩
  · rcases (hmem _).mp he with heq | he
    · obtain rfl : e = s.eventCount := by simpa using heq
      exact hself
    · rw [hsame e (h.event_lt e he)]
      exact h.pending.event e he
  · rw [htimer] at ht
    rw [htimers, hsame _ (h.timer_lt t ht).2]
    exact h.pending.timer t ht
  · rw [htimer] at ht
    rw [htimers, hmem, not_or]
    refine ⟨?_, h.pending.own t ht⟩
    simpa using (h.timer_lt t ht).2.ne
  · rw [htimer] at ht ht'
    exact h.pending.inj t t' ht ht' heq
  · show e < s.eventCount + 1
    rcases (hmem _).mp he with heq | he
    · obtain rfl : e = s.eventCount := by simpa using heq
      exact Nat.lt_succ_self _
    · exact Nat.lt_succ_of_lt (h.event_lt e he)
  · rw [htimer] at ht
    exact ⟨(h.timer_lt t ht).1, Nat.lt_succ_of_lt (h.timer_lt t ht).2⟩
  · rcases Nat.lt_succ_iff_lt_or_eq.mp he with hlt | rfl
    · rw [hsame e hlt, hmem, htimers]
      rcases h.event e hlt with hd | hm | ⟨t, ht, ho⟩
      · exact .inl hd
      · exact .inr (.inl (.inr hm))
      · exact .inr (.inr ⟨t, (htimer t).mpr ht, ho⟩)
    · exact .inr (.inl ((hmem _).mpr (.inl rfl)))
  · rw [htimers, htimer]
    exact h.timer t ht
  · rcases List.mem_cons.mp he with heq | he
    · obtain rfl : e = s.eventCount := by simpa using heq
      refine ⟨Nat.lt_succ_self _, fun t ht => ?_⟩
      rw [htimer] at ht
      exact (h.timer_lt t ht).2.ne
    · refine ⟨Nat.lt_succ_of_lt (h.created_event e he).1, fun t ht => ?_⟩
      rw [htimer] at ht
      exact (h.created_event e he).2 t ht
  · have ht' : .timer t ∈ s.created := by
      rcases List.mem_cons.mp ht with heq | ht
      · cases heq
      · exact ht
    exact h.created_timer t ht'
  · rw [htimer]
    exact h.scheduled t ht

lemma Inv.timerCreate (h : Inv p s) (deadline : ℕ) : Inv p (syscallTimerCreate s p deadline) := by
  set s' := syscallTimerCreate s p deadline with hs'
  have hnew : .timer s.timerCount ∉ s.handleList := fun hm => (h.timer_lt _ hm).1.false
  have heself : s'.events s.eventCount = ⟨1, false, fun q => q = p, 0⟩ := Function.update_self ..
  have hesame : ∀ e, e < s.eventCount → s'.events e = s.events e :=
    fun e he => Function.update_of_ne he.ne _ _
  have htself : s'.timers s.timerCount =
      ⟨1, false, fun q => q = p, s.eventCount, deadline ≠ 0, 0⟩ := Function.update_self ..
  have htsame : ∀ t, t ≠ s.timerCount → s'.timers t = s.timers t :=
    fun t ht => Function.update_of_ne ht _ _
  have hmem : ∀ x, x ∈ s'.handleList ↔ x = .timer s.timerCount ∨ x ∈ s.handleList :=
    fun x => mem_push
  have hevent : ∀ e, .event e ∈ s'.handleList ↔ .event e ∈ s.handleList := by
    simp [hmem]
  have htimer : ∀ t, .timer t ∈ s'.handleList → t = s.timerCount ∨
      t ≠ s.timerCount ∧ .timer t ∈ s.handleList := by
    intro t ht
    rcases (hmem _).mp ht with heq | hm
    · exact .inl (by simpa using heq)
    · exact .inr ⟨(h.timer_lt t hm).1.ne, hm⟩
  refine ⟨⟨nodup_push h.pending.nodup hnew, fun e he => ?_, fun t ht => ?_, fun t ht => ?_,
    fun t t' ht ht' heq => ?_⟩, fun e he => ?_, fun t ht => ?_, fun e he => ?_, fun t ht => ?_,
    fun e he => ?_, fun t ht => ?_, fun t ht => ?_⟩
  · rw [hevent] at he
    rw [hesame e (h.event_lt e he)]
    exact h.pending.event e he
  · rcases htimer t ht with rfl | ⟨hne, ht⟩
    · rw [htself]
      exact ⟨⟨_, _, rfl⟩, heself⟩
    · rw [htsame t hne, hesame _ (h.timer_lt t ht).2]
      exact h.pending.timer t ht
  · rw [hevent]
    rcases htimer t ht with rfl | ⟨hne, ht⟩
    · rw [htself]
      exact fun hm => (h.event_lt _ hm).false
    · rw [htsame t hne]
      exact h.pending.own t ht
  · rcases htimer t ht with rfl | ⟨hne, ht⟩ <;> rcases htimer t' ht' with rfl | ⟨hne', ht'⟩
    · rfl
    · rw [htself, htsame t' hne'] at heq
      exact absurd heq.symm (h.timer_lt t' ht').2.ne
    · rw [htself, htsame t hne] at heq
      exact absurd heq (h.timer_lt t ht).2.ne
    · rw [htsame t hne, htsame t' hne'] at heq
      exact h.pending.inj t t' ht ht' heq
  · rw [hevent] at he
    exact Nat.lt_succ_of_lt (h.event_lt e he)
  · rcases htimer t ht with rfl | ⟨hne, ht⟩
    · rw [htself]
      exact ⟨Nat.lt_succ_self _, Nat.lt_succ_self _⟩
    · rw [htsame t hne]
      exact ⟨Nat.lt_succ_of_lt (h.timer_lt t ht).1, Nat.lt_succ_of_lt (h.timer_lt t ht).2⟩
  · rcases Nat.lt_succ_iff_lt_or_eq.mp he with hlt | rfl
    · rw [hesame e hlt, hevent]
      rcases h.event e hlt with hd | hm | ⟨t, ht, ho⟩
      · exact .inl hd
      · exact .inr (.inl hm)
      · refine .inr (.inr ⟨t, (hmem _).mpr (.inr ht), ?_⟩)
        rw [htsame t (h.timer_lt t ht).1.ne, ho]
    · exact .inr (.inr ⟨s.timerCount, (hmem _).mpr (.inl rfl), by rw [htself]⟩)
  · rcases Nat.lt_succ_iff_lt_or_eq.mp ht with hlt | rfl
    · rw [htsame t hlt.ne, hmem]
      exact (h.timer t hlt).imp_right .inr
    · exact .inr ((hmem _).mpr (.inl rfl))
  · have he' : .event e ∈ s.created := by
      rcases List.mem_cons.mp he with heq | he
      · cases heq
      · exact he
    obtain ⟨hlt, hown⟩ := h.created_event e he'
    refine ⟨Nat.lt_succ_of_lt hlt, fun t ht => ?_⟩
    rcases htimer t ht with rfl | ⟨hne, ht⟩
    · rw [htself]
      exact hlt.ne'
    · rw [htsame t hne]
      exact hown t ht
  · rcases List.mem_cons.mp ht with heq | ht
    · obtain rfl : t = s.timerCount := Handle.timer.inj heq
      exact Nat.lt_succ_self _
    · exact Nat.lt_succ_of_lt (h.created_timer t ht)
  · rw [hmem]
    by_cases hne : t = s.timerCount
    · exact .inl (by rw [hne])
    · rw [htsame t hne] at ht
      exact .inr (h.scheduled t ht)

lemma Inv.eventGone (h : Inv p s) {e : ℕ} (hown : ∀ t, .timer t ∈ s.handleList →
    (s.timers t).event ≠ e) :
    Inv p (handleListPop (s.setEvent e (deadEvent p)) (.event e)) := by
  set s' := handleListPop (s.setEvent e (deadEvent p)) (.event e) with hs'
  have hmem : ∀ x, x ∈ s'.handleList ↔ x ≠ .event e ∧ x ∈ s.handleList := fun x =>
    h.pending.nodup.mem_erase_iff
  have htimer : ∀ t, .timer t ∈ s'.handleList ↔ .timer t ∈ s.handleList := by
    simp [hmem]
  have hevent : ∀ e', .event e' ∈ s'.handleList ↔ e' ≠ e ∧ .event e' ∈ s.handleList := by
    simp [hmem]
  have hself : s'.events e = deadEvent p := Function.update_self ..
  have hsame : ∀ e', e' ≠ e → s'.events e' = s.events e' := fun e' he =>
    Function.update_of_ne he _ _
  have htimers : s'.timers = s.timers := rfl
  refine ⟨⟨h.pending.nodup.erase _, fun e' he => ?_, fun t ht => ?_, fun t ht => ?_,
    fun t t' ht ht' heq => ?_⟩, fun e' he => ?_, fun t ht => ?_, fun e' he => ?_, fun t ht => ?_,
    fun e' he => ?_, h.created_timer, fun t ht => ?_⟩
  · rw [hevent] at he
    rw [hsame e' he.1]
    exact h.pending.event e' he.2
  · rw [htimer] at ht
    rw [htimers, hsame _ (hown t ht)]
    exact h.pending.timer t ht
  · rw [htimer] at ht
    rw [hevent]
    exact fun hm => h.pending.own t ht hm.2
  · rw [htimer] at ht ht'
    exact h.pending.inj t t' ht ht' heq
  · rw [hevent] at he
    exact h.event_lt e' he.2
  · rw [htimer] at ht
    exact h.timer_lt t ht
  · by_cases hne : e' = e
    · rw [hne, hself]
      exact .inl (deadEvent_dead p)
    · rw [hsame e' hne, hevent]
      simp only [htimer, htimers]
      exact (h.event e' he).imp_right (.imp_left fun hm => ⟨hne, hm⟩)
  · rw [htimers, htimer]
    exact h.timer t ht
  · obtain ⟨hlt, hown'⟩ := h.created_event e' he
    refine ⟨hlt, fun t ht => ?_⟩
    rw [htimer] at ht
    exact hown' t ht
  · rw [htimer]
    exact h.scheduled t ht

/-- The process has deleted the timer `t` and its event. -/
lemma Inv.timerGone (h : Inv p s) {t : ℕ} (ht : .timer t ∈ s.handleList) :
    Inv p (handleListPop ((s.setEvent (s.timers t).event (deadEvent p)).setTimer t
      (deadTimer p (s.timers t).event true)) (.timer t)) := by
  set s' := handleListPop ((s.setEvent (s.timers t).event (deadEvent p)).setTimer t
    (deadTimer p (s.timers t).event true)) (.timer t) with hs'
  have hmem : ∀ x, x ∈ s'.handleList ↔ x ≠ .timer t ∧ x ∈ s.handleList := fun x =>
    h.pending.nodup.mem_erase_iff
  have hevent : ∀ e, .event e ∈ s'.handleList ↔ .event e ∈ s.handleList := by
    simp [hmem]
  have htimer : ∀ u, .timer u ∈ s'.handleList ↔ u ≠ t ∧ .timer u ∈ s.handleList := by
    simp [hmem]
  have heself : s'.events (s.timers t).event = deadEvent p := Function.update_self ..
  have hesame : ∀ e, e ≠ (s.timers t).event → s'.events e = s.events e := fun e he =>
    Function.update_of_ne he _ _
  have htself : (s'.timers t).Dead := by
    rw [show s'.timers t = deadTimer p (s.timers t).event true from Function.update_self ..]
    exact deadTimer_dead ..
  have htsame : ∀ u, u ≠ t → s'.timers u = s.timers u := fun u hu => Function.update_of_ne hu _ _
  have hother : ∀ u, u ≠ t → .timer u ∈ s.handleList →
      (s.timers u).event ≠ (s.timers t).event := fun u hu hm heq =>
    hu (h.pending.inj u t hm ht heq)
  refine ⟨⟨h.pending.nodup.erase _, fun e he => ?_, fun u hu => ?_, fun u hu => ?_,
    fun u u' hu hu' heq => ?_⟩, fun e he => ?_, fun u hu => ?_, fun e he => ?_, fun u hu => ?_,
    fun e he => ?_, h.created_timer, fun u hu => ?_⟩
  · rw [hevent] at he
    have hne : e ≠ (s.timers t).event := by
      rintro rfl
      exact h.pending.own t ht he
    rw [hesame e hne]
    exact h.pending.event e he
  · obtain ⟨hne, hu⟩ := (htimer u).mp hu
    rw [htsame u hne, hesame _ (hother u hne hu)]
    exact h.pending.timer u hu
  · obtain ⟨hne, hu⟩ := (htimer u).mp hu
    rw [htsame u hne, hevent]
    exact h.pending.own u hu
  · obtain ⟨hne, hu⟩ := (htimer u).mp hu
    obtain ⟨hne', hu'⟩ := (htimer u').mp hu'
    rw [htsame u hne, htsame u' hne'] at heq
    exact h.pending.inj u u' hu hu' heq
  · rw [hevent] at he
    exact h.event_lt e he
  · obtain ⟨hne, hu⟩ := (htimer u).mp hu
    rw [htsame u hne]
    exact h.timer_lt u hu
  · by_cases hne : e = (s.timers t).event
    · rw [hne, heself]
      exact .inl (deadEvent_dead p)
    · rw [hesame e hne, hevent]
      refine (h.event e he).imp_right (.imp_right ?_)
      rintro ⟨u, hu, rfl⟩
      have hut : u ≠ t := by
        rintro rfl
        exact hne rfl
      exact ⟨u, (htimer u).mpr ⟨hut, hu⟩, by rw [htsame u hut]⟩
  · by_cases hne : u = t
    · rw [hne]
      exact .inl htself
    · rw [htsame u hne, htimer]
      exact (h.timer u hu).imp_right fun hm => ⟨hne, hm⟩
  · obtain ⟨hlt, hown⟩ := h.created_event e he
    refine ⟨hlt, fun u hu => ?_⟩
    obtain ⟨hne, hu⟩ := (htimer u).mp hu
    rw [htsame u hne]
    exact hown u hu
  · by_cases hne : u = t
    · rw [hne, htself.2.2] at hu
      cases hu
    · rw [htsame u hne] at hu
      exact (htimer u).mpr ⟨hne, h.scheduled u hu⟩

lemma Inv.timerDispatch (h : Inv p s) {t : ℕ} (ht : .timer t ∈ s.handleList) (again : Bool) :
    Inv p (s.setTimer t { s.timers t with scheduled := again }) := by
  set s' := s.setTimer t { s.timers t with scheduled := again } with hs'
  have hself : s'.timers t = { s.timers t with scheduled := again } := Function.update_self ..
  have hsame : ∀ u, u ≠ t → s'.timers u = s.timers u := fun u hu => Function.update_of_ne hu _ _
  have hevent : ∀ u, (s'.timers u).event = (s.timers u).event := by
    intro u
    by_cases hu : u = t
    · rw [hu, hself]
    · rw [hsame u hu]
  have halive : ∀ u, .timer u ∈ s.handleList → (s'.timers u).Alive p := by
    intro u hm
    have hal := (h.pending.timer u hm).1
    by_cases hu : u = t
    · subst hu
      obtain ⟨e, scheduled, heq⟩ := hal
      rw [hself, heq]
      exact ⟨_, _, rfl⟩
    · rw [hsame u hu]
      exact hal
  refine ⟨⟨h.pending.nodup, h.pending.event, fun u hu => ⟨halive u hu, ?_⟩, fun u hu => ?_,
    fun u u' hu hu' heq => ?_⟩, h.event_lt, fun u hu => ?_, fun e he => ?_, fun u hu => ?_,
    fun e he => ?_, h.created_timer, fun u hu => ?_⟩
  · rw [hevent]
    exact (h.pending.timer u hu).2
  · rw [hevent]
    exact h.pending.own u hu
  · rw [hevent, hevent] at heq
    exact h.pending.inj u u' hu hu' heq
  · rw [hevent]
    exact h.timer_lt u hu
  · simp only [hevent]
    exact h.event e he
  · by_cases hut : u = t
    · rw [hut]
      exact .inr ht
    · rw [hsame u hut]
      exact h.timer u hu
  · simp only [hevent]
    exact h.created_event e he
  · by_cases hut : u = t
    · rw [hut]
      exact ht
    · rw [hsame u hut] at hu
      exact h.scheduled u hu

/-- **One call** makes no panic and keeps the invariant. -/
lemma Inv.step (h : Inv p s) (op : Op) : step p s op = none ∨
    ∃ s', Teardown.step p s op = some s' ∧ Inv p s' := by
  cases op with
  | eventCreate => exact .inr ⟨_, rfl, h.eventCreate⟩
  | timerCreate deadline => exact .inr ⟨_, rfl, h.timerCreate deadline⟩
  | eventDelete e =>
    by_cases hc : .event e ∈ s.created
    · right
      simp only [Teardown.step, if_pos hc]
      obtain ⟨hlt, hown⟩ := h.created_event e hc
      rcases h.event e hlt with hd | hm | ⟨t, ht, heq⟩
      · exact ⟨s, syscallEventDelete_dead hd, h⟩
      · exact ⟨_, syscallEventDelete_alive (h.pending.event e hm), h.eventGone hown⟩
      · exact absurd heq (hown t ht)
    · exact .inl (if_neg hc)
  | timerDelete t =>
    by_cases hc : .timer t ∈ s.created
    · right
      simp only [Teardown.step, if_pos hc]
      rcases h.timer t (h.created_timer t hc) with hd | hm
      · exact ⟨s, syscallTimerDelete_dead hd, h⟩
      · obtain ⟨ht, he⟩ := h.pending.timer t hm
        exact ⟨_, syscallTimerDelete_alive ht he, h.timerGone hm⟩
    · exact .inl (if_neg hc)
  | timerDispatch t again =>
    by_cases hs : (s.timers t).scheduled = true
    · exact .inr ⟨_, if_pos hs, h.timerDispatch (h.scheduled t hs) again⟩
    · exact .inl (if_neg hs)

lemma Inv.of_run {ops : List Op} (hr : run (Teardown.step p) .init ops = some s) : Inv p s := by
  refine run_inv (fun s op s' h (_ : True) hstep => ?_) ops .init s (inv_init p)
    (along_true _ _) hr
  rcases h.step op with hn | ⟨t, ht, hinv⟩
  · rw [hn] at hstep
    cases hstep
  · rw [ht, Option.some.injEq] at hstep
    exact hstep ▸ hinv

/-- **The end of a process.** After every sequence of calls the release of the handle list makes no
panic, has every destructor run once and leaves nothing registered exactly when the process has
deleted all its events, and all its timers too unless the thread that ends the process may delete
their events. -/
theorem released_iff (p : ℕ) (current : Option ℕ) (ops : List Op) (s : State)
    (hr : run (step p) .init ops = some s) : Released s current ↔
      (∀ e, .event e ∉ s.handleList) ∧
        (MayDelete p current ∨ ∀ t, .timer t ∉ s.handleList) := by
  have h := Inv.of_run hr
  have hpend : Pending p s.handleList { s with handleList := [] } :=
    ⟨h.pending.nodup, h.pending.event, h.pending.timer, h.pending.own, h.pending.inj⟩
  constructor
  · rintro ⟨s', hs', hevents, htimers⟩
    have hno : ∀ e, .event e ∉ s.handleList := by
      intro e he
      rw [handleListDestroy, hpend.destroy_event he] at hs'
      cases hs'
    refine ⟨hno, ?_⟩
    by_contra hor
    rw [not_or, not_forall] at hor
    obtain ⟨hc, t, ht⟩ := hor
    rw [not_not] at ht
    obtain ⟨s'', hs'', hec, -, -, -, -, hsame⟩ := @Pending.destroy_timers _ p current _ hpend hno
    obtain rfl : s' = s'' := Option.some.inj (hs'.symm.trans hs'')
    -- the event of the timer is still there
    have hlt : (s.timers t).event < s'.eventCount := hec ▸ (h.timer_lt t ht).2
    have hone := (hevents _ hlt).1
    rw [hsame _ (.inl hc), (h.pending.timer t ht).2] at hone
    cases hone
  · rintro ⟨hno, hmay⟩
    obtain ⟨s', hs', hec, htc, hdead, htsame, hedead, hesame⟩ :=
      @Pending.destroy_timers _ p current _ hpend hno
    refine ⟨s', hs', fun e he => ?_, fun t ht => ?_⟩
    · rw [hec] at he
      have hd : (s'.events e).Dead := by
        rcases h.event e he with hd | hm | ⟨t, ht, rfl⟩
        · rw [hesame e (.inr ?_)]
          · exact hd
          · rintro t ht rfl
            exact (h.pending.timer t ht).2.not_dead hd
        · exact absurd hm (hno e)
        · exact hedead (hmay.resolve_right fun hnone => hnone t ht) t ht
      exact ⟨hd.2, hd.1⟩
    · rw [htc] at ht
      have hd : (s'.timers t).Dead := by
        rcases h.timer t ht with hd | hm
        · rw [htsame t fun hm => (h.pending.timer t hm).1.not_dead hd]
          exact hd
        · exact hdead t hm
      exact ⟨hd.2.1, hd.1, hd.2.2⟩

/-- A process that deletes its event and leaves its timer. -/
def timerLeft : List Op := [.eventCreate, .timerCreate 5, .eventDelete 0]

/-- Its end in the scheduler releases everything. -/
theorem released_timer_left : ∃ s, run (step 1) .init timerLeft = some s ∧ Released s none := by
  have hrun : ∃ s, run (step 1) .init timerLeft = some s ∧ s.handleList = [.timer 0] :=
    ⟨_, rfl, by decide⟩
  obtain ⟨s, hs, hlist⟩ := hrun
  refine ⟨s, hs, (released_iff 1 none timerLeft s hs).mpr ⟨fun e he => ?_, .inl rfl⟩⟩
  rw [hlist] at he
  simp at he

/-- An event that the process does not delete is a panic at its end. -/
theorem undeleted_event_panics : ¬∀ (ops : List Op) (s : State), run (step 1) .init ops = some s →
    Released s none := by
  intro h
  obtain ⟨s', hs', -⟩ := h [.eventCreate] _ rfl
  have hnone : handleListDestroy (syscallEventCreate .init 1) none = none := by decide
  rw [hnone] at hs'
  cases hs'

end KernelModel.Teardown
