import KernelModel.RingFifo

/-!
The two events of a ring, that its readers and writers wait for.

A push that takes the last place brings the write event down; then it raises the read event. A
pop does the same with the events exchanged. Each of these is an access of its own, after the
counters have been changed and before the lock is given back, so the accesses of the other call
can come between the test of a counter and the change of its event.
-/

namespace KernelModel.RingEvents

open Runs Rings

/-- Where a call is after its last change of the counters. -/
inductive Tail
  /-- not there yet, or the lock is free -/
  | none
  /-- before the test of the count that it took from -/
  | check
  /-- before `event_set_active` -/
  | deactivate
  /-- before `event_dispatch` -/
  | dispatch
  deriving DecidableEq, Repr

/-- `ring_t` with `is_active` of its events. -/
structure EventRing extends Ring where
  readEvent : Bool
  writeEvent : Bool
  pushTail : Tail
  popTail : Tail

/-- `ring_init` -/
def ringInit (buffer : ℕ → ℕ) (capacity : ℕ) : Option EventRing :=
  (Rings.ringInit buffer capacity).map fun r =>
    { toRing := r
      readEvent := false
      writeEvent := true
      pushTail := .none
      popTail := .none }

/-- The next access of `ring_push`. -/
def pushStep (r : EventRing) : Option EventRing :=
  match r.pushTail with
  | .none => (Rings.pushStep r.toRing).map fun t =>
    { r with toRing := t
             pushTail := if r.pushPc = .incWriteIndex then .check else .none }
  | .check => some { r with pushTail := if r.writeCount = 0 then .deactivate else .dispatch }
  | .deactivate => some { r with writeEvent := false, pushTail := .dispatch }
  | .dispatch => some { r with readEvent := true, pushTail := .none }

/-- The next access of `_get_item`; a peek does nothing with the events. -/
def getStep (r : EventRing) : Option EventRing :=
  match r.popTail with
  | .none => (Rings.getStep r.toRing).map fun t =>
    { r with toRing := t
             popTail := if r.getPc = .incWriteCount then .check else .none }
  | .check => some { r with popTail := if r.readCount = 0 then .deactivate else .dispatch }
  | .deactivate => some { r with readEvent := false, popTail := .dispatch }
  | .dispatch => some { r with writeEvent := true, popTail := .none }

def step (r : EventRing) : Move → Option EventRing
  | .push item =>
    if r.pushTail = .none then
      (Rings.step r.toRing (.push item)).map fun t => { r with toRing := t }
    else none
  | .get pop =>
    if r.popTail = .none then
      (Rings.step r.toRing (.get pop)).map fun t => { r with toRing := t }
    else none
  | .pushStep => pushStep r
  | .getStep => getStep r

/-! ### What the calls under way still do -/

section

variable (r : EventRing)

/-- A push has counted its item and not raised the read event yet. -/
def ReadRaised : Prop :=
  r.pushPc = .decWriteCount ∨ r.pushPc = .incWriteIndex ∨ r.pushTail ≠ .none

/-- A pop has counted its item out and can still bring the read event down. -/
def ReadLowered : Prop :=
  r.getPc = .incWriteCount ∨ r.popTail = .check ∨ r.popTail = .deactivate

/-- A pop has counted its place and not raised the write event yet. -/
def WriteRaised : Prop := r.popTail ≠ .none

/-- A push has counted its place out and can still bring the write event down. -/
def WriteLowered : Prop :=
  r.pushPc = .incWriteIndex ∨ r.pushTail = .check ∨ r.pushTail = .deactivate

/-- No call holds a lock. -/
def Quiet : Prop := r.pushPc = .idle ∧ r.getPc = .idle ∧ r.pushTail = .none ∧ r.popTail = .none

/-- The events say what the counters do. -/
def Ready : Prop :=
  (r.readEvent = true ↔ 0 < r.readCount) ∧ (r.writeEvent = true ↔ 0 < r.writeCount)

/-- An event goes down while its count is zero or the other call will raise it again, and up while
its count is not zero or the other call will look at it again. -/
def InTime (m : Move) : Prop :=
  match m with
  | .pushStep =>
    (r.pushTail = .deactivate → r.writeCount = 0 ∨ WriteRaised r) ∧
      (r.pushTail = .dispatch → 0 < r.readCount ∨ ReadLowered r)
  | .getStep =>
    (r.popTail = .deactivate → r.readCount = 0 ∨ ReadRaised r) ∧
      (r.popTail = .dispatch → 0 < r.writeCount ∨ WriteLowered r)
  | _ => True

instance : Decidable (ReadRaised r) := inferInstanceAs (Decidable (_ ∨ _ ∨ _))
instance : Decidable (ReadLowered r) := inferInstanceAs (Decidable (_ ∨ _ ∨ _))
instance : Decidable (WriteRaised r) := inferInstanceAs (Decidable (_ ≠ _))
instance : Decidable (WriteLowered r) := inferInstanceAs (Decidable (_ ∨ _ ∨ _))

instance (m : Move) : Decidable (InTime r m) := by
  cases m <;> unfold InTime <;> infer_instance

end

/-! ### An event and its count -/

/-- The event is right, up to changes that are still to come. -/
structure Agree (count : ℕ) (active : Bool) (raised lowered : Prop) : Prop where
  up : active = true → 0 < count ∨ lowered
  down : 0 < count → active = true ∨ raised

namespace Agree

variable {count : ℕ} {active : Bool} {raised lowered raised' lowered' : Prop}

lemma mono (h : Agree count active raised lowered) (hr : raised → raised')
    (hl : lowered → lowered') : Agree count active raised' lowered' :=
  ⟨fun ha => (h.up ha).imp_right hl, fun hc => (h.down hc).imp_right hr⟩

lemma inc (hr : raised) : Agree (count + 1) active raised lowered :=
  ⟨fun _ => .inl (Nat.succ_pos _), fun _ => .inr hr⟩

lemma dec (h : Agree count active raised lowered) (hr : raised → raised') (hl : lowered') :
    Agree (count - 1) active raised' lowered' :=
  ⟨fun _ => .inr hl, fun hc => (h.down (by omega)).imp_right hr⟩

lemma check (h : Agree count active raised lowered) (hc : 0 < count) (hr : raised → raised') :
    Agree count active raised' lowered' :=
  ⟨fun _ => .inl hc, fun hc => (h.down hc).imp_right hr⟩

lemma raise : Agree count true raised lowered ↔ 0 < count ∨ lowered :=
  ⟨fun h => h.up rfl, fun h => ⟨fun _ => h, fun _ => .inl rfl⟩⟩

lemma lower : Agree count false raised lowered ↔ count = 0 ∨ raised := by
  constructor
  · intro h
    rcases Nat.eq_zero_or_pos count with h0 | hc
    · exact .inl h0
    · exact .inr ((h.down hc).resolve_left Bool.false_ne_true)
  · rintro h
    refine ⟨fun ha => absurd ha Bool.false_ne_true, fun hc => .inr (h.resolve_left ?_)⟩
    exact Nat.ne_of_gt hc

end Agree

/-- Both events are right, up to what the calls under way still do. -/
structure Settled (r : EventRing) : Prop where
  read : Agree r.readCount r.readEvent (ReadRaised r) (ReadLowered r)
  write : Agree r.writeCount r.writeEvent (WriteRaised r) (WriteLowered r)

lemma Settled.ready {r : EventRing} (h : Settled r) (hq : Quiet r) : Ready r := by
  obtain ⟨hpush, hget, hptail, hgtail⟩ := hq
  have hrr : ¬ReadRaised r := by simp [ReadRaised, hpush, hptail]
  have hrl : ¬ReadLowered r := by simp [ReadLowered, hget, hgtail]
  have hwr : ¬WriteRaised r := by simp [WriteRaised, hgtail]
  have hwl : ¬WriteLowered r := by simp [WriteLowered, hpush, hptail]
  exact ⟨⟨fun ha => (h.read.up ha).resolve_right hrl,
      fun hc => (h.read.down hc).resolve_right hrr⟩,
    ⟨fun ha => (h.write.up ha).resolve_right hwl,
      fun hc => (h.write.down hc).resolve_right hwr⟩⟩

/-! ### The counters -/

/-- The counters count every place once, and a call that found one not zero still does. -/
structure Counts (r : Ring) : Prop where
  room : r.capacity + 1 < 2 ^ 32
  sum : r.readCount + r.writeCount + r.getPc.owes = r.capacity + r.pushPc.owes
  pushing : ∀ item, r.pushPc = .store item ∨ r.pushPc = .incReadCount item → 0 < r.writeCount
  taking : r.pushPc = .decWriteCount → 0 < r.writeCount
  getting : ∀ pop item,
    r.getPc = .load pop ∨ r.getPc = .incReadIndex item ∨ r.getPc = .decReadCount item →
      0 < r.readCount

/-- The counters are right, and the end of a call comes after the rest of it. -/
structure Inv (r : EventRing) : Prop where
  counts : Counts r.toRing
  pushTail : r.pushTail ≠ .none → r.pushPc = .idle
  popTail : r.popTail ≠ .none → r.getPc = .idle

lemma ringInit_inv {buffer : ℕ → ℕ} {capacity : ℕ} {r : EventRing} (hc : capacity < 2 ^ 32)
    (h : ringInit buffer capacity = some r) : Inv r ∧ Settled r := by
  obtain ⟨r', hr', rfl⟩ := Option.map_eq_some_iff.mp h
  have hroom := (Rings.ringInit_inv hc hr').room
  simp only [Rings.ringInit] at hr'
  split_ifs at hr' with h0 hpow
  obtain rfl := Option.some.inj hr'
  have hpos : 0 < capacity := Nat.pos_of_ne_zero h0
  constructor
  · constructor
    · exact ⟨hroom, by simp [PushPc.owes, GetPc.owes], by simp, by simp, by simp⟩
    · simp
    · simp
  · constructor
    · exact Agree.lower.mpr (.inl rfl)
    · exact Agree.raise.mpr (.inl hpos)

lemma Counts.pushStep {r t : Ring} (h : Counts r) (ht : Rings.pushStep r = some t) : Counts t := by
  have hroom := h.room
  have hsum := h.sum
  rw [Rings.pushStep] at ht
  cases hpc : r.pushPc with
  | idle => simp [hpc] at ht
  | check item =>
    simp only [hpc, Option.some.injEq] at ht
    subst ht
    rw [hpc] at hsum
    by_cases h0 : r.writeCount = 0
    · simp only [h0, if_true]
      exact { h with
        sum := by simpa [h0, PushPc.owes] using hsum
        pushing := by simp
        taking := by simp }
    · simp only [h0, if_false]
      exact { h with
        sum := hsum
        pushing := fun _ _ => Nat.pos_of_ne_zero h0
        taking := by simp }
  | store item =>
    simp only [hpc, Option.some.injEq] at ht
    subst ht
    rw [hpc] at hsum
    exact { h with
      sum := hsum
      pushing := fun _ _ => h.pushing item (.inl hpc)
      taking := by simp }
  | incReadCount item =>
    simp only [hpc, Option.some.injEq] at ht
    subst ht
    have hpos := h.pushing item (.inr hpc)
    rw [hpc] at hsum
    simp only [PushPc.owes] at hsum
    have hinc : inc r.readCount = r.readCount + 1 := inc_eq (by omega)
    refine ⟨hroom, ?_, by simp, fun _ => hpos, fun _ _ _ => ?_⟩
    · simp only [hinc, PushPc.owes]
      omega
    · simp only [hinc]
      omega
  | decWriteCount =>
    simp only [hpc, Option.some.injEq] at ht
    subst ht
    have hpos := h.taking hpc
    rw [hpc] at hsum
    simp only [PushPc.owes] at hsum
    have hdec : dec r.writeCount = r.writeCount - 1 := dec_eq hpos (by omega)
    refine ⟨hroom, ?_, by simp, by simp, h.getting⟩
    simp only [hdec, PushPc.owes]
    omega
  | incWriteIndex =>
    simp only [hpc, Option.some.injEq] at ht
    subst ht
    rw [hpc] at hsum
    exact { h with
      sum := hsum
      pushing := by simp
      taking := by simp }

lemma Counts.getStep {r t : Ring} (h : Counts r) (ht : Rings.getStep r = some t) : Counts t := by
  have hroom := h.room
  have hsum := h.sum
  have howes : r.pushPc.owes ≤ 1 := by
    cases r.pushPc <;> simp [PushPc.owes]
  rw [Rings.getStep] at ht
  cases hpc : r.getPc with
  | idle => simp [hpc] at ht
  | check pop =>
    simp only [hpc, Option.some.injEq] at ht
    subst ht
    rw [hpc] at hsum
    by_cases h0 : r.readCount = 0
    · simp only [h0, if_true]
      exact { h with
        sum := by simpa [h0, GetPc.owes] using hsum
        getting := by simp }
    · simp only [h0, if_false]
      exact { h with
        sum := hsum
        getting := fun _ _ _ => Nat.pos_of_ne_zero h0 }
  | load pop =>
    have hpos := h.getting pop 0 (.inl hpc)
    rw [hpc] at hsum
    cases pop with
    | false =>
      simp only [hpc, Option.some.injEq] at ht
      subst ht
      exact { h with
        sum := hsum
        getting := by simp }
    | true =>
      simp only [hpc, Option.some.injEq] at ht
      subst ht
      exact { h with
        sum := hsum
        getting := fun _ _ _ => hpos }
  | incReadIndex item =>
    simp only [hpc, Option.some.injEq] at ht
    subst ht
    rw [hpc] at hsum
    exact { h with
      sum := hsum
      getting := fun _ _ _ => h.getting true item (.inr (.inl hpc)) }
  | decReadCount item =>
    simp only [hpc, Option.some.injEq] at ht
    subst ht
    have hpos := h.getting true item (.inr (.inr hpc))
    rw [hpc] at hsum
    simp only [GetPc.owes] at hsum
    have hdec : dec r.readCount = r.readCount - 1 := dec_eq hpos (by omega)
    refine ⟨hroom, ?_, h.pushing, h.taking, by simp⟩
    simp only [hdec, GetPc.owes]
    omega
  | incWriteCount =>
    simp only [hpc, Option.some.injEq] at ht
    subst ht
    rw [hpc] at hsum
    simp only [GetPc.owes] at hsum
    have hinc : inc r.writeCount = r.writeCount + 1 := inc_eq (by omega)
    refine ⟨hroom, ?_, fun _ _ => ?_, fun _ => ?_, by simp⟩
    · simp only [hinc, GetPc.owes]
      omega
    · simp only [hinc]
      omega
    · simp only [hinc]
      omega

/-! ### One access -/

variable {r t : EventRing}

lemma Inv.step (h : Inv r) (m : Move) (ht : step r m = some t) : Inv t := by
  obtain ⟨hcounts, hpush, hpop⟩ := h
  cases m with
  | push item =>
    simp only [RingEvents.step, Rings.step] at ht
    split_ifs at ht with htail hpc
    · obtain rfl := Option.some.inj ht
      have hsum := hcounts.sum
      rw [hpc] at hsum
      refine ⟨⟨hcounts.room, hsum, by simp, by simp, hcounts.getting⟩, ?_, hpop⟩
      exact fun hne => absurd htail hne
    · cases ht
  | get pop =>
    simp only [RingEvents.step, Rings.step] at ht
    split_ifs at ht with htail hpc
    · obtain rfl := Option.some.inj ht
      have hsum := hcounts.sum
      rw [hpc] at hsum
      refine ⟨⟨hcounts.room, hsum, hcounts.pushing, hcounts.taking, by simp⟩, hpush, ?_⟩
      exact fun hne => absurd htail hne
    · cases ht
  | pushStep =>
    simp only [RingEvents.step, RingEvents.pushStep] at ht
    cases htail : r.pushTail with
    | none =>
      simp only [htail, Option.map_eq_some_iff] at ht
      obtain ⟨t', ht', rfl⟩ := ht
      have hget : t'.getPc = r.getPc := by
        unfold Rings.pushStep at ht'
        split at ht' <;> simp only [Option.some.injEq, reduceCtorEq] at ht' <;> subst ht' <;> rfl
      refine ⟨hcounts.pushStep ht', ?_, fun hne => hget.trans (hpop hne)⟩
      simp only [ne_eq, ite_eq_right_iff, reduceCtorEq, imp_false, not_not]
      intro hpc
      simp only [Rings.pushStep, hpc, Option.some.injEq] at ht'
      rw [← ht']
    | _ =>
      simp only [htail, Option.some.injEq] at ht
      subst ht
      exact ⟨hcounts, fun _ => hpush (by rw [htail]; decide), hpop⟩
  | getStep =>
    simp only [RingEvents.step, RingEvents.getStep] at ht
    cases htail : r.popTail with
    | none =>
      simp only [htail, Option.map_eq_some_iff] at ht
      obtain ⟨t', ht', rfl⟩ := ht
      have hpc' : t'.pushPc = r.pushPc := by
        unfold Rings.getStep at ht'
        split at ht' <;> simp only [Option.some.injEq, reduceCtorEq] at ht' <;> subst ht' <;> rfl
      refine ⟨hcounts.getStep ht', fun hne => hpc'.trans (hpush hne), ?_⟩
      simp only [ne_eq, ite_eq_right_iff, reduceCtorEq, imp_false, not_not]
      intro hpc
      simp only [Rings.getStep, hpc, Option.some.injEq] at ht'
      rw [← ht']
    | _ =>
      simp only [htail, Option.some.injEq] at ht
      subst ht
      exact ⟨hcounts, hpush, fun _ => hpop (by rw [htail]; decide)⟩

/-- The accesses of a push to the fields of the ring leave the events right. -/
lemma Settled.pushFields (hi : Inv r) (h : Settled r) (htail : r.pushTail = .none)
    {t' : Ring} (ht : Rings.pushStep r.toRing = some t') :
    Settled { r with toRing := t'
                     pushTail := if r.pushPc = .incWriteIndex then .check else .none } := by
  have hsum := hi.counts.sum
  have hroom := hi.counts.room
  have hread := h.read
  have hwrite := h.write
  simp only [ReadRaised, ReadLowered] at hread
  simp only [WriteRaised, WriteLowered] at hwrite
  cases hpc : r.pushPc with
  | idle => simp [Rings.pushStep, hpc] at ht
  | check item =>
    simp only [Rings.pushStep, hpc, Option.some.injEq] at ht
    subst ht
    exact ⟨hread.mono (by simp [hpc, htail]) id, hwrite.mono id (by simp [hpc, htail])⟩
  | store item =>
    simp only [Rings.pushStep, hpc, Option.some.injEq] at ht
    subst ht
    exact ⟨hread.mono (by simp [hpc, htail]) id, hwrite.mono id (by simp [hpc, htail])⟩
  | incReadCount item =>
    have hpos := hi.counts.pushing item (.inr hpc)
    rw [hpc] at hsum
    simp only [PushPc.owes] at hsum
    have hinc : inc r.readCount = r.readCount + 1 := inc_eq (by omega)
    simp only [Rings.pushStep, hpc, hinc, Option.some.injEq] at ht
    subst ht
    exact ⟨Agree.inc (.inl rfl), hwrite.mono id (by simp [hpc, htail])⟩
  | decWriteCount =>
    have hpos := hi.counts.taking hpc
    rw [hpc] at hsum
    simp only [PushPc.owes] at hsum
    have hdec : dec r.writeCount = r.writeCount - 1 := dec_eq hpos (by omega)
    simp only [Rings.pushStep, hpc, hdec, Option.some.injEq] at ht
    subst ht
    exact ⟨hread.mono (fun _ => .inr (.inl rfl)) id, hwrite.dec id (.inl rfl)⟩
  | incWriteIndex =>
    simp only [Rings.pushStep, hpc, Option.some.injEq] at ht
    subst ht
    exact ⟨hread.mono (by simp [ReadRaised]) id, hwrite.mono id (by simp [WriteLowered])⟩

lemma Settled.getFields (hi : Inv r) (h : Settled r) (htail : r.popTail = .none)
    {t' : Ring} (ht : Rings.getStep r.toRing = some t') :
    Settled { r with toRing := t'
                     popTail := if r.getPc = .incWriteCount then .check else .none } := by
  have hsum := hi.counts.sum
  have hroom := hi.counts.room
  have hread := h.read
  have hwrite := h.write
  simp only [ReadRaised, ReadLowered] at hread
  simp only [WriteRaised, WriteLowered] at hwrite
  have howes : r.pushPc.owes ≤ 1 := by
    cases r.pushPc <;> simp [PushPc.owes]
  cases hpc : r.getPc with
  | idle => simp [Rings.getStep, hpc] at ht
  | check pop =>
    simp only [Rings.getStep, hpc, Option.some.injEq] at ht
    subst ht
    exact ⟨hread.mono id (by simp [hpc, htail]), hwrite.mono (by simp [htail]) id⟩
  | load pop =>
    cases pop with
    | false =>
      simp only [Rings.getStep, hpc, Option.some.injEq] at ht
      subst ht
      exact ⟨hread.mono id (by simp [hpc, htail]), hwrite.mono (by simp [htail]) id⟩
    | true =>
      simp only [Rings.getStep, hpc, Option.some.injEq] at ht
      subst ht
      exact ⟨hread.mono id (by simp [hpc, htail]), hwrite.mono (by simp [htail]) id⟩
  | incReadIndex item =>
    simp only [Rings.getStep, hpc, Option.some.injEq] at ht
    subst ht
    exact ⟨hread.mono id (by simp [hpc, htail]), hwrite.mono (by simp [htail]) id⟩
  | decReadCount item =>
    have hpos := hi.counts.getting true item (.inr (.inr hpc))
    rw [hpc] at hsum
    simp only [GetPc.owes] at hsum
    have hdec : dec r.readCount = r.readCount - 1 := dec_eq hpos (by omega)
    simp only [Rings.getStep, hpc, hdec, Option.some.injEq] at ht
    subst ht
    exact ⟨hread.dec id (.inl rfl), hwrite.mono (by simp [htail]) id⟩
  | incWriteCount =>
    rw [hpc] at hsum
    simp only [GetPc.owes] at hsum
    have hinc : inc r.writeCount = r.writeCount + 1 := inc_eq (by omega)
    simp only [Rings.getStep, hpc, hinc, Option.some.injEq] at ht
    subst ht
    exact ⟨hread.mono id (by simp [ReadLowered]), Agree.inc (by simp [WriteRaised])⟩

/-- **One access** leaves the events right just when it comes in time. -/
lemma Settled.step (hi : Inv r) (h : Settled r) (m : Move) (ht : step r m = some t) :
    Settled t ↔ InTime r m := by
  have hread := h.read
  have hwrite := h.write
  simp only [ReadRaised, ReadLowered] at hread
  simp only [WriteRaised, WriteLowered] at hwrite
  cases m with
  | push item =>
    refine iff_of_true ?_ trivial
    simp only [RingEvents.step, Rings.step] at ht
    split_ifs at ht with htail hpc
    · obtain rfl := Option.some.inj ht
      exact ⟨hread.mono (by simp [hpc, htail]) id, hwrite.mono id (by simp [hpc, htail])⟩
    · cases ht
  | get pop =>
    refine iff_of_true ?_ trivial
    simp only [RingEvents.step, Rings.step] at ht
    split_ifs at ht with htail hpc
    · obtain rfl := Option.some.inj ht
      exact ⟨hread.mono id (by simp [hpc, htail]), hwrite.mono id id⟩
    · cases ht
  | pushStep =>
    simp only [RingEvents.step, RingEvents.pushStep] at ht
    cases htail : r.pushTail with
    | none =>
      simp only [htail, Option.map_eq_some_iff] at ht
      obtain ⟨t', ht', rfl⟩ := ht
      exact iff_of_true (h.pushFields hi htail ht') (by simp [InTime, htail])
    | check =>
      simp only [htail, Option.some.injEq] at ht
      subst ht
      refine iff_of_true ?_ (by simp [InTime, htail])
      rcases Nat.eq_zero_or_pos r.writeCount with h0 | hpos
      · exact ⟨hread.mono (by simp [ReadRaised, h0]) id,
          hwrite.mono id (by simp [WriteLowered, h0])⟩
      · exact ⟨hread.mono (by simp [ReadRaised, Nat.ne_of_gt hpos]) id, hwrite.check hpos id⟩
    | deactivate =>
      simp only [htail, Option.some.injEq] at ht
      subst ht
      simp only [InTime, htail, true_imp_iff, reduceCtorEq, false_imp_iff, and_true]
      constructor
      · exact fun ht => Agree.lower.mp ht.write
      · exact fun hok => ⟨hread.mono (by simp [ReadRaised]) id, Agree.lower.mpr hok⟩
    | dispatch =>
      simp only [htail, Option.some.injEq] at ht
      subst ht
      simp only [InTime, htail, true_imp_iff, reduceCtorEq, false_imp_iff, true_and]
      constructor
      · exact fun ht => Agree.raise.mp ht.read
      · exact fun hok => ⟨Agree.raise.mpr hok, hwrite.mono id (by simp [WriteLowered, htail])⟩
  | getStep =>
    simp only [RingEvents.step, RingEvents.getStep] at ht
    cases htail : r.popTail with
    | none =>
      simp only [htail, Option.map_eq_some_iff] at ht
      obtain ⟨t', ht', rfl⟩ := ht
      exact iff_of_true (h.getFields hi htail ht') (by simp [InTime, htail])
    | check =>
      simp only [htail, Option.some.injEq] at ht
      subst ht
      refine iff_of_true ?_ (by simp [InTime, htail])
      rcases Nat.eq_zero_or_pos r.readCount with h0 | hpos
      · exact ⟨hread.mono id (by simp [ReadLowered, h0]),
          hwrite.mono (by simp [WriteRaised, h0]) id⟩
      · exact ⟨hread.check hpos id, hwrite.mono (by simp [WriteRaised, Nat.ne_of_gt hpos]) id⟩
    | deactivate =>
      simp only [htail, Option.some.injEq] at ht
      subst ht
      simp only [InTime, htail, true_imp_iff, reduceCtorEq, false_imp_iff, and_true]
      constructor
      · exact fun ht => Agree.lower.mp ht.read
      · exact fun hok => ⟨Agree.lower.mpr hok, hwrite.mono (by simp [WriteRaised]) id⟩
    | dispatch =>
      simp only [htail, Option.some.injEq] at ht
      subst ht
      simp only [InTime, htail, true_imp_iff, reduceCtorEq, false_imp_iff, true_and]
      constructor
      · exact fun ht => Agree.raise.mp ht.write
      · exact fun hok => ⟨hread.mono id (by simp [ReadLowered, htail]), Agree.raise.mpr hok⟩

lemma inTime_of_refused (r : EventRing) (m : Move) (ht : step r m = none) : InTime r m := by
  cases m with
  | push item => trivial
  | get pop => trivial
  | pushStep =>
    simp only [step, pushStep] at ht
    cases htail : r.pushTail <;> simp [htail, InTime] at ht ⊢
  | getStep =>
    simp only [step, getStep] at ht
    cases htail : r.popTail <;> simp [htail, InTime] at ht ⊢

/-! ### Whole runs -/

/-- The events are right in all states of a run, up to the calls under way, just when every
access of the run comes in time. -/
theorem settled_iff (hi : Inv r) (h : Settled r) (moves : List Move) :
    (∀ before, before <+: moves → ∀ t, run step r before = some t → Settled t) ↔
      Along step InTime r moves :=
  along_iff (fun _ m _ hi ht => hi.step m ht) (fun _ m _ hi h ht => h.step hi m ht)
    inTime_of_refused moves r hi h

/-- **Readiness.** In a run whose accesses all come in time, the events say what the counters do
whenever no call is under way. -/
theorem ready_of_inTime {buffer : ℕ → ℕ} {capacity : ℕ} {moves : List Move}
    (hc : capacity < 2 ^ 32) (hinit : ringInit buffer capacity = some r)
    (hok : Along step InTime r moves) (hrun : run step r moves = some t) (hq : Quiet t) :
    Ready t := by
  obtain ⟨hi, h⟩ := ringInit_inv hc hinit
  exact ((settled_iff hi h moves).mpr hok moves List.prefix_rfl t hrun).ready hq

/-- A ring with two places. -/
def twoRing : EventRing where
  buffer := fun _ => 0
  capacity := 2
  readIndex := 0
  readCount := 0
  writeIndex := 0
  writeCount := 2
  pushPc := .idle
  getPc := .idle
  pushed := []
  popped := []
  peeks := []
  readEvent := false
  writeEvent := true
  pushTail := .none
  popTail := .none

/-- A push that leaves places, from the lock on. -/
def wholePush (item : ℕ) : List Move := .push item :: List.replicate 7 .pushStep

/-- One push after the other, and then a pop that leaves an item. -/
theorem twoRing_ready : ∃ t,
    run step twoRing (wholePush 7 ++ .push 8 :: List.replicate 8 .pushStep ++
      .get true :: List.replicate 7 .getStep) = some t ∧ t.readCount = 1 ∧ Ready t := by
  have hmap : (run step twoRing (wholePush 7 ++ .push 8 :: List.replicate 8 .pushStep ++
      .get true :: List.replicate 7 .getStep)).map
      (fun t => (t.readCount, t.pushPc, t.getPc, t.pushTail, t.popTail)) =
        some (1, .idle, .idle, .none, .none) := by decide +kernel
  obtain ⟨t, ht, heq⟩ := Option.map_eq_some_iff.mp hmap
  simp only [Prod.mk.injEq] at heq
  have hinit : ringInit (fun _ => 0) 2 = some twoRing := rfl
  exact ⟨t, ht, heq.1, ready_of_inTime (by norm_num) hinit (by decide +kernel) ht heq.2⟩

/-- A push between a pop's look at the count and its change of the event: the item is there and
the read event is down. -/
theorem twoRing_not_ready : ringInit (fun _ => 0) 2 = some twoRing ∧
    ¬∀ (moves : List Move) (t : EventRing), run step twoRing moves = some t → Quiet t →
      Ready t := by
  refine ⟨rfl, fun h => ?_⟩
  have hmap : (run step twoRing (wholePush 7 ++ .get true :: List.replicate 6 .getStep ++
      wholePush 8 ++ List.replicate 2 .getStep)).map
      (fun t => (t.readCount, t.readEvent, t.pushPc, t.getPc, t.pushTail, t.popTail)) =
        some (1, false, .idle, .idle, .none, .none) := by decide +kernel
  obtain ⟨t, ht, heq⟩ := Option.map_eq_some_iff.mp hmap
  simp only [Prod.mk.injEq] at heq
  obtain ⟨hcount, hevent, hquiet⟩ := heq
  have hup := (h _ t ht hquiet).1.mpr (by omega)
  rw [hevent] at hup
  cases hup

end KernelModel.RingEvents
