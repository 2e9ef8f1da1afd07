import KernelModel.RwLock

/-!
Mutual exclusion of the reader-writer lock, in the runs that keep joining and leaving
readers apart, and the schedule that breaks it otherwise.

The word is in one of four phases: free, owned by one CPU, held by readers, or drained by
the last reader that has yet to store zero. Each phase fixes the word and says which CPUs
may be between which two accesses.
-/

namespace KernelModel.RwLock

open Runs

variable {ι : Type} [Fintype ι]

/-! ### The word -/

lemma reading_or (n : ℕ) : (3 + 4 * n) ||| 1 = 3 + 4 * n := by
  apply Nat.eq_of_testBit_eq
  intro k
  rcases k with _ | k
  · simp [Nat.testBit_zero]
    omega
  · rw [Nat.testBit_or, show (1 : ℕ).testBit (k + 1) = false by simp [Nat.testBit_succ]]
    simp

lemma reading_lock (n : ℕ) : (3 + 4 * n) &&& 1 ≠ 0 := by
  rw [Nat.and_one_is_mod]
  omega

lemma reading_read (n : ℕ) : (3 + 4 * n) &&& 2 ≠ 0 := by
  intro h
  have h1 : ((3 + 4 * n) &&& 2).testBit 1 = true := by
    rw [Nat.testBit_and]
    simp [Nat.testBit_succ, Nat.testBit_zero]
    omega
  rw [h] at h1
  simp at h1

/-! ### The phases -/

/-- A CPU that has the word to itself: the writer, or one about to store after it found
the word unlocked. -/
def Owner (x : Cpu) : Prop :=
  x.writing = true ∧ x.pc ≠ .writeStore ∧ x.pc ≠ .readStore ∨
    x.writing = false ∧ (x.pc = .writeStore ∨ x.pc = .readStore)

/-- A CPU that takes no part in the present phase, save by its read acquisitions. -/
def Bystander (x : Cpu) : Prop :=
  x.writing = false ∧ x.pc ≠ .writeStore ∧ x.pc ≠ .readStore ∧ x.pc ≠ .readClear

inductive Phase (s : State ι) : Prop
  | free (value : s.value = 0)
      (all : ∀ i, Bystander (s.cpu i) ∧ (s.cpu i).reads = 0 ∧ (s.cpu i).pc ≠ .readAdd)
  | owned (c : ι) (value : s.value = 1) (own : Owner (s.cpu c))
      (pc : (s.cpu c).pc ≠ .readClear)
      (all : ∀ i, (s.cpu i).reads = 0 ∧ (s.cpu i).pc ≠ .readAdd)
      (rest : ∀ i, i ≠ c → Bystander (s.cpu i))
  | reading (value : s.value = 3 + 4 * readers s) (pos : 0 < readers s)
      (room : readers s < 2 ^ 30) (all : ∀ i, Bystander (s.cpu i))
  | draining (c : ι) (value : s.value = 3) (pc : (s.cpu c).pc = .readClear)
      (quiet : (s.cpu c).writing = false)
      (all : ∀ i, (s.cpu i).reads = 0 ∧ (s.cpu i).pc ≠ .readAdd)
      (rest : ∀ i, i ≠ c → Bystander (s.cpu i))

/-- The phase, and that a CPU inside a release holds what it releases. -/
structure Inv (s : State ι) : Prop where
  phase : Phase s
  readHeld : ∀ i, (s.cpu i).pc = .readRelease → 0 < (s.cpu i).reads
  writeHeld : ∀ i, (s.cpu i).pc = .writeRelease → (s.cpu i).writing = true

lemma inv_init : Inv (rwlockInit ι) where
  phase := .free rfl fun i => by simp [rwlockInit, released, Bystander]
  readHeld := by simp [rwlockInit, released]
  writeHeld := by simp [rwlockInit, released]

lemma reads_le_readers (s : State ι) (c : ι) : (s.cpu c).reads ≤ readers s :=
  Finset.single_le_sum (f := fun i => (s.cpu i).reads) (fun _ _ => Nat.zero_le _)
    (Finset.mem_univ c)

/-- The phases in which a fetch-or finds the spin bit set leave the word as it is. -/
lemma phase_word {s : State ι} (h : Phase s) :
    s.value = 0 ∨ s.value &&& 1 ≠ 0 ∧ s.value ||| 1 = s.value := by
  cases h with
  | free hv => exact .inl hv
  | owned d hv => right; rw [hv]; decide
  | reading hv => right; rw [hv]; exact ⟨reading_lock _, reading_or _⟩
  | draining d hv => right; rw [hv]; decide

lemma phase_reading {s : State ι} {c : ι} (h : Phase s)
    (hp : (s.cpu c).pc = .readAdd ∨ 0 < (s.cpu c).reads) :
    s.value = 3 + 4 * readers s ∧ 0 < readers s ∧ readers s < 2 ^ 30 ∧
      ∀ i, Bystander (s.cpu i) := by
  cases h with
  | free _ hall => have := hall c; grind -linarith
  | owned _ _ _ _ hall _ => have := hall c; grind -linarith
  | reading hv hpos hroom hall => exact ⟨hv, hpos, hroom, hall⟩
  | draining _ _ _ _ hall _ => have := hall c; grind -linarith

variable [DecidableEq ι]

lemma readers_update (v : ℕ) (s : State ι) (c : ι) (x : Cpu) :
    readers ⟨v, Function.update s.cpu c x⟩ + (s.cpu c).reads = readers s + x.reads :=
  sum_update Cpu.reads s.cpu c x

/-! ### One move -/

/-- The accesses after which the phase changes, or that only one phase admits. -/
def Pc.Busy (p : Pc) : Prop :=
  p = .writeStore ∨ p = .readStore ∨ p = .readClear ∨ p = .readAdd

/-- A CPU that moves between accesses that do not matter to the phase keeps it. -/
lemma phase_quiet {s : State ι} {c : ι} {x : Cpu} (h : Phase s)
    (hr : x.reads = (s.cpu c).reads) (hw : x.writing = (s.cpu c).writing)
    (hc : ¬ (s.cpu c).pc.Busy) (hx : ¬ x.pc.Busy) :
    Phase ⟨s.value, Function.update s.cpu c x⟩ := by
  have hsum := readers_update s.value s c x
  simp only [Pc.Busy, not_or] at hc hx
  cases h with
  | free hv hall =>
    refine .free hv fun i => ?_
    by_cases hi : i = c
    · subst hi
      have := hall i
      simp_all [Bystander]
    · simpa [hi] using hall i
  | owned d hv hown hpc hall hrest =>
    refine .owned d hv ?_ ?_ (fun i => ?_) fun i hi => ?_
    · by_cases hd : d = c
      · subst hd; simp_all [Owner]
      · simpa [hd] using hown
    · by_cases hd : d = c
      · subst hd; simp_all
      · simpa [hd] using hpc
    · by_cases hi : i = c
      · subst hi; have := hall i; simp_all
      · simpa [hi] using hall i
    · by_cases hic : i = c
      · subst hic; have := hrest i hi; simp_all [Bystander]
      · simpa [hic] using hrest i hi
  | reading hv hpos hroom hall =>
    have he : readers ⟨s.value, Function.update s.cpu c x⟩ = readers s := by omega
    refine .reading (by rw [he]; exact hv) (by omega) (by omega) fun i => ?_
    by_cases hi : i = c
    · subst hi; have := hall i; simp_all [Bystander]
    · simpa [hi] using hall i
  | draining d hv hpc hq hall hrest =>
    have hd : d ≠ c := by rintro rfl; exact hc.2.2.1 hpc
    refine .draining d hv (by simpa [hd] using hpc) (by simpa [hd] using hq) (fun i => ?_)
      fun i hi => ?_
    · by_cases hic : i = c
      · subst hic; have := hall i; simp_all
      · simpa [hic] using hall i
    · by_cases hic : i = c
      · subst hic; have := hrest i hi; simp_all [Bystander]
      · simpa [hic] using hrest i hi

lemma phase_take {s : State ι} {c : ι} {p : Pc} (h : Phase s) (hv : s.value = 0)
    (hp : p = .writeStore ∨ p = .readStore) :
    Phase ⟨1, Function.update s.cpu c ⟨p, (s.cpu c).reads, (s.cpu c).writing⟩⟩ := by
  cases h with
  | free _ hall =>
    refine .owned c rfl ?_ ?_ (fun i => ?_) fun i hi => by simpa [hi] using (hall i).1
    · have := (hall c).1.1
      simp [Owner, this, hp]
    · rcases hp with rfl | rfl <;> simp
    · by_cases hi : i = c
      · subst hi
        have := hall i
        rcases hp with rfl | rfl <;> simp_all
      · simpa [hi] using (hall i).2
  | owned d hv' => omega
  | reading hv' => omega
  | draining d hv' => omega

lemma phase_store {s : State ι} {c : ι} (h : Phase s)
    (hp : (s.cpu c).pc = .writeStore ∨ (s.cpu c).pc = .readStore) :
    (s.cpu c).writing = false ∧ (∀ i, (s.cpu i).reads = 0 ∧ (s.cpu i).pc ≠ .readAdd) ∧
      ∀ i, i ≠ c → Bystander (s.cpu i) := by
  cases h with
  | free _ hall => have := hall c; simp_all [Bystander]
  | owned d hv hown hpc hall hrest =>
    obtain rfl : c = d := by
      by_contra hne
      have := hrest c hne
      simp_all [Bystander]
    exact ⟨by rcases hown with h | h <;> simp_all, hall, hrest⟩
  | reading _ _ _ hall => have := hall c; simp_all [Bystander]
  | draining d hv hpc hq hall hrest =>
    by_cases hd : c = d
    · subst hd; simp_all
    · have := hrest c hd; simp_all [Bystander]

lemma phase_readStore {s : State ι} {c : ι} (h : Phase s) (hp : (s.cpu c).pc = .readStore) :
    Phase ⟨7, Function.update s.cpu c
      ⟨.idle, (s.cpu c).reads + 1, (s.cpu c).writing⟩⟩ := by
  obtain ⟨hw, hall, hrest⟩ := phase_store h (.inr hp)
  have hsum := readers_update 7 s c ⟨.idle, (s.cpu c).reads + 1, (s.cpu c).writing⟩
  have h0 : readers s = 0 := Finset.sum_eq_zero fun i _ => (hall i).1
  have h1 : readers ⟨7, Function.update s.cpu c
      ⟨.idle, (s.cpu c).reads + 1, (s.cpu c).writing⟩⟩ = 1 := by
    have := (hall c).1
    simp only at hsum
    omega
  refine .reading (by rw [h1]) (by omega) (by omega) fun i => ?_
  by_cases hi : i = c
  · subst hi; simp [Bystander, hw]
  · simpa [hi] using hrest i hi

lemma phase_readAdd {s : State ι} {c : ι} (h : Phase s) (hp : (s.cpu c).pc = .readAdd)
    (hroom : readers s + 1 < 2 ^ 30) :
    Phase ⟨(s.value + 4) % 2 ^ 32, Function.update s.cpu c
      ⟨.idle, (s.cpu c).reads + 1, (s.cpu c).writing⟩⟩ := by
  obtain ⟨hv, hpos, -, hall⟩ := phase_reading h (.inl hp)
  have hsum := readers_update ((s.value + 4) % 2 ^ 32) s c
    ⟨.idle, (s.cpu c).reads + 1, (s.cpu c).writing⟩
  simp only at hsum
  refine .reading (by simp only; omega) (by omega) (by omega) fun i => ?_
  by_cases hi : i = c
  · subst hi; simp [Bystander, (hall i).1]
  · simpa [hi] using hall i

/-- A reader leaves: the last one goes on to clear the word, the others are done. -/
lemma phase_readRelease {s : State ι} {c : ι} (h : Phase s) (hpos : 0 < (s.cpu c).reads)
    (hok : readers s = 1 → ∀ j, (s.cpu j).pc ≠ .readAdd) :
    Phase ⟨(s.value + 2 ^ 32 - 4) % 2 ^ 32, Function.update s.cpu c
      ⟨if (s.value + 2 ^ 32 - 4) % 2 ^ 32 = 3 then .readClear else .idle,
        (s.cpu c).reads - 1, (s.cpu c).writing⟩⟩ := by
  obtain ⟨hv, -, hroom, hall⟩ := phase_reading h (.inr hpos)
  have hle := reads_le_readers s c
  have hsum := fun p => readers_update ((s.value + 2 ^ 32 - 4) % 2 ^ 32) s c
    ⟨p, (s.cpu c).reads - 1, (s.cpu c).writing⟩
  simp only at hsum
  by_cases h1 : readers s = 1
  · have h3 : (s.value + 2 ^ 32 - 4) % 2 ^ 32 = 3 := by omega
    rw [if_pos h3, h3]
    refine .draining c rfl (by simp) (by simp [(hall c).1]) (fun i => ?_) fun i hi => ?_
    · have hj := hok h1 i
      by_cases hi : i = c
      · subst hi; simp; omega
      · have h0 := reads_le_readers ⟨3, Function.update s.cpu c
          ⟨.idle, (s.cpu c).reads - 1, (s.cpu c).writing⟩⟩ i
        have h2 := hsum .idle
        rw [h3] at h2
        simp only [Function.update_of_ne hi] at h0 ⊢
        exact ⟨by omega, hj⟩
    · simpa [hi] using hall i
  · have h3 : (s.value + 2 ^ 32 - 4) % 2 ^ 32 ≠ 3 := by omega
    rw [if_neg h3]
    have h2 := hsum .idle
    refine .reading (by simp only; omega) (by omega) (by omega) fun i => ?_
    by_cases hi : i = c
    · subst hi; simp [Bystander, (hall i).1]
    · simpa [hi] using hall i

lemma phase_clear {s : State ι} {c : ι} (h : Phase s)
    (hc : (s.cpu c).writing = true ∨ (s.cpu c).pc = .readClear) :
    Phase ⟨0, Function.update s.cpu c ⟨.idle, (s.cpu c).reads, false⟩⟩ := by
  have key : (∀ i, (s.cpu i).reads = 0 ∧ (s.cpu i).pc ≠ .readAdd) ∧
      ∀ i, i ≠ c → Bystander (s.cpu i) := by
    cases h with
    | free _ hall => have := hall c; simp_all [Bystander]
    | owned d _ hown hpc hall hrest =>
      by_cases hd : c = d
      · subst hd; exact ⟨hall, hrest⟩
      · have := hrest c hd; simp_all [Bystander]
    | reading _ _ _ hall => have := hall c; simp_all [Bystander]
    | draining d _ hpc hq hall hrest =>
      by_cases hd : c = d
      · subst hd; exact ⟨hall, hrest⟩
      · have := hrest c hd; simp_all [Bystander]
  refine .free rfl fun i => ?_
  by_cases hi : i = c
  · subst hi; simp [Bystander, (key.1 i).1]
  · simpa [hi] using ⟨key.2 i hi, key.1 i⟩

/-- The part of the invariant about releases follows once it holds of the moved CPU. -/
lemma inv_mk {s : State ι} {c : ι} {v : ℕ} {x : Cpu} (h : Inv s)
    (hph : Phase ⟨v, Function.update s.cpu c x⟩) (hr : x.pc = .readRelease → 0 < x.reads)
    (hw : x.pc = .writeRelease → x.writing = true) :
    Inv ⟨v, Function.update s.cpu c x⟩ := by
  refine ⟨hph, fun i hi => ?_, fun i hi => ?_⟩
  · by_cases hic : i = c
    · subst hic; simp_all
    · simp only [Function.update_of_ne hic] at hi ⊢
      exact h.readHeld i hi
  · by_cases hic : i = c
    · subst hic; simp_all
    · simp only [Function.update_of_ne hic] at hi ⊢
      exact h.writeHeld i hi

lemma inv_call {s : State ι} {c : ι} {f : Call} {x : Cpu} (h : Inv s)
    (hx : call (s.cpu c) f = some x) : Inv ⟨s.value, Function.update s.cpu c x⟩ := by
  have hq : (s.cpu c).pc = .idle ∧ x.reads = (s.cpu c).reads ∧
      x.writing = (s.cpu c).writing ∧ ¬ x.pc.Busy ∧ (x.pc = .readRelease → 0 < x.reads) ∧
      (x.pc = .writeRelease → x.writing = true) := by
    cases f <;> simp only [call, Option.ite_none_right_eq_some] at hx <;>
      obtain ⟨hc, hx⟩ := hx <;> cases hx <;> simp_all [Pc.Busy]
  obtain ⟨hpc, hr, hw, hb, hrel, hwrel⟩ := hq
  exact inv_mk h (phase_quiet h.phase hr hw (by simp [hpc, Pc.Busy]) hb) hrel hwrel

/-- A fetch-or on the way to write: it takes a free word, and spins or gives up otherwise. -/
lemma inv_writeOr {s : State ι} {c : ι} {p : Pc} (h : Inv s) (hc : ¬ (s.cpu c).pc.Busy)
    (hp : p = .idle ∨ p = .writeSpin) :
    Inv ⟨s.value ||| 1, Function.update s.cpu c
      ⟨if s.value &&& 1 ≠ 0 then p else .writeStore, (s.cpu c).reads, (s.cpu c).writing⟩⟩ := by
  rcases phase_word h.phase with hv | ⟨hl, hv⟩
  · rw [hv]
    exact inv_mk h (phase_take h.phase hv (.inl rfl)) (by simp) (by simp)
  · rw [if_pos hl, hv]
    refine inv_mk h (phase_quiet h.phase rfl rfl hc ?_) ?_ ?_ <;>
      rcases hp with rfl | rfl <;> simp [Pc.Busy]

/-- A fetch-or on the way to read: it joins the readers, takes a free word, or spins. -/
lemma inv_readOr {s : State ι} {c : ι} (h : Inv s) (hpc : (s.cpu c).pc = .readSpin)
    (hok : ∀ j, (s.cpu j).pc ≠ .readClear) :
    Inv ⟨s.value ||| 1, Function.update s.cpu c
      ⟨if s.value &&& 2 ≠ 0 then .readAdd else if s.value &&& 1 = 0 then .readStore
        else .readSpin, (s.cpu c).reads, (s.cpu c).writing⟩⟩ := by
  have hph := h.phase
  cases hph with
  | free hv hall =>
    rw [hv]
    exact inv_mk h (phase_take h.phase hv (.inr rfl)) (by simp) (by simp)
  | owned d hv hown hdpc hall hrest =>
    have hq := phase_quiet (x := ⟨.readSpin, (s.cpu c).reads, (s.cpu c).writing⟩) h.phase rfl rfl
      (by simp [hpc, Pc.Busy]) (by simp [Pc.Busy])
    rw [hv] at hq ⊢
    exact inv_mk h hq (by simp) (by simp)
  | reading hv hpos hroom hall =>
    have hsum := readers_update s.value s c ⟨.readAdd, (s.cpu c).reads, (s.cpu c).writing⟩
    simp only at hsum
    rw [if_pos (by rw [hv]; exact reading_read _),
      show s.value ||| 1 = s.value by rw [hv]; exact reading_or _]
    refine inv_mk h (.reading (by simp only; omega) (by omega) (by omega) fun i => ?_)
      (by simp) (by simp)
    by_cases hi : i = c
    · subst hi; simp [Bystander, (hall i).1]
    · simpa [hi] using hall i
  | draining d _ hd => exact absurd hd (hok d)

/-- **One move** of a CPU keeps the invariant when it keeps readers apart. -/
lemma inv_step {s t : State ι} {l : ι × Action} (h : Inv s) (hok : Apart s l)
    (ht : step s l = some t) : Inv t := by
  obtain ⟨c, a⟩ := l
  cases a with
  | call f =>
    simp only [step, Option.map_eq_some_iff] at ht
    obtain ⟨x, hx, rfl⟩ := ht
    exact inv_call h hx
  | access =>
    simp only [step, Option.map_eq_some_iff] at ht
    obtain ⟨r, hr, rfl⟩ := ht
    simp only [Apart, forall_const] at hok
    unfold Clear at hok
    unfold access at hr
    rcases hpc : (s.cpu c).pc with _ | _ | _ | _ | _ | _ | _ | _ | _ | _ <;>
      simp only [hpc] at hr hok
    · cases hr
    · cases hr
      exact inv_writeOr h (by simp [hpc, Pc.Busy]) (.inl rfl)
    · cases hr
      exact inv_writeOr h (by simp [hpc, Pc.Busy]) (.inr rfl)
    · cases hr
      obtain ⟨hw, hall, hrest⟩ := phase_store h.phase (.inl hpc)
      refine inv_mk h (.owned c rfl (by simp [Owner]) (by simp) (fun i => ?_) fun i hi => ?_)
        (by simp) (by simp)
      · by_cases hi : i = c
        · subst hi; simp [(hall i).1]
        · simpa [hi] using hall i
      · simpa [hi] using hrest i hi
    · cases hr
      exact inv_mk h (phase_clear h.phase (.inl (h.writeHeld c hpc))) (by simp) (by simp)
    · cases hr
      exact inv_readOr h hpc hok
    · cases hr
      exact inv_mk h (phase_readAdd h.phase hpc hok) (by simp) (by simp)
    · cases hr
      exact inv_mk h (phase_readStore h.phase hpc) (by simp) (by simp)
    · rw [show counterUnit = 4 from rfl, show lockMask ||| readMask = 3 from rfl] at hr
      obtain rfl := Option.some.inj hr
      exact inv_mk h (phase_readRelease h.phase (h.readHeld c hpc) hok) (by split <;> simp)
        (by split <;> simp)
    · cases hr
      have hw : (s.cpu c).writing = false := by
        cases h.phase with
        | free _ hall => exact (hall c).1.1
        | owned d _ _ hdpc _ hrest =>
          by_cases hd : c = d
          · subst hd; exact absurd hpc hdpc
          · exact (hrest c hd).1
        | reading _ _ _ hall => exact (hall c).1
        | draining d _ _ hq _ hrest =>
          by_cases hd : c = d
          · subst hd; exact hq
          · exact (hrest c hd).1
      have := phase_clear h.phase (.inr hpc)
      rw [← hw] at this
      exact inv_mk h this (by simp) (by simp)

omit [DecidableEq ι] in
/-- What the phases say about critical sections and about a lock that nobody uses. -/
lemma inv_safe {s : State ι} (h : Inv s) : Exclusive s ∧ Restored s := by
  constructor
  · intro i hi j
    cases h.phase with
    | free _ hall => have := hall i; simp_all [Bystander]
    | owned d _ _ _ hall hrest =>
      have hid : i = d := by
        by_contra hne
        have := hrest i hne
        simp_all [Bystander]
      refine ⟨(hall j).1, fun hj => ?_⟩
      by_contra hne
      have := hrest j (hid ▸ hne)
      simp_all [Bystander]
    | reading _ _ _ hall => have := hall i; simp_all [Bystander]
    | draining d _ _ hq _ hrest =>
      by_cases hd : i = d
      · subst hd; simp_all
      · have := hrest i hd; simp_all [Bystander]
  · intro hall
    cases h.phase with
    | free hv => exact hv
    | owned d _ hown => rw [hall d] at hown; simp [Owner, released] at hown
    | reading _ hpos => simp [readers, hall, released] at hpos
    | draining d _ hpc => rw [hall d] at hpc; simp [released] at hpc

/-- **Mutual exclusion.** In every interleaving that keeps joining and leaving readers
apart, a writer inside its critical section is alone, and the word is back to its initial
value when every CPU has released. -/
theorem exclusive_of_apart (moves : List (ι × Action)) (s : State ι)
    (hok : Along step Apart (rwlockInit ι) moves) (hrun : run step (rwlockInit ι) moves = some s) :
    Exclusive s ∧ Restored s :=
  inv_safe (run_inv (fun _ _ _ h hok ht => inv_step h hok ht) moves _ _ inv_init hok hrun)

/-- Two CPUs, one reading. The second finds the read bit set; the first leaves, clears the
word and starts to write; the count of the second comes too late, and both are inside. -/
def lateJoin : List (Fin 2 × Action) :=
  [(0, .call .acquireRead), (0, .access), (0, .access),
   (1, .call .acquireRead), (1, .access),
   (0, .call .releaseRead), (0, .access), (0, .access),
   (1, .access),
   (0, .call .acquireWrite), (0, .access), (0, .access)]

/-- A run of the lock's functions with a writer and a reader inside together. -/
theorem lateJoin_not_exclusive :
    ¬ ∀ (moves : List (Fin 2 × Action)) (s : State (Fin 2)),
      run step (rwlockInit (Fin 2)) moves = some s → Exclusive s ∧ Restored s := by
  intro h
  obtain ⟨s, hs, hw, hr⟩ : ∃ s, run step (rwlockInit (Fin 2)) lateJoin = some s ∧
      (s.cpu 0).writing = true ∧ (s.cpu 1).reads = 1 := ⟨_, rfl, rfl, rfl⟩
  have h0 := ((h lateJoin s hs).1 0 hw 1).1
  omega

/-- A reader and, after it, a writer: a run that meets the condition. -/
def inTurn : List (Fin 2 × Action) :=
  [(0, .call .acquireRead), (0, .access), (0, .access),
   (0, .call .releaseRead), (0, .access), (0, .access),
   (1, .call .acquireWrite), (1, .access), (1, .access)]

theorem inTurn_exclusive :
    ∃ s, run step (rwlockInit (Fin 2)) inTurn = some s ∧ (s.cpu 1).writing = true ∧
      Exclusive s ∧ Restored s :=
  ⟨_, rfl, rfl, exclusive_of_apart inTurn _ (by decide) rfl⟩

end KernelModel.RwLock
