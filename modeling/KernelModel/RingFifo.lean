import KernelModel.Ring

/-!
The ring buffer is a bounded queue as long as it takes no more items than it has places.

The indices count the items and are never brought back into the buffer, so the item after the
last place goes outside.
-/

namespace KernelModel.Rings

open Runs

/-- Items that are counted in and that `write_index` does not count yet. -/
def PushPc.late : PushPc → ℕ
  | .decWriteCount => 1
  | .incWriteIndex => 1
  | _ => 0

/-- Places that are taken and that `write_count` still counts. -/
def PushPc.owes : PushPc → ℕ
  | .decWriteCount => 1
  | _ => 0

/-- Items that `read_index` counts and that are still counted in. -/
def GetPc.ahead : GetPc → ℕ
  | .decReadCount _ => 1
  | _ => 0

/-- Places that are free and that `write_count` does not count yet. -/
def GetPc.owes : GetPc → ℕ
  | .incWriteCount => 1
  | _ => 0

/-- The fields by the history, whatever the two calls have done so far. -/
structure Inv (r : Ring) : Prop where
  room : r.capacity + 1 < 2 ^ 32
  pushed_le : r.pushed.length ≤ r.capacity
  popped_le : r.popped.length ≤ r.pushed.length
  popped_eq : r.popped = r.pushed.take r.popped.length
  readCount : r.readCount = r.pushed.length - r.popped.length
  writeIndex : r.writeIndex + r.pushPc.late = r.pushed.length
  readIndex : r.readIndex = r.popped.length + r.getPc.ahead
  writeCount : r.writeCount + r.pushed.length + r.getPc.owes
    = r.capacity + r.popped.length + r.pushPc.owes
  cells : ∀ i < r.pushed.length, r.pushed[i]? = some (r.buffer i)
  peeks : ∀ p ∈ r.peeks, r.pushed[p.1]? = some p.2
  storing : ∀ item, r.pushPc = .store item ∨ r.pushPc = .incReadCount item →
    r.pushed.length < r.capacity
  stored : ∀ item, r.pushPc = .incReadCount item → r.buffer r.pushed.length = item
  loading : ∀ pop, r.getPc = .load pop → r.popped.length < r.pushed.length
  loaded : ∀ item, r.getPc = .incReadIndex item ∨ r.getPc = .decReadCount item →
    r.pushed[r.popped.length]? = some item
  freed : r.getPc = .incWriteCount → 0 < r.popped.length

lemma ringInit_inv {buffer : ℕ → ℕ} {capacity : ℕ} {r : Ring} (hc : capacity < 2 ^ 32)
    (h : ringInit buffer capacity = some r) : Inv r := by
  rw [ringInit] at h
  split at h
  · simp at h
  split at h
  · simp at h
  · rename_i h0 hpow
    obtain rfl := Option.some.inj h
    have hne : capacity ≠ 2 ^ 32 - 1 := by
      rintro rfl
      exact hpow (by decide)
    constructor <;> simp [PushPc.late, PushPc.owes, GetPc.ahead, GetPc.owes]
    omega

lemma inc_eq {n : ℕ} (h : n + 1 < 2 ^ 32) : inc n = n + 1 := Nat.mod_eq_of_lt h

lemma dec_eq {n : ℕ} (h : 0 < n) (h' : n < 2 ^ 32) : dec n = n - 1 := by
  rw [dec]
  omega

variable {r r' : Ring}

lemma pushStep_inv (h : Inv r) (hearly : Early r .pushStep) (hr : pushStep r = some r') :
    Inv r' := by
  have hroom := h.room
  have hidx := h.writeIndex
  have hcount := h.writeCount
  rw [pushStep] at hr
  unfold Early at hearly
  cases hpc : r.pushPc with
  | idle => simp [hpc] at hr
  | check item =>
    simp only [hpc, Option.some.injEq] at hr hearly
    subst hr
    rw [hpc] at hidx hcount
    by_cases h0 : r.writeCount = 0
    · simp only [h0, if_true]
      exact { h with
        writeIndex := hidx
        writeCount := by simpa [h0, PushPc.owes] using hcount
        storing := by simp
        stored := by simp }
    · simp only [h0, if_false]
      exact { h with
        writeIndex := hidx
        writeCount := hcount
        storing := fun _ _ => hearly.resolve_left h0
        stored := by simp }
  | store item =>
    simp only [hpc, Option.some.injEq] at hr
    subst hr
    rw [hpc] at hidx hcount
    have hlt := h.storing item (.inl hpc)
    simp only [PushPc.late, Nat.add_zero] at hidx
    exact { h with
      writeIndex := hidx
      writeCount := hcount
      cells := fun i hi => by
        have hne : i ≠ r.writeIndex := by
          rw [hidx]
          exact Nat.ne_of_lt hi
        simpa [Function.update_of_ne hne] using h.cells i hi
      storing := fun _ _ => hlt
      stored := fun item' hitem => by
        simp only [PushPc.incReadCount.injEq] at hitem
        simp [hidx, hitem] }
  | incReadCount item =>
    simp only [hpc, Option.some.injEq] at hr
    subst hr
    rw [hpc] at hidx hcount
    have hlt := h.storing item (.inr hpc)
    have hread := h.readCount
    have hle := h.popped_le
    have hget : ∀ {i x : ℕ}, r.pushed[i]? = some x → (r.pushed ++ [item])[i]? = some x := by
      intro i x hx
      rw [List.getElem?_append_left (List.getElem?_eq_some_iff.mp hx).1, hx]
    simp only [PushPc.late, PushPc.owes, Nat.add_zero] at hidx hcount
    constructor
    · exact hroom
    · simpa using hlt
    · simp only [List.length_append, List.length_singleton]
      omega
    · rw [List.take_append_of_le_length hle]
      exact h.popped_eq
    · rw [inc_eq (by omega)]
      simp only [List.length_append, List.length_singleton]
      omega
    · simp only [PushPc.late, List.length_append, List.length_singleton]
      omega
    · exact h.readIndex
    · simp only [PushPc.owes, List.length_append, List.length_singleton]
      omega
    · intro i hi
      simp only [List.length_append, List.length_singleton] at hi
      rcases Nat.lt_or_ge i r.pushed.length with hi' | hi'
      · exact hget (h.cells i hi')
      · obtain rfl : i = r.pushed.length := by omega
        simp [h.stored item hpc]
    · exact fun p hp => hget (h.peeks p hp)
    · simp
    · simp
    · intro pop hpop
      have := h.loading pop hpop
      simp only [List.length_append, List.length_singleton]
      omega
    · exact fun item' hitem => hget (h.loaded item' hitem)
    · exact h.freed
  | decWriteCount =>
    simp only [hpc, Option.some.injEq] at hr
    subst hr
    rw [hpc] at hidx hcount
    have hle := h.pushed_le
    have hle' := h.popped_le
    have hfree : r.getPc.owes ≤ r.popped.length := by
      cases hg : r.getPc with
      | incWriteCount => exact h.freed hg
      | _ => exact Nat.zero_le _
    simp only [PushPc.owes] at hcount
    rw [dec_eq (by omega) (by omega)]
    exact { h with
      writeIndex := hidx
      writeCount := by
        simp only [PushPc.owes]
        omega
      storing := by simp
      stored := by simp }
  | incWriteIndex =>
    simp only [hpc, Option.some.injEq] at hr
    subst hr
    rw [hpc] at hidx hcount
    have hle := h.pushed_le
    simp only [PushPc.late] at hidx
    rw [inc_eq (by omega)]
    exact { h with
      writeIndex := by
        simp only [PushPc.late]
        omega
      writeCount := hcount
      storing := by simp
      stored := by simp }

lemma getStep_inv (h : Inv r) (hr : getStep r = some r') : Inv r' := by
  have hroom := h.room
  have hidx := h.readIndex
  have hcount := h.writeCount
  have hread := h.readCount
  have hle := h.pushed_le
  rw [getStep] at hr
  cases hpc : r.getPc with
  | idle => simp [hpc] at hr
  | check pop =>
    simp only [hpc, Option.some.injEq] at hr
    subst hr
    rw [hpc] at hidx hcount
    by_cases h0 : r.readCount = 0
    · simp only [h0, if_true]
      exact { h with
        readCount := by simpa [h0] using hread
        readIndex := hidx
        writeCount := hcount
        loading := by simp
        loaded := by simp
        freed := by simp }
    · simp only [h0, if_false]
      exact { h with
        readIndex := hidx
        writeCount := hcount
        loading := fun _ _ => by
          simp only
          omega
        loaded := by simp
        freed := by simp }
  | load pop =>
    rw [hpc] at hidx hcount
    have hlt := h.loading pop hpc
    have hcell := h.cells r.readIndex (by rw [hidx]; simpa [GetPc.ahead] using hlt)
    simp only [GetPc.ahead, Nat.add_zero] at hidx
    cases pop with
    | true =>
      simp only [hpc, Option.some.injEq] at hr
      subst hr
      exact { h with
        readIndex := hidx
        writeCount := hcount
        loading := by simp
        loaded := fun item hitem => by
          simp only [GetPc.incReadIndex.injEq, reduceCtorEq, or_false] at hitem
          rw [← hitem, ← hidx]
          exact hcell
        freed := by simp }
    | false =>
      simp only [hpc, Option.some.injEq] at hr
      subst hr
      exact { h with
        readIndex := hidx
        writeCount := hcount
        peeks := fun p hp => by
          rcases List.mem_cons.mp hp with rfl | hp
          · rw [← hidx]
            exact hcell
          · exact h.peeks p hp
        loading := by simp
        loaded := by simp
        freed := by simp }
  | incReadIndex item =>
    simp only [hpc, Option.some.injEq] at hr
    subst hr
    rw [hpc] at hidx hcount
    have hitem := h.loaded item (.inl hpc)
    have hlt := (List.getElem?_eq_some_iff.mp hitem).1
    simp only [GetPc.ahead, Nat.add_zero] at hidx
    rw [inc_eq (by omega)]
    exact { h with
      readIndex := by
        simp only [GetPc.ahead]
        omega
      writeCount := hcount
      loading := by simp
      loaded := fun item' hitem' => by
        simp only [GetPc.decReadCount.injEq, reduceCtorEq, false_or] at hitem'
        exact hitem' ▸ hitem
      freed := by simp }
  | decReadCount item =>
    simp only [hpc, Option.some.injEq] at hr
    subst hr
    rw [hpc] at hidx hcount
    have hitem := h.loaded item (.inr hpc)
    obtain ⟨hlt, hget⟩ := List.getElem?_eq_some_iff.mp hitem
    simp only [GetPc.ahead, GetPc.owes] at hidx hcount
    constructor
    · exact hroom
    · exact hle
    · simpa using hlt
    · rw [List.length_append, List.length_singleton, List.take_add_one, hitem, ← h.popped_eq]
      rfl
    · rw [dec_eq (by omega) (by omega)]
      simp only [List.length_append, List.length_singleton]
      omega
    · exact h.writeIndex
    · simpa [GetPc.ahead] using hidx
    · simp only [GetPc.owes, List.length_append, List.length_singleton]
      omega
    · exact h.cells
    · exact h.peeks
    · exact h.storing
    · exact h.stored
    · simp
    · simp
    · simp
  | incWriteCount =>
    simp only [hpc, Option.some.injEq] at hr
    subst hr
    rw [hpc] at hidx hcount
    have hfree := h.freed hpc
    have hle' := h.popped_le
    have howes : r.pushPc.owes ≤ 1 := by
      cases r.pushPc <;> simp [PushPc.owes]
    simp only [GetPc.owes] at hcount
    rw [inc_eq (by omega)]
    exact { h with
      readIndex := hidx
      writeCount := by
        simp only [GetPc.owes]
        omega
      loading := by simp
      loaded := by simp
      freed := by simp }

lemma step_inv {m : Move} (h : Inv r) (hearly : Early r m) (hr : step r m = some r') : Inv r' := by
  cases m with
  | push item =>
    simp only [step] at hr
    split at hr
    · rename_i hpc
      have hidx := h.writeIndex
      have hcount := h.writeCount
      rw [hpc] at hidx hcount
      obtain rfl := Option.some.inj hr
      exact { h with
        writeIndex := hidx
        writeCount := hcount
        storing := by simp
        stored := by simp }
    · simp at hr
  | get pop =>
    simp only [step] at hr
    split at hr
    · rename_i hpc
      have hidx := h.readIndex
      have hcount := h.writeCount
      rw [hpc] at hidx hcount
      obtain rfl := Option.some.inj hr
      exact { h with
        readIndex := hidx
        writeCount := hcount
        loading := by simp
        loaded := by simp
        freed := by simp }
    · simp at hr
  | pushStep => exact pushStep_inv h hearly hr
  | getStep => exact getStep_inv h hr

lemma Inv.fifo (h : Inv r) : Fifo r := by
  have hidx := h.writeIndex
  have hridx := h.readIndex
  have hle := h.pushed_le
  refine ⟨⟨r.pushed.drop r.popped.length, ?_⟩, ?_, ?_, ?_, ?_⟩
  · nth_rewrite 1 [h.popped_eq]
    exact List.take_append_drop ..
  · intro p hp item hitem
    rw [h.popped_eq, List.getElem?_take] at hitem
    split at hitem
    · rw [h.peeks p hp] at hitem
      exact (Option.some.inj hitem).symm
    · simp at hitem
  · intro item hpc
    have := h.storing item (.inl hpc)
    omega
  · intro pop hpc
    have := h.loading pop hpc
    rw [hpc] at hridx
    simp only [GetPc.ahead] at hridx
    omega
  · intro hp hg
    have hcount := h.writeCount
    have hread := h.readCount
    have hpop := h.popped_le
    rw [hp, hg] at hcount
    simp only [PushPc.owes, GetPc.owes] at hcount
    omega

/-- **The ring is a bounded queue** for its first `capacity` items: in every run whose pushes all
are among these, every state reached is that of a queue. -/
theorem fifo_of_early {buffer : ℕ → ℕ} {capacity : ℕ} {r₀ r : Ring} {moves : List Move}
    (hc : capacity < 2 ^ 32) (hinit : ringInit buffer capacity = some r₀)
    (hearly : Along step Early r₀ moves) (hrun : run step r₀ moves = some r) : Fifo r :=
  (run_inv (fun _ _ _ h he hs => step_inv h he hs) moves _ _ (ringInit_inv hc hinit) hearly
    hrun).fifo

/-- A push and a pop, one access after the other. -/
def pushPop (item : ℕ) : List Move :=
  [Move.push item] ++ List.replicate 5 Move.pushStep ++ [Move.get true] ++
    List.replicate 5 Move.getStep

/-- A ring with one place. -/
def oneRing : Ring :=
  { buffer := fun _ => 0
    capacity := 1
    readIndex := 0
    readCount := 0
    writeIndex := 0
    writeCount := 1
    pushPc := .idle
    getPc := .idle
    pushed := []
    popped := []
    peeks := [] }

theorem oneRing_first_fifo :
    ∃ r, run step oneRing (pushPop 7) = some r ∧ r.popped = [7] ∧ Fifo r := by
  have hmap : (run step oneRing (pushPop 7)).map Ring.popped = some [7] := by decide +kernel
  obtain ⟨r, hr, hpopped⟩ := Option.map_eq_some_iff.mp hmap
  have hinit : ringInit (fun _ => 0) 1 = some oneRing := rfl
  have hearly : Along step Early oneRing (pushPop 7) := by decide +kernel
  exact ⟨r, hr, hpopped, fifo_of_early (by norm_num) hinit hearly hr⟩

/-- The second item of a ring with one place is stored outside of the buffer. -/
theorem oneRing_second_outside : ringInit (fun _ => 0) 1 = some oneRing ∧
    ¬ ∀ (moves : List Move) (r : Ring), run step oneRing moves = some r → Fifo r := by
  refine ⟨rfl, fun h => ?_⟩
  have hmap : (run step oneRing (pushPop 7 ++ [.push 8, .pushStep])).map
      (fun r => (r.pushPc, r.writeIndex, r.capacity)) = some (.store 8, 1, 1) := by decide +kernel
  obtain ⟨r, hr, heq⟩ := Option.map_eq_some_iff.mp hmap
  simp only [Prod.mk.injEq] at heq
  have := (h _ r hr).store 8 heq.1
  omega

end KernelModel.Rings
