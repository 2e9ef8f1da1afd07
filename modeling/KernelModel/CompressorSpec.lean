import KernelModel.Borders
import KernelModel.Compressor

/-!
What the compressor writes.

The search finds matches that are matches: the table holds borders, so the letters that count
as compared do agree. The output is then a sequence of segments, each of which describes the
bytes that follow those described before.
-/

namespace KernelModel.Compressor

open Borders

/-! ### The failure table -/

section

variable {p w : ℕ → UInt8}

lemma succ_and_mask {j : ℕ} (hj : j + 1 < 2 ^ 16) : (j + 1) &&& 0xffff = j + 1 := by
  rw [show 0xffff = 2 ^ 16 - 1 by norm_num, Nat.and_two_pow_sub_one_eq_mod, Nat.mod_eq_of_lt hj]

/-- Following the table from a border of place `i` ends at the marker or at a border that the
letter at `i` prolongs. -/
lemma fallBack_spec {table : ℕ → ℕ} {i m : ℕ} (ht : Failure p kmpEnd table m) (hm : m < kmpEnd) :
    ∀ {f j : ℕ}, j < m → j + 2 ≤ f → Ends p p i j →
      ∃ j', fallBack p table i f j = some j' ∧
        (j' = kmpEnd ∨ j' ≤ j ∧ Ends p p i j' ∧ p i = p j') := by
  intro f
  induction f with
  | zero => intro j _ hf _; omega
  | succ f ih =>
    intro j hj hf he
    by_cases heq : p i = p j
    · refine ⟨j, ?_, .inr ⟨le_rfl, he, heq⟩⟩
      simp [fallBack, heq]
    · have hstep : fallBack p table i (f + 1) j = fallBack p table i f (table j) := by
        rw [fallBack, if_pos ⟨by omega, heq⟩]
      rw [hstep]
      rcases ht.border j hj with hend | ⟨hlt, hb⟩
      · refine ⟨kmpEnd, ?_, .inl rfl⟩
        obtain ⟨g, rfl⟩ : ∃ g, f = g + 1 := ⟨f - 1, by omega⟩
        simp [fallBack, hend]
      · obtain ⟨j', hj', hres⟩ := ih (by omega) (by omega) (he.trans hb)
        refine ⟨j', hj', hres.imp_right fun h => ⟨by omega, h.2⟩⟩

lemma buildTable_spec (p : ℕ → UInt8) (table : ℕ → ℕ) : ∀ n, n + 2 < kmpEnd →
    ∃ t j, buildTable p table n = some (t, j) ∧ Failure p kmpEnd t (n + 1) ∧ j ≤ n ∧
      Ends p p (n + 1) j := by
  intro n
  induction n with
  | zero =>
    intro _
    refine ⟨_, 0, rfl, ⟨fun _ => by simp, fun i hi => .inl ?_⟩, le_rfl, ends_zero p p 1⟩
    obtain rfl : i = 0 := by omega
    simp
  | succ n ih =>
    intro hn
    obtain ⟨t, j, hbuild, ht, hj, he⟩ := ih (by omega)
    have hend : kmpEnd = 0xffff := rfl
    by_cases heq : p (n + 1) = p j
    · refine ⟨Function.update t (n + 1) (t j), j + 1, ?_, ht.update (by omega) ?_, by omega,
        he.succ heq⟩
      · simp [buildTable, hbuild, heq, succ_and_mask (by omega : j + 1 < 2 ^ 16)]
      · rcases ht.border j (by omega) with hmark | ⟨hlt, hb⟩
        · exact .inl hmark
        · exact .inr ⟨by omega, he.trans hb⟩
    · have hmod : j % 2 ^ 16 = j := Nat.mod_eq_of_lt (by omega)
      have ht' : Failure p kmpEnd (Function.update t (n + 1) j) (n + 2) :=
        ht.update (by omega) (.inr ⟨by omega, he⟩)
      obtain ⟨j', hfall, hres⟩ := fallBack_spec (i := n + 1) (f := n + 2) ht' (by omega)
        (by omega : j < n + 2) (by omega) he
      have hbuild' : buildTable p table (n + 1)
          = some (Function.update t (n + 1) j, (j' + 1) &&& 0xffff) := by
        simp only [buildTable, hbuild, Option.bind_some, if_neg heq, hmod, hfall, Option.map_some]
      rw [hbuild']
      rcases hres with rfl | ⟨hle, hb, hpj⟩
      · exact ⟨_, 0, by simp [kmpEnd], ht', by omega, ends_zero p p _⟩
      · exact ⟨_, j' + 1, by rw [succ_and_mask (by omega)], ht', by omega, hb.succ hpj⟩

/-! ### The search -/

/-- A match of the letters of `p` in the window: `o` places back from the window's end. -/
def IsMatch (p w : ℕ → UInt8) (dist n o : ℕ) : Prop :=
  matchAlignment ≤ o ∧ o ≤ dist ∧ ∀ k < n, w (dist - o + k) = p k

/-- The search between two rounds. The letters that count as compared agree; unless they are
fewer than in the best match, they stand far enough from the end of the window. -/
structure Searching (p w : ℕ → UInt8) (length dist : ℕ) (s : Search) : Prop where
  ends : Ends p w s.i s.j
  j_le : s.j ≤ length
  i_le : s.i ≤ dist + length
  far : s.j ≤ s.matchLength ∨ s.i + matchAlignment ≤ dist + s.j
  length_le : s.matchLength ≤ length
  isMatch : s.matchLength = 0 ∨ IsMatch p w dist s.matchLength s.matchOffset

variable {length dist : ℕ} {s : Search}

lemma Searching.record (h : Searching p w length dist s) :
    (s.record dist).j = s.j ∧ (s.record dist).i = s.i ∧ s.j ≤ (s.record dist).matchLength ∧
      Searching p w length dist (s.record dist) := by
  by_cases hj : s.j > s.matchLength
  · have hfar : s.i + matchAlignment ≤ dist + s.j := h.far.resolve_left (by omega)
    obtain ⟨hle, hw⟩ := h.ends
    rw [Search.record, if_pos hj]
    refine ⟨rfl, rfl, le_rfl, h.ends, h.j_le, h.i_le, .inl le_rfl, h.j_le,
      .inr ⟨?_, ?_, fun k hk => ?_⟩⟩
    · dsimp only
      omega
    · dsimp only
      omega
    · dsimp only at hk ⊢
      rw [← hw k hk]
      congr 1
      omega
  · rw [Search.record, if_neg hj]
    exact ⟨rfl, rfl, by omega, h⟩

lemma search_spec {table : ℕ → ℕ} (ht : Failure p kmpEnd table length) :
    ∀ {f : ℕ} {s : Search}, Searching p w length dist s →
      2 * (dist + length) < 2 * s.i - s.j + f →
      ∃ s', search p w table length dist f s = some s' ∧ Searching p w length dist s' := by
  intro f
  induction f with
  | zero =>
    intro s h hf
    have := h.i_le
    omega
  | succ f ih =>
    intro s h hf
    have hij := h.ends.1
    have hmin : matchAlignment = 8 := rfl
    rw [search]
    by_cases hcond : s.j < length ∧ s.i + matchAlignment ≤ dist + s.j
    · rw [if_pos hcond]
      by_cases heq : p s.j = w s.i
      · rw [if_pos heq]
        exact ih ⟨h.ends.succ heq.symm, by dsimp only; omega, by dsimp only; omega,
          .inr (by dsimp only; omega), h.length_le, h.isMatch⟩ (by dsimp only; omega)
      · obtain ⟨-, -, hle, hr⟩ := h.record
        simp only [if_neg heq]
        by_cases hend : table s.j = kmpEnd
        · rw [if_pos hend]
          exact ih ⟨ends_zero p w _, Nat.zero_le _, by dsimp only; omega, .inl (Nat.zero_le _),
            hr.length_le, hr.isMatch⟩ (by dsimp only; omega)
        · -- a shorter border takes the place of the letters compared so far
          obtain ⟨hlt, hb⟩ := (ht.border s.j hcond.1).resolve_left hend
          obtain ⟨-, hi, -, -⟩ := h.record
          rw [if_neg hend]
          refine ih ⟨hi ▸ h.ends.trans hb, by dsimp only; omega, hi ▸ h.i_le,
            .inl (by dsimp only; omega), hr.length_le, hr.isMatch⟩ ?_
          dsimp only
          omega
    · rw [if_neg hcond]
      exact ⟨s, rfl, h⟩

end

/-! ### The match at an offset -/

section

variable {data : List UInt8}

/-- `n` bytes at `offset` that stand `o` places before as well. -/
def Repeats (data : List UInt8) (offset n o : ℕ) : Prop :=
  ∀ k < n, byte data (offset + k) = byte data (offset - o + k)

lemma extend_spec {offset o : ℕ} : ∀ {n m : ℕ}, Repeats data offset m o →
    m ≤ extend data offset o n m ∧ extend data offset o n m ≤ m + n ∧
      Repeats data offset (extend data offset o n m) o := by
  intro n
  induction n with
  | zero => intro m h; exact ⟨le_rfl, le_rfl, h⟩
  | succ n ih =>
    intro m h
    rw [extend]
    split
    · rename_i heq
      have h' : Repeats data offset (m + 1) o := by
        intro k hk
        rcases Nat.lt_succ_iff_lt_or_eq.mp hk with hk | rfl
        · exact h k hk
        · exact heq
      obtain ⟨hle, hge, hrep⟩ := ih h'
      exact ⟨by omega, by omega, hrep⟩
    · exact ⟨le_rfl, by omega, h⟩

lemma windowSize_le (level : Level) : windowSize level ≤ 1023 := by
  cases level <;> decide

lemma maxPreprocessedMatchLength_spec (level : Level) :
    0 < maxPreprocessedMatchLength level ∧ maxPreprocessedMatchLength level ≤ 1023 := by
  cases level <;> decide

/-- **The search for a match** ends, and what it finds is a match. -/
lemma findMatch_spec (level : Level) (table : ℕ → ℕ) {offset : ℕ} (ho : offset < data.length) :
    ∃ n o t, findMatch data level table offset = some (n, o, t) ∧
      offset + n ≤ data.length ∧ n ≤ maxMatchLength ∧
      (n = 0 ∨ 8 ≤ o ∧ o ≤ 1023 ∧ o ≤ offset ∧ Repeats data offset n o) := by
  obtain ⟨hpos, hpre⟩ := maxPreprocessedMatchLength_spec level
  have hwin := windowSize_le level
  have hmax : 0 < maxMatchLength := by decide
  simp only [findMatch]
  generalize hc : min (data.length - offset) maxMatchLength = capped
  generalize hl : min capped (maxPreprocessedMatchLength level) = length
  generalize hwo : (if offset < windowSize level then 0 else offset - windowSize level) = wo
  have hwo_le : wo ≤ offset ∧ offset - wo ≤ 1023 := by
    split at hwo <;> omega
  generalize hd : offset - wo = dist
  have hlen : 0 < length := by omega
  obtain ⟨t, j, hbuild, ht, -, -⟩ := buildTable_spec (fun i => byte data (offset + i)) table
    (length - 1) (by rw [kmpEnd]; omega)
  rw [Nat.sub_add_cancel hlen] at ht
  have hstart : Searching (fun i => byte data (offset + i)) (fun i => byte data (wo + i)) length
      dist ⟨0, 0, 0, 0⟩ :=
    ⟨ends_zero _ _ _, Nat.zero_le _, Nat.zero_le _, .inl le_rfl, Nat.zero_le _, .inl rfl⟩
  obtain ⟨s, hsearch, hs⟩ := search_spec (f := 2 * (dist + length) + 1) ht hstart
    (by dsimp only; omega)
  obtain ⟨-, -, -, hr⟩ := hs.record
  rw [hbuild, Option.bind_some, hsearch]
  refine ⟨_, _, _, rfl, ?_⟩
  generalize hrec : s.record dist = r at hr
  -- in terms of the data, a match in the window is a repetition
  have hrep : r.matchLength = 0 ∨ 8 ≤ r.matchOffset ∧ r.matchOffset ≤ dist ∧
      Repeats data offset r.matchLength r.matchOffset := by
    refine hr.isMatch.imp_right fun h => ⟨h.1, h.2.1, fun k hk => ?_⟩
    have := h.2.2 k hk
    have h8 := h.2.1
    dsimp only at this
    rw [← this]
    congr 1
    omega
  have hle := hr.length_le
  split
  · rename_i hfull
    have hne : r.matchLength ≠ 0 := by omega
    obtain ⟨h8, hdist, hrep⟩ := hrep.resolve_left hne
    obtain ⟨-, hge, hrep'⟩ := extend_spec (n := capped - r.matchLength) hrep
    exact ⟨by omega, by omega, .inr ⟨h8, by omega, by omega, hrep'⟩⟩
  · refine ⟨by omega, by omega, hrep.imp_right fun h => ⟨h.1, by omega, by omega, h.2.2⟩⟩

/-! ### Segments -/

/-- The bytes that describe the data from one offset to the next: literal bytes, or a match. -/
inductive Segment (data : List UInt8) : ℕ → ℕ → List UInt8 → Prop
  | literal {p n : ℕ} (hpos : 0 < n) (hmax : n ≤ maxNonMatchLength) (hle : p + n ≤ data.length) :
    Segment data p (p + n) (encodeNonMatch n ++ slice data p n)
  | copy {p n o : ℕ} (hpos : minMatchLength ≤ n) (hmax : n ≤ maxMatchLength) (h8 : 8 ≤ o)
    (ho : o ≤ 1023) (hop : o ≤ p) (hle : p + n ≤ data.length) (hrep : Repeats data p n o) :
    Segment data p (p + n) (encodedMatch n o)

/-- The bytes of consecutive segments. -/
inductive Coded (data : List UInt8) : ℕ → ℕ → List UInt8 → Prop
  | nil (p : ℕ) : Coded data p p []
  | cons {p q r : ℕ} {b bs : List UInt8} (hb : Segment data p q b) (hbs : Coded data q r bs) :
    Coded data p r (b ++ bs)

lemma Coded.snoc {p q r : ℕ} {b bs : List UInt8} (hbs : Coded data p q bs)
    (hb : Segment data q r b) : Coded data p r (bs ++ b) := by
  induction hbs with
  | nil p => simpa using Coded.cons hb (Coded.nil r)
  | cons h _ ih =>
    rw [List.append_assoc]
    exact .cons h (ih hb)

/-! ### The main loop -/

/-- The main loop between two rounds: all but the pending bytes has been written. -/
structure Compressing (data : List UInt8) (s : State) : Prop where
  offset_le : s.offset ≤ data.length
  pending_le : s.nonMatchLength ≤ s.offset
  pending_max : s.nonMatchLength ≤ maxNonMatchLength
  coded : Coded data 0 (s.offset - s.nonMatchLength) s.out

lemma Compressing.flush {s : State} (h : Compressing data s) (hpos : s.nonMatchLength ≠ 0) :
    Coded data 0 s.offset (s.out ++ nonMatch data s.offset s.nonMatchLength) := by
  have hle := h.pending_le
  have hoff := h.offset_le
  have hseg : Segment data (s.offset - s.nonMatchLength) s.offset
      (nonMatch data s.offset s.nonMatchLength) := by
    have := Segment.literal (p := s.offset - s.nonMatchLength) (Nat.pos_of_ne_zero hpos)
      h.pending_max (by omega : s.offset - s.nonMatchLength + s.nonMatchLength ≤ data.length)
    rwa [Nat.sub_add_cancel hle] at this
  exact h.coded.snoc hseg

lemma compressRound_spec (hlen : data.length < 2 ^ 32) (level : Level) {s : State}
    (h : Compressing data s) (hlt : s.offset < data.length) :
    ∃ s', compressRound data level s = some s' ∧ Compressing data s' ∧ s.offset < s'.offset := by
  obtain ⟨n, o, t, hfind, hle, hmax, hmatch⟩ := findMatch_spec level s.table hlt
  have hm : minMatchLength = 4 := rfl
  have hmax' : maxNonMatchLength = 16383 := rfl
  have hpend := h.pending_le
  have hpmax := h.pending_max
  rw [compressRound, hfind, Option.map_some]
  refine ⟨_, rfl, ?_⟩
  -- what the flush leaves: the bytes written and the number still pending
  have hflush : ∀ flush : Prop, ∀ _ : Decidable flush,
      (flush → s.nonMatchLength ≠ 0) →
      Coded data 0 (s.offset - if flush then 0 else s.nonMatchLength)
        (if flush then s.out ++ nonMatch data s.offset s.nonMatchLength else s.out) := by
    intro flush _ hne
    by_cases hf : flush
    · simpa [hf] using h.flush (hne hf)
    · simpa [hf] using h.coded
  dsimp only
  set flush := s.nonMatchLength = maxNonMatchLength ∨
    s.nonMatchLength ≠ 0 ∧ n ≥ minMatchLength with hfl
  have hcoded := hflush flush inferInstance (by rw [hfl]; omega)
  by_cases hshort : n < minMatchLength
  · rw [if_pos hshort]
    have hpend' : (if flush then 0 else s.nonMatchLength) ≤ s.offset ∧
        (if flush then 0 else s.nonMatchLength) + 1 ≤ maxNonMatchLength := by
      split
      · omega
      · rename_i hf
        have : s.nonMatchLength ≠ maxNonMatchLength := fun hc => hf (.inl hc)
        omega
    generalize (if flush then 0 else s.nonMatchLength) = pending at hpend' hcoded
    rw [Nat.mod_eq_of_lt (by omega : s.offset + 1 < 2 ^ 32),
      Nat.mod_eq_of_lt (by omega : pending + 1 < 2 ^ 32)]
    refine ⟨⟨hlt, by dsimp only; omega, hpend'.2, ?_⟩, by dsimp only; omega⟩
    dsimp only
    rwa [Nat.add_sub_add_right]
  · rw [if_neg hshort]
    have hzero : (if flush then 0 else s.nonMatchLength) = 0 := by
      split
      · rfl
      · rename_i hf
        by_contra hne
        exact hf (.inr ⟨hne, by omega⟩)
    obtain ⟨h8, ho, hop, hrep⟩ := hmatch.resolve_left (by omega)
    rw [hzero, Nat.sub_zero] at hcoded
    have hseg := Segment.copy (by omega : minMatchLength ≤ n) hmax h8 ho hop hle hrep
    rw [Nat.mod_eq_of_lt (by omega : s.offset + n < 2 ^ 32)]
    refine ⟨⟨hle, ?_, ?_, ?_⟩, by dsimp only; omega⟩ <;> dsimp only <;> rw [hzero]
    · exact Nat.zero_le _
    · exact Nat.zero_le _
    · exact hcoded.snoc hseg

lemma compressLoop_spec (hlen : data.length < 2 ^ 32) (level : Level) :
    ∀ {f : ℕ} {s : State}, Compressing data s →
    data.length ≤ s.offset + f →
    ∃ s', compressLoop data level f s = some s' ∧ Compressing data s' ∧
      s'.offset = data.length := by
  intro f
  induction f with
  | zero =>
    intro s h hf
    have := h.offset_le
    refine ⟨s, ?_, h, by omega⟩
    rw [compressLoop, if_neg (by omega)]
  | succ f ih =>
    intro s h hf
    have hle := h.offset_le
    rw [compressLoop]
    by_cases hlt : s.offset < data.length
    · obtain ⟨s', hround, hs', hgt⟩ := compressRound_spec hlen level h hlt
      rw [if_pos hlt, hround, Option.bind_some]
      exact ih hs' (by omega)
    · rw [if_neg hlt]
      exact ⟨s, rfl, h, by omega⟩

lemma storeLoop_spec (hlen : data.length < 2 ^ 32) :
    ∀ {f offset : ℕ}, offset ≤ data.length → data.length ≤ offset + f →
    ∃ out, storeLoop data f offset = some out ∧ Coded data offset data.length out := by
  intro f
  induction f with
  | zero =>
    intro offset hle hf
    obtain rfl : offset = data.length := by omega
    exact ⟨[], by simp [storeLoop], .nil _⟩
  | succ f ih =>
    intro offset hle hf
    rw [storeLoop]
    by_cases hlt : offset < data.length
    · rw [if_pos hlt]
      have hmax : 0 < maxNonMatchLength := by decide
      generalize hc : min (data.length - offset) maxNonMatchLength = chunk
      have hmod : (offset + chunk) % 2 ^ 32 = offset + chunk := Nat.mod_eq_of_lt (by omega)
      obtain ⟨out, hout, hcoded⟩ := ih (by omega : offset + chunk ≤ data.length) (by omega)
      refine ⟨encodeNonMatch chunk ++ slice data offset chunk ++ out,
        by simp only [hmod, hout, Option.map_some], ?_⟩
      exact .cons (.literal (by omega) (by omega) (by omega)) hcoded
    · rw [if_neg hlt]
      obtain rfl : offset = data.length := by omega
      exact ⟨[], rfl, .nil _⟩

/-- **The compressor** ends on every input and writes segments that describe it. -/
theorem compressorCompress_spec (data : List UInt8) (hlen : data.length < 2 ^ 32) (level : Level) :
    ∃ out, compressorCompress data level = some out ∧ Coded data 0 data.length out := by
  have hloop : ∀ level, ∃ out, (compressLoop data level data.length ⟨0, 0, fun _ => 0, []⟩).map
      (fun s => if s.nonMatchLength ≠ 0 then s.out ++ nonMatch data s.offset s.nonMatchLength
        else s.out) = some out ∧ Coded data 0 data.length out := by
    intro level
    obtain ⟨s, hs, hc, hoff⟩ := compressLoop_spec hlen level (f := data.length)
      (s := ⟨0, 0, fun _ => 0, []⟩) ⟨Nat.zero_le _, le_rfl, Nat.zero_le _, .nil 0⟩ (by simp)
    rw [hs, Option.map_some]
    refine ⟨_, rfl, ?_⟩
    split
    · rename_i hne
      rw [← hoff]
      exact hc.flush hne
    · rename_i hz
      have hcoded := hc.coded
      rwa [show s.nonMatchLength = 0 by omega, Nat.sub_zero, hoff] at hcoded
  cases level with
  | none => exact storeLoop_spec hlen (Nat.zero_le _) (by omega)
  | fast => exact hloop .fast
  | full => exact hloop .full

end

end KernelModel.Compressor
