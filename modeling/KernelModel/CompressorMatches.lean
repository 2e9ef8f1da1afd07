import KernelModel.CompressorSpec

/-!
The matches that the compressor emits, over whole runs of its main loop.

Each round passes some bytes of the input: one literal byte, or the bytes of a match.
-/

namespace KernelModel.Compressor

/-- The bytes that a round passes, and the distance of its match. -/
structure Move where
  offset : ℕ
  length : ℕ
  distance : Option ℕ
  deriving DecidableEq, Repr

/-- The move of a round that finds a match of a length at a distance. -/
def move (offset matchLength matchOffset : ℕ) : Move :=
  if matchLength < minMatchLength then ⟨offset, 1, none⟩
  else ⟨offset, matchLength, some matchOffset⟩

namespace Move

def positions (m : Move) : List ℕ := List.range' m.offset m.length

/-- What a move writes, behind the literal bytes before it. -/
def encoded (m : Move) : List UInt8 :=
  match m.distance with
  | some distance => encodedMatch m.length distance
  | none => []

/-- A match of the format, with bytes that the input has. -/
def Genuine (data : List UInt8) (m : Move) : Prop :=
  ∀ o, m.distance = some o → 8 ≤ o ∧ o ≤ 1023 ∧ 4 ≤ m.length ∧ m.length ≤ 8191 ∧
    o ≤ m.offset ∧ m.offset + m.length ≤ data.length ∧
      ∀ k < m.length, byte data (m.offset + k) = byte data (m.offset - o + k)

end Move

/-- The rounds of the main loop, with their moves. -/
inductive Rounds (data : List UInt8) (level : Level) : State → List Move → State → Prop
  | nil (s : State) : Rounds data level s [] s
  | cons {s s' s'' : State} {n o : ℕ} {t : ℕ → ℕ} {ms : List Move}
    (hlt : s.offset < data.length) (hfind : findMatch data level s.table s.offset = some (n, o, t))
    (hround : compressRound data level s = some s') (hrest : Rounds data level s' ms s'') :
    Rounds data level s (move s.offset n o :: ms) s''

def State.init : State := ⟨0, 0, fun _ => 0, []⟩

section

variable {data : List UInt8} {level : Level} {s s' : State} {n o : ℕ} {t : ℕ → ℕ} {ms : List Move}

/-- **The move of a round** is genuine, and the round passes its bytes and writes it. -/
lemma round_spec (hlen : data.length < 2 ^ 32) (hlt : s.offset < data.length)
    (hfind : findMatch data level s.table s.offset = some (n, o, t))
    (hround : compressRound data level s = some s') :
    (move s.offset n o).Genuine data ∧ s'.offset = s.offset + (move s.offset n o).length ∧
      ∃ literals, s'.out = s.out ++ literals ++ (move s.offset n o).encoded := by
  obtain ⟨n', o', t', hfind', hle, hmax, hmatch⟩ := findMatch_spec level s.table hlt
  cases hfind.symm.trans hfind'
  have hmin : minMatchLength = 4 := rfl
  have hmaxLength : maxMatchLength = 8191 := rfl
  rw [compressRound, hfind, Option.map_some] at hround
  obtain rfl := Option.some.inj hround
  rw [move]
  dsimp only
  have hout : ∀ flush : Prop, ∀ _ : Decidable flush, ∃ literals,
      (if flush then s.out ++ nonMatch data s.offset s.nonMatchLength else s.out) =
        s.out ++ literals := by
    intro flush _
    split_ifs
    · exact ⟨_, rfl⟩
    · exact ⟨[], (List.append_nil _).symm⟩
  by_cases hshort : n < minMatchLength
  · rw [if_pos hshort, if_pos hshort]
    refine ⟨fun o h => (by cases h), Nat.mod_eq_of_lt (by omega), ?_⟩
    obtain ⟨literals, hliterals⟩ := hout (s.nonMatchLength = maxNonMatchLength ∨
      s.nonMatchLength ≠ 0 ∧ n ≥ minMatchLength) inferInstance
    exact ⟨literals, hliterals.trans (List.append_nil _).symm⟩
  · rw [if_neg hshort, if_neg hshort]
    obtain ⟨h8, ho, hop, hrep⟩ := hmatch.resolve_left (by omega)
    refine ⟨?_, Nat.mod_eq_of_lt (by omega), ?_⟩
    · rintro o' ho'
      obtain rfl := Option.some.inj ho'
      exact ⟨h8, ho, by dsimp only; omega, by dsimp only; omega, hop, hle, hrep⟩
    · obtain ⟨literals, hliterals⟩ := hout (s.nonMatchLength = maxNonMatchLength ∨
        s.nonMatchLength ≠ 0 ∧ n ≥ minMatchLength) inferInstance
      exact ⟨literals, congrArg (· ++ encodedMatch n o) hliterals⟩

lemma rounds_of_compressLoop {f : ℕ} (hloop : compressLoop data level f s = some s') :
    ∃ ms, Rounds data level s ms s' := by
  induction f generalizing s with
  | zero =>
    rw [compressLoop] at hloop
    split_ifs at hloop
    exact ⟨[], Option.some.inj hloop ▸ .nil s⟩
  | succ f ih =>
    rw [compressLoop] at hloop
    split_ifs at hloop with hlt
    · obtain ⟨s₁, hround, hrest⟩ := Option.bind_eq_some_iff.mp hloop
      obtain ⟨⟨n, o, t⟩, hfind, -⟩ := Option.map_eq_some_iff.mp hround
      obtain ⟨ms, hms⟩ := ih hrest
      exact ⟨_, .cons hlt hfind hround hms⟩
    · exact ⟨[], Option.some.inj hloop ▸ .nil s⟩

/-- **The moves of a run** are genuine, and pass the bytes between its states in order. -/
lemma Rounds.spec (hlen : data.length < 2 ^ 32) (h : Rounds data level s ms s') :
    (∀ m ∈ ms, m.Genuine data) ∧ s.offset ≤ s'.offset ∧
      ms.flatMap Move.positions = List.range' s.offset (s'.offset - s.offset) := by
  induction h with
  | nil s => exact ⟨fun m hm => absurd hm List.not_mem_nil, le_rfl, by rw [Nat.sub_self]; rfl⟩
  | @cons s s' s'' n o t ms hlt hfind hround hrest ih =>
    obtain ⟨hgenuine, hoffset, -⟩ := round_spec hlen hlt hfind hround
    obtain ⟨hall, hle, hpositions⟩ := ih
    have hmove : (move s.offset n o).offset = s.offset := by
      rw [move]
      split_ifs <;> rfl
    refine ⟨fun m hm => ?_, by omega, ?_⟩
    · rcases List.mem_cons.mp hm with rfl | hm
      · exact hgenuine
      · exact hall m hm
    · have hsum : s''.offset - s.offset =
          (move s.offset n o).length + (s''.offset - s'.offset) := by omega
      rw [List.flatMap_cons, hpositions, Move.positions, hmove, hsum, hoffset,
        List.range'_append_1]

end

/-- **The matches of the compressor** are genuine in every run of its main loop, which passes every
byte of the input once. -/
theorem emitted_matches_genuine (data : List UInt8) (hlen : data.length < 2 ^ 32) (level : Level) :
    (∀ ms s, Rounds data level State.init ms s →
      (∀ m ∈ ms, m.Genuine data) ∧ ms.flatMap Move.positions = List.range s.offset) ∧
    (level ≠ .none → ∃ ms s, Rounds data level State.init ms s ∧ s.offset = data.length ∧
      ∃ literals, compressorCompress data level = some (s.out ++ literals)) := by
  constructor
  · intro ms s h
    obtain ⟨hall, -, hpositions⟩ := h.spec hlen
    refine ⟨hall, ?_⟩
    rw [hpositions, List.range_eq_range']
    rfl
  · intro hlevel
    obtain ⟨s, hloop, hs, hoffset⟩ := @compressLoop_spec data hlen level data.length State.init
      ⟨Nat.zero_le _, le_rfl, Nat.zero_le _, .nil 0⟩ (Nat.le_add_left _ _)
    obtain ⟨ms, hms⟩ := rounds_of_compressLoop hloop
    refine ⟨ms, s, hms, hoffset, ?_⟩
    have hcompress : compressorCompress data level = some (if s.nonMatchLength ≠ 0 then
        s.out ++ nonMatch data s.offset s.nonMatchLength else s.out) := by
      cases level with
      | none => exact absurd rfl hlevel
      | fast => exact congrArg (Option.map _) hloop
      | full => exact congrArg (Option.map _) hloop
    rw [hcompress]
    split_ifs
    · exact ⟨_, rfl⟩
    · exact ⟨[], by rw [List.append_nil]⟩

/-- Twenty equal bytes. -/
theorem emitted_matches_genuine_zeros : ∃ ms s,
    Rounds (List.replicate 20 0) .full State.init ms s ∧ s.offset = 20 ∧
      (∀ m ∈ ms, m.Genuine (List.replicate 20 0)) ∧ ms.flatMap Move.positions = List.range 20 := by
  obtain ⟨hgenuine, hends⟩ := emitted_matches_genuine (List.replicate 20 0) (by decide) .full
  obtain ⟨ms, s, hrounds, hoffset, -⟩ := hends (by decide)
  obtain ⟨hall, hpositions⟩ := hgenuine ms s hrounds
  rw [hoffset] at hpositions
  exact ⟨ms, s, hrounds, hoffset, hall, hpositions⟩

end KernelModel.Compressor
