import KernelModel.DecompressorSpec

/-!
The round trip.

Segment by segment the decompressor extends a prefix of the data in the output buffer, and it
returns when the compressed bytes are used up.
-/

namespace KernelModel.Decompressor

open Compressor

/-- Where the buffers lie: the compressed bytes do not cross the middle of the address space,
where signed comparisons would turn around, and are apart from the output with its slack. -/
structure Placed (src clen out len : ℕ) : Prop where
  half : src + clen < 2 ^ 63 ∨ 2 ^ 63 ≤ src ∧ src + clen < 2 ^ 64
  out_le : out + len + 7 ≤ 2 ^ 64
  apart : src + clen ≤ out ∨ out + len + 7 ≤ src

lemma Placed.signed_lt {src clen out len : ℕ} (h : Placed src clen out len) {x y : ℕ}
    (hx : src ≤ x) (hx' : x ≤ src + clen) (hy : src ≤ y) (hy' : y ≤ src + clen) :
    signed x < signed y ↔ x < y := by
  rw [signed, signed]
  rcases h.half with hh | ⟨hh, hh'⟩
  · rw [if_pos (by omega), if_pos (by omega)]
    omega
  · rw [if_neg (by omega), if_neg (by omega)]
    omega

section

variable {data : List UInt8} {src clen out : ℕ}

/-- The decompressor between two segments: the data below offset `p` is in the output buffer,
and the bytes `bs` are left. -/
structure Decoding (data : List UInt8) (m₀ : Memory) (src clen out p : ℕ) (bs : List UInt8)
    (s : Cpu) : Prop where
  label : s.label = if bs.length = 0 then .ret else .processNextHeader
  rdx : s.rdx = out + p
  rsi : s.rsi = src + clen
  rdi : s.rdi + bs.length = src + clen
  src_le : src ≤ s.rdi
  loaded : Loaded s.mem s.rdi bs
  decoded : ∀ i < p, s.mem (out + i) = byte data i
  same : SameOutside out data.length m₀ s.mem

/-- From the header of a segment of `n` bytes to the end of its copy. -/
lemma Decoding.copy_run {m₀ : Memory} {p n : ℕ} {b bs : List UInt8} {s t : Cpu}
    (hp : Placed src clen out data.length) (h : Decoding data m₀ src clen out p (b ++ bs) s)
    (hpos : 0 < n) (hn : n < 2 ^ 62) (hle : p + n ≤ data.length) {a : ℕ}
    (ht : AtChunk s t n a (s.rdi + b.length))
    (hs : Supplies s.mem a (out + p) n (fun i => byte data (p + i))) :
    ∃ u, Reaches t u ∧ Decoding data m₀ src clen out (p + n) bs u := by
  have hout := hp.out_le
  have hrdi := h.rdi
  rw [List.length_append] at hrdi
  obtain ⟨v, hreach, hv⟩ := processChunk_done hs (by omega) hpos hn ht.label (ht.rdx.trans h.rdx)
    ht.rcx (by rw [ht.r8]) ht.mem
  have hstep : step v = skipCopy v := by
    rw [step, hv.label]
  have hvrdi : v.rdi = s.rdi + b.length := hv.rdi.trans ht.rdi
  have hvrsi : v.rsi = src + clen := hv.rsi.trans (ht.rsi.trans h.rsi)
  have hsrc := h.src_le
  refine ⟨step v, hreach.trans (Reaches.single v), ?_⟩
  rw [hstep]
  refine ⟨?_, ?_, hvrsi, ?_, ?_, ?_, ?_, ?_⟩
  · have hiff := hp.signed_lt (x := v.rdi) (y := v.rsi) (by omega) (by omega) (by omega) (by omega)
    simp only [skipCopy]
    by_cases hbs : bs.length = 0
    · rw [if_neg (by rw [hiff]; omega), if_pos hbs]
    · rw [if_pos (by rw [hiff]; omega), if_neg hbs]
  · have := hv.rdx
    simp only [skipCopy, add64]
    omega
  · simp only [skipCopy]
    omega
  · simp only [skipCopy]
    omega
  · -- the compressed bytes lie outside of what the copy writes
    intro i hi
    have happart := hp.apart
    have hhalf := hp.half
    have hload := h.loaded.right i hi
    simp only [skipCopy, hvrdi]
    rw [hv.copied.same _ (by omega) (by omega), hload]
  · intro i hi
    simp only [skipCopy]
    by_cases hip : i < p
    · rw [hv.copied.same _ (by omega) (by omega), h.decoded i hip]
    · have := hv.copied.bytes (i - p) (by omega) (by omega)
      rwa [add_assoc, Nat.add_sub_cancel' (by omega)] at this
  · intro x hx hxo
    simp only [skipCopy]
    rw [hv.copied.same x hx (by omega), h.same x hx hxo]

lemma getD_slice {p n i : ℕ} (hi : i < n) : (slice data p n).getD i 0 = byte data (p + i) := by
  simp [slice, byte, List.getD_eq_getElem?_getD, hi]

/-- Literal bytes are supplied by the input, which the copy does not change. -/
lemma literal_supplies {m₀ : Memory} {dst n a p : ℕ} (ha : a + n < 2 ^ 64)
    (hload : ∀ i < n, m₀ (a + i) = byte data (p + i))
    (happart : a + n ≤ dst ∨ dst + n + 7 ≤ a) :
    Supplies m₀ a dst n (fun i => byte data (p + i)) := by
  intro m k hc i _ _ hin
  rw [Nat.mod_eq_of_lt (by omega), hc.same _ (by omega) (by omega), hload i hin]

/-- A match is supplied by the output: what is far enough back has been written already. -/
lemma copy_supplies {m₀ : Memory} {n o p : ℕ} (h8 : 8 ≤ o) (hop : o ≤ p)
    (hout : out + p + n + 7 ≤ 2 ^ 64) (hdec : ∀ i < p, m₀ (out + i) = byte data i)
    (hrep : Repeats data p n o) :
    Supplies m₀ (sub64 (out + p) o) (out + p) n (fun i => byte data (p + i)) := by
  have hsub : sub64 (out + p) o = out + (p - o) := by
    rw [sub64]
    omega
  intro m k hc i hk hk8 hin
  dsimp only
  rw [hsub, Nat.mod_eq_of_lt (by omega), hrep i hin]
  by_cases hio : i < o
  · rw [hc.same _ (by omega) (by omega), add_assoc, hdec _ (by omega)]
  · have hb := hc.bytes (i - o) (by omega) (by omega)
    rw [show out + (p - o) + i = out + p + (i - o) by omega, hb]
    congr 1
    omega

lemma Decoding.segment {m₀ : Memory} {p q : ℕ} {b bs : List UInt8} {s : Cpu}
    (hp : Placed src clen out data.length) (hb : Segment data p q b)
    (h : Decoding data m₀ src clen out p (b ++ bs) s) :
    ∃ t, Reaches s t ∧ Decoding data m₀ src clen out q bs t := by
  have hout := hp.out_le
  have hhalf := hp.half
  have hrdi := h.rdi
  have hsrc := h.src_le
  have hlabel := h.label
  rw [List.length_append] at hrdi hlabel
  cases hb with
  | literal hpos hmax hle =>
    rename_i n
    have hlen : (slice data p n).length = n := by
      rw [slice, List.length_take, List.length_drop]
      omega
    rw [List.length_append, hlen] at hrdi hlabel
    rw [if_neg (by omega)] at hlabel
    have hload := h.loaded.left
    have hmax' : maxNonMatchLength = 16383 := rfl
    obtain ⟨t, hreach, ht⟩ := literal_atChunk hlabel hmax hload.left (by omega)
    have hs : Supplies s.mem (s.rdi + (encodeNonMatch n).length) (out + p) n
        (fun i => byte data (p + i)) := by
      refine literal_supplies (by omega) (fun i hi => ?_) (by have := hp.apart; omega)
      rw [hload.right i (by omega), getD_slice hi]
    rw [add_assoc, ← hlen, ← List.length_append, hlen] at ht
    obtain ⟨u, hreach', hu⟩ := h.copy_run hp hpos (by omega) hle ht hs
    exact ⟨u, hreach.trans hreach', hu⟩
  | copy hpos hmax h8 ho hop hle hrep =>
    rename_i n o
    have hlen : (encodedMatch n o).length = 3 := rfl
    have hm : minMatchLength = 4 := rfl
    have hmax' : maxMatchLength = 8191 := rfl
    rw [if_neg (by omega)] at hlabel
    obtain ⟨t, hreach, ht⟩ := copy_atChunk hlabel hmax ho h.loaded.left (by omega)
    rw [h.rdx] at ht
    have hs := copy_supplies h8 hop (by omega) h.decoded hrep
    obtain ⟨u, hreach', hu⟩ := h.copy_run hp (by omega) (by omega) hle ht hs
    exact ⟨u, hreach.trans hreach', hu⟩

lemma Decoding.coded {m₀ : Memory} {p q : ℕ} {bs : List UInt8}
    (hp : Placed src clen out data.length) (hbs : Coded data p q bs) :
    ∀ {s : Cpu}, Decoding data m₀ src clen out p bs s →
      ∃ t, Reaches s t ∧ Decoding data m₀ src clen out q [] t := by
  induction hbs with
  | nil p => exact fun h => ⟨_, Reaches.refl _, h⟩
  | cons hb _ ih =>
    intro s h
    obtain ⟨t, hreach, ht⟩ := h.segment hp hb
    obtain ⟨u, hreach', hu⟩ := ih ht
    exact ⟨u, hreach.trans hreach', hu⟩

end

/-- **Round trip.** For every level the compressor ends, and wherever its output lies in memory,
the decompressor returns with the data in the output buffer and nothing changed outside of
the buffer and its seven bytes of slack. -/
theorem decompress_compress (data : List UInt8) (hlen : data.length < 2 ^ 32) (level : Level) :
    ∃ bytes, compressorCompress data level = some bytes ∧
      ∀ (m : Memory) (src out rax rcx r8 r9 : ℕ), Loaded m src bytes →
        Placed src bytes.length out data.length →
        ∃ t, Reaches (compressorDecompress src bytes.length out m rax rcx r8 r9) t ∧
          t.label = .ret ∧ (∀ i < data.length, t.mem (out + i) = byte data i) ∧
          SameOutside out data.length m t.mem := by
  obtain ⟨bytes, hcompress, hcoded⟩ := compressorCompress_spec data hlen level
  refine ⟨bytes, hcompress, fun m src out rax rcx r8 r9 hload hp => ?_⟩
  have hhalf := hp.half
  have hrsi : add64 bytes.length src = src + bytes.length := by
    rw [add64]
    omega
  have hiff := hp.signed_lt (x := src) (y := src + bytes.length) le_rfl (by omega) (by omega) le_rfl
  have hstart : Decoding data m src bytes.length out 0 bytes
      (compressorDecompress src bytes.length out m rax rcx r8 r9) := by
    refine ⟨?_, rfl, hrsi, rfl, le_rfl, hload, fun i hi => by omega, fun _ _ _ => rfl⟩
    simp only [compressorDecompress, hrsi]
    by_cases hzero : bytes.length = 0
    · rw [if_pos (not_lt.mp (by rw [hiff]; omega)), if_pos hzero]
    · rw [if_neg (not_le.mpr (hiff.mpr (by omega))), if_neg hzero]
  obtain ⟨t, hreach, ht⟩ := hstart.coded hp hcoded
  exact ⟨t, hreach, ht.label, ht.decoded, ht.same⟩

/-- Eight literal bytes and a match of twelve, decoded to an address that is not aligned. -/
theorem decompress_twenty_bytes :
    compressorCompress (List.replicate 20 5) .fast
        = some [32, 5, 5, 5, 5, 5, 5, 5, 5, 25, 0, 2] ∧
      ∃ t, Reaches (compressorDecompress 64 12 131
          (fun a => [32, 5, 5, 5, 5, 5, 5, 5, 5, 25, 0, 2].getD (a - 64) 0) 0 0 0 0) t ∧
        t.label = .ret ∧ ∀ i < 20, t.mem (131 + i) = byte (List.replicate 20 5) i := by
  have hbytes : compressorCompress (List.replicate 20 5) .fast
      = some [32, 5, 5, 5, 5, 5, 5, 5, 5, 25, 0, 2] := by decide +kernel
  refine ⟨hbytes, ?_⟩
  obtain ⟨bytes, hcompress, h⟩ := decompress_compress (List.replicate 20 5) (by simp) .fast
  obtain rfl := Option.some.inj (hbytes.symm.trans hcompress)
  obtain ⟨t, hreach, hret, hdata, -⟩ := h
    (fun a => [32, 5, 5, 5, 5, 5, 5, 5, 5, 25, 0, 2].getD (a - 64) 0) 64 131 0 0 0 0
    (fun i _ => by simp) ⟨.inl (by simp), by simp, .inl (by simp)⟩
  exact ⟨t, hreach, hret, fun i hi => hdata i (by simpa using hi)⟩

end KernelModel.Decompressor
