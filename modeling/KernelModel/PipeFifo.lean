import KernelModel.Pipe

/-!
A pipe is a queue of bytes.
-/

namespace KernelModel.Pipes

open Circular

/-- The pipe holds the bytes `L`, oldest first. -/
structure Contents (pipe : Pipe) (L : List UInt8) : Prop where
  read_lt : pipe.readOffset < pipeBufferSize
  length_le : L.length ≤ pipeBufferSize
  window_eq : window pipeBufferSize pipe.buffer pipe.readOffset L.length = L
  write_eq : pipe.writeOffset = (pipe.readOffset + L.length) % pipeBufferSize
  full_iff : pipe.isFull = true ↔ L.length = pipeBufferSize
  not_closed : pipe.isClosed = false

lemma and_mask (a : ℕ) : a &&& (pipeBufferSize - 1) = a % pipeBufferSize :=
  Nat.and_two_pow_sub_one_eq_mod a 20

variable {pipe : Pipe} {L : List UInt8}

namespace Contents

variable (h : Contents pipe L)

include h

lemma write_lt : pipe.writeOffset < pipeBufferSize := by
  rw [h.write_eq]
  exact Nat.mod_lt _ (by norm_num [pipeBufferSize])

lemma sub_mask : ((pipe.writeOffset + 2 ^ 32 - pipe.readOffset) % 2 ^ 32) &&& (pipeBufferSize - 1)
    = L.length % pipeBufferSize := by
  have hr := h.read_lt
  have hw := h.write_lt
  have hl := h.length_le
  have heq := h.write_eq
  rw [and_mask]
  simp only [pipeBufferSize] at *
  omega

lemma sub_mask' : ((pipe.readOffset + 2 ^ 32 - pipe.writeOffset) % 2 ^ 32) &&& (pipeBufferSize - 1)
    = (pipeBufferSize - L.length) % pipeBufferSize := by
  have hr := h.read_lt
  have hw := h.write_lt
  have hl := h.length_le
  have heq := h.write_eq
  rw [and_mask]
  simp only [pipeBufferSize] at *
  omega

lemma unread_eq : unread pipe = L.length := by
  rw [unread, h.sub_mask]
  have hl := h.length_le
  by_cases hf : pipe.isFull = true
  · rw [if_pos hf, h.full_iff.mp hf]
  · rw [if_neg hf, Nat.mod_eq_of_lt]
    have := mt h.full_iff.mpr hf
    omega

lemma empty_iff : (!pipe.isFull ∧ pipe.writeOffset = pipe.readOffset) ↔ L = [] := by
  have hr := h.read_lt
  have hl := h.length_le
  have heq := h.write_eq
  rw [Bool.not_eq_true', Bool.eq_false_iff, Ne, h.full_iff, ← List.length_eq_zero_iff]
  simp only [pipeBufferSize] at *
  omega

lemma maxSize_read (hL : L ≠ []) : maxSize pipe.writeOffset pipe.readOffset = L.length := by
  have hl := h.length_le
  have hpos := List.length_pos_iff.mpr hL
  rw [maxSize, h.sub_mask]
  by_cases h0 : L.length % pipeBufferSize = 0
  · simp only [if_pos h0]
    simp only [pipeBufferSize] at *
    omega
  · simp only [if_neg h0]
    simp only [pipeBufferSize] at *
    omega

lemma maxSize_write (hf : pipe.isFull = false) :
    maxSize pipe.readOffset pipe.writeOffset = pipeBufferSize - L.length := by
  have hl := h.length_le
  have hne : L.length ≠ pipeBufferSize := fun he => by simp [h.full_iff.mpr he] at hf
  rw [maxSize, h.sub_mask']
  by_cases h0 : (pipeBufferSize - L.length) % pipeBufferSize = 0
  · simp only [if_pos h0]
    simp only [pipeBufferSize] at *
    omega
  · simp only [if_neg h0]
    simp only [pipeBufferSize] at *
    omega

end Contents

/-! ### Reading -/

lemma read_pieces (buf : ℕ → UInt8) {i n : ℕ} (hi : i < pipeBufferSize) (hn : n ≤ pipeBufferSize) :
    (let chunk := if pipeBufferSize - i > n then n else pipeBufferSize - i
     if n > chunk then slice buf i chunk ++ slice buf 0 (n - chunk) else slice buf i chunk)
      = window pipeBufferSize buf i n := by
  have hchunk : (if pipeBufferSize - i > n then n else pipeBufferSize - i)
      = min (pipeBufferSize - i) n := by
    split <;> omega
  simp only [hchunk]
  rw [← slice_append_slice buf hi rfl hn]
  split
  · rfl
  · rw [show n - min (pipeBufferSize - i) n = 0 by omega]
    simp [slice]

lemma Contents.pipeRead_eq (h : Contents pipe L) (hL : L ≠ []) (size : ℕ)
    (nonblocking peek : Bool) : pipeRead pipe size nonblocking peek =
      some (L.take size, if peek then pipe else
        { pipe with readOffset := (pipe.readOffset + min size L.length) % pipeBufferSize
                    isFull := false }) := by
  have hlen := h.length_le
  have hmin : (if size > L.length then L.length else size) = min size L.length := by
    split <;> omega
  have hdata := read_pieces pipe.buffer h.read_lt
    (le_trans (min_le_right size L.length) hlen)
  have hwin : window pipeBufferSize pipe.buffer pipe.readOffset (min size L.length)
      = L.take size := by
    rw [← take_window, h.window_eq]
  rw [pipeRead, if_neg (mt h.empty_iff.mp hL)]
  simp only [h.maxSize_read hL, hmin, and_mask]
  rw [hwin] at hdata
  simp only at hdata
  rw [hdata]
  cases peek <;> rfl

lemma Contents.after_read (h : Contents pipe L) (hL : L ≠ []) {size : ℕ} (hsize : size ≠ 0) :
    Contents { pipe with readOffset := (pipe.readOffset + min size L.length) % pipeBufferSize
                         isFull := false } (L.drop size) := by
  have hlen := h.length_le
  have hpos := List.length_pos_iff.mpr hL
  have hdrop : L.drop size = L.drop (min size L.length) := by
    rcases Nat.le_total size L.length with hle | hle
    · rw [min_eq_left hle]
    · rw [min_eq_right hle, List.drop_of_length_le hle, List.drop_length]
  refine ⟨Nat.mod_lt _ (by norm_num [pipeBufferSize]), ?_, ?_, ?_, ?_, h.not_closed⟩
  · simp only [List.length_drop]
    omega
  · rw [hdrop, List.length_drop, ← drop_window _ _ (min_le_right _ _), h.window_eq]
  · rw [hdrop, List.length_drop, h.write_eq]
    simp only [Nat.mod_add_mod]
    congr 1
    omega
  · simp only [Bool.false_eq_true, false_iff, List.length_drop]
    omega

/-! ### Writing -/

lemma write_pieces (buf : ℕ → UInt8) (i n : ℕ) (data : List UInt8) :
    (let chunk := if pipeBufferSize - i > n then n else pipeBufferSize - i
     let buf := blit buf i (data.take chunk)
     if n > chunk then blit buf 0 ((data.drop chunk).take (n - chunk)) else buf)
      = put pipeBufferSize buf i (data.take n) := by
  have hchunk : (if pipeBufferSize - i > n then n else pipeBufferSize - i)
      = min (pipeBufferSize - i) n := by
    split <;> omega
  simp only [hchunk]
  rw [← blit_blit_eq_put buf data rfl]
  split
  · rfl
  · rw [show n - min (pipeBufferSize - i) n = 0 by omega, List.take_zero, blit_nil]

lemma Contents.pipeWrite_eq (h : Contents pipe L) (hf : pipe.isFull = false) (data : List UInt8)
    (nonblocking : Bool) {n : ℕ} (hn : n = min data.length (pipeBufferSize - L.length)) :
    pipeWrite pipe data nonblocking = some (n,
      { pipe with buffer := put pipeBufferSize pipe.buffer pipe.writeOffset (data.take n)
                  writeOffset := (pipe.writeOffset + n) % pipeBufferSize
                  isFull := (pipe.writeOffset + n) % pipeBufferSize = pipe.readOffset }) := by
  have hmin : (if data.length > pipeBufferSize - L.length then pipeBufferSize - L.length
      else data.length) = n := by
    split <;> omega
  have hdata := write_pieces pipe.buffer pipe.writeOffset n data
  rw [pipeWrite, if_neg (by simp [h.not_closed]), if_neg (by simp [hf])]
  simp only [h.maxSize_write hf, hmin, and_mask]
  simp only at hdata
  rw [hdata]

lemma Contents.after_write (h : Contents pipe L) (hf : pipe.isFull = false) {data : List UInt8}
    (hdata : data ≠ []) {n : ℕ} (hn : n = min data.length (pipeBufferSize - L.length)) :
    Contents { pipe with buffer := put pipeBufferSize pipe.buffer pipe.writeOffset (data.take n)
                         writeOffset := (pipe.writeOffset + n) % pipeBufferSize
                         isFull := (pipe.writeOffset + n) % pipeBufferSize = pipe.readOffset }
      (L ++ data.take n) := by
  have hlen := h.length_le
  have hr := h.read_lt
  have hpos := List.length_pos_iff.mpr hdata
  have hne : L.length ≠ pipeBufferSize := fun he => by simp [h.full_iff.mpr he] at hf
  have htake : (data.take n).length = n := by
    rw [List.length_take]
    omega
  refine ⟨hr, ?_, ?_, ?_, ?_, h.not_closed⟩
  · rw [List.length_append, htake]
    omega
  · have hold : (data.take n).length ≤ pipeBufferSize := by omega
    have hroom : L.length + (data.take n).length ≤ pipeBufferSize := by omega
    rw [List.length_append, window_add, window_put_of_before h.write_lt h.write_eq.symm hroom,
      h.window_eq, ← h.write_eq, window_put h.write_lt hold]
  · rw [List.length_append, htake]
    simp only [h.write_eq, Nat.mod_add_mod, Nat.add_assoc]
  · rw [List.length_append, htake, decide_eq_true_eq, h.write_eq, Nat.mod_add_mod]
    simp only [pipeBufferSize] at *
    omega

/-! ### Runs -/

/-- The bytes that a call moves. -/
def transferred (pipe : Pipe) : Op → ℕ
  | .read size nonblocking =>
    match vfsNodeRead pipe size nonblocking false with
    | none => 0
    | some (data, _) => data.length
  | .peek size nonblocking =>
    match vfsNodeRead pipe size nonblocking true with
    | none => 0
    | some (data, _) => data.length
  | .write data nonblocking =>
    match vfsNodeWrite pipe data nonblocking with
    | none => 0
    | some (size, _) => size

/-- The least of what is asked for and of what there is, or of the room there is. -/
def expected (pipe : Pipe) : Op → ℕ
  | .read size _ => min size (unread pipe)
  | .peek size _ => min size (unread pipe)
  | .write data _ => min data.length (pipeBufferSize - unread pipe)

/-- Nothing is lost or repeated: what was taken out, and then what is in the pipe, is what was
put in. -/
def Trace.Good (t : Trace) : Prop :=
  ∃ L, Contents t.pipe L ∧ t.accepted = t.delivered ++ L

lemma Contents.vfsNodeRead_cases (h : Contents pipe L) (size : ℕ) (nonblocking peek : Bool) :
    (vfsNodeRead pipe size nonblocking peek = none ∧ L = []) ∨
    ∃ pipe', vfsNodeRead pipe size nonblocking peek = some (L.take size, pipe') ∧
      Contents pipe' (if peek then L else L.drop size) ∧ (peek = true → pipe' = pipe) := by
  by_cases hsize : size = 0
  · subst hsize
    refine .inr ⟨pipe, by simp [vfsNodeRead], ?_, fun _ => rfl⟩
    simpa using h
  rw [vfsNodeRead, if_neg hsize]
  by_cases hL : L = []
  · subst hL
    rw [pipeRead, if_pos (h.empty_iff.mpr rfl), if_neg (by simp [h.not_closed])]
    cases nonblocking
    · exact .inl ⟨rfl, rfl⟩
    · exact .inr ⟨pipe, by simp, by simpa using h, fun _ => rfl⟩
  · refine .inr ⟨_, h.pipeRead_eq hL size nonblocking peek, ?_, fun hp => by simp [hp]⟩
    cases peek
    · exact h.after_read hL hsize
    · exact h

lemma Contents.vfsNodeWrite_cases (h : Contents pipe L) (data : List UInt8) (nonblocking : Bool) :
    (vfsNodeWrite pipe data nonblocking = none ∧ L.length = pipeBufferSize) ∨
    ∃ n pipe', vfsNodeWrite pipe data nonblocking = some (n, pipe') ∧
      n = min data.length (pipeBufferSize - L.length) ∧ Contents pipe' (L ++ data.take n) := by
  by_cases hdata : data = []
  · subst hdata
    exact .inr ⟨0, pipe, by simp [vfsNodeWrite], by simp, by simpa using h⟩
  rw [vfsNodeWrite, if_neg (by simpa using hdata)]
  by_cases hf : pipe.isFull = true
  · have hlen := h.full_iff.mp hf
    rw [pipeWrite, if_neg (by simp [h.not_closed]), if_pos hf]
    cases nonblocking
    · exact .inl ⟨rfl, hlen⟩
    · exact .inr ⟨0, pipe, rfl, by rw [hlen]; simp, by simpa using h⟩
  · rw [Bool.not_eq_true] at hf
    exact .inr ⟨_, _, h.pipeWrite_eq hf data nonblocking rfl, rfl, h.after_write hf hdata rfl⟩

lemma Trace.Good.step {t : Trace} (h : t.Good) (o : Op) : (t.step o).Good := by
  obtain ⟨L, hc, heq⟩ := h
  cases o with
  | read size nonblocking =>
    rcases hc.vfsNodeRead_cases size nonblocking false with ⟨hr, -⟩ | ⟨pipe', hr, hc', -⟩
    · simp only [Trace.step, hr]
      exact ⟨L, hc, heq⟩
    · simp only [Trace.step, hr]
      refine ⟨_, hc', ?_⟩
      simp [heq]
  | peek size nonblocking =>
    rcases hc.vfsNodeRead_cases size nonblocking true with ⟨hr, -⟩ | ⟨pipe', hr, hc', -⟩
    · simp only [Trace.step, hr]
      exact ⟨L, hc, heq⟩
    · simp only [Trace.step, hr]
      exact ⟨L, hc', heq⟩
  | write data nonblocking =>
    rcases hc.vfsNodeWrite_cases data nonblocking with ⟨hr, -⟩ | ⟨n, pipe', hr, -, hc'⟩
    · simp only [Trace.step, hr]
      exact ⟨L, hc, heq⟩
    · simp only [Trace.step, hr]
      exact ⟨_, hc', by simp [heq]⟩

lemma good_init (buffer : ℕ → UInt8) : (Trace.init buffer).Good := by
  refine ⟨[], ⟨?_, ?_, ?_, ?_, ?_, rfl⟩, rfl⟩ <;>
    simp [Trace.init, pipeCreate, pipeBufferSize, window]

lemma Trace.Good.run {t : Trace} (h : t.Good) (ops : List Op) : (t.run ops).Good := by
  induction ops generalizing t with
  | nil => exact h
  | cons o ops ih => exact ih (h.step o)

lemma Contents.transferred_eq (h : Contents pipe L) (o : Op) :
    transferred pipe o = expected pipe o := by
  cases o with
  | read size nonblocking =>
    rcases h.vfsNodeRead_cases size nonblocking false with ⟨hr, hL⟩ | ⟨pipe', hr, -, -⟩
    · simp [transferred, expected, hr, h.unread_eq, hL]
    · simp [transferred, expected, hr, h.unread_eq]
  | peek size nonblocking =>
    rcases h.vfsNodeRead_cases size nonblocking true with ⟨hr, hL⟩ | ⟨pipe', hr, -, -⟩
    · simp [transferred, expected, hr, h.unread_eq, hL]
    · simp [transferred, expected, hr, h.unread_eq]
  | write data nonblocking =>
    rcases h.vfsNodeWrite_cases data nonblocking with ⟨hr, hL⟩ | ⟨n, pipe', hr, hn, -⟩
    · simp [transferred, expected, hr, h.unread_eq, hL]
    · simp [transferred, expected, hr, h.unread_eq, hn]

lemma Contents.peek_eq {t : Trace} (h : Contents t.pipe L) (size : ℕ) (nonblocking : Bool) :
    t.step (.peek size nonblocking) = t := by
  rcases h.vfsNodeRead_cases size nonblocking true with ⟨hr, -⟩ | ⟨pipe', hr, -, hp⟩
  · simp only [Trace.step, hr]
  · simp only [Trace.step, hr, hp rfl]

/-- **A pipe is a queue of bytes.** After every sequence of reads, peeks and writes the bytes read
are a prefix of the bytes written, the offsets and the flag give the number of unread bytes, which
fit into the buffer, every further call moves as much as it can, and a peek changes nothing. -/
theorem pipe_fifo (buffer : ℕ → UInt8) (ops : List Op) :
    let t := (Trace.init buffer).run ops
    t.delivered <+: t.accepted ∧ unread t.pipe = t.accepted.length - t.delivered.length ∧
      unread t.pipe ≤ pipeBufferSize ∧ (∀ o, transferred t.pipe o = expected t.pipe o) ∧
      ∀ size nonblocking, t.step (.peek size nonblocking) = t := by
  intro t
  obtain ⟨L, hc, heq⟩ := (good_init buffer).run ops
  refine ⟨⟨L, heq.symm⟩, ?_, ?_, hc.transferred_eq, hc.peek_eq⟩
  · rw [hc.unread_eq, heq, List.length_append, Nat.add_sub_cancel_left]
  · rw [hc.unread_eq]
    exact hc.length_le

end KernelModel.Pipes
