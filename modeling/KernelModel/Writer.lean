import KernelModel.Amm
import KernelModel.Blocks

/-!
The buffered writer.

What is appended is collected in a buffer, and goes to a file or to a block of memory when the
buffer is full, when it is flushed, and at the end. Each time the target is made larger first.
-/

namespace KernelModel.Writers

open Amm

/-- `WRITER_BUFFER_SIZE` -/
def writerBufferSize : ℕ := 2097152

/-! ### Targets -/

/-- `vfs_node_resize`, whose size is a signed number of 64 bits; the file systems take zero for a
negative one. -/
def vfsNodeResize (content : List UInt8) (size : ℕ) : List UInt8 :=
  if size < 2 ^ 63 then content.take size ++ List.replicate (size - content.length) 0 else []

/-- `vfs_node_write`: the bytes that are inside of the file are written. -/
def vfsNodeWrite (content : List UInt8) (offset : ℕ) (data : List UInt8) : List UInt8 :=
  content.take offset ++ data.take (content.length - offset) ++ content.drop (offset + data.length)

/-- `amm_realloc` -/
def ammRealloc (heap : ℕ → UInt8) (ptr : Option Allocation) (length : ℕ) :
    Option (Option Allocation) :=
  match ptr with
  | none => alloc heap length
  | some a =>
    if length = 0 then some none
    else if sizeToIndex (length + headerSize) = a.index then some (some a)
    else
      let currentLength := indexToSize a.index - headerSize
      (alloc heap length).map fun out => out.map fun out =>
        { out with data := fun i =>
            if i < (if length < currentLength then length else currentLength) then a.data i
            else out.data i }

inductive Target
  | file (content : List UInt8)
  | memory (buffer : Option Allocation)

/-- The target after `data` was written behind the first `offset` bytes, for a size of `size`.
Nothing is written behind the bytes that memory was allocated for. -/
def Target.emit (heap : ℕ → UInt8) (target : Target) (size offset : ℕ) (data : List UInt8) :
    Option Target :=
  match target with
  | .file content => some (.file (vfsNodeWrite (vfsNodeResize content size) offset data))
  | .memory buffer =>
    (ammRealloc heap buffer (size % 2 ^ 32)).bind fun buffer =>
    buffer.bind fun a =>
    (Block.copyInto ⟨size % 2 ^ 32, a.data⟩ offset data).map fun b =>
      .memory (some { a with data := b.data })

/-! ### The writer -/

structure Writer where
  target : Target
  buffer : Block UInt8
  offset : ℕ
  size : ℕ

/-- `writer_init`; `region` is what the pages of the buffer hold. -/
def writerInit (target : Target) (region : ℕ → UInt8) : Writer where
  target := target
  buffer := ⟨writerBufferSize, region⟩
  offset := 0
  size := 0

def emitData (heap : ℕ → UInt8) (w : Writer) (data : List UInt8) : Option Writer :=
  let size := (w.size + data.length) % 2 ^ 64
  (w.target.emit heap size ((size + 2 ^ 64 - data.length % 2 ^ 64) % 2 ^ 64) data).map fun target =>
    { w with target := target, size := size }

def writerFlush (heap : ℕ → UInt8) (w : Writer) : Option Writer :=
  if w.offset ≠ 0 then
    (emitData heap w (w.buffer.text w.offset)).map fun w => { w with offset := 0 }
  else some w

/-- The part of `writer_append` behind a full buffer; `length&(-WRITER_BUFFER_SIZE)` bytes of what
is left need not be copied. -/
def appendRest (heap : ℕ → UInt8) (w : Writer) (data : List UInt8) : Option Writer := do
  let w ← emitData heap w (w.buffer.text writerBufferSize)
  let (w, data) ←
    if data.length ≥ writerBufferSize then
      let space := data.length / writerBufferSize * writerBufferSize
      (emitData heap w (data.take space)).map (·, data.drop space)
    else some (w, data)
  let buffer ← w.buffer.copyInto 0 data
  some { w with buffer := buffer, offset := data.length }

def writerAppend (heap : ℕ → UInt8) (w : Writer) (data : List UInt8) : Option Writer :=
  if data.length = 0 then some w
  else do
    let space := min (writerBufferSize - w.offset) data.length
    let buffer ← w.buffer.copyInto w.offset (data.take space)
    let w := { w with buffer := buffer, offset := w.offset + space }
    if w.offset < writerBufferSize then some w else appendRest heap w (data.drop space)

/-- `writer_deinit`: what the target holds in the end, and the length that is returned. -/
def writerDeinit (heap : ℕ → UInt8) (w : Writer) : Option (Target × ℕ) :=
  (if w.offset ≠ 0 then emitData heap w (w.buffer.text w.offset) else some w).map fun w =>
    (w.target, w.size)

inductive Call
  | append (data : List UInt8) (length_lt : data.length < 2 ^ 64)
  | flush

def Call.data : Call → List UInt8
  | .append data _ => data
  | .flush => []

def call (heap : ℕ → UInt8) (w : Writer) : Call → Option Writer
  | .append data _ => writerAppend heap w data
  | .flush => writerFlush heap w

/-- A writer over its whole life. -/
def write (heap region : ℕ → UInt8) (target : Target) (calls : List Call) :
    Option (Target × ℕ) :=
  (calls.foldlM (call heap) (writerInit target region)).bind (writerDeinit heap)

/-- What was appended, in order. -/
def appended (calls : List Call) : List UInt8 := calls.flatMap Call.data

/-! ### What is delivered -/

/-- A computation comes to a state with `P`, or it has no result and `n` bytes are too many. -/
def Ends {α : Type*} (Fits : ℕ → Prop) (n : ℕ) (P : α → Prop) (x : Option α) : Prop :=
  (∃ a, x = some a ∧ P a) ∨ (x = none ∧ ¬Fits n)

/-- What a kind of target holds after some bytes were written, and how many it has room for. -/
structure Sink (heap : ℕ → UInt8) (I : List UInt8 → Target → Prop) (Fits : ℕ → Prop) : Prop where
  emit : ∀ out target data, data ≠ [] → I out target →
    Ends Fits (out ++ data).length (I (out ++ data))
      (target.emit heap ((out ++ data).length % 2 ^ 64) (out.length % 2 ^ 64) data)
  fits_le : ∀ m n, m ≤ n → Fits n → Fits m

section

variable {heap : ℕ → UInt8} {I : List UInt8 → Target → Prop} {Fits : ℕ → Prop}
variable {α β : Type*} {P : α → Prop} {Q : β → Prop} {n m : ℕ}

lemma ends_some {a : α} (h : P a) : Ends Fits n P (some a) := .inl ⟨a, rfl, h⟩

lemma Ends.bind {x : Option α} {f : α → Option β} (h : Ends Fits m P x)
    (hle : ¬Fits m → ¬Fits n) (hf : ∀ a, P a → Ends Fits n Q (f a)) : Ends Fits n Q (x.bind f) := by
  rcases h with ⟨a, rfl, ha⟩ | ⟨rfl, hnot⟩
  · exact hf a ha
  · exact .inr ⟨rfl, hle hnot⟩

lemma Ends.map {x : Option α} {f : α → β} (h : Ends Fits n P x) (hf : ∀ a, P a → Q (f a)) :
    Ends Fits n Q (x.map f) := by
  rcases h with ⟨a, rfl, ha⟩ | ⟨rfl, hnot⟩
  · exact .inl ⟨f a, rfl, hf a ha⟩
  · exact .inr ⟨rfl, hnot⟩

/-- The target holds `out`, and the writer counts it. -/
structure Emitted (I : List UInt8 → Target → Prop) (out : List UInt8) (w : Writer) : Prop where
  target : I out w.target
  size : w.size = out.length % 2 ^ 64
  buffer_size : w.buffer.size = writerBufferSize

/-- The target and the buffer together hold what was appended. -/
def Holds (I : List UInt8 → Target → Prop) (l : List UInt8) (w : Writer) : Prop :=
  w.offset < writerBufferSize ∧
    ∃ out, l = out ++ w.buffer.text w.offset ∧ Emitted I out w

variable {w : Writer} {out l data : List UInt8}

lemma emitData_ends (hs : Sink heap I Fits) (h : Emitted I out w) (hdata : data ≠ []) :
    Ends Fits (out ++ data).length (fun w' => Emitted I (out ++ data) w' ∧ w'.buffer = w.buffer)
      (emitData heap w data) := by
  have hsize : (w.size + data.length) % 2 ^ 64 = (out ++ data).length % 2 ^ 64 := by
    rw [h.size, List.length_append, Nat.mod_add_mod]
  have hoffset : ((out ++ data).length % 2 ^ 64 + 2 ^ 64 - data.length % 2 ^ 64) % 2 ^ 64 =
      out.length % 2 ^ 64 := by
    rw [List.length_append]
    omega
  rw [emitData]
  simp only [hsize, hoffset]
  exact (hs.emit out w.target data hdata h.target).map fun target ht =>
    ⟨⟨ht, rfl, h.buffer_size⟩, rfl⟩

lemma ne_nil_of_length {l : List UInt8} (h : 0 < l.length) : l ≠ [] := List.length_pos_iff.mp h

lemma emitPending_ends (hs : Sink heap I Fits) (h : Holds I l w) :
    Ends Fits l.length (fun w' => Emitted I l w')
      (if w.offset ≠ 0 then emitData heap w (w.buffer.text w.offset) else some w) := by
  obtain ⟨-, out, rfl, he⟩ := h
  split_ifs with hzero
  · have hpending : w.buffer.text w.offset ≠ [] :=
      ne_nil_of_length (by rw [Block.length_text]; omega)
    rcases emitData_ends hs he hpending with ⟨w', hw', hok⟩ | hnone
    · exact .inl ⟨w', hw', hok.1⟩
    · exact .inr hnone
  · rw [not_not.mp hzero]
    exact ends_some ((List.append_nil out).symm ▸ he)

lemma flush_ends (hs : Sink heap I Fits) (h : Holds I l w) :
    Ends Fits l.length (Holds I l) (writerFlush heap w) := by
  have hpending := emitPending_ends hs h
  rw [writerFlush]
  split_ifs at hpending ⊢ with hzero
  · refine hpending.map fun w' hw' =>
      ⟨(by decide : 0 < writerBufferSize), l, ?_, hw'.target, hw'.size, hw'.buffer_size⟩
    exact (List.append_nil l).symm
  · exact ends_some h

lemma copyRest_ends (he : Emitted I out w) {rest : List UInt8}
    (hrest : rest.length < writerBufferSize) :
    Ends Fits n (Holds I (out ++ rest)) ((w.buffer.copyInto 0 rest).bind fun buffer =>
      some { w with buffer := buffer, offset := rest.length }) := by
  obtain ⟨b, hb, hsize, htext⟩ := @Block.copyInto_text _ w.buffer rest 0 (by
    rw [he.buffer_size]
    omega)
  rw [Nat.zero_add] at htext
  rw [hb]
  refine ends_some ⟨hrest, out, ?_, he.target, he.size, hsize.trans he.buffer_size⟩
  exact congrArg (out ++ ·) htext.symm

lemma appendRest_ends (hs : Sink heap I Fits) (he : Emitted I out w) (rest : List UInt8) :
    Ends Fits (out ++ w.buffer.text writerBufferSize ++ rest).length
      (Holds I (out ++ w.buffer.text writerBufferSize ++ rest)) (appendRest heap w rest) := by
  have hshort : ∀ l : List UInt8, l.length ≤ rest.length →
      ¬Fits (out ++ w.buffer.text writerBufferSize ++ l).length →
      ¬Fits (out ++ w.buffer.text writerBufferSize ++ rest).length := by
    intro l hl hnot hfits
    refine hnot (hs.fits_le _ _ ?_ hfits)
    simp only [List.length_append]
    omega
  have hfull : w.buffer.text writerBufferSize ≠ [] :=
    ne_nil_of_length (by rw [Block.length_text]; decide)
  have hfirst := emitData_ends hs he hfull
  rw [← List.append_nil (out ++ w.buffer.text writerBufferSize)] at hfirst
  refine hfirst.bind (hshort [] (Nat.zero_le _)) fun w1 hw1 => ?_
  rw [List.append_nil] at hw1
  split_ifs with hlong
  · obtain ⟨space, hspace⟩ : ∃ space, rest.length / writerBufferSize * writerBufferSize = space :=
      ⟨_, rfl⟩
    have hpos : 0 < writerBufferSize := by decide
    have hdiv := Nat.div_add_mod rest.length writerBufferSize
    have hmod := Nat.mod_lt rest.length hpos
    have hone : 1 ≤ rest.length / writerBufferSize := (Nat.one_le_div_iff hpos).mpr hlong
    have hwhole := Nat.le_mul_of_pos_left writerBufferSize hone
    rw [Nat.mul_comm, hspace] at hdiv
    rw [hspace] at hwhole
    simp only [hspace, Option.bind_eq_bind, Option.bind_map]
    have htake : rest.take space ≠ [] :=
      ne_nil_of_length (by rw [List.length_take]; omega)
    refine (emitData_ends hs hw1.1 htake).bind
      (hshort _ (by rw [List.length_take]; exact Nat.min_le_right _ _)) fun w2 hw2 => ?_
    have hall : out ++ w.buffer.text writerBufferSize ++ rest =
        out ++ w.buffer.text writerBufferSize ++ rest.take space ++ rest.drop space := by
      rw [List.append_assoc _ (rest.take space), List.take_append_drop]
    rw [hall]
    exact copyRest_ends hw2.1 (by rw [List.length_drop]; omega)
  · exact copyRest_ends hw1.1 (Nat.lt_of_not_le hlong)

lemma append_ends (hs : Sink heap I Fits) (h : Holds I l w) (data : List UInt8) :
    Ends Fits (l ++ data).length (Holds I (l ++ data)) (writerAppend heap w data) := by
  rw [writerAppend]
  split_ifs with hzero
  · rw [List.length_eq_zero_iff.mp hzero, List.append_nil]
    exact ends_some h
  · obtain ⟨hlt, out, rfl, he⟩ := h
    have hlen : (data.take (min (writerBufferSize - w.offset) data.length)).length =
        min (writerBufferSize - w.offset) data.length := by
      rw [List.length_take]
      omega
    obtain ⟨b, hb, hsize, htext⟩ := @Block.copyInto_text _ w.buffer
      (data.take (min (writerBufferSize - w.offset) data.length)) w.offset (by
        rw [hlen, he.buffer_size]
        omega)
    rw [hlen] at htext
    simp only [Option.bind_eq_bind, hb, Option.bind_some]
    split_ifs with hroom
    · have hall : min (writerBufferSize - w.offset) data.length = data.length := by omega
      refine ends_some ⟨hroom, out, ?_, he.target, he.size, hsize.trans he.buffer_size⟩
      rw [htext, hall, List.take_length, List.append_assoc]
    · have hfull : w.offset + min (writerBufferSize - w.offset) data.length = writerBufferSize := by
        omega
      have hrest := @appendRest_ends heap I Fits
        { w with buffer := b, offset := w.offset + min (writerBufferSize - w.offset) data.length }
        out hs ⟨he.target, he.size, hsize.trans he.buffer_size⟩
        (data.drop (min (writerBufferSize - w.offset) data.length))
      dsimp only at hrest
      rw [hfull] at htext
      rwa [htext, ← List.append_assoc, List.append_assoc _ (data.take _), List.take_append_drop]
        at hrest

lemma write_ends (hs : Sink heap I Fits) {target : Target} (h : I [] target)
    (region : ℕ → UInt8) (calls : List Call) :
    Ends Fits (appended calls).length
      (fun x => I (appended calls) x.1 ∧ x.2 = (appended calls).length % 2 ^ 64)
      (write heap region target calls) := by
  have hrun : ∀ (calls : List Call) (w : Writer) (l : List UInt8), Holds I l w →
      Ends Fits (l ++ appended calls).length (Holds I (l ++ appended calls))
        (calls.foldlM (call heap) w) := by
    intro calls
    induction calls with
    | nil => exact fun w l hw => ends_some ((List.append_nil l).symm ▸ hw)
    | cons c calls ih =>
      intro w l hw
      have hcall : Ends Fits (l ++ c.data).length (Holds I (l ++ c.data)) (call heap w c) := by
        cases c with
        | append data hlt => exact append_ends hs hw data
        | flush => exact (List.append_nil l).symm ▸ flush_ends hs hw
      rw [List.foldlM_cons]
      have hsplit : l ++ appended (c :: calls) = l ++ c.data ++ appended calls := by
        rw [appended, List.flatMap_cons, List.append_assoc]
        rfl
      rw [hsplit]
      refine hcall.bind (fun hnot hfits => hnot (hs.fits_le _ _ ?_ hfits)) fun w' hw' => ih w' _ hw'
      rw [@List.length_append _ (l ++ c.data)]
      exact Nat.le_add_right _ _
  have hinit : Holds I [] (writerInit target region) :=
    ⟨(by decide : 0 < writerBufferSize), [], rfl, h, rfl, rfl⟩
  rw [write]
  refine (hrun calls _ [] hinit).bind id fun w hw => ?_
  exact (emitPending_ends hs hw).map fun w' hw' => ⟨hw'.target, hw'.size⟩

end

/-! ### Files -/

/-- What a file holds: the bytes that were written, if their number is one of a signed size. -/
def FileHolds (start l : List UInt8) (target : Target) : Prop :=
  ∃ content, target = .file content ∧ (l = [] → content = start) ∧
    (l ≠ [] → l.length < 2 ^ 63 → content = l) ∧
    (l ≠ [] → 2 ^ 63 ≤ l.length % 2 ^ 64 → content = [])

lemma take_resized {content : List UInt8} {n size : ℕ} (hn : n ≤ content.length) (hle : n ≤ size) :
    (content.take size ++ List.replicate (size - content.length) 0).take n = content.take n := by
  rw [List.take_append_of_le_length (by rw [List.length_take]; omega), List.take_take,
    Nat.min_eq_left hle]

lemma length_resized (content : List UInt8) (size : ℕ) :
    (content.take size ++ List.replicate (size - content.length) (0 : UInt8)).length = size := by
  rw [List.length_append, List.length_take, List.length_replicate]
  omega

lemma write_resized {content out data : List UInt8} (hout : content.take out.length = out) :
    vfsNodeWrite (content.take (out ++ data).length ++
      List.replicate ((out ++ data).length - content.length) 0) out.length data = out ++ data := by
  have hle : out.length ≤ content.length := by
    have hlen := congrArg List.length hout
    rw [List.length_take] at hlen
    omega
  have hlast : (content.take (out ++ data).length ++
      List.replicate ((out ++ data).length - content.length) (0 : UInt8)).drop
        (out.length + data.length) = [] :=
    List.drop_eq_nil_of_le (by rw [length_resized, List.length_append])
  rw [vfsNodeWrite, hlast, length_resized, List.append_nil,
    take_resized hle (by rw [List.length_append]; omega), hout, List.length_append,
    Nat.add_sub_cancel_left, List.take_length]

lemma file_sink (heap : ℕ → UInt8) (start : List UInt8) :
    Sink heap (FileHolds start) fun _ => True where
  fits_le _ _ _ _ := trivial
  emit out target data hdata hout := by
    obtain ⟨content, rfl, hempty, hsmall, hlarge⟩ := hout
    have hne : out ++ data ≠ [] := fun h => hdata (List.append_eq_nil_iff.mp h).2
    refine ends_some ⟨_, rfl, fun h => absurd h hne, fun _ hlt => ?_, fun _ hge => ?_⟩
    · have hshorter : out.length ≤ (out ++ data).length := by
        rw [List.length_append]
        omega
      have hprefix : content.take out.length = out := by
        by_cases hnil : out = []
        · rw [hnil]
          rfl
        · rw [hsmall hnil (by omega), List.take_length]
      rw [Nat.mod_eq_of_lt (show (out ++ data).length < 2 ^ 64 by omega),
        Nat.mod_eq_of_lt (show out.length < 2 ^ 64 by omega), vfsNodeResize, if_pos hlt]
      exact write_resized hprefix
    · rw [vfsNodeResize, if_neg (by omega), vfsNodeWrite]
      simp

/-! ### Memory -/

/-- What a block of memory holds: the bytes that were written, in a block for their number. -/
def MemoryHolds (l : List UInt8) (target : Target) : Prop :=
  ∃ buffer, target = .memory buffer ∧ (l = [] → buffer = none) ∧
    (l ≠ [] → l.length + headerSize ≤ 2 ^ 27 ∧ ∃ a, buffer = some a ∧
      a.index = sizeToIndex (l.length + headerSize) ∧
      (Block.mk l.length a.data).text l.length = l)

lemma capacity_ge {length : ℕ} (hpos : 0 < length) (h : length + headerSize ≤ 2 ^ 27) :
    length ≤ indexToSize (sizeToIndex (length + headerSize)) - headerSize := by
  obtain ⟨source, -, hindex, -, hle⟩ :=
    @sourceOf_sizeToIndex (length + headerSize) (Nat.lt_add_of_pos_left hpos) h
  rw [hindex] at hle
  omega

lemma ammRealloc_eq (heap : ℕ → UInt8) {out : List UInt8} {buffer : Option Allocation} {length : ℕ}
    (hout : MemoryHolds out (.memory buffer)) (hlt : out.length < length)
    (h : length + headerSize ≤ 2 ^ 27) :
    ∃ a, ammRealloc heap buffer length = some (some a) ∧
      a.index = sizeToIndex (length + headerSize) ∧
      (Block.mk length a.data).text out.length = out := by
  obtain ⟨_, hb, hempty, hfull⟩ := hout
  cases hb
  by_cases hnil : out = []
  · subst hnil
    rw [hempty rfl, ammRealloc, alloc_eq heap (by omega) h]
    exact ⟨_, rfl, rfl, rfl⟩
  · obtain ⟨hle, a, rfl, hindex, htext⟩ := hfull hnil
    have hpos : 0 < out.length := List.length_pos_iff.mpr hnil
    have hcapacity := capacity_ge hpos hle
    rw [← hindex] at hcapacity
    rw [ammRealloc]
    dsimp only
    rw [if_neg (by omega)]
    by_cases hsame : sizeToIndex (length + headerSize) = a.index
    · rw [if_pos hsame]
      exact ⟨a, rfl, hsame.symm, htext⟩
    · rw [if_neg hsame, alloc_eq heap (by omega) h]
      refine ⟨_, rfl, rfl, Eq.trans (Block.text_congr fun i hi => ?_) htext⟩
      dsimp only
      split_ifs <;> first | rfl | omega

/-- Where more bytes are written than there are blocks for, there is no block, or the number of
bytes was cut to 32 bits and the block is too small. -/
lemma emit_memory_none (heap : ℕ → UInt8) {out data : List UInt8} {target : Target}
    (hout : MemoryHolds out target) (hdata : data ≠ [])
    (h : ¬(out ++ data).length + headerSize ≤ 2 ^ 27) :
    target.emit heap ((out ++ data).length % 2 ^ 64) (out.length % 2 ^ 64) data = none := by
  have hheader : headerSize = 8 := rfl
  obtain ⟨buffer, rfl, hempty, hfull⟩ := hout
  have hsmall : out.length + headerSize ≤ 2 ^ 27 := by
    by_cases hnil : out = []
    · rw [hnil]
      decide
    · exact (hfull hnil).1
  have hmod : out.length % 2 ^ 64 = out.length := Nat.mod_eq_of_lt (by omega)
  rw [List.length_append] at h ⊢
  rw [Target.emit, hmod]
  generalize hlength : (out.length + data.length) % 2 ^ 64 % 2 ^ 32 = length
  rcases Nat.lt_or_ge length (out.length + data.length) with hlt | hge
  · cases ammRealloc heap buffer length with
    | none => rfl
    | some buffer =>
      cases buffer with
      | none => rfl
      | some a => rw [Option.bind_some, Option.bind_some, Block.copyInto_none hdata hlt,
          Option.map_none]
  · have hlarge : alloc heap length = none :=
      alloc_large heap (show ¬length + headerSize ≤ 2 ^ 27 by omega) (by omega)
    have hnone := @sourceOf_sizeToIndex_large (length + headerSize) (by omega) (by omega)
    by_cases hnil : out = []
    · rw [hempty hnil, ammRealloc, hlarge, Option.bind_none]
    · obtain ⟨hle, a, rfl, hindex, -⟩ := hfull hnil
      have hpos : 0 < out.length := List.length_pos_iff.mpr hnil
      obtain ⟨source, hsource, -⟩ :=
        @sourceOf_sizeToIndex (out.length + headerSize) (Nat.lt_add_of_pos_left hpos) hle
      have hother : sizeToIndex (length + headerSize) ≠ a.index := by
        intro hsame
        rw [← hindex, ← hsame, hnone] at hsource
        cases hsource
      rw [ammRealloc]
      dsimp only
      rw [if_neg (by omega), if_neg hother, hlarge, Option.map_none, Option.bind_none]

lemma memory_sink (heap : ℕ → UInt8) :
    Sink heap MemoryHolds fun n => n + headerSize ≤ 2 ^ 27 where
  fits_le m n hle h := (Nat.add_le_add_right hle _).trans h
  emit out target data hdata hout := by
    have hne : out ++ data ≠ [] := fun h => hdata (List.append_eq_nil_iff.mp h).2
    by_cases hfits : (out ++ data).length + headerSize ≤ 2 ^ 27
    · have hheader : headerSize = 8 := rfl
      have hpos : 0 < data.length := List.length_pos_iff.mpr hdata
      have hlen := @List.length_append _ out data
      obtain ⟨buffer, rfl, -⟩ := id hout
      obtain ⟨a, ha, hindex, htext⟩ := ammRealloc_eq heap hout (by omega) hfits
      obtain ⟨b, hb, hsize, hall⟩ :=
        @Block.copyInto_text _ ⟨(out ++ data).length, a.data⟩ data out.length (le_of_eq hlen.symm)
      rw [← hlen, htext] at hall
      refine .inl ⟨.memory (some { a with data := b.data }), ?_, _, rfl, fun h => absurd h hne,
        fun _ => ⟨hfits, _, rfl, hindex, hall⟩⟩
      have hmod : (out ++ data).length % 2 ^ 64 % 2 ^ 32 = (out ++ data).length := by omega
      rw [Target.emit, hmod, Nat.mod_eq_of_lt (show out.length < 2 ^ 64 by omega), ha,
        Option.bind_some, Option.bind_some, hb, Option.map_some]
    · exact .inr ⟨emit_memory_none heap hout hdata hfits, hfits⟩

/-! ### Both kinds of target -/

/-- What is written to: a file with some bytes, or memory that is not allocated yet. -/
inductive Start
  | file (content : List UInt8)
  | memory

def Start.target : Start → Target
  | .file content => .file content
  | .memory => .memory none

/-- The bytes of `l` were delivered; without bytes nothing happens. -/
def Start.Delivered (l : List UInt8) (target : Target) : Start → Prop
  | .file content => target = .file (if l = [] then content else l)
  | .memory =>
    if l = [] then target = .memory none
    else ∃ a, target = .memory (some a) ∧ (Block.mk l.length a.data).text l.length = l

/-- The writer delivers what was appended, and returns its length. -/
def Concatenates (heap region : ℕ → UInt8) (start : Start) (calls : List Call) : Prop :=
  ∃ target, write heap region start.target calls = some (target, (appended calls).length) ∧
    start.Delivered (appended calls) target

/-- How many bytes there is room for. -/
def Start.Room (n : ℕ) : Start → Prop
  | .file _ => n < 2 ^ 63
  | .memory => n + headerSize ≤ 2 ^ 27

/-- **The writer** delivers what was appended just when there is room for it. -/
theorem concatenates_iff (heap region : ℕ → UInt8) (start : Start) (calls : List Call) :
    Concatenates heap region start calls ↔ start.Room (appended calls).length := by
  cases start with
  | file content =>
    have hwrite := @write_ends heap _ _ (file_sink heap content) (.file content)
      ⟨content, rfl, fun _ => rfl, fun h => absurd rfl h, fun h => absurd rfl h⟩ region calls
    obtain ⟨⟨target, n⟩, hw, ⟨c, rfl, hempty, hsmall, hlarge⟩, hn⟩ | ⟨-, hnot⟩ := hwrite
    · dsimp only at hn
      rw [Concatenates, Start.target, hw]
      constructor
      · rintro ⟨target, heq, hdelivered⟩
        cases heq
        rw [Start.Room]
        by_contra hge
        have hne : appended calls ≠ [] := ne_nil_of_length (by omega)
        rw [Start.Delivered, if_neg hne, hlarge hne (by omega)] at hdelivered
        exact hne (Target.file.inj hdelivered).symm
      · intro hroom
        rw [Start.Room] at hroom
        refine ⟨.file c, by rw [hn, Nat.mod_eq_of_lt (by omega)], ?_⟩
        rw [Start.Delivered]
        split_ifs with hnil
        · rw [hempty hnil]
        · rw [hsmall hnil hroom]
    · exact absurd trivial hnot
  | memory =>
    have hheader : headerSize = 8 := rfl
    have hwrite := @write_ends heap _ _ (memory_sink heap) (.memory none)
      ⟨none, rfl, fun _ => rfl, fun h => absurd rfl h⟩ region calls
    rw [Concatenates, Start.target, Start.Room]
    obtain ⟨⟨target, n⟩, hw, ⟨buffer, rfl, hempty, hfull⟩, hn⟩ | ⟨hw, hnot⟩ := hwrite
    · dsimp only at hn
      have hroom : (appended calls).length + headerSize ≤ 2 ^ 27 := by
        by_cases hnil : appended calls = []
        · rw [hnil]
          decide
        · exact (hfull hnil).1
      rw [hw]
      refine iff_of_true ⟨_, by rw [hn, Nat.mod_eq_of_lt (by omega)], ?_⟩ hroom
      rw [Start.Delivered]
      split_ifs with hnil
      · rw [hempty hnil]
      · obtain ⟨-, a, rfl, -, htext⟩ := hfull hnil
        exact ⟨a, rfl, htext⟩
    · rw [hw]
      refine iff_of_false ?_ hnot
      rintro ⟨target, heq, -⟩
      cases heq

/-- One call with `2 ^ 32` bytes for memory. -/
def longAppend : Call := .append (List.replicate (2 ^ 32) 0) (by rw [List.length_replicate]; decide)

theorem longAppend_not_concatenates :
    ¬Concatenates (fun _ => 0) (fun _ => 0) .memory [longAppend] := by
  have hlen : (appended [longAppend]).length = 2 ^ 32 := by
    rw [appended, List.flatMap_cons, List.flatMap_nil, List.append_nil]
    exact List.length_replicate
  have hheader : headerSize = 8 := rfl
  rintro ⟨target, hw, -⟩
  have hwrite := @write_ends _ _ _ (memory_sink fun _ => 0) (.memory none)
    ⟨none, rfl, fun _ => rfl, fun h => absurd rfl h⟩ (fun _ => 0) [longAppend]
  obtain ⟨x, -, ⟨buffer, -, -, hfull⟩, -⟩ | ⟨hnone, -⟩ := hwrite
  · have hle := (hfull (ne_nil_of_length (by omega))).1
    omega
  · rw [Start.target, hnone] at hw
    cases hw

end KernelModel.Writers
