import KernelModel.PipeFifo
import KernelModel.Runs

/-!
The two events of a pipe, that its readers and writers wait for.
-/

namespace KernelModel.PipeEvents

open Circular Pipes Runs

/-- `pipe_vfs_node_t` with `is_active` of its events. -/
structure PipeNode extends Pipe where
  readEvent : Bool
  writeEvent : Bool

/-- `_pipe_create` -/
def pipeCreate (buffer : ℕ → UInt8) : PipeNode where
  toPipe := Pipes.pipeCreate buffer
  readEvent := false
  writeEvent := true

/-- `_pipe_read`: the bytes move as before; a call that takes some brings the read event down if
it leaves none, closed or not, and dispatches the write event. -/
def pipeRead (node : PipeNode) (size : ℕ) (nonblocking peek : Bool) :
    Option (List UInt8 × PipeNode) :=
  match Pipes.pipeRead node.toPipe size nonblocking peek with
  | none => none
  | some (data, pipe) =>
    if (!node.isFull ∧ node.writeOffset = node.readOffset) ∨ peek then some (data, node)
    else
      let readEvent := if pipe.writeOffset = pipe.readOffset then false else node.readEvent
      some (data, ⟨pipe, readEvent, true⟩)

/-- `_pipe_write`: a call that gets to the buffer brings the write event down if it fills the
pipe, and dispatches the read event. -/
def pipeWrite (node : PipeNode) (data : List UInt8) (nonblocking : Bool) :
    Option (ℕ × PipeNode) :=
  match Pipes.pipeWrite node.toPipe data nonblocking with
  | none => none
  | some (size, pipe) =>
    if node.isClosed ∨ node.isFull then some (size, node)
    else
      let writeEvent := if pipe.isFull then false else node.writeEvent
      some (size, ⟨pipe, true, writeEvent⟩)

/-- `pipe_close`: whether the pipe was open, and the pipe after it. -/
def pipeClose (pipe : PipeNode) : Bool × PipeNode :=
  (!pipe.isClosed, { pipe with isClosed := true
                               readEvent := true
                               writeEvent := true })

def vfsNodeRead (pipe : PipeNode) (size : ℕ) (nonblocking peek : Bool) :
    Option (List UInt8 × PipeNode) :=
  if size = 0 then some ([], pipe) else pipeRead pipe size nonblocking peek

def vfsNodeWrite (pipe : PipeNode) (data : List UInt8) (nonblocking : Bool) :
    Option (ℕ × PipeNode) :=
  if data.length = 0 then some (0, pipe) else pipeWrite pipe data nonblocking

inductive Call
  | io (op : Op)
  | close

/-- One call; a call that has to wait changes nothing. -/
def step (pipe : PipeNode) : Call → PipeNode
  | .io (.read size nonblocking) =>
    match vfsNodeRead pipe size nonblocking false with
    | none => pipe
    | some (_, pipe) => pipe
  | .io (.peek size nonblocking) =>
    match vfsNodeRead pipe size nonblocking true with
    | none => pipe
    | some (_, pipe) => pipe
  | .io (.write data nonblocking) =>
    match vfsNodeWrite pipe data nonblocking with
    | none => pipe
    | some (_, pipe) => pipe
  | .close => (pipeClose pipe).2

def run (pipe : PipeNode) (calls : List Call) : PipeNode := calls.foldl step pipe

/-- The events tell what a reader and a writer wait for. -/
def Ready (pipe : PipeNode) : Prop :=
  (pipe.readEvent = true ↔ unread pipe.toPipe ≠ 0 ∨ pipe.isClosed = true) ∧
    (pipe.writeEvent = true ↔ pipe.isFull = false ∨ pipe.isClosed = true)

/-- The call reads the last byte of a closed pipe. -/
def DrainsClosed (pipe : PipeNode) : Call → Prop
  | .io (.read size _) => pipe.isClosed = true ∧ unread pipe.toPipe ≠ 0 ∧ unread pipe.toPipe ≤ size
  | _ => False

/-! ### The invariant -/

/-- The pipe holds the bytes `L`, whether or not it is closed. -/
def Holds (node : PipeNode) (L : List UInt8) : Prop :=
  Contents { node.toPipe with isClosed := false } L

variable {node : PipeNode} {L : List UInt8}

lemma Holds.unread_eq (h : Holds node L) : unread node.toPipe = L.length := by
  have hunread := Contents.unread_eq h
  exact hunread

lemma Holds.isFull_iff (h : Holds node L) : node.isFull = true ↔ L.length = pipeBufferSize := by
  have hfull := Contents.full_iff h
  exact hfull

lemma Holds.empty_iff (h : Holds node L) :
    (!node.isFull ∧ node.writeOffset = node.readOffset) ↔ L = [] := by
  have hempty := Contents.empty_iff h
  exact hempty

/-- The bytes that a read takes do not depend on whether the pipe is closed. -/
lemma Holds.bytes_read (h : Holds node L) (hL : L ≠ []) (size : ℕ) (nonblocking peek : Bool) :
    Pipes.pipeRead node.toPipe size nonblocking peek =
      some (L.take size, if peek then node.toPipe else
        { node.toPipe with readOffset := (node.readOffset + min size L.length) % pipeBufferSize
                           isFull := false }) := by
  have hopen := Contents.pipeRead_eq h hL size nonblocking peek
  have hempty := mt h.empty_iff.mp hL
  unfold Pipes.pipeRead at hopen ⊢
  rw [if_neg hempty] at hopen ⊢
  cases peek
  · simp only [Bool.false_eq_true, if_false, Option.some.injEq, Prod.mk.injEq] at hopen ⊢
    refine ⟨hopen.1, ?_⟩
    have hoff := congrArg Pipe.readOffset hopen.2
    simp only at hoff
    rw [hoff]
  · simp only [if_true, Option.some.injEq, Prod.mk.injEq] at hopen ⊢
    exact ⟨hopen.1, trivial⟩

lemma Holds.pipeRead (h : Holds node L) (hL : L ≠ []) {size : ℕ} (hsize : size ≠ 0)
    (nonblocking : Bool) : ∃ node', pipeRead node size nonblocking false =
      some (L.take size, node') ∧ Holds node' (L.drop size) ∧
        node'.isClosed = node.isClosed ∧ node'.writeEvent = true ∧
          node'.readEvent = if L.length ≤ size then false else node.readEvent := by
  have hafter := Contents.after_read h hL hsize
  unfold PipeEvents.pipeRead
  rw [h.bytes_read hL]
  simp only [Bool.false_eq_true, if_false, or_false, if_neg (mt h.empty_iff.mp hL)]
  refine ⟨_, rfl, hafter, rfl, rfl, ?_⟩
  -- the offsets meet exactly when everything was taken
  have hr := Contents.read_lt h
  have hw := Contents.write_eq h
  have hl := Contents.length_le h
  have hpos := List.length_pos_iff.mpr hL
  have hmeet : node.writeOffset = (node.readOffset + min size L.length) % pipeBufferSize ↔
      L.length ≤ size := by
    simp only [pipeBufferSize] at *
    omega
  simp only [hmeet]

/-- A read of an empty pipe takes nothing, and neither does a peek of any pipe. -/
lemma pipeRead_node {size : ℕ} {nonblocking peek : Bool} {data : List UInt8} {node' : PipeNode}
    (h : (!node.isFull ∧ node.writeOffset = node.readOffset) ∨ peek = true)
    (hr : pipeRead node size nonblocking peek = some (data, node')) : node' = node := by
  unfold pipeRead at hr
  cases hp : Pipes.pipeRead node.toPipe size nonblocking peek with
  | none => simp [hp] at hr
  | some r =>
    simp only [hp, if_pos h, Option.some.injEq, Prod.mk.injEq] at hr
    exact hr.2.symm

lemma pipeWrite_node {data : List UInt8} {nonblocking : Bool} {size : ℕ} {node' : PipeNode}
    (h : node.isClosed = true ∨ node.isFull = true)
    (hw : pipeWrite node data nonblocking = some (size, node')) : node' = node := by
  unfold pipeWrite at hw
  cases hp : Pipes.pipeWrite node.toPipe data nonblocking with
  | none => simp [hp] at hw
  | some r =>
    simp only [hp, if_pos h, Option.some.injEq, Prod.mk.injEq] at hw
    exact hw.2.symm

lemma Holds.pipeWrite (h : Holds node L) (hc : node.isClosed = false) (hf : node.isFull = false)
    {data : List UInt8} (hdata : data ≠ []) (nonblocking : Bool) :
    ∃ n node', PipeEvents.pipeWrite node data nonblocking = some (n, node') ∧
      Holds node' (L ++ data.take n) ∧ L ++ data.take n ≠ [] ∧ node'.isClosed = false ∧
        node'.readEvent = true ∧
          node'.writeEvent = if node'.isFull then false else node.writeEvent := by
  have hopen : { node.toPipe with isClosed := false } = node.toPipe := by
    rw [← hc]
  have hcontents : Contents node.toPipe L := hopen ▸ h
  have hlt : L.length < pipeBufferSize := by
    refine lt_of_le_of_ne hcontents.length_le fun he => ?_
    rw [h.isFull_iff.mpr he] at hf
    exact Bool.noConfusion hf
  have hpos := List.length_pos_iff.mpr hdata
  unfold PipeEvents.pipeWrite
  rw [hcontents.pipeWrite_eq hf data nonblocking rfl]
  simp only [hc, hf, Bool.false_eq_true, or_self, if_false]
  refine ⟨_, _, rfl, Contents.after_write h hf hdata rfl, ?_, rfl, rfl, rfl⟩
  refine List.ne_nil_of_length_pos ?_
  rw [List.length_append, List.length_take]
  omega

lemma Holds.ready_iff (h : Holds node L) : Ready node ↔
    (node.readEvent = true ↔ L ≠ [] ∨ node.isClosed = true) ∧
      (node.writeEvent = true ↔ L.length ≠ pipeBufferSize ∨ node.isClosed = true) := by
  unfold Ready
  rw [h.unread_eq, ← Bool.not_eq_true node.isFull, h.isFull_iff, Ne, List.length_eq_zero_iff]

/-- **One call** keeps the bytes in order, and the events true unless it drains a closed pipe. -/
lemma Holds.step (h : Holds node L) (call : Call) : ∃ L', Holds (step node call) L' ∧
    (Ready node → (Ready (PipeEvents.step node call) ↔ ¬DrainsClosed node call)) := by
  have hsame : ∀ node', node' = node → ¬DrainsClosed node call → ∃ L', Holds node' L' ∧
      (Ready node → (Ready node' ↔ ¬DrainsClosed node call)) := by
    rintro node' rfl hno
    exact ⟨L, h, fun hr => ⟨fun _ => hno, fun _ => hr⟩⟩
  cases call with
  | close =>
    refine ⟨L, h, fun _ => ⟨fun _ => id, fun _ => ?_⟩⟩
    exact ⟨⟨fun _ => .inr rfl, fun _ => rfl⟩, ⟨fun _ => .inr rfl, fun _ => rfl⟩⟩
  | io op =>
    cases op with
    | peek size nonblocking =>
      refine hsame _ ?_ id
      simp only [PipeEvents.step, vfsNodeRead]
      by_cases hsize : size = 0
      · simp only [if_pos hsize]
      rw [if_neg hsize]
      cases hp : PipeEvents.pipeRead node size nonblocking true with
      | none => rfl
      | some r => exact pipeRead_node (.inr rfl) hp
    | write data nonblocking =>
      simp only [PipeEvents.step, vfsNodeWrite]
      by_cases hdata : data = []
      · subst hdata
        exact hsame _ rfl id
      rw [if_neg (mt List.length_eq_zero_iff.mp hdata)]
      by_cases hroom : node.isClosed = true ∨ node.isFull = true
      · refine hsame _ ?_ id
        cases hp : PipeEvents.pipeWrite node data nonblocking with
        | none => rfl
        | some r => exact pipeWrite_node hroom hp
      · rw [not_or, Bool.not_eq_true, Bool.not_eq_true] at hroom
        obtain ⟨n, node', hw, hh, hne, hc, hre, hwe⟩ :=
          h.pipeWrite hroom.1 hroom.2 hdata nonblocking
        rw [hw]
        refine ⟨_, hh, fun hr => ⟨fun _ => id, fun _ => ?_⟩⟩
        have hwrite : node.writeEvent = true := hr.2.mpr (.inl hroom.2)
        rw [hh.ready_iff, hre, hwe, hwrite, ne_eq (List.length _), ← hh.isFull_iff]
        exact ⟨⟨fun _ => .inl hne, fun _ => rfl⟩, by cases node'.isFull <;> simp [hc]⟩
    | read size nonblocking =>
      simp only [PipeEvents.step, vfsNodeRead]
      by_cases hsize : size = 0
      · simp only [if_pos hsize]
        refine hsame _ rfl ?_
        rintro ⟨-, hpos, hle⟩
        omega
      rw [if_neg hsize]
      by_cases hL : L = []
      · refine hsame _ ?_ ?_
        · cases hp : PipeEvents.pipeRead node size nonblocking false with
          | none => rfl
          | some r => exact pipeRead_node (.inl (h.empty_iff.mpr hL)) hp
        · rintro ⟨-, hpos, -⟩
          rw [h.unread_eq, hL] at hpos
          exact hpos rfl
      · obtain ⟨node', hr, hh, hc, hwe, hre⟩ := h.pipeRead hL hsize nonblocking
        rw [hr]
        refine ⟨_, hh, fun hready => ?_⟩
        have hread : node.readEvent = true := (h.ready_iff.mp hready).1.mpr (.inl hL)
        have hpos := List.length_pos_iff.mpr hL
        have hle := Contents.length_le h
        have hroom : (L.drop size).length ≠ pipeBufferSize := by
          rw [List.length_drop]
          omega
        have hdrop : L.drop size ≠ [] ↔ ¬L.length ≤ size := by
          rw [Ne, List.drop_eq_nil_iff]
        rw [hh.ready_iff, hwe, hre, hread, hc, hdrop, DrainsClosed, h.unread_eq]
        simp only [hroom, ne_eq, not_false_eq_true, true_or, and_true, not_and]
        split_ifs with hall
        · simp [hall, hpos.ne']
        · simp [hall]

/-! ### Runs -/

lemma holds_create (buffer : ℕ → UInt8) : Holds (pipeCreate buffer) [] := by
  obtain ⟨L, hc, heq⟩ := good_init buffer
  have hL : L = [] := by
    have hlen := congrArg List.length heq
    simp only [Trace.init, List.nil_append, List.length_nil] at hlen
    exact List.length_eq_zero_iff.mp hlen.symm
  exact hL ▸ hc

lemma ready_create (buffer : ℕ → UInt8) : Ready (pipeCreate buffer) := by
  rw [(holds_create buffer).ready_iff]
  simp [pipeCreate, Pipes.pipeCreate, pipeBufferSize]

lemma run_append (node : PipeNode) (calls : List Call) (call : Call) :
    run node (calls ++ [call]) = step (run node calls) call := by
  simp [run]

lemma Holds.run (h : Holds node L) (calls : List Call) : ∃ L', Holds (run node calls) L' := by
  induction calls generalizing node L with
  | nil => exact ⟨L, h⟩
  | cons call calls ih =>
    obtain ⟨L', h', -⟩ := h.step call
    exact ih h'

/-- One byte is written, the pipe is closed, and the byte is read. -/
def drainedCalls : List Call := [.io (.write [7] false), .close, .io (.read 1 false)]

end KernelModel.PipeEvents
