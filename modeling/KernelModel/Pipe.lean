import KernelModel.Circular

/-!
Pipes: a circular buffer of bytes with two offsets and a flag that tells full from empty.

A call on a pipe with no data, or no room, waits for an event and then starts again; it has no
effect until then. The only callers of the pipe's functions are `vfs_node_read` and
`vfs_node_write`, that return at once when nothing is asked for. Locks and events are left out.
-/

namespace KernelModel.Pipes

open Circular

def pipeBufferSize : ℕ := 0x100000

/-- `pipe_vfs_node_t` -/
structure Pipe where
  buffer : ℕ → UInt8
  writeOffset : ℕ
  readOffset : ℕ
  isFull : Bool
  isClosed : Bool

def pipeCreate (buffer : ℕ → UInt8) : Pipe := ⟨buffer, 0, 0, false, false⟩

/-- `(a-b)&(PIPE_BUFFER_SIZE-1)` on 32-bit words, with the whole size for zero. -/
def maxSize (a b : ℕ) : ℕ :=
  let size := ((a + 2 ^ 32 - b) % 2 ^ 32) &&& (pipeBufferSize - 1)
  if size = 0 then pipeBufferSize else size

/-- `_pipe_read`: the bytes and the pipe after it; nothing if the caller has to wait. -/
def pipeRead (pipe : Pipe) (size : ℕ) (nonblocking peek : Bool) : Option (List UInt8 × Pipe) :=
  if !pipe.isFull ∧ pipe.writeOffset = pipe.readOffset then
    if pipe.isClosed then some ([], pipe)
    else if nonblocking then some ([], pipe)
    else none
  else
    let maxReadSize := maxSize pipe.writeOffset pipe.readOffset
    let size := if size > maxReadSize then maxReadSize else size
    let chunkSize := pipeBufferSize - pipe.readOffset
    let chunkSize := if chunkSize > size then size else chunkSize
    let data := slice pipe.buffer pipe.readOffset chunkSize
    let data := if size > chunkSize then data ++ slice pipe.buffer 0 (size - chunkSize) else data
    if peek then some (data, pipe)
    else
      some (data, { pipe with readOffset := (pipe.readOffset + size) &&& (pipeBufferSize - 1)
                              isFull := false })

/-- `_pipe_write`: the number of bytes taken and the pipe after it. -/
def pipeWrite (pipe : Pipe) (data : List UInt8) (nonblocking : Bool) : Option (ℕ × Pipe) :=
  if pipe.isClosed then some (0, pipe)
  else if pipe.isFull then
    if nonblocking then some (0, pipe) else none
  else
    let maxWriteSize := maxSize pipe.readOffset pipe.writeOffset
    let size := if data.length > maxWriteSize then maxWriteSize else data.length
    let chunkSize := pipeBufferSize - pipe.writeOffset
    let chunkSize := if chunkSize > size then size else chunkSize
    let buffer := blit pipe.buffer pipe.writeOffset (data.take chunkSize)
    let buffer :=
      if size > chunkSize then blit buffer 0 ((data.drop chunkSize).take (size - chunkSize))
      else buffer
    let writeOffset := (pipe.writeOffset + size) &&& (pipeBufferSize - 1)
    some (size, { pipe with buffer := buffer
                            writeOffset := writeOffset
                            isFull := writeOffset = pipe.readOffset })

def vfsNodeRead (pipe : Pipe) (size : ℕ) (nonblocking peek : Bool) : Option (List UInt8 × Pipe) :=
  if size = 0 then some ([], pipe) else pipeRead pipe size nonblocking peek

def vfsNodeWrite (pipe : Pipe) (data : List UInt8) (nonblocking : Bool) : Option (ℕ × Pipe) :=
  if data.length = 0 then some (0, pipe) else pipeWrite pipe data nonblocking

/-- The unread amount that the offsets and the flag stand for. -/
def unread (pipe : Pipe) : ℕ :=
  if pipe.isFull then pipeBufferSize
  else ((pipe.writeOffset + 2 ^ 32 - pipe.readOffset) % 2 ^ 32) &&& (pipeBufferSize - 1)

/-! ### Runs -/

inductive Op
  | read (size : ℕ) (nonblocking : Bool)
  | peek (size : ℕ) (nonblocking : Bool)
  | write (data : List UInt8) (nonblocking : Bool)

/-- A pipe with the bytes that all writes have put in and that all reads have taken out. -/
structure Trace where
  pipe : Pipe
  accepted : List UInt8
  delivered : List UInt8

/-- One call; a call that has to wait changes nothing. -/
def Trace.step (t : Trace) : Op → Trace
  | .read size nonblocking =>
    match vfsNodeRead t.pipe size nonblocking false with
    | none => t
    | some (data, pipe) => ⟨pipe, t.accepted, t.delivered ++ data⟩
  | .peek size nonblocking =>
    match vfsNodeRead t.pipe size nonblocking true with
    | none => t
    | some (_, pipe) => ⟨pipe, t.accepted, t.delivered⟩
  | .write data nonblocking =>
    match vfsNodeWrite t.pipe data nonblocking with
    | none => t
    | some (size, pipe) => ⟨pipe, t.accepted ++ data.take size, t.delivered⟩

def Trace.run (t : Trace) (ops : List Op) : Trace := ops.foldl Trace.step t

def Trace.init (buffer : ℕ → UInt8) : Trace := ⟨pipeCreate buffer, [], []⟩

end KernelModel.Pipes
