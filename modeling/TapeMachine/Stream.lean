/-! # Byte streams

A machine reads from an input and writes to a sink, one call at a time. Both answer from scripts:
the `n`-th call of a kind gets the `n`-th reply of its script, and once a script is used up a read
finds the end of input while writes and flushes succeed.

* A reply that says *interrupted* asks for the same call again. `Streams.read` and `Streams.write`
  make it again until another reply comes; `Streams.flush` does not.
* Every call is recorded with its reply in `Streams.trace`, newest first. What a session wrote and
  how often it called are read off the trace.
-/

namespace TapeMachine

/-! ## Faults and replies -/

/-- The kinds of failure of a call. -/
inductive FaultKind where
  | other
  | wouldBlock
  | brokenPipe
  | timedOut
  | unexpectedEnd
  | interrupted
  | writeZero
deriving DecidableEq, Repr

/-- A failed call: its kind and a text for people. -/
structure Fault where
  kind : FaultKind
  text : String
deriving DecidableEq, Repr

/-- The call was cut short and may be made again. -/
def Fault.interruption : Fault := ⟨.interrupted, "interrupted"⟩

/-- The sink accepts no bytes. -/
def Fault.stalled : Fault := ⟨.writeZero, "failed to write whole buffer"⟩

/-- The answer to a read of one byte. -/
inductive ReadReply where
  | byte (value : UInt8)
  | endOfInput
  | fault (fault : Fault)
deriving DecidableEq, Repr

/-- The answer to a write of one byte. -/
inductive WriteReply where
  | accepted
  | stalled
  | fault (fault : Fault)
deriving DecidableEq, Repr

/-- The answer to a flush. -/
inductive FlushReply where
  | done
  | fault (fault : Fault)
deriving DecidableEq, Repr

/-- Whether the read is to be made again. -/
def ReadReply.isInterruption : ReadReply → Bool
  | .fault f => f.kind = .interrupted
  | _ => false

/-- Whether the write is to be made again. -/
def WriteReply.isInterruption : WriteReply → Bool
  | .fault f => f.kind = .interrupted
  | _ => false

/-- Why the byte was not written, if it was not. -/
def WriteReply.fault? : WriteReply → Option Fault
  | .accepted => none
  | .stalled => some .stalled
  | .fault f => some f

/-- Why the flush failed, if it did. -/
def FlushReply.fault? : FlushReply → Option Fault
  | .done => none
  | .fault f => some f

/-- A call and its reply. -/
inductive Call where
  | read (reply : ReadReply)
  | write (byte : UInt8) (reply : WriteReply)
  | flush (reply : FlushReply)
deriving DecidableEq, Repr

/-! ## Streams -/

/-- The replies still to come, and the calls made so far, newest first. -/
structure Streams where
  reads : List ReadReply
  writes : List WriteReply
  flushes : List FlushReply
  trace : List Call
deriving DecidableEq, Repr

/-- The read calls up to the first reply that is no interruption: that reply, the replies left, and
the trace. -/
def readCalls : List ReadReply → List Call → ReadReply × List ReadReply × List Call
  | [], trace => (.endOfInput, [], .read .endOfInput :: trace)
  | reply :: rest, trace =>
    if reply.isInterruption then readCalls rest (.read reply :: trace)
    else (reply, rest, .read reply :: trace)

/-- The write calls up to the first reply that is no interruption: that reply, the replies left,
and the trace. -/
def writeCalls (byte : UInt8) :
    List WriteReply → List Call → WriteReply × List WriteReply × List Call
  | [], trace => (.accepted, [], .write byte .accepted :: trace)
  | reply :: rest, trace =>
    if reply.isInterruption then writeCalls byte rest (.write byte reply :: trace)
    else (reply, rest, .write byte reply :: trace)

namespace Streams

/-- An input that holds `bytes`, and a sink that never fails. -/
def ofBytes (bytes : List UInt8) : Streams := ⟨bytes.map .byte, [], [], []⟩

/-- Reads one byte. -/
def read (s : Streams) : ReadReply × Streams :=
  let (reply, reads, trace) := readCalls s.reads s.trace
  (reply, { s with reads, trace })

/-- Writes one byte. -/
def write (s : Streams) (byte : UInt8) : Option Fault × Streams :=
  let (reply, writes, trace) := writeCalls byte s.writes s.trace
  (reply.fault?, { s with writes, trace })

/-- Writes one byte `count` times, up to the first failure. -/
def writeMany (s : Streams) (byte : UInt8) : Nat → Option Fault × Streams
  | 0 => (none, s)
  | count + 1 =>
    match s.write byte with
    | (some fault, s) => (some fault, s)
    | (none, s) => s.writeMany byte count

/-- Flushes the sink. -/
def flush (s : Streams) : Option Fault × Streams :=
  match s.flushes with
  | [] => (none, { s with trace := .flush .done :: s.trace })
  | reply :: rest => (reply.fault?, { s with flushes := rest, trace := .flush reply :: s.trace })

end Streams

/-! ## Reading the trace -/

namespace Call

/-- The byte that a call put into the sink. -/
def written? : Call → Option UInt8
  | .write byte .accepted => some byte
  | _ => none

/-- The byte that a call took from the input. -/
def taken? : Call → Option UInt8
  | .read (.byte value) => some value
  | _ => none

/-- Whether the call is a read. -/
def isRead : Call → Bool
  | .read _ => true
  | _ => false

/-- Whether the call is a write. -/
def isWrite : Call → Bool
  | .write _ _ => true
  | _ => false

/-- Whether the call is a flush. -/
def isFlush : Call → Bool
  | .flush _ => true
  | _ => false

end Call

namespace Streams

/-- The bytes that the sink accepted, oldest first. -/
def output (s : Streams) : List UInt8 := (s.trace.filterMap Call.written?).reverse

/-- The number of bytes read. -/
def consumed (s : Streams) : Nat := (s.trace.filterMap Call.taken?).length

/-- The number of read calls. -/
def readCount (s : Streams) : Nat := s.trace.countP Call.isRead

/-- The number of write calls. -/
def writeCount (s : Streams) : Nat := s.trace.countP Call.isWrite

/-- The number of flush calls. -/
def flushCount (s : Streams) : Nat := s.trace.countP Call.isFlush

end Streams

end TapeMachine
