/-!
# Writing the console

A sink takes bytes up to its room and refuses the rest. A stream copies a console that grows to a sink: each time it
writes the part that has not been written yet.
-/

namespace Stepwise.Run

/-- What takes the output: the bytes taken so far, and how many it takes in all. -/
structure Sink where
  limit : Option Nat
  bytes : ByteArray

namespace Sink

/-- A sink that has taken nothing. -/
def empty (limit : Option Nat) : Sink := ⟨limit, ByteArray.empty⟩

/-- What a sink without room answers to a write. -/
def fullMessage : String := "disk full"

/-- How many of a number of bytes the sink takes. -/
def fits (s : Sink) (n : Nat) : Nat :=
  match s.limit with
  | none => n
  | some l => min n (l - s.bytes.size)

/-- Writes bytes, or the part of them that fits: the sink, and how many were written. -/
def write (s : Sink) (bytes : ByteArray) : Sink × Nat :=
  let n := s.fits bytes.size
  ({ s with bytes := s.bytes ++ bytes.extract 0 n }, n)

end Sink

/-- The copy of a console to a sink, and how many bytes of the console have been written. -/
structure Stream where
  sink : Sink
  written : Nat

namespace Stream

/-- A stream that has written nothing. -/
def toSink (sink : Sink) : Stream := ⟨sink, 0⟩

/-- Writes what the console has gained; a console that has become shorter is written anew. The answer tells whether all of
it was written. -/
def flush (s : Stream) (console : String) : Stream × Bool :=
  let bytes := console.toByteArray
  let start := if bytes.size < s.written then 0 else s.written
  if start < bytes.size then
    let part := bytes.extract start bytes.size
    let (sink, n) := s.sink.write part
    (⟨sink, start + n⟩, n == part.size)
  else (⟨s.sink, start⟩, true)

end Stream

end Stepwise.Run
