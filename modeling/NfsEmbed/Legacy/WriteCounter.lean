import NfsEmbed.Legacy.Xdr

/-!
# Counting what is written (`write_counter.rs`)
-/

namespace NfsEmbed.Legacy

open Lib

/-- The bytes that reached the inner writer, and how many were counted. -/
structure WriteCounter where
  inner : Bytes
  count : Nat
deriving DecidableEq, Repr

namespace WriteCounter

def new (inner : Bytes) : WriteCounter := ⟨inner, 0⟩

def bytesWritten (counter : WriteCounter) : Nat := counter.count

/-- The inner writer takes all of the buffer. -/
def write (counter : WriteCounter) (buf : Bytes) : WriteCounter := ⟨counter.inner ++ buf, counter.count + buf.length⟩

/-- Serialising through the counter. -/
def emit (counter : WriteCounter) (writer : Writer Unit) : Except Panic WriteCounter := do
  let ((), buf) ← writer.run []
  return counter.write buf

end WriteCounter

end NfsEmbed.Legacy
