/-
  CekatEvents.Php.Transport — the body buffer of the PHP transports (`Transport/BoundedBodyBuffer.php`,
  `Transport/BoundedSinkStream.php`).
-/
import CekatEvents.Php.PayloadBuilder

namespace CekatEvents.Php

def MAX_BODY_BYTES : Nat := 65536

/-- `BoundedBodyBuffer`. -/
structure BoundedBodyBuffer where
  bytes : Bytes

namespace BoundedBodyBuffer

variable (buffer : BoundedBodyBuffer)

def isOverflowed : Bool := decide (MAX_BODY_BYTES < buffer.bytes.length)

def retained : Bytes := buffer.bytes.take MAX_BODY_BYTES

def observedBytes : Nat := buffer.bytes.length

/-- `append`: whether to go on, and the buffer after it. -/
def append (chunk : Bytes) : Bool × BoundedBodyBuffer :=
  let room := MAX_BODY_BYTES + 1 - buffer.bytes.length
  let after : BoundedBodyBuffer := ⟨if 0 < room then buffer.bytes ++ chunk.take room else buffer.bytes⟩
  (!after.isOverflowed, after)

/-- `BoundedSinkStream.write`: how many bytes it reports, and the buffer after it. -/
def write (string : Bytes) : Nat × BoundedBodyBuffer :=
  if buffer.isOverflowed then (0, buffer) else (string.length, (buffer.append string).2)

/-- Chunks are appended until `append` returns false. -/
def appendAll (buffer : BoundedBodyBuffer) : List Bytes → BoundedBodyBuffer
  | [] => buffer
  | chunk :: chunks =>
      if (buffer.append chunk).1 then (buffer.append chunk).2.appendAll chunks else (buffer.append chunk).2

/-- Every chunk is written. -/
def writeAll (chunks : List Bytes) : BoundedBodyBuffer :=
  chunks.foldl (fun buffer chunk => (buffer.write chunk).2) buffer

end BoundedBodyBuffer

end CekatEvents.Php
