/-
`monikor_server_handle_client` (handle.c): one client message, from
read(2) to the store.

# The connection

A client that has closed its end is the bytes it sent that are not read
yet (`pending`), how the stream ends, and how much each coming read(2) is
ready to deliver (`chunk`): a read of `n > 0` bytes with bytes pending
returns between one byte and the smaller of `n` and what is pending, at
the end of file 0, and -1 when the stream ends in an error. A read of no
bytes returns 0.

# The result

The receive loop of the source has no bound, so it takes fuel and `none`
is a loop still running. A run that ends has crashed (a read outside the
received buffer, or the list that could not be allocated dereferenced by
`monikor_metric_store_lpush`) or returned a code and the store.

`monikor_metric_store_lpush` is the parameter `lpush`: what it leaves in
`S`, from the list and from the allocations that are still to come.
-/
import Monikor.Wire.Unserialize

namespace Monikor

open Bytes

-- ========================================================== the connection

inductive Ending where
  | eof
  | error
deriving DecidableEq

structure Conn where
  pending : List UInt8
  ending : Ending
  chunk : Nat → Nat

/-- How many bytes a read of `n` returns while bytes are pending. -/
def Conn.ready (c : Conn) (n : Nat) : Nat :=
  min (max 1 (c.chunk 0)) (min n c.pending.length)

/-- read(2): the bytes returned, or `none` for -1. -/
def Conn.read (c : Conn) (n : Nat) : Option (List UInt8) × Conn :=
  let next := fun k => c.chunk (k + 1)
  if n = 0 then (some [], { c with chunk := next })
  else if c.pending = [] then
    match c.ending with
    | .eof => (some [], { c with chunk := next })
    | .error => (none, { c with chunk := next })
  else
    (some (c.pending.take (c.ready n)),
      { c with pending := c.pending.drop (c.ready n), chunk := next })

-- =============================================================== handle.c

/-- How a message can bring the process down. -/
inductive Crash where
  | memory (f : Fault)
  | null
deriving DecidableEq

/-- The `do` loop: the whole payload, or `none` after a read error. -/
def receiveLoop : Nat → Conn → Nat → List UInt8 →
    Option (Option (List UInt8) × Conn)
  | 0, _, _, _ => none
  | fuel + 1, c, dataSize, data =>
      match c.read (dataSize - data.length) with
      | (none, c) => some (none, c)
      | (some bs, c) =>
          if (data ++ bs).length < dataSize then
            receiveLoop fuel c dataSize (data ++ bs)
          else some (some (data ++ bs), c)

section HandleClient

variable {S : Type} (lpush : Allocs → S → List Metric → S) (e : Endian)
  (junk : Nat → UInt16)

/-- What follows the receive loop: decode, push, disconnect. -/
def ingest (hdr : SerializedMetricListHdr) (data : List UInt8) (a : Allocs)
    (s : S) : Except Crash (Int × S) :=
  match metricListUnserialize e data hdr junk a with
  | .error f => .error (.memory f)
  | .ok r =>
      match r.metrics with
      | none => .error .null
      | some metrics => .ok (0, lpush r.allocs s metrics)

/-- `monikor_server_handle_client`. -/
def handleClient (fuel : Nat) (a : Allocs) (c : Conn) (s : S) :
    Option (Except Crash (Int × S)) :=
  match c.read serializedMetricListHdrSize with
  | (none, _) => some (.ok (-1, s))
  | (some buf, c) =>
      if buf.length < serializedMetricListHdrSize then some (.ok (-1, s))
      else
        match metricListHeaderUnserialize e buf with
        | .error f => some (.error (.memory f))
        | .ok hdr =>
            match a.malloc with
            | (false, _) => some (.ok (-1, s))
            | (true, a) =>
                match receiveLoop fuel c hdr.dataSize.toNat [] with
                | none => none
                | some (none, _) => some (.ok (-1, s))
                | some (some data, _) =>
                    if data.length < hdr.dataSize.toNat then
                      some (.ok (-1, s))
                    else some (ingest lpush e junk hdr data a s)

end HandleClient

end Monikor
