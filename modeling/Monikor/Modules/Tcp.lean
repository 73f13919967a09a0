/-
modules/network/tcp.c: the counters of TCP in /proc/net/snmp.

A text is the bytes up to the terminator, and `none` is a read through NULL.
The function puts a terminator at the end of the line of names before it
looks for the end of the line of values.
-/
import Monikor.Lib.Numerals
import Monikor.Lib.Search
import Monikor.Metric

namespace Monikor

open Numerals Search

/-- `find_index`. -/
def findIndex (str name : List UInt8) : Nat :=
  match strstr name str with
  | none => 0
  | some (front, _) => front.countP isSpace

/-- A 64-bit number returned as an `int`. -/
def intOfUnsigned (v : UInt64) : Int32 := v.toUInt32.toInt32

/-- The loop of `get_index_value`, with `space` blanks behind it. -/
def getIndexValueLoop (index : Nat) : Nat → List UInt8 → Int32
  | _, [] => 0
  | space, b :: str =>
      let space := if b = 32 then space + 1 else space
      if space = index then intOfUnsigned (strtoull 0 (b :: str)).1
      else getIndexValueLoop index space str

/-- `get_index_value`. -/
def getIndexValue (str : List UInt8) (index : Nat) : Int32 :=
  if index = 0 then 0 else getIndexValueLoop index 0 str

/-- An `int` as the value of a metric. -/
def unsignedOfInt (v : Int32) : UInt64 := v.toInt64.toUInt64

/-- A metric of `poll_tcp_metrics`: its name, that of its column, and its
flags. -/
structure TcpMetric where
  metric : CString
  column : CString
  flags : UInt8
deriving DecidableEq

/-- The metrics of `poll_tcp_metrics`, in order. -/
def tcpMetrics : List TcpMetric :=
  [⟨.ofString "network.tcp.active", .ofString "ActiveOpens", metricTimedelta⟩,
    ⟨.ofString "network.tcp.passive", .ofString "PassiveOpens",
      metricTimedelta⟩,
    ⟨.ofString "network.tcp.failed", .ofString "AttemptFails", metricTimedelta⟩,
    ⟨.ofString "network.tcp.resets", .ofString "EstabResets", metricTimedelta⟩,
    ⟨.ofString "network.tcp.current", .ofString "CurrEstab", 0⟩]

/-- One call of `monikor_metric_integer` in `poll_tcp_metrics`. -/
def TcpMetric.poll (clock : Timeval) (stat value : List UInt8) (m : TcpMetric) :
    Metric :=
  metricInteger m.metric clock
    (unsignedOfInt (getIndexValue value (findIndex stat m.column.bytes)))
    m.flags

/-- The string "Tcp:". -/
def tcpTag : List UInt8 := [84, 99, 112, 58]

/-- `poll_tcp_metrics`: `stats` is what `monikor_read_file` returns. -/
def pollTcpMetrics (clock : Timeval) (stats : Option (List UInt8)) :
    Option (List Metric) :=
  match stats with
  | none => some []
  | some stats => do
      let (_, stat) ← strstr tcpTag stats
      match strchr 10 stat with
      | none => some []
      | some (names, _) => do
          let (skipped, value) ← strstr tcpTag stat.tail
          -- a tag in the line of names is cut off by the terminator
          if skipped.length < names.length then some []
          else
            match strchr 10 value with
            | none => some []
            | some (values, _) =>
                return tcpMetrics.map fun m => m.poll clock names values

end Monikor
