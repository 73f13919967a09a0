/-
modules/network/poll.c: the counters of the interfaces in /proc/net/dev.

A text is the bytes up to the terminator. `next_device_info` puts
terminators into it, so what its pointers read is the part of the text up
to them. The metrics pushed are listed in order; their number is what the
functions return.
-/
import Monikor.Lib.Numerals
import Monikor.Lib.Search
import Monikor.Metric

namespace Monikor

open Numerals Search

/-- `net_metrics`: the names of the columns, or NULL. -/
def netMetrics : List (Option CString) :=
  [some (.ofString "rx.bytes"), some (.ofString "rx.packets"),
    some (.ofString "rx.errors"), some (.ofString "rx.dropped"),
    none, none, none, none,
    some (.ofString "tx.bytes"), some (.ofString "tx.packets"),
    some (.ofString "tx.errors"), some (.ofString "tx.dropped"),
    none, none, none, none]

/-- `metric_base`: the name of the metrics of a device, but for the column. -/
def metricBase (name : CString) : CString :=
  .ofString "network.interfaces." ++ name ++ .ofString "."

/-- The loop of `poll_device_metrics`. -/
def pollDeviceLoop (clock : Timeval) (base : CString) :
    List (Option CString) → List UInt8 → List Metric
  | [], _ => []
  | column :: columns, metric =>
      let (value, metric) := strtoull 10 metric
      match column with
      | some suffix =>
          metricInteger (base ++ suffix) clock value metricTimedelta
            :: pollDeviceLoop clock base columns metric
      | none => pollDeviceLoop clock base columns metric

/-- `poll_device_metrics`. -/
def pollDeviceMetrics (clock : Timeval) (name : CString) (info : List UInt8) :
    List Metric :=
  pollDeviceLoop clock (metricBase name) netMetrics info

/-- The loop of `next_device_info`: where it stops, from `p` on backwards. -/
def devnameLoop (netinfo : List UInt8) : Nat → Nat
  | 0 => 0
  | p + 1 =>
      match netinfo[p + 1]? with
      | some b => if b = 32 ∨ b = 10 then p + 1 else devnameLoop netinfo p
      | none => p + 1

/-- `next_device_info`: the name, the rest of its line, and what is behind
it. -/
def nextDeviceInfo (netinfo : List UInt8) :
    Option (List UInt8 × List UInt8 × List UInt8) := do
  let (front, rest) ← strchr 58 netinfo
  let stop := devnameLoop netinfo front.length
  let devname := if stop ≠ 0 then front.drop (stop + 1) else front
  let (devinfo, rest) ← strchr 10 rest
  return (devname, devinfo, rest)

/-- `MNK_NET_MAX_DEV_LEN`. -/
def netMaxDevLen : Nat := 10

/-- `is_valid_device`: `ifaces` is the list of the module, or NULL. -/
def isValidDevice (ifaces : Option (List CString)) (name : CString) : Bool :=
  if netMaxDevLen < name.strlen then false
  else
    match ifaces with
    | some ifaces => name ∈ ifaces
    | none =>
        !((CString.ofString "veth").bytes.isPrefixOf name.bytes
          || (CString.ofString "dummy").bytes.isPrefixOf name.bytes
          || (CString.ofString "docker").bytes.isPrefixOf name.bytes)

/-- A call moves on behind the line of the device. -/
theorem nextDeviceInfo_length {netinfo name info rest : List UInt8}
    (h : nextDeviceInfo netinfo = some (name, info, rest)) :
    rest.length < netinfo.length := by
  obtain ⟨⟨front, behind⟩, hcolon, h⟩ := Option.bind_eq_some_iff.mp h
  obtain ⟨⟨info', rest'⟩, hend, h⟩ := Option.bind_eq_some_iff.mp h
  obtain rfl : rest' = rest :=
    congrArg (fun r => r.2.2) (Option.some.inj h)
  obtain ⟨rfl, -⟩ := strchr_some hcolon
  obtain ⟨rfl, -⟩ := strchr_some hend
  simp only [List.length_append, List.length_cons]
  omega

/-- The devices that calls of `next_device_info` find until one returns
NULL. -/
def devices (netinfo : List UInt8) : List (List UInt8 × List UInt8) :=
  match h : nextDeviceInfo netinfo with
  | none => []
  | some (name, info, rest) =>
      have := nextDeviceInfo_length h
      (name, info) :: devices rest
termination_by netinfo.length

/-- `poll_network_metrics`: `netinfo` is what `monikor_read_file` returns. -/
def pollNetworkMetrics (clock : Timeval) (ifaces : Option (List CString))
    (netinfo : Option (List UInt8)) : List Metric :=
  match netinfo with
  | none => []
  | some netinfo =>
      (devices netinfo).flatMap fun (dev, info) =>
        if isValidDevice ifaces (cString dev) then
          pollDeviceMetrics clock (cString dev) info
        else []

end Monikor
