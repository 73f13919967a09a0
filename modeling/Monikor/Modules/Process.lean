/-
modules/process/poll.c: the processes of the host, by their states.

A text is the bytes up to the terminator, and `none` is a read behind it.
The metrics pushed are listed in order.
-/
import Monikor.Lib.Numerals
import Monikor.Lib.Search
import Monikor.Metric

namespace Monikor

open Numerals Search

/-- `struct dirent`, with what `looks_like_pid_dir` reads. -/
structure Dirent where
  type : UInt8
  name : CString
deriving DecidableEq

/-- `DT_DIR`. -/
def dtDir : UInt8 := 4

/-- `looks_like_pid_dir`. -/
def looksLikePidDir (entry : Dirent) : Bool :=
  entry.type == dtDir && entry.name.bytes.all (isDigitIn 10)

/-- `PROC_STATUSES`: the string "RSDZTW". -/
def procStatuses : List UInt8 := [82, 83, 68, 90, 84, 87]

/-- `PROC_TOTAL`. -/
def procTotal : Nat := 6

/-- `NB_PROC_METRICS`. -/
def nbProcMetrics : Nat := 7

/-- `metric_name`. -/
def metricName : List CString :=
  [.ofString "process.running", .ofString "process.sleeping",
    .ofString "process.waiting", .ofString "process.zombie",
    .ofString "process.stopped", .ofString "process.paging",
    .ofString "process.total"]

/-- The file of a process. -/
def statPath (pid : CString) : CString :=
  .ofString "/proc/" ++ pid ++ .ofString "/stat"

/-- One more process in a slot of `metrics`. -/
def increment (metrics : List UInt64) (slot : Nat) : List UInt64 :=
  metrics.modify slot (· + 1)

/-- `fetch_one_process_metrics`: `procStat` is what `monikor_read_file`
returns. -/
def fetchOneProcessMetrics (metrics : List UInt64)
    (procStat : Option (List UInt8)) : Option (List UInt64) :=
  match procStat.bind (strchr 41) with
  | none => some metrics
  | some (_, info) => do
      let letter ← (info ++ [0])[1]?
      -- the search includes the terminator of the statuses
      let metrics :=
        match strchr letter (procStatuses ++ [0]) with
        | some (front, _) => increment metrics front.length
        | none => metrics
      return increment metrics procTotal

/-- The loop of `poll_process_metrics` over the entries of a directory. -/
def pollProcessLoop (files : CString → Option (List UInt8))
    (metrics : List UInt64) (entries : List Dirent) : Option (List UInt64) :=
  entries.foldlM (fun metrics entry =>
    if looksLikePidDir entry then
      fetchOneProcessMetrics metrics (files (statPath entry.name))
    else some metrics) metrics

/-- `poll_process_metrics`: `dir` is what `opendir` returns. -/
def pollProcessMetrics (clock : Timeval) (dir : Option (List Dirent))
    (files : CString → Option (List UInt8)) : Option (List Metric) :=
  match dir with
  | none => some []
  | some entries => do
      let metrics ← pollProcessLoop files (List.replicate nbProcMetrics 0)
        entries
      return List.zipWith (metricInteger · clock · 0) metricName metrics

end Monikor
