/-
modules/disk/poll.c: the metrics of the disks and of the file systems.

What is returned is the metrics that are pushed, with the number the source
returns. A text is the bytes up to the terminator; a line that is cut out of
it is the part of the text that is read of it. What the module asks of the
system is in a `DiskSystem`.
-/
import Monikor.Lib.Tagged
import Monikor.Metric

namespace Monikor

open Numerals Search

/-- `struct statvfs`, as far as it is read. -/
structure Statvfs where
  frsize : UInt64
  blocks : UInt64
  bfree : UInt64
  bavail : UInt64
  files : UInt64
  ffree : UInt64
  favail : UInt64
deriving DecidableEq

/-- What `monikor_read_file` and statvfs(2) answer. -/
structure DiskSystem where
  read : CString → Option CString
  statvfs : CString → Option Statvfs

-- ===================================================================== devices

/-- `dev_metrics`: the names of the columns, or "". -/
def devMetrics : List (Option CString) :=
  [none, none, some (.ofString "bytes.read"), none,
    none, none, some (.ofString "bytes.write"), none,
    none, some (.ofString "io.spent_ms"), none]

/-- A column of bytes counts sectors. -/
def columnValue (sectorSize : UInt64) (column : CString) (val : UInt64) :
    UInt64 :=
  if (CString.ofString "bytes.").bytes.isPrefixOf column.bytes then
    val * sectorSize
  else val

/-- The loop of `process_one_disk_dev_stat`. -/
def devStatLoop (clock : Timeval) (base : CString) (sectorSize : UInt64) :
    List (Option CString) → List UInt8 → List Metric
  | [], _ => []
  | column :: columns, stat =>
      let (val, next) := strtoull 10 stat
      if next = stat then []
      else
        match column with
        | some name =>
            metricInteger (base ++ name) clock (columnValue sectorSize name val)
                metricTimedelta
              :: devStatLoop clock base sectorSize columns next
        | none => devStatLoop clock base sectorSize columns next

/-- "disk.device.%s.". -/
def deviceBase (dev : CString) : CString :=
  .ofString "disk.device." ++ dev ++ .ofString "."

/-- `process_one_disk_dev_stat`. -/
def processOneDiskDevStat (clock : Timeval) (dev : CString)
    (stats : List UInt8) (sectorSize : UInt64) : List Metric :=
  devStatLoop clock (deviceBase dev) sectorSize devMetrics stats

/-- `is_monitored_device`: `hd` or `sd`, and a letter. -/
def isMonitoredDevice : List UInt8 → Bool
  | [a, b, c] => (a = 104 ∨ a = 115) ∧ b = 100 ∧ 97 ≤ c ∧ c ≤ 122
  | _ => false

/-- "/sys/block/%s/queue/hw_sector_size". -/
def sectorSizePath (dev : CString) : CString :=
  .ofString "/sys/block/" ++ dev ++ .ofString "/queue/hw_sector_size"

/-- "/sys/block/%s/stat". -/
def deviceStatPath (dev : CString) : CString :=
  .ofString "/sys/block/" ++ dev ++ .ofString "/stat"

/-- `fetch_one_disk_dev_metrics`. -/
def fetchOneDiskDevMetrics (sys : DiskSystem) (clock : Timeval)
    (part : List UInt8) : List Metric :=
  match strrchr 32 part with
  | none => []
  | some (_, name) =>
      let dev := cString name
      if !isMonitoredDevice dev.bytes then []
      else
        match sys.read (sectorSizePath dev), sys.read (deviceStatPath dev) with
        | some sectorSize, some stats =>
            processOneDiskDevStat clock dev stats.bytes
              (strtoull 10 sectorSize.bytes).1
        | _, _ => []

-- ================================================================ file systems

/-- `monitored_fs`. -/
def monitoredFs : List CString :=
  ["btrfs", "ext2", "ext3", "ext4", "jfs", "reiser", "xfs", "ffs", "ufs", "jfs",
    "jfs2", "vxfs", "hfs", "ntfs", "fat3"].map .ofString

/-- `is_monitored_fs`. -/
def isMonitoredFs (fstype : CString) : Bool := fstype ∈ monitoredFs

/-- The metrics of a file system, in order. -/
def fsMetrics : List (CString × (Statvfs → UInt64)) :=
  [(.ofString "bytes.total", fun s => s.frsize * s.blocks),
    (.ofString "bytes.free", fun s => s.frsize * s.bfree),
    (.ofString "bytes.available", fun s => s.frsize * s.bavail),
    (.ofString "inodes.total", Statvfs.files),
    (.ofString "inodes.free", Statvfs.ffree),
    (.ofString "inodes.available", Statvfs.favail)]

/-- "disk.fs.%s.". -/
def fsBase (path : CString) : CString :=
  .ofString "disk.fs." ++ path ++ .ofString "."

/-- What is pushed for a file system. -/
def pushFsMetrics (clock : Timeval) (path : CString) (stat : Statvfs) :
    List Metric :=
  fsMetrics.map fun (name, value) =>
    metricInteger (fsBase path ++ name) clock (value stat) 0

/-- The path and the type in a line of /proc/mounts. -/
def mountFields (mount : List UInt8) : Option (CString × CString) := do
  let (_, path) ← strchr 32 mount
  let (path, fstype) ← strchr 32 path
  let (fstype, _) ← strchr 32 fstype
  return (cString path, cString fstype)

/-- `fetch_one_disk_fs_metrics`. -/
def fetchOneDiskFsMetrics (sys : DiskSystem) (clock : Timeval)
    (mount : List UInt8) : List Metric :=
  match mountFields mount with
  | none => []
  | some (path, fstype) =>
      if !isMonitoredFs fstype then []
      else
        match sys.statvfs path with
        | none => []
        | some stat =>
            if 1024 ≤ (fsBase path).strlen then []
            else pushFsMetrics clock path stat

-- ======================================================================= polls

/-- The loop of `fetch_disk_dev_metrics` and of `fetch_disk_fs_metrics`: what
is pushed, and what is returned. -/
def diskLines (one : List UInt8 → List Metric) (text : List UInt8) (n : Int) :
    List Metric × Int :=
  match text with
  | [] => ([], n)
  | b :: text =>
      match h : strchr 10 (b :: text) with
      | none => ([], -1)
      | some (line, next) =>
          let pushed := one line
          let (later, n) := diskLines one next (n + pushed.length)
          (pushed ++ later, n)
termination_by text.length
decreasing_by
  obtain ⟨hsplit, -⟩ := strchr_some h
  have hlen := congrArg List.length hsplit
  simp only [List.length_append, List.length_cons] at hlen ⊢
  omega

/-- `fetch_disk_dev_metrics`. -/
def fetchDiskDevMetrics (sys : DiskSystem) (clock : Timeval)
    (parts : List UInt8) : List Metric × Int :=
  diskLines (fetchOneDiskDevMetrics sys clock) parts 0

/-- `fetch_disk_fs_metrics`. -/
def fetchDiskFsMetrics (sys : DiskSystem) (clock : Timeval)
    (mounts : List UInt8) : List Metric × Int :=
  diskLines (fetchOneDiskFsMetrics sys clock) mounts 0

/-- "/proc/mounts". -/
def mountsPath : CString := .ofString "/proc/mounts"

/-- "/proc/partitions". -/
def partitionsPath : CString := .ofString "/proc/partitions"

/-- What is made of a file, if it can be read. -/
def fetchFile (sys : DiskSystem) (path : CString)
    (fetch : List UInt8 → List Metric × Int) : List Metric × Int :=
  match sys.read path with
  | some text => fetch text.bytes
  | none => ([], 0)

/-- `poll_disk_metrics`. -/
def pollDiskMetrics (sys : DiskSystem) (clock : Timeval) : List Metric × Int :=
  let (fs, n) := fetchFile sys mountsPath (fetchDiskFsMetrics sys clock)
  let (dev, m) := fetchFile sys partitionsPath (fetchDiskDevMetrics sys clock)
  (fs ++ dev, n + m)

end Monikor
