/-
What is pushed for the disks: three metrics for each device of
/proc/partitions that is monitored, with its bytes counted in its own
sectors, and six for each file system of /proc/mounts that is.

A file is read line by line; what is behind its last newline is not looked
at, but turns the number that is returned for it into -1
(`diskLines_joined`).
-/
import Monikor.Modules.Disk

namespace Monikor

open Numerals Search

-- ======================================================================= texts

/-- The numbers of a device, each behind some blanks: at least one, but for
the first. -/
structure DeviceStat where
  fields : List (Nat × Figure)
  gaps : ∀ f ∈ fields.tail, f.1 ≠ 0

/-- Numbers behind blanks, and the end of their line. -/
def fieldsText (fields : List (Nat × Figure)) : List UInt8 :=
  fields.flatMap (fun (gap, n) => List.replicate gap 32 ++ n.digits) ++ [10]

/-- A device: its sector size, and its numbers. -/
structure BlockDevice where
  sectorSize : Figure
  stat : DeviceStat

/-- The metrics of the columns there is a number for. -/
def BlockDevice.metrics (clock : Timeval) (name : CString) (d : BlockDevice) :
    List Metric :=
  (devMetrics.zip d.stat.fields).filterMap fun (column, _, n) =>
    column.map fun c =>
      metricInteger (deviceBase name ++ c) clock
        (columnValue (UInt64.ofNat d.sectorSize.number) c
          (UInt64.ofNat n.number)) metricTimedelta

/-- A line of /proc/partitions: its last word is a device, or it has none. -/
inductive PartitionLine where
  | device (front name : List UInt8) (plain : 32 ∉ name)
  | text (bytes : List UInt8) (plain : 32 ∉ bytes)

def PartitionLine.line : PartitionLine → List UInt8
  | .device front name _ => front ++ 32 :: name
  | .text bytes _ => bytes

/-- What is pushed for a line, of the devices there are. -/
def PartitionLine.metrics (clock : Timeval)
    (devices : CString → Option BlockDevice) : PartitionLine → List Metric
  | .device _ name _ =>
      if isMonitoredDevice (cString name).bytes then
        match devices (cString name) with
        | some d => d.metrics clock (cString name)
        | none => []
      else []
  | .text .. => []

/-- A line of /proc/mounts: four words or more, or less. -/
inductive MountLine where
  | mount (source path fstype rest : List UInt8)
      (plain : 32 ∉ source ∧ 32 ∉ path ∧ 32 ∉ fstype)
  | text (bytes : List UInt8) (few : bytes.count 32 < 3)

def MountLine.line : MountLine → List UInt8
  | .mount source path fstype rest _ =>
      source ++ 32 :: (path ++ 32 :: (fstype ++ 32 :: rest))
  | .text bytes _ => bytes

/-- What is pushed for a line. -/
def MountLine.metrics (clock : Timeval) (statvfs : CString → Option Statvfs) :
    MountLine → List Metric
  | .mount _ path fstype _ _ =>
      if isMonitoredFs (cString fstype)
          ∧ (fsBase (cString path)).strlen < 1024 then
        match statvfs (cString path) with
        | some stat => pushFsMetrics clock (cString path) stat
        | none => []
      else []
  | .text .. => []

-- ======================================================================= lines

variable {sys : DiskSystem} {clock : Timeval} {one : List UInt8 → List Metric}
  {lines : List (List UInt8)} {last : List UInt8}

/-- A file is read line by line; the end of a line that is missing is an
error. -/
theorem diskLines_joined (hlines : ∀ l ∈ lines, 10 ∉ l) (hlast : 10 ∉ last)
    (n : Int) :
    diskLines one (joined 10 lines ++ last) n
      = (lines.flatMap one,
        if last = [] then n + (lines.flatMap one).length else -1) := by
  induction lines generalizing n with
  | nil =>
      cases last with
      | nil => simp [diskLines]
      | cons b last =>
          have hnone : strchr 10 (b :: last) = none := strchr_eq_none.mpr hlast
          rw [joined_nil, List.nil_append, diskLines]
          split
          case h_1 => simp
          case h_2 hsome =>
              rw [hnone] at hsome
              cases hsome
  | cons l lines ih =>
      have hfind : strchr 10 (l ++ 10 :: (joined 10 lines ++ last))
          = some (l, joined 10 lines ++ last) :=
        strchr_append (hlines l (by simp)) _
      have htext : joined 10 (l :: lines) ++ last
          = l ++ 10 :: (joined 10 lines ++ last) := by simp
      obtain ⟨b, text, hcons⟩ : ∃ b text,
          l ++ 10 :: (joined 10 lines ++ last) = b :: text :=
        List.exists_cons_of_ne_nil (by simp)
      rw [htext, hcons, diskLines]
      rw [hcons] at hfind
      split
      case h_1 hnone =>
          rw [hfind] at hnone
          cases hnone
      case h_2 line next hsome =>
          obtain ⟨rfl, rfl⟩ := Prod.mk.inj (Option.some.inj
            (hfind.symm.trans hsome))
          dsimp only
          rw [ih fun k hk => hlines k (List.mem_cons_of_mem _ hk)]
          split
          · simp [Int.add_assoc]
          · simp

-- ===================================================================== devices

/-- What follows a number is no digit. -/
theorem fieldsText_head (fields : List (Nat × Figure))
    (hgaps : ∀ f ∈ fields.head?, f.1 ≠ 0) :
    ∃ b rest, isDigitIn 10 b = false ∧ fieldsText fields = b :: rest := by
  cases fields with
  | nil => exact ⟨10, [], by decide, rfl⟩
  | cons f fields =>
      obtain ⟨k, hk⟩ := Nat.exists_eq_succ_of_ne_zero (hgaps f rfl)
      exact ⟨32, _, by decide, by simp [fieldsText, hk, List.replicate_succ]; rfl⟩

theorem devStatLoop_fields (base : CString) (sectorSize : UInt64)
    (columns : List (Option CString)) (fields : List (Nat × Figure))
    (hgaps : ∀ f ∈ fields.tail, f.1 ≠ 0) :
    devStatLoop clock base sectorSize columns (fieldsText fields)
      = (columns.zip fields).filterMap fun (column, _, n) =>
        column.map fun c => metricInteger (base ++ c) clock
          (columnValue sectorSize c (UInt64.ofNat n.number)) metricTimedelta := by
  induction columns generalizing fields with
  | nil => rfl
  | cons column columns ih =>
      cases fields with
      | nil =>
          -- there is no number left, so the loop breaks off
          have hread : strtoull 10 (fieldsText []) = (0, fieldsText []) := rfl
          rw [devStatLoop, hread, List.zip_nil_right]
          exact if_pos rfl
      | cons f fields =>
          obtain ⟨gap, figure⟩ := f
          obtain ⟨b, rest, hb, hnext⟩ := fieldsText_head fields fun f hf => by
            have hin : f ∈ fields := List.mem_of_mem_head? hf
            exact hgaps f hin
          have hstops : Stops 10 (b :: rest) := by
            intro c hc
            obtain rfl : b = c := Option.some.inj hc
            exact hb
          have hblanks : ∀ c ∈ List.replicate gap (32 : UInt8),
              isSpace c = true := by
            intro c hc
            rw [List.eq_of_mem_replicate hc]
            rfl
          have hread := strtoull_numeral _ hblanks figure.numeral figure.fits
            hstops
          have htext : fieldsText ((gap, figure) :: fields)
              = List.replicate gap 32 ++ figure.digits ++ b :: rest := by
            rw [← hnext]
            simp [fieldsText]
          have hmoves : ¬ b :: rest
              = List.replicate gap 32 ++ figure.digits ++ b :: rest := by
            intro heq
            have hlen := congrArg List.length heq
            have hpos := List.length_pos_iff.mpr figure.digits_ne
            simp only [List.length_append, List.length_replicate] at hlen
            omega
          have hlater := ih fields fun f hf => hgaps f (List.mem_of_mem_tail hf)
          rw [hnext] at hlater
          rw [htext, devStatLoop, hread]
          dsimp only
          rw [if_neg hmoves, List.zip_cons_cons, hlater]
          cases column with
          | none => rfl
          | some name => rfl

-- ======================================================================= files

/-- The files of a device. -/
def BlockDevice.Shown (sys : DiskSystem) (name : CString) (d : BlockDevice) :
    Prop :=
  (sys.read (sectorSizePath name)).map CString.bytes
      = some (d.sectorSize.digits ++ [10])
    ∧ (sys.read (deviceStatPath name)).map CString.bytes
      = some (fieldsText d.stat.fields)

/-- The files of the devices that are monitored are there, or are not. -/
def ShowsDevices (sys : DiskSystem) (devices : CString → Option BlockDevice) :
    Prop :=
  ∀ name, isMonitoredDevice name.bytes = true →
    match devices name with
    | some d => d.Shown sys name
    | none => sys.read (sectorSizePath name) = none
        ∨ sys.read (deviceStatPath name) = none

theorem PartitionLine.fetched (clock : Timeval)
    {devices : CString → Option BlockDevice}
    (hdevices : ShowsDevices sys devices) (l : PartitionLine) :
    fetchOneDiskDevMetrics sys clock l.line = l.metrics clock devices := by
  cases l with
  | text bytes plain =>
      rw [fetchOneDiskDevMetrics, PartitionLine.line, strrchr_eq_none.mpr plain]
      rfl
  | device front name plain =>
      rw [fetchOneDiskDevMetrics, PartitionLine.line, strrchr_append _ plain]
      dsimp only [PartitionLine.metrics]
      cases hmonitored : isMonitoredDevice (cString name).bytes with
      | false => rfl
      | true =>
          have hshown := hdevices (cString name) hmonitored
          cases hd : devices (cString name) with
          | none =>
              rw [hd] at hshown
              rcases hshown with hnone | hnone
              · rw [hnone]
                rfl
              · rw [hnone]
                cases sys.read (sectorSizePath (cString name)) <;> rfl
          | some d =>
              rw [hd] at hshown
              obtain ⟨hsize, hstat⟩ := hshown
              obtain ⟨size, hreads, hsize⟩ := Option.map_eq_some_iff.mp hsize
              obtain ⟨stat, hreadt, hstat⟩ := Option.map_eq_some_iff.mp hstat
              have hsector := d.sectorSize.strtoull (d := 10) (by decide) []
              rw [hreads, hreadt]
              dsimp only
              rw [hsize, hstat, hsector, processOneDiskDevStat,
                devStatLoop_fields _ _ _ _ d.stat.gaps]
              rfl

theorem mountFields_few {bytes : List UInt8} (few : bytes.count 32 < 3) :
    mountFields bytes = none := by
  cases hpath : strchr 32 bytes with
  | none => simp [mountFields, hpath]
  | some found =>
      obtain ⟨source, path⟩ := found
      obtain ⟨rfl, -⟩ := strchr_some hpath
      cases hfstype : strchr 32 path with
      | none => simp [mountFields, hpath, hfstype]
      | some found =>
          obtain ⟨path, fstype⟩ := found
          obtain ⟨rfl, -⟩ := strchr_some hfstype
          cases hopts : strchr 32 fstype with
          | none => simp [mountFields, hpath, hfstype, hopts]
          | some found =>
              obtain ⟨fstype, opts⟩ := found
              obtain ⟨rfl, -⟩ := strchr_some hopts
              -- three blanks have been found
              simp only [List.count_append, List.count_cons_self] at few
              omega

theorem MountLine.fetched (sys : DiskSystem) (clock : Timeval) (l : MountLine) :
    fetchOneDiskFsMetrics sys clock l.line = l.metrics clock sys.statvfs := by
  cases l with
  | text bytes few =>
      rw [fetchOneDiskFsMetrics, MountLine.line, mountFields_few few]
      rfl
  | mount source path fstype rest plain =>
      obtain ⟨hsource, hpath, hfstype⟩ := plain
      have hfields : mountFields
          (source ++ 32 :: (path ++ 32 :: (fstype ++ 32 :: rest)))
            = some (cString path, cString fstype) := by
        simp only [mountFields, strchr_append hsource, strchr_append hpath,
          strchr_append hfstype, Option.bind_eq_bind, Option.bind_some]
        rfl
      rw [fetchOneDiskFsMetrics, MountLine.line, hfields]
      dsimp only [MountLine.metrics]
      cases isMonitoredFs (cString fstype) with
      | false => simp
      | true =>
          cases sys.statvfs (cString path) with
          | none => simp
          | some stat =>
              by_cases hfits : (fsBase (cString path)).strlen < 1024
              · simp [hfits, Nat.not_le.mpr hfits]
              · simp [hfits, Nat.not_lt.mp hfits]

-- ======================================================================= polls

/-- A file of lines, and what is behind the last newline. -/
structure LinedFile (β : Type) (line : β → List UInt8) where
  lines : List β
  last : List UInt8
  plain : (∀ l ∈ lines, 10 ∉ line l) ∧ 10 ∉ last

variable {β : Type} {line : β → List UInt8}

def LinedFile.text (f : LinedFile β line) : List UInt8 :=
  joined 10 (f.lines.map line) ++ f.last

/-- What is returned, if `n` metrics are pushed for a file. -/
def LinedFile.count (f : LinedFile β line) (n : Nat) : Int :=
  if f.last = [] then n else -1

theorem LinedFile.fetched (f : LinedFile β line)
    {metrics : β → List Metric} (hone : ∀ l, one (line l) = metrics l) :
    diskLines one f.text 0
      = (f.lines.flatMap metrics, f.count (f.lines.flatMap metrics).length) := by
  have hplain : ∀ w ∈ f.lines.map line, 10 ∉ w := by
    intro w hw
    obtain ⟨l, hl, rfl⟩ := List.mem_map.mp hw
    exact f.plain.1 l hl
  have hmetrics : (f.lines.map line).flatMap one = f.lines.flatMap metrics := by
    rw [List.flatMap_map]
    exact List.flatMap_congr fun l _ => hone l
  rw [LinedFile.text, diskLines_joined hplain f.plain.2, hmetrics, Int.zero_add]
  rfl

/-- A poll of the disks: whatever is in /proc/mounts, in /proc/partitions and
in the files of the devices, six metrics are pushed for each mount of a
monitored file system that statvfs knows and whose path fits, and those of its
columns for each monitored device, in order. The number that is returned is
how many they are, if both files end with a newline. -/
theorem disk_pushed (clock : Timeval) (sys : DiskSystem)
    (mounts : LinedFile MountLine MountLine.line)
    (partitions : LinedFile PartitionLine PartitionLine.line)
    (devices : CString → Option BlockDevice)
    (hmounts : (sys.read mountsPath).map CString.bytes = some mounts.text)
    (hpartitions : (sys.read partitionsPath).map CString.bytes
      = some partitions.text)
    (hdevices : ShowsDevices sys devices) :
    let fs := mounts.lines.flatMap (MountLine.metrics clock sys.statvfs)
    let dev :=
      partitions.lines.flatMap (PartitionLine.metrics clock devices)
    pollDiskMetrics sys clock
      = (fs ++ dev, mounts.count fs.length + partitions.count dev.length) := by
  intro fs dev
  obtain ⟨m, hm, hmtext⟩ := Option.map_eq_some_iff.mp hmounts
  obtain ⟨p, hp, hptext⟩ := Option.map_eq_some_iff.mp hpartitions
  have hfs := mounts.fetched (MountLine.fetched sys clock)
  have hdev := partitions.fetched (PartitionLine.fetched clock hdevices)
  rw [pollDiskMetrics, fetchFile, fetchFile, hm, hp]
  dsimp only
  rw [hmtext, hptext, fetchDiskFsMetrics, fetchDiskDevMetrics, hfs, hdev]

/-- A root file system, and a device with sectors of 512 bytes whose third
number is 2. -/
theorem disk_pushed_sda :
    let bytes (s : String) : List UInt8 := (CString.ofString s).bytes
    let one : Figure := ⟨[49], by decide, by decide⟩
    let two : Figure := ⟨[50], by decide, by decide⟩
    let size : Figure := ⟨[53, 49, 50], by decide, by decide⟩
    let sda : BlockDevice := ⟨size, [(4, one), (1, one), (1, two)], by decide⟩
    let mounts : LinedFile MountLine MountLine.line :=
      ⟨[.mount (bytes "/dev/sda1") (bytes "/") (bytes "ext4") (bytes "rw 0 0")
        (by decide)], [], by decide, by decide⟩
    let partitions : LinedFile PartitionLine PartitionLine.line :=
      ⟨[.text [] (by decide), .device (bytes "   8        0   9")
        (bytes "sda") (by decide)], [], by decide, by decide⟩
    let read (path : CString) : Option CString :=
      if path = mountsPath then some (cString mounts.text)
      else if path = partitionsPath then some (cString partitions.text)
      else if path.bytes.getLast? = some 116 then
        some (cString (fieldsText sda.stat.fields))
      else some (cString (size.digits ++ [10]))
    let sys : DiskSystem := ⟨read, fun _ => some ⟨4096, 9, 8, 7, 6, 5, 4⟩⟩
    let fs := mounts.lines.flatMap (MountLine.metrics ⟨1, 2⟩ sys.statvfs)
    let dev := partitions.lines.flatMap
      (PartitionLine.metrics ⟨1, 2⟩ fun _ => some sda)
    pollDiskMetrics sys ⟨1, 2⟩
      = (fs ++ dev, mounts.count fs.length + partitions.count dev.length) := by
  intro bytes one two size sda mounts partitions read sys fs dev
  have hsys : ∀ path : CString, path.bytes[1]? = some 115 →
      path ≠ mountsPath ∧ path ≠ partitionsPath := by
    intro path hpath
    constructor
    · rintro rfl
      exact absurd hpath (by decide)
    · rintro rfl
      exact absurd hpath (by decide)
  refine disk_pushed ⟨1, 2⟩ sys mounts partitions (fun _ => some sda) ?_ ?_ ?_
  · decide +kernel
  · decide +kernel
  · intro name _
    obtain ⟨hm, hp⟩ := hsys (sectorSizePath name) rfl
    obtain ⟨hm', hp'⟩ := hsys (deviceStatPath name) rfl
    constructor
    · have hlast : (sectorSizePath name).bytes.getLast? ≠ some 116 := by
        rw [sectorSizePath, CString.append_bytes, List.getLast?_append]
        simp [show (CString.ofString "/queue/hw_sector_size").bytes.getLast?
          = some 101 from rfl]
      show (read (sectorSizePath name)).map CString.bytes = _
      simp only [read, if_neg hm, if_neg hp, if_neg hlast]
      decide
    · have hlast : (deviceStatPath name).bytes.getLast? = some 116 := by
        rw [deviceStatPath, CString.append_bytes, List.getLast?_append]
        simp [show (CString.ofString "/stat").bytes.getLast? = some 116
          from rfl]
      show (read (deviceStatPath name)).map CString.bytes = _
      simp only [read, if_neg hm', if_neg hp', if_pos hlast]
      decide

end Monikor
