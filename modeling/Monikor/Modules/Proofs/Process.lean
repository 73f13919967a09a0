/-
Which states of processes are counted.

The state is two places behind the first parenthesis that closes in a text,
and where the name of a process closes one it is a byte of the name or of
what is behind it that is counted (`Process.seen`). No byte of a text is the
terminator, so the slot of the total is only used for the total.
-/
import Monikor.Modules.Process

namespace Monikor

open Numerals Search

-- ================================================================= processes

/-- A process, and what its text has behind the state. -/
structure Process where
  pid : CString
  numeric : ∀ b ∈ pid.bytes, isDigitIn 10 b = true
  comm : CString
  state : UInt8
  letter : (65 ≤ state ∧ state ≤ 90) ∨ (97 ≤ state ∧ state ≤ 122)
  rest : List UInt8

/-- `pid (comm) S rest`. -/
def Process.text (p : Process) : List UInt8 :=
  p.pid.bytes ++ [32, 40] ++ p.comm.bytes ++ [41, 32] ++ p.state :: p.rest

/-- What /proc has: the directories of processes among its entries, and their
files. -/
structure ProcFs where
  processes : List Process
  entries : List Dirent
  files : CString → Option (List UInt8)
  listed : entries.filter looksLikePidDir
    = processes.map fun p => ⟨dtDir, p.pid⟩
  stats : ∀ p ∈ processes, files (statPath p.pid) = some p.text

/-- The numbers of processes by their states, and that of all of them. -/
def stateCounts (processes : List Process) : List Nat :=
  procStatuses.map (fun s => processes.countP (·.state = s))
    ++ [processes.length]

/-- The value of a metric that is an integer. -/
def Metric.number (m : Metric) : Option Nat :=
  match m.value with
  | .int v => some v.toNat
  | _ => none

/-- The metrics are pushed with the numbers of processes. -/
def CountsStates (clock : Timeval) (fs : ProcFs) : Prop :=
  ∃ metrics, pollProcessMetrics clock (some fs.entries) fs.files = some metrics
    ∧ metrics.map (fun m => (m.name, m.number))
      = metricName.zip ((stateCounts fs.processes).map some)

/-- The name closes a parenthesis. -/
def Process.closes (p : Process) : Bool := p.comm.bytes.contains 41

/-- The byte of the name two places behind the first parenthesis it closes. -/
def Process.nameLetter (p : Process) : Option UInt8 :=
  (strchr 41 p.comm.bytes).bind fun (_, behind) => behind[1]?

/-- For each status, the processes whose names close a parenthesis are as many
in the state as have its letter in their names. -/
def LettersAgree (processes : List Process) : Prop :=
  ∀ s ∈ procStatuses,
    (processes.filter Process.closes).countP (·.nameLetter = some s)
      = (processes.filter Process.closes).countP (·.state = s)

-- =================================================================== letters

variable {p : Process} {processes : List Process} {s : UInt8}

/-- What is behind the first parenthesis that closes. -/
def Process.behind (p : Process) : List UInt8 :=
  match strchr 41 p.comm.bytes with
  | none => 32 :: p.state :: p.rest
  | some (_, behind) => behind ++ 41 :: 32 :: p.state :: p.rest

/-- The byte that is taken for the state. -/
def Process.seen (p : Process) : UInt8 := p.behind.getD 1 0

/-- A name closes a parenthesis, or its state is the byte taken. -/
theorem Process.seen_cases (p : Process) :
    (p.closes = false ∧ p.seen = p.state)
      ∨ (p.closes = true ∧ ∃ front behind,
        p.comm.bytes = front ++ 41 :: behind ∧ p.nameLetter = behind[1]?
          ∧ p.seen = (behind ++ [41, 32]).getD 1 0) := by
  cases hfind : strchr 41 p.comm.bytes with
  | none =>
      refine .inl ⟨?_, ?_⟩
      · simpa [Process.closes] using strchr_eq_none.mp hfind
      · simp [Process.seen, Process.behind, hfind]
  | some found =>
      obtain ⟨front, behind⟩ := found
      obtain ⟨hcomm, -⟩ := strchr_some hfind
      refine .inr ⟨?_, front, behind, hcomm, ?_, ?_⟩
      · simp [Process.closes, hcomm]
      · simp [Process.nameLetter, hfind]
      · simp only [Process.seen, Process.behind, hfind]
        match behind with
        | [] => rfl
        | [b] => rfl
        | b :: c :: behind => rfl

/-- A text has no terminator where the state is looked for. -/
theorem Process.seen_ne_zero (p : Process) : p.seen ≠ 0 := by
  rcases p.seen_cases with ⟨-, hseen⟩ | ⟨-, front, behind, hcomm, -, hseen⟩
  · intro h0
    have hletter := p.letter
    rw [← hseen, h0] at hletter
    exact absurd hletter (by decide)
  · rw [hseen]
    match behind with
    | [] => decide
    | [b] => exact (by decide : (41 : UInt8) ≠ 0)
    | b :: c :: behind =>
        intro h0
        have hc : c = 0 := h0
        apply p.comm.nul_free
        rw [hcomm, ← hc]
        simp

/-- What is counted for a status, by whether the name closes a parenthesis. -/
theorem Process.seen_eq_iff (p : Process) (hs : s ∈ procStatuses) :
    p.seen = s ↔ if p.closes then p.nameLetter = some s else p.state = s := by
  rcases p.seen_cases with ⟨hcloses, hseen⟩
    | ⟨hcloses, -, behind, -, hletter, hseen⟩
  · simp [hcloses, hseen]
  · have hplain : s ≠ 41 ∧ s ≠ 32 := by
      constructor
      · rintro rfl
        exact absurd hs (by decide)
      · rintro rfl
        exact absurd hs (by decide)
    rw [hseen, hcloses, hletter]
    match behind with
    | [] => simpa using hplain.2.symm
    | [b] => simpa using hplain.1.symm
    | b :: c :: behind => simp

/-- The text is searched to the first parenthesis that closes. -/
theorem Process.strchr_text (p : Process) :
    ∃ front, strchr 41 p.text = some (front, p.behind) := by
  obtain ⟨front, hfront, htext⟩ : ∃ front, 41 ∉ front
      ∧ p.comm.bytes ++ 41 :: 32 :: p.state :: p.rest
        = front ++ 41 :: p.behind := by
    cases hfind : strchr 41 p.comm.bytes with
    | none =>
        have hbehind : p.behind = 32 :: p.state :: p.rest := by
          simp [Process.behind, hfind]
        exact ⟨p.comm.bytes, strchr_eq_none.mp hfind, by rw [hbehind]⟩
    | some found =>
        obtain ⟨front, behind⟩ := found
        have hbehind : p.behind = behind ++ 41 :: 32 :: p.state :: p.rest := by
          simp [Process.behind, hfind]
        obtain ⟨hcomm, hclosed⟩ := strchr_some hfind
        exact ⟨front, hclosed, by rw [hcomm, hbehind]; simp⟩
  have hline : 41 ∉ p.pid.bytes ++ 32 :: 40 :: front := by
    intro h
    rcases List.mem_append.mp h with h | h
    · exact absurd (p.numeric 41 h) (by decide)
    · simp [hfront] at h
  have hsplit : p.text
      = (p.pid.bytes ++ 32 :: 40 :: front) ++ 41 :: p.behind := by
    simp only [Process.text, List.append_assoc, List.cons_append,
      List.nil_append, ← htext]
  exact ⟨_, by rw [hsplit, strchr_append hline]⟩

-- ==================================================================== counts

/-- The slots of `metrics` when processes have been counted. -/
def seenCounts (processes : List Process) : List UInt64 :=
  procStatuses.map (fun s => UInt64.ofNat (processes.countP (·.seen = s)))
    ++ [UInt64.ofNat processes.length]

/-- A byte adds to the slot of its status, if it is one, and to the total. -/
theorem increment_letter (f : UInt8 → UInt64) (n : UInt64) {c : UInt8}
    (hc : c ≠ 0) :
    increment
        (match strchr c (procStatuses ++ [0]) with
          | some (front, _) =>
              increment (procStatuses.map f ++ [n]) front.length
          | none => procStatuses.map f ++ [n]) procTotal
      = procStatuses.map (fun s => if c = s then f s + 1 else f s)
        ++ [n + 1] := by
  by_cases hs : c ∈ procStatuses
  case pos =>
      simp only [procStatuses, List.mem_cons, List.not_mem_nil, or_false] at hs
      rcases hs with rfl | rfl | rfl | rfl | rfl | rfl
      · rfl
      · rfl
      · rfl
      · rfl
      · rfl
      · rfl
  case neg =>
      have hnone : strchr c (procStatuses ++ [0]) = none := by
        rw [strchr_eq_none]
        simp [hs, hc]
      have hsame : procStatuses.map (fun s => if c = s then f s + 1 else f s)
          = procStatuses.map f := by
        apply List.map_congr_left
        intro s hmem
        apply if_neg
        rintro rfl
        exact hs hmem
      rw [hnone, hsame]
      rfl

/-- A process is counted in the slot of what is taken for its state, and in
that of the total. -/
theorem fetchOneProcessMetrics_text (processes : List Process) (p : Process) :
    fetchOneProcessMetrics (seenCounts processes) (some p.text)
      = some (seenCounts (processes ++ [p])) := by
  obtain ⟨front, hfind⟩ := p.strchr_text
  have hletter : (p.behind ++ [0])[1]? = some p.seen := by
    have hlen : 1 < p.behind.length := by
      unfold Process.behind
      split
      · simp
      · simp only [List.length_append, List.length_cons]
        omega
    rw [List.getElem?_append_left hlen, Process.seen,
      List.getD_eq_getElem?_getD, List.getElem?_eq_getElem hlen,
      Option.getD_some]
  unfold fetchOneProcessMetrics
  have htotal : UInt64.ofNat (processes ++ [p]).length
      = UInt64.ofNat processes.length + 1 := by
    rw [List.length_append, List.length_singleton, UInt64.ofNat_add]
    rfl
  have hcount : ∀ s, UInt64.ofNat ((processes ++ [p]).countP (·.seen = s))
      = if p.seen = s then UInt64.ofNat (processes.countP (·.seen = s)) + 1
        else UInt64.ofNat (processes.countP (·.seen = s)) := by
    intro s
    rw [List.countP_append, List.countP_singleton, UInt64.ofNat_add]
    by_cases hs : p.seen = s
    · simp [hs]
    · simp [hs]
  have hslots := increment_letter
    (fun s => UInt64.ofNat (processes.countP (·.seen = s)))
    (UInt64.ofNat processes.length) p.seen_ne_zero
  simp only [Option.bind_some, hfind, hletter, Option.bind_eq_bind, seenCounts,
    hcount, htotal]
  exact congrArg some hslots

/-- The loop counts the processes among the entries. -/
theorem pollProcessLoop_seen (fs : ProcFs) :
    pollProcessLoop fs.files (List.replicate nbProcMetrics 0) fs.entries
      = some (seenCounts fs.processes) := by
  have hrun : ∀ processes,
      (∀ p ∈ processes, fs.files (statPath p.pid) = some p.text) →
      processes.foldlM (fun metrics p =>
        fetchOneProcessMetrics metrics (fs.files (statPath p.pid)))
          (List.replicate nbProcMetrics 0) = some (seenCounts processes) := by
    intro processes
    induction processes using List.reverseRecOn with
    | nil => exact fun _ => rfl
    | append_singleton processes p ih =>
        intro hstats
        have hfront := ih fun q hq => hstats q (by simp [hq])
        rw [List.foldlM_append, hfront]
        simp only [List.foldlM_cons, List.foldlM_nil, hstats p (by simp)]
        simp [fetchOneProcessMetrics_text]
  calc pollProcessLoop fs.files (List.replicate nbProcMetrics 0) fs.entries
      = (fs.entries.filter looksLikePidDir).foldlM (fun metrics entry =>
          fetchOneProcessMetrics metrics (fs.files (statPath entry.name)))
            (List.replicate nbProcMetrics 0) := List.foldlM_filter.symm
    _ = fs.processes.foldlM (fun metrics p =>
          fetchOneProcessMetrics metrics (fs.files (statPath p.pid)))
            (List.replicate nbProcMetrics 0) := by
        rw [fs.listed, List.foldlM_map]
    _ = some (seenCounts fs.processes) := hrun fs.processes fs.stats

/-- What is counted for a status differs from the processes in the state only
by those whose names close a parenthesis. -/
theorem countP_seen (processes : List Process) (hs : s ∈ procStatuses) :
    processes.countP (·.seen = s)
      = (processes.filter (·.closes)).countP (·.nameLetter = some s)
        + (processes.filter (!·.closes)).countP (·.state = s) := by
  rw [List.countP_eq_countP_filter_add processes _ Process.closes]
  congr 1
  · apply List.countP_congr
    intro p hp
    have hcloses : p.closes = true := (List.mem_filter.mp hp).2
    simp [p.seen_eq_iff hs, hcloses]
  · apply List.countP_congr
    intro p hp
    have hcloses : p.closes = false := by simpa using (List.mem_filter.mp hp).2
    simp [p.seen_eq_iff hs, hcloses]

/-- The letters agree exactly if the processes counted for each status are
those in the state. -/
theorem lettersAgree_iff (processes : List Process) :
    LettersAgree processes ↔ ∀ s ∈ procStatuses,
      processes.countP (·.seen = s) = processes.countP (·.state = s) := by
  unfold LettersAgree
  apply forall₂_congr
  intro s hs
  rw [countP_seen processes hs,
    List.countP_eq_countP_filter_add processes (·.state = s) Process.closes]
  exact Nat.add_right_cancel_iff.symm

/-- The slots have the numbers of processes exactly if 64 bits do and the
letters agree. -/
theorem seenCounts_eq_iff (processes : List Process) :
    (seenCounts processes).map UInt64.toNat = stateCounts processes
      ↔ processes.length < 2 ^ 64 ∧ LettersAgree processes := by
  have hwraps : ∀ n : Nat, (UInt64.ofNat n).toNat = n % 2 ^ 64 := fun _ => rfl
  have hle : ∀ s, processes.countP (·.seen = s) ≤ processes.length :=
    fun _ => List.countP_le_length
  rw [lettersAgree_iff]
  simp only [seenCounts, stateCounts, List.map_append, List.map_map,
    List.map_singleton, Function.comp_def, hwraps]
  constructor
  case mp =>
      intro h
      obtain ⟨hslots, htotal⟩ := List.append_inj h (by simp)
      have hmod : processes.length % 2 ^ 64 = processes.length :=
        List.singleton_inj.mp htotal
      have hlen : processes.length < 2 ^ 64 := by omega
      refine ⟨hlen, ?_⟩
      intro s hs
      have hslot := List.map_inj_left.mp hslots s hs
      rwa [Nat.mod_eq_of_lt (Nat.lt_of_le_of_lt (hle s) hlen)] at hslot
  case mpr =>
      rintro ⟨hlen, hslots⟩
      rw [Nat.mod_eq_of_lt hlen]
      congr 1
      apply List.map_congr_left
      intro s hs
      rw [Nat.mod_eq_of_lt (Nat.lt_of_le_of_lt (hle s) hlen), hslots s hs]

/-- The metrics have the numbers of the slots. -/
theorem pollProcessMetrics_seen (clock : Timeval) (fs : ProcFs) :
    CountsStates clock fs
      ↔ (seenCounts fs.processes).map UInt64.toNat
        = stateCounts fs.processes := by
  have hnumbers : (List.zipWith (metricInteger · clock · 0) metricName
        (seenCounts fs.processes)).map (fun m => (m.name, m.number))
      = metricName.zip
        (((seenCounts fs.processes).map UInt64.toNat).map some) := by
    rw [List.map_zipWith, List.zip_eq_zipWith, List.zipWith_map_right,
      List.zipWith_map_right]
    rfl
  simp only [CountsStates, pollProcessMetrics, pollProcessLoop_seen fs,
    Option.bind_eq_bind, Option.bind_some]
  constructor
  case mp =>
      rintro ⟨metrics, hpush, hpushed⟩
      obtain rfl := Option.some.inj hpush
      rw [hnumbers] at hpushed
      have hvalues := congrArg (List.map Prod.snd) hpushed
      rw [List.map_snd_zip, List.map_snd_zip] at hvalues
      · exact List.map_inj_right (fun _ _ => Option.some.inj) |>.mp hvalues
      · simp [stateCounts, metricName, procStatuses]
      · simp [seenCounts, metricName, procStatuses]
  case mpr =>
      intro hvalues
      refine ⟨_, rfl, ?_⟩
      rw [hnumbers, hvalues]

/-- The numbers of processes are pushed exactly if they fit in 64 bits and, for
each status, as many of the names that close a parenthesis have its letter
two places behind as have the state. -/
theorem countsStates_iff (clock : Timeval) (fs : ProcFs) :
    CountsStates clock fs
      ↔ fs.processes.length < 2 ^ 64 ∧ LettersAgree fs.processes := by
  rw [pollProcessMetrics_seen, seenCounts_eq_iff]

/-- The process `(sd-pam)` of a session sleeps and is not counted so. -/
theorem states_not_counted :
    let pid : CString := .ofString "812"
    let sdPam : Process :=
      ⟨pid, List.all_eq_true.mp (by decide), .ofString "(sd-pam)", 83,
        by decide, []⟩
    ¬ CountsStates ⟨0, 0⟩
      ⟨[sdPam], [⟨dtDir, pid⟩], fun _ => some sdPam.text, rfl,
        fun p hp => by rw [List.mem_singleton.mp hp]⟩ := by
  intro pid sdPam h
  have hcounts := (pollProcessMetrics_seen _ _).mp h
  obtain ⟨-, hagree⟩ := (seenCounts_eq_iff _).mp hcounts
  exact absurd (hagree 83 (by decide)) (by decide)

end Monikor
