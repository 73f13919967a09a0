/-
What the read loops return.

A loop stops at the first read that does not fill its request, so it has the
chunks up to that one (`taken`), a terminator and then what memory held. It
returns a content whatever memory holds exactly if only the last chunk is
short.
-/
import Mathlib.Data.Set.Basic
import Monikor.Utils.Net

namespace Monikor

open Bytes

variable {junk : Nat → UInt8} {bytes bs : List UInt8} {size n : Nat}

-- =================================================================== chunks

/-- What one `read(2)` of up to `size` bytes delivers. -/
structure Chunk (size : Nat) where
  bytes : List UInt8
  pos : 0 < bytes.length
  le : bytes.length ≤ size

/-- The content that comes in chunks. -/
def delivered (chunks : List (Chunk size)) : List UInt8 :=
  chunks.flatMap (·.bytes)

/-- The reads of chunks and of the end of the file behind them. -/
def arrivals (chunks : List (Chunk size)) : List ReadResult :=
  chunks.map (.bytes ·.bytes) ++ [.bytes []]

/-- Every chunk but the last one fills its request. -/
def FullButLast (chunks : List (Chunk size)) : Prop :=
  ∀ c ∈ chunks.dropLast, c.bytes.length = size

/-- The content up to the first chunk that does not fill its request. -/
def taken : List (Chunk size) → List UInt8
  | [] => []
  | c :: chunks =>
      c.bytes ++ if c.bytes.length = size then taken chunks else []

/-- A function of what memory holds returns a block that starts with the
content and a terminator. -/
def ReturnsWhole (read : (Nat → UInt8) → Option (Option (List UInt8)))
    (content : List UInt8) : Prop :=
  ∀ junk, ∃ block, read junk = some (some block) ∧ content ++ [0] <+: block

/-- What is taken is the content, or all but some bytes of it. -/
theorem delivered_taken (chunks : List (Chunk size)) :
    ∃ rest, delivered chunks = taken chunks ++ rest
      ∧ (rest = [] ↔ FullButLast chunks) := by
  induction chunks with
  | nil => exact ⟨[], rfl, by simp [FullButLast]⟩
  | cons c chunks ih =>
      obtain ⟨rest, hdel, hrest⟩ := ih
      have hcons : delivered (c :: chunks) = c.bytes ++ delivered chunks := rfl
      unfold taken
      by_cases hfull : c.bytes.length = size
      · refine ⟨rest, by rw [hcons, hdel, if_pos hfull, List.append_assoc], ?_⟩
        rw [hrest]
        cases chunks with
        | nil => simp [FullButLast]
        | cons d chunks => simp [FullButLast, hfull]
      · refine ⟨delivered chunks, by rw [hcons, if_neg hfull, List.append_nil],
          ?_⟩
        cases chunks with
        | nil => simp [FullButLast, delivered]
        | cons d chunks =>
            have hd : d.bytes ≠ [] := List.ne_nil_of_length_pos d.pos
            simp [FullButLast, delivered, hfull, hd]

-- ================================================================= the loop

/-- A store at the frontier of a block overwrites what follows it. -/
theorem store_split (bytes bs pad : List UInt8) (h : bs.length ≤ pad.length) :
    store (bytes ++ pad) bytes.length bs
      = .ok (bytes ++ bs ++ pad.drop bs.length) := by
  unfold store
  rw [if_pos (by rw [List.length_append]; omega), List.take_left,
    List.drop_append]
  simp

/-- A block that is reallocated for a read has what it had and room for the
read and a terminator. -/
theorem realloc_split (junk : Nat → UInt8) {old : Option (List UInt8)}
    (hold : old = none ∧ bytes = [] ∨ old = some (bytes ++ [0])) (size : Nat) :
    ∃ pad, realloc junk old (bytes.length + size + 1) = bytes ++ pad
      ∧ pad.length = size + 1 ∧ ∀ b ∈ pad.drop 1, b ∈ Set.range junk := by
  have hjunk : ∀ off k : Nat, ∀ b ∈ (List.range k).map fun i => junk (off + i),
      b ∈ Set.range junk := by
    intro off k b hb
    obtain ⟨i, -, rfl⟩ := List.mem_map.mp hb
    exact ⟨off + i, rfl⟩
  rcases hold with ⟨rfl, rfl⟩ | rfl
  · refine ⟨_, rfl, by simp, fun b hb => hjunk _ _ b (List.mem_of_mem_drop hb)⟩
  · have hkeep : ((some (bytes ++ [0])).getD []).take (bytes.length + size + 1)
        = bytes ++ [0] := by
      rw [Option.getD_some, List.take_of_length_le]
      simp
    refine ⟨0 :: (List.range size).map fun i =>
      junk ((bytes ++ [0]).length + i), ?_, by simp, ?_⟩
    · unfold realloc
      rw [hkeep]
      have hroom : bytes.length + size + 1 - (bytes ++ [0]).length = size := by
        simp
      dsimp only
      rw [hroom, List.append_assoc]
      rfl
    · rw [List.drop_one, List.tail_cons]
      exact hjunk _ _

/-- One turn of the loop: what came is behind what was there, then the
terminator, and then what memory held. -/
theorem readLoop_turn (junk : Nat → UInt8) {old : Option (List UInt8)}
    (bs : List UInt8) (reads : List ReadResult)
    (hold : old = none ∧ bytes = [] ∨ old = some (bytes ++ [0]))
    (hbs : bs.length ≤ size) :
    ∃ tail, (∀ b ∈ tail, b ∈ Set.range junk)
      ∧ readLoop junk size (.bytes bs :: reads) old bytes.length
        = if bs.length = size then
            readLoop junk size reads (some (bytes ++ bs ++ [0]))
              (bytes ++ bs).length
          else some (some (bytes ++ bs ++ 0 :: tail)) := by
  obtain ⟨pad, hpad, hlen, hjunk⟩ := realloc_split junk hold size
  have hstore := store_split bytes bs pad (by omega)
  have hone : 1 ≤ (pad.drop bs.length).length := by
    rw [List.length_drop]
    omega
  have hend := store_split (bytes ++ bs) [0] _ hone
  refine ⟨(pad.drop bs.length).drop 1, fun b hb => ?_, ?_⟩
  · rw [List.drop_drop, Nat.add_comm, ← List.drop_drop] at hb
    exact hjunk b (List.mem_of_mem_drop hb)
  · rw [List.length_append] at hend
    simp only [readLoop, hpad, hstore, hend, Except.toOption,
      Option.bind_eq_bind, Option.bind_some, List.length_singleton]
    split
    case isTrue hfull =>
        have hnone : (pad.drop bs.length).drop 1 = [] := by
          rw [List.drop_eq_nil_iff, List.length_drop]
          omega
        rw [hnone, List.append_nil, List.length_append]
    case isFalse => simp

/-- The loop returns the chunks it takes, a terminator and what memory held
behind it. -/
theorem readLoop_chunks (junk : Nat → UInt8) (hsize : 0 < size)
    (chunks : List (Chunk size)) :
    ∀ {bytes : List UInt8} {old : Option (List UInt8)},
      old = none ∧ bytes = [] ∨ old = some (bytes ++ [0]) →
      ∃ tail, (∀ b ∈ tail, b ∈ Set.range junk)
        ∧ readLoop junk size (arrivals chunks) old bytes.length
          = some (some (bytes ++ taken chunks ++ 0 :: tail)) := by
  induction chunks with
  | nil =>
      intro bytes old hold
      obtain ⟨tail, htail, hrun⟩ := readLoop_turn junk [] [] hold
        (Nat.zero_le size)
      refine ⟨tail, htail, ?_⟩
      have hne : ¬ ([] : List UInt8).length = size := Nat.ne_of_lt hsize
      rw [if_neg hne] at hrun
      exact hrun
  | cons c chunks ih =>
      intro bytes old hold
      obtain ⟨tail, htail, hrun⟩ :=
        readLoop_turn junk c.bytes (arrivals chunks) hold c.le
      have harrive : arrivals (c :: chunks) = .bytes c.bytes :: arrivals chunks :=
        rfl
      unfold taken
      rw [harrive, hrun]
      by_cases hfull : c.bytes.length = size
      · obtain ⟨tail', htail', hrun'⟩ := ih (.inr rfl)
        refine ⟨tail', htail', ?_⟩
        rw [if_pos hfull, if_pos hfull, hrun', List.append_assoc bytes]
      · refine ⟨tail, htail, ?_⟩
        rw [if_neg hfull, if_neg hfull, List.append_nil]

/-- A loop returns the whole of a content, whatever memory holds, exactly if
every chunk but the last one fills its request. -/
theorem readLoop_whole_iff (hsize : 0 < size) (chunks : List (Chunk size)) :
    ReturnsWhole (fun junk => readLoop junk size (arrivals chunks) none 0)
        (delivered chunks)
      ↔ FullButLast chunks := by
  obtain ⟨rest, hdel, hrest⟩ := delivered_taken chunks
  rw [← hrest]
  constructor
  case mp =>
      intro hwhole
      obtain ⟨block, hrun, hblock⟩ := hwhole fun _ => 1
      obtain ⟨tail, htail, hrun'⟩ := readLoop_chunks (fun _ => 1) hsize chunks
        (.inl ⟨rfl, rfl⟩)
      obtain rfl : block = taken chunks ++ 0 :: tail :=
        Option.some.inj (Option.some.inj (hrun.symm.trans hrun'))
      rw [hdel, List.append_assoc, List.prefix_append_right_inj] at hblock
      cases rest with
      | nil => rfl
      | cons b rest =>
          -- behind the terminator is no other one
          rw [List.cons_append, List.cons_prefix_cons] at hblock
          obtain ⟨i, hi⟩ := htail 0 (hblock.2.subset (by simp))
          exact absurd hi (show (1 : UInt8) ≠ 0 by decide)
  case mpr =>
      rintro rfl junk
      obtain ⟨tail, -, hrun⟩ := readLoop_chunks junk hsize chunks
        (.inl ⟨rfl, rfl⟩)
      refine ⟨_, hrun, ?_⟩
      rw [hdel, List.append_nil, List.nil_append]
      exact ⟨tail, by simp⟩

/-- However a content comes, the read functions have all of it: one returns it,
and the other hands it to the callback of the exchange. -/
structure ReadsWhole (α : Type) (chunks : List (Chunk 4096)) : Prop where
  returned : ReturnsWhole (fun junk => readFd junk (arrivals chunks))
    (delivered chunks)
  passedOn : ∀ junk, ∃ block,
    handleIoRead junk (arrivals chunks)
        = some ([block], (NetHandler.closed : NetHandler α))
      ∧ delivered chunks ++ [0] <+: block

/-- The read functions have the whole of a content exactly if every chunk of
it but the last one is of 4096 bytes. -/
theorem readsWhole_iff (α : Type) (chunks : List (Chunk 4096)) :
    ReadsWhole α chunks ↔ FullButLast chunks := by
  have hread := readLoop_whole_iff (by decide) chunks
  constructor
  case mp => exact fun h => hread.mp h.returned
  case mpr =>
      intro hfull
      have hwhole := hread.mpr hfull
      refine ⟨hwhole, fun junk => ?_⟩
      obtain ⟨block, hrun, hblock⟩ := hwhole junk
      refine ⟨block, ?_, hblock⟩
      have hrecv : netRecv junk (arrivals chunks) = some (some block) := hrun
      unfold handleIoRead
      rw [hrecv]
      rfl

/-- Two letters that come one by one: the second one is lost. -/
theorem reads_not_whole : ¬ ReadsWhole Unit
    [⟨[65], by decide, by decide⟩, ⟨[66], by decide, by decide⟩] := by
  intro h
  have hfull := (readLoop_whole_iff (by decide) _).mp h.returned
  exact absurd (hfull _ (List.mem_singleton.mpr rfl)) (by decide)

end Monikor
