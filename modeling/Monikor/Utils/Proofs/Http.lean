/-
What a response holds when its last chunk has come.

While memory is found, what is in the block is the chunks and a terminator. A
failed `realloc` drops the block and keeps the size, and curl goes on if the
chunk had no bytes: the next block then starts with as many bytes of whatever
memory held (`HttpResponse.content`). So what is in front of the last failure is
lost, and what is behind it is there (`HttpTransfer.Loses`).
-/
import Monikor.Send.Agent
import Monikor.Utils.Http
import Monikor.Utils.Proofs.ReadFile

namespace Monikor

open Bytes

-- =================================================================== transfers

/-- The bytes of chunks. -/
def chunkBytes (chunks : List HttpChunk) : List UInt8 := chunks.flatMap (·.bytes)

/-- A transfer: the calls of `data_handler`, and the result and the code it
ends with. One that returns zero for bytes is the last, and the result is an
error. -/
structure HttpTransfer where
  chunks : List HttpChunk
  result : Nat
  code : Int
  stops : ∀ before c after, chunks = before ++ c :: after →
    c.memory = false → c.bytes ≠ [] → after = [] ∧ result ≠ curleOk

def HttpTransfer.body (t : HttpTransfer) : List UInt8 := chunkBytes t.chunks

/-- There is a last chunk, and it finds memory. -/
def HttpTransfer.Filled (t : HttpTransfer) : Prop :=
  ∃ c ∈ t.chunks.getLast?, c.memory = true

/-- No bytes come in front of a chunk that finds no memory, unless the last one
does not find any either. -/
def HttpTransfer.Kept (t : HttpTransfer) : Prop :=
  ∀ before c after, t.chunks = before ++ c :: after → c.memory = false →
    t.Filled → ∀ d ∈ before, d.bytes = []

-- ==================================================================== one call

variable {junk : Nat → UInt8} {r : HttpResponse} {c : HttpChunk}
  {chunks : List HttpChunk}

/-- What memory holds. -/
def held (junk : Nat → UInt8) (n : Nat) : List UInt8 :=
  (List.range n).map junk

/-- The bytes that a chunk comes behind: those of the block, or what memory
holds. -/
def HttpResponse.content (junk : Nat → UInt8) (r : HttpResponse) :
    List UInt8 :=
  match r.data with
  | none => held junk r.size
  | some block => block.take r.size

/-- A response whose block has these bytes and a terminator. -/
def HttpResponse.filled (r : HttpResponse) (bytes : List UInt8) :
    HttpResponse :=
  { r with data := some (bytes ++ [0]), size := bytes.length }

/-- There is no block, or one of as many bytes as the size says. -/
def HttpResponse.Terminated (r : HttpResponse) : Prop :=
  r.data = none ∨ ∃ bytes, r = r.filled bytes

theorem newResponse_terminated : newResponse.Terminated := .inl rfl

theorem HttpResponse.filled_terminated (r : HttpResponse)
    (bytes : List UInt8) : (r.filled bytes).Terminated :=
  .inr ⟨bytes, rfl⟩

@[simp] theorem HttpResponse.filled_content (r : HttpResponse)
    (bytes : List UInt8) : (r.filled bytes).content junk = bytes :=
  List.take_left

/-- The block that is asked for has the content, and room for the chunk and a
terminator. -/
theorem HttpResponse.Terminated.realloc_content (h : r.Terminated)
    (junk : Nat → UInt8) (n : Nat) :
    ∃ pad, realloc junk r.data (r.size + n + 1) = r.content junk ++ pad
      ∧ pad.length = n + 1 ∧ (r.content junk).length = r.size := by
  rcases h with hnone | ⟨bytes, hfilled⟩
  · have hcontent : r.content junk = held junk r.size := by
      rw [HttpResponse.content, hnone]
    refine ⟨(List.range (n + 1)).map fun i => junk (r.size + i), ?_, ?_, ?_⟩
    · rw [hcontent, hnone]
      show ((List.range (r.size + n + 1 - 0)).map fun i => junk (0 + i)) = _
      rw [held, Nat.sub_zero, Nat.add_assoc, List.range_add, List.map_append,
        List.map_map]
      simp [Function.comp_def]
    · simp
    · simp [hcontent, held]
  · rw [hfilled, HttpResponse.filled_content]
    obtain ⟨pad, hpad, hlen, -⟩ := realloc_split junk (.inr rfl) n
    exact ⟨pad, hpad, hlen, rfl⟩

/-- A chunk that finds memory is put behind the content. -/
theorem HttpResponse.Terminated.dataHandler_memory (h : r.Terminated)
    (junk : Nat → UInt8) (hc : c.memory = true) :
    dataHandler junk c r
      = some (c.bytes.length, r.filled (r.content junk ++ c.bytes)) := by
  obtain ⟨pad, hrealloc, hpad, hsize⟩ :=
    h.realloc_content junk c.bytes.length
  have hstore := store_split (r.content junk) c.bytes pad (by omega)
  have hroom : (pad.drop c.bytes.length).length = 1 := by
    rw [List.length_drop]
    omega
  have hend := store_split (r.content junk ++ c.bytes) [0]
    (pad.drop c.bytes.length) (by rw [hroom]; rfl)
  have hnone : (pad.drop c.bytes.length).drop ([0] : List UInt8).length
      = [] := by
    rw [List.drop_eq_nil_iff, hroom]
    rfl
  rw [hsize] at hstore
  rw [List.length_append, hsize, hnone, List.append_nil] at hend
  unfold dataHandler HttpResponse.filled
  rw [if_pos hc, List.length_append, hsize]
  simp only [hrealloc, hstore, hend, Except.toOption, Option.bind_eq_bind,
    Option.bind_some]
  rfl

theorem dataHandler_no_memory (junk : Nat → UInt8) (hc : c.memory = false) :
    dataHandler junk c r = some (0, { r with data := none }) := by
  unfold dataHandler
  rw [if_neg (by simp [hc])]

/-- A call leaves a terminator at the end of what it keeps, and counts the bytes
of a chunk that finds memory. -/
theorem HttpResponse.Terminated.call (h : r.Terminated) (junk : Nat → UInt8)
    (c : HttpChunk) :
    ∃ n r', dataHandler junk c r = some (n, r') ∧ r'.Terminated
      ∧ ((c.memory = false → c.bytes = []) →
        r'.size = r.size + c.bytes.length) := by
  cases hc : c.memory with
  | false =>
      refine ⟨_, _, dataHandler_no_memory junk hc, .inl rfl, ?_⟩
      intro hempty
      simp [hempty rfl]
  | true =>
      obtain ⟨-, -, -, hsize⟩ := h.realloc_content junk 0
      refine ⟨_, _, h.dataHandler_memory junk hc, r.filled_terminated _, ?_⟩
      intro _
      show (r.content junk ++ c.bytes).length = _
      rw [List.length_append, hsize]

-- ======================================================================== runs

theorem receiveChunks_append (before after : List HttpChunk) :
    receiveChunks junk (before ++ after) r
      = (receiveChunks junk before r).bind (receiveChunks junk after) := by
  induction before generalizing r with
  | nil => rfl
  | cons c before ih =>
      show (dataHandler junk c r).bind _ = _
      cases hrun : dataHandler junk c r with
      | none => simp [receiveChunks, hrun]
      | some answer => simp [receiveChunks, hrun, ih]

theorem receiveChunks_cons {n : Nat} {r' : HttpResponse}
    (hcall : dataHandler junk c r = some (n, r')) :
    receiveChunks junk (c :: chunks) r = receiveChunks junk chunks r' := by
  rw [receiveChunks, hcall]
  rfl

/-- The size counts every byte, as long as only chunks without bytes find no
memory. -/
theorem HttpResponse.Terminated.run (h : r.Terminated) (junk : Nat → UInt8)
    (chunks : List HttpChunk)
    (hempty : ∀ c ∈ chunks, c.memory = false → c.bytes = []) :
    ∃ r', receiveChunks junk chunks r = some r' ∧ r'.Terminated
      ∧ r'.size = r.size + (chunkBytes chunks).length := by
  induction chunks generalizing r with
  | nil => exact ⟨r, rfl, h, rfl⟩
  | cons c chunks ih =>
      obtain ⟨n, r₁, hcall, h₁, hsize₁⟩ := h.call junk c
      obtain ⟨r₂, hrun, h₂, hsize₂⟩ :=
        ih h₁ fun d hd => hempty d (List.mem_cons_of_mem c hd)
      refine ⟨r₂, (receiveChunks_cons hcall).trans hrun, h₂, ?_⟩
      rw [hsize₂, hsize₁ (hempty c (by simp)), Nat.add_assoc,
        ← List.length_append]
      rfl

/-- Chunks that all find memory are put behind a block. -/
theorem receiveChunks_filled (junk : Nat → UInt8) (chunks : List HttpChunk)
    (hall : ∀ c ∈ chunks, c.memory = true) (bytes : List UInt8) :
    receiveChunks junk chunks (r.filled bytes)
      = some (r.filled (bytes ++ chunkBytes chunks)) := by
  induction chunks generalizing bytes with
  | nil => simp [receiveChunks, chunkBytes]
  | cons c chunks ih =>
      have hcall := (r.filled_terminated bytes).dataHandler_memory junk
        (hall c (by simp))
      rw [r.filled_content] at hcall
      have htail := ih (fun d hd => hall d (List.mem_cons_of_mem c hd))
        (bytes ++ c.bytes)
      rw [List.append_assoc] at htail
      exact (receiveChunks_cons hcall).trans htail

/-- Chunks that all find memory, one at least, are put behind the content. -/
theorem HttpResponse.Terminated.run_memory (h : r.Terminated)
    (junk : Nat → UInt8) (c : HttpChunk) (chunks : List HttpChunk)
    (hall : ∀ d ∈ c :: chunks, d.memory = true) :
    receiveChunks junk (c :: chunks) r
      = some (r.filled (r.content junk ++ chunkBytes (c :: chunks))) := by
  have hcall := h.dataHandler_memory junk (hall c (by simp))
  have htail := receiveChunks_filled (r := r) junk chunks
    (fun d hd => hall d (List.mem_cons_of_mem c hd)) (r.content junk ++ c.bytes)
  rw [List.append_assoc] at htail
  exact (receiveChunks_cons hcall).trans htail

-- =================================================================== transfers

variable {t : HttpTransfer} {before after : List HttpChunk}

/-- All chunks find memory, or there is a last one that does not. -/
theorem exists_last_failure (chunks : List HttpChunk) :
    (∀ c ∈ chunks, c.memory = true)
      ∨ ∃ before c after, chunks = before ++ c :: after ∧ c.memory = false
        ∧ ∀ d ∈ after, d.memory = true := by
  induction chunks with
  | nil => exact .inl (by simp)
  | cons c chunks ih =>
      rcases ih with hall | ⟨before, d, after, rfl, hd, hafter⟩
      · cases hc : c.memory with
        | true => exact .inl (List.forall_mem_cons.mpr ⟨hc, hall⟩)
        | false => exact .inr ⟨[], c, chunks, rfl, hc, hall⟩
      · exact .inr ⟨c :: before, d, after, rfl, hd, hafter⟩

/-- Chunks that others come behind are empty if they find no memory. -/
theorem HttpTransfer.empty_before (t : HttpTransfer) (hne : after ≠ [])
    (h : t.chunks = before ++ after) :
    ∀ d ∈ before, d.memory = false → d.bytes = [] := by
  intro d hd hmemory
  obtain ⟨front, back, rfl⟩ := List.append_of_mem hd
  by_contra hbytes
  have hlast := t.stops front d (back ++ after) (by rw [h]; simp) hmemory hbytes
  exact hne (List.append_eq_nil_iff.mp hlast.1).2

theorem chunkBytes_append (before after : List HttpChunk) :
    chunkBytes (before ++ after) = chunkBytes before ++ chunkBytes after :=
  List.flatMap_append

theorem chunkBytes_eq_nil :
    chunkBytes chunks = [] ↔ ∀ c ∈ chunks, c.bytes = [] :=
  List.flatMap_eq_nil_iff

/-- Chunks that end with one that finds memory. -/
theorem HttpTransfer.filled_of_append (t : HttpTransfer)
    (before : List HttpChunk) (hne : after ≠ [])
    (h : t.chunks = before ++ after) (hall : ∀ d ∈ after, d.memory = true) :
    t.Filled := by
  refine ⟨after.getLast hne, ?_, hall _ (List.getLast_mem hne)⟩
  rw [h, List.getLast?_append_of_ne_nil _ hne, List.getLast?_eq_some_getLast hne]
  rfl

/-- Chunks behind one that finds no memory make up for it. -/
theorem HttpTransfer.after_ne_nil (t : HttpTransfer)
    (h : t.chunks = before ++ c :: after) (hc : c.memory = false)
    (hfilled : t.Filled) : after ≠ [] := by
  rintro rfl
  obtain ⟨d, hd, hmemory⟩ := hfilled
  rw [h, List.getLast?_concat] at hd
  obtain rfl := Option.some.inj hd
  rw [hc] at hmemory
  cases hmemory

/-- A failure is not behind the last one. -/
theorem before_of_failure {before' after' : List HttpChunk} {d : HttpChunk}
    (hafter : ∀ d ∈ after, d.memory = true) (hd : d.memory = false)
    (h : before ++ c :: after = before' ++ d :: after') :
    before' <+: before := by
  rcases List.append_eq_append_iff.mp h with ⟨as, rfl, htail⟩ | ⟨as, rfl, -⟩
  · cases as with
    | nil => simp
    | cons e as =>
        obtain ⟨-, rfl⟩ := List.cons.inj htail
        have hmemory := hafter d (by simp)
        rw [hd] at hmemory
        cases hmemory
  · exact List.prefix_append ..

/-- Of the body of a transfer, `lost` is replaced by what memory holds, and
`rest` is received. -/
structure HttpTransfer.Loses (t : HttpTransfer) (lost rest : List UInt8) :
    Prop where
  body : t.Filled → t.body = lost ++ rest
  kept : t.Filled → (lost = [] ↔ t.Kept)
  received : ∀ junk, ∃ r, receiveChunks junk t.chunks newResponse = some r
    ∧ (t.Filled → r.data = some (held junk lost.length ++ rest ++ [0]))
    ∧ (¬ t.Filled → r.data = none)

/-- Where all chunks find memory, nothing is lost. -/
theorem HttpTransfer.loses_nothing (t : HttpTransfer)
    (hall : ∀ c ∈ t.chunks, c.memory = true) : t.Loses [] t.body where
  body _ := rfl
  kept _ := by
    apply iff_of_true rfl
    intro before c after hsplit hc
    have hmemory := hall c (by simp [hsplit])
    rw [hc] at hmemory
    cases hmemory
  received junk := by
    cases hchunks : t.chunks with
    | nil =>
        refine ⟨newResponse, rfl, ?_, fun _ => rfl⟩
        rintro ⟨c, hc, -⟩
        rw [hchunks] at hc
        cases hc
    | cons c chunks =>
        rw [hchunks] at hall
        have hrun := newResponse_terminated.run_memory junk c chunks hall
        refine ⟨_, hrun, ?_, ?_⟩
        · intro _
          rw [HttpTransfer.body, hchunks]
          rfl
        · intro hno
          exact absurd (t.filled_of_append [] (List.cons_ne_nil c chunks)
            hchunks hall) hno

/-- What is in front of the last failure is lost. -/
theorem HttpTransfer.loses_before (t : HttpTransfer)
    (hchunks : t.chunks = before ++ c :: after) (hc : c.memory = false)
    (hafter : ∀ d ∈ after, d.memory = true) :
    t.Loses (chunkBytes before) (chunkBytes after) where
  body hfilled := by
    have hne := t.after_ne_nil hchunks hc hfilled
    have hbytes : c.bytes = [] := by
      by_contra hbytes
      exact hne (t.stops before c after hchunks hc hbytes).1
    rw [HttpTransfer.body, hchunks, chunkBytes_append]
    show chunkBytes before ++ (c.bytes ++ chunkBytes after) = _
    rw [hbytes, List.nil_append]
  kept hfilled := by
    rw [chunkBytes_eq_nil]
    constructor
    · intro hbefore before' d after' hsplit hd _ d' hd'
      have hfront : before' <+: before :=
        before_of_failure hafter hd (hchunks.symm.trans hsplit)
      exact hbefore d' (hfront.subset hd')
    · intro hkept
      exact hkept before c after hchunks hc hfilled
  received junk := by
    have hempty := t.empty_before (List.cons_ne_nil c after) hchunks
    obtain ⟨r, hrun, hr, hsize⟩ :=
      newResponse_terminated.run junk before hempty
    have hcall := dataHandler_no_memory (r := r) junk hc
    rw [hchunks, receiveChunks_append, hrun, Option.bind_some,
      receiveChunks_cons hcall]
    cases after with
    | nil =>
        refine ⟨_, rfl, ?_, fun _ => rfl⟩
        intro hfilled
        exact absurd rfl (t.after_ne_nil hchunks hc hfilled)
    | cons d after =>
        have hdropped : HttpResponse.Terminated { r with data := none } :=
          .inl rfl
        refine ⟨_, hdropped.run_memory junk d after hafter, ?_, ?_⟩
        · intro _
          have hzero : newResponse.size = 0 := rfl
          rw [hzero, Nat.zero_add] at hsize
          rw [← hsize]
          rfl
        · intro hno
          exact absurd (t.filled_of_append (before ++ [c])
            (List.cons_ne_nil d after) (by rw [hchunks]; simp) hafter) hno

theorem HttpTransfer.exists_loses (t : HttpTransfer) :
    ∃ lost rest, t.Loses lost rest := by
  rcases exists_last_failure t.chunks with hall
    | ⟨before, c, after, hchunks, hc, hafter⟩
  · exact ⟨[], t.body, t.loses_nothing hall⟩
  · exact ⟨_, _, t.loses_before hchunks hc hafter⟩

end Monikor
