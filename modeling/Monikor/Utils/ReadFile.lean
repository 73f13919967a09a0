/-
utils/read_file.c, and the loop it shares with utils/net.c: a descriptor
read to what the loop takes for its end.

A block, what `read(2)` answers and what memory holds are those of
Utils/Command.lean. `none` is a loop that is not through with the reads, or
a write outside the block, and `some none` is NULL.
-/
import Monikor.Utils.Command

namespace Monikor

open Bytes

/-- `MNK_READ_FILE_RD_SZ`. -/
def readFileRdSz : Nat := 4096

variable (junk : Nat → UInt8)

/-- The loop of `monikor_read_fd` and of `monikor_net_recv`, which differ in
the name of the size: the block, and how much of it is filled. -/
def readLoop (size : Nat) : List ReadResult → Option (List UInt8) → Nat →
    Option (Option (List UInt8))
  | [], _, _ => none
  | .noMemory :: _, _, _ => some none
  | .error :: _, _, _ => some none
  | .bytes bs :: reads, content, contentSize => do
      let content := realloc junk content (contentSize + size + 1)
      let content ← (store content contentSize bs).toOption
      let contentSize := contentSize + bs.length
      let content ← (store content contentSize [0]).toOption
      if bs.length = size then readLoop size reads (some content) contentSize
      else some (some content)

/-- `monikor_read_fd`. -/
def readFd (reads : List ReadResult) : Option (Option (List UInt8)) :=
  readLoop junk readFileRdSz reads none 0

/-- `monikor_read_file`: `opened` is what `open` gives, the descriptor by what
its reads answer. -/
def readFile (opened : Option (List ReadResult)) :
    Option (Option (List UInt8)) :=
  match opened with
  | none => some none
  | some reads => readFd junk reads

end Monikor
