/-
utils/http.c: the body of a response, from the chunks it comes in to the
callback.

A block and `junk` are those of Utils/Command.lean, and `none` is a write
outside the block. The sizes do not wrap: they are those of blocks that are in
memory. Where the handler of curl or the response itself finds no memory, there
is no request.
-/
import Monikor.Utils.Command

namespace Monikor

open Bytes

/-- `http_response_t`, but for the callback and its data. -/
structure HttpResponse where
  code : Int
  data : Option (List UInt8)
  size : Nat
deriving DecidableEq

/-- `new_response`. -/
def newResponse : HttpResponse := ⟨0, none, 0⟩

/-- A call of `data_handler`: the bytes it is handed, and whether `realloc`
finds memory for them. -/
structure HttpChunk where
  bytes : List UInt8
  memory : Bool
deriving DecidableEq

variable (junk : Nat → UInt8)

/-- `data_handler`: what it returns, and the response. -/
def dataHandler (c : HttpChunk) (response : HttpResponse) :
    Option (Nat × HttpResponse) :=
  let dataSize := c.bytes.length
  if c.memory then do
    let newData := realloc junk response.data (response.size + dataSize + 1)
    let data ← (store newData response.size c.bytes).toOption
    let size := response.size + dataSize
    let data ← (store data size [0]).toOption
    return (dataSize, { response with data := some data, size })
  else some (0, { response with data := none })

/-- The calls of `data_handler` for one response. -/
def receiveChunks : List HttpChunk → HttpResponse → Option HttpResponse
  | [], response => some response
  | c :: chunks, response => do
      let (_, response) ← dataHandler junk c response
      receiveChunks chunks response

/-- `handle_server_response`; `code` is what curl knows of the response. -/
def handleServerResponse {α : Type} (callback : HttpResponse → Nat → α)
    (code : Int) (response : HttpResponse) (result : Nat) : α :=
  callback { response with code } result

end Monikor
