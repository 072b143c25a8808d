import Fxmy.Conn

/-!
# Transfers of the epoll server (`main.c`)

`fxmy_send` and `fxmy_recv` of `main.c` go on where the call before them stopped, and return 1 when the
transfer is done. The sockets are meant to be nonblocking, but `fxmy_accept_connection` sets
`O_NONBLOCK` among the flags of the descriptor (`F_SETFD`) rather than of the file (`F_SETFL`), so a
`read` waits until something has arrived or the client has closed.
-/

namespace Fxmy

/-- A connection's transfer buffer and its socket. -/
structure Transfer where
  buffer : XferBuffer
  /-- The bytes that the socket has taken. -/
  written : List UInt8
  /-- What is still to be read. -/
  incoming : List Arrival

abbrev Task := EStateM Stop Transfer

namespace Transfer

/-- `EAGAIN` and `EWOULDBLOCK`, which are one number. -/
def EAGAIN : Int := 11

/-- `write`: the socket takes what it has room for. On an error, and without room if it does not block,
the call returns -1. -/
def write (room : Option Nat) (bytes : List UInt8) : Task Int := fun t =>
  match room with
  | none => .ok (-1) t
  | some n => .ok (bytes.take n).length { t with written := t.written ++ bytes.take n }

/-- `read`: at most `size` of the bytes that have arrived together. It returns 0 when the client has
closed, and -1 on an error. -/
def read (size : Nat) : Task (Int × List UInt8) := fun t =>
  if size = 0 then .ok (0, []) t
  else
    match t.incoming with
    | [] => .ok (0, []) t
    | .failure :: arrivals => .ok (-1, []) { t with incoming := arrivals }
    | .data bytes :: arrivals =>
      let rest := bytes.drop size
      let left := if rest = [] then arrivals else .data rest :: arrivals
      .ok ((bytes.take size).length, bytes.take size) { t with incoming := left }

/-- The results of `write` and `read` that are let through. -/
def allowed (rv : Int) : Bool := decide (rv ≥ 0) || rv == EAGAIN

/-- `fxmy_xfer_in_progress`. -/
def xferInProgress (buffer : XferBuffer) : Bool := buffer.memory.isSome

/-- The bytes of the buffer from the cursor on. -/
def bytesLeft (buffer : XferBuffer) : Except Stop (List UInt8) := do
  let memory ← Prog.deref buffer.memory
  match Block.load memory buffer.cursor (buffer.size - buffer.cursor) with
  | some bytes => .ok bytes
  | none => .error .bytes

/-- The end of `fxmy_send`: a buffer that has been sent is freed. -/
def finishSend (buffer : XferBuffer) : Task Int :=
  if buffer.size = buffer.cursor then do
    modify fun t => { t with buffer := .empty }
    pure 1
  else do
    modify fun t => { t with buffer := buffer }
    pure 0

/-- `fxmy_send`. -/
def send (room : Option Nat) : Task Int := do
  let buffer := (← get).buffer
  Exec.lift id (verify (xferInProgress buffer))
  Exec.lift id (verify (0 < buffer.size))
  Exec.lift id (verify (buffer.cursor < buffer.size))
  let start ← Exec.lift id (bytesLeft buffer)
  let rv ← write room start
  Exec.lift id (verify (allowed rv))
  finishSend (if rv ≥ 0 then { buffer with cursor := buffer.cursor + rv.toNat } else buffer)

/-- `fxmy_begin_recv`. The size is added to that of the buffer. -/
def beginRecv (garbage : Nat → UInt8) : Task PUnit := do
  let (rv, packetHeader) ← read 4
  Exec.lift id (verify (rv = 4))
  let packetSize := headerLength packetHeader
  modify fun t => { t with
    buffer := { t.buffer with
      memory := some ((List.range packetSize).map garbage)
      size := t.buffer.size + packetSize } }

/-- What is read goes into the buffer behind the cursor. -/
def fill (buffer : XferBuffer) (bytes : List UInt8) : Except Stop XferBuffer := do
  let memory ← Prog.deref buffer.memory
  match Block.store memory buffer.cursor bytes with
  | some memory => .ok { buffer with memory := some memory }
  | none => .error .bytes

/-- The start of `fxmy_recv`: a buffer that is in use is gone on with. -/
def startRecv (garbage : Nat → UInt8) : Task PUnit := do
  if xferInProgress (← get).buffer then pure ⟨⟩ else beginRecv garbage

/-- `fxmy_recv`. The buffer of a packet that is complete stays in use. -/
def recv (garbage : Nat → UInt8) : Task Int := do
  startRecv garbage
  let buffer := (← get).buffer
  let (rv, bytes) ← read (buffer.size - buffer.cursor)
  let buffer ← Exec.lift id (fill buffer bytes)
  Exec.lift id (verify (allowed rv))
  let buffer := { buffer with cursor := buffer.cursor + rv.toNat }
  modify fun t => { t with buffer := buffer }
  pure (if buffer.size = buffer.cursor then 1 else 0)

/-! ## Runs -/

/-- The calls of `fxmy_send` for a list of events, up to the one that is done. -/
def sends : List (Option Nat) → Task Int
  | [] => pure 0
  | room :: rooms => do
    let result ← send room
    if result ≠ 0 then pure result else sends rooms

/-- So many calls of `fxmy_recv`, up to the one that is done. -/
def recvs (garbage : Nat → UInt8) : Nat → Task Int
  | 0 => pure 0
  | calls + 1 => do
    let result ← recv garbage
    if result ≠ 0 then pure result else recvs garbage calls

end Transfer

end Fxmy
