import Fxmy.Core

/-!
# The epoll server (`main.c`)

`fxmy_handle_connection` and the static variables behind it. Of a connection only the socket and the
state are kept; the transfer buffer belongs to the handlers, and what a handler returns is part of the
event that it is called for. A handler that aborts leaves no event behind it.
-/

namespace Fxmy

/-- `STATE_NUM_STATES` of `enum fxmy_connection_state_t`. -/
def STATE_NUM_STATES : Nat := 5

/-- The functions in the handler table. -/
inductive Handler where
  | sendHandshake
  | recvAuthPacket
  | sendAck
  | recvCommand
  | sendResponse
  deriving DecidableEq, Repr

/-- `handlers`, by state. -/
def handlers : List Handler := [.sendHandshake, .recvAuthPacket, .sendAck, .recvCommand, .sendResponse]

/-- `FXMY_MAX_CONNECTIONS`. -/
abbrev FXMY_MAX_CONNECTIONS : Nat := 128

/-- A slot of `connections`. The state is counted up past the enumeration. -/
structure ConnectionSlot where
  socketFd : Int
  state : Nat
  deriving DecidableEq, Repr

/-- The static variables of `fxmy_handle_connection`. -/
structure EpollServer where
  connections : Vector ConnectionSlot FXMY_MAX_CONNECTIONS
  activeConnections : Vector Int FXMY_MAX_CONNECTIONS
  numConnections : Nat

/-- A socket is ready. A handler that is called for it returns what `outcome` says, 0 while it has work
still to do; `fxmy_send_ack`, `fxmy_recv_command` and `fxmy_send_response` always return 1. -/
structure ReadyEvent where
  socketFd : Int
  outcome : Handler → Int

namespace EpollServer

/-- The variables before the first call. -/
def initial : EpollServer where
  connections := .replicate FXMY_MAX_CONNECTIONS ⟨0, 0⟩
  activeConnections := .replicate FXMY_MAX_CONNECTIONS 0
  numConnections := 0

/-- The loop that looks for the socket among the active connections from `i` on. -/
def findLoop (socketFd : Int) (numConnections i : Nat) : List Int → Except Stop Nat
  | [] => if i < numConnections then .error .bytes else .ok i
  | active :: actives =>
    if i < numConnections then
      if active = socketFd then .ok i else findLoop socketFd numConnections (i + 1) actives
    else .ok i

/-- The slot at which the loop ends. -/
def slot (server : EpollServer) (socketFd : Int) : Except Stop Nat :=
  findLoop socketFd server.numConnections 0 server.activeConnections.toList

/-- `fxmy_handle_connection`. -/
def handleConnection (server : EpollServer) (event : ReadyEvent) : Except Stop (Int × EpollServer) := do
  let i ← server.slot event.socketFd
  if _ : i < FXMY_MAX_CONNECTIONS then
    let state := server.connections[i].state
    match handlers[state]? with
    | none => .error .bytes
    | some handler =>
      let next := if event.outcome handler ≠ 0 then state + 1 else state
      .ok (0, { server with
        activeConnections := server.activeConnections.set i event.socketFd
        connections := server.connections.set i ⟨event.socketFd, next⟩ })
  else .error .abort

end EpollServer

end Fxmy
