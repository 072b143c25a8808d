import Fxmy.Main
import Fxmy.MainWin
import Fxmy.Lib.Machine
import Mathlib.Logic.Function.Basic

/-!
# The server and its threads (`windows/main_win.c`)

`main` accepts connections and starts a thread for each; the threads run while it scans its table. An
action is what one thread does before another may go on: `main` looks at one slot, or waits for one
thread, or a worker uses its connection. An action that is not its thread's turn leaves everything as
it is, so that a list of actions is an interleaving, whatever it contains.

Connections are addresses on the heap, and a thread's handle is its index: handles are never closed.
-/

namespace Fxmy

/-- How far a worker's thread has come. It may still use its connection between setting `done` and its
end. -/
inductive Phase where
  | running
  | finished
  | exited
  deriving DecidableEq, Repr

/-- A thread of `fxmy_worker_thread` and its context. -/
structure WorkerThread where
  conn : Nat
  phase : Phase
  deriving DecidableEq, Repr

/-- What `main` does next, with the entry that `fxmy_add_new_connection` is called with. -/
inductive MainAt where
  | accepting
  | creating (conn : Nat)
  | scanning (i : Nat) (entry : ThreadInfo)
  | joining (i currentConnection : Nat) (entry : ThreadInfo)
  deriving DecidableEq, Repr

/-- The process. -/
structure Server where
  /-- The connections that are allocated. -/
  heap : Nat → Option Connection
  threads : List WorkerThread
  table : ConnectionTable
  main : MainAt
  /-- The entries whose connections have been freed, in order. -/
  freed : List ThreadInfo

/-- How the process ends. -/
inductive ServerStop where
  | main (e : Stop)
  | worker (thread : Nat) (e : Stop)
  /-- A connection that is not allocated is used or freed. -/
  | freed (conn : Nat)
  deriving DecidableEq, Repr

/-- What a worker meets. -/
structure Client where
  env : Env
  incoming : List Arrival

/-- What the process is started with: `main`'s connection string, and a client for each thread. -/
structure Startup where
  connectionString : List FxmyChar
  client : Nat → Client

/-- What one thread does next. -/
inductive Action where
  /-- `accept` returns, and `fxmy_calloc` gives out the block `conn`. -/
  | accept (conn : Nat)
  /-- `CreateThread`, which may fail. -/
  | createThread (started : Bool)
  /-- `main` looks at a slot, or puts the new connection into one. -/
  | scan (garbage : Nat → ThreadInfo)
  /-- `main` waits for a thread. -/
  | join
  /-- A worker uses its connection. -/
  | touch (thread : Nat)
  /-- A worker sets `done`. -/
  | finish (thread : Nat)
  /-- A worker's thread ends. -/
  | exit (thread : Nat)

/-- What `fxmy_add_new_connection` does behind its scan. -/
def ConnectionTable.enter (garbage : Nat → ThreadInfo) (entry : ThreadInfo) (table : ConnectionTable) :
    Except Stop ConnectionTable := do
  let table ← grow garbage table
  let slots ← insertLoop entry table.contextArray
  .ok ⟨slots, table.numActive + 1⟩

namespace Server

/-- The process when `main` starts. -/
def initial : Server := ⟨fun _ => none, [], .initial, .accepting, []⟩

/-- `fxmy_create_connection`: a block that is not in use, zeroed, with the connection string. -/
def accept (startup : Startup) (conn : Nat) (server : Server) : Server :=
  match server.main, server.heap conn with
  | .accepting, none =>
    { server with
      heap := Function.update server.heap conn (some (.fresh startup.connectionString))
      main := .creating conn }
  | _, _ => server

/-- The call of `CreateThread`. A handle that it fails to create is NULL, which nobody checks. -/
def createThread (started : Bool) (server : Server) : Server :=
  match server.main with
  | .creating conn =>
    if started then
      { server with
        threads := server.threads ++ [⟨conn, .running⟩]
        main := .scanning 0 ⟨some conn, some server.threads.length⟩ }
    else { server with main := .scanning 0 ⟨some conn, none⟩ }
  | _ => server

/-- One turn of the scan in `fxmy_add_new_connection`, up to the wait, and behind the last turn the
rest of the function. -/
def scan (garbage : Nat → ThreadInfo) (server : Server) : Except ServerStop Server :=
  match server.main with
  | .scanning i entry =>
    if i < server.table.numActive then
      match server.table.contextArray[i]? with
      | none => .error (.main .bytes)
      | some slot =>
        match slot.conn with
        | none => .error (.main .null)
        | some currentConnection =>
          match server.heap currentConnection with
          | none => .error (.freed currentConnection)
          | some conn =>
            if conn.done then .ok { server with main := .joining i currentConnection entry }
            else .ok { server with main := .scanning (i + 1) entry }
    else
      match server.table.enter garbage entry with
      | .error e => .error (.main e)
      | .ok table => .ok { server with table := table, main := .accepting }
  | _ => .ok server

/-- `WaitForSingleObject` does not return yet. It fails at once for a NULL handle. -/
def blocks (server : Server) (threadHandle : Option Nat) : Bool :=
  match threadHandle with
  | none => false
  | some t => server.threads[t]?.any (·.phase ≠ .exited)

/-- The wait, `fxmy_free` and the `memset` of the slot. -/
def join (server : Server) : Except ServerStop Server :=
  match server.main with
  | .joining i currentConnection entry =>
    match server.table.contextArray[i]? with
    | none => .error (.main .bytes)
    | some slot =>
      if server.blocks slot.threadHandle then .ok server
      else
        match server.heap currentConnection with
        | none => .error (.freed currentConnection)
        | some _ =>
          .ok { server with
            heap := Function.update server.heap currentConnection none
            table := ⟨server.table.contextArray.set i .empty, server.table.numActive - 1⟩
            main := .scanning (i + 1) entry
            freed := server.freed ++ [slot] }
  | _ => .ok server

/-- A worker uses its connection. -/
def touch (t : Nat) (server : Server) : Except ServerStop Server :=
  match server.threads[t]? with
  | none => .ok server
  | some thread =>
    if thread.phase = .exited then .ok server
    else
      match server.heap thread.conn with
      | none => .error (.freed thread.conn)
      | some _ => .ok server

/-- The world of a worker that starts on a connection. -/
def world (conn : Connection) (client : Client) : World := ⟨conn, [], client.incoming, [], 0⟩

/-- `fxmy_worker` comes to its end, or stops the process. -/
def finish (startup : Startup) (t : Nat) (server : Server) : Except ServerStop Server :=
  match server.threads[t]? with
  | some ⟨conn, .running⟩ =>
    match server.heap conn with
    | none => .error (.freed conn)
    | some record =>
      match worker (startup.client t).env (world record (startup.client t)) with
      | .error e _ => .error (.worker t e)
      | .ok _ w =>
        if w.conn.done then
          .ok { server with
            heap := Function.update server.heap conn (some w.conn)
            threads := server.threads.set t ⟨conn, .finished⟩ }
        else .ok server
  | _ => .ok server

/-- The thread ends behind `fxmy_worker`. -/
def exit (t : Nat) (server : Server) : Server :=
  match server.threads[t]? with
  | some ⟨conn, .finished⟩ => { server with threads := server.threads.set t ⟨conn, .exited⟩ }
  | _ => server

/-- One action. -/
def step (startup : Startup) (server : Server) : Action → Except ServerStop Server
  | .accept conn => .ok (server.accept startup conn)
  | .createThread started => .ok (server.createThread started)
  | .scan garbage => server.scan garbage
  | .join => server.join
  | .touch t => server.touch t
  | .finish t => server.finish startup t
  | .exit t => .ok (server.exit t)

/-- An interleaving. -/
def run (startup : Startup) (actions : List Action) : Except ServerStop Server :=
  Machine.run (step startup) initial actions

end Server

end Fxmy
