/-
`AF_UNIX` stream sockets (`src/socket.rs`) with `SCM_RIGHTS` fd passing.

Endpoints live in a table of slots that are reused after `close`.  `listeners`
is the map from bound paths to listening endpoints, kept as an association list
with at most one entry per path.
-/

import MachaOS.Shm

namespace MachaOS.Socket

inductive Role where
  | idle
  | bound (path : String)
  | listening
  | connected (peer : Nat)
deriving DecidableEq

structure Endpoint where
  role : Role
  inbox : List (BitVec 8)
  inboxFds : List Nat
  backlog : List Nat
deriving DecidableEq

def Endpoint.new : Endpoint :=
  { role := .idle, inbox := [], inboxFds := [], backlog := [] }

structure State where
  endpoints : Slots Endpoint
  listeners : List (String × Nat)

def lookup (state : State) (id : Nat) : Option Endpoint :=
  state.endpoints.lookup id

def setEndpoint (state : State) (id : Nat) (endpoint : Endpoint) : State :=
  { state with endpoints := state.endpoints.put id endpoint }

def allocEndpoint (state : State) (endpoint : Endpoint) : State × Nat :=
  let (endpoints, id) := Slots.insert endpoint state.endpoints
  ({ state with endpoints }, id)

def create (state : State) : State × Nat :=
  allocEndpoint state Endpoint.new

def listenerAt (state : State) (path : String) : Option Nat :=
  (state.listeners.find? (fun entry => entry.1 == path)).map Prod.snd

def bind (state : State) (id : Nat) (path : String) : Bool × State :=
  if (listenerAt state path).isSome then (false, state)
  else
    match lookup state id with
    | none => (false, state)
    | some endpoint =>
        if endpoint.role = .idle then
          (true, setEndpoint state id { endpoint with role := .bound path })
        else (false, state)

def listen (state : State) (id : Nat) : Bool × State :=
  match lookup state id with
  | none => (false, state)
  | some endpoint =>
      match endpoint.role with
      | .bound path =>
          let opened := setEndpoint state id { endpoint with role := .listening }
          (true, { opened with
            listeners := (path, id) :: opened.listeners.filter (fun entry => entry.1 != path) })
      | _ => (false, state)

def connect (state : State) (id : Nat) (path : String) : Bool × State :=
  match listenerAt state path with
  | none => (false, state)
  | some listenerId =>
      let (paired, serverId) := allocEndpoint state { Endpoint.new with role := .connected id }
      match lookup paired listenerId with
      | none => (false, paired)
      | some listener =>
          let queued := setEndpoint paired listenerId
            { listener with backlog := listener.backlog ++ [serverId] }
          match lookup queued id with
          | none => (false, queued)
          | some client =>
              (true, setEndpoint queued id { client with role := .connected serverId })

def accept (state : State) (listenerId : Nat) : Option Nat × State :=
  match lookup state listenerId with
  | none => (none, state)
  | some listener =>
      match listener.backlog with
      | [] => (none, state)
      | first :: rest => (some first, setEndpoint state listenerId { listener with backlog := rest })

def peerOf (state : State) (id : Nat) : Option Nat :=
  match lookup state id with
  | some { role := .connected peer, .. } => some peer
  | _ => none

def closeAll (table : Shm.Table) : List Nat → Kernel Shm.Table
  | [] => pure table
  | id :: rest => do
      let table ← Shm.close table id
      closeAll table rest

/-- Deliver `bytes` and the shared-memory ids `fds` to the peer of `id`. -/
def send (state : State) (table : Shm.Table) (id : Nat) (bytes : List (BitVec 8))
    (fds : List Nat) : Kernel (Option Nat × State × Shm.Table) :=
  match peerOf state id with
  | none => pure (none, state, table)
  | some peerId =>
      let held := fds.foldl Shm.dup table
      match lookup state peerId with
      | none => do
          let table ← closeAll held fds
          pure (none, state, table)
      | some peer =>
          pure (some bytes.length,
            setEndpoint state peerId
              { peer with inbox := peer.inbox ++ bytes, inboxFds := peer.inboxFds ++ fds },
            held)

/-- Take up to `len` bytes and every passed id. -/
def recv (state : State) (id len : Nat) : (List (BitVec 8) × List Nat) × State :=
  match lookup state id with
  | none => (([], []), state)
  | some endpoint =>
      ((endpoint.inbox.take len, endpoint.inboxFds),
        setEndpoint state id
          { endpoint with inbox := endpoint.inbox.drop len, inboxFds := [] })

def hasData (state : State) (id : Nat) : Bool :=
  match lookup state id with
  | none => false
  | some endpoint => !endpoint.inbox.isEmpty

def pendingFds (state : State) (id : Nat) : List Nat :=
  ((lookup state id).map Endpoint.inboxFds).getD []

def withoutEndpoint (state : State) (id : Nat) : State :=
  { endpoints := state.endpoints.clear id
    listeners := state.listeners.filter (fun entry => entry.2 != id) }

/-- Drop `id` with the fds nobody has claimed. -/
def close (state : State) (table : Shm.Table) (id : Nat) : Kernel (State × Shm.Table) := do
  let table ← closeAll table (pendingFds state id)
  pure (withoutEndpoint state id, table)

end MachaOS.Socket
