/-
The compositor's side of one client connection (`src/wayland.rs`).

The session is a script over the reader of its connection; `render` is an effect
of it, with the arguments it is called with.  A run of the session alternates
with the client: before each `recv` the compositor makes, the client makes a few
calls of its own.
-/

import MachaOS.Lib.Scripts
import MachaOS.SocketPairs

namespace MachaOS.Wayland

open Socket (State deliver lookup peerOf recv withoutEndpoint pendingFds)

inductive Effect where
  | send (bytes : List (BitVec 8))
  | render (shmId : Nat) (poolSize offset : Nat) (width height : BitVec 32) (stride : Nat)
  /-- `shm::close` -/
  | closeShm (id : Nat)
deriving DecidableEq

/-- The ways out of `client_session`. -/
inductive Exit where
  | badHeader (step : Nat)
  | noPool
  | committed
deriving DecidableEq

abbrev Session : Type → Type :=
  Script (BitVec 8) Nat Effect

def fromNeBytes (bytes : List (BitVec 8)) : BitVec 32 :=
  bytes.getD 3 0 ++ bytes.getD 2 0 ++ bytes.getD 1 0 ++ bytes.getD 0 0

def toNeBytes (value : BitVec 32) : List (BitVec 8) :=
  ByteMemory.leBytes value

def readU32 : Session (BitVec 32) :=
  .read 4 (fun bytes => .done (fromNeBytes bytes))

def readHeader : Session (BitVec 32) := do
  let _objectId ← readU32
  let opcodeAndSize ← readU32
  return opcodeAndSize >>> 16

def takeFd : Session (Option Nat) :=
  .take .done

def perform (effect : Effect) : Session Unit :=
  .act effect (.done ())

def pushHeader (objectId : BitVec 32) (opcode size : BitVec 16) : List (BitVec 8) :=
  toNeBytes objectId ++ toNeBytes (opcode.setWidth 32 ||| size.setWidth 32 <<< 16)

def pushU32 (value : BitVec 32) : List (BitVec 8) :=
  toNeBytes value

def asBytes (s : String) : List (BitVec 8) :=
  s.toUTF8.data.toList.map UInt8.toBitVec

def pushStr (s : String) : List (BitVec 8) :=
  pushU32 (BitVec.ofNat 32 (asBytes s).length) ++ asBytes s

def sendGlobal (registryId name : BitVec 32) (interface : String) (version : BitVec 32) :
    Session Unit :=
  let body := pushU32 name ++ pushStr interface ++ pushU32 version
  perform (.send (pushHeader registryId 0 (BitVec.ofNat 16 (8 + body.length)) ++ body))

def clientSession : Session Exit := do
  let size ← readHeader
  if size ≠ 12 then return .badHeader 1
  let registryId ← readU32
  sendGlobal registryId 1 "wl_shm" 1
  sendGlobal registryId 2 "wl_compositor" 4
  if (← readHeader) ≠ 16 then return .badHeader 3
  let _name ← readU32
  let _shmBoundId ← readU32
  if (← readHeader) ≠ 16 then return .badHeader 4
  let _poolId ← readU32
  let poolSize ← readU32
  -- the fd travels beside the bytes of the message
  let some poolShmId ← takeFd | return .noPool
  if (← readHeader) ≠ 32 then return .badHeader 5
  let _bufferId ← readU32
  let offset ← readU32
  let width ← readU32
  let height ← readU32
  let stride ← readU32
  let _format ← readU32
  if (← readHeader) ≠ 16 then return .badHeader 6
  let _name ← readU32
  let _compositorBoundId ← readU32
  if (← readHeader) ≠ 12 then return .badHeader 7
  let _surfaceId ← readU32
  if (← readHeader) ≠ 20 then return .badHeader 8
  let _buffer ← readU32
  let _x ← readU32
  let _y ← readU32
  if (← readHeader) ≠ 8 then return .badHeader 9
  perform (.render poolShmId poolSize.toNat offset.toNat width height stride.toNat)
  perform (.closeShm poolShmId)
  return .committed

structure ConnReader where
  conn : Nat
  buf : List (BitVec 8)
  pos : Nat
  fds : List Nat

def ConnReader.new (conn : Nat) : ConnReader :=
  { conn, buf := [], pos := 0, fds := [] }

inductive ClientCall where
  | send (bytes : List (BitVec 8)) (fds : List Nat)
  | close
deriving DecidableEq

def clientCall (client : Nat) (state : State) : ClientCall → State
  | .send bytes fds => (deliver state client bytes fds).2
  | .close => withoutEndpoint state client

def clientTurn (client : Nat) (state : State) (calls : List ClientCall) : State :=
  calls.foldl (clientCall client) state

def scratchLen : Nat := 512

/-- Each turn is what the client does before the next `recv`; without one left the reader
still waits. -/
def ConnReader.fillTo (client want : Nat) (reader : ConnReader) (state : State) :
    List (List ClientCall) → ConnReader × State × Option (List (List ClientCall))
  | [] => (reader, state, if want ≤ reader.buf.length - reader.pos then some [] else none)
  | turn :: rest =>
      if want ≤ reader.buf.length - reader.pos then (reader, state, some (turn :: rest))
      else
        let ((bytes, fds), state) := recv (clientTurn client state turn) reader.conn scratchLen
        -- `n == 0`: halt and try again
        if bytes.isEmpty then reader.fillTo client want state rest
        else
          { reader with buf := reader.buf ++ bytes, fds := reader.fds ++ fds }.fillTo
            client want state rest

/-- Where a session stands; it has no value while it is still in `fill_to`. -/
structure Progress (α : Type) where
  value : Option α
  effects : List Effect
  reader : ConnReader
  state : State
  turns : List (List ClientCall)

def Progress.after {α : Type} (effect : Effect) (progress : Progress α) : Progress α :=
  { progress with effects := effect :: progress.effects }

/-- Only a `send` reaches the sockets. -/
def Effect.onSockets (conn : Nat) (state : State) : Effect → State
  | .send bytes => (deliver state conn bytes []).2
  | _ => state

def run {α : Type} (client : Nat) :
    Session α → ConnReader → State → List (List ClientCall) → Progress α
  | .done value, reader, state, turns =>
      { value := some value, effects := [], reader, state, turns }
  | .read want next, reader, state, turns =>
      match reader.fillTo client want state turns with
      | (reader, state, none) => { value := none, effects := [], reader, state, turns := [] }
      | (reader, state, some turns) =>
          run client (next ((reader.buf.drop reader.pos).take want))
            { reader with pos := reader.pos + want } state turns
  | .take next, reader, state, turns =>
      match reader.fds with
      | [] => run client (next none) reader state turns
      | fd :: rest => run client (next (some fd)) { reader with fds := rest } state turns
  | .act effect next, reader, state, turns =>
      (run client next reader (effect.onSockets reader.conn state) turns).after effect

def session (state : State) (client conn : Nat) (turns : List (List ClientCall)) : Progress Exit :=
  run client clientSession (ConnReader.new conn) state turns

/-- The ids that `shm::close` is called with. -/
def released (effects : List Effect) : List Nat :=
  effects.filterMap (fun
    | .closeShm id => some id
    | _ => none)

/-- The `shm::close` calls of one round of `compositor_main`: those of the session, and those
of `socket::close`, before which the client may have made more calls. -/
def closes (state : State) (client conn : Nat) (turns : List (List ClientCall))
    (late : List ClientCall) : List Nat :=
  let left := session state client conn turns
  released left.effects ++ pendingFds (clientTurn client left.state late) conn

end MachaOS.Wayland
