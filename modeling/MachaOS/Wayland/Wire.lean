/-
What a session hears over its sockets.

The sends of the client arrive in rounds, one before each `recv`, and a `recv`
takes as much of what waits as its buffer holds, with every id that waits.  So
the session is run by a buffered reader whose chunks depend on the rounds alone:
neither the compositor's own sends nor a close at the client's end change what
it hears.
-/

import MachaOS.Wayland.Session

namespace MachaOS.Wayland

open List
open Socket (State Endpoint Role deliver lookup peerOf recv withoutEndpoint pendingFds setEndpoint
  lookup_setEndpoint lookup_withoutEndpoint peerOf_eq_some)
open Script (Chunk items kept reach)

abbrev Send : Type := Chunk (BitVec 8) Nat

def fdsOf (sends : List Send) : List Nat :=
  (sends.map Prod.snd).flatten

def heard : Bool → List ClientCall → List Send
  | _, [] => []
  | true, .send bytes fds :: rest => (bytes, fds) :: heard true rest
  | false, .send _ _ :: rest => heard false rest
  | _, .close :: rest => heard false rest

def stays (alive : Bool) (calls : List ClientCall) : Bool :=
  alive && !calls.contains .close

def rounds : Bool → List (List ClientCall) → List (List Send)
  | _, [] => []
  | alive, turn :: rest => heard alive turn :: rounds (stays alive turn) rest

def sends (turns : List (List ClientCall)) : List Send :=
  heard true turns.flatten

/-- What each `recv` returns when `pending` waits before the first. -/
def recvs : List (BitVec 8) → List (List Send) → List (Chunk (BitVec 8) Nat)
  | _, [] => []
  | pending, round :: rest =>
      ((pending ++ items round).take scratchLen, fdsOf round) ::
        recvs ((pending ++ items round).drop scratchLen) rest

section Heard

variable {alive : Bool} {calls front back : List ClientCall}

@[simp] theorem fdsOf_append (front back : List Send) :
    fdsOf (front ++ back) = fdsOf front ++ fdsOf back := by
  simp [fdsOf]

theorem stays_append : stays alive (front ++ back) = stays (stays alive front) back := by
  unfold stays
  rw [contains_append, Bool.not_or, Bool.and_assoc]

theorem heard_false (calls : List ClientCall) : heard false calls = [] := by
  induction calls with
  | nil => rfl
  | cons call rest ih =>
      cases call with
      | send bytes fds => exact ih
      | close => exact ih

theorem heard_append : heard alive (front ++ back) =
    heard alive front ++ heard (stays alive front) back := by
  induction front generalizing alive with
  | nil =>
      unfold stays
      simp [heard]
  | cons call rest ih =>
      have further := @ih
      cases call with
      | send bytes fds =>
          have skips : stays alive (.send bytes fds :: rest) = stays alive rest := by
            simp [stays]
          rw [skips]
          cases alive with
          | true => simp [heard, ih]
          | false => simp [heard, ih]
      | close =>
          have gone : stays alive (.close :: rest) = false := by
            simp [stays]
          rw [gone, cons_append, heard, heard, heard_false, heard_false, heard_false]
          rfl

theorem rounds_flatten (alive : Bool) (turns : List (List ClientCall)) :
    (rounds alive turns).flatten = heard alive turns.flatten := by
  induction turns generalizing alive with
  | nil => cases alive <;> rfl
  | cons turn rest ih =>
      rw [rounds, flatten_cons, flatten_cons, heard_append, ih]

theorem rounds_append (alive : Bool) (front back : List (List ClientCall)) :
    rounds alive (front ++ back) = rounds alive front ++ rounds (stays alive front.flatten) back := by
  induction front generalizing alive with
  | nil =>
      simp [rounds, stays]
  | cons turn rest ih =>
      rw [cons_append, rounds, rounds, ih, flatten_cons, stays_append]
      rfl

end Heard

structure Linked (client conn : Nat) (state : State) (alive : Bool) (inbox : List (BitVec 8))
    (inboxFds : List Nat) : Prop where
  apart : client ≠ conn
  server : ∃ endpoint, lookup state conn = some endpoint ∧ endpoint.role = .connected client ∧
    endpoint.inbox = inbox ∧ endpoint.inboxFds = inboxFds
  open' : alive = true → peerOf state client = some conn
  gone : alive = false → lookup state client = none

namespace Linked

variable {client conn : Nat} {state : State} {alive : Bool} {inbox : List (BitVec 8)}
  {inboxFds : List Nat}

theorem send (linked : Linked client conn state true inbox inboxFds) (bytes : List (BitVec 8))
    (fds : List Nat) :
    Linked client conn (deliver state client bytes fds).2 true (inbox ++ bytes)
      (inboxFds ++ fds) := by
  obtain ⟨endpoint, found, role, rfl, rfl⟩ := linked.server
  have isPeer := linked.open' rfl
  have delivered : deliver state client bytes fds = (some bytes.length, setEndpoint state conn
      { endpoint with inbox := endpoint.inbox ++ bytes, inboxFds := endpoint.inboxFds ++ fds }) := by
    unfold deliver
    rw [isPeer]
    dsimp only
    rw [found]
  rw [delivered]
  refine ⟨linked.apart, ⟨_, (lookup_setEndpoint found).trans (if_pos rfl), role, rfl, rfl⟩,
    fun _ => ?_, fun isGone => (by cases isGone)⟩
  obtain ⟨own, here, ownRole⟩ := peerOf_eq_some.mp isPeer
  refine peerOf_eq_some.mpr ⟨own, ?_, ownRole⟩
  rw [lookup_setEndpoint found, if_neg linked.apart, here]

theorem send_gone (linked : Linked client conn state false inbox inboxFds)
    (bytes : List (BitVec 8)) (fds : List Nat) :
    (deliver state client bytes fds).2 = state := by
  have noPeer : peerOf state client = none := by
    unfold peerOf
    rw [linked.gone rfl]
  unfold deliver
  rw [noPeer]

section

variable (linked : Linked client conn state alive inbox inboxFds)
include linked

theorem close : Linked client conn (withoutEndpoint state client) false inbox inboxFds := by
  obtain ⟨endpoint, found, role, isInbox, isFds⟩ := linked.server
  refine ⟨linked.apart, ⟨endpoint, ?_, role, isInbox, isFds⟩, fun isOpen => (by cases isOpen),
    fun _ => lookup_withoutEndpoint.trans (if_pos rfl)⟩
  rw [lookup_withoutEndpoint, if_neg linked.apart.symm, found]

theorem turn (calls : List ClientCall) :
    Linked client conn (clientTurn client state calls) (stays alive calls)
      (inbox ++ items (heard alive calls)) (inboxFds ++ fdsOf (heard alive calls)) := by
  induction calls generalizing state alive inbox inboxFds with
  | nil =>
      unfold stays
      cases alive <;> simpa [clientTurn, heard, fdsOf] using linked
  | cons call rest ih =>
      cases call with
      | send bytes fds =>
          have skips : stays alive (.send bytes fds :: rest) = stays alive rest := by
            simp [stays]
          rw [skips]
          cases alive with
          | true =>
              have further := ih (linked.send bytes fds)
              simpa [clientTurn, clientCall, heard, fdsOf] using further
          | false =>
              have further := ih linked
              simpa [clientTurn, clientCall, heard, linked.send_gone bytes fds] using further
      | close =>
          have further := ih linked.close
          have gone : stays alive (.close :: rest) = stays false rest := by
            simp [stays]
          rw [gone]
          cases alive <;> simpa [clientTurn, clientCall, heard] using further

theorem recv (len : Nat) :
    (recv state conn len).1 = (inbox.take len, inboxFds) ∧
      Linked client conn (recv state conn len).2 alive (inbox.drop len) [] := by
  obtain ⟨endpoint, found, role, rfl, rfl⟩ := linked.server
  unfold Socket.recv
  rw [found]
  refine ⟨rfl, linked.apart, ⟨_, (lookup_setEndpoint found).trans (if_pos rfl), role, rfl, rfl⟩,
    fun isOpen => ?_, fun isGone => ?_⟩
  · obtain ⟨own, here, ownRole⟩ := peerOf_eq_some.mp (linked.open' isOpen)
    refine peerOf_eq_some.mpr ⟨own, ?_, ownRole⟩
    dsimp only
    rw [lookup_setEndpoint found, if_neg linked.apart, here]
  · dsimp only
    rw [lookup_setEndpoint found, if_neg linked.apart, linked.gone isGone]

theorem reply (bytes : List (BitVec 8)) :
    Linked client conn (deliver state conn bytes []).2 alive inbox inboxFds := by
  obtain ⟨endpoint, found, role, isInbox, isFds⟩ := linked.server
  rcases Socket.Traced.deliver_cases state conn bytes [] with
    nothing | ⟨own, peer, target, foundOwn, ownRole, -, live, delivered⟩
  · rw [nothing]
    exact linked
  · rw [found] at foundOwn
    cases foundOwn
    rw [role] at ownRole
    cases ownRole
    rw [delivered]
    refine ⟨linked.apart, ⟨endpoint, ?_, role, isInbox, isFds⟩, fun isOpen => ?_, fun isGone => ?_⟩
    · rw [lookup_setEndpoint live, if_neg linked.apart.symm, found]
    · obtain ⟨there, here, thereRole⟩ := peerOf_eq_some.mp (linked.open' isOpen)
      rw [live] at here
      cases here
      exact peerOf_eq_some.mpr ⟨_, (lookup_setEndpoint live).trans (if_pos rfl), thereRole⟩
    · have missing := linked.gone isGone
      rw [live] at missing
      cases missing

theorem onSockets (effect : Effect) :
    Linked client conn (effect.onSockets conn state) alive inbox inboxFds := by
  cases effect with
  | send bytes => exact linked.reply bytes
  | render shmId poolSize offset width height stride => exact linked
  | closeShm id => exact linked

theorem pendingFds_eq : pendingFds state conn = inboxFds := by
  obtain ⟨endpoint, found, -, -, isFds⟩ := linked.server
  rw [pendingFds, found]
  exact isFds

end

end Linked

def ConnReader.buffered (reader : ConnReader) : Script.Reader (BitVec 8) Nat :=
  { buf := reader.buf, pos := reader.pos, handles := reader.fds }

/-- The turns `past` have been heard: what was sent is in the buffer or waits. -/
structure Hearing (client : Nat) (past : List (List ClientCall)) (reader : ConnReader)
    (state : State) (pending : List (BitVec 8)) : Prop where
  linked : Linked client reader.conn state (stays true past.flatten) pending []
  bytes : reader.buf ++ pending = items (sends past)

def coming (past : List (List ClientCall)) (pending : List (BitVec 8))
    (turns : List (List ClientCall)) : List (Chunk (BitVec 8) Nat) :=
  recvs pending (rounds (stays true past.flatten) turns)

section Hearing

variable {client : Nat} {past : List (List ClientCall)} {reader : ConnReader} {state : State}
  {pending : List (BitVec 8)}

theorem sends_append (front back : List (List ClientCall)) : sends (front ++ back) =
    sends front ++ heard (stays true front.flatten) back.flatten := by
  unfold sends
  rw [flatten_append, heard_append]

theorem Hearing.recv (hearing : Hearing client past reader state pending)
    (turn : List ClientCall) {result : List (BitVec 8) × List Nat} {next : State}
    (received : Socket.recv (clientTurn client state turn) reader.conn scratchLen =
      (result, next)) :
    ∃ pending', (∀ rest, coming past pending (turn :: rest) =
        result :: coming (past ++ [turn]) pending' rest) ∧
      Linked client reader.conn next (stays true (past ++ [turn]).flatten) pending' [] ∧
      (reader.buf ++ result.1) ++ pending' = items (sends (past ++ [turn])) := by
  have flat : (past ++ [turn]).flatten = past.flatten ++ turn := by simp
  obtain ⟨isResult, linked⟩ := (hearing.linked.turn turn).recv scratchLen
  rw [received] at isResult linked
  dsimp only at isResult linked
  refine ⟨_, fun rest => ?_, by rw [flat, stays_append]; exact linked, ?_⟩
  · unfold coming
    rw [rounds, recvs, flat, stays_append, isResult]
    rfl
  · rw [sends_append, isResult]
    simp only [flatten_cons, flatten_nil, append_nil, Script.items_append]
    rw [append_assoc, take_append_drop, ← append_assoc, hearing.bytes]

theorem fillTo_buffered (want : Nat) (hearing : Hearing client past reader state pending)
    (turns : List (List ClientCall)) {reader' : ConnReader} {state' : State}
    {left : Option (List (List ClientCall))}
    (filled : reader.fillTo client want state turns = (reader', state', left)) :
    ∃ more pending', turns = more ++ left.getD [] ∧
      Hearing client (past ++ more) reader' state' pending' ∧
      reader'.pos = reader.pos ∧ reader'.conn = reader.conn ∧
      reader.buffered.fill want (coming past pending turns) =
        (reader'.buffered, left.map (coming (past ++ more) pending')) := by
  induction turns generalizing past reader state pending with
  | nil =>
      cases filled
      refine ⟨[], pending, ?_, ?_, rfl, rfl, ?_⟩
      · split <;> rfl
      · simpa using hearing
      · show (_, if want ≤ reader'.buf.length - reader'.pos then some [] else none) = _
        split <;> rfl
  | cons turn rest ih =>
      unfold ConnReader.fillTo at filled
      by_cases enough : want ≤ reader.buf.length - reader.pos
      · rw [if_pos enough] at filled
        cases filled
        refine ⟨[], pending, rfl, by simpa using hearing, rfl, rfl, ?_⟩
        rw [append_nil]
        exact if_pos enough
      · rw [if_neg enough] at filled
        rcases received : Socket.recv (clientTurn client state turn) reader.conn scratchLen with
          ⟨⟨bytes, fds⟩, next⟩
        rw [received] at filled
        dsimp only at filled
        obtain ⟨waiting, unrolled, linked, whole⟩ := hearing.recv turn received
        dsimp only at whole
        have step : reader.buffered.fill want (coming past pending (turn :: rest)) =
            (reader.buffered.receive (bytes, fds)).fill want
              (coming (past ++ [turn]) waiting rest) := by
          rw [unrolled]
          exact if_neg enough
        rw [step]
        have result : ∃ filling : ConnReader,
            filling.fillTo client want next rest = (reader', state', left) ∧
            filling.pos = reader.pos ∧ filling.conn = reader.conn ∧
            reader.buffered.receive (bytes, fds) = filling.buffered ∧
            Hearing client (past ++ [turn]) filling next waiting := by
          unfold Script.Reader.receive
          split at filled
          · rename_i empty
            refine ⟨reader, filled, rfl, rfl, if_pos empty, linked, ?_⟩
            rw [isEmpty_iff.mp empty, append_nil] at whole
            exact whole
          · rename_i full
            exact ⟨_, filled, rfl, rfl, if_neg full, linked, whole⟩
        obtain ⟨filling, refilled, samePos, sameConn, isFilling, still⟩ := result
        obtain ⟨more, pending', split, further, pos, conn, same⟩ := ih still refilled
        rw [isFilling, same]
        have joined : past ++ turn :: more = past ++ [turn] ++ more := by simp
        refine ⟨turn :: more, pending', by rw [split]; rfl, ?_, pos.trans samePos,
          conn.trans sameConn, ?_⟩
        · rw [joined]
          exact further
        · rw [joined]

theorem run_buffered {α : Type} (script : Session α)
    (hearing : Hearing client past reader state pending) (turns : List (List ClientCall)) :
    ∃ more pending', turns = more ++ (run client script reader state turns).turns ∧
      Hearing client (past ++ more) (run client script reader state turns).reader
        (run client script reader state turns).state pending' ∧
      (run client script reader state turns).reader.conn = reader.conn ∧
      script.run reader.buffered (coming past pending turns) =
        { value := (run client script reader state turns).value
          effects := (run client script reader state turns).effects
          reader := (run client script reader state turns).reader.buffered
          coming := coming (past ++ more) pending' (run client script reader state turns).turns } := by
  induction script generalizing past reader state pending turns with
  | done value =>
      rw [run]
      refine ⟨[], pending, rfl, ?_, rfl, ?_⟩
      · rw [append_nil]
        exact hearing
      · rw [append_nil]
        rfl
  | read want next ih =>
      unfold run Script.run
      rcases filled : reader.fillTo client want state turns with ⟨reader', state', left⟩
      obtain ⟨more, pending', split, still, pos, conn, same⟩ :=
        fillTo_buffered want hearing turns filled
      rw [same]
      cases left with
      | none => exact ⟨more, pending', split, still, conn, rfl⟩
      | some left =>
          dsimp only [Option.map_some]
          have moved : Hearing client (past ++ more) { reader' with pos := reader'.pos + want }
              state' pending' := ⟨still.linked, still.bytes⟩
          obtain ⟨further, pending'', splitFurther, atEnd, sameConn, stand⟩ :=
            ih ((reader'.buf.drop reader'.pos).take want) moved left
          refine ⟨more ++ further, pending'', ?_, ?_, sameConn.trans conn, ?_⟩
          · rw [append_assoc, ← splitFurther]
            exact split
          · rw [← append_assoc]
            exact atEnd
          · rw [← append_assoc]
            exact stand
  | take next ih =>
      unfold run Script.run
      cases held : reader.fds with
      | nil =>
          have nothing : reader.buffered.handles = [] := held
          rw [nothing]
          exact ih none hearing turns
      | cons fd rest =>
          have something : reader.buffered.handles = fd :: rest := held
          rw [something]
          have taken : Hearing client past { reader with fds := rest } state pending :=
            ⟨hearing.linked, hearing.bytes⟩
          exact ih (some fd) taken turns
  | act effect next ih =>
      unfold run Script.run
      have acted : Hearing client past reader (effect.onSockets reader.conn state) pending :=
        ⟨hearing.linked.onSockets effect, hearing.bytes⟩
      obtain ⟨more, pending', split, still, conn, stand⟩ := ih acted turns
      refine ⟨more, pending', split, still, conn, ?_⟩
      rw [stand]
      rfl

end Hearing

end MachaOS.Wayland
