/-
What goes through a pair of stream sockets (`src/socket.rs`).

Everything an endpoint has ever sent and received is logged beside the sockets.
While no endpoint is closed and only fresh ones connect, two ends that a connect
has paired keep each other as their only peer, and what one end has received
with what still waits for it is what the other end has sent.
-/

import MachaOS.Lib.Runs
import MachaOS.SocketPairs

namespace MachaOS.Socket

structure Glance where
  peer : Option Nat
  inbox : List (BitVec 8)
  inboxFds : List Nat

def Glance.blank : Glance :=
  { peer := none, inbox := [], inboxFds := [] }

def Endpoint.glance (endpoint : Endpoint) : Glance :=
  { peer := match endpoint.role with
      | .connected peer => some peer
      | _ => none
    inbox := endpoint.inbox
    inboxFds := endpoint.inboxFds }

def glance (state : State) (id : Nat) : Glance :=
  ((lookup state id).map Endpoint.glance).getD Glance.blank

section Glance

variable {state : State} {id : Nat} {endpoint old : Endpoint}

theorem glance_of_lookup (found : lookup state id = some endpoint) :
    glance state id = endpoint.glance := by
  rw [glance, found]
  rfl

theorem glance_setEndpoint (present : lookup state id = some old) :
    glance (setEndpoint state id endpoint) = change (glance state) id endpoint.glance := by
  funext other
  unfold glance change
  rw [lookup_setEndpoint present]
  split
  · rfl
  · rfl

theorem glance_allocEndpoint :
    glance (allocEndpoint state endpoint).1 =
      change (glance state) (allocEndpoint state endpoint).2 endpoint.glance := by
  funext other
  unfold glance change
  rw [lookup_allocEndpoint]
  split
  · rfl
  · rfl

theorem change_same {α : Type} (f : Nat → α) (at' : Nat) : change f at' (f at') = f := by
  funext other
  unfold change
  split
  · rename_i same
    rw [same]
  · rfl

theorem glance_setEndpoint_same (present : lookup state id = some old)
    (same : endpoint.glance = old.glance) : glance (setEndpoint state id endpoint) = glance state := by
  rw [glance_setEndpoint present, same, ← glance_of_lookup present, change_same]

theorem peerOf_eq_glance : peerOf state id = (glance state id).peer := by
  unfold peerOf glance
  cases lookup state id with
  | none => rfl
  | some endpoint =>
      obtain ⟨role, inbox, inboxFds, backlog⟩ := endpoint
      cases role <;> rfl

theorem glance_create : glance (create state).1 = glance state := by
  have fresh : glance state (allocEndpoint state Endpoint.new).2 = Glance.blank := by
    rw [glance, lookup_allocEndpoint_fresh]
    rfl
  have new : Endpoint.new.glance = Glance.blank := rfl
  unfold create
  rw [glance_allocEndpoint, new, ← fresh, change_same]

theorem glance_bind (path : String) : glance (bind state id path).2 = glance state := by
  unfold bind
  split
  · rfl
  · cases found : lookup state id with
    | none => rfl
    | some endpoint =>
        dsimp only
        split
        · rename_i idle
          refine glance_setEndpoint_same found ?_
          unfold Endpoint.glance
          rw [idle]
        · rfl

theorem glance_listen : glance (listen state id).2 = glance state := by
  unfold listen
  cases found : lookup state id with
  | none => rfl
  | some endpoint =>
      dsimp only
      split
      · rename_i path bound
        have same : glance (setEndpoint state id { endpoint with role := .listening }) =
            glance state := by
          refine glance_setEndpoint_same found ?_
          unfold Endpoint.glance
          rw [bound]
        exact same
      · rfl

theorem glance_accept : glance (accept state id).2 = glance state := by
  unfold accept
  cases found : lookup state id with
  | none => rfl
  | some endpoint =>
      dsimp only
      split
      · rfl
      · exact glance_setEndpoint_same found rfl

theorem glance_recv (len : Nat) :
    (recv state id len).1 = ((glance state id).inbox.take len, (glance state id).inboxFds) ∧
      glance (recv state id len).2 =
        change (glance state) id
          { glance state id with inbox := (glance state id).inbox.drop len, inboxFds := [] } := by
  unfold recv
  cases found : lookup state id with
  | none =>
      have blank : glance state id = Glance.blank := by
        rw [glance, found]
        rfl
      dsimp only
      rw [blank]
      refine ⟨by simp [Glance.blank], ?_⟩
      have same : { Glance.blank with inbox := Glance.blank.inbox.drop len, inboxFds := [] } =
          glance state id := by
        rw [blank]
        simp [Glance.blank]
      rw [same, change_same]
  | some endpoint =>
      dsimp only
      rw [glance_of_lookup found, glance_setEndpoint found]
      exact ⟨rfl, rfl⟩

end Glance

structure Streams where
  state : State
  shm : Shm.Table
  machine : Machine
  sent : Nat → List (BitVec 8)
  sentFds : Nat → List Nat
  received : Nat → List (BitVec 8)
  receivedFds : Nat → List Nat
  pairs : List (Nat × Nat)

namespace Streams

def start (shm : Shm.Table) (machine : Machine) : Streams :=
  { state := { endpoints := [], listeners := [] }
    shm
    machine
    sent := fun _ => []
    sentFds := fun _ => []
    received := fun _ => []
    receivedFds := fun _ => []
    pairs := [] }

def logSent (streams : Streams) (id : Nat) (bytes : List (BitVec 8)) (fds : List Nat) : Streams :=
  { streams with
    sent := change streams.sent id (streams.sent id ++ bytes)
    sentFds := change streams.sentFds id (streams.sentFds id ++ fds) }

def logReceived (streams : Streams) (id : Nat) (bytes : List (BitVec 8)) (fds : List Nat) :
    Streams :=
  { streams with
    received := change streams.received id (streams.received id ++ bytes)
    receivedFds := change streams.receivedFds id (streams.receivedFds id ++ fds) }

def step (streams : Streams) : Call → Option Streams
  | .create => some { streams with state := (create streams.state).1 }
  | .bind id path => some { streams with state := (bind streams.state id path).2 }
  | .listen id => some { streams with state := (listen streams.state id).2 }
  | .connect id path =>
      let (made, state) := connect streams.state id path
      some { streams with
        state
        pairs :=
          if made then (id, Traced.serverSlot streams.state id) :: streams.pairs else streams.pairs }
  | .accept id => some { streams with state := (accept streams.state id).2 }
  | .send id bytes fds =>
      match send streams.state streams.shm id bytes fds streams.machine with
      | (.ok (none, state, shm), machine) => some { streams with state, shm, machine }
      | (.ok (some _, state, shm), machine) =>
          some ({ streams with state, shm, machine }.logSent id bytes fds)
      | (.error _, _) => none
  | .recv id len =>
      let ((bytes, fds), state) := recv streams.state id len
      some ({ streams with state }.logReceived id bytes fds)
  | .close id =>
      match close streams.state streams.shm id streams.machine with
      | (.ok (state, shm), machine) => some { streams with state, shm, machine }
      | (.error _, _) => none

def Orderly (streams : Streams) : Call → Prop
  | .connect id _ => ∃ endpoint, lookup streams.state id = some endpoint ∧ endpoint.role = .idle
  | .close _ => False
  | _ => True

def Listening (state : State) (id : Nat) : Prop :=
  ∃ endpoint, lookup state id = some endpoint ∧ endpoint.role = .listening

/-- Peers are mutual, what was received and what waits is what the peer has sent, and an
endpoint without a peer has seen nothing. -/
structure Lossless (streams : Streams) : Prop where
  listeners : ∀ entry, entry ∈ streams.state.listeners → Listening streams.state entry.2
  mutuals : ∀ id peer, (glance streams.state id).peer = some peer →
    (glance streams.state peer).peer = some id
  bytes : ∀ id peer, (glance streams.state id).peer = some peer →
    streams.received id ++ (glance streams.state id).inbox = streams.sent peer
  fds : ∀ id peer, (glance streams.state id).peer = some peer →
    streams.receivedFds id ++ (glance streams.state id).inboxFds = streams.sentFds peer
  untouched : ∀ id, (glance streams.state id).peer = none →
    glance streams.state id = Glance.blank ∧ streams.sent id = [] ∧ streams.sentFds id = [] ∧
      streams.received id = [] ∧ streams.receivedFds id = []
  paired : ∀ pair, pair ∈ streams.pairs → (glance streams.state pair.1).peer = some pair.2

theorem listening_setEndpoint {state : State} {id other : Nat} {endpoint old : Endpoint}
    (present : lookup state id = some old)
    (role : old.role = .listening → endpoint.role = .listening) (listens : Listening state other) :
    Listening (setEndpoint state id endpoint) other := by
  obtain ⟨listener, found, isListening⟩ := listens
  rw [Listening, lookup_setEndpoint present]
  split
  · rename_i same
    rw [same, present] at found
    cases found
    exact ⟨endpoint, rfl, role isListening⟩
  · exact ⟨listener, found, isListening⟩

theorem listening_allocEndpoint {state : State} {other : Nat} {endpoint : Endpoint}
    (listens : Listening state other) : Listening (allocEndpoint state endpoint).1 other := by
  obtain ⟨listener, found, isListening⟩ := listens
  refine ⟨listener, ?_, isListening⟩
  rw [lookup_allocEndpoint, if_neg, found]
  rintro rfl
  rw [lookup_allocEndpoint_fresh] at found
  cases found

namespace Lossless

variable {streams : Streams}

section

variable (lossless : Lossless streams)
include lossless

theorem of_glance {state : State} (same : glance state = glance streams.state)
    (listeners : ∀ entry, entry ∈ state.listeners → Listening state entry.2) :
    Lossless { streams with state } := by
  refine ⟨listeners, ?_, ?_, ?_, ?_, ?_⟩ <;> dsimp only <;> rw [same]
  · exact lossless.mutuals
  · exact lossless.bytes
  · exact lossless.fds
  · exact lossless.untouched
  · exact lossless.paired

theorem create : Lossless { streams with state := (create streams.state).1 } :=
  lossless.of_glance glance_create
    (fun entry member => listening_allocEndpoint (lossless.listeners entry member))

theorem bind (id : Nat) (path : String) :
    Lossless { streams with state := (bind streams.state id path).2 } := by
  refine lossless.of_glance (glance_bind path) ?_
  unfold Socket.bind
  split
  · exact lossless.listeners
  · cases found : lookup streams.state id with
    | none => exact lossless.listeners
    | some endpoint =>
        dsimp only
        split
        · rename_i idle
          intro entry member
          refine listening_setEndpoint found (fun isListening => ?_) (lossless.listeners entry member)
          rw [idle] at isListening
          cases isListening
        · exact lossless.listeners

theorem listen (id : Nat) : Lossless { streams with state := (listen streams.state id).2 } := by
  refine lossless.of_glance glance_listen ?_
  unfold Socket.listen
  cases found : lookup streams.state id with
  | none => exact lossless.listeners
  | some endpoint =>
      dsimp only
      split
      · rename_i path bound
        intro entry member
        have opened : ∀ other, Listening streams.state other →
            Listening (setEndpoint streams.state id { endpoint with role := .listening }) other :=
          fun other => listening_setEndpoint found (fun _ => rfl)
        rcases List.mem_cons.mp member with rfl | old
        · refine ⟨{ endpoint with role := .listening }, ?_, rfl⟩
          exact (lookup_setEndpoint found).trans (if_pos rfl)
        · exact opened entry.2 (lossless.listeners entry (List.mem_of_mem_filter old))
      · exact lossless.listeners

theorem accept (id : Nat) : Lossless { streams with state := (accept streams.state id).2 } := by
  refine lossless.of_glance glance_accept ?_
  unfold Socket.accept
  cases found : lookup streams.state id with
  | none => exact lossless.listeners
  | some endpoint =>
      dsimp only
      split
      · exact lossless.listeners
      · intro entry member
        exact listening_setEndpoint found (fun isListening => isListening)
          (lossless.listeners entry member)

theorem recv (id len : Nat) :
    Lossless ({ streams with state := (recv streams.state id len).2 }.logReceived id
      (recv streams.state id len).1.1 (recv streams.state id len).1.2) := by
  obtain ⟨result, seen⟩ := @glance_recv streams.state id len
  have peers : ∀ other, (glance (Socket.recv streams.state id len).2 other).peer =
      (glance streams.state other).peer := by
    intro other
    rw [seen, change]
    split
    · rename_i same
      rw [same]
    · rfl
  rw [result]
  refine ⟨?_, ?_, ?_, ?_, ?_, ?_⟩
  · intro entry member
    have listens : entry ∈ streams.state.listeners := by
      unfold logReceived Socket.recv at member
      dsimp only at member
      split at member <;> exact member
    show Listening (Socket.recv streams.state id len).2 entry.2
    unfold Socket.recv
    cases found : lookup streams.state id with
    | none => exact lossless.listeners entry listens
    | some endpoint =>
        exact listening_setEndpoint found (fun isListening => isListening)
          (lossless.listeners entry listens)
  · intro other peer isPeer
    exact (peers peer).trans (lossless.mutuals other peer ((peers other).symm.trans isPeer))
  · intro other peer isPeer
    have whole := lossless.bytes other peer ((peers other).symm.trans isPeer)
    dsimp only [logReceived] at whole ⊢
    rw [seen]
    unfold change
    split
    · rename_i same
      subst same
      rw [List.append_assoc, List.take_append_drop, whole]
    · exact whole
  · intro other peer isPeer
    have whole := lossless.fds other peer ((peers other).symm.trans isPeer)
    dsimp only [logReceived] at whole ⊢
    rw [seen]
    unfold change
    split
    · rename_i same
      subst same
      rw [List.append_nil, whole]
    · exact whole
  · intro other isPeer
    obtain ⟨blank, sent, sentFds, received, receivedFds⟩ :=
      lossless.untouched other ((peers other).symm.trans isPeer)
    dsimp only [logReceived]
    rw [seen]
    unfold change
    split
    · rename_i same
      subst same
      rw [blank, received, receivedFds]
      simp [Glance.blank, sent, sentFds]
    · exact ⟨blank, sent, sentFds, received, receivedFds⟩
  · intro pair member
    exact (peers pair.1).trans (lossless.paired pair member)

theorem send {id peer : Nat} {target : Endpoint} (bytes : List (BitVec 8)) (fds : List Nat)
    (shm : Shm.Table) (machine : Machine) (isPeer : peerOf streams.state id = some peer)
    (live : lookup streams.state peer = some target) :
    Lossless ({ streams with
      state := setEndpoint streams.state peer
        { target with inbox := target.inbox ++ bytes, inboxFds := target.inboxFds ++ fds }
      shm
      machine }.logSent id bytes fds) := by
  rw [peerOf_eq_glance] at isPeer
  have back := lossless.mutuals id peer isPeer
  have seen : glance (setEndpoint streams.state peer
      { target with inbox := target.inbox ++ bytes, inboxFds := target.inboxFds ++ fds }) =
      change (glance streams.state) peer
        { glance streams.state peer with
          inbox := (glance streams.state peer).inbox ++ bytes
          inboxFds := (glance streams.state peer).inboxFds ++ fds } := by
    rw [glance_setEndpoint live, glance_of_lookup live]
    rfl
  have peers : ∀ other, (glance (setEndpoint streams.state peer
      { target with inbox := target.inbox ++ bytes, inboxFds := target.inboxFds ++ fds }) other).peer =
      (glance streams.state other).peer := by
    intro other
    rw [seen, change]
    split
    · rename_i same
      rw [same]
    · rfl
  -- only the target has the sender for its peer
  have only : ∀ other far, (glance streams.state other).peer = some far →
      (other = peer ↔ far = id) := by
    intro other far isFar
    constructor
    · rintro rfl
      exact Option.some.inj (isFar.symm.trans back)
    · rintro rfl
      exact Option.some.inj ((lossless.mutuals other far isFar).symm.trans isPeer)
  refine ⟨?_, ?_, ?_, ?_, ?_, ?_⟩
  · intro entry member
    exact listening_setEndpoint live (fun isListening => isListening)
      (lossless.listeners entry member)
  · intro other far isFar
    exact (peers far).trans (lossless.mutuals other far ((peers other).symm.trans isFar))
  · intro other far isFar
    have wasFar := (peers other).symm.trans isFar
    have whole := lossless.bytes other far wasFar
    dsimp only [logSent]
    rw [seen]
    unfold change
    by_cases same : other = peer
    · obtain rfl := (only other far wasFar).mp same
      subst same
      rw [if_pos rfl, if_pos rfl, ← List.append_assoc, whole]
    · rw [if_neg same, if_neg (fun again => same ((only other far wasFar).mpr again)), whole]
  · intro other far isFar
    have wasFar := (peers other).symm.trans isFar
    have whole := lossless.fds other far wasFar
    dsimp only [logSent]
    rw [seen]
    unfold change
    by_cases same : other = peer
    · obtain rfl := (only other far wasFar).mp same
      subst same
      rw [if_pos rfl, if_pos rfl, ← List.append_assoc, whole]
    · rw [if_neg same, if_neg (fun again => same ((only other far wasFar).mpr again)), whole]
  · intro other noPeer
    have hadNone := (peers other).symm.trans noPeer
    have notSender : other ≠ id := by
      rintro rfl
      rw [isPeer] at hadNone
      cases hadNone
    have notTarget : other ≠ peer := by
      rintro rfl
      rw [back] at hadNone
      cases hadNone
    dsimp only [logSent]
    rw [seen]
    unfold change
    rw [if_neg notTarget, if_neg notSender, if_neg notSender]
    exact lossless.untouched other hadNone
  · intro pair member
    exact (peers pair.1).trans (lossless.paired pair member)

theorem pair {state : State} {client server : Nat}
    (seen : glance state = change (change (glance streams.state) server
      { Glance.blank with peer := some client }) client { Glance.blank with peer := some server })
    (listeners : ∀ entry, entry ∈ state.listeners → Listening state entry.2)
    (fresh : (glance streams.state client).peer = none)
    (free : (glance streams.state server).peer = none) (apart : client ≠ server) :
    Lossless { streams with state, pairs := (client, server) :: streams.pairs } := by
  obtain ⟨-, clientSent, clientSentFds, clientReceived, clientReceivedFds⟩ :=
    lossless.untouched client fresh
  obtain ⟨-, serverSent, serverSentFds, serverReceived, serverReceivedFds⟩ :=
    lossless.untouched server free
  have atClient : glance state client = { Glance.blank with peer := some server } := by
    rw [seen, change, if_pos rfl]
  have atServer : glance state server = { Glance.blank with peer := some client } := by
    rw [seen, change, if_neg (Ne.symm apart), change, if_pos rfl]
  have elsewhere : ∀ other, other ≠ client → other ≠ server →
      glance state other = glance streams.state other := by
    intro other notClient notServer
    rw [seen, change, if_neg notClient, change, if_neg notServer]
  -- neither end was anybody's peer
  have unnamed : ∀ other far, (glance streams.state other).peer = some far →
      other ≠ client ∧ other ≠ server ∧ far ≠ client ∧ far ≠ server := by
    intro other far isFar
    have back := lossless.mutuals other far isFar
    refine ⟨?_, ?_, ?_, ?_⟩ <;> rintro rfl
    · rw [fresh] at isFar
      cases isFar
    · rw [free] at isFar
      cases isFar
    · rw [fresh] at back
      cases back
    · rw [free] at back
      cases back
  have cases' : ∀ other far, (glance state other).peer = some far →
      (other = client ∧ far = server) ∨ (other = server ∧ far = client) ∨
        (other ≠ client ∧ other ≠ server ∧ (glance streams.state other).peer = some far) := by
    intro other far isFar
    by_cases isClient : other = client
    · rw [isClient, atClient] at isFar
      cases isFar
      exact Or.inl ⟨isClient, rfl⟩
    · by_cases isServer : other = server
      · rw [isServer, atServer] at isFar
        cases isFar
        exact Or.inr (Or.inl ⟨isServer, rfl⟩)
      · rw [elsewhere other isClient isServer] at isFar
        exact Or.inr (Or.inr ⟨isClient, isServer, isFar⟩)
  refine ⟨listeners, ?_, ?_, ?_, ?_, ?_⟩
  · intro other far isFar
    dsimp only at isFar ⊢
    rcases cases' other far isFar with ⟨rfl, rfl⟩ | ⟨rfl, rfl⟩ | ⟨-, -, wasFar⟩
    · rw [atServer]
    · rw [atClient]
    · obtain ⟨-, -, notClient, notServer⟩ := unnamed other far wasFar
      rw [elsewhere far notClient notServer]
      exact lossless.mutuals other far wasFar
  · intro other far isFar
    dsimp only at isFar ⊢
    rcases cases' other far isFar with ⟨rfl, rfl⟩ | ⟨rfl, rfl⟩ | ⟨notClient, notServer, wasFar⟩
    · rw [atClient, clientReceived, serverSent]
      rfl
    · rw [atServer, serverReceived, clientSent]
      rfl
    · rw [elsewhere other notClient notServer]
      exact lossless.bytes other far wasFar
  · intro other far isFar
    dsimp only at isFar ⊢
    rcases cases' other far isFar with ⟨rfl, rfl⟩ | ⟨rfl, rfl⟩ | ⟨notClient, notServer, wasFar⟩
    · rw [atClient, clientReceivedFds, serverSentFds]
      rfl
    · rw [atServer, serverReceivedFds, clientSentFds]
      rfl
    · rw [elsewhere other notClient notServer]
      exact lossless.fds other far wasFar
  · intro other noPeer
    dsimp only at noPeer ⊢
    by_cases isClient : other = client
    · rw [isClient, atClient] at noPeer
      cases noPeer
    · by_cases isServer : other = server
      · rw [isServer, atServer] at noPeer
        cases noPeer
      · rw [elsewhere other isClient isServer] at noPeer ⊢
        exact lossless.untouched other noPeer
  · intro pair member
    dsimp only at member ⊢
    rcases List.mem_cons.mp member with rfl | old
    · rw [atClient]
    · have wasFar := lossless.paired pair old
      obtain ⟨notClient, notServer, -, -⟩ := unnamed pair.1 pair.2 wasFar
      rw [elsewhere pair.1 notClient notServer]
      exact wasFar

theorem connect {id : Nat} {path : String} (orderly : Orderly streams (.connect id path)) :
    Lossless { streams with
      state := (connect streams.state id path).2
      pairs :=
        if (connect streams.state id path).1 then
          (id, Traced.serverSlot streams.state id) :: streams.pairs
        else streams.pairs } := by
  obtain ⟨client, here, idle⟩ := orderly
  cases found : listenerAt streams.state path with
  | none =>
      have refused : Socket.connect streams.state id path = (false, streams.state) := by
        unfold Socket.connect
        rw [found]
      rw [refused]
      exact lossless
  | some listenerId =>
      obtain ⟨entry, inListeners, isId⟩ := Traced.mem_listeners found
      obtain ⟨listener, live, isListening⟩ := lossless.listeners entry inListeners
      rw [isId] at live
      obtain ⟨queued, sameListeners, lookups, result⟩ :=
        @Traced.connect_of_listener _ id _ _ _ found live
      have free : lookup streams.state (Traced.serverSlot streams.state id) = none :=
        lookup_allocEndpoint_fresh
      have notServer : id ≠ Traced.serverSlot streams.state id := by
        intro same
        rw [← same, here] at free
        cases free
      have notListener : id ≠ listenerId := by
        rintro rfl
        rw [here] at live
        cases live
        rw [idle] at isListening
        cases isListening
      have stillThere : lookup queued id = some client := by
        rw [lookups, if_neg notServer, if_neg notListener, here]
      have noPeer : (glance streams.state id).peer = none := by
        rw [glance_of_lookup here, Endpoint.glance, idle]
      have blank := (lossless.untouched id noPeer).1
      rw [glance_of_lookup here] at blank
      rw [result, stillThere]
      refine lossless.pair ?_ ?_ noPeer ?_ notServer
      · have seenQueued : glance queued = change (glance streams.state)
            (Traced.serverSlot streams.state id) { Glance.blank with peer := some id } := by
          funext other
          unfold glance change
          rw [lookups]
          split
          · rfl
          · split
            · rename_i isListener
              rw [isListener]
              exact (glance_of_lookup live).symm
            · rfl
        have seenClient :
            { client with role := .connected (Traced.serverSlot streams.state id) }.glance =
              { client.glance with peer := some (Traced.serverSlot streams.state id) } := rfl
        dsimp only
        rw [glance_setEndpoint stillThere, seenQueued, seenClient, blank]
      · intro entry member
        refine listening_setEndpoint stillThere (fun isListening => ?_) ?_
        · rw [idle] at isListening
          cases isListening
        · have listens : entry ∈ streams.state.listeners := sameListeners ▸ member
          obtain ⟨old, wasThere, wasListening⟩ := lossless.listeners entry listens
          rw [Listening, lookups]
          split
          · rename_i same
            rw [same, free] at wasThere
            cases wasThere
          · split
            · rename_i same
              rw [same, live] at wasThere
              cases wasThere
              exact ⟨_, rfl, wasListening⟩
            · exact ⟨old, wasThere, wasListening⟩
      · rw [glance, free]
        rfl

theorem step {call : Call} {next : Streams} (orderly : Orderly streams call)
    (stepped : streams.step call = some next) : Lossless next := by
  cases call with
  | create =>
      cases stepped
      exact lossless.create
  | bind id path =>
      cases stepped
      exact lossless.bind id path
  | listen id =>
      cases stepped
      exact lossless.listen id
  | connect id path =>
      cases stepped
      exact lossless.connect orderly
  | accept id =>
      cases stepped
      exact lossless.accept id
  | send id bytes fds =>
      unfold Streams.step at stepped
      dsimp only at stepped
      rcases ran : Socket.send streams.state streams.shm id bytes fds streams.machine with
        ⟨fault | ⟨sent, state, shm⟩, machine⟩
      · rw [ran] at stepped
        cases stepped
      · have delivered := send_deliver ran
        rw [ran] at stepped
        rcases Traced.deliver_cases streams.state id bytes fds with
          nothing | ⟨endpoint, peer, target, -, -, isPeer, live, reached⟩
        · rw [nothing] at delivered
          cases delivered
          cases stepped
          exact ⟨lossless.listeners, lossless.mutuals, lossless.bytes, lossless.fds,
            lossless.untouched, lossless.paired⟩
        · rw [reached] at delivered
          cases delivered
          cases stepped
          exact lossless.send bytes fds shm machine isPeer live
  | recv id len =>
      cases stepped
      exact lossless.recv id len
  | close id => exact orderly.elim

end

end Lossless

theorem lossless_start (shm : Shm.Table) (machine : Machine) : Lossless (start shm machine) := by
  have blank : ∀ id, glance (start shm machine).state id = Glance.blank := by
    intro id
    simp [glance, start, lookup]
  refine ⟨fun _ => List.not_mem_nil.elim, ?_, ?_, ?_, ?_, fun _ => List.not_mem_nil.elim⟩
  · intro id peer isPeer
    rw [blank] at isPeer
    cases isPeer
  · intro id peer isPeer
    rw [blank] at isPeer
    cases isPeer
  · intro id peer isPeer
    rw [blank] at isPeer
    cases isPeer
  · intro id _
    exact ⟨blank id, rfl, rfl, rfl, rfl⟩

/-- Streams are first in, first out and lossless: at either end of a connection, what has been
received and what waits is what the other end has sent. -/
theorem stream_fifo (shm : Shm.Table) (machine : Machine) (calls : List Call) (streams : Streams)
    (meets : Runs.Meets step Orderly (start shm machine) calls)
    (ran : Runs.after step (start shm machine) calls = some streams) (left right : Nat)
    (paired : (left, right) ∈ streams.pairs ∨ (right, left) ∈ streams.pairs) :
    ∃ endpoint, lookup streams.state left = some endpoint ∧
      streams.received left ++ endpoint.inbox = streams.sent right ∧
      streams.receivedFds left ++ endpoint.inboxFds = streams.sentFds right := by
  have lossless : Lossless streams :=
    Runs.after_invariant (fun _ _ _ holds orderly stepped => holds.step orderly stepped)
      (lossless_start shm machine) meets ran
  have isPeer : (glance streams.state left).peer = some right := by
    rcases paired with ahead | back
    · exact lossless.paired _ ahead
    · exact lossless.mutuals _ _ (lossless.paired _ back)
  have bytes := lossless.bytes left right isPeer
  have fds := lossless.fds left right isPeer
  cases found : lookup streams.state left with
  | none =>
      rw [glance, found] at isPeer
      cases isPeer
  | some endpoint =>
      rw [glance_of_lookup found] at bytes fds
      exact ⟨endpoint, rfl, bytes, fds⟩

def conversation : List Call :=
  [.create, .bind 0 "wayland-0", .listen 0, .create, .connect 1 "wayland-0",
    .send 1 [0x41#8, 0x42#8] [], .accept 0, .send 2 [0x43#8] [], .recv 2 1]

def quietMachine : Machine :=
  { mem := fun _ => 0#8, pmm := { bitmap := fun _ => 0xFF#8, lastUsableFrame := 0 }, cr3 := 0 }

theorem stream_fifo_conversation : ∃ streams,
    Runs.after step (start [] quietMachine) conversation = some streams ∧
      streams.received 2 = [0x41#8] ∧
      ∃ endpoint, lookup streams.state 2 = some endpoint ∧
        streams.received 2 ++ endpoint.inbox = streams.sent 1 ∧
        streams.receivedFds 2 ++ endpoint.inboxFds = streams.sentFds 1 := by
  refine ⟨_, rfl, rfl, ?_⟩
  have meets : Runs.Meets step Orderly (start [] quietMachine) conversation := by
    refine ⟨trivial, fun first isFirst => ?_⟩
    cases isFirst
    refine ⟨trivial, fun second isSecond => ?_⟩
    cases isSecond
    refine ⟨trivial, fun third isThird => ?_⟩
    cases isThird
    refine ⟨trivial, fun fourth isFourth => ?_⟩
    cases isFourth
    refine ⟨⟨Endpoint.new, rfl, rfl⟩, fun _ _ => ?_⟩
    exact ⟨trivial, fun _ _ => ⟨trivial, fun _ _ => ⟨trivial, fun _ _ => ⟨trivial, fun _ _ => trivial⟩⟩⟩⟩
  exact stream_fifo [] quietMachine conversation _ meets rfl 2 1 (Or.inr List.mem_cons_self)

end Streams
end MachaOS.Socket
