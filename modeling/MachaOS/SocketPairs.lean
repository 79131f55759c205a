/-
Who talks to whom over the sockets (`src/socket.rs`).

Endpoint ids are slots that are used again, so every endpoint ever opened gets a
serial here, and every waiting byte and shared-memory id the serial of its
sender.  The serials are bookkeeping beside the socket state: no operation reads
them.  As long as no slot is reused while an open endpoint still names it as its
peer, everything an endpoint receives comes from an endpoint it was paired with.
-/

import MachaOS.Lib.Runs
import MachaOS.Socket

namespace MachaOS.Socket

open List

def deliver (state : State) (id : Nat) (bytes : List (BitVec 8)) (fds : List Nat) :
    Option Nat × State :=
  match peerOf state id with
  | none => (none, state)
  | some peerId =>
      match lookup state peerId with
      | none => (none, state)
      | some peer =>
          (some bytes.length,
            setEndpoint state peerId
              { peer with inbox := peer.inbox ++ bytes, inboxFds := peer.inboxFds ++ fds })

theorem send_deliver {state after : State} {table table' : Shm.Table} {id : Nat}
    {bytes : List (BitVec 8)} {fds : List Nat} {machine machine' : Machine} {sent : Option Nat}
    (ran : send state table id bytes fds machine = (.ok (sent, after, table'), machine')) :
    deliver state id bytes fds = (sent, after) := by
  unfold send at ran
  unfold deliver
  cases peer : peerOf state id with
  | none =>
      rw [peer] at ran
      cases ran
      rfl
  | some peerId =>
      rw [peer] at ran
      dsimp only at ran ⊢
      cases found : lookup state peerId with
      | none =>
          rw [found] at ran
          dsimp only at ran ⊢
          obtain ⟨closed, middle, -, finished⟩ := Fallible.bind_eq_ok ran
          cases finished
          rfl
      | some peer =>
          rw [found] at ran
          cases ran
          rfl

section Lookups

variable {state : State} {id other : Nat} {endpoint old : Endpoint}

theorem lookup_setEndpoint (present : lookup state id = some old) :
    lookup (setEndpoint state id endpoint) other =
      if other = id then some endpoint else lookup state other :=
  Slots.lookup_put endpoint present other

theorem lookup_allocEndpoint :
    lookup (allocEndpoint state endpoint).1 other =
      if other = (allocEndpoint state endpoint).2 then some endpoint else lookup state other :=
  Slots.lookup_insert endpoint state.endpoints other

theorem lookup_allocEndpoint_fresh : lookup state (allocEndpoint state endpoint).2 = none :=
  Slots.lookup_insert_fresh endpoint state.endpoints

theorem lookup_withoutEndpoint : lookup (withoutEndpoint state id) other =
    if other = id then none else lookup state other :=
  Slots.lookup_clear state.endpoints id other

theorem peerOf_eq_some {peer : Nat} :
    peerOf state id = some peer ↔
      ∃ endpoint, lookup state id = some endpoint ∧ endpoint.role = .connected peer := by
  unfold peerOf
  rcases lookup state id with - | ⟨role, inbox, fds, backlog⟩
  · simp
  · cases role <;> simp

end Lookups

/-! ### Serials -/

structure Traced where
  state : State
  serial : Nat → Nat
  opened : Nat
  pairs : List (Nat × Nat)
  partner : Nat → Option Nat
  senders : Nat → List (BitVec 8 × Nat)
  fdSenders : Nat → List (Nat × Nat)

inductive Call where
  | create
  | bind (id : Nat) (path : String)
  | listen (id : Nat)
  | connect (id : Nat) (path : String)
  | accept (id : Nat)
  | send (id : Nat) (bytes : List (BitVec 8)) (fds : List Nat)
  | recv (id len : Nat)
  | close (id : Nat)

def change {α : Type} (f : Nat → α) (at' : Nat) (value : α) : Nat → α :=
  fun other => if other = at' then value else f other

namespace Traced

def initial : Traced :=
  { state := { endpoints := [], listeners := [] }
    serial := fun _ => 0
    opened := 0
    pairs := []
    partner := fun _ => none
    senders := fun _ => []
    fdSenders := fun _ => [] }

def openSlot (traced : Traced) (id : Nat) : Traced :=
  { traced with
    serial := change traced.serial id traced.opened
    opened := traced.opened + 1
    partner := change traced.partner id none
    senders := change traced.senders id []
    fdSenders := change traced.fdSenders id [] }

def serverSlot (state : State) (id : Nat) : Nat :=
  (allocEndpoint state { Endpoint.new with role := .connected id }).2

def pair (traced : Traced) (client server : Nat) : Traced :=
  { traced with
    pairs := (traced.serial client, traced.serial server) :: traced.pairs
    partner := change (change traced.partner server (some (traced.serial client))) client
      (some (traced.serial server)) }

def step (traced : Traced) : Call → Option Traced
  | .create =>
      some { traced.openSlot (create traced.state).2 with state := (create traced.state).1 }
  | .bind id path => some { traced with state := (Socket.bind traced.state id path).2 }
  | .listen id => some { traced with state := (listen traced.state id).2 }
  | .connect id path =>
      let (made, state) := connect traced.state id path
      match listenerAt traced.state path with
      | none => some { traced with state }
      | some _ =>
          let opened := traced.openSlot (serverSlot traced.state id)
          let traced := if made then opened.pair id (serverSlot traced.state id) else opened
          some { traced with state }
  | .accept id => some { traced with state := (accept traced.state id).2 }
  | .send id bytes fds =>
      let (sent, state) := deliver traced.state id bytes fds
      match sent, peerOf traced.state id with
      | some _, some peer =>
          some
            { traced with
              state
              senders := change traced.senders peer
                (traced.senders peer ++ bytes.map (fun byte => (byte, traced.serial id)))
              fdSenders := change traced.fdSenders peer
                (traced.fdSenders peer ++ fds.map (fun fd => (fd, traced.serial id))) }
      | _, _ => some { traced with state }
  | .recv id len =>
      some
        { traced with
          state := (recv traced.state id len).2
          senders := change traced.senders id ((traced.senders id).drop len)
          fdSenders := change traced.fdSenders id [] }
  | .close id => some { traced with state := withoutEndpoint traced.state id }

def Unnamed (state : State) (slot : Nat) : Prop :=
  ∀ id endpoint, lookup state id = some endpoint → endpoint.role ≠ .connected slot

theorem unnamed_of_all {state : State} {slot : Nat}
    (all : state.endpoints.all (fun entry =>
      entry.all (fun endpoint => endpoint.role ≠ .connected slot)) = true) :
    Unnamed state slot := by
  intro id endpoint found
  unfold lookup Slots.lookup at found
  obtain ⟨place, isPlace, rfl⟩ : ∃ place, state.endpoints[id]? = some place ∧
      place = some endpoint := by
    cases isThere : state.endpoints[id]? with
    | none => simp [isThere] at found
    | some place =>
        rw [isThere] at found
        exact ⟨place, rfl, found⟩
  have named := all_eq_true.mp all _ (mem_of_getElem? isPlace)
  simpa using named

def Untaken (traced : Traced) : Call → Prop
  | .create => Unnamed traced.state (create traced.state).2
  | .connect id path =>
      (listenerAt traced.state path).isSome → Unnamed traced.state (serverSlot traced.state id)
  | _ => True

def Paired (traced : Traced) (left right : Nat) : Prop :=
  (left, right) ∈ traced.pairs ∨ (right, left) ∈ traced.pairs

structure Faithful (traced : Traced) : Prop where
  listeners : ∀ entry, entry ∈ traced.state.listeners → (lookup traced.state entry.2).isSome
  linked : ∀ id endpoint peer other, lookup traced.state id = some endpoint →
    endpoint.role = .connected peer → lookup traced.state peer = some other →
    traced.partner id = some (traced.serial peer) ∧
      traced.Paired (traced.serial id) (traced.serial peer)
  bytes : ∀ id endpoint, lookup traced.state id = some endpoint →
    (traced.senders id).map Prod.fst = endpoint.inbox ∧
      ∀ item, item ∈ traced.senders id → traced.Paired item.2 (traced.serial id)
  fds : ∀ id endpoint, lookup traced.state id = some endpoint →
    (traced.fdSenders id).map Prod.fst = endpoint.inboxFds ∧
      ∀ item, item ∈ traced.fdSenders id → traced.Paired item.2 (traced.serial id)

namespace Faithful

variable {traced : Traced}

section

variable (faithful : Faithful traced)
include faithful

theorem of_lookup {state : State}
    (listeners : ∀ entry, entry ∈ state.listeners → (lookup state entry.2).isSome)
    (same : ∀ id endpoint, lookup state id = some endpoint → ∃ old,
      lookup traced.state id = some old ∧ endpoint.inbox = old.inbox ∧
      endpoint.inboxFds = old.inboxFds ∧
      ∀ peer, endpoint.role = .connected peer → old.role = .connected peer) :
    Faithful { traced with state } := by
  refine ⟨listeners, ?_, ?_, ?_⟩
  · intro id endpoint peer other found isPeer live
    obtain ⟨old, wasFound, -, -, roles⟩ := same id endpoint found
    obtain ⟨oldPeer, wasLive, -, -, -⟩ := same peer other live
    exact faithful.linked id old peer oldPeer wasFound (roles peer isPeer) wasLive
  · intro id endpoint found
    obtain ⟨old, wasFound, inbox, -, -⟩ := same id endpoint found
    rw [inbox]
    exact faithful.bytes id old wasFound
  · intro id endpoint found
    obtain ⟨old, wasFound, -, inboxFds, -⟩ := same id endpoint found
    rw [inboxFds]
    exact faithful.fds id old wasFound

theorem touch {id : Nat} {old endpoint : Endpoint} (present : lookup traced.state id = some old)
    (inbox : endpoint.inbox = old.inbox) (inboxFds : endpoint.inboxFds = old.inboxFds)
    (role : ∀ peer, endpoint.role = .connected peer → old.role = .connected peer) :
    Faithful { traced with state := setEndpoint traced.state id endpoint } := by
  refine faithful.of_lookup ?_ ?_
  · intro entry mem
    have live := faithful.listeners entry mem
    rw [lookup_setEndpoint present]
    split
    · rfl
    · exact live
  · intro other found isFound
    rw [lookup_setEndpoint present] at isFound
    split at isFound
    · rename_i same
      cases isFound
      rw [same]
      exact ⟨old, present, inbox, inboxFds, role⟩
    · exact ⟨found, isFound, rfl, rfl, fun _ isPeer => isPeer⟩

theorem bind (id : Nat) (path : String) :
    Faithful { traced with state := (Socket.bind traced.state id path).2 } := by
  unfold Socket.bind
  split
  · exact faithful
  · cases found : lookup traced.state id with
    | none => exact faithful
    | some endpoint =>
        dsimp only
        split
        · exact faithful.touch found rfl rfl (fun peer isPeer => by cases isPeer)
        · exact faithful

theorem listen (id : Nat) :
    Faithful { traced with state := (Socket.listen traced.state id).2 } := by
  unfold Socket.listen
  cases found : lookup traced.state id with
  | none => exact faithful
  | some endpoint =>
      dsimp only
      cases role : endpoint.role with
      | bound path =>
          have touched : Faithful { traced with
              state := setEndpoint traced.state id { endpoint with role := .listening } } :=
            faithful.touch found rfl rfl (fun peer isPeer => by cases isPeer)
          have here : lookup (setEndpoint traced.state id { endpoint with role := .listening }) id =
              some { endpoint with role := .listening } := by
            rw [lookup_setEndpoint found, if_pos rfl]
          refine ⟨?_, touched.linked, touched.bytes, touched.fds⟩
          intro entry mem
          rcases mem_cons.mp mem with rfl | old
          · exact Option.isSome_iff_exists.mpr ⟨_, here⟩
          · exact touched.listeners entry (mem_of_mem_filter old)
      | idle => exact faithful
      | listening => exact faithful
      | connected peer => exact faithful

theorem accept (id : Nat) :
    Faithful { traced with state := (Socket.accept traced.state id).2 } := by
  unfold Socket.accept
  cases found : lookup traced.state id with
  | none => exact faithful
  | some endpoint =>
      dsimp only
      cases endpoint.backlog with
      | nil => exact faithful
      | cons first rest => exact faithful.touch found rfl rfl (fun _ isPeer => isPeer)

theorem close (id : Nat) : Faithful { traced with state := withoutEndpoint traced.state id } := by
  refine faithful.of_lookup ?_ ?_
  · intro entry mem
    obtain ⟨inList, different⟩ := mem_filter.mp mem
    have live := faithful.listeners entry inList
    rw [lookup_withoutEndpoint, if_neg (by simpa using different)]
    exact live
  · intro other endpoint found
    rw [lookup_withoutEndpoint] at found
    split at found
    · cases found
    · exact ⟨endpoint, found, rfl, rfl, fun _ isPeer => isPeer⟩

theorem recv (id len : Nat) :
    Faithful { traced with
      state := (Socket.recv traced.state id len).2
      senders := change traced.senders id ((traced.senders id).drop len)
      fdSenders := change traced.fdSenders id [] } := by
  unfold Socket.recv
  cases found : lookup traced.state id with
  | none =>
      refine ⟨faithful.listeners, faithful.linked, ?_, ?_⟩
      · intro other endpoint isFound
        have different : other ≠ id := by
          rintro rfl
          rw [found] at isFound
          cases isFound
        dsimp only [change]
        rw [if_neg different]
        exact faithful.bytes other endpoint isFound
      · intro other endpoint isFound
        have different : other ≠ id := by
          rintro rfl
          rw [found] at isFound
          cases isFound
        dsimp only [change]
        rw [if_neg different]
        exact faithful.fds other endpoint isFound
  | some old =>
      dsimp only
      have roles : ∀ other endpoint, lookup (setEndpoint traced.state id
          { old with inbox := old.inbox.drop len, inboxFds := [] }) other = some endpoint →
          ∃ before, lookup traced.state other = some before ∧ endpoint.role = before.role := by
        intro other endpoint isFound
        rw [lookup_setEndpoint found] at isFound
        split at isFound
        · rename_i same
          cases isFound
          exact ⟨old, by rw [same, found], rfl⟩
        · exact ⟨endpoint, isFound, rfl⟩
      refine ⟨?_, ?_, ?_, ?_⟩
      · intro entry mem
        have live := faithful.listeners entry mem
        dsimp only
        rw [lookup_setEndpoint found]
        split
        · rfl
        · exact live
      · intro other endpoint peer third isFound isPeer live
        obtain ⟨before, wasFound, role⟩ := roles other endpoint isFound
        obtain ⟨beforePeer, wasLive, -⟩ := roles peer third live
        exact faithful.linked other before peer beforePeer wasFound (role ▸ isPeer) wasLive
      · intro other endpoint isFound
        dsimp only at isFound ⊢
        rw [lookup_setEndpoint found] at isFound
        unfold change
        split at isFound
        · rename_i same
          cases isFound
          obtain ⟨bytes, paired⟩ := faithful.bytes id old found
          rw [if_pos same, same]
          refine ⟨?_, fun item mem => paired item (mem_of_mem_drop mem)⟩
          rw [map_drop, bytes]
        · rename_i different
          rw [if_neg different]
          exact faithful.bytes other endpoint isFound
      · intro other endpoint isFound
        dsimp only at isFound ⊢
        rw [lookup_setEndpoint found] at isFound
        unfold change
        split at isFound
        · rename_i same
          cases isFound
          rw [if_pos same]
          exact ⟨rfl, by simp⟩
        · rename_i different
          rw [if_neg different]
          exact faithful.fds other endpoint isFound

theorem send {id peer : Nat} {endpoint target : Endpoint} (bytes : List (BitVec 8)) (fds : List Nat)
    (open' : lookup traced.state id = some endpoint) (isPeer : endpoint.role = .connected peer)
    (live : lookup traced.state peer = some target) :
    Faithful { traced with
      state := setEndpoint traced.state peer
        { target with inbox := target.inbox ++ bytes, inboxFds := target.inboxFds ++ fds }
      senders := change traced.senders peer
        (traced.senders peer ++ bytes.map (fun byte => (byte, traced.serial id)))
      fdSenders := change traced.fdSenders peer
        (traced.fdSenders peer ++ fds.map (fun fd => (fd, traced.serial id))) } := by
  obtain ⟨-, paired⟩ := faithful.linked id endpoint peer target open' isPeer live
  have roles : ∀ other found, lookup (setEndpoint traced.state peer
      { target with inbox := target.inbox ++ bytes, inboxFds := target.inboxFds ++ fds }) other =
        some found →
      ∃ before, lookup traced.state other = some before ∧ found.role = before.role := by
    intro other found isFound
    rw [lookup_setEndpoint live] at isFound
    split at isFound
    · rename_i same
      cases isFound
      exact ⟨target, by rw [same, live], rfl⟩
    · exact ⟨found, isFound, rfl⟩
  refine ⟨?_, ?_, ?_, ?_⟩
  · intro entry mem
    have isLive := faithful.listeners entry mem
    dsimp only
    rw [lookup_setEndpoint live]
    split
    · rfl
    · exact isLive
  · intro other found third far isFound role isLive
    obtain ⟨before, wasFound, sameRole⟩ := roles other found isFound
    obtain ⟨beforePeer, wasLive, -⟩ := roles third far isLive
    exact faithful.linked other before third beforePeer wasFound (sameRole ▸ role) wasLive
  · intro other found isFound
    dsimp only at isFound ⊢
    rw [lookup_setEndpoint live] at isFound
    unfold change
    split at isFound
    · rename_i same
      cases isFound
      obtain ⟨waiting, earlier⟩ := faithful.bytes peer target live
      rw [if_pos same, same]
      refine ⟨?_, ?_⟩
      · rw [map_append, waiting, map_map]
        exact congrArg (target.inbox ++ ·) (map_id bytes)
      · intro item mem
        rcases mem_append.mp mem with old | new
        · exact earlier item old
        · obtain ⟨-, -, rfl⟩ := mem_map.mp new
          exact paired
    · rename_i different
      rw [if_neg different]
      exact faithful.bytes other found isFound
  · intro other found isFound
    dsimp only at isFound ⊢
    rw [lookup_setEndpoint live] at isFound
    unfold change
    split at isFound
    · rename_i same
      cases isFound
      obtain ⟨waiting, earlier⟩ := faithful.fds peer target live
      rw [if_pos same, same]
      refine ⟨?_, ?_⟩
      · rw [map_append, waiting, map_map]
        exact congrArg (target.inboxFds ++ ·) (map_id fds)
      · intro item mem
        rcases mem_append.mp mem with old | new
        · exact earlier item old
        · obtain ⟨-, -, rfl⟩ := mem_map.mp new
          exact paired
    · rename_i different
      rw [if_neg different]
      exact faithful.fds other found isFound

end

theorem openSlot (faithful : Faithful traced) {state : State} {slot : Nat} {endpoint : Endpoint}
    (unnamed : Unnamed traced.state slot)
    (listeners : ∀ entry, entry ∈ state.listeners → (lookup state entry.2).isSome)
    (here : lookup state slot = some endpoint)
    (empty : endpoint.inbox = [] ∧ endpoint.inboxFds = [])
    (same : ∀ id found, id ≠ slot → lookup state id = some found → ∃ old,
      lookup traced.state id = some old ∧ found.inbox = old.inbox ∧
      found.inboxFds = old.inboxFds ∧
      ∀ peer, found.role = .connected peer → old.role = .connected peer)
    (ownLink : ∀ peer, endpoint.role = .connected peer → lookup state peer = none) :
    Faithful { traced.openSlot slot with state } := by
  refine ⟨listeners, ?_, ?_, ?_⟩
  · intro id found peer other isFound isPeer live
    dsimp only at isFound live
    by_cases isSlot : id = slot
    · subst isSlot
      rw [here] at isFound
      cases isFound
      rw [ownLink peer isPeer] at live
      cases live
    · obtain ⟨old, wasFound, -, -, roles⟩ := same id found isSlot isFound
      have notSlot : peer ≠ slot := by
        rintro rfl
        exact unnamed id old wasFound (roles peer isPeer)
      obtain ⟨oldPeer, wasLive, -⟩ := same peer other notSlot live
      have linked := faithful.linked id old peer oldPeer wasFound (roles peer isPeer) wasLive
      unfold Traced.openSlot Paired change
      dsimp only
      rw [if_neg isSlot, if_neg isSlot, if_neg notSlot]
      exact linked
  · intro id found isFound
    dsimp only at isFound
    unfold Traced.openSlot Paired change
    dsimp only
    by_cases isSlot : id = slot
    · subst isSlot
      rw [here] at isFound
      cases isFound
      rw [if_pos rfl, empty.1]
      exact ⟨rfl, by simp⟩
    · obtain ⟨old, wasFound, inbox, -, -⟩ := same id found isSlot isFound
      rw [if_neg isSlot, if_neg isSlot, inbox]
      exact faithful.bytes id old wasFound
  · intro id found isFound
    dsimp only at isFound
    unfold Traced.openSlot Paired change
    dsimp only
    by_cases isSlot : id = slot
    · subst isSlot
      rw [here] at isFound
      cases isFound
      rw [if_pos rfl, empty.2]
      exact ⟨rfl, by simp⟩
    · obtain ⟨old, wasFound, -, inboxFds, -⟩ := same id found isSlot isFound
      rw [if_neg isSlot, if_neg isSlot, inboxFds]
      exact faithful.fds id old wasFound

theorem pair (faithful : Faithful traced) {state : State} {client server : Nat}
    (listeners : ∀ entry, entry ∈ state.listeners → (lookup state entry.2).isSome)
    (same : ∀ id found, lookup state id = some found → ∃ old,
      lookup traced.state id = some old ∧ found.inbox = old.inbox ∧
      found.inboxFds = old.inboxFds ∧
      ∀ peer, found.role = .connected peer → (id = client ∧ peer = server) ∨
        (id = server ∧ peer = client) ∨
        (id ≠ client ∧ id ≠ server ∧ old.role = .connected peer)) :
    Faithful { traced.pair client server with state } := by
  have wider : ∀ left right, traced.Paired left right →
      ({ traced.pair client server with state } : Traced).Paired left right := by
    intro left right paired
    rcases paired with direct | reverse
    · exact Or.inl (mem_cons_of_mem _ direct)
    · exact Or.inr (mem_cons_of_mem _ reverse)
  refine ⟨listeners, ?_, ?_, ?_⟩
  · intro id found peer other isFound isPeer live
    obtain ⟨old, wasFound, -, -, roles⟩ := same id found isFound
    by_cases isClient : id = client ∧ peer = server
    · obtain ⟨rfl, rfl⟩ := isClient
      refine ⟨?_, Or.inl mem_cons_self⟩
      unfold Traced.pair change
      dsimp only
      rw [if_pos rfl]
    · rcases roles peer isPeer with both | ⟨rfl, rfl⟩ | ⟨notClient, notServer, role⟩
      · exact absurd both isClient
      · have different : id ≠ peer := fun equal => isClient ⟨equal, equal.symm⟩
        refine ⟨?_, Or.inr mem_cons_self⟩
        unfold Traced.pair change
        dsimp only
        rw [if_neg different, if_pos rfl]
      · obtain ⟨oldPeer, wasLive, -⟩ := same peer other live
        obtain ⟨partner, paired⟩ := faithful.linked id old peer oldPeer wasFound role wasLive
        refine ⟨?_, wider _ _ paired⟩
        unfold Traced.pair change
        dsimp only
        rw [if_neg notClient, if_neg notServer]
        exact partner
  · intro id found isFound
    obtain ⟨old, wasFound, inbox, -, -⟩ := same id found isFound
    obtain ⟨waiting, paired⟩ := faithful.bytes id old wasFound
    rw [inbox]
    exact ⟨waiting, fun item mem => wider _ _ (paired item mem)⟩
  · intro id found isFound
    obtain ⟨old, wasFound, -, inboxFds, -⟩ := same id found isFound
    obtain ⟨waiting, paired⟩ := faithful.fds id old wasFound
    rw [inboxFds]
    exact ⟨waiting, fun item mem => wider _ _ (paired item mem)⟩

theorem create (faithful : Faithful traced) (untaken : Untaken traced .create) :
    Faithful { traced.openSlot (Socket.create traced.state).2 with
      state := (Socket.create traced.state).1 } := by
  unfold Untaken Socket.create at untaken
  unfold Socket.create
  have found : ∀ other, lookup (allocEndpoint traced.state Endpoint.new).1 other =
      if other = (allocEndpoint traced.state Endpoint.new).2 then some Endpoint.new
      else lookup traced.state other := fun other => lookup_allocEndpoint
  refine faithful.openSlot untaken ?_ (by rw [found, if_pos rfl]) ⟨rfl, rfl⟩ ?_ ?_
  · intro entry mem
    have live := faithful.listeners entry mem
    rw [found]
    split
    · rfl
    · exact live
  · intro id endpoint different isFound
    rw [found, if_neg different] at isFound
    exact ⟨endpoint, isFound, rfl, rfl, fun _ isPeer => isPeer⟩
  · intro peer isPeer
    cases isPeer

end Faithful

theorem connect_of_listener {state : State} {id listenerId : Nat} {path : String}
    {listener : Endpoint} (found : listenerAt state path = some listenerId)
    (live : lookup state listenerId = some listener) :
    ∃ queued, queued.listeners = state.listeners ∧
      (∀ other, lookup queued other =
        if other = serverSlot state id then some { Endpoint.new with role := .connected id }
        else if other = listenerId then
          some { listener with backlog := listener.backlog ++ [serverSlot state id] }
        else lookup state other) ∧
      connect state id path =
        match lookup queued id with
        | none => (false, queued)
        | some client =>
            (true, setEndpoint queued id
              { client with role := .connected (serverSlot state id) }) := by
  have fresh : lookup state (serverSlot state id) = none := lookup_allocEndpoint_fresh
  have apart : listenerId ≠ serverSlot state id := by
    intro same
    rw [← same, live] at fresh
    cases fresh
  have inPaired : lookup (allocEndpoint state { Endpoint.new with role := .connected id }).1
      listenerId = some listener := by
    rw [lookup_allocEndpoint]
    exact (if_neg apart).trans live
  refine ⟨setEndpoint (allocEndpoint state { Endpoint.new with role := .connected id }).1 listenerId
    { listener with backlog := listener.backlog ++ [serverSlot state id] }, rfl, ?_, ?_⟩
  · intro other
    rw [lookup_setEndpoint inPaired, lookup_allocEndpoint]
    by_cases isListener : other = listenerId
    · rw [if_pos isListener, if_neg (isListener ▸ apart), if_pos isListener]
    · rw [if_neg isListener]
      unfold serverSlot
      split
      · rfl
      · rfl
  · unfold connect
    rw [found]
    dsimp only
    rw [inPaired]
    rfl

theorem mem_listeners {state : State} {path : String} {listenerId : Nat}
    (found : listenerAt state path = some listenerId) :
    ∃ entry, entry ∈ state.listeners ∧ entry.2 = listenerId := by
  unfold listenerAt at found
  obtain ⟨entry, isFound, rfl⟩ := Option.map_eq_some_iff.mp found
  exact ⟨entry, mem_of_find?_eq_some isFound, rfl⟩

theorem Faithful.connect {traced next : Traced} (faithful : Faithful traced) {id : Nat}
    {path : String} (untaken : Untaken traced (.connect id path))
    (stepped : step traced (.connect id path) = some next) : Faithful next := by
  unfold step at stepped
  dsimp only at stepped
  cases found : listenerAt traced.state path with
  | none =>
      rw [found] at stepped
      unfold Socket.connect at stepped
      rw [found] at stepped
      cases stepped
      exact faithful
  | some listenerId =>
      have unnamed : Unnamed traced.state (serverSlot traced.state id) :=
        untaken (by rw [found]; rfl)
      obtain ⟨entry, inListeners, isId⟩ := mem_listeners found
      obtain ⟨listener, live⟩ := Option.isSome_iff_exists.mp (faithful.listeners entry inListeners)
      rw [isId] at live
      obtain ⟨queued, sameListeners, lookups, result⟩ := @connect_of_listener _ id _ _ _ found live
      have queuedLive : ∀ entry, entry ∈ queued.listeners → (lookup queued entry.2).isSome := by
        intro entry mem
        rw [sameListeners] at mem
        have wasLive := faithful.listeners entry mem
        rw [lookups]
        split
        · rfl
        · split
          · rfl
          · exact wasLive
      have others : ∀ other endpoint, other ≠ serverSlot traced.state id →
          lookup queued other = some endpoint → ∃ old, lookup traced.state other = some old ∧
            endpoint.inbox = old.inbox ∧ endpoint.inboxFds = old.inboxFds ∧
            ∀ peer, endpoint.role = .connected peer → old.role = .connected peer := by
        intro other endpoint different isFound
        rw [lookups, if_neg different] at isFound
        split at isFound
        · rename_i isListener
          cases isFound
          rw [isListener]
          exact ⟨listener, live, rfl, rfl, fun _ isPeer => isPeer⟩
        · exact ⟨endpoint, isFound, rfl, rfl, fun _ isPeer => isPeer⟩
      have server : lookup queued (serverSlot traced.state id) =
          some { Endpoint.new with role := .connected id } := by
        rw [lookups, if_pos rfl]
      rw [found, result] at stepped
      cases client : lookup queued id with
      | none =>
          rw [client] at stepped
          cases stepped
          refine faithful.openSlot unnamed queuedLive server ⟨rfl, rfl⟩ others ?_
          intro peer isPeer
          cases isPeer
          exact client
      | some clientEndpoint =>
          rw [client] at stepped
          cases stepped
          -- The server is first opened with no peer, then the two ends are joined.
          have idle : Faithful { traced.openSlot (serverSlot traced.state id) with
              state := setEndpoint queued (serverSlot traced.state id) Endpoint.new } := by
            refine @Faithful.openSlot _ faithful _ _ Endpoint.new unnamed ?_ ?_ ⟨rfl, rfl⟩ ?_ ?_
            · intro entry mem
              have wasLive := queuedLive entry mem
              rw [lookup_setEndpoint server]
              split
              · rfl
              · exact wasLive
            · rw [lookup_setEndpoint server, if_pos rfl]
            · intro other endpoint different isFound
              rw [lookup_setEndpoint server, if_neg different] at isFound
              exact others other endpoint different isFound
            · intro peer isPeer
              cases isPeer
          refine idle.pair ?_ ?_
          · intro entry mem
            have wasLive := queuedLive entry mem
            rw [lookup_setEndpoint client]
            split
            · rfl
            · exact wasLive
          · intro other endpoint isFound
            rw [lookup_setEndpoint client] at isFound
            dsimp only
            rw [lookup_setEndpoint server]
            by_cases isServer : other = serverSlot traced.state id
            · rw [if_pos isServer]
              by_cases isClient : other = id
              · rw [if_pos isClient] at isFound
                cases isFound
                rw [← isClient, isServer, server] at client
                cases client
                refine ⟨Endpoint.new, rfl, rfl, rfl, ?_⟩
                intro peer isPeer
                cases isPeer
                exact Or.inl ⟨isClient, rfl⟩
              · rw [if_neg isClient, isServer, server] at isFound
                cases isFound
                refine ⟨Endpoint.new, rfl, rfl, rfl, ?_⟩
                intro peer isPeer
                cases isPeer
                exact Or.inr (Or.inl ⟨isServer, rfl⟩)
            · rw [if_neg isServer]
              by_cases isClient : other = id
              · rw [if_pos isClient] at isFound
                cases isFound
                rw [isClient]
                refine ⟨clientEndpoint, client, rfl, rfl, ?_⟩
                intro peer isPeer
                cases isPeer
                exact Or.inl ⟨rfl, rfl⟩
              · rw [if_neg isClient] at isFound
                exact ⟨endpoint, isFound, rfl, rfl,
                  fun peer isPeer => Or.inr (Or.inr ⟨isClient, isServer, isPeer⟩)⟩

theorem deliver_cases (state : State) (id : Nat) (bytes : List (BitVec 8)) (fds : List Nat) :
    deliver state id bytes fds = (none, state) ∨
    ∃ endpoint peer target, lookup state id = some endpoint ∧
      endpoint.role = .connected peer ∧ peerOf state id = some peer ∧
      lookup state peer = some target ∧
      deliver state id bytes fds = (some bytes.length, setEndpoint state peer
        { target with inbox := target.inbox ++ bytes, inboxFds := target.inboxFds ++ fds }) := by
  unfold deliver
  cases isPeer : peerOf state id with
  | none => exact Or.inl rfl
  | some peer =>
      obtain ⟨endpoint, found, role⟩ := peerOf_eq_some.mp isPeer
      cases live : lookup state peer with
      | none =>
          refine Or.inl ?_
          dsimp only
          rw [live]
      | some target =>
          refine Or.inr ⟨endpoint, peer, target, found, role, rfl, live, ?_⟩
          dsimp only
          rw [live]

theorem Faithful.step {traced next : Traced} {call : Call} (faithful : Faithful traced)
    (untaken : Untaken traced call) (stepped : step traced call = some next) : Faithful next := by
  cases call with
  | create =>
      cases stepped
      exact faithful.create untaken
  | bind id path =>
      cases stepped
      exact faithful.bind id path
  | listen id =>
      cases stepped
      exact faithful.listen id
  | connect id path => exact faithful.connect untaken stepped
  | accept id =>
      cases stepped
      exact faithful.accept id
  | send id bytes fds =>
      unfold Traced.step at stepped
      dsimp only at stepped
      rcases deliver_cases traced.state id bytes fds with
        nothing | ⟨endpoint, peer, target, found, role, isPeer, live, delivered⟩
      · rw [nothing] at stepped
        cases stepped
        exact faithful
      · rw [delivered, isPeer] at stepped
        cases stepped
        exact faithful.send bytes fds found role live
  | recv id len =>
      cases stepped
      exact faithful.recv id len
  | close id =>
      cases stepped
      exact faithful.close id

theorem faithful_initial : Faithful initial := by
  refine ⟨?_, ?_, ?_, ?_⟩ <;> simp [initial, lookup]

/-- In a run that takes no named slot, every byte and every id that an endpoint receives was
sent by an endpoint it is paired with, and a send whose partner is closed delivers nothing. -/
theorem received_from_pair {calls : List Call} {traced : Traced}
    (untaken : Runs.Meets step Untaken initial calls)
    (ran : Runs.after step initial calls = some traced) :
    (∀ (id len index : Nat) (byte : BitVec 8),
      (Socket.recv traced.state id len).1.1[index]? = some byte →
      ∃ sender, (traced.senders id)[index]? = some (byte, sender) ∧
        traced.Paired sender (traced.serial id)) ∧
    (∀ (id len index fd : Nat), (Socket.recv traced.state id len).1.2[index]? = some fd →
      ∃ sender, (traced.fdSenders id)[index]? = some (fd, sender) ∧
        traced.Paired sender (traced.serial id)) ∧
    (∀ id bytes fds, (∀ other, (lookup traced.state other).isSome →
        traced.partner id ≠ some (traced.serial other)) →
      deliver traced.state id bytes fds = (none, traced.state)) := by
  have faithful : Faithful traced :=
    Runs.after_invariant (fun _ _ _ faithful untaken stepped => faithful.step untaken stepped)
      faithful_initial untaken ran
  refine ⟨?_, ?_, ?_⟩
  · intro id len index byte received
    unfold Socket.recv at received
    cases found : lookup traced.state id with
    | none =>
        rw [found] at received
        cases received
    | some endpoint =>
        rw [found] at received
        obtain ⟨waiting, paired⟩ := faithful.bytes id endpoint found
        dsimp only at received
        rw [← waiting, ← List.map_take, List.getElem?_map] at received
        obtain ⟨item, isItem, rfl⟩ := Option.map_eq_some_iff.mp received
        have inAll : (traced.senders id)[index]? = some item := by
          rw [List.getElem?_take] at isItem
          split at isItem
          · exact isItem
          · cases isItem
        exact ⟨item.2, inAll, paired item (List.mem_of_getElem? inAll)⟩
  · intro id len index fd received
    unfold Socket.recv at received
    cases found : lookup traced.state id with
    | none =>
        rw [found] at received
        cases received
    | some endpoint =>
        rw [found] at received
        obtain ⟨waiting, paired⟩ := faithful.fds id endpoint found
        dsimp only at received
        rw [← waiting, List.getElem?_map] at received
        obtain ⟨item, isItem, rfl⟩ := Option.map_eq_some_iff.mp received
        exact ⟨item.2, isItem, paired item (List.mem_of_getElem? isItem)⟩
  · intro id bytes fds closed
    rcases deliver_cases traced.state id bytes fds with
      nothing | ⟨endpoint, peer, target, found, role, -, live, -⟩
    · exact nothing
    · obtain ⟨partner, -⟩ := faithful.linked id endpoint peer target found role live
      exact absurd partner (closed peer (by rw [live]; rfl))

def greeting : List Call :=
  [.create, .bind 0 "wayland-0", .listen 0, .create, .connect 1 "wayland-0", .accept 0,
    .send 1 [0x41#8] []]

theorem received_from_pair_greeting : ∃ traced,
    Runs.after step initial greeting = some traced ∧
    (Socket.recv traced.state 2 1).1.1[0]? = some 0x41#8 ∧
    ∃ sender, (traced.senders 2)[0]? = some (0x41#8, sender) ∧
      traced.Paired sender (traced.serial 2) := by
  refine ⟨_, rfl, by decide, ?_⟩
  have untaken : Runs.Meets step Untaken initial greeting := by
    refine ⟨unnamed_of_all (by decide), fun first isFirst => ?_⟩
    cases isFirst
    refine ⟨trivial, fun second isSecond => ?_⟩
    cases isSecond
    refine ⟨trivial, fun third isThird => ?_⟩
    cases isThird
    refine ⟨unnamed_of_all (by decide), fun fourth isFourth => ?_⟩
    cases isFourth
    refine ⟨fun _ => unnamed_of_all (by decide), fun _ _ => ?_⟩
    exact ⟨trivial, fun _ _ => ⟨trivial, fun _ _ => trivial⟩⟩
  exact (received_from_pair untaken rfl).1 2 1 0 0x41#8 (by decide)

/-- The accepted end is closed and its slot is used again: the client's next byte reaches an
endpoint it was never paired with. -/
theorem reused_slot_receives :
    (Runs.after step initial (greeting ++ [.close 2, .create, .send 1 [0x42#8] []])).map
      (fun traced => ((deliver traced.state 1 [0x42#8] []).1,
        (Socket.recv traced.state 2 1).1.1, traced.senders 2, traced.serial 2, traced.pairs)) =
      some (some 1, [0x42#8], [(0x42#8, 1)], 3, [(1, 2)]) := by
  rfl

end Traced
end MachaOS.Socket
