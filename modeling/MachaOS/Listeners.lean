/-
The table of listeners (`src/socket.rs`).

The check for a path that is taken is made by `bind`, the entry is made by
`listen`.  What `bind` recorded for an endpoint is kept here beside the sockets:
no operation reads it.
-/

import MachaOS.SocketPairs

namespace MachaOS.Socket

open List Option

variable {state : State} {id other : Nat}

def roleAt (state : State) (id : Nat) : Option Role :=
  (lookup state id).map Endpoint.role

theorem roleAt_of_lookup {endpoint : Endpoint} (found : lookup state id = some endpoint) :
    roleAt state id = some endpoint.role := by
  rw [roleAt, found, map_some]

theorem roleAt_none : roleAt state id = none ↔ lookup state id = none := map_eq_none_iff

def perform (state : State) : Call → Bool × State
  | .create => (true, (create state).1)
  | .bind id path => bind state id path
  | .listen id => listen state id
  | .connect id path => connect state id path
  | .accept id => ((accept state id).1.isSome, (accept state id).2)
  | .send id bytes fds => ((deliver state id bytes fds).1.isSome, (deliver state id bytes fds).2)
  | .recv id len => (true, (recv state id len).2)
  | .close id => (true, withoutEndpoint state id)

structure Named where
  state : State
  boundTo : Nat → Option String

namespace Named

def initial : Named :=
  { state := { endpoints := [], listeners := [] }, boundTo := fun _ => none }

def record (named : Named) : Call → Nat → Option String
  | .bind id path =>
      if (bind named.state id path).1 then change named.boundTo id (some path) else named.boundTo
  | .close id => change named.boundTo id none
  | _ => named.boundTo

def step (named : Named) (call : Call) : Option Named :=
  some { state := (perform named.state call).2, boundTo := named.record call }

/-- The entries of the table are the listening endpoints, one entry for each, and each under the
path its endpoint was bound to. -/
structure Exact (named : Named) : Prop where
  distinct : (named.state.listeners.map Prod.fst).Nodup
  live : ∀ path id, (path, id) ∈ named.state.listeners →
    roleAt named.state id = some .listening ∧ named.boundTo id = some path
  target : ∀ id, roleAt named.state id = some .listening →
    ∃! path, (path, id) ∈ named.state.listeners

def Honest (named : Named) : Call → Prop
  | .connect id path =>
      (connect named.state id path).1 = false → (connect named.state id path).2 = named.state
  | _ => True

/-- Nobody starts to listen at a path with a listener, and whoever connects to one is open and does
not listen itself, or takes the very slot the other end is put in. -/
def Orderly (named : Named) : Call → Prop
  | .listen id => ∀ path, roleAt named.state id = some (.bound path) →
      listenerAt named.state path = none
  | .connect id path => (listenerAt named.state path).isSome →
      roleAt named.state id ≠ some .listening ∧
        (roleAt named.state id = none → Traced.serverSlot named.state id = id)
  | _ => True

structure Kept (named : Named) : Prop where
  exact : Exact named
  bound : ∀ id path, roleAt named.state id = some (.bound path) → named.boundTo id = some path

variable {named : Named}

variable {path : String}

theorem mem_of_listenerAt {listenerId : Nat} (found : listenerAt state path = some listenerId) :
    (path, listenerId) ∈ state.listeners := by
  unfold listenerAt at found
  obtain ⟨⟨name, id⟩, isFound, rfl⟩ := map_eq_some_iff.mp found
  have same := List.find?_some isFound
  rw [beq_iff_eq] at same
  subst same
  exact mem_of_find?_eq_some isFound

theorem listenerAt_of_mem (mem : (path, id) ∈ state.listeners) :
    (listenerAt state path).isSome = true := by
  rw [listenerAt, isSome_map, List.find?_isSome]
  exact ⟨(path, id), mem, beq_self_eq_true path⟩

theorem Exact.listening (exact : Exact named) {listenerId : Nat}
    (found : listenerAt named.state path = some listenerId) :
    ∃ listener, lookup named.state listenerId = some listener ∧ listener.role = .listening :=
  map_eq_some_iff.mp (exact.live path listenerId (mem_of_listenerAt found)).1

theorem Kept.of_roles (kept : Kept named) {next : Named}
    (listeners : next.state.listeners = named.state.listeners)
    (same : ∀ id, roleAt next.state id = some .listening ↔ roleAt named.state id = some .listening)
    (record : ∀ id, roleAt named.state id = some .listening → next.boundTo id = named.boundTo id)
    (bound : ∀ id path, roleAt next.state id = some (.bound path) → next.boundTo id = some path) :
    Kept next := by
  refine ⟨⟨?_, ?_, ?_⟩, bound⟩
  · rw [listeners]
    exact kept.exact.distinct
  · intro path id mem
    rw [listeners] at mem
    obtain ⟨role, name⟩ := kept.exact.live path id mem
    exact ⟨(same id).mpr role, (record id role).trans name⟩
  · intro id role
    rw [listeners]
    exact kept.exact.target id ((same id).mp role)

theorem Kept.of_same (kept : Kept named) {after : State}
    (listeners : after.listeners = named.state.listeners)
    (same : ∀ id, roleAt after id = roleAt named.state id) :
    Kept { named with state := after } := by
  apply kept.of_roles listeners
  · intro id
    exact Iff.of_eq (congrArg (fun role => role = some Role.listening) (same id))
  · exact fun _ _ => rfl
  · intro id path role
    exact kept.bound id path ((same id).symm.trans role)

theorem roleAt_setEndpoint {old endpoint : Endpoint} (present : lookup state id = some old) :
    roleAt (setEndpoint state id endpoint) other =
      if other = id then some endpoint.role else roleAt state other := by
  rw [roleAt, lookup_setEndpoint present]
  split
  · rfl
  · rfl

theorem roleAt_touch {old endpoint : Endpoint} (present : lookup state id = some old)
    (role : endpoint.role = old.role) (other : Nat) :
    roleAt (setEndpoint state id endpoint) other = roleAt state other := by
  rw [roleAt_setEndpoint present]
  split
  · rename_i same
    rw [same, role, roleAt_of_lookup present]
  · rfl

theorem Kept.create (kept : Kept named) :
    Kept { named with state := (Socket.create named.state).1 } := by
  have roles : ∀ other, roleAt (Socket.create named.state).1 other =
      if other = (Socket.create named.state).2 then some .idle else roleAt named.state other := by
    intro other
    rw [roleAt, Socket.create, lookup_allocEndpoint]
    split
    · rfl
    · rfl
  have free : roleAt named.state (Socket.create named.state).2 = none :=
    roleAt_none.mpr lookup_allocEndpoint_fresh
  apply kept.of_roles
  · rfl
  · intro id
    change roleAt (Socket.create named.state).1 id = _ ↔ _
    rw [roles]
    split
    · rename_i fresh
      rw [fresh, free]
      simp
    · exact Iff.rfl
  · exact fun _ _ => rfl
  · intro id path role
    change roleAt (Socket.create named.state).1 id = _ at role
    rw [roles] at role
    split at role
    · cases role
    · exact kept.bound id path role

theorem bind_cases (state : State) (id : Nat) (path : String) :
    bind state id path = (false, state) ∨
    ∃ endpoint, lookup state id = some endpoint ∧ endpoint.role = .idle ∧
      bind state id path = (true, setEndpoint state id { endpoint with role := .bound path }) := by
  unfold bind
  split
  · exact Or.inl rfl
  · cases found : lookup state id with
    | none => exact Or.inl rfl
    | some endpoint =>
        dsimp only
        split
        · rename_i idle
          exact Or.inr ⟨endpoint, rfl, idle, rfl⟩
        · exact Or.inl rfl

theorem Kept.bind (kept : Kept named) (id : Nat) (path : String) :
    Kept { state := (Socket.bind named.state id path).2, boundTo := named.record (.bind id path) } := by
  rcases bind_cases named.state id path with refused | ⟨endpoint, found, idle, done⟩
  · have unrecorded : named.record (.bind id path) = named.boundTo := by
      change (if (Socket.bind named.state id path).1 then _ else _) = _
      rw [refused]
      rfl
    rw [refused, unrecorded]
    exact kept
  · have recorded : named.record (.bind id path) = change named.boundTo id (some path) := by
      change (if (Socket.bind named.state id path).1 then _ else _) = _
      rw [done]
      rfl
    rw [done, recorded]
    have roles := fun other => @roleAt_setEndpoint named.state id other endpoint
      { endpoint with role := .bound path } found
    have before := roleAt_of_lookup found
    rw [idle] at before
    apply kept.of_roles
    · rfl
    · intro other
      dsimp only
      rw [roles]
      split
      · rename_i same
        rw [same, before]
        simp
      · exact Iff.rfl
    · intro other role
      dsimp only
      rw [change, if_neg]
      rintro rfl
      rw [before] at role
      cases role
    · intro other name role
      dsimp only at role ⊢
      rw [roles] at role
      rw [change]
      split at role
      · rename_i same
        cases role
        rw [if_pos same]
      · rename_i different
        rw [if_neg different]
        exact kept.bound other name role

theorem listen_bound {endpoint : Endpoint} (found : lookup state id = some endpoint)
    (role : endpoint.role = .bound path) :
    listen state id = (true, { setEndpoint state id { endpoint with role := .listening } with
      listeners := (path, id) :: state.listeners.filter (fun entry => entry.1 != path) }) := by
  unfold listen
  rw [found]
  dsimp only
  rw [role]
  rfl

theorem listen_refused (unbound : ∀ path, roleAt state id ≠ some (.bound path)) :
    listen state id = (false, state) := by
  unfold listen
  cases found : lookup state id with
  | none => rfl
  | some endpoint =>
      have role := roleAt_of_lookup found
      dsimp only
      cases shown : endpoint.role with
      | bound path =>
          rw [shown] at role
          exact absurd role (unbound path)
      | idle => rfl
      | listening => rfl
      | connected peer => rfl

theorem filter_vacant (vacant : listenerAt state path = none) :
    state.listeners.filter (fun entry => entry.1 != path) = state.listeners := by
  rw [filter_eq_self]
  intro entry mem
  obtain ⟨name, listenerId⟩ := entry
  rw [bne_iff_ne]
  intro same
  dsimp only at same
  subst same
  have taken := listenerAt_of_mem mem
  rw [vacant] at taken
  cases taken

section

variable (kept : Kept named)
include kept

theorem Kept.listen (orderly : Orderly named (.listen id)) :
    Kept { named with state := (Socket.listen named.state id).2 } := by
  by_cases isBound : ∃ path, roleAt named.state id = some (.bound path)
  · obtain ⟨path, role⟩ := isBound
    have vacant := orderly path role
    obtain ⟨endpoint, found, shown⟩ := map_eq_some_iff.mp role
    rw [listen_bound found shown, filter_vacant vacant]
    have roles := fun other => @roleAt_setEndpoint named.state id other endpoint
      { endpoint with role := .listening } found
    have unlisted : ∀ name, (name, id) ∉ named.state.listeners := by
      intro name mem
      have listening := (kept.exact.live name id mem).1
      rw [role] at listening
      cases listening
    refine ⟨⟨?_, ?_, ?_⟩, ?_⟩
    · rw [map_cons, nodup_cons]
      constructor
      · intro mem
        obtain ⟨entry, inTable, same⟩ := mem_map.mp mem
        obtain ⟨name, listenerId⟩ := entry
        dsimp only at same
        subst same
        have taken := listenerAt_of_mem inTable
        rw [vacant] at taken
        cases taken
      · exact kept.exact.distinct
    · intro name other mem
      change roleAt (setEndpoint named.state id { endpoint with role := .listening }) other = _ ∧ _
      rw [roles]
      rcases mem_cons.mp mem with new | old
      · cases new
        rw [if_pos rfl]
        exact ⟨rfl, kept.bound id path role⟩
      · have different : other ≠ id := by
          rintro rfl
          exact unlisted name old
        rw [if_neg different]
        exact kept.exact.live name other old
    · intro other listening
      change roleAt (setEndpoint named.state id { endpoint with role := .listening }) other = _
        at listening
      rw [roles] at listening
      by_cases same : other = id
      · subst same
        refine ⟨path, mem_cons_self, ?_⟩
        intro name mem
        rcases mem_cons.mp mem with new | old
        · cases new
          rfl
        · exact absurd old (unlisted name)
      · rw [if_neg same] at listening
        obtain ⟨name, mem, unique⟩ := kept.exact.target other listening
        refine ⟨name, mem_cons_of_mem _ mem, ?_⟩
        intro second inTable
        rcases mem_cons.mp inTable with new | old
        · cases new
          exact absurd rfl same
        · exact unique second old
    · intro other name isBound
      change roleAt (setEndpoint named.state id { endpoint with role := .listening }) other = _
        at isBound
      rw [roles] at isBound
      split at isBound
      · cases isBound
      · exact kept.bound other name isBound
  · rw [listen_refused (fun path role => isBound ⟨path, role⟩)]
    exact kept

theorem Kept.close (id : Nat) :
    Kept { state := withoutEndpoint named.state id, boundTo := named.record (.close id) } := by
  have roles : ∀ other, roleAt (withoutEndpoint named.state id) other =
      if other = id then none else roleAt named.state other := by
    intro other
    rw [roleAt, lookup_withoutEndpoint]
    split
    · rfl
    · rfl
  have inTable : ∀ {entry : String × Nat},
      entry ∈ (withoutEndpoint named.state id).listeners ↔
        entry ∈ named.state.listeners ∧ entry.2 ≠ id := by
    intro entry
    exact mem_filter.trans (and_congr_right (fun _ => bne_iff_ne))
  refine ⟨⟨?_, ?_, ?_⟩, ?_⟩
  · exact kept.exact.distinct.sublist (filter_sublist.map Prod.fst)
  · intro path other mem
    obtain ⟨old, different⟩ := inTable.mp mem
    change other ≠ id at different
    change roleAt (withoutEndpoint named.state id) other = _ ∧ change named.boundTo id none other = _
    rw [roles, if_neg different, change, if_neg different]
    exact kept.exact.live path other old
  · intro other listening
    change roleAt (withoutEndpoint named.state id) other = _ at listening
    rw [roles] at listening
    split at listening
    · cases listening
    · rename_i different
      obtain ⟨path, mem, unique⟩ := kept.exact.target other listening
      exact ⟨path, inTable.mpr ⟨mem, different⟩,
        fun second present => unique second (inTable.mp present).1⟩
  · intro other path isBound
    change roleAt (withoutEndpoint named.state id) other = _ at isBound
    rw [roles] at isBound
    split at isBound
    · cases isBound
    · rename_i different
      change change named.boundTo id none other = _
      rw [change, if_neg different]
      exact kept.bound other path isBound

theorem Kept.accept (id : Nat) : Kept { named with state := (Socket.accept named.state id).2 } := by
  unfold Socket.accept
  cases found : lookup named.state id with
  | none => exact kept
  | some endpoint =>
      dsimp only
      cases endpoint.backlog with
      | nil => exact kept
      | cons first rest =>
          apply kept.of_same
          · rfl
          · exact roleAt_touch found rfl

theorem Kept.recv (id len : Nat) :
    Kept { named with state := (Socket.recv named.state id len).2 } := by
  unfold Socket.recv
  cases found : lookup named.state id with
  | none => exact kept
  | some endpoint =>
      apply kept.of_same
      · rfl
      · exact roleAt_touch found rfl

theorem Kept.send (id : Nat) (bytes : List (BitVec 8)) (fds : List Nat) :
    Kept { named with state := (deliver named.state id bytes fds).2 } := by
  rcases Traced.deliver_cases named.state id bytes fds with
    nothing | ⟨endpoint, peer, target, found, role, isPeer, live, delivered⟩
  · rw [nothing]
    exact kept
  · rw [delivered]
    apply kept.of_same
    · rfl
    · exact roleAt_touch live rfl

theorem Kept.connect (orderly : Orderly named (.connect id path)) :
    Kept { named with state := (Socket.connect named.state id path).2 } ∧
      Honest named (.connect id path) := by
  cases found : listenerAt named.state path with
  | none =>
      have refused : Socket.connect named.state id path = (false, named.state) := by
        unfold Socket.connect
        rw [found]
      rw [Honest, refused]
      exact ⟨kept, fun _ => rfl⟩
  | some listenerId =>
      obtain ⟨listener, live, listening⟩ := kept.exact.listening found
      obtain ⟨queued, sameTable, lookups, made⟩ := Traced.connect_of_listener found live
      obtain ⟨notListening, dead⟩ := orderly (by rw [found]; rfl)
      have fresh : lookup named.state (Traced.serverSlot named.state id) = none :=
        lookup_allocEndpoint_fresh
      -- the client is open: it was, or its slot is where the server end was put
      obtain ⟨client, isOpen⟩ : ∃ client, lookup queued id = some client := by
        cases before : lookup named.state id with
        | none =>
            rw [lookups, if_pos (dead (roleAt_none.mpr before)).symm]
            exact ⟨_, rfl⟩
        | some endpoint =>
            rw [lookups]
            split
            · exact ⟨_, rfl⟩
            · split
              · exact ⟨_, rfl⟩
              · exact ⟨endpoint, before⟩
      rw [isOpen] at made
      dsimp only at made
      have roles : ∀ other, roleAt (Socket.connect named.state id path).2 other =
          if other = id then some (.connected (Traced.serverSlot named.state id))
          else if other = Traced.serverSlot named.state id then some (.connected id)
          else roleAt named.state other := by
        intro other
        rw [made]
        dsimp only
        rw [roleAt_setEndpoint isOpen]
        split
        · rfl
        · rw [roleAt, lookups]
          split
          · rfl
          · split
            · rename_i same
              rw [same, roleAt_of_lookup live]
              rfl
            · rfl
      constructor
      · apply kept.of_roles
        · rw [made]
          exact sameTable
        · intro other
          dsimp only
          rw [roles]
          split
          · rename_i same
            rw [same]
            simp [notListening]
          · split
            · rename_i same
              rw [same, roleAt_none.mpr fresh]
              simp
            · exact Iff.rfl
        · exact fun _ _ => rfl
        · intro other name isBound
          dsimp only at isBound
          rw [roles] at isBound
          split at isBound
          · cases isBound
          · split at isBound
            · cases isBound
            · exact kept.bound other name isBound
      · intro refused
        rw [made] at refused
        cases refused

theorem Kept.step {next : Named} {call : Call} (orderly : Orderly named call)
    (stepped : named.step call = some next) : Kept next := by
  cases stepped
  cases call with
  | create => exact kept.create
  | bind id path => exact kept.bind id path
  | listen id => exact kept.listen orderly
  | connect id path => exact (kept.connect orderly).1
  | accept id => exact kept.accept id
  | send id bytes fds => exact kept.send id bytes fds
  | recv id len => exact kept.recv id len
  | close id => exact kept.close id

theorem Kept.honest {call : Call} (orderly : Orderly named call) : Honest named call := by
  cases call with
  | connect id path => exact (kept.connect orderly).2
  | create => trivial
  | bind id path => trivial
  | listen id => trivial
  | accept id => trivial
  | send id bytes fds => trivial
  | recv id len => trivial
  | close id => trivial

theorem spoiled_listen (unlike : ¬ Orderly named (.listen id)) :
    ¬ Exact { named with state := (Socket.listen named.state id).2 } := by
  unfold Orderly at unlike
  push Not at unlike
  obtain ⟨path, role, taken⟩ := unlike
  obtain ⟨endpoint, found, shown⟩ := map_eq_some_iff.mp role
  obtain ⟨listenerId, atPath⟩ := ne_none_iff_exists'.mp taken
  have mem := mem_of_listenerAt atPath
  have listening := (kept.exact.live path listenerId mem).1
  have different : listenerId ≠ id := by
    rintro rfl
    rw [role] at listening
    cases listening
  obtain ⟨name, -, unique⟩ := kept.exact.target listenerId listening
  rw [listen_bound found shown]
  intro exact
  have still : roleAt (setEndpoint named.state id { endpoint with role := .listening }) listenerId =
      some .listening := by
    rw [roleAt_setEndpoint found, if_neg different]
    exact listening
  obtain ⟨second, present, -⟩ := exact.target listenerId still
  rcases mem_cons.mp present with new | old
  · cases new
    exact different rfl
  · obtain ⟨inTable, otherPath⟩ := mem_filter.mp old
    have same : second = path := (unique second inTable).trans (unique path mem).symm
    rw [bne_iff_ne] at otherPath
    exact otherPath same

theorem spoiled_connect (unlike : ¬ Orderly named (.connect id path)) :
    ¬ (Honest named (.connect id path) ∧
      Exact { named with state := (Socket.connect named.state id path).2 }) := by
  unfold Orderly at unlike
  obtain ⟨taken, broken⟩ := Classical.not_imp.mp unlike
  obtain ⟨listenerId, found⟩ := isSome_iff_exists.mp taken
  obtain ⟨listener, live, listening⟩ := kept.exact.listening found
  obtain ⟨queued, sameTable, lookups, made⟩ := Traced.connect_of_listener found live
  have fresh : lookup named.state (Traced.serverSlot named.state id) = none :=
    lookup_allocEndpoint_fresh
  rintro ⟨honest, exact⟩
  by_cases listens : roleAt named.state id = some .listening
  · obtain ⟨name, mem, -⟩ := kept.exact.target id listens
    obtain ⟨endpoint, isOpen, -⟩ := map_eq_some_iff.mp listens
    obtain ⟨client, present⟩ : ∃ client, lookup queued id = some client := by
      rw [lookups]
      split
      · exact ⟨_, rfl⟩
      · split
        · exact ⟨_, rfl⟩
        · exact ⟨endpoint, isOpen⟩
    rw [present] at made
    dsimp only at made
    have still : (name, id) ∈ (Socket.connect named.state id path).2.listeners := by
      rw [made]
      change (name, id) ∈ queued.listeners
      rw [sameTable]
      exact mem
    have role := (exact.live name id still).1
    dsimp only at role
    rw [made] at role
    dsimp only at role
    rw [roleAt_setEndpoint present, if_pos rfl] at role
    cases role
  · have dead : roleAt named.state id = none ∧ Traced.serverSlot named.state id ≠ id := by
      by_contra otherwise
      exact broken ⟨listens, fun gone => by_contra (fun moved => otherwise ⟨gone, moved⟩)⟩
    have notListener : id ≠ listenerId := by
      rintro rfl
      rw [roleAt_none.mp dead.1] at live
      cases live
    have gone : lookup queued id = none := by
      rw [lookups, if_neg (Ne.symm dead.2), if_neg notListener]
      exact roleAt_none.mp dead.1
    rw [gone] at made
    dsimp only at made
    have unchanged := honest (by rw [made])
    rw [made] at unchanged
    dsimp only at unchanged
    have left := lookups (Traced.serverSlot named.state id)
    rw [if_pos rfl, unchanged, fresh] at left
    cases left

end

theorem kept_initial : Kept initial := by
  have empty : ∀ id, roleAt initial.state id = none := fun id => by simp [roleAt, lookup, initial]
  refine ⟨⟨nodup_nil, ?_, ?_⟩, ?_⟩
  · intro path id mem
    cases mem
  · intro id listening
    rw [empty] at listening
    cases listening
  · intro id path isBound
    rw [empty] at isBound
    cases isBound

/-- In every run the table of listeners is exact after each call, and each connect that is refused
changes nothing, exactly if every call of the run is orderly. -/
theorem listeners_exact_iff (calls : List Call) :
    Runs.Meets step (fun named call => Honest named call ∧
      ∀ next, named.step call = some next → Exact next) initial calls ↔
      Runs.Meets step Orderly initial calls := by
  apply @Runs.meets_iff_meets _ _ step _ _ Kept
  · exact fun named call next kept orderly stepped => kept.step orderly stepped
  · intro named call kept
    constructor
    · rintro ⟨honest, exact⟩
      by_contra unlike
      cases call with
      | listen id => exact spoiled_listen kept unlike (exact _ rfl)
      | connect id path => exact spoiled_connect kept unlike ⟨honest, exact _ rfl⟩
      | create => exact unlike trivial
      | bind id path => exact unlike trivial
      | accept id => exact unlike trivial
      | send id bytes fds => exact unlike trivial
      | recv id len => exact unlike trivial
      | close id => exact unlike trivial
    · intro orderly
      exact ⟨kept.honest orderly, fun next stepped => (kept.step orderly stepped).exact⟩
  · exact kept_initial

/-- Two endpoints bound to one path before either listens: the first one listens without an
entry. -/
theorem second_listener_replaces_first :
    ¬ Runs.Meets step (fun named call => Honest named call ∧
      ∀ next, named.step call = some next → Exact next) initial
        [.create, .create, .bind 0 "wayland-0", .bind 1 "wayland-0", .listen 0, .listen 1] := by
  intro always
  have atEnd := @Runs.Meets.last _ _ step _ _ _
    [.create, .create, .bind 0 "wayland-0", .bind 1 "wayland-0", .listen 0] (.listen 1) always rfl
  obtain ⟨path, present, -⟩ := (atEnd.2 _ rfl).target 0 (by rfl)
  have only : ∀ entry ∈ [("wayland-0", 1)], entry.2 ≠ 0 := by decide
  exact only (path, 0) present rfl

end Named

end MachaOS.Socket
