/-
How the compositor leaves a connection: what it gives back, and whether it does.

An id that the reader has received is closed only by a session that is followed
to the end, and only the one id it took; what still waits at the socket is
closed with the endpoint.  A session whose client is gone is told that nothing
has come yet, and leaves only if what was sent leads it out.
-/

import Mathlib.Data.List.Perm.Basic
import MachaOS.Wayland.Reading

namespace MachaOS.Wayland

open List
open Socket (State lookup pendingFds)
open Script (Chunk items kept reach onStream)

def Carried : Nat → List (List Send) → Prop
  | _, [] => True
  | pending, round :: rest =>
      (fdsOf round ≠ [] → 0 < pending + (items round).length) ∧
        Carried (pending + (items round).length - scratchLen) rest

theorem kept_sublist (chunks : List Send) : (kept chunks).Sublist (fdsOf chunks) := by
  induction chunks with
  | nil => exact List.Sublist.slnil
  | cons chunk rest ih =>
      have whole : fdsOf (chunk :: rest) = chunk.2 ++ fdsOf rest := rfl
      rw [whole]
      by_cases empty : chunk.1 = []
      · rw [Script.kept_cons_empty empty]
        exact ih.trans (sublist_append_right _ _)
      · rw [Script.kept_cons_full empty]
        exact List.Sublist.append (List.Sublist.refl _) ih

theorem fdsOf_recvs (pending : List (BitVec 8)) (all : List (List Send)) :
    fdsOf (recvs pending all) = fdsOf all.flatten := by
  induction all generalizing pending with
  | nil => rfl
  | cons round rest ih =>
      rw [flatten_cons, fdsOf_append, ← ih]
      rfl

theorem kept_recvs_iff (pending : List (BitVec 8)) (all : List (List Send)) :
    kept (recvs pending all) = fdsOf all.flatten ↔ Carried pending.length all := by
  induction all generalizing pending with
  | nil => exact ⟨fun _ => trivial, fun _ => rfl⟩
  | cons round rest ih =>
      have later := ih ((pending ++ items round).drop scratchLen)
      rw [length_drop, length_append] at later
      rw [flatten_cons, fdsOf_append, recvs, Carried, ← later]
      have positive : (pending ++ items round).take scratchLen = [] ↔
          pending.length + (items round).length = 0 := by
        rw [take_eq_nil_iff, ← length_append, length_eq_zero_iff]
        exact ⟨fun either => either.resolve_left (by decide), Or.inr⟩
      by_cases empty : (pending ++ items round).take scratchLen = []
      · have shorter := (kept_sublist (recvs ((pending ++ items round).drop scratchLen) rest)).length_le
        rw [fdsOf_recvs] at shorter
        rw [Script.kept_cons_empty empty]
        constructor
        · intro same
          have lengths := congrArg List.length same
          rw [length_append] at lengths
          have none : fdsOf round = [] := length_eq_zero_iff.mp (by omega)
          rw [none, nil_append] at same
          exact ⟨fun some => absurd none some, same⟩
        · rintro ⟨carried, same⟩
          have none : fdsOf round = [] := by
            by_contra some
            have := carried some
            have := positive.mp empty
            omega
          rw [none, nil_append]
          exact same
      · rw [Script.kept_cons_full empty, append_right_inj]
        have some : pending.length + (items round).length ≠ 0 := fun zero => empty (positive.mpr zero)
        exact ⟨fun same => ⟨fun _ => by omega, same⟩, fun both => both.2⟩

section Longer

variable {short long : List (BitVec 8)}

theorem sizeAt_of_begins (begins : short <+: long) {pos : Nat} (there : pos + 8 ≤ short.length) :
    sizeAt long pos = sizeAt short pos := by
  unfold sizeAt wordAt
  rw [Script.slice_of_begins begins (by omega)]

theorem Scripted.of_begins (scripted : Scripted short) (begins : short <+: long) :
    Scripted long := by
  refine ⟨Nat.le_trans scripted.1 begins.length_le, fun header mem there => ?_⟩
  rw [sizeAt_of_begins begins (Nat.le_trans there scripted.1)]
  exact scripted.2 header mem there

theorem layout_inside {header : Nat × BitVec 32} (mem : header ∈ layout) :
    header.1 + 8 ≤ scriptEnd := by
  revert header
  decide

theorem Stops.of_begins {given given' : Prop} (stops : Stops short given)
    (begins : short <+: long) (same : poolEnd ≤ short.length → (given' → given)) :
    Stops long given' := by
  have longer := begins.length_le
  rcases stops with ⟨header, mem, there, differs⟩ | ⟨there, missing⟩ | whole
  · refine Or.inl ⟨header, mem, by omega, ?_⟩
    rw [sizeAt_of_begins begins there]
    exact differs
  · exact Or.inr (Or.inl ⟨by omega, fun given => missing (same there given)⟩)
  · exact Or.inr (Or.inr (by omega))

end Longer

/-- What the client has passed is given back: nothing was heard by the session, or one id that
came with bytes, on a stream that follows the whole script. -/
def Released (turns : List (List ClientCall)) : Prop :=
  fdsOf (sends turns) = [] ∨
    (∃ id, fdsOf (sends turns) = [id]) ∧ Carried 0 (rounds true turns) ∧
      Scripted (items (sends turns))

section Connected

variable {client conn : Nat} {state : State} {turns : List (List ClientCall)}
  {late : List ClientCall}

theorem closes_eq (linked : Linked client conn state true [] [])
    (all : (session state client conn turns).turns = []) :
    closes state client conn turns late = released (session state client conn turns).effects ++
      fdsOf (heard (stays true turns.flatten) late) := by
  obtain ⟨past, pending, split, hearing, sameConn, -, -, -, -⟩ :=
    run_on_stream linked clientSession rfl (@rfl _ (onStream (items (chunks turns)) _ _ 0 0))
  have left : (run client clientSession (ConnReader.new conn) state turns).turns = [] := all
  rw [left, append_nil] at split
  have waits := (hearing.linked.turn late).pendingFds_eq
  rw [sameConn, ← split, nil_append] at waits
  exact congrArg (released (session state client conn turns).effects ++ ·) waits

theorem Ending.released_perm_iff {outcome : Script.Outcome Effect Exit}
    (ending : Ending (items (chunks turns)) (fdsBy turns) outcome)
    (ended : outcome.value.isSome = true)
    (needed : outcome.needed (chunks turns) = chunks turns) :
    (released outcome.effects).Perm (fdsOf (sends turns)) ↔ Released turns := by
  have begins := items_chunks_begin turns
  have carried : kept (chunks turns) = fdsOf (sends turns) ↔ Carried 0 (rounds true turns) := by
    rw [sends_eq]
    exact kept_recvs_iff [] (rounds true turns)
  have fewer : (kept (chunks turns)).Sublist (fdsOf (sends turns)) := by
    have sub := kept_sublist (chunks turns)
    unfold chunks at sub ⊢
    rw [sends_eq, ← fdsOf_recvs []]
    exact sub
  unfold Released
  cases ending with
  | waits value nothing short followed given =>
      rw [value] at ended
      cases ended
  | wrong step value nothing header mem there differs =>
      rw [nothing, nil_perm]
      refine ⟨Or.inl, ?_⟩
      rintro (none | ⟨-, -, scripted⟩)
      · exact none
      · rw [← sizeAt_of_begins begins there] at differs
        exact absurd (scripted.2 header mem (layout_inside mem)) differs
  | noPool value nothing pos there missing =>
      rw [nothing, nil_perm]
      refine ⟨Or.inl, ?_⟩
      rintro (none | ⟨⟨id, one⟩, carries, -⟩)
      · exact none
      · have reached : reach poolEnd (chunks turns) = chunks turns := by
          rw [← pos]
          unfold Script.Outcome.needed at needed
          rw [value] at needed
          exact needed
        rw [fdsBy, reached, carried.mpr carries, one] at missing
        cases missing
  | committed fd value closed scripted given =>
      have held : fd ∈ kept (chunks turns) := by
        have whole := Script.reach_append_drop poolEnd (chunks turns)
        rw [← whole, Script.kept_append]
        exact mem_append_left _ (mem_of_getElem? given)
      rw [closed, singleton_perm]
      constructor
      · intro one
        refine Or.inr ⟨⟨fd, one.symm⟩, carried.mp ?_, scripted.of_begins begins⟩
        refine fewer.eq_of_length_le ?_
        rw [← one]
        exact length_pos_of_mem held
      · rintro (none | ⟨⟨id, one⟩, carries, -⟩)
        · rw [none] at fewer
          rw [sublist_nil.mp fewer] at held
          cases held
        · rw [carried.mpr carries, one, mem_singleton] at held
          rw [one, held]

theorem session_released_perm_iff (linked : Linked client conn state true [] [])
    (ended : (session state client conn turns).value.isSome = true)
    (all : (session state client conn turns).turns = []) :
    (released (session state client conn turns).effects).Perm (fdsOf (sends turns)) ↔
      Released turns := by
  obtain ⟨past, pending, split, -, -, value, effects, -, left⟩ :=
    run_on_stream linked clientSession rfl (@rfl _ (onStream (items (chunks turns)) _ _ 0 0))
  have ending := clientSession_ending (items (chunks turns)) (fdsBy turns)
  generalize onStream (items (chunks turns)) (fdsBy turns) clientSession 0 0 = outcome at *
  have none : (run client clientSession (ConnReader.new conn) state turns).turns = [] := all
  rw [none] at split left
  rw [append_nil] at split
  have needed : outcome.needed (chunks turns) = chunks turns := by
    have whole := @needed_eq past [] pending (outcome.needed (chunks turns))
    rw [append_nil, ← split] at whole
    exact whole (outcome.needed_prefix (chunks turns)) left
  have ended : outcome.value.isSome = true := by
    rw [← value]
    exact ended
  unfold session
  rw [effects]
  exact ending.released_perm_iff ended needed

end Connected

/-- When the compositor has left a connection, every id that was passed over it has been closed
exactly once if and only if no id was heard by the session, or exactly one that came with bytes,
on a stream that follows the whole script. -/
theorem closed_once_iff {client conn : Nat} {state : State}
    (linked : Linked client conn state true [] []) (turns : List (List ClientCall))
    (late : List ClientCall) (ended : (session state client conn turns).value.isSome = true)
    (all : (session state client conn turns).turns = []) :
    (∀ id, (closes state client conn turns late).count id =
      (fdsOf (sends (turns ++ [late]))).count id) ↔ Released turns := by
  rw [closes_eq linked all, sends_append, List.flatten_singleton, fdsOf_append, ← List.perm_iff_count,
    List.perm_append_right_iff]
  exact session_released_perm_iff linked ended all

/-- The whole script with one fd, and another fd after the end: both are closed once. -/
theorem closed_once_greeted : Released [[.send opening [9]], [.send drawing []]] ∧
    ∀ id, (closes greeted 1 2 [[.send opening [9]], [.send drawing []]] [.send [] [4]]).count id =
      [9, 4].count id := by
  have released : Released [[.send opening [9]], [.send drawing []]] :=
    Or.inr ⟨⟨9, rfl⟩, ⟨fun _ => by decide +kernel, fun _ => by decide +kernel, trivial⟩,
      by unfold Scripted Followed; decide +kernel⟩
  exact ⟨released, (closed_once_iff linked_greeted [[.send opening [9]], [.send drawing []]]
    [.send [] [4]] (by decide +kernel) (by decide +kernel)).mpr released⟩

def astray : List (List ClientCall) :=
  [[.send opening [9]], [.send (message 4 0 []) []]]

theorem closed_once_astray :
    (session greeted 1 2 astray).value = some (.badHeader 5) ∧
      (session greeted 1 2 astray).turns = [] ∧
      ¬∀ id, (closes greeted 1 2 astray []).count id =
        (fdsOf (sends (astray ++ [[]]))).count id := by
  refine ⟨by decide +kernel, by decide +kernel, fun once => ?_⟩
  have never : (closes greeted 1 2 astray []).count 9 = 0 := by decide +kernel
  rw [once 9] at never
  cases never

def merged (round : List Send) : Chunk (BitVec 8) Nat :=
  (items round, fdsOf round)

def GivenInTime (turns : List (List ClientCall)) : Prop :=
  kept (reach poolEnd ((rounds true turns).map merged)) ≠ []

theorem kept_reach_recvs {wanted : Nat} (small : wanted ≤ scratchLen) (all : List (List Send)) :
    kept (reach wanted (recvs [] all)) = kept (reach wanted (all.map merged)) := by
  induction all generalizing wanted with
  | nil => rfl
  | cons round rest ih =>
      rw [recvs, map_cons]
      rcases Nat.eq_zero_or_pos wanted with rfl | positive
      · rw [Script.reach_zero, Script.reach_zero]
      · rw [Script.reach_cons (by omega), Script.reach_cons (by omega), nil_append]
        have later : kept (reach (wanted - ((items round).take scratchLen).length)
            (recvs ((items round).drop scratchLen) rest)) =
              kept (reach (wanted - (items round).length) (rest.map merged)) := by
          rcases Nat.le_total (items round).length scratchLen with fits | fills
          · rw [take_of_length_le fits, drop_eq_nil_of_le fits]
            exact ih (by omega)
          · have enough : wanted - ((items round).take scratchLen).length = 0 := by
              rw [length_take]
              omega
            rw [enough, Nat.sub_eq_zero_of_le (by omega), Script.reach_zero, Script.reach_zero]
        by_cases empty : items round = []
        · have nothing : (items round).take scratchLen = [] := by
            rw [empty]
            rfl
          rw [Script.kept_cons_empty nothing, Script.kept_cons_empty (by exact empty)]
          exact later
        · have something : (items round).take scratchLen ≠ [] := by
            rw [Ne, take_eq_nil_iff]
            exact fun either => either.elim (by decide) empty
          rw [Script.kept_cons_full something, Script.kept_cons_full (by exact empty)]
          exact congrArg (fdsOf round ++ ·) later

theorem kept_reach_idle (wanted idle : Nat) (chunks : List (Chunk (BitVec 8) Nat)) :
    kept (reach wanted (chunks ++ List.replicate idle ([], []))) = kept (reach wanted chunks) := by
  induction chunks generalizing wanted with
  | nil =>
      rw [nil_append]
      induction idle with
      | zero => rfl
      | succ idle ih =>
          rcases Nat.eq_zero_or_pos wanted with rfl | positive
          · rw [Script.reach_zero, Script.reach_zero]
          · rw [replicate_succ, Script.reach_cons (by omega),
              Script.kept_cons_empty (by rfl)]
            exact ih
  | cons chunk rest ih =>
      rcases Nat.eq_zero_or_pos wanted with rfl | positive
      · rw [Script.reach_zero, Script.reach_zero]
      · rw [cons_append, Script.reach_cons (by omega), Script.reach_cons (by omega)]
        by_cases empty : chunk.1 = []
        · rw [Script.kept_cons_empty empty, Script.kept_cons_empty empty, ih]
        · rw [Script.kept_cons_full empty, Script.kept_cons_full empty, ih]

theorem fdsBy_idle (turns : List (List ClientCall)) (idle : Nat) :
    (fdsBy (turns ++ List.replicate idle []) poolEnd)[0]? ≠ none ↔ GivenInTime turns := by
  unfold fdsBy chunks GivenInTime
  rw [rounds_append, rounds_idle, kept_reach_recvs (by decide), map_append,
    map_replicate]
  have same := kept_reach_idle poolEnd idle ((rounds true turns).map merged)
  rw [show merged [] = ([], []) by rfl, same]
  cases kept (reach poolEnd ((rounds true turns).map merged)) with
  | nil => simp
  | cons first rest => simp

section Vanished

variable {client conn : Nat} {state : State} {turns : List (List ClientCall)}

theorem session_isSome_iff (linked : Linked client conn state true [] []) (idle : Nat) :
    (session state client conn (turns ++ List.replicate idle [])).value.isSome = true ↔
      Stops (items (chunks (turns ++ List.replicate idle []))) (GivenInTime turns) := by
  obtain ⟨past, pending, -, -, -, value, -, -, -⟩ :=
    @run_on_stream _ client conn state (turns ++ List.replicate idle []) linked clientSession _ rfl
      _ rfl
  unfold session
  rw [value, (clientSession_ending _ _).isSome_iff]
  unfold Stops
  rw [fdsBy_idle]

theorem stops_of_isSome (linked : Linked client conn state true [] []) {idle : Nat}
    (ended : (session state client conn (turns ++ List.replicate idle [])).value.isSome = true) :
    Stops (items (sends turns)) (GivenInTime turns) := by
  have begins := items_chunks_begin (turns ++ List.replicate idle [])
  rw [sends_idle] at begins
  exact ((session_isSome_iff linked idle).mp ended).of_begins begins (fun _ given => given)

theorem isSome_of_stops (linked : Linked client conn state true [] [])
    (stops : Stops (items (sends turns)) (GivenInTime turns)) :
    (session state client conn
      (turns ++ List.replicate (items (sends turns)).length [])).value.isSome = true := by
  rw [session_isSome_iff linked, items_chunks_idle (Nat.le_refl _)]
  exact stops

end Vanished

def vanishing (turns : List (List ClientCall)) (last : List ClientCall) : List (List ClientCall) :=
  turns ++ [last ++ [.close]]

end MachaOS.Wayland
