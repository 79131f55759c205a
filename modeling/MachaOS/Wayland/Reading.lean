/-
The compositor's reading and the way the client's sends were cut.

Whatever the chunks, the reader hands out the stream in order and keeps all of
it; the ids come with the first byte of their send at the latest.  A session
takes one id, after the message that creates the pool, so it goes the same way
for all chunks that attach the first id to a send that starts before the end of
that message.
-/

import MachaOS.Wayland.Endings
import MachaOS.Wayland.Wire

namespace MachaOS.Wayland

open List
open Socket (State lookup)
open Script (Chunk items kept reach onStream)

/-- What still waits after the last `recv`. -/
def waiting : List (BitVec 8) → List (List Send) → List (BitVec 8)
  | pending, [] => pending
  | pending, round :: rest => waiting ((pending ++ items round).drop scratchLen) rest

section Recvs

variable {pending : List (BitVec 8)} {front back : List (List Send)}

theorem recvs_append (pending : List (BitVec 8)) (front back : List (List Send)) :
    recvs pending (front ++ back) = recvs pending front ++ recvs (waiting pending front) back := by
  induction front generalizing pending with
  | nil => rfl
  | cons round rest ih =>
      rw [cons_append, recvs, recvs, waiting, ih]
      rfl

theorem items_recvs (pending : List (BitVec 8)) (all : List (List Send)) :
    items (recvs pending all) ++ waiting pending all = pending ++ items all.flatten := by
  induction all generalizing pending with
  | nil => simp [recvs, waiting]
  | cons round rest ih =>
      rw [recvs, waiting, Script.items_cons, append_assoc, ih, flatten_cons,
        Script.items_append, ← append_assoc, take_append_drop, append_assoc]

@[simp] theorem length_recvs (pending : List (BitVec 8)) (all : List (List Send)) :
    (recvs pending all).length = all.length := by
  induction all generalizing pending with
  | nil => rfl
  | cons round rest ih => exact congrArg Nat.succ (ih _)

theorem items_recvs_prefix (pending : List (BitVec 8)) (all : List (List Send)) :
    items (recvs pending all) <+: pending ++ items all.flatten :=
  ⟨_, items_recvs pending all⟩

theorem waiting_idle {idle : Nat} (enough : pending.length ≤ idle) :
    waiting pending (List.replicate idle []) = [] := by
  induction idle generalizing pending with
  | zero =>
      have nothing : pending.length = 0 := by omega
      exact length_eq_zero_iff.mp nothing
  | succ idle ih =>
      rw [replicate_succ, waiting]
      refine ih ?_
      simp only [items, map_nil, flatten_nil, append_nil, length_drop, scratchLen]
      omega

variable {all : List (List Send)}

theorem items_recvs_idle {idle : Nat} (enough : (items all.flatten).length ≤ idle) :
    items (recvs [] (all ++ List.replicate idle [])) = items all.flatten := by
  have whole := items_recvs [] all
  have short : (waiting [] all).length ≤ idle := by
    have lengths := congrArg List.length whole
    rw [length_append] at lengths
    simp only [nil_append] at lengths
    omega
  have finish := items_recvs (waiting [] all) (List.replicate idle [])
  rw [waiting_idle short] at finish
  rw [recvs_append, Script.items_append]
  simp only [append_nil, flatten_replicate_nil] at finish
  rw [finish]
  simpa using whole

theorem kept_recv {round : List Send} {chunks : List (Chunk (BitVec 8) Nat)}
    (nonempty : ∀ send, send ∈ round → send.1 ≠ []) :
    kept (((pending ++ items round).take scratchLen, fdsOf round) :: chunks) =
      fdsOf round ++ kept chunks := by
  by_cases full : (pending ++ items round).take scratchLen = []
  · rw [Script.kept_cons_empty full]
    have nothing : pending ++ items round = [] := by
      rcases take_eq_nil_iff.mp full with zero | nothing
      · cases zero
      · exact nothing
    cases round with
    | nil => rfl
    | cons send rest =>
        have empty : send.1 = [] := by
          rw [Script.items_cons] at nothing
          simp at nothing
          exact nothing.2.1
        exact absurd empty (nonempty send mem_cons_self)
  · exact Script.kept_cons_full full

theorem fds_recvs {early late : List Send} {send : Send} {pos : Nat}
    (nonempty : ∀ other, other ∈ all.flatten → other.1 ≠ [])
    (split : all.flatten = early ++ send :: late)
    (starts : pending.length + (items early).length < pos) :
    fdsOf (early ++ [send]) <+: kept (reach pos (recvs pending all)) := by
  induction all generalizing pending early pos with
  | nil => simp at split
  | cons round rest ih =>
      rw [flatten_cons] at split nonempty
      have inRound : ∀ other, other ∈ round → other.1 ≠ [] :=
        fun other mem => nonempty other (mem_append_left _ mem)
      rw [recvs, Script.reach_cons (by omega), kept_recv inRound]
      have later : ∀ more, early = round ++ more → rest.flatten = more ++ send :: late →
          fdsOf (early ++ [send]) <+: fdsOf round ++ kept (reach
            (pos - ((pending ++ items round).take scratchLen).length)
            (recvs ((pending ++ items round).drop scratchLen) rest)) := by
        rintro more rfl tail
        rw [append_assoc, fdsOf_append]
        refine (prefix_append_right_inj _).mpr (ih ?_ tail ?_)
        · exact fun other mem => nonempty other (mem_append_right _ mem)
        · rw [Script.items_append] at starts
          simp only [length_append] at starts
          simp only [length_drop, length_take, length_append]
          omega
      rcases append_eq_append_iff.mp split with ⟨more, isEarly, tail⟩ | ⟨more, isRound, tail⟩
      · exact later more isEarly tail
      · cases more with
        | nil => exact later [] (by simpa using isRound.symm) (by simpa using tail.symm)
        | cons first others =>
            cases tail
            have ids : fdsOf round = fdsOf (early ++ [send]) ++ fdsOf others := by
              rw [isRound, append_cons, ← fdsOf_append (early ++ [send]) others]
            rw [ids, append_assoc]
            exact prefix_append _ _

theorem kept_recvs (pending : List (BitVec 8)) (nonempty : ∀ send, send ∈ all.flatten → send.1 ≠ []) :
    kept (recvs pending all) = fdsOf all.flatten := by
  induction all generalizing pending with
  | nil => rfl
  | cons round rest ih =>
      rw [flatten_cons] at nonempty ⊢
      rw [recvs, kept_recv (fun send mem => nonempty send (mem_append_left _ mem)),
        ih _ (fun send mem => nonempty send (mem_append_right _ mem)), fdsOf_append]

end Recvs

/-- What the `recv`s of a fresh connection return, one for each turn. -/
def chunks (turns : List (List ClientCall)) : List (Chunk (BitVec 8) Nat) :=
  recvs [] (rounds true turns)

def fdsBy (turns : List (List ClientCall)) (pos : Nat) : List Nat :=
  kept (reach pos (chunks turns))

theorem sends_eq (turns : List (List ClientCall)) : sends turns = (rounds true turns).flatten :=
  (rounds_flatten true turns).symm

theorem length_rounds (alive : Bool) (turns : List (List ClientCall)) :
    (rounds alive turns).length = turns.length := by
  induction turns generalizing alive with
  | nil => rfl
  | cons turn rest ih => exact congrArg Nat.succ (ih _)

section Connected

variable {α : Type} {client conn : Nat} {state : State} {turns : List (List ClientCall)}

theorem hearing_start (linked : Linked client conn state true [] []) :
    Hearing client [] (ConnReader.new conn) state [] :=
  ⟨linked, rfl⟩

theorem run_on_stream (linked : Linked client conn state true [] []) (script : Session α)
    {progress : Progress α} (ran : run client script (ConnReader.new conn) state turns = progress)
    {outcome : Script.Outcome Effect α}
    (found : onStream (items (chunks turns)) (fdsBy turns) script 0 0 = outcome) :
    ∃ past pending, turns = past ++ progress.turns ∧
      Hearing client past progress.reader progress.state pending ∧
      progress.reader.conn = conn ∧
      progress.value = outcome.value ∧ progress.effects = outcome.effects ∧
      progress.reader.buffered =
        Script.readerAt (outcome.needed (chunks turns)) outcome.pos outcome.taken ∧
      coming past pending progress.turns =
        (chunks turns).drop (outcome.needed (chunks turns)).length := by
  subst ran
  obtain ⟨past, pending, split, hearing, sameConn, stand⟩ :=
    run_buffered script (hearing_start linked) turns
  have flat := Script.run_eq_onStream script (Nat.zero_le _) (Nat.zero_le _) found
  rw [Script.reach_zero] at flat
  have same := stand.symm.trans flat
  injection same with value effects reader left
  exact ⟨past, pending, split, hearing, sameConn, value, effects, reader, left⟩

@[simp] theorem length_chunks (turns : List (List ClientCall)) :
    (chunks turns).length = turns.length := by
  rw [chunks, length_recvs, length_rounds]

theorem chunks_begin (front back : List (List ClientCall)) :
    chunks front <+: chunks (front ++ back) := by
  unfold chunks
  rw [rounds_append, recvs_append]
  exact prefix_append _ _

theorem needed_eq {past rest : List (List ClientCall)} {pending : List (BitVec 8)}
    {needed : List (Chunk (BitVec 8) Nat)} (begins : needed <+: chunks (past ++ rest))
    (left : coming past pending rest = (chunks (past ++ rest)).drop needed.length) :
    needed = chunks past := by
  have lengths := congrArg List.length left
  have shorter := begins.length_le
  rw [coming, length_recvs, length_rounds, length_drop, length_chunks, length_append] at lengths
  rw [length_chunks, length_append] at shorter
  have same : needed.length = (chunks past).length := by
    rw [length_chunks]
    omega
  rw [prefix_iff_eq_take.mp begins, same, ← prefix_iff_eq_take.mp (chunks_begin past rest)]

theorem items_chunks_begin (turns : List (List ClientCall)) :
    items (chunks turns) <+: items (sends turns) := by
  rw [sends_eq]
  exact items_recvs_prefix [] (rounds true turns)

theorem kept_chunks (nonempty : ∀ send, send ∈ sends turns → send.1 ≠ []) :
    kept (chunks turns) = fdsOf (sends turns) := by
  rw [sends_eq] at nonempty ⊢
  exact kept_recvs [] nonempty

theorem fdsBy_prefix (nonempty : ∀ send, send ∈ sends turns → send.1 ≠ []) (pos : Nat) :
    fdsBy turns pos <+: fdsOf (sends turns) := by
  rw [← kept_chunks nonempty]
  have whole := Script.reach_append_drop pos (chunks turns)
  refine ⟨kept ((chunks turns).drop (reach pos (chunks turns)).length), ?_⟩
  rw [fdsBy, ← Script.kept_append, whole]

theorem fdsBy_of_started (nonempty : ∀ send, send ∈ sends turns → send.1 ≠ [])
    {early late : List Send} {send : Send} {pos : Nat}
    (split : sends turns = early ++ send :: late) (starts : (items early).length < pos) :
    fdsOf (early ++ [send]) <+: fdsBy turns pos := by
  rw [sends_eq] at nonempty split
  refine fds_recvs nonempty split ?_
  rw [length_nil]
  omega

theorem fdsBy_of_read (nonempty : ∀ send, send ∈ sends turns → send.1 ≠ [])
    {early late : List Send} {pos : Nat} (split : sends turns = early ++ late)
    (ends : (items early).length ≤ pos) : fdsOf early <+: fdsBy turns pos := by
  rcases eq_nil_or_concat early with rfl | ⟨before, last, rfl⟩
  · exact nil_prefix
  · rw [concat_eq_append] at split ends ⊢
    have mem : last ∈ sends turns := by
      rw [split]
      simp
    have bytes := length_pos_iff.mpr (nonempty last mem)
    rw [Script.items_append, length_append] at ends
    simp only [Script.items_cons, Script.items_nil, append_nil] at ends
    have cut : sends turns = before ++ last :: late := by
      rw [split]
      simp
    exact fdsBy_of_started nonempty cut (by omega)

end Connected

def FirstFdBefore (place : Nat) (sends : List Send) : Prop :=
  ∀ early send late, sends = early ++ send :: late → fdsOf early = [] → send.2 ≠ [] →
    (items early).length < place

theorem exists_first_fd {sends : List Send} {first : Nat} {rest : List Nat}
    (ids : fdsOf sends = first :: rest) :
    ∃ early send late, sends = early ++ send :: late ∧ fdsOf early = [] ∧ send.2 ≠ [] := by
  induction sends with
  | nil => cases ids
  | cons send others ih =>
      cases here : send.2 with
      | nil =>
          have later : fdsOf others = first :: rest := by
            have whole : fdsOf (send :: others) = send.2 ++ fdsOf others := rfl
            rw [whole, here] at ids
            exact ids
          obtain ⟨early, bearer, late, split, none, some⟩ := ih later
          refine ⟨send :: early, bearer, late, by rw [split]; rfl, ?_, some⟩
          have whole : fdsOf (send :: early) = send.2 ++ fdsOf early := rfl
          rw [whole, here, none]
          rfl
      | cons id ids' =>
          refine ⟨[], send, others, rfl, rfl, ?_⟩
          rw [here]
          exact cons_ne_nil _ _

variable {turns : List (List ClientCall)}

theorem fdsBy_head {place : Nat} (nonempty : ∀ send, send ∈ sends turns → send.1 ≠ [])
    (timely : FirstFdBefore place (sends turns)) :
    (fdsBy turns place)[0]? = (fdsOf (sends turns))[0]? := by
  have begins := fdsBy_prefix nonempty place
  cases ids : fdsOf (sends turns) with
  | nil =>
      rw [ids] at begins
      rw [prefix_nil.mp begins]
  | cons first rest =>
      obtain ⟨early, send, late, split, none, some⟩ := exists_first_fd ids
      have there := fdsBy_of_started nonempty split (timely early send late split none some)
      rw [fdsOf_append, none] at there
      have bearer : fdsOf [send] = send.2 := append_nil _
      rw [ids] at begins
      cases found : fdsBy turns place with
      | nil =>
          rw [found, nil_append, bearer] at there
          exact absurd (prefix_nil.mp there) some
      | cons head tail =>
          rw [found, cons_prefix_cons] at begins
          rw [begins.1]
          rfl

def wholeSession (sends : List Send) : Script.Outcome Effect Exit :=
  onStream (items sends) (fun _ => fdsOf sends) clientSession 0 0

section Sessions

variable {client conn : Nat} {state : State} {turns : List (List ClientCall)}

theorem session_eq_whole (linked : Linked client conn state true [] [])
    (nonempty : ∀ send, send ∈ sends turns → send.1 ≠ [])
    (timely : FirstFdBefore poolEnd (sends turns))
    (ended : (session state client conn turns).value.isSome = true ∨
      items (chunks turns) = items (sends turns)) :
    (session state client conn turns).value = (wholeSession (sends turns)).value ∧
      (session state client conn turns).effects = (wholeSession (sends turns)).effects := by
  obtain ⟨past, pending, -, -, -, value, effects, -, -⟩ :=
    run_on_stream linked clientSession rfl (@rfl _ (onStream (items (chunks turns)) _ _ 0 0))
  have whole : onStream (items (sends turns)) (fdsBy turns) clientSession 0 0 =
      onStream (items (chunks turns)) (fdsBy turns) clientSession 0 0 := by
    rcases ended with ended | all
    · refine Script.onStream_of_begins (items_chunks_begin turns) ?_
      rw [← value]
      exact ended
    · rw [all]
  have given : onStream (items (sends turns)) (fdsBy turns) clientSession 0 0 =
      wholeSession (sends turns) := onStream_clientSession_congr (fdsBy_head nonempty timely)
  rw [← given, whole]
  exact ⟨value, effects⟩

end Sessions

theorem sends_idle (turns : List (List ClientCall)) (idle : Nat) :
    sends (turns ++ List.replicate idle []) = sends turns := by
  rw [sends_append, flatten_replicate_nil]
  cases stays true turns.flatten <;> exact append_nil _

theorem rounds_idle (alive : Bool) (idle : Nat) :
    rounds alive (List.replicate idle []) = List.replicate idle [] := by
  induction idle generalizing alive with
  | zero => rfl
  | succ idle ih =>
      rw [replicate_succ, rounds, ih, replicate_succ]
      cases alive <;> rfl

theorem items_chunks_idle {idle : Nat} (enough : (items (sends turns)).length ≤ idle) :
    items (chunks (turns ++ List.replicate idle [])) = items (sends turns) := by
  rw [sends_eq] at enough ⊢
  rw [chunks, rounds_append, rounds_idle]
  exact items_recvs_idle enough

theorem run_lossless {α : Type} {client conn : Nat} {state : State}
    (linked : Linked client conn state true [] [])
    (nonempty : ∀ send, send ∈ sends turns → send.1 ≠ []) {script : Session α}
    {progress : Progress α} (ran : run client script (ConnReader.new conn) state turns = progress) :
    ∃ taken past endpoint, turns = past ++ progress.turns ∧
      onStream (items (chunks turns)) (fdsBy turns) script 0 0 =
        { value := progress.value, effects := progress.effects, pos := progress.reader.pos,
          taken } ∧
      lookup progress.state conn = some endpoint ∧
      progress.reader.buf ++ endpoint.inbox = items (sends past) ∧
      (fdsOf (sends turns)).take taken ++ progress.reader.fds ++ endpoint.inboxFds =
        fdsOf (sends past) := by
  have found := @rfl _ (onStream (items (chunks turns)) (fdsBy turns) script 0 0)
  have held := Script.taken_le_kept script (Nat.zero_le _) found
  obtain ⟨past, pending, split, hearing, sameConn, value, effects, reader, left⟩ :=
    run_on_stream linked script ran found
  generalize onStream (items (chunks turns)) (fdsBy turns) script 0 0 = outcome at *
  obtain ⟨endpoint, live, -, isInbox, isFds⟩ := hearing.linked.server
  rw [sameConn] at live
  injection reader with buf pos fds
  have begins := outcome.needed_prefix (chunks turns)
  have needed : outcome.needed (chunks turns) = chunks past := by
    rw [split] at begins left ⊢
    exact needed_eq begins left
  have whole : sends turns = sends past ++
      heard (stays true past.flatten) progress.turns.flatten := by
    rw [← sends_append, ← split]
  have ids : kept (chunks past) = fdsOf (sends past) :=
    kept_chunks (fun send mem => nonempty send (by rw [whole]; exact mem_append_left _ mem))
  rw [needed, ids] at fds held
  refine ⟨outcome.taken, past, endpoint, split, ?_, live, ?_, ?_⟩
  · rw [value, effects, pos]
  · rw [isInbox]
    exact hearing.bytes
  · rw [isFds, append_nil, fds, whole, fdsOf_append, take_append_of_le_length held,
      take_append_drop]

/-- Reading does not depend on how the sends were cut or when they came.  Every program over the
reader gets the consecutive slices of the stream, with nothing lost; the ids come in order, each
by the time its send has been read; and if the first id comes with a send that starts before the
end of the message that creates the pool, the session goes the way of the whole stream. -/
theorem reading_ignores_chunks {client conn : Nat} {state : State}
    (linked : Linked client conn state true [] []) (turns : List (List ClientCall))
    (nonempty : ∀ send, send ∈ sends turns → send.1 ≠ []) :
    (∀ (α : Type) (script : Session α) (progress : Progress α),
      run client script (ConnReader.new conn) state turns = progress →
      ∃ taken received past endpoint, turns = past ++ progress.turns ∧
        received <+: items (sends turns) ∧
        onStream received (fdsBy turns) script 0 0 =
          { value := progress.value, effects := progress.effects, pos := progress.reader.pos,
            taken } ∧
        (progress.value.isSome = true → onStream (items (sends turns)) (fdsBy turns) script 0 0 =
            { value := progress.value, effects := progress.effects, pos := progress.reader.pos,
              taken }) ∧
        lookup progress.state conn = some endpoint ∧
        progress.reader.buf ++ endpoint.inbox = items (sends past) ∧
        (fdsOf (sends turns)).take taken ++ progress.reader.fds ++ endpoint.inboxFds =
          fdsOf (sends past)) ∧
    (∀ pos, fdsBy turns pos <+: fdsOf (sends turns)) ∧
    (∀ early late pos, sends turns = early ++ late → (items early).length ≤ pos →
      fdsOf early <+: fdsBy turns pos) ∧
    (FirstFdBefore poolEnd (sends turns) → ((session state client conn turns).value.isSome = true →
        (session state client conn turns).value = (wholeSession (sends turns)).value ∧
        (session state client conn turns).effects = (wholeSession (sends turns)).effects) ∧
      ∀ idle, (items (sends turns)).length ≤ idle →
        (session state client conn (turns ++ List.replicate idle [])).value =
            (wholeSession (sends turns)).value ∧
          (session state client conn (turns ++ List.replicate idle [])).effects =
            (wholeSession (sends turns)).effects) := by
  refine ⟨fun α script progress ran => ?_, fdsBy_prefix nonempty,
    fun early late pos split ends => fdsBy_of_read nonempty split ends, fun timely => ⟨?_, ?_⟩⟩
  · obtain ⟨taken, past, endpoint, split, flat, live, bytes, ids⟩ :=
      run_lossless linked nonempty ran
    have begins := items_chunks_begin turns
    refine ⟨taken, items (chunks turns), past, endpoint, split, begins, flat, fun ended => ?_, live,
      bytes, ids⟩
    rw [← flat]
    refine Script.onStream_of_begins begins ?_
    rw [flat]
    exact ended
  · exact fun ended => session_eq_whole linked nonempty timely (Or.inl ended)
  · intro idle enough
    have same := sends_idle turns idle
    have further := @session_eq_whole client conn state (turns ++ List.replicate idle []) linked
    rw [same] at further
    exact further nonempty timely (Or.inr (items_chunks_idle enough))

def greeted : State :=
  let (state, listener) := Socket.create { endpoints := [], listeners := [] }
  let state := (Socket.bind state listener "machaos-wayland-0").2
  let state := (Socket.listen state listener).2
  let (state, client) := Socket.create state
  let state := (Socket.connect state client "machaos-wayland-0").2
  (Socket.accept state listener).2

theorem linked_greeted : Linked 1 2 greeted true [] [] :=
  ⟨by decide, ⟨_, rfl, rfl, rfl, rfl⟩, fun _ => rfl, fun gone => (by cases gone)⟩

def message (objectId : BitVec 32) (opcode : BitVec 16) (words : List (BitVec 32)) :
    List (BitVec 8) :=
  pushHeader objectId opcode (BitVec.ofNat 16 (8 + 4 * words.length)) ++
    (words.map pushU32).flatten

def opening : List (BitVec 8) :=
  message 1 1 [2] ++ message 2 1 [1, 3] ++ message 3 0 [4, 256]

def drawing : List (BitVec 8) :=
  message 4 0 [5, 0, 8, 8, 32, 0] ++ message 2 1 [2, 6] ++ message 6 0 [7] ++
    message 7 1 [5, 0, 0] ++ message 7 6 []

theorem reading_ignores_chunks_greeted :
    (session greeted 1 2 [[.send opening [9]], [.send drawing []]]).value =
        (wholeSession [(opening, [9]), (drawing, [])]).value ∧
      (session greeted 1 2 [[.send opening [9]], [.send drawing []]]).effects =
        (wholeSession [(opening, [9]), (drawing, [])]).effects := by
  have timely : FirstFdBefore poolEnd (sends [[.send opening [9]], [.send drawing []]]) := by
    rintro (- | ⟨first, early⟩) send late split none some
    · exact Nat.zero_lt_succ _
    · have isFirst : (opening, [9]) = first := (List.cons.inj split).1
      rw [← isFirst] at none
      cases none
  obtain ⟨-, -, -, sessions⟩ := reading_ignores_chunks linked_greeted
    [[.send opening [9]], [.send drawing []]] (by decide)
  exact (sessions timely).1 (by decide +kernel)

/-- An id that comes with the drawing is there in time only if both sends are received at once. -/
theorem chunks_decide_session :
    sends [[.send opening [], .send drawing [9]]] =
        sends [[.send opening []], [.send drawing [9]]] ∧
      (∀ send, send ∈ sends [[.send opening [], .send drawing [9]]] → send.1 ≠ []) ∧
      (session greeted 1 2 [[.send opening [], .send drawing [9]]]).value = some .committed ∧
      (session greeted 1 2 [[.send opening []], [.send drawing [9]]]).value = some .noPool := by
  refine ⟨rfl, by decide, by decide +kernel, by decide +kernel⟩

end MachaOS.Wayland
