/-
Programs that read from a stream.

A script asks for a number of items at a time, takes handles that travel beside
the items, and acts on the outside.  Run on a stream that is all there it gets
the consecutive slices of it.  Run by a buffered reader it gets what arrives in
chunks, each with the handles that came along, and waits when no more chunks are
coming.  The two agree however the stream is cut: only the handles depend on it.
-/

import Mathlib.Data.List.Basic

/-- A program over items `β` and handles `φ`, acting by `ε`. -/
inductive Script (β φ ε α : Type) where
  | done (value : α)
  | read (want : Nat) (next : List β → Script β φ ε α)
  | take (next : Option φ → Script β φ ε α)
  | act (effect : ε) (next : Script β φ ε α)

namespace Script

open List

variable {β φ ε α γ : Type}

def bind : Script β φ ε α → (α → Script β φ ε γ) → Script β φ ε γ
  | done value, rest => rest value
  | read want next, rest => read want (fun items => (next items).bind rest)
  | take next, rest => take (fun handle => (next handle).bind rest)
  | act effect next, rest => act effect (next.bind rest)

instance : Monad (Script β φ ε) where
  pure := done
  bind := bind

/-- How far a script has come; it has no value while it waits for more items. -/
structure Outcome (ε α : Type) where
  value : Option α
  effects : List ε
  /-- Items read. -/
  pos : Nat
  /-- Handles taken. -/
  taken : Nat
deriving DecidableEq

def Outcome.after (effect : ε) (outcome : Outcome ε α) : Outcome ε α :=
  { outcome with effects := effect :: outcome.effects }

/-- On a whole stream; `handlesBy` says which handles are there at a position. -/
def onStream (stream : List β) (handlesBy : Nat → List φ) :
    Script β φ ε α → Nat → Nat → Outcome ε α
  | done value, pos, taken => { value := some value, effects := [], pos, taken }
  | read want next, pos, taken =>
      if pos + want ≤ stream.length then
        onStream stream handlesBy (next ((stream.drop pos).take want)) (pos + want) taken
      else { value := none, effects := [], pos, taken }
  | take next, pos, taken =>
      match (handlesBy pos)[taken]? with
      | none => onStream stream handlesBy (next none) pos taken
      | some handle => onStream stream handlesBy (next (some handle)) pos (taken + 1)
  | act effect next, pos, taken => (onStream stream handlesBy next pos taken).after effect

theorem onStream_ite {stream : List β} {handlesBy : Nat → List φ} (condition : Prop)
    [Decidable condition] (first second : Script β φ ε α) (pos taken : Nat) :
    onStream stream handlesBy (if condition then first else second) pos taken =
      if condition then onStream stream handlesBy first pos taken
      else onStream stream handlesBy second pos taken := by
  split <;> rfl

theorem slice_of_begins {short long : List β} (begins : short <+: long) {pos want : Nat}
    (there : pos + want ≤ short.length) :
    (long.drop pos).take want = (short.drop pos).take want := by
  obtain ⟨rest, rfl⟩ := begins
  rw [drop_append_of_le_length (by omega),
    take_append_of_le_length (by rw [length_drop]; omega)]

theorem onStream_of_begins {short long : List β} {handlesBy : Nat → List φ}
    (begins : short <+: long) {script : Script β φ ε α} {pos taken : Nat}
    (ends : (onStream short handlesBy script pos taken).value.isSome = true) :
    onStream long handlesBy script pos taken = onStream short handlesBy script pos taken := by
  induction script generalizing pos taken with
  | done value => rfl
  | read want next ih =>
      unfold onStream at ends ⊢
      split at ends
      · rename_i there
        have longer := begins.length_le
        rw [if_pos there, if_pos (by omega), slice_of_begins begins there]
        exact ih _ ends
      · cases ends
  | take next ih =>
      unfold onStream at ends ⊢
      cases found : (handlesBy pos)[taken]? with
      | none =>
          rw [found] at ends
          exact ih none ends
      | some handle =>
          rw [found] at ends
          exact ih (some handle) ends
  | act effect next ih =>
      unfold onStream at ends ⊢
      rw [ih ends]

abbrev Chunk (β φ : Type) : Type := List β × List φ

def items (chunks : List (Chunk β φ)) : List β :=
  (chunks.map Prod.fst).flatten

def kept (chunks : List (Chunk β φ)) : List φ :=
  ((chunks.filter (fun chunk => !chunk.1.isEmpty)).map Prod.snd).flatten

def reach (wanted : Nat) : List (Chunk β φ) → List (Chunk β φ)
  | [] => []
  | chunk :: rest => if wanted = 0 then [] else chunk :: reach (wanted - chunk.1.length) rest

section Chunks

variable {chunk : Chunk β φ} {chunks front back : List (Chunk β φ)} {wanted more : Nat}

@[simp] theorem items_nil : items ([] : List (Chunk β φ)) = [] := rfl

@[simp] theorem items_cons : items (chunk :: chunks) = chunk.1 ++ items chunks := rfl

@[simp] theorem items_append : items (front ++ back) = items front ++ items back := by
  simp [items]

@[simp] theorem kept_nil : kept ([] : List (Chunk β φ)) = [] := rfl

@[simp] theorem kept_append : kept (front ++ back) = kept front ++ kept back := by
  simp [kept]

theorem kept_cons_empty (empty : chunk.1 = []) : kept (chunk :: chunks) = kept chunks := by
  simp [kept, empty]

theorem kept_cons_full (full : chunk.1 ≠ []) : kept (chunk :: chunks) = chunk.2 ++ kept chunks := by
  simp [kept, full]

@[simp] theorem reach_zero (chunks : List (Chunk β φ)) : reach 0 chunks = [] := by
  cases chunks <;> rfl

theorem reach_cons (positive : wanted ≠ 0) :
    reach wanted (chunk :: chunks) = chunk :: reach (wanted - chunk.1.length) chunks :=
  if_neg positive

theorem reach_begins (wanted : Nat) (chunks : List (Chunk β φ)) :
    reach wanted chunks <+: chunks := by
  induction chunks generalizing wanted with
  | nil => exact prefix_refl _
  | cons chunk rest ih =>
      unfold reach
      split
      · exact nil_prefix
      · exact (cons_prefix_cons).mpr ⟨rfl, ih _⟩

theorem reach_append_drop (wanted : Nat) (chunks : List (Chunk β φ)) :
    reach wanted chunks ++ chunks.drop (reach wanted chunks).length = chunks :=
  prefix_iff_eq_append.mp (reach_begins wanted chunks)

theorem le_items_reach (enough : wanted ≤ (items chunks).length) :
    wanted ≤ (items (reach wanted chunks)).length := by
  induction chunks generalizing wanted with
  | nil => exact enough
  | cons chunk rest ih =>
      rcases Nat.eq_zero_or_pos wanted with rfl | positive
      · omega
      · rw [reach_cons (by omega)]
        rw [items_cons, length_append] at enough ⊢
        have later := @ih (wanted - chunk.1.length) (by omega)
        omega

theorem reach_add (wanted more : Nat) (chunks : List (Chunk β φ)) :
    reach (wanted + more) chunks = reach wanted chunks ++
      reach (wanted + more - (items (reach wanted chunks)).length)
        (chunks.drop (reach wanted chunks).length) := by
  induction chunks generalizing wanted with
  | nil => rfl
  | cons chunk rest ih =>
      rcases Nat.eq_zero_or_pos wanted with rfl | positive
      · simp
      · rw [reach_cons (by omega), reach_cons (by omega), items_cons, length_append,
          length_cons, drop_succ_cons, cons_append]
        rcases Nat.le_total chunk.1.length wanted with inside | beyond
        · have shorter := ih (wanted - chunk.1.length)
          rw [show wanted - chunk.1.length + more = wanted + more - chunk.1.length by omega]
            at shorter
          rw [shorter, Nat.sub_sub]
        · rw [show wanted - chunk.1.length = 0 by omega, reach_zero]
          rfl

end Chunks

/-- The items received, the number of them read, and the handles not yet taken. -/
structure Reader (β φ : Type) where
  buf : List β
  pos : Nat
  handles : List φ

def Reader.receive (reader : Reader β φ) (chunk : Chunk β φ) : Reader β φ :=
  if chunk.1.isEmpty then reader
  else { reader with buf := reader.buf ++ chunk.1, handles := reader.handles ++ chunk.2 }

/-- Receive until enough items are unread; what is still coming, if it was enough. -/
def Reader.fill (want : Nat) (reader : Reader β φ) :
    List (Chunk β φ) → Reader β φ × Option (List (Chunk β φ))
  | [] => (reader, if want ≤ reader.buf.length - reader.pos then some [] else none)
  | chunk :: rest =>
      if want ≤ reader.buf.length - reader.pos then (reader, some (chunk :: rest))
      else (reader.receive chunk).fill want rest

structure Stand (β φ ε α : Type) where
  value : Option α
  effects : List ε
  reader : Reader β φ
  coming : List (Chunk β φ)

def Stand.after (effect : ε) (stand : Stand β φ ε α) : Stand β φ ε α :=
  { stand with effects := effect :: stand.effects }

def run : Script β φ ε α → Reader β φ → List (Chunk β φ) → Stand β φ ε α
  | done value, reader, coming => { value := some value, effects := [], reader, coming }
  | read want next, reader, coming =>
      match reader.fill want coming with
      | (reader, none) => { value := none, effects := [], reader, coming := [] }
      | (reader, some coming) =>
          run (next ((reader.buf.drop reader.pos).take want))
            { reader with pos := reader.pos + want } coming
  | take next, reader, coming =>
      match reader.handles with
      | [] => run (next none) reader coming
      | handle :: rest => run (next (some handle)) { reader with handles := rest } coming
  | act effect next, reader, coming => (run next reader coming).after effect

def readerAt (received : List (Chunk β φ)) (pos taken : Nat) : Reader β φ :=
  { buf := items received, pos, handles := (kept received).drop taken }

/-- What the reader has received when a script on all chunks stands where it stands. -/
def Outcome.needed (chunks : List (Chunk β φ)) (outcome : Outcome ε α) : List (Chunk β φ) :=
  if outcome.value.isSome then reach outcome.pos chunks else chunks

theorem Outcome.needed_prefix (chunks : List (Chunk β φ)) (outcome : Outcome ε α) :
    outcome.needed chunks <+: chunks := by
  unfold needed
  split
  · exact reach_begins outcome.pos chunks
  · exact prefix_refl chunks

section Reading

variable {received coming chunks : List (Chunk β φ)} {pos taken want : Nat}

theorem receive_readerAt (chunk : Chunk β φ) (held : taken ≤ (kept received).length) :
    (readerAt received pos taken).receive chunk = readerAt (received ++ [chunk]) pos taken := by
  unfold Reader.receive
  split
  · rename_i empty
    have nothing : chunk.1 = [] := isEmpty_iff.mp empty
    unfold readerAt
    rw [items_append, kept_append, kept_cons_empty nothing, items_cons, nothing]
    simp
  · rename_i full
    have something : chunk.1 ≠ [] := fun nothing => full (isEmpty_iff.mpr nothing)
    unfold readerAt
    rw [items_append, kept_append, kept_cons_full something, items_cons,
      drop_append_of_le_length held]
    simp

theorem fill_readerAt (inside : pos ≤ (items received).length)
    (held : taken ≤ (kept received).length) :
    (readerAt received pos taken).fill want coming =
      if pos + want ≤ (items (received ++ coming)).length then
        (readerAt (received ++ reach (pos + want - (items received).length) coming) pos taken,
          some (coming.drop (reach (pos + want - (items received).length) coming).length))
      else (readerAt (received ++ coming) pos taken, none) := by
  have unread : want ≤ (readerAt received pos taken).buf.length -
      (readerAt received pos taken).pos ↔ pos + want ≤ (items received).length := by
    show want ≤ (items received).length - pos ↔ _
    omega
  induction coming generalizing received with
  | nil =>
      unfold Reader.fill
      simp only [unread, append_nil]
      split
      · simp [reach]
      · rfl
  | cons chunk rest ih =>
      unfold Reader.fill
      simp only [unread]
      by_cases enough : pos + want ≤ (items received).length
      · have whole : pos + want ≤ (items (received ++ chunk :: rest)).length := by
          rw [items_append, length_append]
          omega
        rw [if_pos enough, if_pos whole, Nat.sub_eq_zero_of_le enough, reach_zero, append_nil]
        rfl
      · have further : (items (received ++ [chunk])).length =
            (items received).length + chunk.1.length := by simp
        have whole : (received ++ [chunk]) ++ rest = received ++ chunk :: rest := by simp
        rw [if_neg enough, receive_readerAt chunk held, ih (by omega) ?_ ?_, whole, further]
        · rw [reach_cons (by omega), Nat.sub_sub, append_assoc]
          rfl
        · rw [kept_append, length_append]
          omega
        · show want ≤ (items (received ++ [chunk])).length - pos ↔ _
          omega

theorem kept_reach_le (pos more : Nat) (chunks : List (Chunk β φ)) :
    (kept (reach pos chunks)).length ≤ (kept (reach (pos + more) chunks)).length := by
  rw [reach_add, kept_append, length_append]
  omega

theorem taken_le_kept (script : Script β φ ε α) {outcome : Outcome ε α}
    (held : taken ≤ (kept (reach pos chunks)).length)
    (found : onStream (items chunks) (fun pos => kept (reach pos chunks)) script pos taken =
      outcome) : outcome.taken ≤ (kept (outcome.needed chunks)).length := by
  subst found
  induction script generalizing pos taken with
  | done value => exact held
  | read want next ih =>
      unfold onStream
      by_cases longer : pos + want ≤ (items chunks).length
      · rw [if_pos longer]
        exact ih _ (Nat.le_trans held (kept_reach_le pos want chunks))
      · rw [if_neg longer]
        have whole := congrArg List.length (congrArg kept (reach_append_drop pos chunks))
        rw [kept_append, length_append] at whole
        show taken ≤ (kept chunks).length
        omega
  | take next ih =>
      unfold onStream
      cases found : (kept (reach pos chunks))[taken]? with
      | none => exact ih none held
      | some handle => exact ih (some handle) (List.getElem?_eq_some_iff.mp found).1
  | act effect next ih => exact ih held

theorem run_eq_onStream (script : Script β φ ε α) {outcome : Outcome ε α}
    (inside : pos ≤ (items chunks).length)
    (held : taken ≤ (kept (reach pos chunks)).length)
    (found : onStream (items chunks) (fun pos => kept (reach pos chunks)) script pos taken =
      outcome) :
    script.run (readerAt (reach pos chunks) pos taken) (chunks.drop (reach pos chunks).length) =
      { value := outcome.value
        effects := outcome.effects
        reader := readerAt (outcome.needed chunks) outcome.pos outcome.taken
        coming := chunks.drop (outcome.needed chunks).length } := by
  subst found
  induction script generalizing pos taken with
  | done value => rfl
  | read want next ih =>
      have enough := le_items_reach inside
      have whole := reach_append_drop pos chunks
      unfold run onStream
      rw [fill_readerAt enough held, whole]
      by_cases longer : pos + want ≤ (items chunks).length
      · rw [if_pos longer, if_pos longer]
        dsimp only
        rw [← reach_add, drop_drop, ← length_append, ← reach_add]
        have slice : ((items (reach (pos + want) chunks)).drop pos).take want =
            ((items chunks).drop pos).take want := by
          refine (slice_of_begins ?_ (le_items_reach longer)).symm
          conv_rhs => rw [← reach_append_drop (pos + want) chunks, items_append]
          exact prefix_append _ _
        have kept_le := Nat.le_trans held (kept_reach_le pos want chunks)
        show (next (((items (reach (pos + want) chunks)).drop pos).take want)).run
          (readerAt (reach (pos + want) chunks) (pos + want) taken) _ = _
        rw [slice]
        exact ih _ longer kept_le
      · rw [if_neg longer, if_neg longer]
        simp [Outcome.needed]
  | take next ih =>
      unfold run onStream
      cases found : (kept (reach pos chunks))[taken]? with
      | none =>
          have nothing : (readerAt (reach pos chunks) pos taken).handles = [] :=
            drop_eq_nil_of_le (List.getElem?_eq_none_iff.mp found)
          rw [nothing]
          exact ih _ inside held
      | some handle =>
          obtain ⟨less, isHandle⟩ := List.getElem?_eq_some_iff.mp found
          have next : (readerAt (reach pos chunks) pos taken).handles =
              handle :: (kept (reach pos chunks)).drop (taken + 1) := by
            rw [← isHandle]
            exact drop_eq_getElem_cons less
          rw [next]
          exact ih _ inside less
  | act effect next ih =>
      unfold run onStream
      rw [ih inside held]
      rfl

end Reading

end Script
