/-
How a session on a whole stream ends (`client_session` in `src/wayland.rs`).

The script reads eight headers at fixed places, and takes the fd once, after the
message that creates the pool.  It waits exactly when every header that is there
has its size, the fd was there in time, and the stream stops short of the last
header.
-/

import MachaOS.Wayland.Session

namespace MachaOS.Wayland

open Script (Outcome onStream)

def layout : List (Nat × BitVec 32) :=
  [(0, 12), (12, 16), (28, 16), (44, 32), (76, 16), (92, 12), (104, 20), (124, 8)]

def poolEnd : Nat := 44

def scriptEnd : Nat := 132

def wordAt (stream : List (BitVec 8)) (pos : Nat) : BitVec 32 :=
  fromNeBytes ((stream.drop pos).take 4)

def sizeAt (stream : List (BitVec 8)) (pos : Nat) : BitVec 32 :=
  wordAt stream (pos + 4) >>> 16

def Followed (stream : List (BitVec 8)) (pos : Nat) : Prop :=
  ∀ header, header ∈ layout → header.1 + 8 ≤ pos → sizeAt stream header.1 = header.2

def Scripted (stream : List (BitVec 8)) : Prop :=
  scriptEnd ≤ stream.length ∧ Followed stream scriptEnd

inductive Ending (stream : List (BitVec 8)) (fdsBy : Nat → List Nat)
    (outcome : Outcome Effect Exit) : Prop where
  | waits (value : outcome.value = none) (nothing : released outcome.effects = [])
      (short : stream.length < scriptEnd) (followed : Followed stream stream.length)
      (given : poolEnd ≤ stream.length → (fdsBy poolEnd)[0]? ≠ none)
  | wrong (step : Nat) (value : outcome.value = some (.badHeader step))
      (nothing : released outcome.effects = []) (header : Nat × BitVec 32)
      (mem : header ∈ layout) (there : header.1 + 8 ≤ stream.length)
      (differs : sizeAt stream header.1 ≠ header.2)
  | noPool (value : outcome.value = some .noPool) (nothing : released outcome.effects = [])
      (pos : outcome.pos = poolEnd) (there : poolEnd ≤ stream.length)
      (missing : (fdsBy poolEnd)[0]? = none)
  | committed (fd : Nat) (value : outcome.value = some .committed)
      (closed : released outcome.effects = [fd]) (scripted : Scripted stream) (given : (fdsBy poolEnd)[0]? = some fd)

namespace Ending

variable {stream : List (BitVec 8)} {fdsBy : Nat → List Nat} {outcome : Outcome Effect Exit}
  {pos taken : Nat}

theorem after_send (bytes : List (BitVec 8)) (ending : Ending stream fdsBy outcome) :
    Ending stream fdsBy (outcome.after (.send bytes)) := by
  cases ending with
  | waits value nothing short followed given => exact .waits value nothing short followed given
  | wrong step value nothing header mem there differs =>
      exact .wrong step value nothing header mem there differs
  | noPool value nothing pos there missing => exact .noPool value nothing pos there missing
  | committed fd value closed scripted given =>
      exact .committed fd value closed scripted given

theorem of_short (followed : Followed stream pos) (short : stream.length < pos + 4)
    (quiet : ∀ header, header ∈ layout → header.1 + 8 < pos + 4 → header.1 + 8 ≤ pos)
    (within : pos + 4 ≤ scriptEnd) (given : poolEnd < pos + 4 → (fdsBy poolEnd)[0]? ≠ none) :
    Ending stream fdsBy { value := none, effects := [], pos, taken } := by
  refine .waits rfl rfl (by omega) (fun header mem there => ?_) (fun there => given (by omega))
  exact followed header mem (quiet header mem (by omega))

theorem readU32 {next : BitVec 32 → Session Exit} (followed : Followed stream pos)
    (quiet : ∀ header, header ∈ layout → header.1 + 8 ≤ pos + 4 → header.1 + 8 ≤ pos)
    (within : pos + 4 ≤ scriptEnd) (given : poolEnd < pos + 4 → (fdsBy poolEnd)[0]? ≠ none)
    (ends : ∀ word, pos + 4 ≤ stream.length → Followed stream (pos + 4) →
      Ending stream fdsBy (onStream stream fdsBy (next word) (pos + 4) taken)) :
    Ending stream fdsBy (onStream stream fdsBy (Wayland.readU32 >>= next) pos taken) := by
  show Ending stream fdsBy (if pos + 4 ≤ stream.length then
    onStream stream fdsBy (next (wordAt stream pos)) (pos + 4) taken else _)
  split
  · rename_i there
    exact ends _ there (fun header mem there => followed header mem (quiet header mem there))
  · rename_i short
    exact of_short followed (by omega) (fun header mem there => quiet header mem (by omega))
      within given

theorem readHeader {size : BitVec 32} {step : Nat} {next : Session Exit}
    (followed : Followed stream pos) (mem : (pos, size) ∈ layout)
    (quiet : ∀ header, header ∈ layout → header.1 + 8 ≤ pos + 8 →
      header.1 + 8 ≤ pos ∨ header = (pos, size))
    (within : pos + 8 ≤ scriptEnd) (given : poolEnd < pos + 8 → (fdsBy poolEnd)[0]? ≠ none)
    (ends : pos + 8 ≤ stream.length → Followed stream (pos + 8) →
      Ending stream fdsBy (onStream stream fdsBy next (pos + 8) taken)) :
    Ending stream fdsBy (onStream stream fdsBy
      (Wayland.readHeader >>= fun found => if found ≠ size then pure (.badHeader step) else next)
      pos taken) := by
  have earlier : ∀ header, header ∈ layout → header.1 + 8 < pos + 8 → header.1 + 8 ≤ pos := by
    intro header mem before
    rcases quiet header mem (by omega) with old | rfl
    · exact old
    · exact absurd before (by simp)
  show Ending stream fdsBy (if pos + 4 ≤ stream.length then
    if pos + 4 + 4 ≤ stream.length then
      onStream stream fdsBy
        (if sizeAt stream pos ≠ size then Script.done (Exit.badHeader step) else next)
        (pos + 4 + 4) taken
    else _ else _)
  split
  · split
    · rename_i there
      by_cases right : sizeAt stream pos = size
      · rw [if_neg (not_not_intro right)]
        refine ends there (fun header mem there => ?_)
        rcases quiet header mem there with old | rfl
        · exact followed header mem old
        · exact right
      · rw [if_pos right]
        exact .wrong step rfl rfl (pos, size) mem (by omega) right
    · refine of_short (fun header mem there => ?_) (by omega)
        (fun header mem there => ?_) (by omega) (fun there => given (by omega))
      · exact followed header mem (earlier header mem (by omega))
      · exact Nat.le_trans (earlier header mem (by omega)) (by omega)
  · exact of_short followed (by omega) (fun header mem there => earlier header mem (by omega))
      (by omega) (fun there => given (by omega))

theorem takeFd {next : Option Nat → Session Exit}
    (missing : (fdsBy pos)[0]? = none → Ending stream fdsBy (onStream stream fdsBy (next none) pos 0))
    (given : ∀ fd, (fdsBy pos)[0]? = some fd →
      Ending stream fdsBy (onStream stream fdsBy (next (some fd)) pos 1)) :
    Ending stream fdsBy (onStream stream fdsBy (Wayland.takeFd >>= next) pos 0) := by
  show Ending stream fdsBy (onStream stream fdsBy (.take next) pos 0)
  unfold onStream
  cases found : (fdsBy pos)[0]? with
  | none => exact missing found
  | some fd => exact given fd found

end Ending

theorem clientSession_ending (stream : List (BitVec 8)) (fdsBy : Nat → List Nat) :
    Ending stream fdsBy (onStream stream fdsBy clientSession 0 0) := by
  have start : Followed stream 0 := by
    intro header mem there
    omega
  have early : ∀ {pos : Nat}, pos ≤ poolEnd → poolEnd < pos → (fdsBy poolEnd)[0]? ≠ none :=
    fun before behind => absurd behind (Nat.not_lt.mpr before)
  unfold clientSession
  -- get_registry
  refine Ending.readHeader start (by decide) (by decide) (by decide) (early (by decide)) (fun _ at8 => ?_)
  refine Ending.readU32 at8 (by decide) (by decide) (early (by decide)) (fun registryId _ at12 => ?_)
  refine Ending.after_send _ (Ending.after_send _ ?_)
  -- bind to wl_shm
  refine Ending.readHeader at12 (by decide) (by decide) (by decide) (early (by decide)) (fun _ at20 => ?_)
  refine Ending.readU32 at20 (by decide) (by decide) (early (by decide)) (fun _ _ at24 => ?_)
  refine Ending.readU32 at24 (by decide) (by decide) (early (by decide)) (fun _ _ at28 => ?_)
  -- create_pool
  refine Ending.readHeader at28 (by decide) (by decide) (by decide) (early (by decide)) (fun _ at36 => ?_)
  refine Ending.readU32 at36 (by decide) (by decide) (early (by decide)) (fun _ _ at40 => ?_)
  refine Ending.readU32 at40 (by decide) (by decide) (early (by decide)) (fun poolSize created at44 => ?_)
  refine Ending.takeFd (fun missing => ?_) (fun fd given => ?_)
  · exact .noPool rfl rfl rfl created missing
  have hasFd : (fdsBy poolEnd)[0]? ≠ none := fun missing => by cases given.symm.trans missing
  -- create_buffer
  refine Ending.readHeader at44 (by decide) (by decide) (by decide) (fun _ => hasFd) (fun _ at52 => ?_)
  refine Ending.readU32 at52 (by decide) (by decide) (fun _ => hasFd) (fun _ _ at56 => ?_)
  refine Ending.readU32 at56 (by decide) (by decide) (fun _ => hasFd) (fun offset _ at60 => ?_)
  refine Ending.readU32 at60 (by decide) (by decide) (fun _ => hasFd) (fun width _ at64 => ?_)
  refine Ending.readU32 at64 (by decide) (by decide) (fun _ => hasFd) (fun height _ at68 => ?_)
  refine Ending.readU32 at68 (by decide) (by decide) (fun _ => hasFd) (fun stride _ at72 => ?_)
  refine Ending.readU32 at72 (by decide) (by decide) (fun _ => hasFd) (fun _ _ at76 => ?_)
  -- bind to wl_compositor
  refine Ending.readHeader at76 (by decide) (by decide) (by decide) (fun _ => hasFd) (fun _ at84 => ?_)
  refine Ending.readU32 at84 (by decide) (by decide) (fun _ => hasFd) (fun _ _ at88 => ?_)
  refine Ending.readU32 at88 (by decide) (by decide) (fun _ => hasFd) (fun _ _ at92 => ?_)
  -- create_surface
  refine Ending.readHeader at92 (by decide) (by decide) (by decide) (fun _ => hasFd) (fun _ at100 => ?_)
  refine Ending.readU32 at100 (by decide) (by decide) (fun _ => hasFd) (fun _ _ at104 => ?_)
  -- attach
  refine Ending.readHeader at104 (by decide) (by decide) (by decide) (fun _ => hasFd) (fun _ at112 => ?_)
  refine Ending.readU32 at112 (by decide) (by decide) (fun _ => hasFd) (fun _ _ at116 => ?_)
  refine Ending.readU32 at116 (by decide) (by decide) (fun _ => hasFd) (fun _ _ at120 => ?_)
  refine Ending.readU32 at120 (by decide) (by decide) (fun _ => hasFd) (fun _ _ at124 => ?_)
  -- commit
  refine Ending.readHeader at124 (by decide) (by decide) (by decide) (fun _ => hasFd) (fun there at132 => ?_)
  exact .committed fd rfl rfl ⟨there, at132⟩ given

theorem onStream_clientSession_congr {stream : List (BitVec 8)} {fdsBy fdsBy' : Nat → List Nat}
    (same : (fdsBy poolEnd)[0]? = (fdsBy' poolEnd)[0]?) :
    onStream stream fdsBy clientSession 0 0 = onStream stream fdsBy' clientSession 0 0 := by
  unfold poolEnd at same
  unfold clientSession
  simp only [readHeader, readU32, takeFd, sendGlobal, perform, bind, Script.bind, pure, onStream,
    Script.onStream_ite, Nat.reduceAdd, same]

def Stops (stream : List (BitVec 8)) (given : Prop) : Prop :=
  (∃ header, header ∈ layout ∧ header.1 + 8 ≤ stream.length ∧ sizeAt stream header.1 ≠ header.2) ∨
  (poolEnd ≤ stream.length ∧ ¬given) ∨ scriptEnd ≤ stream.length

theorem Ending.isSome_iff {stream : List (BitVec 8)} {fdsBy : Nat → List Nat}
    {outcome : Outcome Effect Exit} (ending : Ending stream fdsBy outcome) :
    outcome.value.isSome = true ↔ Stops stream ((fdsBy poolEnd)[0]? ≠ none) := by
  cases ending with
  | waits value nothing short followed given =>
      rw [value]
      refine ⟨fun isSome => (by cases isSome), ?_⟩
      rintro (⟨header, mem, there, differs⟩ | ⟨there, missing⟩ | whole)
      · exact absurd (followed header mem there) differs
      · exact absurd (given there) missing
      · omega
  | wrong step value nothing header mem there differs =>
      rw [value]
      exact ⟨fun _ => Or.inl ⟨header, mem, there, differs⟩, fun _ => rfl⟩
  | noPool value nothing pos there missing =>
      rw [value]
      exact ⟨fun _ => Or.inr (Or.inl ⟨there, not_not_intro missing⟩), fun _ => rfl⟩
  | committed fd value closed scripted given =>
      rw [value]
      exact ⟨fun _ => Or.inr (Or.inr scripted.1), fun _ => rfl⟩

end MachaOS.Wayland
