/-
Kernel accesses to frames that the active table maps at their own addresses.

`Reaches good machine` says that the kernel reaches every frame of `good` there, and that nothing it
writes into these frames changes that.  Loads, stores and copies in such frames never fault and act on
the physical bytes themselves.
-/

import MachaOS.Paging.Editing

def ByteMemory.readBytes (mem : ByteMemory) (addr len : Nat) : List (BitVec 8) :=
  (List.range len).map (fun i => mem (addr + i))

theorem ByteMemory.length_readBytes (mem : ByteMemory) (addr len : Nat) :
    (mem.readBytes addr len).length = len := by
  rw [readBytes, List.length_map, List.length_range]

theorem ByteMemory.readBytes_succ (mem : ByteMemory) (addr len : Nat) :
    mem.readBytes addr (len + 1) = mem addr :: mem.readBytes (addr + 1) len := by
  have shifted : ∀ i, addr + (i + 1) = addr + 1 + i := by
    intro i
    omega
  unfold readBytes
  rw [List.range_succ_eq_map, List.map_cons, List.map_map]
  simp only [← shifted]
  rfl

namespace MachaOS.Machine

open Fallible Paging ByteMemory

def Reaches (good : Nat → Prop) (machine : Machine) : Prop :=
  ∀ mem, Space.AgreeOutside good machine.mem mem →
    ∀ addr, good (addr / 4096 * 4096) → { machine with mem }.resolve addr = some addr

/-- `from_raw_parts(address, len)`, read at once. -/
def loadBytes (addr : Nat) : Nat → Kernel (List (BitVec 8))
  | 0 => pure []
  | len + 1 => do
      let byte ← loadByte addr
      let later ← loadBytes (addr + 1) len
      pure (byte :: later)

variable {good : Nat → Prop} {machine : Machine}

namespace Reaches

theorem resolve (reaches : Reaches good machine) {addr : Nat}
    (inside : good (addr / 4096 * 4096)) : machine.resolve addr = some addr :=
  reaches machine.mem (Space.AgreeOutside.refl good machine.mem) addr inside

theorem write (reaches : Reaches good machine) {mem : ByteMemory}
    (agree : Space.AgreeOutside good machine.mem mem) : Reaches good { machine with mem } :=
  fun other later => reaches other (agree.trans later)

theorem mono {fewer : Nat → Prop} (reaches : Reaches good machine)
    (among : ∀ frame, fewer frame → good frame) : Reaches fewer machine :=
  fun mem agree addr inside => reaches mem (agree.mono among) addr (among _ inside)

theorem of_same {machine' : Machine} (reaches : Reaches good machine)
    (mem : machine'.mem = machine.mem) (cr3 : machine'.cr3 = machine.cr3) :
    Reaches good machine' := by
  intro other agree addr inside
  rw [mem] at agree
  have resolved := reaches other agree addr inside
  unfold Machine.resolve at resolved ⊢
  rw [cr3]
  exact resolved

theorem of_editing {reach : Nat → Prop} {space : Space} (editing : Editing reach space machine) :
    Reaches (fun frame => reach frame ∧ ¬ space.Owns frame) machine := by
  intro mem agree addr inside
  have edited : Editing reach space { machine with mem } :=
    editing.agree_outside rfl rfl agree (fun _ both => both.1) (fun _ both => both.2)
  have resolved := edited.resolve inside.1 (Nat.mod_lt addr (by decide : 4096 > 0))
  have whole : addr / 4096 * 4096 + addr % 4096 = addr := by omega
  rwa [whole] at resolved

theorem loadByte (reaches : Reaches good machine) {addr : Nat}
    (inside : good (addr / 4096 * 4096)) :
    Machine.loadByte addr machine = (.ok (machine.mem addr), machine) := by
  unfold Machine.loadByte
  rw [reaches.resolve inside]

theorem loadBytes (reaches : Reaches good machine) {addr len : Nat}
    (inside : ∀ frame, Touches addr len frame → good frame) :
    Machine.loadBytes addr len machine =
      (.ok (machine.mem.readBytes addr len), machine) := by
  induction len generalizing addr with
  | zero => rfl
  | succ len ih =>
      have first := reaches.loadByte (inside (addr / 4096 * 4096) ⟨0, Nat.succ_pos len, rfl⟩)
      have later := ih (fun frame touches => inside frame touches.later)
      rw [Machine.loadBytes, bind_of_ok first, bind_of_ok later, readBytes_succ]
      rfl

theorem copyBytes (reaches : Reaches good machine) {addr : Nat} {bytes : List (BitVec 8)}
    (inside : ∀ frame, Touches addr bytes.length frame → good frame) :
    Machine.copyBytes addr bytes machine =
        (.ok (), { machine with mem := machine.mem.writeBytes addr bytes }) ∧
      Reaches good { machine with mem := machine.mem.writeBytes addr bytes } := by
  apply @copyBytes_of_resolve (Reaches good) good
  · exact fun other holds at' here => Reaches.resolve holds here
  · intro other at' byte holds here
    apply holds.write
    apply (Space.agreeOutside_writeByte other.mem at' byte).mono
    rintro _ rfl
    exact here
  · exact reaches
  · exact inside

theorem zeroBytes (reaches : Reaches good machine) {addr len : Nat}
    (inside : ∀ frame, Touches addr len frame → good frame) :
    Machine.zeroBytes addr len machine =
        (.ok (), { machine with mem := machine.mem.writeBytes addr (List.replicate len 0#8) }) ∧
      Reaches good { machine with mem := machine.mem.writeBytes addr (List.replicate len 0#8) } := by
  rw [zeroBytes_eq_copyBytes]
  apply reaches.copyBytes
  rw [List.length_replicate]
  exact inside

theorem moveBytes (reaches : Reaches good machine) {source target len : Nat}
    (readable : ∀ frame, Touches source len frame → good frame)
    (writable : ∀ frame, Touches target len frame → good frame)
    (apart : source + len ≤ target ∨ target + len ≤ source) :
    Machine.moveBytes source target len machine =
        (.ok (), { machine with
          mem := machine.mem.writeBytes target (machine.mem.readBytes source len) }) ∧
      Reaches good { machine with
        mem := machine.mem.writeBytes target (machine.mem.readBytes source len) } := by
  induction len generalizing source target machine with
  | zero =>
      have nothing : machine.mem.readBytes source 0 = [] := rfl
      rw [nothing, writeBytes_nil]
      exact ⟨rfl, reaches⟩
  | succ len ih =>
      have here : good (target / 4096 * 4096) := writable _ ⟨0, Nat.succ_pos len, rfl⟩
      have loaded := reaches.loadByte (readable (source / 4096 * 4096) ⟨0, Nat.succ_pos len, rfl⟩)
      have stored : storeByte target (machine.mem source) machine =
          (.ok (), { machine with mem := machine.mem.writeByte target (machine.mem source) }) := by
        unfold storeByte
        rw [reaches.resolve here]
      have written : Reaches good
          { machine with mem := machine.mem.writeByte target (machine.mem source) } := by
        apply reaches.write
        apply (Space.agreeOutside_writeByte machine.mem target (machine.mem source)).mono
        rintro _ rfl
        exact here
      obtain ⟨ran, kept⟩ := @ih _ written (source + 1) (target + 1)
        (fun frame touches => readable frame touches.later)
        (fun frame touches => writable frame touches.later) (by omega)
      have bytes : (machine.mem.writeByte target (machine.mem source)).readBytes (source + 1) len =
          machine.mem.readBytes (source + 1) len := by
        apply List.map_congr_left
        intro i member
        rw [List.mem_range] at member
        exact if_neg (by omega)
      rw [readBytes_succ, writeBytes_cons, Machine.moveBytes, bind_of_ok loaded,
        bind_of_ok stored, ← bytes]
      exact ⟨ran, kept⟩

end Reaches

end MachaOS.Machine
