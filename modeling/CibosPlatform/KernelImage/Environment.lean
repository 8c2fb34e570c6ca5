/- source: kernel-image/src/boot.rs
   digest: The environment of the dispatcher: raw user copies, the handle table and the network. -/

import CibosPlatform.Kernel.Syscall.Dispatch
import CibosPlatform.KernelImage.Table

/-! User memory is copied through the map that is active, whatever the calling boundary has mapped. The
services other than channels and gates (files, keyboard, random numbers, clock, console) are left open. -/

namespace CibosPlatform.KernelImage.Environment

open Core Interaction LittleEndian MachineWord
open Kernel.Syscall.Dispatch (EnvCall Answer)
open UdpTransport (NetDevice World)
open Table Shared Error Ipc SyscallAbi

abbrev Ram := Nat → Byte

def refusal (ptr : Word) (len : Nat) : Option SyscallError :=
  if ptr = 0 then some .badAddress
  else if wordBound ≤ ptr.toNat + len then some .invalidArgument
  else none

variable (ram : Ram)

def readRam (ptr : Word) (len : Nat) : Vector Byte len := Vector.ofFn fun i => ram (ptr.toNat + i)

def writeRam (ptr : Word) (bytes : List Byte) : Ram := fun addr =>
  if ptr.toNat ≤ addr then (bytes[addr - ptr.toNat]?).getD (ram addr) else ram addr

def copyFromUser (ptr : Word) (len : Nat) : Except SyscallError (Vector Byte len) :=
  match refusal ptr len with
  | some e => .error e
  | none => .ok (readRam ram ptr len)

def copyToUser (ptr : Word) (bytes : List Byte) : Except SyscallError Unit × Ram :=
  match refusal ptr bytes.length with
  | some e => (.error e, ram)
  | none => (.ok (), writeRam ram ptr bytes)

def withUserCopies {ρ : Type} (services : Env EnvCall Answer ρ) : Env EnvCall Answer (Ram × ρ)
  | .alloc _, s => some ((), s)
  | .copyFromUser _ ptr len, s => some (copyFromUser s.1 ptr len, s)
  | .copyToUser _ ptr bytes, s => some ((copyToUser s.1 ptr bytes).1, (copyToUser s.1 ptr bytes).2, s.2)
  | q, s => (services q s.2).map fun r => (r.1, s.1, r.2)

def inRegister (r : Except SyscallError Nat) : Except SyscallError Word := r.map (BitVec.ofNat 64)

section

variable {K δ ρ : Type} [KernelInterface K] (dev : NetDevice δ)

def withHandleTable (build : BuildProfile) (lane : LaneId) (services : Env EnvCall Answer ρ) :
    Env EnvCall Answer (ChannelHandleTable K × World δ × ρ)
  | .openChannel boundary capacity maxMessageBytes, s =>
    (s.1.openChannel build boundary capacity maxMessageBytes).map fun r => (inRegister r.1, r.2, s.2)
  | .channelSend boundary handle data, s =>
    let r := s.1.channelSend boundary handle.toNat lane data
    some (r.1, r.2, s.2)
  | .channelRecv boundary handle, s =>
    let r := s.1.channelRecv boundary handle.toNat lane
    some (r.1, r.2, s.2)
  | .requestChannel requester target terms, s =>
    (s.1.requestChannel build requester target terms).map fun r => (inRegister r.1, r.2, s.2)
  | .pollChannelRequest target, s =>
    some ((s.1.pollChannelRequest target (List.replicate channelRequestWireLen 0)).map fun r =>
      (BitVec.ofNat 64 r.1, Vector.ofFn fun i => (r.2[i.val]?).getD 0), s)
  | .acceptChannel target id, s =>
    (s.1.acceptChannel build target id.toNat).map fun r => (inRegister r.1, r.2, s.2)
  | .rejectChannel target id, s =>
    let r := s.1.rejectChannel target id.toNat
    some (r.1, r.2, s.2)
  | .pollChannelOutcome requester id, s =>
    let r := s.1.pollChannelOutcome requester id.toNat
    some (inRegister r.1, r.2, s.2)
  | .gateBind owner gate, s =>
    let r := s.1.gateBind owner gate
    some (inRegister r.1, r.2, s.2)
  | .gateConnect source gate, s =>
    (s.1.gateConnect build source gate).map fun r => (inRegister r.1, r.2, s.2)
  | .gateAccept owner gate, s =>
    (s.1.gateAccept build owner gate).map fun r => (inRegister r.1, r.2, s.2)
  | .linkSend boundary handle data, s =>
    (s.1.linkSend boundary dev handle.toNat lane data s.2.1).map fun r => (r.1, r.2.1, r.2.2, s.2.2)
  | .linkRecv boundary handle, s =>
    (s.1.linkRecv boundary dev handle.toNat lane s.2.1).map fun r => (r.1, r.2.1, r.2.2, s.2.2)
  | .linkClose boundary handle, s =>
    let r := s.1.linkClose boundary handle.toNat
    some (r.1, r.2, s.2)
  | .wardenSet _ gate allow, s => some (.ok (), s.1.wardenSet gate allow, s.2)
  | .gateProbe _ gate, s => some (.ok (BitVec.ofNat 64 (s.1.gateProbe gate)), s)
  | q, s => (services q s.2.2).map fun r => (r.1, s.1, s.2.1, r.2)

def kernelSyscallEnv (build : BuildProfile) (lane : LaneId) (services : Env EnvCall Answer ρ) :
    Env EnvCall Answer (Ram × ChannelHandleTable K × World δ × ρ) :=
  withUserCopies (withHandleTable dev build lane services)

end

theorem refusal_eq_none {ptr : Word} {len : Nat} :
    refusal ptr len = none ↔ ptr ≠ 0 ∧ ptr.toNat + len < wordBound := by
  unfold refusal
  split
  · rename_i hnull
    exact ⟨nofun, fun h => absurd hnull h.1⟩
  · rename_i hnull
    split
    · rename_i hlong
      exact ⟨nofun, fun h => absurd h.2 (not_lt.mpr hlong)⟩
    · rename_i hfits
      exact ⟨fun _ => ⟨hnull, not_le.mp hfits⟩, fun _ => rfl⟩

theorem refusal_error {ptr : Word} {len : Nat} {e : SyscallError} (h : refusal ptr len = some e) :
    e = .badAddress ∨ e = .invalidArgument := by
  unfold refusal at h
  split at h
  · exact .inl (Option.some.inj h).symm
  · split at h
    · exact .inr (Option.some.inj h).symm
    · cases h

end CibosPlatform.KernelImage.Environment
