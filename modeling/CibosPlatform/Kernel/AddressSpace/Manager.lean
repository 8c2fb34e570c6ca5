/- source: cibos-kernel/src/address_space.rs
   digest: One address space per isolation boundary, over one frame allocator. -/

import CibosPlatform.Kernel.Paging.Tables
import Mathlib.Logic.Function.Basic

namespace CibosPlatform.Kernel.AddressSpace.Manager

open Core MachineWord Program Frame.Allocator Paging.Tables Prog

structure BoundaryId where
  raw : UInt64
  deriving DecidableEq

structure BoundarySpace where
  root : PhysFrame
  mappedFrames : List PhysFrame

structure AddressSpaceManager where
  machine : Machine
  spaces : BoundaryId → Option BoundarySpace

namespace AddressSpaceManager

def new (machine : Machine) : AddressSpaceManager where
  machine := machine
  spaces _ := none

def onMachine {α : Type} (call : OnMachine α) : Prog AddressSpaceManager KernelError α :=
  fun s => ((call s.machine).1, { s with machine := (call s.machine).2 })

def pushFrame (s : AddressSpaceManager) (boundary : BoundaryId) (frame : PhysFrame) :
    AddressSpaceManager :=
  { s with
    spaces := Function.update s.spaces boundary ((s.spaces boundary).map fun b =>
      { b with mappedFrames := b.mappedFrames ++ [frame] }) }

end AddressSpaceManager

open AddressSpaceManager

def createSpace (boundary : BoundaryId) : Prog AddressSpaceManager KernelError Unit := do
  let existing ← gets fun s => s.spaces boundary
  rejectIf existing.isSome (.invalidState "boundary already has an address space")
  let root ← onMachine newRoot
  update fun s =>
    { s with
      spaces := Function.update s.spaces boundary (some { root := root, mappedFrames := [] }) }

def mapNewPage (profile : BuildProfile) (E : PageTableEncoder) (boundary : BoundaryId)
    (root : PhysFrame) (virt : Nat) (perms : Permissions) (i : Nat) :
    Prog AddressSpaceManager KernelError Unit := do
  let frame ← onMachine allocateZeroed
  let v ← orPanic (pageAddr profile virt i)
  onMachine (map E root v frame perms)
  update fun s => s.pushFrame boundary frame

def mapNewPages (profile : BuildProfile) (E : PageTableEncoder) (boundary : BoundaryId)
    (virt count : Nat) (perms : Permissions) : Prog AddressSpaceManager KernelError Unit := do
  match ← gets fun s => s.spaces boundary with
  | none => fail .unknownContainer
  | some b => forEach (upTo 0 count) (mapNewPage profile E boundary b.root virt perms)

/-- Tear a space down. Its page-table frames stay reserved. -/
def destroySpace (boundary : BoundaryId) : Prog AddressSpaceManager KernelError Unit := do
  match ← gets fun s => s.spaces boundary with
  | none => fail .unknownContainer
  | some b => do
    update fun s => { s with spaces := Function.update s.spaces boundary none }
    forEach b.mappedFrames fun frame => onMachine (Machine.onFrames (free frame))

variable (E : PageTableEncoder)

def translate (s : AddressSpaceManager) (boundary : BoundaryId) (virt : Nat) : Option Nat :=
  (s.spaces boundary).bind fun b => Paging.Tables.translate E s.machine.mem b.root virt

inductive Call where
  | createSpace (boundary : BoundaryId)
  | mapNewPages (profile : BuildProfile) (boundary : BoundaryId) (virt count : Nat)
      (perms : Permissions)
  | destroySpace (boundary : BoundaryId)

def Call.exec : Call → Prog AddressSpaceManager KernelError Unit
  | .createSpace boundary => Manager.createSpace boundary
  | .mapNewPages profile boundary virt count perms =>
    Manager.mapNewPages profile E boundary virt count perms
  | .destroySpace boundary => Manager.destroySpace boundary

def Returns {σ : Type} (call : Prog σ KernelError Unit) (s s' : σ) : Prop :=
  call s = (.ok (), s') ∨ ∃ e, call s = (.err e, s')

def Step (s s' : AddressSpaceManager) : Prop := ∃ call : Call, Returns (call.exec E) s s'

end CibosPlatform.Kernel.AddressSpace.Manager
