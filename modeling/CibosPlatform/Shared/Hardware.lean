/- source: shared/src/types/hardware.rs
   digest: Architectures, platforms, core topology and physical memory regions. -/

import CibosPlatform.Core.MachineWord
import CibosPlatform.Shared.Error

namespace CibosPlatform.Shared.Hardware

open Core.MachineWord Error Serialization

inductive ProcessorArchitecture where
  | x86_64
  | aarch64
  | x86
  | riscv64
  deriving DecidableEq

instance : WireEnum ProcessorArchitecture where
  field := "ProcessorArchitecture"
  asU32
    | .x86_64 => 1
    | .aarch64 => 2
    | .x86 => 3
    | .riscv64 => 4
  values := [.x86_64, .aarch64, .x86, .riscv64]
  complete a := by cases a <;> decide
  injective a b h := by cases a <;> cases b <;> first | rfl | cases h

inductive HardwarePlatform where
  | desktop
  | laptop
  | server
  | mobile
  | tablet
  | embedded
  deriving DecidableEq

instance : WireEnum HardwarePlatform where
  field := "HardwarePlatform"
  asU32
    | .desktop => 1
    | .laptop => 2
    | .server => 3
    | .mobile => 4
    | .tablet => 5
    | .embedded => 6
  values := [.desktop, .laptop, .server, .mobile, .tablet, .embedded]
  complete a := by cases a <;> decide
  injective a b h := by cases a <;> cases b <;> first | rfl | cases h

structure CoreTopology where
  physicalCores : Nat
  logicalCores : Nat
  smtEnabled : Bool

def CoreTopology.new (physicalCores logicalCores : Nat) (smtEnabled : Bool) :
    Except HardwareError CoreTopology :=
  if physicalCores = 0 then .error (.initializationFailed "core_topology" (-1))
  else if logicalCores < physicalCores then .error (.initializationFailed "core_topology" (-2))
  else if smtEnabled = false ∧ logicalCores ≠ physicalCores then
    .error (.initializationFailed "core_topology" (-3))
  else .ok ⟨physicalCores, logicalCores, smtEnabled⟩

structure HardwareProfile where
  architecture : ProcessorArchitecture
  platform : HardwarePlatform
  topology : CoreTopology
  totalMemory : Nat

inductive MemoryRegionKind where
  | usable
  | firmwareReserved
  | laneReserved
  | deviceMmio
  | bad
  deriving DecidableEq

instance : WireEnum MemoryRegionKind where
  field := "MemoryRegionKind"
  asU32
    | .usable => 1
    | .firmwareReserved => 2
    | .laneReserved => 3
    | .deviceMmio => 4
    | .bad => 5
  values := [.usable, .firmwareReserved, .laneReserved, .deviceMmio, .bad]
  complete a := by cases a <;> decide
  injective a b h := by cases a <;> cases b <;> first | rfl | cases h

structure MemoryRegion where
  base : Nat
  length : Nat
  kind : MemoryRegionKind
  base_lt : base < wordBound := by decide
  length_lt : length < wordBound := by decide

def MemoryRegion.endAddr (profile : BuildProfile) (region : MemoryRegion) : Option Nat :=
  addWord profile region.base region.length

/-- The end of the region fits a word, so that computing it neither panics nor wraps. -/
def MemoryRegion.EndFits (region : MemoryRegion) : Prop := region.base + region.length < wordBound

def MemoryRegion.Covers (region : MemoryRegion) (addr : Nat) : Prop :=
  region.base ≤ addr ∧ addr < region.base + region.length

instance (region : MemoryRegion) : Decidable region.EndFits := inferInstanceAs (Decidable (_ < _))

instance (region : MemoryRegion) (addr : Nat) : Decidable (region.Covers addr) :=
  inferInstanceAs (Decidable (_ ∧ _))

theorem MemoryRegion.endAddr_eq (profile : BuildProfile) {region : MemoryRegion}
    (fits : region.EndFits) : region.endAddr profile = some (region.base + region.length) :=
  addWord_of_lt profile fits

end CibosPlatform.Shared.Hardware
