/- source: cibos-kernel/src/block.rs, cibos-kernel/src/fs.rs
   digest: Block devices, what it means for one to be free of faults, and a disk in memory. -/

import CibosPlatform.Core.Endian
import CibosPlatform.Core.MachineWord
import CibosPlatform.Core.Program
import Mathlib.Logic.Function.Basic

/-! Every access is to one block. A read takes the device by shared reference and is a function of its state.
-/

namespace CibosPlatform.Kernel.Cibosfs.Device

open Core LittleEndian MachineWord Program Function

abbrev blockBytes : Nat := 512

inductive BlockError where
  | outOfRange
  | badBuffer
  | deviceError
  | timeout
  | readOnly
  deriving DecidableEq

class BlockDevice (D : Type) where
  blockCount : D → Nat
  readBlock : D → Nat → Except BlockError (List Byte)
  writeBlock : Nat → List Byte → Prog D BlockError Unit

export BlockDevice (blockCount)

structure FaultFree (D : Type) [BlockDevice D] : Prop where
  count_lt : ∀ d : D, blockCount d < wordBound
  read : ∀ (d : D) (lba : Nat), lba < blockCount d →
    ∃ bytes, BlockDevice.readBlock d lba = .ok bytes ∧ bytes.length = blockBytes
  write : ∀ (d : D) (lba : Nat) (bytes : List Byte), lba < blockCount d → bytes.length = blockBytes →
    ∃ d', BlockDevice.writeBlock lba bytes d = (.ok (), d') ∧ blockCount d' = blockCount d ∧
      ∀ l, l < blockCount d → BlockDevice.readBlock d' l =
        if l = lba then .ok bytes else BlockDevice.readBlock d l

def checkRange (total lba len : Nat) : Except BlockError Unit :=
  if len ≠ blockBytes then .error .badBuffer
  else if wordBound ≤ lba + 1 then .error .outOfRange
  else if total < lba + 1 then .error .outOfRange
  else .ok ()

theorem checkRange_ok {total lba len : Nat} (count : total < wordBound) (inside : lba < total)
    (whole : len = blockBytes) : checkRange total lba len = .ok () := by
  rw [checkRange, if_neg (by omega), if_neg (by omega), if_neg (by omega)]

structure RamDisk where
  blocks : Nat → List Byte
  count : Nat
  whole : ∀ lba, (blocks lba).length = blockBytes
  count_lt : count < wordBound

namespace RamDisk

def new (count : Nat) (h : count < wordBound) : RamDisk where
  blocks _ := List.replicate blockBytes 0
  count := count
  whole _ := List.length_replicate
  count_lt := h

def store (disk : RamDisk) (lba : Nat) (bytes : List Byte) (h : bytes.length = blockBytes) : RamDisk where
  blocks := update disk.blocks lba bytes
  count := disk.count
  whole l := by
    by_cases hl : l = lba
    · rw [hl, update_self]
      exact h
    · rw [update_of_ne hl]
      exact disk.whole l
  count_lt := disk.count_lt

instance : BlockDevice RamDisk where
  blockCount disk := disk.count
  readBlock disk lba :=
    match checkRange disk.count lba blockBytes with
    | .ok _ => .ok (disk.blocks lba)
    | .error e => .error e
  writeBlock lba bytes := fun disk =>
    match checkRange disk.count lba bytes.length with
    | .error e => (.err e, disk)
    | .ok _ =>
      if h : bytes.length = blockBytes then (.ok (), disk.store lba bytes h)
      else (.err .badBuffer, disk)

theorem faultFree : FaultFree RamDisk where
  count_lt disk := disk.count_lt
  read := by
    intro disk lba hlba
    refine ⟨disk.blocks lba, ?_, disk.whole lba⟩
    simp only [BlockDevice.readBlock, checkRange_ok disk.count_lt hlba rfl]
  write := by
    intro disk lba bytes hlba hwhole
    refine ⟨disk.store lba bytes hwhole, ?_, rfl, ?_⟩
    · simp only [BlockDevice.writeBlock, checkRange_ok disk.count_lt hlba hwhole, dif_pos hwhole]
    · intro l hl
      have hcount : (disk.store lba bytes hwhole).count = disk.count := rfl
      have hblocks : (disk.store lba bytes hwhole).blocks l = update disk.blocks lba bytes l := rfl
      simp only [BlockDevice.readBlock, hcount, hblocks, checkRange_ok disk.count_lt hl rfl]
      by_cases hsame : l = lba
      · rw [if_pos hsame, hsame, update_self]
      · rw [if_neg hsame, update_of_ne hsame]

end RamDisk

end CibosPlatform.Kernel.Cibosfs.Device
