/- source: kernel-image/src/arch/paging.rs
   digest: The x86_64 entry format meets the page-table contract below 2^52. -/

import CibosPlatform.Kernel.Paging.Space

namespace CibosPlatform.Kernel.Paging.X86

open Core.MachineWord Frame.Accounting Frame.Allocator Space
open Tables BitVec

def present : Entry := 1 <<< 0
def writable : Entry := 1 <<< 1
def userBit : Entry := 1 <<< 2
def pwt : Entry := 1 <<< 3
def pcd : Entry := 1 <<< 4
def pageSizePs : Entry := 1 <<< 7
def noExecute : Entry := 1 <<< 63

def addrMask : Entry := 0x000FFFFFFFFFF000

def withPermissions (perms : Permissions) (e : Entry) : Entry :=
  let e := if perms.write then e ||| writable else e
  let e := if perms.user then e ||| userBit else e
  let e := if perms.execute then e else e ||| noExecute
  if perms.device then e ||| (pwt ||| pcd) else e

def x86PageTable : PageTableEncoder where
  encodeTable child := (BitVec.ofNat 64 child.addr &&& addrMask) ||| present ||| writable ||| userBit
  encodeLeaf frame perms :=
    withPermissions perms ((BitVec.ofNat 64 frame.addr &&& addrMask) ||| present)
  encodeBlockLeaf frame perms _ :=
    withPermissions perms ((BitVec.ofNat 64 frame.addr &&& addrMask) ||| present ||| pageSizePs)
  isPresent entry := entry &&& present != 0
  isBlockLeaf entry _ := (entry &&& present != 0) && (entry &&& pageSizePs != 0)
  entryFrame entry := PhysFrame.containing (entry &&& addrMask).toNat

def Addressable (frame : PhysFrame) : Prop := frame.addr < 2 ^ 52

instance (frame : PhysFrame) : Decidable (Addressable frame) := inferInstanceAs (Decidable (_ < _))

private theorem mask_addr {frame : PhysFrame} (h : Addressable frame) :
    BitVec.ofNat 64 frame.addr &&& addrMask = BitVec.ofNat 64 frame.addr := by
  have hmask : ∀ i < 64, addrMask.getLsbD i = decide (12 ≤ i ∧ i < 52) := by decide
  apply eq_of_getLsbD_eq
  intro i hi
  rw [getLsbD_and, hmask i hi, getLsbD_ofNat]
  by_cases hlow : i < 12
  · have hbit : frame.addr.testBit i = false := by
      have haligned := frame.aligned
      obtain ⟨a, ha⟩ := Nat.dvd_of_mod_eq_zero haligned
      rw [ha, show frameSize = 2 ^ 12 from rfl, Nat.testBit_two_pow_mul]
      simp [not_le.mpr hlow]
    simp [hbit]
  · by_cases hhigh : i < 52
    · simp [hhigh, not_lt.mp hlow]
    · have hbit : frame.addr.testBit i = false := by
        refine Nat.testBit_lt_two_pow (h.trans_le ?_)
        exact Nat.pow_le_pow_right (by decide) (by omega)
      simp [hbit]

private theorem or_and (x y z : Entry) : (x ||| y) &&& z = (x &&& z) ||| (y &&& z) := by
  ext i hi
  simp only [getElem_and, getElem_or]
  exact Bool.and_or_distrib_right ..

private theorem frame_of_flags {frame : PhysFrame} (h : Addressable frame) {flags : Entry}
    (outside : flags &&& addrMask = 0) :
    PhysFrame.containing
      (((BitVec.ofNat 64 frame.addr &&& addrMask) ||| flags) &&& addrMask).toNat = frame := by
  have hfield : ((BitVec.ofNat 64 frame.addr &&& addrMask) ||| flags) &&& addrMask =
      BitVec.ofNat 64 frame.addr := by
    rw [mask_addr h]
    rw [or_and, outside, mask_addr h]
    simp
  have hlt := frame.addr_lt
  have haligned := frame.aligned
  rw [hfield]
  ext
  simp only [PhysFrame.containing, toNat_ofNat, frameSize, wordBound] at *
  omega

private theorem bit_of_flags {base flags bit : Entry} (h : flags &&& bit ≠ 0) :
    (((base ||| flags) &&& bit) != 0) = true := by
  rw [bne_iff_ne, or_and]
  intro hzero
  exact h (or_eq_zero_iff.mp hzero).2

private theorem no_bit_of_flags {addr flags bit : Entry} (field : addrMask &&& bit = 0)
    (h : flags &&& bit = 0) : ((((addr &&& addrMask) ||| flags) &&& bit) != 0) = false := by
  rw [bne_eq_false_iff_eq, or_and, BitVec.and_assoc, field, h]
  simp

variable (perms : Permissions)

private theorem withPermissions_eq (base flags : Entry) :
    withPermissions perms (base ||| flags) = base ||| withPermissions perms flags := by
  unfold withPermissions
  cases perms.write <;> cases perms.user <;> cases perms.execute <;> cases perms.device <;>
    simp [BitVec.or_assoc]

private theorem permissions_outside {flags : Entry} (outside : flags &&& addrMask = 0) :
    withPermissions perms flags &&& addrMask = 0 := by
  have hbits : writable &&& addrMask = 0 ∧ userBit &&& addrMask = 0 ∧ noExecute &&& addrMask = 0 ∧
      pwt &&& addrMask = 0 ∧ pcd &&& addrMask = 0 := by decide
  obtain ⟨hw, hu, hx, ht, hc⟩ := hbits
  unfold withPermissions
  cases perms.write <;> cases perms.user <;> cases perms.execute <;> cases perms.device <;>
    simp only [Bool.false_eq_true, if_false, if_true, or_and, outside, hw, hu, hx, ht, hc,
      BitVec.or_self]

private theorem permissions_bit {flags bit : Entry} (h : flags &&& bit ≠ 0) :
    withPermissions perms flags &&& bit ≠ 0 := by
  intro hzero
  have hsplit : withPermissions perms flags = withPermissions perms 0 ||| flags := by
    have hcomm := withPermissions_eq perms flags 0
    rw [BitVec.or_comm]
    simpa using hcomm
  rw [hsplit, or_and] at hzero
  exact h (or_eq_zero_iff.mp hzero).2

private theorem encodeBlockLeaf_eq (frame : PhysFrame) (perms : Permissions) (level : Nat) :
    x86PageTable.encodeBlockLeaf frame perms level = (BitVec.ofNat 64 frame.addr &&& addrMask) |||
      withPermissions perms (present ||| pageSizePs) := by
  change withPermissions perms (_ ||| present ||| pageSizePs) = _
  rw [BitVec.or_assoc, withPermissions_eq]

private theorem flag_of_entry {addr flags bit : Entry} (field : addrMask &&& bit = 0) :
    ((addr &&& addrMask) ||| flags) &&& bit = flags &&& bit := by
  rw [or_and, BitVec.and_assoc, field]
  simp

variable (f : PhysFrame)

theorem encodeTable_flags :
    x86PageTable.encodeTable f &&& userBit ≠ 0 ∧ x86PageTable.encodeTable f &&& writable ≠ 0 ∧
      x86PageTable.encodeTable f &&& noExecute = 0 := by
  simp only [x86PageTable, BitVec.or_assoc]
  rw [flag_of_entry (by decide), flag_of_entry (by decide), flag_of_entry (by decide)]
  decide

theorem encodeLeaf_flags (perms : Permissions) :
    (x86PageTable.encodeLeaf f perms &&& userBit != 0) = perms.user ∧
      (x86PageTable.encodeLeaf f perms &&& writable != 0) = perms.write ∧
      (x86PageTable.encodeLeaf f perms &&& noExecute == 0) = perms.execute := by
  simp only [x86PageTable, withPermissions_eq]
  rw [flag_of_entry (by decide), flag_of_entry (by decide), flag_of_entry (by decide)]
  obtain ⟨read, write, execute, user, device⟩ := perms
  cases read <;> cases write <;> cases execute <;> cases user <;> cases device <;> decide

theorem x86_faithful : Faithful x86PageTable Addressable where
  zero_absent := by decide
  table_present := by
    intro f hf
    simp only [x86PageTable, BitVec.or_assoc]
    exact bit_of_flags (by decide)
  table_frame := by
    intro f hf
    simp only [x86PageTable, BitVec.or_assoc]
    exact frame_of_flags hf (by decide)
  table_not_block := by
    intro f level hf
    have hflags : (present ||| (writable ||| userBit)) &&& pageSizePs = 0 := by decide
    simp only [x86PageTable, BitVec.or_assoc]
    rw [no_bit_of_flags (by decide) hflags, Bool.and_false]
  leaf_present := by
    intro f perms hf
    simp only [x86PageTable, withPermissions_eq]
    exact bit_of_flags (permissions_bit perms (by decide))
  leaf_frame := by
    intro f perms hf
    simp only [x86PageTable, withPermissions_eq]
    exact frame_of_flags hf (permissions_outside perms (by decide))
  block_present := by
    intro f perms level hf
    rw [encodeBlockLeaf_eq]
    exact bit_of_flags (permissions_bit perms (by decide))
  block_frame := by
    intro f perms level hf
    rw [encodeBlockLeaf_eq]
    exact frame_of_flags hf (permissions_outside perms (by decide))
  block_is_block := by
    intro f perms level hf
    rw [encodeBlockLeaf_eq]
    apply Bool.and_eq_true_iff.mpr
    exact ⟨bit_of_flags (permissions_bit perms (by decide)),
      bit_of_flags (permissions_bit perms (by decide))⟩

def blankMachine : Machine where
  mem _ _ := 0
  frames := { bitmap := [0], frameCount := 64, allocated := 0, usable := 64, nextHint := 0 }

theorem blankMachine_built : fromRegions .dev [⟨0, 64 * frameSize, .usable, by decide, by decide⟩] 0 =
    some blankMachine.frames := by decide +kernel

theorem blankMachine_wf : Wf blankMachine.frames := by
  obtain ⟨s, hbuild, wf, -⟩ := fromRegions_spec .dev
    [⟨0, 64 * frameSize, .usable, by decide, by decide⟩] 0 (by decide)
  obtain rfl : s = blankMachine.frames := Option.some.inj (hbuild.symm.trans blankMachine_built)
  exact wf

theorem blankMachine_addressable (h : f.index < blankMachine.frames.frameCount) :
    Addressable f := by
  change f.addr / 4096 < 64 at h
  change f.addr < 2 ^ 52
  omega

end CibosPlatform.Kernel.Paging.X86
