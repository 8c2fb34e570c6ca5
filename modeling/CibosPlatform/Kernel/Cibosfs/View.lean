/- source: cibos-kernel/src/fs.rs
   digest: A volume as inodes, bits and data blocks, and the device that stores it. -/

import CibosPlatform.Core.WordBitmap
import CibosPlatform.Kernel.Cibosfs.Disk
import CibosPlatform.Kernel.Cibosfs.Transport

/-! On a volume whose regions do not overlap the operations are run on maps of inodes, bits and data. The maps
panic where the device would leave a region, so a run that does not panic is one the device makes as well. -/

namespace CibosPlatform.Kernel.Cibosfs.View

open List Option Function Nat
open Core LittleEndian MachineWord Program Prog Device
open Disk Layout Operations Transport WordBitmap

structure Volume where
  sb : Superblock
  inodes : Nat → Inode
  bits : Nat → Bool
  data : Nat → List Byte

def InData (sb : Superblock) (lba : Nat) : Prop := sb.dataStart ≤ lba ∧ lba < sb.dataStart + sb.dataBlocks

instance (sb : Superblock) (lba : Nat) : Decidable (InData sb lba) :=
  inferInstanceAs (Decidable (_ ∧ _))

theorem InData.index {sb : Superblock} {p : Nat} (h : InData sb p) :
    p - sb.dataStart < sb.dataBlocks ∧ sb.dataStart + (p - sb.dataStart) = p := by
  obtain ⟨hlow, hhigh⟩ := h
  omega

instance (inode : Inode) : Decidable inode.Fits :=
  decidable_of_iff (inode.kind < 2 ^ 32 ∧ inode.size < 2 ^ 64 ∧ inode.direct.length = directBlocks ∧
    ∀ p ∈ inode.direct, p < 2 ^ 64)
    ⟨fun h => ⟨h.1, h.2.1, h.2.2.1, h.2.2.2⟩, fun h => ⟨h.kind, h.size, h.direct, h.pointers⟩⟩

namespace Volume

def setInode (v : Volume) (ino : Nat) (inode : Inode) : Volume :=
  { v with inodes := Function.update v.inodes ino inode }

def setBit (v : Volume) (i : Nat) (value : Bool) : Volume :=
  { v with bits := Function.update v.bits i value }

def setData (v : Volume) (lba : Nat) (bytes : List Byte) : Volume :=
  { v with data := Function.update v.data lba bytes }

def readInode (ino : Nat) : Prog Volume FsError Inode := fun v =>
  if ino < v.sb.inodeCount then (.ok (v.inodes ino), v) else (.err .notFound, v)

def writeInode (ino : Nat) (inode : Inode) : Prog Volume FsError Unit := fun v =>
  if ino < v.sb.inodeCount then
    if inode.Fits then (.ok (), v.setInode ino inode) else (.panic, v)
  else (.err .notFound, v)

def bitGet (i : Nat) : Prog Volume FsError Bool := fun v =>
  if i < v.sb.dataBlocks then (.ok (v.bits i), v) else (.panic, v)

def bitSet (i : Nat) (value : Bool) : Prog Volume FsError Unit := fun v =>
  if i < v.sb.dataBlocks then (.ok (), v.setBit i value) else (.panic, v)

def readBlock (lba : Nat) : Prog Volume FsError (List Byte) := fun v =>
  if InData v.sb lba then (.ok (v.data lba), v) else (.panic, v)

def writeBlock (lba : Nat) (bytes : List Byte) : Prog Volume FsError Unit := fun v =>
  if InData v.sb lba ∧ bytes.length = blockBytes then (.ok (), v.setData lba bytes) else (.panic, v)

def medium (profile : BuildProfile) : Medium Volume where
  profile := profile
  superblock := sb
  readInode := readInode
  writeInode := writeInode
  bitGet := bitGet
  bitSet := bitSet
  readBlock := readBlock
  writeBlock := writeBlock

section

variable (profile : BuildProfile) {v : Volume} {ino i lba : Nat} {inode : Inode} {bytes : List Byte}

theorem medium_profile : (medium profile).profile = profile := rfl

theorem medium_superblock (v : Volume) : (medium profile).superblock v = v.sb := rfl

theorem readInode_run (h : ino < v.sb.inodeCount) :
    (medium profile).readInode ino v = (.ok (v.inodes ino), v) := if_pos h

theorem writeInode_run (h : ino < v.sb.inodeCount) (fits : inode.Fits) :
    (medium profile).writeInode ino inode v = (.ok (), v.setInode ino inode) :=
  (if_pos h).trans (if_pos fits)

theorem writeInode_missing (h : ¬ ino < v.sb.inodeCount) :
    (medium profile).writeInode ino inode v = (.err .notFound, v) := if_neg h

theorem bitGet_run (h : i < v.sb.dataBlocks) : (medium profile).bitGet i v = (.ok (v.bits i), v) := if_pos h

theorem bitSet_run (h : i < v.sb.dataBlocks) (value : Bool) :
    (medium profile).bitSet i value v = (.ok (), v.setBit i value) := if_pos h

theorem readBlock_run (h : InData v.sb lba) :
    (medium profile).readBlock lba v = (.ok (v.data lba), v) := if_pos h

theorem writeBlock_run (h : InData v.sb lba) (whole : bytes.length = blockBytes) :
    (medium profile).writeBlock lba bytes v = (.ok (), v.setData lba bytes) := if_pos ⟨h, whole⟩

end

end Volume

open Volume

/-- The regions follow each other up to the end of the device, the bitmap covers the data blocks and
the inode table has room for the inodes. -/
structure Geometry (sb : Superblock) : Prop where
  total_lt : sb.totalBlocks < wordBound
  count_lt : sb.inodeCount < 2 ^ 32
  bitmapStart : sb.bitmapStart = 1
  inodeStart : sb.inodeStart = 1 + sb.bitmapBlocks
  dataStart : sb.dataStart = sb.inodeStart + divCeil sb.inodeCount inodesPerBlock
  ends : sb.dataStart + sb.dataBlocks = sb.totalBlocks
  covered : sb.dataBlocks ≤ sb.bitmapBlocks * bitsPerBlock

def inodeBlock (sb : Superblock) (ino : Nat) : Nat := sb.inodeStart + ino / inodesPerBlock

def inodeOffset (ino : Nat) : Nat := ino % inodesPerBlock * inodeSize

def bitmapBlock (i : Nat) : Nat := 1 + i / bitsPerBlock

variable {i ino : Nat}

namespace Geometry

variable {sb : Superblock}

theorem fits (g : Geometry sb) : sb.Fits := by
  have htotal := g.total_lt
  have hbitmap := g.bitmapStart
  have hinode := g.inodeStart
  have hdata := g.dataStart
  have hends := g.ends
  simp only [wordBound] at htotal
  exact ⟨g.count_lt, htotal, by omega, by omega, by omega, by omega, by omega⟩

theorem inode_block (g : Geometry sb) (h : ino < sb.inodeCount) :
    sb.inodeStart ≤ inodeBlock sb ino ∧ inodeBlock sb ino < sb.dataStart := by
  have hblock : ino / inodesPerBlock < divCeil sb.inodeCount inodesPerBlock := by
    rw [lt_divCeil_iff (by decide)]
    exact lt_of_le_of_lt (div_mul_le_self _ _) h
  rw [g.dataStart, inodeBlock]
  exact ⟨le_add_right _ _, Nat.add_lt_add_left hblock _⟩

theorem bitmap_block (g : Geometry sb) (h : i < sb.dataBlocks) :
    1 ≤ bitmapBlock i ∧ bitmapBlock i < sb.inodeStart := by
  have hblock : i / bitsPerBlock < sb.bitmapBlocks :=
    (div_lt_iff_lt_mul (by decide)).mpr (h.trans_le g.covered)
  rw [g.inodeStart, bitmapBlock]
  exact ⟨le_add_right _ _, Nat.add_lt_add_left hblock _⟩

end Geometry

section

variable {D : Type} [BlockDevice D]

def contentsAt (dev : D) (lba : Nat) : List Byte :=
  match BlockDevice.readBlock dev lba with
  | .ok bytes => bytes
  | .error _ => []

variable {dev dev' : D} {lba : Nat} {bytes : List Byte}

theorem readBlock_eq (faultFree : FaultFree D) (h : lba < blockCount dev) :
    BlockDevice.readBlock dev lba = .ok (contentsAt dev lba) ∧
      (contentsAt dev lba).length = blockBytes := by
  obtain ⟨bytes, hread, hlength⟩ := faultFree.read dev lba h
  have hcontents : contentsAt dev lba = bytes := by rw [contentsAt, hread]
  rw [hcontents]
  exact ⟨hread, hlength⟩

structure Stored (dev dev' : D) (lba : Nat) (bytes : List Byte) : Prop where
  count : blockCount dev' = blockCount dev
  contents : ∀ l, l < blockCount dev → contentsAt dev' l = if l = lba then bytes else contentsAt dev l

theorem Stored.same (h : Stored dev dev' lba bytes) (inside : lba < blockCount dev) :
    contentsAt dev' lba = bytes := by
  rw [h.contents lba inside, if_pos rfl]

theorem Stored.other {l : Nat} (h : Stored dev dev' lba bytes) (inside : l < blockCount dev) (hne : l ≠ lba) :
    contentsAt dev' l = contentsAt dev l := by
  rw [h.contents l inside, if_neg hne]

theorem exists_stored (faultFree : FaultFree D) (inside : lba < blockCount dev)
    (whole : bytes.length = blockBytes) :
    ∃ dev', BlockDevice.writeBlock lba bytes dev = (.ok (), dev') ∧ Stored dev dev' lba bytes := by
  obtain ⟨dev', hwrite, hcount, hread⟩ := faultFree.write dev lba bytes inside whole
  refine ⟨dev', hwrite, hcount, ?_⟩
  intro l hl
  rw [contentsAt, hread l hl]
  by_cases hl : l = lba
  · rw [if_pos hl, if_pos hl]
  · rw [if_neg hl, if_neg hl, contentsAt]

structure Represents (fs : Fs D) (v : Volume) : Prop where
  sb : fs.sb = v.sb
  geometry : Geometry v.sb
  count : blockCount fs.dev = v.sb.totalBlocks
  superblock : ∃ tail, contentsAt fs.dev 0 = v.sb.bytes ++ tail
  fits : ∀ ino, ino < v.sb.inodeCount → (v.inodes ino).Fits
  inodes : ∀ ino, ino < v.sb.inodeCount → slice (contentsAt fs.dev (inodeBlock v.sb ino))
      (inodeOffset ino) inodeSize = (v.inodes ino).bytes
  bits : ∀ i, i < v.sb.dataBlocks →
    test (contentsAt fs.dev (bitmapBlock i)) (i % bitsPerBlock) = some (v.bits i)
  data : ∀ lba, InData v.sb lba → contentsAt fs.dev lba = v.data lba

variable {fs : Fs D} {v : Volume}

private theorem readBlocks_run (faultFree : FaultFree D) (inside : lba < blockCount fs.dev) :
    Fs.readBlocks lba fs = (.ok (contentsAt fs.dev lba), fs) := by
  rw [Fs.readBlocks, (readBlock_eq faultFree inside).1]

private theorem writeBlocks_run (faultFree : FaultFree D) (inside : lba < blockCount fs.dev)
    (whole : bytes.length = blockBytes) :
    ∃ dev', Fs.writeBlocks lba bytes fs = (.ok (), ⟨dev', fs.sb⟩) ∧ Stored fs.dev dev' lba bytes := by
  obtain ⟨dev', hwrite, hstored⟩ := exists_stored faultFree inside whole
  exact ⟨dev', by rw [Fs.writeBlocks, hwrite], hstored⟩

namespace Represents

variable (h : Represents fs v)

include h

theorem word_of_inside {n : Nat} (hn : n < blockCount fs.dev) : n < wordBound := by
  rw [h.count] at hn
  exact hn.trans h.geometry.total_lt

theorem inode_inside (hino : ino < v.sb.inodeCount) : inodeBlock v.sb ino < blockCount fs.dev := by
  have hblock := h.geometry.inode_block hino
  have hends := h.geometry.ends
  rw [h.count]
  omega

theorem bitmap_inside (hi : i < v.sb.dataBlocks) : bitmapBlock i < blockCount fs.dev := by
  have hblock := h.geometry.bitmap_block hi
  have hdata := h.geometry.dataStart
  have hends := h.geometry.ends
  rw [h.count]
  omega

theorem data_inside (hlba : InData v.sb lba) : lba < blockCount fs.dev := by
  rw [h.count, ← h.geometry.ends]
  exact hlba.2

theorem inode_address (hino : ino < v.sb.inodeCount) (profile : BuildProfile) :
    addWord profile v.sb.inodeStart (ino / inodesPerBlock) = some (inodeBlock v.sb ino) :=
  addWord_of_lt profile (h.word_of_inside (h.inode_inside hino))

theorem bitmap_address (hi : i < v.sb.dataBlocks) (profile : BuildProfile) :
    addWord profile v.sb.bitmapStart (i / 8 / blockBytes) = some (bitmapBlock i) := by
  rw [Nat.div_div_eq_div_mul, h.geometry.bitmapStart]
  exact addWord_of_lt profile (h.word_of_inside (h.bitmap_inside hi))

end Represents

theorem readInode_sim (faultFree : FaultFree D) (profile : BuildProfile) (ino : Nat) :
    Sim Represents (Fs.readInode profile ino : Prog (Fs D) FsError Inode) (readInode ino) := by
  intro fs v h
  right
  unfold Fs.readInode readInode
  rw [bind_ok (gets_run _ fs), h.sb]
  by_cases hino : ino < v.sb.inodeCount
  · have hinside := h.inode_inside hino
    rw [bind_ok (rejectIf_neg (not_le.mpr hino) _ _), h.inode_address hino profile, orPanic_some,
      bind_ok (pure_run _ _), bind_ok (readBlocks_run faultFree hinside)]
    have hread := decode_of_reads (σ := Fs D) (Inode.reads (h.fits ino hino)) []
    rw [append_nil, ← h.inodes ino hino, inodeOffset] at hread
    rw [hread, if_pos hino]
    exact ⟨rfl, h⟩
  · rw [bind_err (rejectIf_pos (not_lt.mp hino) _ _), if_neg hino]
    exact ⟨rfl, h⟩

private theorem slots_apart {sb : Superblock} {other : Nat}
    (block : inodeBlock sb other = inodeBlock sb ino) (hne : other ≠ ino) :
    inodeOffset other + inodeSize ≤ inodeOffset ino ∨
      inodeOffset ino + inodeSize ≤ inodeOffset other := by
  have hother := div_add_mod other inodesPerBlock
  have hino := div_add_mod ino inodesPerBlock
  rw [add_left_cancel block] at hother
  simp only [inodeOffset, inodeSize]
  omega

theorem slot_inside (ino : Nat) : inodeOffset ino + inodeSize ≤ blockBytes := by
  have hslot : ino % inodesPerBlock < 8 := mod_lt ino (by decide)
  simp only [inodeOffset, inodeSize, blockBytes]
  omega

section

variable (h : Represents fs v) (stored : Stored fs.dev dev' lba bytes)

include h stored

private theorem superblock_kept (inside : lba < blockCount fs.dev) (behind : 1 ≤ lba) :
    ∃ tail, contentsAt dev' 0 = v.sb.bytes ++ tail := by
  rw [stored.other (by omega) (by omega)]
  exact h.superblock

private theorem inodes_kept (outside : lba < v.sb.inodeStart ∨ v.sb.dataStart ≤ lba) (ino : Nat)
    (hino : ino < v.sb.inodeCount) :
    slice (contentsAt dev' (inodeBlock v.sb ino)) (inodeOffset ino) inodeSize = (v.inodes ino).bytes := by
  have hblock := h.geometry.inode_block hino
  rw [stored.other (h.inode_inside hino) (by omega)]
  exact h.inodes ino hino

private theorem bits_kept (behind : v.sb.inodeStart ≤ lba) (i : Nat) (hi : i < v.sb.dataBlocks) :
    test (contentsAt dev' (bitmapBlock i)) (i % bitsPerBlock) = some (v.bits i) := by
  have hblock := h.geometry.bitmap_block hi
  rw [stored.other (h.bitmap_inside hi) (by omega)]
  exact h.bits i hi

private theorem data_kept (before : lba < v.sb.dataStart) (l : Nat) (hl : InData v.sb l) :
    contentsAt dev' l = v.data l := by
  have hstart : v.sb.dataStart ≤ l := hl.1
  rw [stored.other (h.data_inside hl) (by omega)]
  exact h.data l hl

end

theorem Represents.setInode (faultFree : FaultFree D) (h : Represents fs v) {inode : Inode}
    (hino : ino < v.sb.inodeCount) (fits : inode.Fits)
    (stored : Stored fs.dev dev' (inodeBlock v.sb ino)
      (splice (contentsAt fs.dev (inodeBlock v.sb ino)) (inodeOffset ino) inode.bytes)) :
    Represents ⟨dev', fs.sb⟩ (v.setInode ino inode) where
  sb := h.sb
  geometry := h.geometry
  count := stored.count.trans h.count
  superblock := by
    have hstart := h.geometry.inodeStart
    have hblock := (h.geometry.inode_block hino).1
    exact (superblock_kept h stored (h.inode_inside hino) (by omega) :)
  fits := by
    intro other hother
    change (update v.inodes ino inode other).Fits
    by_cases hsame : other = ino
    · rw [hsame, update_self]
      exact fits
    · rw [update_of_ne hsame]
      exact h.fits other hother
  inodes := by
    intro other hother
    change slice (contentsAt dev' (inodeBlock v.sb other)) _ _ =
      (update v.inodes ino inode other).bytes
    have hlength := (readBlock_eq faultFree (h.inode_inside hino)).2
    have hbytes := Inode.bytes_length fits
    have hroom : inodeOffset ino + inode.bytes.length ≤
        (contentsAt fs.dev (inodeBlock v.sb ino)).length := by
      rw [hlength, hbytes]
      exact slot_inside ino
    by_cases hsame : other = ino
    · rw [hsame, update_self, stored.same (h.inode_inside hino)]
      have hslice := slice_splice_self hroom
      rwa [hbytes] at hslice
    · rw [update_of_ne hsame, ← h.inodes other hother]
      by_cases hblock : inodeBlock v.sb other = inodeBlock v.sb ino
      · have hapart := slots_apart hblock hsame
        rw [hblock, stored.same (h.inode_inside hino), slice_splice_disjoint hroom (by rwa [hbytes])]
      · rw [stored.other (h.inode_inside hother) hblock]
  bits := (bits_kept h stored (h.geometry.inode_block hino).1 :)
  data := (data_kept h stored (h.geometry.inode_block hino).2 :)

theorem writeInode_sim (faultFree : FaultFree D) (profile : BuildProfile) (ino : Nat) (inode : Inode) :
    Sim Represents (Fs.writeInode profile ino inode : Prog (Fs D) FsError Unit)
      (writeInode ino inode) := by
  intro fs v h
  unfold Fs.writeInode writeInode
  rw [bind_ok (gets_run _ fs), h.sb]
  by_cases hino : ino < v.sb.inodeCount
  · by_cases hfits : inode.Fits
    · right
      have hinside := h.inode_inside hino
      have hlength := (readBlock_eq faultFree hinside).2
      have hbytes := Inode.bytes_length hfits
      have hslot : (slice (contentsAt fs.dev (inodeBlock v.sb ino))
          (inodeOffset ino) inodeSize).length = inodeSize :=
        slice_length (by rw [hlength]; exact slot_inside ino)
      have hencode : (encode inode.writeTo (slice (contentsAt fs.dev (inodeBlock v.sb ino))
          (inodeOffset ino) inodeSize) : Prog (Fs D) FsError (List Byte)) = pure inode.bytes := by
        rw [encode_of_writes (Inode.writes inode) (by rw [hbytes, hslot]),
          drop_of_length_le (by rw [hbytes, hslot]), append_nil]
      rw [inodeOffset] at hencode
      have hwhole : (splice (contentsAt fs.dev (inodeBlock v.sb ino))
          (inodeOffset ino) inode.bytes).length = blockBytes := by
        rw [splice_length (by rw [hbytes, hlength]; exact slot_inside ino), hlength]
      obtain ⟨dev', hwrite, hstored⟩ := writeBlocks_run faultFree hinside hwhole
      rw [inodeOffset] at hwrite
      rw [bind_ok (rejectIf_neg (not_le.mpr hino) _ _), h.inode_address hino profile, orPanic_some,
        bind_ok (pure_run _ _), bind_ok (readBlocks_run faultFree hinside), hencode,
        bind_ok (pure_run _ _), hwrite, if_pos hino, if_pos hfits]
      exact ⟨rfl, h.setInode faultFree hino hfits hstored⟩
    · left
      rw [if_pos hino, if_neg hfits]
  · right
    rw [bind_err (rejectIf_pos (not_lt.mp hino) _ _), if_neg hino]
    exact ⟨rfl, h⟩

private theorem bit_index (i : Nat) :
    i % bitsPerBlock / 8 = i / 8 % blockBytes ∧ i % bitsPerBlock % 8 = i % 8 := by
  simp only [bitsPerBlock, blockBytes]
  omega

private theorem bit_inside {buf : List Byte} (whole : buf.length = blockBytes) (i : Nat) :
    i % bitsPerBlock < buf.length * 8 := by
  rw [whole]
  exact mod_lt i (by decide)

theorem bitGet_sim (faultFree : FaultFree D) (profile : BuildProfile) (i : Nat) :
    Sim Represents (Fs.bitGet profile i : Prog (Fs D) FsError Bool) (bitGet i) := by
  intro fs v h
  unfold Fs.bitGet bitGet
  by_cases hi : i < v.sb.dataBlocks
  · right
    have htest := h.bits i hi
    rw [test, (bit_index i).1, (bit_index i).2] at htest
    obtain ⟨byte, hbyte, hbit⟩ := map_eq_some_iff.mp htest
    rw [bind_ok (gets_run _ fs), h.sb, h.bitmap_address hi profile, orPanic_some,
      bind_ok (pure_run _ _), bind_ok (readBlocks_run faultFree (h.bitmap_inside hi)), hbyte,
      orPanic_some, bind_ok (pure_run _ _), if_pos hi, ← hbit]
    refine ⟨congrArg Outcome.ok ?_, h⟩
    rw [Bool.eq_iff_iff, decide_eq_true_iff, bne_iff_ne]
    rfl
  · left
    rw [if_neg hi]

private theorem exists_flip {buf : List Byte} (whole : buf.length = blockBytes) (i : Nat) (value : Bool) :
    ∃ byte, buf[i / 8 % blockBytes]? = some byte ∧ ∀ j, test (buf.set (i / 8 % blockBytes)
          (if value then byte ||| 1#8 <<< (i % 8) else byte &&& ~~~(1#8 <<< (i % 8)))) j =
        if j = i % bitsPerBlock then some value else test buf j := by
  have hlt : i / 8 % blockBytes < buf.length := by
    rw [whole]
    exact mod_lt _ (by decide)
  have hbyte := getElem?_eq_getElem hlt
  refine ⟨_, hbyte, ?_⟩
  cases value with
  | true =>
    obtain ⟨buf', hmark, -, hbits⟩ := exists_mark (by decide) (bit_inside whole i)
    rw [mark, (bit_index i).1, (bit_index i).2, hbyte, map_some] at hmark
    rw [← some.inj hmark] at hbits
    exact hbits
  | false =>
    obtain ⟨buf', hclear, -, hbits⟩ := exists_clear (by decide) (bit_inside whole i)
    rw [clear, (bit_index i).1, (bit_index i).2, hbyte, map_some] at hclear
    rw [← some.inj hclear] at hbits
    exact hbits

theorem Represents.setBit (h : Represents fs v) {value : Bool} (hi : i < v.sb.dataBlocks)
    (stored : Stored fs.dev dev' (bitmapBlock i) bytes)
    (flipped : ∀ j, test bytes j = if j = i % bitsPerBlock then some value
      else test (contentsAt fs.dev (bitmapBlock i)) j) :
    Represents ⟨dev', fs.sb⟩ (v.setBit i value) where
  sb := h.sb
  geometry := h.geometry
  count := stored.count.trans h.count
  superblock := (superblock_kept h stored (h.bitmap_inside hi) (h.geometry.bitmap_block hi).1 :)
  fits := h.fits
  inodes := (inodes_kept h stored (.inl (h.geometry.bitmap_block hi).2) :)
  bits := by
    intro j hj
    change test (contentsAt dev' (bitmapBlock j)) _ = some (update v.bits i value j)
    by_cases hblock : bitmapBlock j = bitmapBlock i
    · rw [hblock, stored.same (h.bitmap_inside hi), flipped]
      by_cases hsame : j = i
      · rw [hsame, if_pos rfl, update_self]
      · have hmod : j % bitsPerBlock ≠ i % bitsPerBlock := by
          intro hmod
          have hdiv := add_left_cancel hblock
          exact hsame (by rw [← div_add_mod j bitsPerBlock, ← div_add_mod i bitsPerBlock, hdiv, hmod])
        rw [if_neg hmod, update_of_ne hsame, ← hblock]
        exact h.bits j hj
    · have hsame : j ≠ i := fun hsame => hblock (by rw [hsame])
      rw [stored.other (h.bitmap_inside hj) hblock, update_of_ne hsame]
      exact h.bits j hj
  data := by
    have hblock := (h.geometry.bitmap_block hi).2
    have hdata := h.geometry.dataStart
    exact (data_kept h stored (by omega) :)

theorem bitSet_sim (faultFree : FaultFree D) (profile : BuildProfile) (i : Nat) (value : Bool) :
    Sim Represents (Fs.bitSet profile i value : Prog (Fs D) FsError Unit) (bitSet i value) := by
  intro fs v h
  unfold Fs.bitSet bitSet
  by_cases hi : i < v.sb.dataBlocks
  · right
    have hinside := h.bitmap_inside hi
    have hwhole := (readBlock_eq faultFree hinside).2
    obtain ⟨byte, hbyte, hflip⟩ := exists_flip hwhole i value
    obtain ⟨dev', hwrite, hstored⟩ := writeBlocks_run faultFree hinside
      ((length_set (i := i / 8 % blockBytes) (a := if value then byte ||| 1#8 <<< (i % 8)
        else byte &&& ~~~(1#8 <<< (i % 8)))).trans hwhole)
    rw [bind_ok (gets_run _ fs), h.sb, h.bitmap_address hi profile, orPanic_some,
      bind_ok (pure_run _ _), bind_ok (readBlocks_run faultFree hinside), hbyte, orPanic_some,
      bind_ok (pure_run _ _), hwrite, if_pos hi]
    exact ⟨rfl, h.setBit hi hstored hflip⟩
  · left
    rw [if_neg hi]

theorem readBlock_sim (faultFree : FaultFree D) (lba : Nat) :
    Sim Represents (Fs.readBlocks lba : Prog (Fs D) FsError (List Byte)) (readBlock lba) := by
  intro fs v h
  unfold readBlock
  by_cases hlba : InData v.sb lba
  · right
    rw [readBlocks_run faultFree (h.data_inside hlba), if_pos hlba, h.data lba hlba]
    exact ⟨rfl, h⟩
  · left
    rw [if_neg hlba]

theorem Represents.setData (h : Represents fs v) (hlba : InData v.sb lba)
    (stored : Stored fs.dev dev' lba bytes) :
    Represents ⟨dev', fs.sb⟩ (v.setData lba bytes) where
  sb := h.sb
  geometry := h.geometry
  count := stored.count.trans h.count
  superblock := by
    have hinode := h.geometry.inodeStart
    have hdata := h.geometry.dataStart
    have hstart : v.sb.dataStart ≤ lba := hlba.1
    exact (superblock_kept h stored (h.data_inside hlba) (by omega) :)
  fits := h.fits
  inodes := (inodes_kept h stored (.inr hlba.1) :)
  bits := by
    have hdata := h.geometry.dataStart
    have hstart : v.sb.dataStart ≤ lba := hlba.1
    exact (bits_kept h stored (by omega) :)
  data := by
    intro l hl
    change contentsAt dev' l = update v.data lba bytes l
    by_cases hsame : l = lba
    · rw [hsame, stored.same (h.data_inside hlba), update_self]
    · rw [stored.other (h.data_inside hl) hsame, update_of_ne hsame]
      exact h.data l hl

theorem writeBlock_sim (faultFree : FaultFree D) (lba : Nat) (bytes : List Byte) :
    Sim Represents (Fs.writeBlocks lba bytes : Prog (Fs D) FsError Unit)
      (writeBlock lba bytes) := by
  intro fs v h
  unfold writeBlock
  by_cases hok : InData v.sb lba ∧ bytes.length = blockBytes
  · right
    obtain ⟨dev', hwrite, hstored⟩ := writeBlocks_run faultFree (h.data_inside hok.1) hok.2
    rw [hwrite, if_pos hok]
    exact ⟨rfl, h.setData hok.1 hstored⟩
  · left
    rw [if_neg hok]

theorem medium_refines (faultFree : FaultFree D) (profile : BuildProfile) :
    Refines (Represents (D := D)) (Fs.medium profile) (medium profile) where
  profile := rfl
  superblock _ _ h := h.sb
  readInode := readInode_sim faultFree profile
  writeInode := writeInode_sim faultFree profile
  bitGet := bitGet_sim faultFree profile
  bitSet := bitSet_sim faultFree profile
  readBlock := readBlock_sim faultFree
  writeBlock := writeBlock_sim faultFree

theorem mount_intoDevice (faultFree : FaultFree D) (h : Represents fs v) :
    Fs.mount fs.intoDevice = .ok fs := by
  have hinode := h.geometry.inodeStart
  have hdata := h.geometry.dataStart
  have hends := h.geometry.ends
  have hcount := h.count
  obtain ⟨tail, htail⟩ := h.superblock
  obtain ⟨r, hread, -⟩ := (Superblock.reads h.geometry.fits).run tail
  have hpositive : 0 < blockCount fs.dev := by omega
  rw [Fs.mount, Fs.intoDevice, (readBlock_eq faultFree hpositive).1, htail]
  simp only [hread]
  rw [← h.sb]

end

end CibosPlatform.Kernel.Cibosfs.View
