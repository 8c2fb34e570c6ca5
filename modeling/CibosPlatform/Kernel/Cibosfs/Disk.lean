/- source: cibos-kernel/src/fs.rs
   digest: The file system on a block device: inode table, bitmap, format and mount. -/

import CibosPlatform.Kernel.Cibosfs.Operations

namespace CibosPlatform.Kernel.Cibosfs.Disk

open Core LittleEndian MachineWord Program Device Layout Prog
open Operations Shared.Serialization BlockDevice

abbrev inodesPerBlock : Nat := blockBytes / inodeSize

abbrev bitsPerBlock : Nat := blockBytes * 8

structure Fs (D : Type) where
  dev : D
  sb : Superblock

namespace Fs

variable {D : Type} [BlockDevice D]

def readBlocks (lba : Nat) : Prog (Fs D) FsError (List Byte) := fun fs =>
  match readBlock fs.dev lba with
  | .ok bytes => (.ok bytes, fs)
  | .error e => (.err (.block e), fs)

def writeBlocks (lba : Nat) (bytes : List Byte) : Prog (Fs D) FsError Unit := fun fs =>
  match writeBlock lba bytes fs.dev with
  | (.ok _, dev) => (.ok (), { fs with dev := dev })
  | (.err e, dev) => (.err (.block e), { fs with dev := dev })
  | (.panic, dev) => (.panic, { fs with dev := dev })

variable (profile : BuildProfile)

def readInode (ino : Nat) : Prog (Fs D) FsError Inode := do
  let sb ← gets sb
  rejectIf (sb.inodeCount ≤ ino) .notFound
  let blk ← orPanic (addWord profile sb.inodeStart (ino / inodesPerBlock))
  let buf ← readBlocks blk
  decode Inode.readFrom (slice buf (ino % inodesPerBlock * inodeSize) inodeSize)

def writeInode (ino : Nat) (inode : Inode) : Prog (Fs D) FsError Unit := do
  let sb ← gets sb
  rejectIf (sb.inodeCount ≤ ino) .notFound
  let blk ← orPanic (addWord profile sb.inodeStart (ino / inodesPerBlock))
  let off := ino % inodesPerBlock * inodeSize
  let buf ← readBlocks blk
  let bytes ← encode inode.writeTo (slice buf off inodeSize)
  writeBlocks blk (splice buf off bytes)

def bitGet (dataIndex : Nat) : Prog (Fs D) FsError Bool := do
  let sb ← gets sb
  let blk ← orPanic (addWord profile sb.bitmapStart (dataIndex / 8 / blockBytes))
  let buf ← readBlocks blk
  let byte ← orPanic buf[dataIndex / 8 % blockBytes]?
  pure (byte &&& 1#8 <<< (dataIndex % 8) ≠ 0#8)

def bitSet (dataIndex : Nat) (value : Bool) : Prog (Fs D) FsError Unit := do
  let sb ← gets sb
  let blk ← orPanic (addWord profile sb.bitmapStart (dataIndex / 8 / blockBytes))
  let off := dataIndex / 8 % blockBytes
  let mask := 1#8 <<< (dataIndex % 8)
  let buf ← readBlocks blk
  let byte ← orPanic buf[off]?
  writeBlocks blk (buf.set off (if value then byte ||| mask else byte &&& ~~~mask))

def medium : Medium (Fs D) where
  profile := profile
  superblock := sb
  readInode := readInode profile
  writeInode := writeInode profile
  bitGet := bitGet profile
  bitSet := bitSet profile
  readBlock := readBlocks
  writeBlock := writeBlocks

def intoDevice (fs : Fs D) : D := fs.dev

/-- The rounds of the loop that sizes the bitmap. A round starts from a size raised before, so no
more are run than the device has blocks. -/
def sizeBitmap {σ : Type} (total inodeBlocks : Nat) : Nat → Nat → Prog σ FsError Nat
  | 0, _ => trap
  | rounds + 1, bitmapBlocks => do
    let upToBitmap ← orPanic (addWord profile 1 bitmapBlocks)
    let overhead ← orPanic (addWord profile upToBitmap inodeBlocks)
    rejectIf (total ≤ overhead) .noSpace
    let needed := max (divCeil (total - overhead) bitsPerBlock) 1
    if needed ≤ bitmapBlocks then pure bitmapBlocks
    else sizeBitmap total inodeBlocks rounds needed

def store (lba : Nat) (bytes : List Byte) : Prog D FsError Unit := fun dev =>
  match writeBlock lba bytes dev with
  | (.ok _, dev) => (.ok (), dev)
  | (.err e, dev) => (.err (.block e), dev)
  | (.panic, dev) => (.panic, dev)

def zeroBlocks (start count : Nat) : Prog D FsError Unit :=
  forEach (upTo 0 count) fun b => do
    let lba ← orPanic (addWord profile start b)
    store lba (List.replicate blockBytes 0)

def layOut (inodeCount : Nat) : Prog D FsError Superblock := do
  let total ← gets blockCount
  let inodeBlocks := divCeil inodeCount inodesPerBlock
  let bitmapBlocks ← sizeBitmap profile total inodeBlocks (total + 1) 1
  let inodeStart ← orPanic (addWord profile 1 bitmapBlocks)
  let dataStart ← orPanic (addWord profile inodeStart inodeBlocks)
  let dataBlocks ← orPanic (if dataStart ≤ total then some (total - dataStart) else none)
  let sb : Superblock := ⟨total, 1, bitmapBlocks, inodeStart, inodeCount, dataStart, dataBlocks⟩
  zeroBlocks profile 1 bitmapBlocks
  zeroBlocks profile inodeStart inodeBlocks
  let bytes ← encode sb.writeTo (List.replicate blockBytes 0)
  store 0 bytes
  pure sb

def format (dev : D) (inodeCount : Nat) : Outcome FsError (Fs D) :=
  match layOut profile inodeCount dev with
  | (.err e, _) => .err e
  | (.panic, _) => .panic
  | (.ok sb, dev) =>
    match writeInode profile rootInode (.empty kindDir) ⟨dev, sb⟩ with
    | (.ok _, fs) => .ok fs
    | (.err e, _) => .err e
    | (.panic, _) => .panic

def mount (dev : D) : Outcome FsError (Fs D) :=
  match readBlock dev 0 with
  | .error e => .err (.block e)
  | .ok buf =>
    match (Superblock.readFrom (ByteReader.new buf)).1 with
    | .ok sb => .ok ⟨dev, sb⟩
    | .err e => .err e
    | .panic => .panic

end Fs

end CibosPlatform.Kernel.Cibosfs.Disk
