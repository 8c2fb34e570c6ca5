/- source: cibos-kernel/src/fs.rs
   digest: The superblock, inodes and directory entries, and their bytes on disk. -/

import CibosPlatform.Kernel.Cibosfs.Device
import CibosPlatform.Shared.Serialization

namespace CibosPlatform.Kernel.Cibosfs.Layout

open Core LittleEndian MachineWord Program Device Shared.Serialization List ByteWriter Prog ByteReader

def fsMagic : Nat := ofLE [0x43, 0x49, 0x42, 0x4f, 0x53, 0x46, 0x53, 0x31]

abbrev fsVersion : Nat := 1

abbrev inodeSize : Nat := 64

abbrev directBlocks : Nat := 6

abbrev maxFileSize : Nat := directBlocks * blockBytes

abbrev nameMax : Nat := 23

abbrev dirEntrySize : Nat := 32

abbrev rootInode : Nat := 0

abbrev kindFree : Nat := 0
abbrev kindFile : Nat := 1
abbrev kindDir : Nat := 2

inductive FsError where
  | block (e : BlockError)
  | badSuperblock
  | corrupt
  | noSpace
  | notFound
  | nameExists
  | wrongKind
  | tooLarge
  deriving DecidableEq

structure Superblock where
  totalBlocks : Nat
  bitmapStart : Nat
  bitmapBlocks : Nat
  inodeStart : Nat
  inodeCount : Nat
  dataStart : Nat
  dataBlocks : Nat

namespace Superblock

def writeTo (sb : Superblock) : Writing := do
  putU64 fsMagic
  putU32 fsVersion
  putU32 sb.inodeCount
  putU64 sb.totalBlocks
  putU64 sb.bitmapStart
  putU64 sb.bitmapBlocks
  putU64 sb.inodeStart
  putU64 sb.dataStart
  putU64 sb.dataBlocks

def readFields : Reading Superblock := do
  let inodeCount ← getU32
  let totalBlocks ← getU64
  let bitmapStart ← getU64
  let bitmapBlocks ← getU64
  let inodeStart ← getU64
  let dataStart ← getU64
  let dataBlocks ← getU64
  pure ⟨totalBlocks, bitmapStart, bitmapBlocks, inodeStart, inodeCount, dataStart, dataBlocks⟩

def readFrom : Prog ByteReader FsError Superblock := do
  let magic ← mapErr .corrupt getU64
  let version ← mapErr .corrupt getU32
  rejectIf (magic ≠ fsMagic ∨ version ≠ fsVersion) .badSuperblock
  mapErr .corrupt readFields

end Superblock

structure Inode where
  kind : Nat
  size : Nat
  direct : List Nat

namespace Inode

def empty (kind : Nat) : Inode where
  kind := kind
  size := 0
  direct := List.replicate directBlocks 0

def blocksUsed (inode : Inode) : Nat := divCeil inode.size blockBytes

def writeTo (inode : Inode) : Writing := do
  putU32 inode.kind
  putU32 0
  putU64 inode.size
  forEach inode.direct putU64

def readFrom : Prog ByteReader FsError Inode := mapErr .corrupt do
  let kind ← getU32
  let _ ← getU32
  let size ← getU64
  let direct ← foldEach (upTo 0 directBlocks) [] fun acc _ => do
    let p ← getU64
    pure (acc ++ [p])
  pure ⟨kind, size, direct⟩

def setDirect (inode : Inode) (i lba : Nat) : Option Inode :=
  if i < directBlocks then some { inode with direct := inode.direct.set i lba } else none

end Inode

abbrev Name := List Byte

structure DirEntry where
  inode : Nat
  isDir : Bool
  name : Name

section

variable {σ α : Type}

def decode (read : Prog ByteReader FsError α) (buf : List Byte) : Prog σ FsError α :=
  match (read (new buf)).1 with
  | .ok a => pure a
  | .err e => fail e
  | .panic => trap

def encode (write : Writing) (buf : List Byte) : Prog σ FsError (List Byte) :=
  match write (ByteWriter.new buf) with
  | (.ok _, w) => pure w.buf
  | (.err _, _) => fail .corrupt
  | (.panic, _) => trap

def writeEntry (ino : Nat) (name : Name) : Writing := do
  putU32 ino
  putU8 (name.length % 256)
  putBytes (name ++ List.replicate (nameMax - name.length) 0)
  putU16 0
  putU8 0

def readEntry : Prog ByteReader FsError (Nat × Nat × List Byte) := mapErr .corrupt do
  let ino ← getU32
  let nameLen ← getU8
  let nameField ← getSlice nameMax
  pure (ino, nameLen, nameField)

/-- Each entry is written to its own slot of zeroes. The name is first copied into a buffer of
`NAME_MAX` bytes, which panics if it is longer. -/
def encodeDir : List (Nat × Name) → Prog σ FsError (List Byte)
  | [] => pure []
  | (ino, name) :: rest => do
    let name ← orPanic (if name.length ≤ nameMax then some name else none)
    let slot ← encode (writeEntry ino name) (List.replicate dirEntrySize 0)
    let slots ← encodeDir rest
    pure (slot ++ slots)

end


variable {e : Nat × Name} {entries : List (Nat × Name)} (sb : Superblock)

section

variable {σ α : Type}

theorem decode_of_reads {read : Prog ByteReader FsError α} {bytes : List Byte} {a : α}
    (h : Reads read bytes a) (tail : List Byte) :
    (decode read (bytes ++ tail) : Prog σ FsError α) = pure a := by
  obtain ⟨r, hrun, -⟩ := h.run tail
  rw [decode, hrun]

theorem encode_of_writes {write : Writing} {bytes buf : List Byte}
    (h : Writes write bytes) (room : bytes.length ≤ buf.length) :
    (encode write buf : Prog σ FsError (List Byte)) = pure (bytes ++ buf.drop bytes.length) := by
  rw [encode, h.run room]

structure Superblock.Fits (sb : Superblock) : Prop where
  inodeCount : sb.inodeCount < 2 ^ 32
  totalBlocks : sb.totalBlocks < 2 ^ 64
  bitmapStart : sb.bitmapStart < 2 ^ 64
  bitmapBlocks : sb.bitmapBlocks < 2 ^ 64
  inodeStart : sb.inodeStart < 2 ^ 64
  dataStart : sb.dataStart < 2 ^ 64
  dataBlocks : sb.dataBlocks < 2 ^ 64

def Superblock.bytes (sb : Superblock) : List Byte :=
  toLE 8 fsMagic ++ (toLE 4 fsVersion ++ (toLE 4 sb.inodeCount ++ (toLE 8 sb.totalBlocks ++
    (toLE 8 sb.bitmapStart ++ (toLE 8 sb.bitmapBlocks ++ (toLE 8 sb.inodeStart ++
      (toLE 8 sb.dataStart ++ toLE 8 sb.dataBlocks)))))))

theorem Superblock.bytes_length : sb.bytes.length = 64 := by simp [Superblock.bytes]

theorem Superblock.writes : Writes sb.writeTo sb.bytes :=
  (Writes.putU64 _).bind ((Writes.putU32 _).bind ((Writes.putU32 _).bind ((Writes.putU64 _).bind
    ((Writes.putU64 _).bind ((Writes.putU64 _).bind ((Writes.putU64 _).bind
      ((Writes.putU64 _).bind (.putU64 _))))))))

theorem Superblock.reads {sb : Superblock} (fits : sb.Fits) : Reads Superblock.readFrom sb.bytes sb := by
  have hmagic : fsMagic < 2 ^ 64 := by decide
  have hversion : fsVersion < 2 ^ 32 := by decide
  have hfields : Reads readFields
      (toLE 4 sb.inodeCount ++ (toLE 8 sb.totalBlocks ++ (toLE 8 sb.bitmapStart ++
        (toLE 8 sb.bitmapBlocks ++ (toLE 8 sb.inodeStart ++ (toLE 8 sb.dataStart ++
          (toLE 8 sb.dataBlocks ++ []))))))) sb :=
    (Reads.getU32 fits.inodeCount).bind ((Reads.getU64 fits.totalBlocks).bind
      ((Reads.getU64 fits.bitmapStart).bind ((Reads.getU64 fits.bitmapBlocks).bind
        ((Reads.getU64 fits.inodeStart).bind ((Reads.getU64 fits.dataStart).bind
          ((Reads.getU64 fits.dataBlocks).bind (.pure _)))))))
  exact ((Reads.getU64 hmagic).mapErr _).bind (((Reads.getU32 hversion).mapErr _).bind
    ((Reads.rejectIf (by simp) _).bind (hfields.mapErr _)))

structure Inode.Fits (inode : Inode) : Prop where
  kind : inode.kind < 2 ^ 32
  size : inode.size < 2 ^ 64
  direct : inode.direct.length = directBlocks
  pointers : ∀ p ∈ inode.direct, p < 2 ^ 64

theorem Inode.Fits.empty {kind : Nat} (h : kind < 2 ^ 32) : (Inode.empty kind).Fits where
  kind := h
  size := Nat.two_pow_pos 64
  direct := length_replicate
  pointers p hp := by
    rw [eq_of_mem_replicate hp]
    decide

def Inode.bytes (inode : Inode) : List Byte :=
  toLE 4 inode.kind ++ (toLE 4 0 ++ (toLE 8 inode.size ++ inode.direct.flatMap (toLE 8)))

theorem Inode.bytes_length {inode : Inode} (fits : inode.Fits) : inode.bytes.length = inodeSize := by
  have hpointers : (inode.direct.flatMap (toLE 8)).length = inode.direct.length * 8 := by
    rw [length_flatMap]
    simp
  rw [Inode.bytes, length_append, length_append, length_append, hpointers, fits.direct]
  rfl

theorem Inode.writes (inode : Inode) : Writes inode.writeTo inode.bytes :=
  (Writes.putU32 _).bind ((Writes.putU32 _).bind ((Writes.putU64 _).bind
    (.forEach Writes.putU64 _)))

theorem Inode.reads {inode : Inode} (fits : inode.Fits) : Reads Inode.readFrom inode.bytes inode := by
  have hdirect := Reads.foldEach (fun p hp => .getU64 (fits.pointers p hp)) (upTo 0 directBlocks)
    (by rw [fits.direct]; rfl) []
  have hbytes : inode.bytes = toLE 4 inode.kind ++ (toLE 4 0 ++ (toLE 8 inode.size ++
      (inode.direct.flatMap (toLE 8) ++ []))) := by
    rw [append_nil]
    rfl
  have hzero : 0 < 2 ^ 32 := by decide
  rw [hbytes]
  exact .mapErr ((Reads.getU32 fits.kind).bind ((Reads.getU32 hzero).bind
    ((Reads.getU64 fits.size).bind (hdirect.bind (.pure inode))))) _

def entryBytes (e : Nat × Name) : List Byte :=
  toLE 4 e.1 ++ (toLE 1 e.2.length ++ (e.2 ++ List.replicate (nameMax - e.2.length) 0 ++
    (toLE 2 0 ++ (toLE 1 0 ++ [0]))))

def dirBytes (entries : List (Nat × Name)) : List Byte := entries.flatMap entryBytes

theorem dirBytes_append (first second : List (Nat × Name)) :
    dirBytes (first ++ second) = dirBytes first ++ dirBytes second := flatMap_append

private theorem padded_length {name : Name} (h : name.length ≤ nameMax) :
    (name ++ replicate (nameMax - name.length) (0 : Byte)).length = nameMax := by
  rw [length_append, length_replicate]
  omega

theorem entryBytes_length (h : e.2.length ≤ nameMax) : (entryBytes e).length = dirEntrySize := by
  rw [entryBytes, length_append, length_append, length_append, padded_length h]
  rfl

theorem dirBytes_length (h : ∀ e ∈ entries, e.2.length ≤ nameMax) :
    (dirBytes entries).length = entries.length * dirEntrySize := by
  rw [dirBytes, length_flatMap, map_congr_left fun e he => entryBytes_length (h e he)]
  simp

theorem slice_dirBytes {pre post : List (Nat × Name)}
    (hpre : ∀ e ∈ pre, e.2.length ≤ nameMax) (he : e.2.length ≤ nameMax) :
    slice (dirBytes (pre ++ e :: post)) (pre.length * dirEntrySize) dirEntrySize = entryBytes e := by
  rw [slice, dirBytes_append, drop_left' (dirBytes_length hpre), dirBytes, flatMap_cons,
    take_left' (entryBytes_length he)]

theorem readEntry_entryBytes (small : e.1 < 2 ^ 32) (short : e.2.length ≤ nameMax) :
    (decode readEntry (entryBytes e) : Prog σ FsError (Nat × Nat × List Byte)) =
      pure (e.1, e.2.length, e.2 ++ replicate (nameMax - e.2.length) 0) := by
  have hfield := Reads.getSlice (e.2 ++ replicate (nameMax - e.2.length) (0 : Byte))
  rw [padded_length short] at hfield
  have hlength : e.2.length < 256 := lt_of_le_of_lt short (by decide)
  have hreads : Reads readEntry (toLE 4 e.1 ++ (toLE 1 e.2.length ++
      ((e.2 ++ replicate (nameMax - e.2.length) 0) ++ [])))
      (e.1, e.2.length, e.2 ++ replicate (nameMax - e.2.length) 0) :=
    Reads.mapErr ((Reads.getU32 small).bind ((Reads.getU8 hlength).bind (hfield.bind
      (.pure (e.1, e.2.length, _))))) _
  have hsplit : entryBytes e = (toLE 4 e.1 ++ (toLE 1 e.2.length ++
      ((e.2 ++ replicate (nameMax - e.2.length) 0) ++ []))) ++ (toLE 2 0 ++ (toLE 1 0 ++ [0])) := by
    simp only [entryBytes, append_nil, append_assoc]
  rw [hsplit]
  exact decode_of_reads hreads _

private theorem encode_entry (short : e.2.length ≤ nameMax) :
    (encode (writeEntry e.1 e.2) (replicate dirEntrySize 0) : Prog σ FsError (List Byte)) =
      pure (entryBytes e) := by
  have hmod : e.2.length % 256 = e.2.length := Nat.mod_eq_of_lt (lt_of_le_of_lt short (by decide))
  have hwrites : Writes (writeEntry e.1 e.2) (toLE 4 e.1 ++ (toLE 1 (e.2.length % 256) ++
      ((e.2 ++ replicate (nameMax - e.2.length) 0) ++ (toLE 2 0 ++ toLE 1 0)))) :=
    (Writes.putU32 _).bind ((Writes.putU8 _).bind ((Writes.putBytes _).bind
      ((Writes.putU16 _).bind (.putU8 _))))
  have hlength : (toLE 4 e.1 ++ (toLE 1 (e.2.length % 256) ++
      ((e.2 ++ replicate (nameMax - e.2.length) 0) ++ (toLE 2 0 ++ toLE 1 0)))).length = 31 := by
    rw [length_append, length_append, length_append, padded_length short]
    rfl
  rw [encode_of_writes hwrites (by rw [hlength]; decide), hlength, hmod, entryBytes]
  congr 1
  simp only [append_assoc]
  rfl

theorem encodeDir_eq (short : ∀ e ∈ entries, e.2.length ≤ nameMax) :
    (encodeDir entries : Prog σ FsError (List Byte)) = pure (dirBytes entries) := by
  induction entries with
  | nil => rfl
  | cons e entries ih =>
    obtain ⟨he, hrest⟩ := forall_mem_cons.mp short
    have hbody : (encodeDir (e :: entries) : Prog σ FsError (List Byte)) = (do
        let slot ← encode (writeEntry e.1 e.2) (replicate dirEntrySize 0)
        let slots ← encodeDir entries
        pure (slot ++ slots)) := by
      rw [encodeDir, if_pos he]
      rfl
    rw [hbody, encode_entry he, ih hrest]
    rfl

end

end CibosPlatform.Kernel.Cibosfs.Layout
