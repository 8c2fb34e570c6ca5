/- source: cibos-kernel/src/fs.rs
   digest: The file system's operations over an inode table, a block bitmap and data blocks. -/

import CibosPlatform.Kernel.Cibosfs.Layout

/-! The operations are written against a medium with inode table, bitmap and data blocks: a device with its
superblock, or a volume that holds the three parts directly. -/

namespace CibosPlatform.Kernel.Cibosfs.Operations

open Core LittleEndian MachineWord Program Device Layout Prog

structure Medium (σ : Type) where
  profile : BuildProfile
  superblock : σ → Superblock
  readInode : Nat → Prog σ FsError Inode
  writeInode : Nat → Inode → Prog σ FsError Unit
  bitGet : Nat → Prog σ FsError Bool
  bitSet : Nat → Bool → Prog σ FsError Unit
  readBlock : Nat → Prog σ FsError (List Byte)
  writeBlock : Nat → List Byte → Prog σ FsError Unit

section

variable {σ : Type} (M : Medium σ)

def allocInode : Prog σ FsError Nat := do
  let sb ← gets M.superblock
  match ← search (upTo 1 sb.inodeCount) fun ino => do
    let node ← M.readInode ino
    pure (if node.kind = kindFree then some ino else none) with
  | some ino => pure ino
  | none => fail .noSpace

def allocBlock : Prog σ FsError Nat := do
  let sb ← gets M.superblock
  match ← search (upTo 0 sb.dataBlocks) fun i => do
    if ← M.bitGet i then pure none
    else do
      M.bitSet i true
      let lba ← orPanic (addWord M.profile sb.dataStart i)
      pure (some lba) with
  | some lba => pure lba
  | none => fail .noSpace

def freeBlock (lba : Nat) : Prog σ FsError Unit := do
  let sb ← gets M.superblock
  rejectIf (lba < sb.dataStart) .corrupt
  M.bitSet (lba - sb.dataStart) false

/-- The contents of an inode. The vector for them is requested with the capacity the inode states,
which panics above `isize::MAX`. -/
def readInodeData (inode : Inode) : Prog σ FsError (List Byte) :=
  if 2 ^ 63 ≤ inode.size then trap
  else do
    let out ← foldEach (inode.direct.take inode.blocksUsed) ([], inode.size) fun acc blk => do
      let buf ← M.readBlock blk
      let take := min acc.2 blockBytes
      pure (acc.1 ++ buf.take take, acc.2 - take)
    pure out.1

def blockOf (data : List Byte) (i : Nat) : List Byte :=
  let chunk := slice data (i * blockBytes) blockBytes
  chunk ++ List.replicate (blockBytes - chunk.length) 0

def growInode (inode : Inode) (old new : Nat) : Prog σ FsError Inode :=
  foldEach (upTo old new) inode fun inode i => do
    let lba ← allocBlock M
    orPanic (inode.setDirect i lba)

def shrinkInode (inode : Inode) (new old : Nat) : Prog σ FsError Inode :=
  foldEach (upTo new old) inode fun inode i => do
    let lba ← orPanic inode.direct[i]?
    if lba ≠ 0 then do
      freeBlock M lba
      orPanic (inode.setDirect i 0)
    else pure inode

def writeInodeData (ino : Nat) (inode : Inode) (data : List Byte) : Prog σ FsError Unit := do
  rejectIf (maxFileSize < data.length) .tooLarge
  let newBlocks := divCeil data.length blockBytes
  let oldBlocks := inode.blocksUsed
  let inode ← growInode M inode oldBlocks newBlocks
  let inode ← shrinkInode M inode newBlocks oldBlocks
  forEach (upTo 0 newBlocks) fun i => do
    let lba ← orPanic inode.direct[i]?
    M.writeBlock lba (blockOf data i)
  M.writeInode ino { inode with size := data.length }

end

section

variable {σ : Type} (M : Medium σ)

/-- The entries of a directory. The loop over offsets `0, 32, ..` is one over slot numbers here. -/
def readDirEntries (dirIno : Nat) : Prog σ FsError (List DirEntry) := do
  let dir ← M.readInode dirIno
  rejectIf (dir.kind ≠ kindDir) .wrongKind
  let data ← readInodeData M dir
  foldEach (upTo 0 (data.length / dirEntrySize)) [] fun out i => do
    let entry ← decode readEntry (slice data (i * dirEntrySize) dirEntrySize)
    if entry.1 ≠ 0 ∧ entry.2.1 ≤ nameMax then do
      let child ← M.readInode entry.1
      pure (out ++ [⟨entry.1, child.kind = kindDir, entry.2.2.take entry.2.1⟩])
    else pure out

def dirAdd (dirIno ino : Nat) (name : Name) : Prog σ FsError Unit := do
  rejectIf (nameMax < name.length) .tooLarge
  let existing ← readDirEntries M dirIno
  let data ← encodeDir (existing.map (fun e => (e.inode, e.name)) ++ [(ino, name)])
  let dir ← M.readInode dirIno
  writeInodeData M dirIno dir data

def dirLookup (dirIno : Nat) (name : Name) : Prog σ FsError Nat := do
  let entries ← readDirEntries M dirIno
  match entries.find? fun e => e.name = name with
  | some e => pure e.inode
  | none => fail .notFound

def dirRemove (dirIno : Nat) (name : Name) : Prog σ FsError Unit := do
  let existing ← readDirEntries M dirIno
  let entries := (existing.filter fun e => e.name ≠ name).map fun e => (e.inode, e.name)
  rejectIf (entries.length = existing.length) .notFound
  let data ← encodeDir entries
  let dir ← M.readInode dirIno
  writeInodeData M dirIno dir data

end

section

variable {σ : Type} (M : Medium σ)

variable (path : List Byte)

def components : List Name := (path.splitOn 0x2f).filter fun s => s ≠ []

def resolve : Prog σ FsError Nat :=
  foldEach (components path) rootInode (dirLookup M)

def resolveParent : Prog σ FsError (Nat × Name) :=
  match (components path).getLast? with
  | none => fail .notFound
  | some last => do
    let ino ← foldEach (components path).dropLast rootInode (dirLookup M)
    pure (ino, last)

def mkdir : Prog σ FsError Nat := do
  let target ← resolveParent M path
  let found ← attempt (dirLookup M target.1 target.2)
  rejectIf found.isOk .nameExists
  let ino ← allocInode M
  M.writeInode ino (.empty kindDir)
  dirAdd M target.1 ino target.2
  pure ino

def openFile (parent : Nat) (name : Name) : Prog σ FsError Nat := do
  match ← attempt (dirLookup M parent name) with
  | .ok existing => pure existing
  | .error .notFound => do
    let ino ← allocInode M
    M.writeInode ino (.empty kindFile)
    dirAdd M parent ino name
    pure ino
  | .error e => fail e

def writeFile (path data : List Byte) : Prog σ FsError Nat := do
  let target ← resolveParent M path
  let ino ← openFile M target.1 target.2
  let node ← M.readInode ino
  rejectIf (node.kind ≠ kindFile) .wrongKind
  writeInodeData M ino node data
  pure ino

def readFile : Prog σ FsError (List Byte) := do
  let ino ← resolve M path
  let node ← M.readInode ino
  rejectIf (node.kind ≠ kindFile) .wrongKind
  readInodeData M node

def listDir : Prog σ FsError (List DirEntry) := do
  let ino ← resolve M path
  readDirEntries M ino

def pathExists : Prog σ FsError Bool := do
  let found ← attempt (resolve M path)
  pure found.isOk

def removeFile : Prog σ FsError Unit := do
  let target ← resolveParent M path
  let ino ← dirLookup M target.1 target.2
  let node ← M.readInode ino
  rejectIf (node.kind ≠ kindFile) .wrongKind
  forEach (node.direct.take node.blocksUsed) fun blk => if blk ≠ 0 then freeBlock M blk else pure ()
  M.writeInode ino (.empty kindFree)
  dirRemove M target.1 target.2

end

end CibosPlatform.Kernel.Cibosfs.Operations
