/- source: cibos-kernel/src/fs.rs
   digest: The operations do the same on two media whose primitives do the same. -/

import CibosPlatform.Core.Simulation
import CibosPlatform.Kernel.Cibosfs.Operations

namespace CibosPlatform.Kernel.Cibosfs.Transport

open Core LittleEndian Program Core.Program.Prog Layout
open Operations

variable {σ τ α : Type} {R : σ → τ → Prop}

structure Refines (R : σ → τ → Prop) (M : Medium σ) (N : Medium τ) : Prop where
  profile : M.profile = N.profile
  superblock : ∀ s t, R s t → M.superblock s = N.superblock t
  readInode : ∀ ino, Sim R (M.readInode ino) (N.readInode ino)
  writeInode : ∀ ino inode, Sim R (M.writeInode ino inode) (N.writeInode ino inode)
  bitGet : ∀ i, Sim R (M.bitGet i) (N.bitGet i)
  bitSet : ∀ i value, Sim R (M.bitSet i value) (N.bitSet i value)
  readBlock : ∀ lba, Sim R (M.readBlock lba) (N.readBlock lba)
  writeBlock : ∀ lba bytes, Sim R (M.writeBlock lba bytes) (N.writeBlock lba bytes)

private theorem sim_decode (read : Prog Shared.Serialization.ByteReader FsError α) (buf : List Byte) :
    Sim R (decode read buf) (decode read buf) := by
  unfold decode
  split
  · exact .pure _
  · exact .fail _
  · exact .of_trap _

private theorem sim_encode (write : Prog Shared.Serialization.ByteWriter
    Shared.Serialization.SerializationError Unit) (buf : List Byte) :
    Sim R (encode write buf) (encode write buf) := by
  unfold encode
  split
  · exact .pure _
  · exact .fail _
  · exact .of_trap _

private theorem sim_encodeDir (entries : List (Nat × Name)) :
    Sim R (encodeDir entries) (encodeDir entries) := by
  induction entries with
  | nil => exact .pure _
  | cons e entries ih =>
    exact (Sim.orPanic _).bind fun name => (sim_encode _ _).bind fun slot =>
      ih.bind fun slots => .pure _

namespace Refines

variable {M : Medium σ} {N : Medium τ}

variable (h : Refines R M N)

include h

theorem allocInode : Sim R (allocInode M) (allocInode N) := by
  refine (Sim.gets h.superblock).bind fun sb => ?_
  refine (Sim.search fun ino => (h.readInode ino).bind fun node => .pure _).bind fun found => ?_
  cases found with
  | none => exact .fail _
  | some ino => exact .pure ino

theorem allocBlock : Sim R (allocBlock M) (allocBlock N) := by
  refine (Sim.gets h.superblock).bind fun sb => ?_
  refine (Sim.search fun i => (h.bitGet i).bind fun taken => ?_).bind fun found => ?_
  · cases taken with
    | true => exact .pure none
    | false =>
      refine (h.bitSet i true).bind fun _ => ?_
      rw [h.profile]
      exact (Sim.orPanic _).bind fun lba => .pure _
  · cases found with
    | none => exact .fail _
    | some lba => exact .pure lba

theorem freeBlock (lba : Nat) : Sim R (freeBlock M lba) (freeBlock N lba) :=
  (Sim.gets h.superblock).bind fun _ => (Sim.rejectIf _ _).bind fun _ => h.bitSet _ _

variable (inode : Inode)

theorem readInodeData : Sim R (readInodeData M inode) (readInodeData N inode) := by
  unfold Operations.readInodeData
  split
  · exact .of_trap _
  · exact (Sim.foldEach (fun acc blk => (h.readBlock blk).bind fun buf => .pure _) _).bind
      fun out => .pure _

theorem growInode (old new : Nat) : Sim R (growInode M inode old new) (growInode N inode old new) :=
  Sim.foldEach (fun _ _ => h.allocBlock.bind fun _ => .orPanic _) _

theorem shrinkInode (new old : Nat) :
    Sim R (shrinkInode M inode new old) (shrinkInode N inode new old) := by
  refine .foldEach (fun inode i => (Sim.orPanic _).bind fun lba => ?_) _
  split
  · exact (h.freeBlock lba).bind fun _ => .orPanic _
  · exact .pure _

theorem writeInodeData (ino : Nat) (inode : Inode) (data : List Byte) :
    Sim R (writeInodeData M ino inode data) (writeInodeData N ino inode data) :=
  (Sim.rejectIf _ _).bind fun _ => (h.growInode _ _ _).bind fun _ => (h.shrinkInode _ _ _).bind fun _ =>
    (Sim.forEach fun _ => (Sim.orPanic _).bind fun _ => h.writeBlock _ _).bind fun _ => h.writeInode _ _

variable (dirIno : Nat)

theorem readDirEntries : Sim R (readDirEntries M dirIno) (readDirEntries N dirIno) := by
  refine (h.readInode dirIno).bind fun dir => (Sim.rejectIf _ _).bind fun _ =>
    (h.readInodeData dir).bind fun data => .foldEach (fun out i => ?_) _
  refine (sim_decode _ _).bind fun entry => ?_
  split
  · exact (h.readInode _).bind fun child => .pure _
  · exact .pure _

theorem dirAdd (dirIno ino : Nat) (name : Name) :
    Sim R (dirAdd M dirIno ino name) (dirAdd N dirIno ino name) :=
  (Sim.rejectIf _ _).bind fun _ => (h.readDirEntries _).bind fun _ => (sim_encodeDir _).bind fun _ =>
    (h.readInode _).bind fun _ => h.writeInodeData _ _ _

theorem dirLookup (name : Name) : Sim R (dirLookup M dirIno name) (dirLookup N dirIno name) := by
  refine (h.readDirEntries dirIno).bind fun entries => ?_
  split
  · exact .pure _
  · exact .fail _

theorem dirRemove (name : Name) : Sim R (dirRemove M dirIno name) (dirRemove N dirIno name) :=
  (h.readDirEntries _).bind fun _ => (Sim.rejectIf _ _).bind fun _ => (sim_encodeDir _).bind fun _ =>
    (h.readInode _).bind fun _ => h.writeInodeData _ _ _

variable (path : List Byte)

theorem resolve : Sim R (resolve M path) (resolve N path) := .foldEach h.dirLookup _

theorem resolveParent : Sim R (resolveParent M path) (resolveParent N path) := by
  unfold Operations.resolveParent
  split
  · exact .fail _
  · exact (Sim.foldEach h.dirLookup _).bind fun ino => .pure _

theorem mkdir : Sim R (mkdir M path) (mkdir N path) :=
  (h.resolveParent path).bind fun _ => (h.dirLookup _ _).attempt.bind fun _ =>
    (Sim.rejectIf _ _).bind fun _ => h.allocInode.bind fun _ => (h.writeInode _ _).bind fun _ =>
      (h.dirAdd _ _ _).bind fun _ => .pure _

theorem openFile (parent : Nat) (name : Name) :
    Sim R (openFile M parent name) (openFile N parent name) := by
  refine (h.dirLookup parent name).attempt.bind fun found => ?_
  split
  · exact .pure _
  · exact h.allocInode.bind fun _ => (h.writeInode _ _).bind fun _ => (h.dirAdd _ _ _).bind fun _ => .pure _
  · exact .fail _

theorem writeFile (path data : List Byte) : Sim R (writeFile M path data) (writeFile N path data) :=
  (h.resolveParent path).bind fun _ => (h.openFile _ _).bind fun _ => (h.readInode _).bind fun _ =>
    (Sim.rejectIf _ _).bind fun _ => (h.writeInodeData _ _ _).bind fun _ => .pure _

variable (path : List Byte)

theorem readFile : Sim R (readFile M path) (readFile N path) :=
  (h.resolve path).bind fun _ => (h.readInode _).bind fun _ => (Sim.rejectIf _ _).bind fun _ =>
    h.readInodeData _

theorem listDir : Sim R (listDir M path) (listDir N path) :=
  (h.resolve path).bind fun _ => h.readDirEntries _

theorem pathExists : Sim R (pathExists M path) (pathExists N path) :=
  (h.resolve path).attempt.bind fun _ => .pure _

theorem removeFile : Sim R (removeFile M path) (removeFile N path) := by
  refine (h.resolveParent path).bind fun _ => (h.dirLookup _ _).bind fun _ =>
    (h.readInode _).bind fun _ => (Sim.rejectIf _ _).bind fun _ => (Sim.forEach fun blk => ?_).bind fun _ =>
      (h.writeInode _ _).bind fun _ => h.dirRemove _ _
  split
  · exact h.freeBlock _
  · exact .pure _

end Refines

end CibosPlatform.Kernel.Cibosfs.Transport
