/- source: cibos-kernel/src/fs.rs
   digest: Which failing calls leave the file system as it was, and which lose space. -/

import CibosPlatform.Kernel.Cibosfs.Integrity

namespace CibosPlatform.Kernel.Cibosfs.Atomicity

open Core MachineWord Program Blocks Calls Device
open Directories Disk Integrity Layout
open Operations Runs View Fs

section

variable {σ : Type} (M : Medium σ)

def freeInodes (s : σ) : List Nat :=
  (upTo 1 (M.superblock s).inodeCount).filter fun ino =>
    match inodeAt M s ino with
    | some inode => inode.kind = kindFree
    | none => false

def freeBlocks (s : σ) : List Nat := (upTo 0 (M.superblock s).dataBlocks).filter fun i => !bitAt M s i

structure SameView (s s' : σ) : Prop where
  readFile : ∀ path, (readFile M path s').1 = (readFile M path s).1
  listDir : ∀ path, (listDir M path s').1 = (listDir M path s).1
  pathExists : ∀ path, (pathExists M path s').1 = (pathExists M path s).1

def AllOrNothing (s : σ) (call : Call) : Prop := ∀ e s', exec M call s = (.err e, s') →
  SameView M s s' ∧ freeInodes M s' = freeInodes M s ∧ freeBlocks M s' = freeBlocks M s

end

section

variable {D : Type} [BlockDevice D] (profile : BuildProfile) {fs : Fs D} {v : Volume} {t : DirTree}

theorem freeInodes_device (faultFree : FaultFree D) (rep : Represents fs v) :
    freeInodes (medium profile) fs = vacant v := by
  change (upTo 1 fs.sb.inodeCount).filter _ = _
  rw [rep.sb, vacant]
  refine List.filter_congr fun ino hino => ?_
  rw [inodeAt_device profile faultFree rep, if_pos (mem_upTo.mp hino).2]

theorem freeBlocks_device (faultFree : FaultFree D) (rep : Represents fs v) :
    freeBlocks (medium profile) fs = free v := by
  change (upTo 0 fs.sb.dataBlocks).filter _ = _
  rw [rep.sb, free]
  refine List.filter_congr fun i hi => ?_
  rw [bitAt_device profile faultFree rep (mem_upTo.mp hi).2]

theorem sameView_of_answers {σ : Type} {M : Medium σ} {s s' : σ} (h : Answers M s t) (h' : Answers M s' t) :
    SameView M s s' where
  readFile path := (h'.readFile path).trans (h.readFile path).symm
  listDir path := (h'.listDir path).trans (h.listDir path).symm
  pathExists path := (h'.pathExists path).trans (h.pathExists path).symm

theorem allOrNothing_iff_atomic (faultFree : FaultFree D) (rep : Represents fs v) (holds : Holds v t)
    (call : Call) : AllOrNothing (medium profile) fs call ↔
      Atomic (vacant v).length (free v).length t call := by
  obtain ⟨r, fs', v', hrun, heffect, hrep⟩ := exec_device profile faultFree rep holds call
  cases heffect with
  | done does holds' exact' atomic =>
    refine ⟨fun _ => atomic, fun _ e s' herr => ?_⟩
    rw [hrun] at herr
    cases herr
  | refused atomic =>
    refine ⟨fun _ => atomic, fun _ e s' herr => ?_⟩
    rw [hrun] at herr
    cases herr
    refine ⟨sameView_of_answers (answers_device profile faultFree rep holds)
      (answers_device profile faultFree hrep holds), ?_, ?_⟩
    · rw [freeInodes_device profile faultFree rep, freeInodes_device profile faultFree hrep]
    · rw [freeBlocks_device profile faultFree rep, freeBlocks_device profile faultFree hrep]
  | torn holds' changed torn =>
    refine ⟨fun h => ?_, fun atomic => absurd atomic torn⟩
    obtain ⟨-, hinodes, hblocks⟩ := h _ _ hrun
    rw [freeInodes_device profile faultFree rep, freeInodes_device profile faultFree hrep] at hinodes
    rw [freeBlocks_device profile faultFree rep, freeBlocks_device profile faultFree hrep] at hblocks
    rcases changed with hne | hne
    · exact absurd hinodes hne
    · exact absurd hblocks hne

/-- After any calls on a formatted device, the next call does all or nothing exactly under the
stated condition on the visible tree and the free inodes and blocks. -/
theorem cibosfs_allOrNothing_iff (faultFree : FaultFree D) (dev : D) (inodeCount : Nat)
    (hcount : inodeCount < 2 ^ 32) (fs : Fs D) (hformat : format profile dev inodeCount = .ok fs)
    (calls : List Call) (fs' : Fs D) (hrun : (trace (medium profile) calls fs).2 = fs') :
    ∃ t, Answers (medium profile) fs' t ∧ ∀ call, AllOrNothing (medium profile) fs' call ↔
      Atomic (freeInodes (medium profile) fs').length (freeBlocks (medium profile) fs').length t call := by
  obtain ⟨v, hrep, hholds, -⟩ := format_holds faultFree hcount hformat
  obtain ⟨v', t, hrep', hholds', -⟩ := trace_holds profile faultFree hrep hholds calls
  rw [hrun] at hrep'
  refine ⟨t, answers_device profile faultFree hrep' hholds', fun call => ?_⟩
  rw [freeInodes_device profile faultFree hrep', freeBlocks_device profile faultFree hrep']
  exact allOrNothing_iff_atomic profile faultFree hrep' hholds' call

/-- On a small disk, right after formatting. -/
theorem cibosfs_allOrNothing_iff_small : ∃ fs t, format .dev smallDisk 8 = .ok fs ∧
    Answers (medium .dev) fs t ∧ ∀ call, AllOrNothing (medium .dev) fs call ↔
      Atomic (freeInodes (medium .dev) fs).length (freeBlocks (medium .dev) fs).length t call := by
  obtain ⟨fs, fs', hformat, -⟩ := exists_run [] [] (by decide +kernel)
  obtain ⟨t, hanswers, hiff⟩ := cibosfs_allOrNothing_iff .dev RamDisk.faultFree smallDisk 8 (by decide) fs
    hformat [] fs rfl
  exact ⟨fs, t, hformat, hanswers, hiff⟩

/-- On a freshly formatted disk, `mkdir` with a name of 24 bytes fails with `TooLarge` and keeps the
inode it took. -/
theorem mkdir_longName_loses_inode : ∃ fs fs', format .dev smallDisk 8 = .ok fs ∧
    exec (medium .dev) (.mkdir (List.replicate 24 0x61)) fs = (.err .tooLarge, fs') ∧
    freeInodes (medium .dev) fs = [1, 2, 3, 4, 5, 6, 7] ∧
    freeInodes (medium .dev) fs' = [2, 3, 4, 5, 6, 7] ∧
    ¬ AllOrNothing (medium .dev) fs (.mkdir (List.replicate 24 0x61)) := by
  have hcheck : (format .dev smallDisk 8).okAnd (fun fs =>
      decide ((exec (medium .dev) (.mkdir (List.replicate 24 0x61)) fs).1 = .err .tooLarge ∧
        freeInodes (medium .dev) fs = [1, 2, 3, 4, 5, 6, 7] ∧
        freeInodes (medium .dev) (exec (medium .dev) (.mkdir (List.replicate 24 0x61)) fs).2 =
          [2, 3, 4, 5, 6, 7])) = true := by decide +kernel
  obtain ⟨fs, hformat, hruns⟩ := Outcome.okAnd_iff.mp hcheck
  obtain ⟨herr, hbefore, hafter⟩ := of_decide_eq_true hruns
  refine ⟨fs, _, hformat, Prod.ext herr rfl, hbefore, hafter, fun h => ?_⟩
  have hsame := (h _ _ (Prod.ext herr rfl)).2.1
  rw [hbefore, hafter] at hsame
  cases hsame

end

end CibosPlatform.Kernel.Cibosfs.Atomicity
