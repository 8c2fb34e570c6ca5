/- source: cibos-kernel/src/fs.rs
   digest: Sequences of calls on a formatted device, and the directory tree they amount to. -/

import CibosPlatform.Kernel.Cibosfs.Calls
import CibosPlatform.Kernel.Cibosfs.Format

namespace CibosPlatform.Kernel.Cibosfs.Runs

open Core LittleEndian MachineWord NamedTree Program Core.Program.Prog List
open Blocks Calls Device Directories
open Disk Format Layout Operations
open Rewrite Transport View Fs

def trace {σ : Type} (M : Medium σ) : List Call → σ → List (Outcome FsError (Option Nat)) × σ
  | [], s => ([], s)
  | call :: calls, s =>
    let first := exec M call s
    let rest := trace M calls first.2
    (first.1 :: rest.1, rest.2)

/-- A tree comes from another by what a sequence of successful calls is for. -/
inductive Replays : List Call → List (Option Nat) → DirTree → DirTree → Prop
  | nil (t : DirTree) : Replays [] [] t t
  | cons {call : Call} {calls : List Call} {reply : Option Nat} {replies : List (Option Nat)}
      {t t1 t2 : DirTree} (does : Does call reply t t1) (rest : Replays calls replies t1 t2) :
      Replays (call :: calls) (reply :: replies) t t2

def bareRoot : DirTree := .branch rootInode []

section

variable {D : Type} [BlockDevice D] (profile : BuildProfile) {fs : Fs D} {v : Volume} {t : DirTree}

theorem exec_sim {σ τ : Type} {R : σ → τ → Prop} {M : Medium σ} {N : Medium τ} (refines : Refines R M N)
    (call : Call) : Sim R (exec M call) (exec N call) := by
  cases call with
  | mkdir path => exact (refines.mkdir path).bind fun _ => .pure _
  | writeFile path data => exact (refines.writeFile path data).bind fun _ => .pure _
  | removeFile path => exact (refines.removeFile path).bind fun _ => .pure _

variable (faultFree : FaultFree D) (rep : Represents fs v) (holds : Holds v t)

include faultFree rep holds

theorem exec_device (call : Call) :
    ∃ r fs' v', exec (medium profile) call fs = (r, fs') ∧ Effect v t call (r, v') ∧
      Represents fs' v' := by
  have heffect := exec_effect profile holds call
  rcases hrun : exec (Volume.medium profile) call v with ⟨r, v'⟩
  rw [hrun] at heffect
  obtain ⟨fs', hdevice, hrep⟩ := (exec_sim (medium_refines faultFree profile) call).run rep hrun
    heffect.covered
  exact ⟨r, fs', v', hdevice, heffect, hrep⟩

theorem answers_device : Answers (medium profile) fs t where
  readFile path := by
    have hrun := readFile_run profile holds path
    have hcovered : answer fileData (t.lookup (components path)) ≠ .panic := by
      rcases t.lookup (components path) with m | ⟨ino, data⟩ | ⟨ino, children⟩ <;> rintro ⟨⟩
    obtain ⟨fs', h, -⟩ := ((medium_refines faultFree profile).readFile path).run rep hrun hcovered
    rw [h]
  listDir path := by
    have hrun := listDir_run profile holds path
    have hcovered : answer dirEntries (t.lookup (components path)) ≠ .panic := by
      rcases t.lookup (components path) with m | ⟨ino, data⟩ | ⟨ino, children⟩ <;> rintro ⟨⟩
    obtain ⟨fs', h, -⟩ := ((medium_refines faultFree profile).listDir path).run rep hrun hcovered
    rw [h]
  pathExists path := by
    have hrun := pathExists_run profile holds path
    obtain ⟨fs', h, -⟩ := ((medium_refines faultFree profile).pathExists path).run rep hrun nofun
    rw [h]

theorem trace_holds (calls : List Call) :
    ∃ v' t', Represents (trace (medium profile) calls fs).2 v' ∧ Holds v' t' ∧
      ∀ r ∈ (trace (medium profile) calls fs).1, r ≠ .panic := by
  induction calls generalizing fs v t with
  | nil => exact ⟨v, t, rep, holds, nofun⟩
  | cons call calls ih =>
    obtain ⟨r, fs', v', hrun, heffect, hrep⟩ := exec_device profile faultFree rep holds call
    obtain ⟨t1, hholds⟩ : ∃ t1, Holds v' t1 := by
      cases heffect with
      | refused => exact ⟨t, holds⟩
      | done _ holds' | torn holds' => exact ⟨_, holds'⟩
    obtain ⟨v2, t2, hrep2, hholds2, hrest⟩ := ih hrep hholds
    rw [trace, hrun]
    exact ⟨v2, t2, hrep2, hholds2, forall_mem_cons.mpr ⟨heffect.covered, hrest⟩⟩

theorem trace_replays {calls : List Call} {replies : List (Option Nat)}
    (hok : (trace (medium profile) calls fs).1 = replies.map .ok) :
    ∃ v' t', Represents (trace (medium profile) calls fs).2 v' ∧ Holds v' t' ∧
      Replays calls replies t t' ∧ (Exact v t → Exact v' t') := by
  induction calls generalizing fs v t replies with
  | nil =>
    cases replies with
    | nil => exact ⟨v, t, rep, holds, .nil t, id⟩
    | cons reply replies => cases hok
  | cons call calls ih =>
    obtain ⟨r, fs', v', hrun, heffect, hrep⟩ := exec_device profile faultFree rep holds call
    rw [trace, hrun] at hok ⊢
    cases replies with
    | nil => cases hok
    | cons reply replies =>
      rw [map_cons, cons.injEq] at hok
      obtain ⟨rfl, hrest⟩ := hok
      cases heffect with
      | done does holds' exact' =>
        obtain ⟨v2, t2, hrep2, hholds2, hreplays, hexact2⟩ := ih hrep holds' hrest
        exact ⟨v2, t2, hrep2, hholds2, .cons does hreplays, fun h => hexact2 (exact' h)⟩

end

section

variable {D : Type} [BlockDevice D] {profile : BuildProfile} {dev : D} {inodeCount : Nat} {fs : Fs D}

private theorem fresh_inode (sb : Superblock) (data : Nat → List Byte) (ino : Nat) :
    (fresh sb data).inodes ino = .empty (if ino = rootInode then kindDir else kindFree) := by
  change Function.update _ _ _ _ = _
  rw [Function.update_apply]
  split
  · rfl
  · rfl

private theorem fresh_used (sb : Superblock) (data : Nat → List Byte) (ino : Nat) :
    used ((fresh sb data).inodes ino) = [] := by
  have hnone : (Inode.empty (if ino = rootInode then kindDir else kindFree)).blocksUsed = 0 := by
    change divCeil 0 blockBytes = 0
    decide
  rw [fresh_inode, used, hnone, take_zero]

private theorem fresh_sound (faultFree : FaultFree D) {data : Nat → List Byte}
    (rep : Represents fs (fresh fs.sb data)) : Sound (fresh fs.sb data) where
  geometry := rep.geometry
  fits := rep.fits
  size := by
    intro ino _
    rw [fresh_inode]
    exact Nat.zero_le _
  block := by
    intro lba hlba
    rw [← rep.data lba hlba]
    have hends := rep.geometry.ends
    have hcount := rep.count
    exact (readBlock_eq faultFree (by rw [hcount, ← hends]; exact hlba.2)).2
  placed := by
    intro ino _ p hp
    rw [fresh_used] at hp
    cases hp
  nodup := by
    intro ino _
    rw [fresh_used]
    exact nodup_nil
  disjoint := by
    intro i j _ _ _ p hp
    rw [fresh_used] at hp
    cases hp

private theorem bareRoot_labels : bareRoot.labels = {rootInode} := by simp [bareRoot, Tree.labels]

theorem format_holds (faultFree : FaultFree D) (hcount : inodeCount < 2 ^ 32)
    (hformat : Fs.format profile dev inodeCount = .ok fs) :
    ∃ v, Represents fs v ∧ Holds v bareRoot ∧ Exact v bareRoot := by
  obtain ⟨hpos, hinodes, data, hrep⟩ := format_ok faultFree hcount hformat
  have hroot : (fresh fs.sb data).inodes rootInode = .empty kindDir := by rw [fresh_inode, if_pos rfl]
  refine ⟨_, hrep, ⟨fresh_sound faultFree hrep, rfl, rfl, ?_, ?_, ?_⟩, ⟨?_, ?_⟩⟩
  · intro x hx
    rw [bareRoot, Tree.nodes_branch, Tree.nodesOf_nil, Multiset.cons_zero, Multiset.mem_singleton] at hx
    rw [hx]
    have hshows : Shows (fresh fs.sb data) rootInode (Changes.bareNode true rootInode).face :=
      Changes.bareNode_shows (hinodes ▸ hpos) hroot
    exact hshows
  · rw [bareRoot_labels]
    exact Multiset.nodup_singleton _
  · intro ino _ _
    rw [fresh_inode]
    rfl
  · intro i _ hbit
    cases hbit
  · intro ino _ hkind
    rw [bareRoot_labels, Multiset.mem_singleton]
    by_contra hne
    rw [fresh_inode, if_neg hne] at hkind
    exact hkind rfl

end

section

variable {D : Type} [BlockDevice D]

/-- On a fault-free device the file system is the directory tree that its calls make, and mounting
the device again finds the same tree. -/
theorem cibosfs_refines_tree (faultFree : FaultFree D) (profile : BuildProfile) (dev : D) (inodeCount : Nat)
    (hcount : inodeCount < 2 ^ 32) (fs fs' : Fs D) (hformat : Fs.format profile dev inodeCount = .ok fs)
    (calls : List Call) (replies : List (Option Nat))
    (hrun : trace (medium profile) calls fs = (replies.map .ok, fs')) :
    ∃ t, Replays calls replies bareRoot t ∧ Answers (medium profile) fs' t ∧
      ∃ mounted, mount fs'.intoDevice = .ok mounted ∧ Answers (medium profile) mounted t := by
  obtain ⟨v, hrep, hholds, -⟩ := format_holds faultFree hcount hformat
  obtain ⟨v', t, hrep', hholds', hreplays, -⟩ := trace_replays profile faultFree hrep hholds (by rw [hrun])
  rw [hrun] at hrep'
  have hanswers := answers_device profile faultFree hrep' hholds'
  exact ⟨t, hreplays, hanswers, fs', mount_intoDevice faultFree hrep', hanswers⟩

def smallDisk : RamDisk := RamDisk.new 8 (by decide)

theorem exists_run (calls : List Call) (replies : List (Outcome FsError (Option Nat)))
    (h : (match Fs.format .dev smallDisk 8 with
      | .ok fs => decide ((trace (medium .dev) calls fs).1 = replies)
      | _ => false) = true) :
    ∃ fs fs', Fs.format .dev smallDisk 8 = .ok fs ∧ trace (medium .dev) calls fs = (replies, fs') := by
  rcases hformat : Fs.format .dev smallDisk 8 with fs | e | _
  · simp only [hformat, decide_eq_true_eq] at h
    exact ⟨fs, _, rfl, Prod.ext h rfl⟩
  · simp [hformat] at h
  · simp [hformat] at h

/-- A directory `d` and in it a file `f`. -/
theorem cibosfs_refines_tree_small : ∃ fs fs' t, Fs.format .dev smallDisk 8 = .ok fs ∧
    trace (medium .dev) [.mkdir [0x64], .writeFile [0x64, 0x2f, 0x66] [0x68, 0x69]] fs =
      ([.ok (some 1), .ok (some 2)], fs') ∧
    Replays [.mkdir [0x64], .writeFile [0x64, 0x2f, 0x66] [0x68, 0x69]] [some 1, some 2] bareRoot t ∧
    Answers (medium .dev) fs' t := by
  obtain ⟨fs, fs', hformat, hrun⟩ := exists_run
    [.mkdir [0x64], .writeFile [0x64, 0x2f, 0x66] [0x68, 0x69]] [.ok (some 1), .ok (some 2)]
    (by decide +kernel)
  obtain ⟨t, hreplays, hanswers, -⟩ := cibosfs_refines_tree RamDisk.faultFree .dev smallDisk 8 (by decide) fs fs'
    hformat [.mkdir [0x64], .writeFile [0x64, 0x2f, 0x66] [0x68, 0x69]] [some 1, some 2] hrun
  exact ⟨fs, fs', t, hformat, hrun, hreplays, hanswers⟩

end

end CibosPlatform.Kernel.Cibosfs.Runs
