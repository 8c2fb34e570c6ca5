/- source: cibos-kernel/src/fs.rs
   digest: What is on the disk after any calls: no shared block, no dangling entry, no lost space. -/

import CibosPlatform.Kernel.Cibosfs.Runs

namespace CibosPlatform.Kernel.Cibosfs.Integrity

open Core LittleEndian MachineWord NamedTree Program Core.Program.Prog List
open Blocks Calls Changes Device
open Directories Disk Layout Operations
open Runs View Fs DirEntry Face

section

variable {σ : Type} (M : Medium σ) (s : σ)

def inodeAt (ino : Nat) : Option Inode :=
  match (M.readInode ino s).1 with
  | .ok inode => some inode
  | _ => none

def bitAt (i : Nat) : Bool :=
  match (M.bitGet i s).1 with
  | .ok bit => bit
  | _ => false

def entriesAt (dir : Nat) : Option (List DirEntry) :=
  match (readDirEntries M dir s).1 with
  | .ok entries => some entries
  | _ => none

def InUse (ino : Nat) : Prop := ∃ inode, inodeAt M s ino = some inode ∧ inode.kind ≠ kindFree

/-- What the disk keeps to. A slot of a directory that is not an entry would show in `whole`. -/
structure WellFormed : Prop where
  unshared : ∀ (i j k l : Nat) inode inode' p, inodeAt M s i = some inode → inodeAt M s j = some inode' →
    (used inode)[k]? = some p → (used inode')[l]? = some p → i = j ∧ k = l
  placed : ∀ ino inode, inodeAt M s ino = some inode → ∀ p ∈ used inode,
    InData (M.superblock s) p ∧ bitAt M s (p - (M.superblock s).dataStart) = true
  whole : ∀ dir inode, inodeAt M s dir = some inode → inode.kind = kindDir →
    ∃ entries, entriesAt M s dir = some entries ∧ entries.length * dirEntrySize = inode.size
  named : ∀ dir entries, entriesAt M s dir = some entries → (entries.map name).Nodup ∧
    ∀ e ∈ entries, e.name ≠ [] ∧ e.name.length ≤ nameMax ∧ InUse M s e.inode
  once : ∀ dir dir' entries entries' (k l : Nat) e e', entriesAt M s dir = some entries →
    entriesAt M s dir' = some entries' → entries[k]? = some e → entries'[l]? = some e' →
    e.inode = e'.inode → dir = dir' ∧ k = l

inductive Reachable : Nat → Prop
  | root : Reachable rootInode
  | entry {dir : Nat} {entries : List DirEntry} {e : DirEntry} (parent : Reachable dir)
      (listed : entriesAt M s dir = some entries) (mem : e ∈ entries) : Reachable e.inode

structure Lossless : Prop where
  blocks : ∀ i, i < (M.superblock s).dataBlocks → (bitAt M s i = true ↔
    ∃ ino inode, inodeAt M s ino = some inode ∧ inode.kind ≠ kindFree ∧
      (M.superblock s).dataStart + i ∈ used inode)
  inodes : ∀ ino, InUse M s ino ↔ Reachable M s ino

end

variable {dir i : Nat} {x : Nat × Face Name Nat (List Byte)}

section

variable (profile : BuildProfile) {v : Volume} {t : DirTree}

theorem below_label (hx : x ∈ t.nodes) (hi : i ∈ x.2.below) : i ∈ t.labels := by
  rw [Tree.labels_eq]
  exact Multiset.mem_cons_of_mem (Multiset.mem_bind.mpr ⟨x, hx, Multiset.mem_coe.mpr hi⟩)

theorem readDirEntries_node (holds : Holds v t) {listing : Listing}
    (hnode : (dir, branch listing) ∈ t.nodes) :
    readDirEntries (Volume.medium profile) dir v = (.ok (readListing v listing), v) := by
  refine readDirEntries_branch profile holds.sound (holds.shown _ hnode) fun e he => ?_
  obtain ⟨x, hx, hsame⟩ := Multiset.mem_map.mp (below_label hnode (mem_map.mpr ⟨e, he, rfl⟩))
  exact hsame ▸ (holds.shown x hx).inRange

theorem readDirEntries_cases (holds : Holds v t) (dir : Nat) :
    (∃ e, readDirEntries (Volume.medium profile) dir v = (.err e, v) ∧
      ¬ (dir < v.sb.inodeCount ∧ (v.inodes dir).kind = kindDir)) ∨
    ∃ listing, readDirEntries (Volume.medium profile) dir v = (.ok (readListing v listing), v) ∧
      Shows v dir (.branch listing) ∧ (listing = [] ∨ (dir, branch listing) ∈ t.nodes) := by
  by_cases hrange : dir < v.sb.inodeCount
  · by_cases hkind : (v.inodes dir).kind = kindDir
    · right
      by_cases hlabel : dir ∈ t.labels
      · obtain ⟨⟨ino, face⟩, hnode, rfl⟩ := Multiset.mem_map.mp hlabel
        have hshows := holds.shown _ hnode
        cases face with
        | leaf data =>
          rw [hshows.2.1] at hkind
          cases hkind
        | branch listing =>
          exact ⟨listing, readDirEntries_node profile holds hnode, hshows, .inr hnode⟩
      · have hempty : Shows v dir (.branch []) := by
          refine ⟨hrange, hkind, ?_, nodup_nil, fun e he => absurd he not_mem_nil⟩
          rw [contents, holds.stray dir hrange hlabel]
          exact take_zero
        exact ⟨[], readDirEntries_branch profile holds.sound hempty (fun e he => absurd he not_mem_nil), hempty, .inl rfl⟩
    · left
      refine ⟨.wrongKind, ?_, fun h => hkind h.2⟩
      rw [readDirEntries, bind_ok (Volume.readInode_run profile hrange),
        bind_err (rejectIf_pos hkind _ v)]
  · left
    exact ⟨.notFound, bind_err (if_neg hrange), fun h => hrange h.1⟩

theorem listed_once (nodup : t.labels.Nodup) {y : Nat × Face Name Nat (List Byte)} (hx : x ∈ t.nodes)
    (hy : y ∈ t.nodes) (hxi : i ∈ x.2.below) (hyi : i ∈ y.2.below) : x = y ∧ x.2.below.Nodup := by
  rw [Tree.labels_eq, Multiset.nodup_cons] at nodup
  obtain ⟨rest, hrest⟩ := Multiset.exists_cons_of_mem hx
  have hbind := nodup.2
  rw [hrest, Multiset.cons_bind, Multiset.nodup_add] at hbind
  refine ⟨?_, Multiset.coe_nodup.mp hbind.1⟩
  rw [hrest, Multiset.mem_cons] at hy
  rcases hy with hy | hy
  · exact hy.symm
  · have hmem : i ∈ rest.bind fun x => (x.2.below : Multiset Nat) :=
      Multiset.mem_bind.mpr ⟨y, hy, Multiset.mem_coe.mpr hyi⟩
    exact absurd hmem (Multiset.disjoint_left.mp hbind.2.2 (Multiset.mem_coe.mpr hxi))

end

variable {ino : Nat}

section

variable {D : Type} [BlockDevice D] (profile : BuildProfile) {fs : Fs D} {v : Volume} {t : DirTree}

variable (faultFree : FaultFree D) (rep : Represents fs v)

include faultFree rep

theorem inodeAt_device (ino : Nat) :
    inodeAt (medium profile) fs ino = if ino < v.sb.inodeCount then some (v.inodes ino) else none := by
  have hsim := (medium_refines faultFree profile).readInode ino
  by_cases hrange : ino < v.sb.inodeCount
  · obtain ⟨fs', h, -⟩ := hsim.run rep (Volume.readInode_run profile hrange) nofun
    rw [inodeAt, h, if_pos hrange]
  · have hmiss : (Volume.medium profile).readInode ino v = (.err .notFound, v) := if_neg hrange
    obtain ⟨fs', h, -⟩ := hsim.run rep hmiss nofun
    rw [inodeAt, h, if_neg hrange]

theorem inodeAt_eq_some {inode : Inode} :
    inodeAt (medium profile) fs ino = some inode ↔ ino < v.sb.inodeCount ∧ v.inodes ino = inode := by
  rw [inodeAt_device profile faultFree rep]
  by_cases hrange : ino < v.sb.inodeCount
  · rw [if_pos hrange, Option.some.injEq]
    exact ⟨fun h => ⟨hrange, h⟩, fun h => h.2⟩
  · rw [if_neg hrange]
    exact ⟨nofun, fun h => absurd h.1 hrange⟩

theorem inUse_iff :
    InUse (medium profile) fs ino ↔ ino < v.sb.inodeCount ∧ (v.inodes ino).kind ≠ kindFree := by
  constructor
  · rintro ⟨inode, hinode, hkind⟩
    obtain ⟨hrange, rfl⟩ := (inodeAt_eq_some profile faultFree rep).mp hinode
    exact ⟨hrange, hkind⟩
  · rintro ⟨hrange, hkind⟩
    exact ⟨_, (inodeAt_eq_some profile faultFree rep).mpr ⟨hrange, rfl⟩, hkind⟩

theorem bitAt_device (hi : i < v.sb.dataBlocks) : bitAt (medium profile) fs i = v.bits i := by
  obtain ⟨fs', h, -⟩ := ((medium_refines faultFree profile).bitGet i).run rep
    (Volume.bitGet_run profile hi) nofun
  rw [bitAt, h]

theorem entriesAt_device (holds : Holds v t) (dir : Nat) :
    (entriesAt (medium profile) fs dir = none ∧
      ¬ (dir < v.sb.inodeCount ∧ (v.inodes dir).kind = kindDir)) ∨
    ∃ listing, entriesAt (medium profile) fs dir = some (readListing v listing) ∧
      Shows v dir (.branch listing) ∧ (listing = [] ∨ (dir, branch listing) ∈ t.nodes) := by
  have hsim := (medium_refines faultFree profile).readDirEntries dir
  rcases readDirEntries_cases profile holds dir with ⟨e, hrun, hkind⟩ | ⟨listing, hrun, hshows, hnode⟩
  · obtain ⟨fs', h, -⟩ := hsim.run rep hrun nofun
    exact .inl ⟨by rw [entriesAt, h], hkind⟩
  · obtain ⟨fs', h, -⟩ := hsim.run rep hrun nofun
    exact .inr ⟨listing, by rw [entriesAt, h], hshows, hnode⟩

theorem entriesAt_eq_some (holds : Holds v t) {entries : List DirEntry}
    (h : entriesAt (medium profile) fs dir = some entries) :
    ∃ listing, entries = readListing v listing ∧ Shows v dir (.branch listing) ∧
      (listing = [] ∨ (dir, branch listing) ∈ t.nodes) := by
  rcases entriesAt_device profile faultFree rep holds dir with ⟨hnone, -⟩ | ⟨listing, hsome, hshows, hnode⟩
  · rw [hnone] at h
    cases h
  · rw [hsome, Option.some.injEq] at h
    exact ⟨listing, h.symm, hshows, hnode⟩

omit faultFree rep

theorem readListing_below (v : Volume) (listing : Listing) :
    (readListing v listing).map inode = (branch listing : Face Name Nat (List Byte)).below := by
  rw [readListing, map_map]
  rfl

private theorem entry_below {listing : Listing}
    (hnode : listing = [] ∨ (dir, branch listing) ∈ t.nodes) {e : DirEntry}
    (he : e ∈ readListing v listing) : (dir, branch listing) ∈ t.nodes ∧
      e.inode ∈ (branch listing : Face Name Nat (List Byte)).below := by
  rcases hnode with rfl | hnode
  · cases he
  · refine ⟨hnode, ?_⟩
    rw [← readListing_below v]
    exact mem_map_of_mem he

variable (faultFree : FaultFree D) (rep : Represents fs v) (holds : Holds v t)

include faultFree rep holds

private theorem label_inUse (h : ino ∈ t.labels) : InUse (medium profile) fs ino := by
  rw [inUse_iff profile faultFree rep]
  refine ⟨?_, kind_of_label holds.shown h⟩
  obtain ⟨x, hx, rfl⟩ := Multiset.mem_map.mp h
  exact (holds.shown x hx).inRange

theorem wellFormed_of_holds : WellFormed (medium profile) fs where
  unshared := by
    intro i j k l inode inode' p hi hj hk hl
    obtain ⟨hirange, rfl⟩ := (inodeAt_eq_some profile faultFree rep).mp hi
    obtain ⟨hjrange, rfl⟩ := (inodeAt_eq_some profile faultFree rep).mp hj
    have hsame : i = j := by
      by_contra hne
      exact holds.sound.disjoint i j hirange hjrange hne (mem_of_getElem? hk) (mem_of_getElem? hl)
    subst hsame
    refine ⟨rfl, ?_⟩
    exact (getElem?_inj (List.getElem?_eq_some_iff.mp hk).1 (holds.sound.nodup i hirange)).mp
      (hk.trans hl.symm)
  placed := by
    intro ino inode hinode p hp
    obtain ⟨hrange, rfl⟩ := (inodeAt_eq_some profile faultFree rep).mp hinode
    obtain ⟨hdata, hbit⟩ := holds.sound.placed ino hrange p hp
    change InData fs.sb p ∧ bitAt (medium profile) fs (p - fs.sb.dataStart) = true
    rw [rep.sb]
    exact ⟨hdata, by rw [bitAt_device profile faultFree rep hdata.index.1, hbit]⟩
  whole := by
    intro dir inode hinode hkind
    obtain ⟨hrange, rfl⟩ := (inodeAt_eq_some profile faultFree rep).mp hinode
    rcases entriesAt_device profile faultFree rep holds dir with ⟨-, hnot⟩ | ⟨listing, hsome, hshows, -⟩
    · exact absurd ⟨hrange, hkind⟩ hnot
    · refine ⟨_, hsome, ?_⟩
      rw [size_of_shows holds.sound hshows, readListing, length_map]
  named := by
    intro dir entries hentries
    obtain ⟨listing, rfl, hshows, hnode⟩ := entriesAt_eq_some profile faultFree rep holds hentries
    refine ⟨?_, fun e he => ?_⟩
    · have hnames : (readListing v listing).map name = listing.map Prod.fst := by
        rw [readListing, map_map]
        rfl
      rw [hnames]
      exact hshows.2.2.2.1
    · obtain ⟨hmem, hbelow⟩ := entry_below hnode he
      obtain ⟨e', he', rfl⟩ := mem_map.mp he
      obtain ⟨-, hname, hshort⟩ := hshows.2.2.2.2 e' he'
      exact ⟨hname, hshort, label_inUse profile faultFree rep holds (below_label hmem hbelow)⟩
  once := by
    intro dir dir' entries entries' k l e e' hdir hdir' hk hl hsame
    obtain ⟨listing, rfl, -, hnode⟩ := entriesAt_eq_some profile faultFree rep holds hdir
    obtain ⟨listing', rfl, -, hnode'⟩ := entriesAt_eq_some profile faultFree rep holds hdir'
    obtain ⟨hmem, hbelow⟩ := entry_below hnode (mem_of_getElem? hk)
    obtain ⟨hmem', hbelow'⟩ := entry_below hnode' (mem_of_getElem? hl)
    rw [← hsame] at hbelow'
    obtain ⟨hone, hnodup⟩ := listed_once holds.nodup hmem hmem' hbelow hbelow'
    obtain ⟨rfl, hface⟩ := Prod.mk.injEq .. ▸ hone
    cases hface
    refine ⟨rfl, ?_⟩
    rw [← readListing_below v] at hnodup
    have hkl : ((readListing v listing).map inode)[k]? =
        ((readListing v listing).map inode)[l]? := by
      rw [getElem?_map, getElem?_map, hk, hl, Option.map_some, Option.map_some, hsame]
    refine (getElem?_inj ?_ hnodup).mp hkl
    rw [length_map]
    exact (List.getElem?_eq_some_iff.mp hk).1

theorem reachable_iff : Reachable (medium profile) fs ino ↔ ino ∈ t.labels := by
  constructor
  · intro h
    induction h with
    | root => exact holds.root ▸ t.label_mem
    | entry parent listed mem _ =>
      obtain ⟨listing, rfl, -, hnode⟩ := entriesAt_eq_some profile faultFree rep holds listed
      obtain ⟨hnode, hbelow⟩ := entry_below hnode mem
      exact below_label hnode hbelow
  · refine fun hlabel => Tree.labels_descent ?_ (fun x hx hreach i hi => ?_) ino hlabel
    · rw [holds.root]
      exact .root
    · rcases x with ⟨dir, face⟩
      cases face with
      | leaf data => cases hi
      | branch listing =>
        obtain ⟨fs', h, -⟩ := ((medium_refines faultFree profile).readDirEntries dir).run rep
          (readDirEntries_node profile holds hx) nofun
        have hlisted : entriesAt (medium profile) fs dir = some (readListing v listing) := by
          rw [entriesAt, h]
        rw [← readListing_below v] at hi
        obtain ⟨e, he, rfl⟩ := mem_map.mp hi
        exact .entry hreach hlisted he

theorem lossless_of_exact (exact : Exact v t) : Lossless (medium profile) fs where
  blocks := by
    intro i hi
    change i < fs.sb.dataBlocks at hi
    change _ ↔ ∃ ino inode, _ ∧ _ ∧ fs.sb.dataStart + i ∈ used inode
    rw [rep.sb] at hi ⊢
    rw [bitAt_device profile faultFree rep hi]
    constructor
    · intro hbit
      obtain ⟨ino, hrange, hused⟩ := exact.noLeak i hi hbit
      refine ⟨ino, _, (inodeAt_eq_some profile faultFree rep).mpr ⟨hrange, rfl⟩, ?_, hused⟩
      -- an inode outside the tree has no blocks
      by_contra hfree
      have hout : ino ∉ t.labels := fun hlabel => kind_of_label holds.shown hlabel hfree
      rw [used, Inode.blocksUsed, holds.stray ino hrange hout] at hused
      cases hused
    · rintro ⟨ino, inode, hinode, -, hused⟩
      obtain ⟨hrange, rfl⟩ := (inodeAt_eq_some profile faultFree rep).mp hinode
      have hbit := (holds.sound.placed ino hrange _ hused).2
      rwa [Nat.add_sub_cancel_left] at hbit
  inodes := by
    intro ino
    rw [inUse_iff profile faultFree rep, reachable_iff profile faultFree rep holds]
    constructor
    · rintro ⟨hrange, hkind⟩
      exact exact.listed ino hrange hkind
    · intro hlabel
      exact (inUse_iff profile faultFree rep).mp (label_inUse profile faultFree rep holds hlabel)

omit faultFree rep holds

private theorem exists_replies {answers : List (Outcome FsError (Option Nat))}
    (h : ∀ r ∈ answers, ∃ reply, r = .ok reply) : ∃ replies : List (Option Nat), answers = replies.map .ok := by
  induction answers with
  | nil => exact ⟨[], rfl⟩
  | cons r answers ih =>
    obtain ⟨⟨reply, rfl⟩, hrest⟩ := forall_mem_cons.mp h
    obtain ⟨replies, rfl⟩ := ih hrest
    exact ⟨reply :: replies, rfl⟩

/-- After any calls the disk is well formed; if all of them succeeded, no space is lost either. -/
theorem cibosfs_wellFormed (faultFree : FaultFree D) (dev : D) (inodeCount : Nat)
    (hcount : inodeCount < 2 ^ 32) (fs : Fs D) (hformat : Fs.format profile dev inodeCount = .ok fs)
    (calls : List Call) :
    WellFormed (medium profile) (trace (medium profile) calls fs).2 ∧
      ((∀ r ∈ (trace (medium profile) calls fs).1, ∃ reply, r = .ok reply) →
        Lossless (medium profile) (trace (medium profile) calls fs).2) := by
  obtain ⟨v, hrep, hholds, hexact⟩ := format_holds faultFree hcount hformat
  constructor
  · obtain ⟨v', t, hrep', hholds', -⟩ := trace_holds profile faultFree hrep hholds calls
    exact wellFormed_of_holds profile faultFree hrep' hholds'
  · intro hall
    obtain ⟨replies, hreplies⟩ := exists_replies hall
    obtain ⟨v', t, hrep', hholds', -, hkeeps⟩ := trace_replays profile faultFree hrep hholds hreplies
    exact lossless_of_exact profile faultFree hrep' hholds' (hkeeps hexact)

/-- A directory and a file in it: the disk is well formed and no space is lost. -/
theorem cibosfs_wellFormed_small : ∃ fs, Fs.format .dev smallDisk 8 = .ok fs ∧
    WellFormed (medium .dev)
      (trace (medium .dev) [.mkdir [0x64], .writeFile [0x64, 0x2f, 0x66] [0x68, 0x69]] fs).2 ∧
    Lossless (medium .dev)
      (trace (medium .dev) [.mkdir [0x64], .writeFile [0x64, 0x2f, 0x66] [0x68, 0x69]] fs).2 := by
  obtain ⟨fs, fs', hformat, hrun⟩ := exists_run
    [.mkdir [0x64], .writeFile [0x64, 0x2f, 0x66] [0x68, 0x69]] [.ok (some 1), .ok (some 2)]
    (by decide +kernel)
  obtain ⟨hwell, hlossless⟩ := cibosfs_wellFormed .dev RamDisk.faultFree smallDisk 8 (by decide) fs hformat
    [.mkdir [0x64], .writeFile [0x64, 0x2f, 0x66] [0x68, 0x69]]
  refine ⟨fs, hformat, hwell, hlossless ?_⟩
  rw [hrun]
  simp

end

end CibosPlatform.Kernel.Cibosfs.Integrity
