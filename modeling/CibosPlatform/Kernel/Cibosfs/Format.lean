/- source: cibos-kernel/src/fs.rs
   digest: What a device stores after it was formatted. -/

import CibosPlatform.Kernel.Cibosfs.View

namespace CibosPlatform.Kernel.Cibosfs.Format

open Core LittleEndian MachineWord Program Prog Device
open Disk Layout View List Fs WordBitmap

def blank (sb : Superblock) (data : Nat → List Byte) : Volume where
  sb := sb
  inodes _ := .empty kindFree
  bits _ := false
  data := data

def fresh (sb : Superblock) (data : Nat → List Byte) : Volume :=
  (blank sb data).setInode rootInode (.empty kindDir)

theorem sizeBitmap_spec {σ : Type} (profile : BuildProfile) {total inodeBlocks : Nat} (htotal : total < 2 ^ 64)
    (hinodes : inodeBlocks ≤ 2 ^ 32) (rounds : Nat) (enough : min total 1 < rounds) (s : σ) :
    (∃ found, sizeBitmap profile total inodeBlocks rounds 1 s = (.ok found, s) ∧
      1 + found + inodeBlocks < total ∧ total - (1 + found + inodeBlocks) ≤ found * bitsPerBlock) ∨
    (sizeBitmap profile total inodeBlocks rounds 1 s = (.err .noSpace, s) ∧ total ≤ 2 + inodeBlocks) := by
  have hround : ∀ rounds b, b ≤ 2 ^ 52 → sizeBitmap profile total inodeBlocks (rounds + 1) b s =
      if total ≤ 1 + b + inodeBlocks then (.err .noSpace, s)
      else if max (divCeil (total - (1 + b + inodeBlocks)) bitsPerBlock) 1 ≤ b then (.ok b, s)
      else sizeBitmap profile total inodeBlocks rounds
        (max (divCeil (total - (1 + b + inodeBlocks)) bitsPerBlock) 1) s := by
    intro rounds b hb
    have hfirst : 1 + b < wordBound := show _ < 2 ^ 64 by omega
    have hsecond : 1 + b + inodeBlocks < wordBound := show _ < 2 ^ 64 by omega
    rw [sizeBitmap, addWord_of_lt profile hfirst, orPanic_some, bind_ok (pure_run _ _),
      addWord_of_lt profile hsecond, orPanic_some, bind_ok (pure_run _ _)]
    by_cases hfull : total ≤ 1 + b + inodeBlocks
    · rw [if_pos hfull, bind_err (rejectIf_pos hfull _ _)]
    · rw [if_neg hfull, bind_ok (rejectIf_neg hfull _ _)]
      split <;> rfl
  obtain ⟨rounds, rfl⟩ : ∃ n, rounds = n + 1 := ⟨rounds - 1, by omega⟩
  rw [hround rounds 1 (by decide)]
  by_cases hfull : total ≤ 1 + 1 + inodeBlocks
  · exact .inr ⟨if_pos hfull, hfull⟩
  · rw [if_neg hfull]
    by_cases hone : max (divCeil (total - (1 + 1 + inodeBlocks)) bitsPerBlock) 1 ≤ 1
    · exact .inl ⟨1, if_pos hone, by omega, (divCeil_le_iff (by decide) 1).mp ((le_max_left _ _).trans hone)⟩
    · rw [if_neg hone]
      obtain ⟨rounds, rfl⟩ : ∃ n, rounds = n + 1 := ⟨rounds - 1, by omega⟩
      -- the size of the second round covers what the first leaves, and more than it leaves itself
      obtain ⟨b, hb⟩ : ∃ b, b = max (divCeil (total - (1 + 1 + inodeBlocks)) bitsPerBlock) 1 := ⟨_, rfl⟩
      have hcovers : total - (1 + 1 + inodeBlocks) ≤ b * bitsPerBlock := by
        rw [← divCeil_le_iff (by decide), hb]
        exact le_max_left _ _
      have hleaves : b ≤ total - (1 + 1 + inodeBlocks) := by
        rw [hb, max_le_iff, divCeil_le_iff (by decide)]
        exact ⟨Nat.le_mul_of_pos_right _ (by decide), by omega⟩
      have hsmall : b ≤ 2 ^ 52 := by
        rw [hb, max_le_iff, divCeil_le_iff (by decide), show 2 ^ 52 * bitsPerBlock = 2 ^ 64 by decide]
        omega
      have hpos : 1 ≤ b := hb ▸ le_max_right _ _
      have hdone : total - (1 + b + inodeBlocks) ≤ b * bitsPerBlock := by omega
      rw [← hb, hround rounds b hsmall, if_neg (by omega),
        if_pos (max_le ((divCeil_le_iff (by decide) b).mpr hdone) hpos)]
      exact .inl ⟨b, rfl, by omega, hdone⟩

variable {inodeCount : Nat}

theorem inodeBlocks_le (hcount : inodeCount < 2 ^ 32) :
    divCeil inodeCount inodesPerBlock ≤ 2 ^ 32 := by
  rw [divCeil_le_iff (by decide)]
  exact hcount.le.trans (Nat.le_mul_of_pos_right _ (by decide))

section

variable {D : Type} [BlockDevice D]

variable (faultFree : FaultFree D)

include faultFree

variable {dev : D}

theorem store_run {lba : Nat} {bytes : List Byte} (inside : lba < blockCount dev)
    (whole : bytes.length = blockBytes) :
    ∃ dev', store lba bytes dev = (.ok (), dev') ∧ Stored dev dev' lba bytes := by
  obtain ⟨dev', hwrite, hstored⟩ := exists_stored faultFree inside whole
  exact ⟨dev', by rw [store, hwrite], hstored⟩

structure Zeroed (dev dev' : D) (first last : Nat) : Prop where
  count : blockCount dev' = blockCount dev
  contents : ∀ l, l < blockCount dev → contentsAt dev' l =
    if first ≤ l ∧ l < last then List.replicate blockBytes 0 else contentsAt dev l

variable (profile : BuildProfile)

private theorem zeroLoop_run {start count : Nat} (remaining : Nat) {done : Nat}
    (hdone : done + remaining = count) (inside : start + count ≤ blockCount dev) :
    ∃ dev', (Prog.forEach (upTo done count) fun b => do
        let lba ← Prog.orPanic (addWord profile start b)
        store lba (replicate blockBytes 0)) dev = (.ok (), dev') ∧
      Zeroed dev dev' (start + done) (start + count) := by
  induction remaining generalizing done dev with
  | zero =>
    rw [upTo_nil (by omega)]
    refine ⟨dev, rfl, rfl, ?_⟩
    intro l hl
    rw [if_neg (by omega)]
  | succ remaining ih =>
    have hword : start + done < wordBound := by
      have hcount := faultFree.count_lt dev
      omega
    have hnext : start + done < blockCount dev := by omega
    obtain ⟨dev1, hstore, hstored⟩ := store_run faultFree hnext
      (length_replicate (n := blockBytes) (a := (0 : Byte)))
    have hinside : start + count ≤ blockCount dev1 := by
      rw [hstored.count]
      exact inside
    have hstep : done + 1 + remaining = count := by omega
    obtain ⟨dev2, hrest, hzeroed⟩ := ih hstep hinside
    refine ⟨dev2, ?_, hzeroed.count.trans hstored.count, ?_⟩
    · rw [upTo_cons (by omega), Prog.forEach]
      have hbody : (do
          let lba ← Prog.orPanic (addWord profile start done)
          store lba (replicate blockBytes 0) : Prog D FsError Unit) dev = (.ok (), dev1) := by
        rw [addWord_of_lt profile hword, orPanic_some, bind_ok (pure_run _ _), hstore]
      rw [bind_ok hbody, hrest]
    · intro l hl
      rw [hzeroed.contents l (by rw [hstored.count]; exact hl), hstored.contents l hl]
      by_cases hsame : l = start + done
      · rw [if_neg (by omega), if_pos hsame, if_pos (by omega)]
      · rw [if_neg hsame]
        by_cases hrange : start + (done + 1) ≤ l ∧ l < start + count
        · rw [if_pos hrange, if_pos (by omega)]
        · rw [if_neg hrange, if_neg (by omega)]

theorem zeroBlocks_run {start count : Nat} (inside : start + count ≤ blockCount dev) :
    ∃ dev', zeroBlocks profile start count dev = (.ok (), dev') ∧
      Zeroed dev dev' start (start + count) :=
  zeroLoop_run faultFree profile count (zero_add count) inside

structure LaidOut (dev : D) (sb : Superblock) : Prop where
  geometry : Geometry sb
  count : blockCount dev = sb.totalBlocks
  superblock : ∃ tail, contentsAt dev 0 = sb.bytes ++ tail
  zero : ∀ l, 1 ≤ l → l < sb.dataStart → contentsAt dev l = List.replicate blockBytes 0

theorem layOut_cases (dev : D) (hcount : inodeCount < 2 ^ 32) :
    (∃ sb dev', layOut profile inodeCount dev = (.ok sb, dev') ∧ LaidOut dev' sb ∧
      sb.inodeCount = inodeCount ∧ sb.totalBlocks = blockCount dev ∧ 0 < sb.dataBlocks) ∨
    (layOut profile inodeCount dev = (.err .noSpace, dev) ∧
      blockCount dev ≤ 2 + divCeil inodeCount inodesPerBlock) := by
  have htotal := faultFree.count_lt dev
  simp only [wordBound] at htotal
  rw [layOut, bind_ok (gets_run _ dev)]
  rcases sizeBitmap_spec profile htotal (inodeBlocks_le hcount) (blockCount dev + 1) (by omega) dev with
    ⟨bitmapBlocks, hsize, hroom, hcovered⟩ | ⟨hsize, hfull⟩
  swap
  · exact .inr ⟨bind_err hsize, hfull⟩
  left
  have hfirst : 1 + bitmapBlocks < wordBound := show _ < 2 ^ 64 by omega
  have hsecond : 1 + bitmapBlocks + divCeil inodeCount inodesPerBlock < wordBound := show _ < 2 ^ 64 by omega
  rw [bind_ok hsize, addWord_of_lt profile hfirst, orPanic_some, bind_ok (pure_run _ _),
    addWord_of_lt profile hsecond, orPanic_some, bind_ok (pure_run _ _), if_pos hroom.le, orPanic_some,
    bind_ok (pure_run _ _)]
  obtain ⟨dev1, hbitmap, hzero1⟩ := zeroBlocks_run faultFree profile
    (show 1 + bitmapBlocks ≤ blockCount dev by omega)
  obtain ⟨dev2, htable, hzero2⟩ := zeroBlocks_run faultFree profile
    (show 1 + bitmapBlocks + divCeil inodeCount inodesPerBlock ≤ blockCount dev1 by
      rw [hzero1.count]; omega)
  rw [bind_ok hbitmap, bind_ok htable]
  obtain ⟨sb, hsb⟩ : ∃ sb : Superblock, sb = ⟨blockCount dev, 1, bitmapBlocks, 1 + bitmapBlocks,
      inodeCount, 1 + bitmapBlocks + divCeil inodeCount inodesPerBlock,
      blockCount dev - (1 + bitmapBlocks + divCeil inodeCount inodesPerBlock)⟩ := ⟨_, rfl⟩
  rw [← hsb]
  have hlength := Superblock.bytes_length sb
  have hencode : (encode sb.writeTo (replicate blockBytes 0) : Prog D FsError (List Byte)) = _ :=
    encode_of_writes (Superblock.writes sb) (by rw [hlength, length_replicate]; decide)
  rw [hencode, bind_ok (pure_run _ _)]
  have hcount2 := hzero2.count.trans hzero1.count
  have hwhole : (sb.bytes ++ (replicate blockBytes (0 : Byte)).drop sb.bytes.length).length =
      blockBytes := by
    rw [length_append, length_drop, length_replicate, hlength]
    exact Nat.add_sub_cancel' (by decide)
  obtain ⟨dev3, hstore, hstored⟩ := store_run faultFree (show 0 < blockCount dev2 by omega) hwhole
  refine ⟨sb, dev3, by rw [bind_ok hstore, pure_run], ?_⟩
  subst hsb
  refine ⟨⟨?_, ?_, ?_, ?_⟩, rfl, rfl, Nat.sub_pos_of_lt hroom⟩
  · exact ⟨faultFree.count_lt dev, hcount, rfl, rfl, rfl, Nat.add_sub_cancel' hroom.le, hcovered⟩
  · exact hstored.count.trans hcount2
  · exact ⟨_, hstored.same (by omega)⟩
  · intro l hlow hhigh
    change l < 1 + bitmapBlocks + divCeil inodeCount inodesPerBlock at hhigh
    rw [hstored.other (by omega) (by omega), hzero2.contents l (by rw [hzero1.count]; omega),
      hzero1.contents l (by omega)]
    by_cases htable : 1 + bitmapBlocks ≤ l
    · rw [if_pos ⟨htable, hhigh⟩]
    · rw [if_neg (by omega), if_pos (by omega)]

omit faultFree

private theorem slice_replicate {pos len : Nat} (h : pos + len ≤ blockBytes) :
    slice (replicate blockBytes (0 : Byte)) pos len = replicate len 0 := by
  rw [slice, drop_replicate, take_replicate, min_eq_left (by omega)]

private theorem empty_bytes : (Inode.empty kindFree).bytes = replicate inodeSize 0 := by decide

private theorem LaidOut.represents {sb : Superblock} (h : LaidOut dev sb) :
    Represents ⟨dev, sb⟩ (blank sb (contentsAt dev)) where
  sb := rfl
  geometry := h.geometry
  count := h.count
  superblock := h.superblock
  fits _ _ := .empty (by decide)
  inodes := by
    intro ino hino
    obtain ⟨hlow, hhigh⟩ := h.geometry.inode_block hino
    have hstart := h.geometry.inodeStart
    change slice (contentsAt dev (inodeBlock sb ino)) _ _ = (Inode.empty kindFree).bytes
    rw [h.zero _ (by omega) hhigh, slice_replicate (slot_inside ino), empty_bytes]
  bits := by
    intro i hi
    obtain ⟨hlow, hhigh⟩ := h.geometry.bitmap_block hi
    have hstart := h.geometry.dataStart
    have hclear : test (replicate blockBytes 0#8) (i % bitsPerBlock) = some false :=
      test_replicate_zero (by decide) (Nat.mod_lt i (by decide))
    rw [h.zero _ hlow (by omega)]
    exact hclear
  data _ _ := rfl

theorem format_cases (faultFree : FaultFree D) (profile : BuildProfile) (dev : D)
    (hcount : inodeCount < 2 ^ 32) :
    (∃ fs data, Fs.format profile dev inodeCount = .ok fs ∧ Represents fs (fresh fs.sb data) ∧ 0 < inodeCount ∧
      fs.sb.inodeCount = inodeCount ∧ fs.sb.totalBlocks = blockCount dev ∧ 0 < fs.sb.dataBlocks) ∨
    Fs.format profile dev inodeCount = .err .notFound ∨
    (Fs.format profile dev inodeCount = .err .noSpace ∧
      blockCount dev ≤ 2 + divCeil inodeCount inodesPerBlock) := by
  rcases layOut_cases faultFree profile dev hcount with ⟨sb, dev', hlay, hlaid, hinodes, htotal, hdata⟩ |
    ⟨hlay, hfull⟩
  · simp only [Fs.format, hlay]
    have hsim := writeInode_sim faultFree profile rootInode (.empty kindDir)
    by_cases hpositive : 0 < sb.inodeCount
    · have hroot : Volume.writeInode rootInode (.empty kindDir) (blank sb (contentsAt dev')) =
          (.ok (), fresh sb (contentsAt dev')) :=
        Volume.writeInode_run profile hpositive (.empty (by decide))
      obtain ⟨fs, hrun, hrep⟩ := hsim.run hlaid.represents hroot (by simp)
      have hsb : fs.sb = sb := hrep.sb
      subst hsb
      exact .inl ⟨fs, _, by rw [hrun], hrep, hinodes ▸ hpositive, hinodes, htotal, hdata⟩
    · have hroot : Volume.writeInode rootInode (.empty kindDir) (blank sb (contentsAt dev')) =
          (.err .notFound, blank sb (contentsAt dev')) := Volume.writeInode_missing profile hpositive
      obtain ⟨fs, hrun, -⟩ := hsim.run hlaid.represents hroot (by simp)
      exact .inr (.inl (by rw [hrun]))
  · exact .inr (.inr ⟨by simp only [Fs.format, hlay], hfull⟩)

theorem format_ok (faultFree : FaultFree D) {profile : BuildProfile}
    {fs : Fs D} (hcount : inodeCount < 2 ^ 32) (h : Fs.format profile dev inodeCount = .ok fs) :
    0 < inodeCount ∧ fs.sb.inodeCount = inodeCount ∧ ∃ data, Represents fs (fresh fs.sb data) := by
  rcases format_cases faultFree profile dev hcount with ⟨_, data, hrun, hrep, hpos, hinodes, -⟩ | hrun | ⟨hrun, -⟩
  · obtain rfl := Outcome.ok.inj (hrun.symm.trans h)
    exact ⟨hpos, hinodes, data, hrep⟩
  · simp [hrun] at h
  · simp [hrun] at h

def regions (sb : Superblock) : List (Nat × Nat) :=
  [(0, 1), (sb.bitmapStart, sb.bitmapStart + sb.bitmapBlocks), (sb.inodeStart, sb.dataStart),
    (sb.dataStart, sb.dataStart + sb.dataBlocks)]

/-- The regions follow each other from block 0 to the last, there is a bit for each data block, a slot for
each inode, and a data block. -/
structure SoundLayout (total inodeCount : Nat) (sb : Superblock) : Prop where
  bitmap : sb.bitmapStart = 1
  inodes : sb.inodeStart = sb.bitmapStart + sb.bitmapBlocks
  data : sb.inodeStart ≤ sb.dataStart
  ends : sb.dataStart + sb.dataBlocks = total
  bits : sb.dataBlocks ≤ sb.bitmapBlocks * bitsPerBlock
  slots : inodeCount ≤ (sb.dataStart - sb.inodeStart) * inodesPerBlock
  some : 0 < sb.dataBlocks

theorem SoundLayout.exact {total : Nat} {sb : Superblock} (h : SoundLayout total inodeCount sb)
    (l : Nat) : (regions sb).countP (fun r => r.1 ≤ l ∧ l < r.2) = if l < total then 1 else 0 := by
  obtain ⟨hbitmap, hinodes, hdata, hends, -, -, -⟩ := h
  simp only [regions, countP_cons, countP_nil, decide_eq_true_eq]
  split_ifs <;> omega

/-- The sizing loop ends, what it leads to is sound, and it finds no room only when there is no sound layout
at all. -/
theorem format_layout (faultFree : FaultFree D) (profile : BuildProfile) (dev : D) {inodeCount : Nat}
    (hcount : inodeCount < 2 ^ 32) :
    (∀ rounds > 1, (sizeBitmap profile (blockCount dev) (divCeil inodeCount inodesPerBlock) rounds 1 dev).1 ≠
      .panic) ∧ Fs.format profile dev inodeCount ≠ .panic ∧
    (∀ fs, Fs.format profile dev inodeCount = .ok fs → fs.sb.inodeCount = inodeCount ∧
      SoundLayout (blockCount dev) inodeCount fs.sb ∧
      ∀ l, (regions fs.sb).countP (fun r => r.1 ≤ l ∧ l < r.2) = if l < blockCount dev then 1 else 0) ∧
    (Fs.format profile dev inodeCount = .err .noSpace → ∀ sb, ¬ SoundLayout (blockCount dev) inodeCount sb) := by
  refine ⟨fun rounds hrounds => ?_, ?_⟩
  · rcases sizeBitmap_spec profile (faultFree.count_lt dev) (inodeBlocks_le hcount) rounds (by omega) dev with
      ⟨_, hsize, -⟩ | ⟨hsize, -⟩ <;> simp [hsize]
  rcases format_cases faultFree profile dev hcount with ⟨fs, data, hrun, hrep, -, hinodes, htotal, hdata⟩ |
    hrun | ⟨hrun, hfull⟩
  · simp only [hrun, reduceCtorEq, not_false_eq_true, ne_eq, true_and, false_imp_iff, and_true, Outcome.ok.injEq]
    rintro _ rfl
    obtain ⟨-, -, hbitmap, hinodeStart, hdataStart, hends, hcovered⟩ : Geometry fs.sb := hrep.geometry
    have hsound : SoundLayout (blockCount dev) inodeCount fs.sb := by
      refine ⟨hbitmap, by rw [hinodeStart, hbitmap], by omega, htotal ▸ hends, hcovered, ?_, hdata⟩
      rw [hdataStart, Nat.add_sub_cancel_left, hinodes, ← divCeil_le_iff (by decide)]
    exact ⟨hinodes, hsound, hsound.exact⟩
  · simp [hrun]
  · simp only [hrun, reduceCtorEq, not_false_eq_true, ne_eq, true_and, false_imp_iff, implies_true, forall_const]
    rintro sb ⟨hbitmap, hinodes, hdata, hends, hbits, hslots, hsome⟩
    rw [← divCeil_le_iff (by decide)] at hslots
    have hpos : 0 < sb.bitmapBlocks := by
      by_contra hnone
      rw [Nat.eq_zero_of_not_pos hnone, zero_mul] at hbits
      omega
    omega

theorem format_layout_eight_blocks :
    ∃ fs, Fs.format .dev (RamDisk.new 8 (by decide)) 8 = .ok fs ∧ SoundLayout 8 8 fs.sb := by
  have hcheck : (Fs.format .dev (RamDisk.new 8 (by decide)) 8).okAnd (fun _ => true) := by decide +kernel
  obtain ⟨fs, hrun, -⟩ := Outcome.okAnd_iff.mp hcheck
  exact ⟨fs, hrun, ((format_layout RamDisk.faultFree .dev _ (by decide)).2.2.1 fs hrun).2.1⟩

end

end CibosPlatform.Kernel.Cibosfs.Format
