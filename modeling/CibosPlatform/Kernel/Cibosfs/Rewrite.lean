/- source: cibos-kernel/src/fs.rs
   digest: Volumes whose inodes share no block, and replacing the contents of one inode. -/

import CibosPlatform.Kernel.Cibosfs.Blocks

namespace CibosPlatform.Kernel.Cibosfs.Rewrite

open List Function
open Core LittleEndian MachineWord Program Core.Program.Prog Blocks
open Device Layout Operations View Volume

/-- Inodes use data blocks that are marked as taken, and no block twice. -/
structure Sound (v : Volume) : Prop where
  geometry : Geometry v.sb
  fits : ∀ ino, ino < v.sb.inodeCount → (v.inodes ino).Fits
  size : ∀ ino, ino < v.sb.inodeCount → (v.inodes ino).size ≤ maxFileSize
  block : ∀ lba, InData v.sb lba → (v.data lba).length = blockBytes
  placed : ∀ ino, ino < v.sb.inodeCount → ∀ p ∈ used (v.inodes ino),
    InData v.sb p ∧ v.bits (p - v.sb.dataStart) = true
  nodup : ∀ ino, ino < v.sb.inodeCount → (used (v.inodes ino)).Nodup
  disjoint : ∀ ino other, ino < v.sb.inodeCount → other < v.sb.inodeCount → ino ≠ other →
    (used (v.inodes ino)).Disjoint (used (v.inodes other))

def blocksFor (data : List Byte) : Nat := divCeil data.length blockBytes

structure Rewritten (v v' : Volume) (ino kind : Nat) (data : List Byte) : Prop where
  sb : v'.sb = v.sb
  others : ∀ other, other ≠ ino → v'.inodes other = v.inodes other
  fits : (v'.inodes ino).Fits
  kind : (v'.inodes ino).kind = kind
  size : (v'.inodes ino).size = data.length
  nodup : (used (v'.inodes ino)).Nodup
  placed : ∀ p ∈ used (v'.inodes ino), InData v.sb p ∧ (v'.data p).length = blockBytes ∧
    (p ∈ used (v.inodes ino) ∨ v.bits (p - v.sb.dataStart) = false)
  bits : ∀ i, i < v.sb.dataBlocks → (v'.bits i = true ↔ v.sb.dataStart + i ∈ used (v'.inodes ino) ∨
      v.bits i = true ∧ v.sb.dataStart + i ∉ used (v.inodes ino))
  elsewhere : ∀ lba, lba ∉ used (v'.inodes ino) → v'.data lba = v.data lba
  holds : contents v' (v'.inodes ino) = data
  grown : (v.inodes ino).blocksUsed ≤ blocksFor data →
    free v' = (free v).drop (blocksFor data - (v.inodes ino).blocksUsed)

section

variable {v v' : Volume} {ino kind : Nat} {data : List Byte}

theorem Sound.readable (sound : Sound v) (hino : ino < v.sb.inodeCount) :
    ∀ p ∈ used (v.inodes ino), InData v.sb p ∧ (v.data p).length = blockBytes := by
  intro p hp
  have hplaced := (sound.placed ino hino p hp).1
  exact ⟨hplaced, sound.block p hplaced⟩

section

variable (h : Rewritten v v' ino kind data) (sound : Sound v) (hino : ino < v.sb.inodeCount) {other : Nat}
  (hother : other < v.sb.inodeCount) (hne : other ≠ ino)

include h sound hino hother hne

theorem Rewritten.apart : (used (v.inodes other)).Disjoint (used (v'.inodes ino)) := by
  intro p hp hp'
  obtain ⟨-, -, hold | hclear⟩ := h.placed p hp'
  · exact sound.disjoint other ino hother hino hne hp hold
  · rw [(sound.placed other hother p hp).2] at hclear
    cases hclear

theorem Rewritten.contents_other : contents v' (v'.inodes other) = contents v (v.inodes other) := by
  rw [h.others other hne, contents, contents]
  congr 1
  refine flatMap_congr fun p hp => h.elsewhere p ?_
  exact fun hp' => h.apart sound hino hother hne hp hp'

end

theorem Rewritten.sound (h : Rewritten v v' ino kind data) (sound : Sound v)
    (hino : ino < v.sb.inodeCount) (small : data.length ≤ maxFileSize) : Sound v' where
  geometry := by
    rw [h.sb]
    exact sound.geometry
  fits := by
    intro other hother
    rw [h.sb] at hother
    by_cases hne : other = ino
    · rw [hne]
      exact h.fits
    · rw [h.others other hne]
      exact sound.fits other hother
  size := by
    intro other hother
    rw [h.sb] at hother
    by_cases hne : other = ino
    · rw [hne, h.size]
      exact small
    · rw [h.others other hne]
      exact sound.size other hother
  block := by
    intro lba hlba
    rw [h.sb] at hlba
    by_cases hused : lba ∈ used (v'.inodes ino)
    · exact (h.placed lba hused).2.1
    · rw [h.elsewhere lba hused]
      exact sound.block lba hlba
  placed := by
    intro other hother p hp
    rw [h.sb] at hother ⊢
    by_cases hne : other = ino
    · rw [hne] at hp
      have hplaced := (h.placed p hp).1
      obtain ⟨hindex, hback⟩ := hplaced.index
      refine ⟨hplaced, (h.bits _ hindex).mpr (.inl ?_)⟩
      rwa [hback]
    · rw [h.others other hne] at hp
      obtain ⟨hplaced, hbit⟩ := sound.placed other hother p hp
      obtain ⟨hindex, hback⟩ := hplaced.index
      refine ⟨hplaced, (h.bits _ hindex).mpr (.inr ⟨hbit, ?_⟩)⟩
      rw [hback]
      exact fun hp' => sound.disjoint other ino hother hino hne hp hp'
  nodup := by
    intro other hother
    rw [h.sb] at hother
    by_cases hne : other = ino
    · rw [hne]
      exact h.nodup
    · rw [h.others other hne]
      exact sound.nodup other hother
  disjoint := by
    intro first second hfirst hsecond hdiff
    rw [h.sb] at hfirst hsecond
    by_cases hne : first = ino
    · rw [hne] at hdiff ⊢
      rw [h.others second hdiff.symm]
      exact fun p hp hp' => h.apart sound hino hsecond hdiff.symm hp' hp
    · rw [h.others first hne]
      by_cases hne' : second = ino
      · rw [hne']
        exact h.apart sound hino hfirst hne
      · rw [h.others second hne']
        exact sound.disjoint first second hfirst hsecond hdiff

def NoLeak (v : Volume) : Prop := ∀ i, i < v.sb.dataBlocks → v.bits i = true →
  ∃ ino, ino < v.sb.inodeCount ∧ v.sb.dataStart + i ∈ used (v.inodes ino)

theorem Rewritten.noLeak (h : Rewritten v v' ino kind data) (hino : ino < v.sb.inodeCount)
    (full : NoLeak v) : NoLeak v' := by
  intro i hi hbit
  rw [h.sb] at hi ⊢
  rcases (h.bits i hi).mp hbit with hused | ⟨hold, hunused⟩
  · exact ⟨ino, hino, hused⟩
  · obtain ⟨other, hother, hmem⟩ := full i hi hold
    have hne : other ≠ ino := fun hsame => hunused (hsame ▸ hmem)
    exact ⟨other, hother, by rwa [h.others other hne]⟩

theorem Sound.claim (sound : Sound v) (indices : List Nat) : Sound (claim v indices) where
  geometry := sound.geometry
  fits := sound.fits
  size := sound.size
  block := sound.block
  placed := by
    intro ino hino p hp
    obtain ⟨hplaced, hbit⟩ := sound.placed ino hino p hp
    refine ⟨hplaced, ?_⟩
    change (v.bits (p - v.sb.dataStart) || _) = true
    rw [hbit, Bool.true_or]
  nodup := sound.nodup
  disjoint := sound.disjoint

end

section

variable (profile : BuildProfile) {v : Volume} {ino : Nat} {data : List Byte}

def taken (v : Volume) (ino blocks : Nat) : List Nat := (free v).take (blocks - (v.inodes ino).blocksUsed)

def dropped (v : Volume) (ino blocks : Nat) : List Nat :=
  ((used (v.inodes ino)).drop blocks).map (· - v.sb.dataStart)

def pointers (v : Volume) (ino blocks : Nat) : List Nat :=
  (used (v.inodes ino)).take blocks ++ (taken v ino blocks).map (v.sb.dataStart + ·)

def resized (v : Volume) (ino blocks : Nat) : Volume :=
  release (claim v (taken v ino blocks)) (dropped v ino blocks)

theorem taken_free {i blocks : Nat} (h : i ∈ taken v ino blocks) :
    i < v.sb.dataBlocks ∧ v.bits i = false := mem_free.mp (mem_of_mem_take h)

variable (sound : Sound v) (hino : ino < v.sb.inodeCount)

include sound hino

theorem Sound.blocksUsed_le : (v.inodes ino).blocksUsed ≤ directBlocks := by
  rw [Inode.blocksUsed, divCeil_le_iff (by decide)]
  exact sound.size ino hino

theorem Sound.used_length : (used (v.inodes ino)).length = (v.inodes ino).blocksUsed := by
  rw [used, length_take, (sound.fits ino hino).direct, min_eq_left (sound.blocksUsed_le hino)]

private theorem resize_run {blocks : Nat} (fits : blocks ≤ directBlocks)
    (room : blocks - (v.inodes ino).blocksUsed ≤ (free v).length) :
    ∃ inode1 inode2, growInode (medium profile) (v.inodes ino) (v.inodes ino).blocksUsed blocks v =
        (.ok inode1, claim v (taken v ino blocks)) ∧
      shrinkInode (medium profile) inode1 blocks (v.inodes ino).blocksUsed
        (claim v (taken v ino blocks)) = (.ok inode2, resized v ino blocks) ∧
      inode2.kind = (v.inodes ino).kind ∧ inode2.direct.length = directBlocks ∧
      (∀ p ∈ inode2.direct, p < 2 ^ 64) ∧ inode2.direct.take blocks = pointers v ino blocks := by
  have hfits := sound.fits ino hino
  have hold := sound.blocksUsed_le hino
  have hlength := sound.used_length hino
  by_cases hgrow : (v.inodes ino).blocksUsed ≤ blocks
  · have hdropped : dropped v ino blocks = [] := by
      rw [dropped, drop_of_length_le (by omega), map_nil]
    have hnew : (taken v ino blocks).length = blocks - (v.inodes ino).blocksUsed := by
      rw [taken, length_take, min_eq_left room]
    have hrun : growInode (medium profile) (v.inodes ino) _ blocks v = _ :=
      growInode_run sound.geometry (v.inodes ino) fits hfits.direct _ (Nat.add_sub_cancel' hgrow) room
    have hkeep : ∀ inode w, shrinkInode (medium profile) inode blocks (v.inodes ino).blocksUsed w =
        (.ok inode, w) := by
      intro inode w
      rw [shrinkInode, upTo_nil hgrow, Prog.foldEach, pure_run]
    rw [resized, hdropped, release_nil]
    refine ⟨_, _, hrun, hkeep _ _, rfl, ?_, ?_, ?_⟩
    · rw [taken] at hnew
      simp only [length_append, length_map, hnew, length_drop, hfits.direct]
      rw [length_take, hfits.direct]
      omega
    · intro p hp
      rw [mem_append, mem_append] at hp
      rcases hp with (hp | hp) | hp
      · exact hfits.pointers p (mem_of_mem_take hp)
      · obtain ⟨i, hi, rfl⟩ := mem_map.mp hp
        have hindex := (taken_free hi).1
        have hends := sound.geometry.ends
        have htotal := sound.geometry.total_lt
        simp only [wordBound] at htotal
        omega
      · exact hfits.pointers p (mem_of_mem_drop hp)
    · rw [pointers, take_of_length_le (by omega : (used (v.inodes ino)).length ≤ blocks), used]
      refine take_left' ?_
      rw [length_append, length_map, length_take, hfits.direct]
      rw [taken] at hnew
      omega
  · have hnone : taken v ino blocks = [] := by
      rw [taken, Nat.sub_eq_zero_of_le (by omega), take_zero]
    have hplaced : ∀ p ∈ ((v.inodes ino).direct.take (v.inodes ino).blocksUsed).drop blocks,
        InData v.sb p := fun p hp => (sound.placed ino hino p (mem_of_mem_drop hp)).1
    have hrun : shrinkInode (medium profile) (v.inodes ino) blocks _ v = _ :=
      shrinkInode_run sound.geometry (v.inodes ino) hfits.direct hold _
        (Nat.add_sub_cancel' (Nat.le_of_not_le hgrow)) hplaced
    rw [resized, hnone, claim_nil]
    refine ⟨_, _, ?_, hrun, rfl, ?_, ?_, ?_⟩
    · rw [growInode, upTo_nil (by omega), Prog.foldEach, pure_run]
    · simp only [length_append, length_replicate, length_take, length_drop, hfits.direct]
      omega
    · intro p hp
      rw [mem_append, mem_append] at hp
      rcases hp with (hp | hp) | hp
      · exact hfits.pointers p (mem_of_mem_take hp)
      · rw [eq_of_mem_replicate hp]
        exact Nat.two_pow_pos 64
      · exact hfits.pointers p (mem_of_mem_drop hp)
    · rw [pointers, hnone, map_nil, append_nil, used, take_take, min_eq_left (by omega),
        append_assoc]
      refine take_left' ?_
      rw [length_take, hfits.direct]
      omega

omit sound hino

theorem blocksFor_le (small : data.length ≤ maxFileSize) : blocksFor data ≤ directBlocks := by
  rw [blocksFor, divCeil_le_iff (by decide)]
  exact small

theorem writeInodeData_large {inode : Inode} (h : maxFileSize < data.length) :
    writeInodeData (medium profile) ino inode data v = (.err .tooLarge, v) := by
  rw [writeInodeData, bind_err (rejectIf_pos h _ v)]

variable (sound : Sound v)

include sound

theorem writeInodeData_fail (small : data.length ≤ maxFileSize)
    (short : (free v).length < blocksFor data - (v.inodes ino).blocksUsed) :
    writeInodeData (medium profile) ino (v.inodes ino) data v =
      (.err .noSpace, claim v (free v)) := by
  have hmore : (v.inodes ino).blocksUsed ≤ blocksFor data := by omega
  rw [writeInodeData, bind_ok (rejectIf_neg (not_lt.mpr small) _ v)]
  exact bind_err (growInode_fail sound.geometry _ (blocksFor_le small) _ (Nat.add_sub_cancel' hmore) short)

private theorem pointers_placed (hino : ino < v.sb.inodeCount) (blocks : Nat) :
    ∀ p ∈ pointers v ino blocks, InData v.sb p ∧
      (p ∈ used (v.inodes ino) ∨ v.bits (p - v.sb.dataStart) = false) := by
  intro p hp
  rcases mem_append.mp hp with hold | hgot
  · have hmem := mem_of_mem_take hold
    exact ⟨(sound.placed ino hino p hmem).1, .inl hmem⟩
  · obtain ⟨i, hi, rfl⟩ := mem_map.mp hgot
    obtain ⟨hindex, hclear⟩ := taken_free hi
    refine ⟨⟨Nat.le_add_right _ _, Nat.add_lt_add_left hindex _⟩, .inr ?_⟩
    rwa [Nat.add_sub_cancel_left]

private theorem pointers_nodup (hino : ino < v.sb.inodeCount) (blocks : Nat) :
    (pointers v ino blocks).Nodup := by
  rw [pointers, nodup_append]
  refine ⟨(take_sublist _ _).nodup (sound.nodup ino hino), ?_, ?_⟩
  · exact ((take_sublist _ _).nodup (free_nodup v)).map fun _ _ h => add_left_cancel h
  · rintro p hold q hgot rfl
    obtain ⟨i, hi, hsame⟩ := mem_map.mp hgot
    have hset := (sound.placed ino hino p (mem_of_mem_take hold)).2
    rw [← hsame, Nat.add_sub_cancel_left, (taken_free hi).2] at hset
    cases hset

theorem resized_bits (hino : ino < v.sb.inodeCount) {blocks i : Nat} :
    (resized v ino blocks).bits i = true ↔ v.sb.dataStart + i ∈ pointers v ino blocks ∨
      v.bits i = true ∧ v.sb.dataStart + i ∉ used (v.inodes ino) := by
  have hplaced := sound.placed ino hino
  have hnodup := sound.nodup ino hino
  rw [← take_append_drop blocks (used (v.inodes ino)), nodup_append] at hnodup
  have hgone : i ∈ dropped v ino blocks ↔ v.sb.dataStart + i ∈ (used (v.inodes ino)).drop blocks := by
    constructor
    · intro hmem
      obtain ⟨p, hp, rfl⟩ := mem_map.mp hmem
      rwa [(hplaced p (mem_of_mem_drop hp)).1.index.2]
    · intro hmem
      exact mem_map.mpr ⟨_, hmem, Nat.add_sub_cancel_left _ _⟩
  have hgot : v.sb.dataStart + i ∈ (taken v ino blocks).map (v.sb.dataStart + ·) ↔
      i ∈ taken v ino blocks := by
    constructor
    · intro hmem
      obtain ⟨j, hj, hsame⟩ := mem_map.mp hmem
      rwa [← add_left_cancel hsame]
    · exact fun hmem => mem_map.mpr ⟨i, hmem, rfl⟩
  have hbit : v.sb.dataStart + i ∈ used (v.inodes ino) → v.bits i := by
    intro hmem
    have hset := (hplaced _ hmem).2
    rwa [Nat.add_sub_cancel_left] at hset
  have hsplit : v.sb.dataStart + i ∈ used (v.inodes ino) ↔
      v.sb.dataStart + i ∈ (used (v.inodes ino)).take blocks ∨
        v.sb.dataStart + i ∈ (used (v.inodes ino)).drop blocks := by
    rw [← mem_append, take_append_drop]
  have hapart : v.sb.dataStart + i ∈ (used (v.inodes ino)).take blocks →
      v.sb.dataStart + i ∉ (used (v.inodes ino)).drop blocks :=
    fun htake hdrop => hnodup.2.2 _ htake _ hdrop rfl
  have hfresh : i ∈ taken v ino blocks → ¬ v.bits i := by
    intro hmem
    rw [(taken_free hmem).2]
    exact Bool.false_ne_true
  rw [resized, release, claim, pointers, mem_append, hgot, Bool.and_eq_true, Bool.or_eq_true,
    Bool.not_eq_true', decide_eq_true_iff, decide_eq_false_iff_not, hgone]
  tauto

private def replaced (v : Volume) (ino : Nat) (inode : Inode) (data : List Byte)
    (written : Nat → List Byte) : Volume :=
  setInode { resized v ino (blocksFor data) with data := written } ino
    { inode with size := data.length }

private theorem rewritten_replaced (hino : ino < v.sb.inodeCount) (inode : Inode) (data : List Byte)
    (written : Nat → List Byte) (hfits : ({ inode with size := data.length } : Inode).Fits)
    (htake : inode.direct.take (blocksFor data) = pointers v ino (blocksFor data))
    (hmap : (pointers v ino (blocksFor data)).map written = (upTo 0 (blocksFor data)).map (blockOf data))
    (hkeep : ∀ lba, lba ∉ pointers v ino (blocksFor data) → written lba = v.data lba) :
    Rewritten v (replaced v ino inode data written) ino inode.kind data := by
  have hinode : (replaced v ino inode data written).inodes ino = { inode with size := data.length } :=
    update_self ..
  have hused : used ((replaced v ino inode data written).inodes ino) = pointers v ino (blocksFor data) := by
    rw [hinode, ← htake]
    rfl
  have hdata : (replaced v ino inode data written).data = written := rfl
  have hblock : ∀ p ∈ pointers v ino (blocksFor data), (written p).length = blockBytes := by
    intro p hp
    have hmem : written p ∈ (upTo 0 (blocksFor data)).map (blockOf data) := by
      rw [← hmap]
      exact mem_map_of_mem hp
    obtain ⟨i, -, hi⟩ := mem_map.mp hmem
    rw [← hi]
    exact blockOf_length data i
  refine ⟨rfl, fun _ hne => update_of_ne hne _ _, ?_, ?_, ?_, ?_, ?_, ?_, ?_, ?_, ?_⟩
  · rwa [hinode]
  · rw [hinode]
  · rw [hinode]
  · rw [hused]
    exact pointers_nodup sound hino _
  · intro p hp
    rw [hused] at hp
    obtain ⟨hplaced, hsource⟩ := pointers_placed sound hino _ p hp
    exact ⟨hplaced, hblock p hp, hsource⟩
  · intro i hi
    rw [hused]
    exact resized_bits sound hino
  · intro lba hlba
    rw [hused] at hlba
    exact hkeep lba hlba
  · have hfull := blocks_take data ((divCeil_le_iff (by decide) _).mp le_rfl) (blocksFor data)
      (zero_add _)
    rw [contents, hused, hdata, hinode, flatMap_def, hmap, ← flatMap_def]
    exact hfull
  · intro hgrown
    have hdropped : dropped v ino (blocksFor data) = [] := by
      rw [dropped, drop_of_length_le (by rw [sound.used_length hino]; exact hgrown), map_nil]
    have hbits : resized v ino (blocksFor data) = claim v (taken v ino (blocksFor data)) := by
      rw [resized, hdropped, release_nil]
    rw [← free_claim_take, ← taken, ← hbits]
    rfl

theorem writeInodeData_run (hino : ino < v.sb.inodeCount) (small : data.length ≤ maxFileSize)
    (room : blocksFor data - (v.inodes ino).blocksUsed ≤ (free v).length) :
    ∃ v', writeInodeData (medium profile) ino (v.inodes ino) data v = (.ok (), v') ∧
      Rewritten v v' ino (v.inodes ino).kind data := by
  obtain ⟨inode1, inode2, hgrow, hshrink, hkind, hwhole, hpointers, htake⟩ :=
    resize_run profile sound hino (blocksFor_le small) room
  have hfits : ({ inode2 with size := data.length } : Inode).Fits := by
    refine ⟨?_, ?_, hwhole, hpointers⟩
    · rw [hkind]
      exact (sound.fits ino hino).kind
    · have hmax : maxFileSize < 2 ^ 64 := by decide
      exact lt_of_le_of_lt small hmax
  obtain ⟨written, hwrite, hmap, hkeep⟩ := writeLoop_run profile (v := resized v ino (blocksFor data))
    (by rw [hwhole]; exact blocksFor_le small) (by rw [htake]; exact pointers_nodup sound hino _) data
    (blocksFor data) (zero_add _)
    (by rw [htake]; exact fun p hp => (pointers_placed sound hino _ p hp).1)
  rw [drop_zero, htake] at hmap hkeep
  refine ⟨replaced v ino inode2 data written, ?_, ?_⟩
  · rw [writeInodeData, bind_ok (rejectIf_neg (not_lt.mpr small) _ v)]
    exact (bind_ok hgrow).trans ((bind_ok hshrink).trans ((bind_ok hwrite).trans
      (writeInode_run profile hino hfits)))
  · rw [← hkind]
    exact rewritten_replaced sound hino inode2 data written hfits htake hmap hkeep

omit sound

private theorem freeLoop_run {blocks : List Nat} (g : Geometry v.sb)
    (placed : ∀ p ∈ blocks, InData v.sb p) :
    Prog.forEach blocks (fun blk => if blk ≠ 0 then freeBlock (medium profile) blk else pure ()) v =
      (.ok (), release v (blocks.map (· - v.sb.dataStart))) := by
  induction blocks generalizing v with
  | nil => rw [Prog.forEach, pure_run, map_nil, release_nil]
  | cons blk blocks ih =>
    obtain ⟨hplaced, hrest⟩ := forall_mem_cons.mp placed
    have hnonzero : blk ≠ 0 := by
      have hinode := g.inodeStart
      have hdata := g.dataStart
      have hstart := hplaced.1
      omega
    have hstep : (if blk ≠ 0 then freeBlock (medium profile) blk else pure ()) v =
        (.ok (), release v [blk - v.sb.dataStart]) := by
      rw [if_pos hnonzero, freeBlock_run hplaced]
    rw [Prog.forEach, bind_ok hstep]
    refine (ih (v := release v [blk - v.sb.dataStart]) g hrest).trans ?_
    rw [release_release]
    rfl

variable (sound : Sound v) (hino : ino < v.sb.inodeCount)

include sound hino

private theorem rewritten_empty {kind : Nat} (hkind : kind < 2 ^ 32) :
    Rewritten v ((release v ((used (v.inodes ino)).map (· - v.sb.dataStart))).setInode ino (.empty kind))
      ino kind [] := by
  have hzero : blocksFor [] = 0 := by decide
  have htaken : taken v ino (blocksFor []) = [] := by rw [taken, hzero, Nat.zero_sub, take_zero]
  have hnone : pointers v ino (blocksFor []) = [] := by
    rw [pointers, htaken, hzero]
    rfl
  have hbits : resized v ino (blocksFor []) =
      release v ((used (v.inodes ino)).map (· - v.sb.dataStart)) := by
    rw [resized, htaken, claim_nil, dropped, hzero, drop_zero]
  have h := rewritten_replaced sound hino (.empty kind) [] v.data (.empty hkind)
    (by rw [hnone]; rfl) (by rw [hnone]; rfl) fun _ _ => rfl
  rw [replaced, hbits] at h
  exact h

theorem rewritten_plant (bare : (v.inodes ino).size = 0) {kind : Nat} (hkind : kind < 2 ^ 32) :
    Rewritten v (v.setInode ino (.empty kind)) ino kind [] := by
  have hnone : used (v.inodes ino) = [] := by
    rw [used, Inode.blocksUsed, bare]
    rfl
  have h := rewritten_empty sound hino hkind
  rwa [hnone, map_nil, release_nil] at h

theorem erase_run : ∃ v1 v', Prog.forEach (used (v.inodes ino)) (fun blk =>
        if blk ≠ 0 then freeBlock (medium profile) blk else pure ()) v = (.ok (), v1) ∧
      (medium profile).writeInode ino (.empty kindFree) v1 = (.ok (), v') ∧
      Rewritten v v' ino kindFree [] :=
  ⟨_, _, freeLoop_run profile sound.geometry fun p hp => (sound.placed ino hino p hp).1,
    writeInode_run profile hino (.empty (by decide)), rewritten_empty sound hino (by decide)⟩

end

end CibosPlatform.Kernel.Cibosfs.Rewrite
