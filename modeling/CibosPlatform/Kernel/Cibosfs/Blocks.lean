/- source: cibos-kernel/src/fs.rs
   digest: What allocating, freeing, reading and rewriting the blocks of an inode do to a volume. -/

import CibosPlatform.Kernel.Cibosfs.View
import Mathlib.Data.List.Nodup

namespace CibosPlatform.Kernel.Cibosfs.Blocks

open Core LittleEndian MachineWord Program Core.Program.Prog Device Prog
open Layout Operations View List Function Volume

def used (inode : Inode) : List Nat := inode.direct.take inode.blocksUsed

variable (v : Volume)

def contents (inode : Inode) : List Byte := (used inode).flatMap v.data |>.take inode.size

def free : List Nat := (upTo 0 v.sb.dataBlocks).filter fun i => !v.bits i

def claim (indices : List Nat) : Volume :=
  { v with bits := fun i => v.bits i || decide (i ∈ indices) }

def release (indices : List Nat) : Volume :=
  { v with bits := fun i => v.bits i && !decide (i ∈ indices) }

variable {i : Nat}

section

variable {v : Volume}

theorem mem_free : i ∈ free v ↔ i < v.sb.dataBlocks ∧ v.bits i = false := by
  rw [free, mem_filter, mem_upTo, Bool.not_eq_true']
  constructor
  · rintro ⟨⟨-, hi⟩, hbit⟩
    exact ⟨hi, hbit⟩
  · rintro ⟨hi, hbit⟩
    exact ⟨⟨Nat.zero_le i, hi⟩, hbit⟩

theorem free_nodup (v : Volume) : (free v).Nodup := List.Nodup.filter _ nodup_range'

theorem claim_nil (v : Volume) : claim v [] = v := by simp [claim]

theorem setBit_true (v : Volume) (i : Nat) : v.setBit i true = claim v [i] := by
  simp only [setBit, claim, Volume.mk.injEq, true_and, and_true]
  funext j
  by_cases hj : j = i
  · simp [hj]
  · simp [hj]

theorem setBit_false (v : Volume) (i : Nat) : v.setBit i false = release v [i] := by
  simp only [setBit, release, Volume.mk.injEq, true_and, and_true]
  funext j
  by_cases hj : j = i
  · simp [hj]
  · simp [hj]

theorem claim_claim (v : Volume) (first second : List Nat) :
    claim (claim v first) second = claim v (first ++ second) := by
  simp only [claim, Volume.mk.injEq, true_and, and_true]
  funext j
  simp [Bool.or_assoc]

theorem release_release (v : Volume) (first second : List Nat) :
    release (release v first) second = release v (first ++ second) := by
  simp only [release, Volume.mk.injEq, true_and, and_true]
  funext j
  simp [Bool.and_assoc]

theorem release_nil (v : Volume) : release v [] = v := by simp [release]

theorem free_claim_take (v : Volume) (count : Nat) :
    free (claim v ((free v).take count)) = (free v).drop count := by
  have hfree : free (claim v ((free v).take count)) =
      (free v).filter fun j => !decide (j ∈ (free v).take count) := by
    conv_rhs => arg 2; rw [free]
    rw [free, filter_filter]
    refine filter_congr fun j _ => ?_
    rw [claim, Bool.not_or, Bool.and_comm]
  have hnodup := free_nodup v
  rw [hfree]
  conv_lhs => arg 2; rw [← take_append_drop count (free v)]
  rw [← take_append_drop count (free v), nodup_append] at hnodup
  rw [filter_append, filter_eq_nil_iff.mpr (by simp), nil_append, filter_eq_self]
  intro j hj
  have hnew : j ∉ (free v).take count := fun hmem => hnodup.2.2 j hmem j hj rfl
  simp [hnew]

theorem free_claim_cons {rest : List Nat} (h : free v = i :: rest) : free (claim v [i]) = rest := by
  have htake := free_claim_take v 1
  rwa [h] at htake

end

section

variable {profile : BuildProfile} {v : Volume}

theorem allocInode_none (h : ∀ ino, 0 < ino → ino < v.sb.inodeCount → (v.inodes ino).kind ≠ kindFree) :
    allocInode (medium profile) v = (.err .noSpace, v) := by
  have hsearch : search (upTo 1 v.sb.inodeCount) (fun ino => do
      let node ← (medium profile).readInode ino
      pure (if node.kind = kindFree then some ino else none)) v = (.ok none, v) := by
    refine search_none fun ino hino => ?_
    obtain ⟨hlow, hhigh⟩ := mem_upTo.mp hino
    rw [bind_ok (readInode_run profile hhigh), if_neg (h ino hlow hhigh), pure_run]
  rw [allocInode, bind_ok (gets_run _ v)]
  exact bind_ok hsearch

theorem allocInode_some {ino : Nat} (hlow : 0 < ino) (hhigh : ino < v.sb.inodeCount)
    (hfree : (v.inodes ino).kind = kindFree) : ∃ found, 0 < found ∧ found < v.sb.inodeCount ∧
      (v.inodes found).kind = kindFree ∧ allocInode (medium profile) v = (.ok found, v) := by
  rcases hfind : (upTo 1 v.sb.inodeCount).find? fun i => (v.inodes i).kind = kindFree with _ | found
  · have hnone := find?_eq_none.mp hfind ino (mem_upTo.mpr ⟨hlow, hhigh⟩)
    simp [hfree] at hnone
  · obtain ⟨hkind, pre, post, hsplit, hpre⟩ := find?_eq_some_iff_append.mp hfind
    have hrange : ∀ i ∈ pre ++ found :: post, 1 ≤ i ∧ i < v.sb.inodeCount := by
      intro i hi
      rw [← hsplit] at hi
      exact mem_upTo.mp hi
    have hkind' : (v.inodes found).kind = kindFree := by simpa using hkind
    obtain ⟨hone, htop⟩ := hrange found (by simp)
    refine ⟨found, hone, htop, hkind', ?_⟩
    have hsearch : search (pre ++ found :: post) (fun ino => do
        let node ← (medium profile).readInode ino
        pure (if node.kind = kindFree then some ino else none)) v = (.ok (some found), v) := by
      refine search_some (fun i hi => ?_) ?_
      · have hne : ¬ (v.inodes i).kind = kindFree := by simpa using hpre i hi
        rw [bind_ok (readInode_run profile (hrange i (by simp [hi])).2), if_neg hne, pure_run]
      · rw [bind_ok (readInode_run profile htop), if_pos hkind', pure_run]
    rw [allocInode, bind_ok (gets_run _ v), medium_superblock, hsplit]
    exact bind_ok hsearch

theorem allocBlock_full (h : free v = []) : allocBlock (medium profile) v = (.err .noSpace, v) := by
  have htaken : ∀ i, i < v.sb.dataBlocks → v.bits i := by
    intro i hi
    by_contra hbit
    have hmem : i ∈ free v := mem_free.mpr ⟨hi, by simpa using hbit⟩
    simp [h] at hmem
  rw [allocBlock, bind_ok (gets_run _ v)]
  refine bind_ok (search_none fun i hi => ?_)
  have hhigh := (mem_upTo.mp hi).2
  rw [bind_ok (bitGet_run profile hhigh), htaken i hhigh]
  rfl

theorem allocBlock_run (g : Geometry v.sb) {rest : List Nat} (h : free v = i :: rest) :
    allocBlock (medium profile) v = (.ok (v.sb.dataStart + i), claim v [i]) := by
  obtain ⟨pre, post, hsplit, hpre, hbit, -⟩ := filter_eq_cons_iff.mp h
  have hrange : ∀ j ∈ pre ++ i :: post, j < v.sb.dataBlocks := by
    intro j hj
    rw [← hsplit] at hj
    exact (mem_upTo.mp hj).2
  have hi := hrange i (by simp)
  have hword : v.sb.dataStart + i < wordBound := by
    have hends := g.ends
    have htotal := g.total_lt
    omega
  have hclear : v.bits i = false := by simpa using hbit
  rw [allocBlock, bind_ok (gets_run _ v), medium_superblock, hsplit]
  refine bind_ok (search_some (fun j hj => ?_) ?_)
  · have htaken : v.bits j = true := by simpa using hpre j hj
    rw [bind_ok (bitGet_run profile (hrange j (by simp [hj]))), htaken]
    rfl
  · rw [bind_ok (bitGet_run profile hi), hclear]
    rw [if_neg Bool.false_ne_true, bind_ok (bitSet_run profile hi true), setBit_true,
      medium_profile, addWord_of_lt profile hword, orPanic_some, bind_ok (pure_run _ _), pure_run]

theorem freeBlock_run {lba : Nat} (h : InData v.sb lba) :
    freeBlock (medium profile) lba v = (.ok (), release v [lba - v.sb.dataStart]) := by
  obtain ⟨hlow, hhigh⟩ := h
  rw [freeBlock, bind_ok (gets_run _ v), medium_superblock,
    bind_ok (rejectIf_neg (not_lt.mpr hlow) _ _), bitSet_run profile (by omega), setBit_false]

end

variable {new old : Nat}

section

variable {profile : BuildProfile} {v : Volume} {inode : Inode}

theorem setDirect_eq {lba : Nat} (h : i < directBlocks) :
    inode.setDirect i lba = some { inode with direct := inode.direct.set i lba } := if_pos h

private theorem take_set_succ {l : List Nat} (h : i < l.length) (x : Nat) :
    (l.set i x).take (i + 1) = l.take i ++ [x] := by
  rw [take_set, take_succ_eq_append_getElem h, set_append_right _ _ (by simp [h.le])]
  simp [h.le]

section

variable (g : Geometry v.sb) (inode : Inode) (fits : new ≤ directBlocks)

include g fits

private theorem growInode_step (more : old < new)
    {rest : List Nat} (hfree : free v = i :: rest) : growInode (medium profile) inode old new v =
      growInode (medium profile) { inode with direct := inode.direct.set old (v.sb.dataStart + i) } (old + 1) new
        (claim v [i]) := by
  have hstep : (do
      let lba ← allocBlock (medium profile)
      orPanic (inode.setDirect old lba)) v =
      (.ok { inode with direct := inode.direct.set old (v.sb.dataStart + i) }, claim v [i]) := by
    rw [bind_ok (allocBlock_run g hfree), setDirect_eq (by omega), orPanic_some, pure_run]
  rw [growInode, upTo_cons more, foldEach, bind_ok hstep]
  rfl

theorem growInode_run (whole : inode.direct.length = directBlocks) (count : Nat) (hcount : old + count = new)
    (room : count ≤ (free v).length) :
    growInode (medium profile) inode old new v =
      (.ok { inode with direct := inode.direct.take old ++
        ((free v).take count).map (v.sb.dataStart + ·) ++ inode.direct.drop new },
        claim v ((free v).take count)) := by
  induction count generalizing old inode v with
  | zero =>
    obtain rfl : old = new := hcount
    rw [growInode, upTo_nil le_rfl, foldEach, pure_run, take_zero, map_nil,
      append_nil, take_append_drop, claim_nil]
  | succ count ih =>
    obtain ⟨i, rest, hfree⟩ : ∃ i rest, free v = i :: rest := by
      cases hfree : free v with
      | nil => simp [hfree] at room
      | cons i rest => exact ⟨i, rest, rfl⟩
    have hnext : old + 1 + count = new := by omega
    have hrest := ih (v := claim v [i]) g { inode with direct := inode.direct.set old (v.sb.dataStart + i) }
      (by simpa using whole) hnext (by rw [free_claim_cons hfree]; simpa [hfree] using room)
    rw [growInode_step g inode fits (by omega) hfree, hrest]
    have hdrop : (inode.direct.set old (v.sb.dataStart + i)).drop new = inode.direct.drop new :=
      drop_set_of_lt (by omega)
    rw [free_claim_cons hfree, claim_claim, hfree, take_succ_cons, hdrop, take_set_succ (by omega)]
    simp [claim]

theorem growInode_fail (count : Nat)
    (hcount : old + count = new) (short : (free v).length < count) :
    growInode (medium profile) inode old new v = (.err .noSpace, claim v (free v)) := by
  induction count generalizing old inode v with
  | zero => simp at short
  | succ count ih =>
    cases hfree : free v with
    | nil =>
      rw [growInode, upTo_cons (by omega), foldEach, bind_err (bind_err (allocBlock_full hfree)), claim_nil]
    | cons i rest =>
      have hnext : old + 1 + count = new := by omega
      have hrest := ih (v := claim v [i]) g
        { inode with direct := inode.direct.set old (v.sb.dataStart + i) } hnext
        (by rw [free_claim_cons hfree]; simpa [hfree] using short)
      rw [growInode_step g inode fits (by omega) hfree, hrest, free_claim_cons hfree, claim_claim]
      rfl

end

theorem shrinkInode_run (g : Geometry v.sb) (inode : Inode) (whole : inode.direct.length = directBlocks)
    (fits : old ≤ directBlocks) (count : Nat) (hcount : new + count = old)
    (placed : ∀ p ∈ (inode.direct.take old).drop new, InData v.sb p) :
    shrinkInode (medium profile) inode new old v =
      (.ok { inode with direct := inode.direct.take new ++ replicate count 0 ++ inode.direct.drop old },
        release v (((inode.direct.take old).drop new).map (· - v.sb.dataStart))) := by
  induction count generalizing new inode v with
  | zero =>
    obtain rfl : new = old := hcount
    have hnone : (inode.direct.take new).drop new = [] := drop_of_length_le (by simp)
    rw [shrinkInode, upTo_nil le_rfl, foldEach, pure_run, hnone, replicate_zero,
      append_nil, take_append_drop]
    simp [release]
  | succ count ih =>
    have hnew : new < inode.direct.length := by omega
    have hsplit : (inode.direct.take old).drop new =
        inode.direct[new] :: (inode.direct.take old).drop (new + 1) := by
      rw [drop_eq_getElem_cons (by simp; omega), getElem_take]
    have hplaced : InData v.sb inode.direct[new] := placed _ (by rw [hsplit]; exact mem_cons_self)
    have hnonzero : inode.direct[new] ≠ 0 := by
      have hinode := g.inodeStart
      have hdata := g.dataStart
      have hstart := hplaced.1
      omega
    have hstep : (do
        let lba ← orPanic inode.direct[new]?
        if lba ≠ 0 then do
          freeBlock (medium profile) lba
          orPanic (inode.setDirect new 0)
        else pure inode) v =
        (.ok { inode with direct := inode.direct.set new 0 },
          release v [inode.direct[new] - v.sb.dataStart]) := by
      rw [getElem?_eq_getElem hnew, orPanic_some, bind_ok (pure_run _ _), if_pos hnonzero,
        bind_ok (freeBlock_run hplaced), setDirect_eq (by omega), orPanic_some, pure_run]
    have hkeep : ((inode.direct.set new 0).take old).drop (new + 1) =
        (inode.direct.take old).drop (new + 1) := by
      rw [take_set, drop_set_of_lt (by omega)]
    have hnext : new + 1 + count = old := by omega
    have hrest := ih (v := release v [inode.direct[new] - v.sb.dataStart]) g
      { inode with direct := inode.direct.set new 0 } (by simpa using whole) hnext
      (by
        intro p hp
        rw [hkeep] at hp
        exact placed p (by rw [hsplit]; exact mem_cons_of_mem _ hp))
    rw [shrinkInode, upTo_cons (by omega), foldEach, bind_ok hstep]
    refine hrest.trans ?_
    have hdrop : (inode.direct.set new 0).drop old = inode.direct.drop old :=
      drop_set_of_lt (by omega)
    rw [hkeep, hdrop, take_set_succ hnew, release_release, hsplit]
    simp [release, replicate_succ]

end

variable (data : List Byte)

section

variable {v : Volume}

variable (profile : BuildProfile)

private theorem readLoop_run {pointers : List Nat}
    (placed : ∀ p ∈ pointers, InData v.sb p ∧ (v.data p).length = blockBytes) (out : List Byte)
    (remaining : Nat) :
    ∃ left, foldEach pointers (out, remaining) (fun acc blk => do
      let buf ← (medium profile).readBlock blk
      let take := min acc.2 blockBytes
      pure (acc.1 ++ buf.take take, acc.2 - take)) v =
      (.ok (out ++ (pointers.flatMap v.data).take remaining, left), v) := by
  induction pointers generalizing out remaining with
  | nil => exact ⟨remaining, by simp [foldEach]⟩
  | cons p pointers ih =>
    obtain ⟨⟨hplaced, hlength⟩, hrest⟩ := forall_mem_cons.mp placed
    obtain ⟨left, hloop⟩ := ih hrest (out ++ (v.data p).take (min remaining blockBytes))
      (remaining - min remaining blockBytes)
    refine ⟨left, ?_⟩
    have hstep : (do
        let buf ← (medium profile).readBlock p
        let take := min remaining blockBytes
        pure (out ++ buf.take take, remaining - take)) v =
        (.ok (out ++ (v.data p).take (min remaining blockBytes), remaining - min remaining blockBytes), v) :=
      bind_ok (readBlock_run profile hplaced)
    refine (bind_ok hstep).trans (hloop.trans ?_)
    have htake : (v.data p).take (min remaining blockBytes) = (v.data p).take remaining := by
      rw [← hlength, take_eq_take_iff]
      omega
    have hskip : remaining - min remaining blockBytes = remaining - (v.data p).length := by
      rw [hlength]
      omega
    rw [flatMap_cons, take_append, htake, hskip, append_assoc]

theorem readInodeData_run {inode : Inode} (small : inode.size ≤ maxFileSize)
    (placed : ∀ p ∈ used inode, InData v.sb p ∧ (v.data p).length = blockBytes) :
    readInodeData (medium profile) inode v = (.ok (contents v inode), v) := by
  have hcapacity : ¬ 2 ^ 63 ≤ inode.size := by
    have hmax : maxFileSize = 3072 := rfl
    omega
  obtain ⟨left, hloop⟩ := readLoop_run profile placed [] inode.size
  rw [readInodeData, if_neg hcapacity]
  exact bind_ok hloop

theorem blockOf_length (i : Nat) : (blockOf data i).length = blockBytes := by
  rw [blockOf, length_append, length_replicate]
  have hchunk : (slice data (i * blockBytes) blockBytes).length ≤ blockBytes := by
    rw [slice]
    exact length_take_le _ _
  omega

private theorem blockOf_take (i : Nat) :
    (blockOf data i).take (data.length - i * blockBytes) = (data.drop (i * blockBytes)).take blockBytes := by
  rw [blockOf, slice]
  by_cases hfull : blockBytes ≤ data.length - i * blockBytes
  · have hchunk : ((data.drop (i * blockBytes)).take blockBytes).length = blockBytes := by
      rw [length_take, length_drop, min_eq_left hfull]
    rw [hchunk, Nat.sub_self, replicate_zero, append_nil, take_of_length_le (by omega)]
  · have hchunk : ((data.drop (i * blockBytes)).take blockBytes).length =
        data.length - i * blockBytes := by
      rw [length_take, length_drop, min_eq_right (by omega)]
    exact take_left' hchunk

theorem blocks_take {blocks : Nat} (enough : data.length ≤ blocks * blockBytes)
    (count : Nat) (hcount : i + count = blocks) :
    ((upTo i blocks).flatMap (blockOf data)).take (data.length - i * blockBytes) =
      data.drop (i * blockBytes) := by
  induction count generalizing i with
  | zero =>
    obtain rfl : i = blocks := hcount
    rw [upTo_nil le_rfl, flatMap_nil, take_nil, drop_of_length_le enough]
  | succ count ih =>
    have hstep := ih (i := i + 1) (by omega)
    rw [Nat.succ_mul] at hstep
    rw [upTo_cons (by omega), flatMap_cons, take_append, blockOf_take, blockOf_length,
      Nat.sub_sub, hstep, ← drop_drop, take_append_drop]

theorem writeLoop_run {direct : List Nat} {blocks : Nat} (whole : blocks ≤ direct.length)
    (nodup : (direct.take blocks).Nodup) (data : List Byte) (count : Nat)
    (hcount : i + count = blocks) (placed : ∀ p ∈ direct.take blocks, InData v.sb p) :
    ∃ written, forEach (upTo i blocks) (fun i => do
        let lba ← orPanic direct[i]?
        (medium profile).writeBlock lba (blockOf data i)) v = (.ok (), { v with data := written }) ∧
      ((direct.take blocks).drop i).map written = (upTo i blocks).map (blockOf data) ∧
      ∀ lba, lba ∉ (direct.take blocks).drop i → written lba = v.data lba := by
  induction count generalizing i v with
  | zero =>
    obtain rfl : i = blocks := hcount
    refine ⟨v.data, ?_, ?_, fun _ _ => rfl⟩
    · rw [upTo_nil le_rfl]
      rfl
    · rw [upTo_nil le_rfl, drop_of_length_le (by simp)]
      rfl
  | succ count ih =>
    have hi : i < direct.length := by omega
    have hsplit : (direct.take blocks).drop i = direct[i] :: (direct.take blocks).drop (i + 1) := by
      rw [drop_eq_getElem_cons (by simp; omega), getElem_take]
    have hplaced : InData v.sb direct[i] := by
      refine placed _ (mem_of_mem_drop (i := i) ?_)
      rw [hsplit]
      exact mem_cons_self
    have hstep : (do
        let lba ← orPanic direct[i]?
        (medium profile).writeBlock lba (blockOf data i)) v =
        (.ok (), v.setData direct[i] (blockOf data i)) := by
      rw [getElem?_eq_getElem hi, orPanic_some, bind_ok (pure_run _ _),
        writeBlock_run profile hplaced (blockOf_length data i)]
    have hnext : i + 1 + count = blocks := by omega
    obtain ⟨written, hrun, hmap, hkeep⟩ := ih (v := v.setData direct[i] (blockOf data i)) hnext placed
    -- the block written in this round is not written again
    have hfresh : direct[i] ∉ (direct.take blocks).drop (i + 1) := by
      have hsuffix := (drop_sublist i (direct.take blocks)).nodup nodup
      rw [hsplit, nodup_cons] at hsuffix
      exact hsuffix.1
    have hthis : written direct[i] = blockOf data i := by
      rw [hkeep _ hfresh]
      exact update_self ..
    refine ⟨written, ?_, ?_, ?_⟩
    · rw [upTo_cons (by omega), forEach, bind_ok hstep]
      exact hrun
    · rw [hsplit, upTo_cons (by omega), map_cons, map_cons, hthis, hmap]
    · intro lba hlba
      rw [hsplit, mem_cons, not_or] at hlba
      rw [hkeep lba hlba.2]
      exact update_of_ne hlba.1 _ _

end

end CibosPlatform.Kernel.Cibosfs.Blocks
