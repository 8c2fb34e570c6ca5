/- source: kernel-image/src/loader.rs
   digest: Loading an application image into an address space, byte by byte and page by page. -/

import CibosPlatform.Core.ByteMemory
import CibosPlatform.Kernel.Paging.DataFrames
import CibosPlatform.Kernel.Paging.X86
import CibosPlatform.Shared.AppImage

namespace CibosPlatform.KernelImage.Loader

open Core LittleEndian MachineWord Program TableForest WordBytes Prog
open Kernel.Frame.Accounting Kernel.Frame.Allocator Kernel.Paging.DataFrames Kernel.Paging.Space
open Kernel.Paging.Tables Kernel.Paging.Walk Kernel.Paging.X86 Shared.AppImage List Option Function

section

def copyTo (m : Machine) (frame : PhysFrame) (off : Nat) (bytes : List Byte) : Machine :=
  setFrame m frame (copyBytes (m.mem frame) off bytes)

/-- The copy of file bytes into a frame. Outside of the body or of the frame it is undefined, here a panic. -/
def copyNonoverlapping (body : List Byte) (srcOff : Nat) (frame : PhysFrame) (dstOff n : Nat) :
    Prog Machine String Unit :=
  if srcOff + n ≤ body.length ∧ dstOff + n ≤ frameSize then
    Prog.update fun m => copyTo m frame dstOff (slice body srcOff n)
  else trap

def copyFileBytes (seg : AppSegment) (body : List Byte) (frame : PhysFrame)
    (pageVirt fileEnd pageHi : Nat) : Prog Machine String Unit :=
  let copyLo := max seg.vaddr pageVirt
  let copyHi := min fileEnd pageHi
  if copyLo < copyHi then
    copyNonoverlapping body (copyLo - seg.vaddr) frame (copyLo - pageVirt) (copyHi - copyLo)
  else pure ()

def permsOf (seg : AppSegment) : Permissions :=
  ⟨seg.readable, seg.writable, seg.executable, true, false⟩

variable (profile : BuildProfile)

variable (root : PhysFrame)

def loadPage (seg : AppSegment) (body : List Byte)
    (firstPage p : Nat) : Prog Machine String Unit := do
  let pageVirt ← orPanic (pageAddr profile firstPage p)
  let frame ← mapErr "no frame for app segment" allocateZeroed
  let fileEnd ← orPanic (addWord profile seg.vaddr seg.fileSize)
  let pageHi ← orPanic (addWord profile pageVirt frameSize)
  copyFileBytes seg body frame pageVirt fileEnd pageHi
  mapErr "map app segment page failed" (map x86PageTable root pageVirt frame (permsOf seg))

def loadSegment (image : Image) (i : Nat) : Prog Machine String Unit := do
  let seg ← mapErr "bad segment descriptor" (lift (image.segment i))
  let body ← mapErr "bad segment body" (lift (image.segmentBody seg))
  let segEnd ← lift (Outcome.okOr (checkedAdd seg.vaddr seg.memSize) "segment end overflow")
  -- `seg_start & !(FRAME_SIZE - 1)`
  let firstPage := seg.vaddr &&& (wordBound - 1 - (frameSize - 1))
  let span ← orPanic (subWord profile segEnd firstPage)
  let pageCount := divCeil span frameSize
  forEach (List.range pageCount) fun p => loadPage profile root seg body firstPage p

def loadAppImage (image : Image) : Prog Machine String Nat := do
  forEach (List.range image.segmentCount) fun i => loadSegment profile root image i
  pure image.entry

end

variable (f : PhysFrame)

section

structure Rights where
  user : Bool
  write : Bool
  execute : Bool
  deriving DecidableEq

def rightsOf (entry : Entry) : Rights :=
  ⟨entry &&& userBit != 0, entry &&& writable != 0, entry &&& noExecute == 0⟩

def Rights.meet (a b : Rights) : Rights :=
  ⟨a.user && b.user, a.write && b.write, a.execute && b.execute⟩

/-- The rights the processor finds on its walk: every level has to grant them. -/
def rightsFrom (mem : PhysFrame → Nat → Entry) (virt : Nat) :
    List (Nat × Nat) → PhysFrame → Option Rights
  | [], table =>
    let leaf := mem table (index virt (levels - 1))
    if x86PageTable.isPresent leaf then some (rightsOf leaf) else none
  | (level, i) :: rest, table =>
    let entry := mem table i
    if x86PageTable.isPresent entry then
      if x86PageTable.isBlockLeaf entry level then some (rightsOf entry)
      else (rightsFrom mem virt rest (x86PageTable.entryFrame entry)).map (rightsOf entry).meet
    else none

def rights (mem : PhysFrame → Nat → Entry) (root : PhysFrame) (virt : Nat) : Option Rights :=
  rightsFrom mem virt (indices virt (levels - 1)) root

theorem rightsOf_table : rightsOf (x86PageTable.encodeTable f) = ⟨true, true, true⟩ := by
  obtain ⟨huser, hwrite, hexec⟩ := encodeTable_flags f
  rw [rightsOf, hexec, bne_iff_ne.mpr huser, bne_iff_ne.mpr hwrite]
  rfl

theorem rightsOf_leaf (perms : Permissions) :
    rightsOf (x86PageTable.encodeLeaf f perms) = ⟨perms.user, perms.write, perms.execute⟩ := by
  obtain ⟨huser, hwrite, hexec⟩ := encodeLeaf_flags f perms
  rw [rightsOf, huser, hwrite, hexec]

variable {κ : Type} {roots : κ → Option PhysFrame} {m : Machine} {k : κ} {page : Nat}

variable (inv : PagingInv x86PageTable Addressable roots m)

include inv

theorem rightsFrom_step {l virt : Nat} {t t' : PhysFrame} (rest : List (Nat × Nat))
    (h : node (child x86PageTable) m.mem roots k (path page l) = some t)
    (next : node (child x86PageTable) m.mem roots k (path page (l + 1)) = some t') :
    rightsFrom m.mem virt ((l, digit page l) :: rest) t = rightsFrom m.mem virt rest t' := by
  have hshape := shape_at inv h
  rw [node_path_succ h, child] at next
  split at next
  · rename_i hchild
    obtain ⟨hl, hpresent, hblock⟩ := hchild
    obtain rfl := some.inj next
    have hrights : rightsOf (m.mem t (digit page l)) = ⟨true, true, true⟩ := by
      generalize m.mem t (digit page l) = entry at hshape hpresent hblock
      cases hshape with
      | absent habsent =>
        rw [habsent] at hpresent
        cases hpresent
      | table _ _ => exact rightsOf_table _
      | block hdom _ =>
        rw [x86_faithful.block_is_block _ _ 2 hdom] at hblock
        cases hblock
      | leaf _ => omega
    have hmeet : Rights.meet ⟨true, true, true⟩ = id := by
      funext r
      simp [Rights.meet]
    rw [rightsFrom, if_pos hpresent, hblock, if_neg (by simp), hrights, hmeet, Option.map_id]
    rfl
  · cases next

theorem rights_of_leaf {root : PhysFrame} (hroot : roots k = some root) {virt : Nat} {f : PhysFrame}
    {perms : Permissions} (hdom : Addressable f)
    (leaf : slot (child x86PageTable) m.mem roots k (path (pageOf virt) 3) (digit (pageOf virt) 3) =
      some (x86PageTable.encodeLeaf f perms)) :
    rights m.mem root virt = some ⟨perms.user, perms.write, perms.execute⟩ := by
  obtain ⟨t3, h3, hentry⟩ := slot_eq_some.mp leaf
  obtain ⟨t1, h1⟩ := node_above (l := 1) (by omega) h3
  obtain ⟨t2, h2⟩ := node_above (l := 2) (by omega) h3
  have hlast : index virt (levels - 1) = digit (pageOf virt) 3 := index_eq_digit virt (by decide)
  rw [rights, indices_upper, rightsFrom_step inv _ (node_root hroot) h1,
    rightsFrom_step inv _ h1 h2,
    rightsFrom_step inv _ h2 h3, rightsFrom, hlast, hentry,
    if_pos (x86_faithful.leaf_present f perms hdom), rightsOf_leaf]

end

section

variable {seg : AppSegment} {body : List Byte} {q : Nat}

/-- The pages the loader maps for a segment: those that hold a byte of it, and the page of its start. -/
def Spans (seg : AppSegment) (q : Nat) : Prop :=
  seg.vaddr / frameSize ≤ q ∧ q * frameSize < seg.vaddr + seg.memSize

def copyLo (seg : AppSegment) (q : Nat) : Nat := max seg.vaddr (q * frameSize)

def copyHi (seg : AppSegment) (q : Nat) : Nat :=
  min (seg.vaddr + seg.fileSize) (q * frameSize + frameSize)

def fillWords (seg : AppSegment) (body : List Byte) (q : Nat) : Nat → Entry :=
  if copyLo seg q < copyHi seg q then
    copyBytes (fun _ => 0) (copyLo seg q - q * frameSize)
      (slice body (copyLo seg q - seg.vaddr) (copyHi seg q - copyLo seg q))
  else fun _ => 0

theorem byteAt_fillWords (size : body.length = seg.fileSize) (n : Nat) :
    byteAt (fillWords seg body ((seg.vaddr + n) / frameSize)) ((seg.vaddr + n) % frameSize) =
      (body[n]?).getD 0 := by
  have hsplit := Nat.div_add_mod (seg.vaddr + n) frameSize
  have hmod : (seg.vaddr + n) % frameSize < frameSize := Nat.mod_lt _ (by decide)
  generalize hq : (seg.vaddr + n) / frameSize = q at hsplit
  generalize hoff : (seg.vaddr + n) % frameSize = off at hsplit hmod
  rw [mul_comm] at hsplit
  have hlo : copyLo seg q ≤ seg.vaddr + n := by
    unfold copyLo
    omega
  have hstart : seg.vaddr ≤ copyLo seg q ∧ q * frameSize ≤ copyLo seg q := by
    unfold copyLo
    omega
  have hhi : seg.vaddr + n < copyHi seg q ↔ n < seg.fileSize := by
    unfold copyHi
    omega
  rw [fillWords]
  split
  · have hindex : off - (copyLo seg q - q * frameSize) = seg.vaddr + n - copyLo seg q := by omega
    rw [byteAt_copyBytes _ _ (by omega), byteAt_zero, hindex, slice, getElem?_take]
    split
    · rw [getElem?_drop]
      congr 2
      omega
    · rw [getElem?_eq_none (by omega)]
  · rw [byteAt_zero, getElem?_eq_none (by omega)]
    rfl

end

section

def installPage (root : PhysFrame) (seg : AppSegment) (body : List Byte) (q : Nat) :
    Prog Machine String Unit := do
  let frame ← mapErr "no frame for app segment" allocateZeroed
  Prog.update fun m =>
    if copyLo seg q < copyHi seg q then
      copyTo m frame (copyLo seg q - q * frameSize)
        (slice body (copyLo seg q - seg.vaddr) (copyHi seg q - copyLo seg q))
    else m
  mapErr "map app segment page failed" (map x86PageTable root (q * frameSize) frame (permsOf seg))

structure Installed where
  frame : PhysFrame
  perms : Permissions
  words : Nat → Entry

variable {κ : Type} {roots : κ → Option PhysFrame} {k : κ} {root : PhysFrame}
  {m0 m m' : Machine} {done done' : Nat → Option Installed} {seg : AppSegment} {body : List Byte}
  {q : Nat}

structure Placed (roots : κ → Option PhysFrame) (k : κ) (m0 m : Machine) (q : Nat) (r : Installed) :
    Prop where
  origin : r.frame.index ∈ freeSet m0.frames
  addressable : Addressable r.frame
  data : DataFrame x86PageTable roots m r.frame
  contents : m.mem r.frame = r.words
  leaf : slot (child x86PageTable) m.mem roots k (path q 3) (digit q 3) =
    some (x86PageTable.encodeLeaf r.frame r.perms)
  absent : pageTarget x86PageTable roots m0.mem k q = none

structure Progress (roots : κ → Option PhysFrame) (k : κ) (m0 m : Machine)
    (done : Nat → Option Installed) : Prop where
  inv : PagingInv x86PageTable Addressable roots m
  hint : HintInside m.frames
  pool : freeSet m.frames ⊆ freeSet m0.frames
  placed : ∀ q r, done q = some r → Placed roots k m0 m q r
  distinct : ∀ q q' r r', done q = some r → done q' = some r' → r.frame = r'.frame → q = q'
  others : ∀ k' q, q < 2 ^ 36 → (k' = k → done q = none) →
    pageTarget x86PageTable roots m.mem k' q = pageTarget x86PageTable roots m0.mem k' q

theorem Progress.start (inv : PagingInv x86PageTable Addressable roots m)
    (hint : HintInside m.frames) :
    Progress roots k m m (fun _ => none) where
  inv := inv
  hint := hint
  pool := Finset.Subset.refl _
  placed := fun _ _ h => by cases h
  distinct := fun _ _ _ _ h => by cases h
  others := fun _ _ _ _ => rfl

theorem Progress.target (p : Progress roots k m0 m done) {r : Installed} (h : done q = some r) :
    pageTarget x86PageTable roots m.mem k q = some r.frame.addr := by
  have hdom := (p.placed q r h).addressable
  rw [pageTarget, (p.placed q r h).leaf, readPage, if_pos (x86_faithful.leaf_present _ _ hdom),
    x86_faithful.leaf_frame _ _ hdom]

theorem copied_eq (frame : PhysFrame) (zeroed : ∀ i, m.mem frame i = 0) :
    (if copyLo seg q < copyHi seg q then
      copyTo m frame (copyLo seg q - q * frameSize)
        (slice body (copyLo seg q - seg.vaddr) (copyHi seg q - copyLo seg q))
    else m) = setFrame m frame (fillWords seg body q) := by
  have hzero : m.mem frame = fun _ => 0 := funext zeroed
  rw [fillWords]
  split
  · rw [copyTo, hzero]
  · have hsame : (fun g => if g = frame then (fun _ => 0) else m.mem g) = m.mem := by
      funext g
      split
      · rename_i heq
        rw [heq, hzero]
      · rfl
    rw [setFrame, hsame]

theorem installPage_parts (h : installPage root seg body q m = (.ok (), m'))
    (inv : PagingInv x86PageTable Addressable roots m) :
    ∃ frame m1, allocateZeroed m = (.ok frame, m1) ∧
      map x86PageTable root (q * frameSize) frame (permsOf seg)
        (setFrame m1 frame (fillWords seg body q)) = (.ok (), m') := by
  obtain ⟨frame, m1, halloc, h⟩ := of_bind_ok h
  have halloc := of_mapErr_ok halloc
  rw [bind_ok (update_run _ _), copied_eq frame (reserved inv halloc).zeroed] at h
  exact ⟨frame, m1, halloc, of_mapErr_ok h⟩

structure Mapped (roots : κ → Option PhysFrame) (k : κ) (m m' : Machine) (q : Nat) (r : Installed) :
    Prop where
  free : r.frame.index ∈ freeSet m.frames
  addressable : Addressable r.frame
  inv : PagingInv x86PageTable Addressable roots m'
  kept : Kept x86PageTable roots m m'
  pool : freeSet m'.frames ⊆ freeSet m.frames
  data : DataFrame x86PageTable roots m' r.frame
  contents : m'.mem r.frame = r.words
  absent : pageTarget x86PageTable roots m.mem k q = none
  leaf : slot (child x86PageTable) m'.mem roots k (path q 3) (digit q 3) =
    some (x86PageTable.encodeLeaf r.frame r.perms)
  leaves : ∀ q' f perms, Addressable f →
    slot (child x86PageTable) m.mem roots k (path q' 3) (digit q' 3) =
      some (x86PageTable.encodeLeaf f perms) →
    slot (child x86PageTable) m'.mem roots k (path q' 3) (digit q' 3) =
      some (x86PageTable.encodeLeaf f perms)
  others : ∀ k' q', q' < 2 ^ 36 → ¬ (k' = k ∧ q' = q) →
    pageTarget x86PageTable roots m'.mem k' q' = pageTarget x86PageTable roots m.mem k' q'

variable (hroot : roots k = some root)

section

variable {frame : PhysFrame} {m1 : Machine} (inv : PagingInv x86PageTable Addressable roots m)
  (alloc : allocateZeroed m = (.ok frame, m1))

include inv alloc

theorem filled_frame (words : Nat → Entry) : Addressable frame ∧
    PagingInv x86PageTable Addressable roots (setFrame m1 frame words) ∧
    Kept x86PageTable roots m (setFrame m1 frame words) ∧
    DataFrame x86PageTable roots (setFrame m1 frame words) frame := by
  have hreserved := reserved inv alloc
  obtain ⟨hkept, hdata⟩ := kept_reserved inv alloc
  have hfree := hreserved.took.subset (Finset.mem_singleton_self _)
  refine ⟨inv.covers frame (mem_freeSet.mp hfree).1,
    pagingInv_setFrame hdata.no_table hreserved.inv,
    ⟨hkept.hint, ?_, ?_⟩, dataFrame_setFrame hdata.no_table hdata⟩
  · exact fun f hf => dataFrame_setFrame hdata.no_table (hkept.data f hf)
  · intro f hf
    have hne : f ≠ frame := by
      rintro rfl
      exact hf.taken hfree
    rw [setFrame_mem_of_ne hne, hkept.contents f hf]

variable [DecidableEq κ]

include hroot

theorem map_filled (hint : HintInside m.frames) (virt : Nat) (words : Nat → Entry)
    (perms : Permissions) :
    (map x86PageTable root virt frame perms (setFrame m1 frame words)).1 ≠ .panic ∧
      ∀ m', map x86PageTable root virt frame perms (setFrame m1 frame words) = (.ok (), m') →
        PagingInv x86PageTable Addressable roots m' ∧ HintInside m'.frames := by
  obtain ⟨hdom, hinv, hkept, -⟩ := filled_frame inv alloc words
  obtain ⟨hkept', htotal⟩ := map_kept x86_faithful hinv hroot virt hdom perms
  refine ⟨htotal (hkept.hint hint), fun m' hmap => ?_⟩
  obtain ⟨-, -, m3, -, hstored⟩ := map_ok x86_faithful hinv hroot hdom hmap
  rw [hmap] at hkept'
  exact ⟨hstored.inv, hkept'.hint (hkept.hint hint)⟩

theorem mapped_of_map (hq : q < 2 ^ 36) (words : Nat → Entry) {perms : Permissions}
    (done : map x86PageTable root (q * frameSize) frame perms (setFrame m1 frame words) =
      (.ok (), m')) : Mapped roots k m m' q ⟨frame, perms, words⟩ := by
  have hreserved := reserved inv alloc
  have hnotable := (kept_reserved inv alloc).2.no_table
  obtain ⟨hdom, hinv, hkept, hdata⟩ := filled_frame inv alloc words
  obtain ⟨-, -, m3, hbuilt, hstored⟩ := map_ok x86_faithful hinv hroot hdom done
  have hgrown := hbuilt.grown x86_faithful hinv
  have hkept' := (map_kept x86_faithful hinv hroot (q * frameSize) hdom perms).1
  rw [done] at hkept'
  rw [pageOf_mul hq] at hstored
  obtain ⟨habsent, htarget⟩ := hstored.pageTarget_leaf x86_faithful hdom hq
  have hsame : ∀ k' q', pageTarget x86PageTable roots m3.mem k' q' =
      pageTarget x86PageTable roots m.mem k' q' := by
    intro k' q'
    rw [hgrown.target, pageTarget_setFrame hnotable, hreserved.pageTarget_eq]
  refine ⟨hreserved.took.subset (Finset.mem_singleton_self _), hdom, hstored.inv,
    hkept.trans hkept', ?_, hkept'.data _ hdata, ?_, ?_, ?_, ?_, ?_⟩
  · obtain ⟨F, hF, -⟩ := hgrown.took
    rw [hstored.frames_eq, hF.freeSet_eq]
    refine Finset.sdiff_subset.trans ?_
    change freeSet m1.frames ⊆ freeSet m.frames
    rw [hreserved.took.freeSet_eq]
    exact Finset.sdiff_subset
  · rw [hkept'.contents _ hdata, setFrame_mem]
  · rwa [hsame] at habsent
  · rw [hstored.slot_eq, if_pos ⟨rfl, rfl, rfl⟩]
  · intro q' f perms' hf hslot
    have hpresent := x86_faithful.leaf_present f perms' hf
    rw [← hreserved.slot_eq, ← slot_setFrame hnotable] at hslot
    exact slot_of_stored (slot_of_built hslot hpresent hbuilt) hpresent hstored
  · intro k' q' hq' hne
    rw [htarget k' q' hq', if_neg hne, hsame]

end

section

variable {r : Installed} (p : Progress roots k m0 m done)

include p

theorem Progress.done_of_mapped (step : Mapped roots k m m' q r) : done q = none := by
  rcases hdone : done q with _ | r'
  · rfl
  · have habsent := step.absent
    rw [p.target hdone] at habsent
    cases habsent

theorem Progress.placed_kept {q' : Nat} {r' : Installed} (step : Mapped roots k m m' q r)
    (before : done q' = some r') : Placed roots k m0 m' q' r' := by
  have hplaced := p.placed q' r' before
  refine ⟨hplaced.origin, hplaced.addressable, step.kept.data _ hplaced.data, ?_, ?_,
    hplaced.absent⟩
  · rw [step.kept.contents _ hplaced.data, hplaced.contents]
  · exact step.leaves q' r'.frame r'.perms hplaced.addressable hplaced.leaf

theorem Progress.placed_new (hq : q < 2 ^ 36) (step : Mapped roots k m m' q r) :
    Placed roots k m0 m' q r := by
  refine ⟨p.pool step.free, step.addressable, step.data, step.contents, step.leaf, ?_⟩
  rw [← p.others k q hq fun _ => p.done_of_mapped step]
  exact step.absent

theorem Progress.add (hq : q < 2 ^ 36) (step : Mapped roots k m m' q r) :
    Progress roots k m0 m' (update done q (some r)) := by
  have hother : ∀ q' r', done q' = some r' → r'.frame ≠ r.frame := by
    intro q' r' hr hsame
    exact (p.placed q' r' hr).data.taken (hsame ▸ step.free)
  -- a page of the new map is the one installed now or one from before
  have hcases : ∀ q' r', update done q (some r) q' = some r' →
      (q' = q ∧ r' = r) ∨ (q' ≠ q ∧ done q' = some r') := by
    intro q' r' hr
    by_cases hhere : q' = q
    · rw [hhere, update_self] at hr
      exact .inl ⟨hhere, (some.inj hr).symm⟩
    · rw [update_of_ne hhere] at hr
      exact .inr ⟨hhere, hr⟩
  refine ⟨step.inv, step.kept.hint p.hint, step.pool.trans p.pool, ?_, ?_, ?_⟩
  · intro q' r' hr
    rcases hcases q' r' hr with ⟨rfl, rfl⟩ | ⟨-, hbefore⟩
    · exact p.placed_new hq step
    · exact p.placed_kept step hbefore
  · intro q' q'' r' r'' hr hr' hframes
    rcases hcases q' r' hr with ⟨hhere, rfl⟩ | ⟨-, hbefore⟩
    · rcases hcases q'' r'' hr' with ⟨hhere', -⟩ | ⟨-, hbefore'⟩
      · exact hhere.trans hhere'.symm
      · exact absurd hframes.symm (hother q'' r'' hbefore')
    · rcases hcases q'' r'' hr' with ⟨-, rfl⟩ | ⟨-, hbefore'⟩
      · exact absurd hframes (hother q' r' hbefore)
      · exact p.distinct q' q'' r' r'' hbefore hbefore' hframes
  · intro k' q' hq' hnone
    have hne : ¬ (k' = k ∧ q' = q) := by
      rintro ⟨hk, rfl⟩
      have hupdate := hnone hk
      rw [update_self] at hupdate
      cases hupdate
    rw [step.others k' q' hq' hne]
    apply p.others k' q' hq'
    intro hk
    have hupdate := hnone hk
    rwa [update_of_ne fun heq => hne ⟨hk, heq⟩] at hupdate

variable [DecidableEq κ]

include hroot

theorem install_ok (hq : q < 2 ^ 36) (h : installPage root seg body q m = (.ok (), m')) :
    done q = none ∧ ∃ frame, Progress roots k m0 m'
      (update done q (some ⟨frame, permsOf seg, fillWords seg body q⟩)) := by
  obtain ⟨frame, m1, halloc, hmap⟩ := installPage_parts h p.inv
  have hstep := mapped_of_map hroot p.inv halloc hq _ hmap
  exact ⟨p.done_of_mapped hstep, frame, p.add hq hstep⟩

theorem install_total : (installPage root seg body q m).1 ≠ .panic := by
  have halloc := allocateZeroed_ne_panic p.inv.wf p.hint
  rw [installPage]
  rcases hrun : allocateZeroed m with ⟨frame | e | _, m1⟩
  · have hmap := (map_filled hroot p.inv hrun p.hint (q * frameSize) (fillWords seg body q)
      (permsOf seg)).1
    rw [bind_ok (mapErr_ok hrun), bind_ok (update_run _ _),
      copied_eq frame (reserved p.inv hrun).zeroed, mapErr]
    rcases hcall : map x86PageTable root (q * frameSize) frame (permsOf seg)
      (setFrame m1 frame (fillWords seg body q)) with ⟨_ | _ | _, m2⟩
    · simp
    · simp
    · exact absurd (congrArg Prod.fst hcall) hmap
  · simp [bind_run, mapErr, hrun]
  · exact absurd (congrArg Prod.fst hrun) halloc

end

end

section

variable {κ : Type} [DecidableEq κ] {roots : κ → Option PhysFrame} {k : κ} {root : PhysFrame}
  {m0 m m' : Machine} {done : Nat → Option Installed} {seg : AppSegment} {body : List Byte}

def Extends (done done' : Nat → Option Installed) : Prop :=
  ∀ q r, done q = some r → done' q = some r

theorem Extends.trans {done' done'' : Nat → Option Installed} (first : Extends done done')
    (second : Extends done' done'') : Extends done done'' := fun q r h => second q r (first q r h)

theorem Extends.none_of {done' : Nat → Option Installed} (h : Extends done done') {q : Nat}
    (absent : done' q = none) : done q = none := by
  rcases hq : done q with _ | r
  · rfl
  · rw [h q r hq] at absent
    cases absent

theorem extends_update {q : Nat} (new : done q = none) (r : Installed) :
    Extends done (update done q (some r)) := by
  intro q' r' h
  have hne : q' ≠ q := by
    rintro rfl
    rw [new] at h
    cases h
  rw [update_of_ne hne, h]

variable (hroot : roots k = some root) {pages : List Nat} (low : ∀ q ∈ pages, q < 2 ^ 36)
  (p : Progress roots k m0 m done)

include hroot low p

theorem pages_ok (h : forEach pages (installPage root seg body) m = (.ok (), m')) :
    ∃ done', Progress roots k m0 m' done' ∧ Extends done done' ∧ ∀ q ∈ pages, done q = none ∧
      ∃ frame, done' q = some ⟨frame, permsOf seg, fillWords seg body q⟩ := by
  induction pages generalizing m done with
  | nil =>
    obtain rfl := (Prod.mk.inj h).2
    exact ⟨done, p, fun _ _ hr => hr, by simp⟩
  | cons q rest ih =>
    obtain ⟨hlow, hrest⟩ := forall_mem_cons.mp low
    obtain ⟨_, m1, hround, h⟩ := of_bind_ok h
    obtain ⟨hnew, frame, p1⟩ := install_ok hroot p hlow hround
    obtain ⟨done', p', hextends, hpages⟩ := ih hrest p1 h
    have hfirst := extends_update hnew ⟨frame, permsOf seg, fillWords seg body q⟩
    refine ⟨done', p', hfirst.trans hextends, ?_⟩
    intro q' hq'
    rcases mem_cons.mp hq' with rfl | hq'
    · exact ⟨hnew, frame, hextends _ _ (update_self ..)⟩
    · obtain ⟨hnone, hin⟩ := hpages q' hq'
      exact ⟨hfirst.none_of hnone, hin⟩

theorem pages_total : (forEach pages (installPage root seg body) m).1 ≠ .panic := by
  refine forEach_ne_panic (P := fun m => ∃ done, Progress roots k m0 m done) ⟨done, p⟩ ?_
  rintro q hq m ⟨done, p⟩
  refine ⟨install_total hroot p, fun m' hrun => ?_⟩
  obtain ⟨-, frame, p'⟩ := install_ok hroot p (low q hq) hrun
  exact ⟨_, p'⟩

end

section

variable {profile : BuildProfile} {root : PhysFrame} {seg : AppSegment} {body : List Byte}
  {m : Machine}

def pageCount (seg : AppSegment) : Nat :=
  divCeil (seg.vaddr + seg.memSize - seg.vaddr / frameSize * frameSize) frameSize

def pagesOf (seg : AppSegment) : List Nat :=
  (List.range (pageCount seg)).map fun p => seg.vaddr / frameSize + p

theorem lt_pageCount_iff {p : Nat} : p < pageCount seg ↔ Spans seg (seg.vaddr / frameSize + p) := by
  have hfrom := Nat.le_add_right (seg.vaddr / frameSize) p
  rw [pageCount, lt_divCeil_iff (by decide), Spans, add_mul]
  omega

theorem mem_pagesOf {q : Nat} : q ∈ pagesOf seg ↔ Spans seg q := by
  simp only [pagesOf, List.mem_map, mem_range, lt_pageCount_iff]
  constructor
  · rintro ⟨p, hp, rfl⟩
    exact hp
  · intro h
    refine ⟨q - seg.vaddr / frameSize, ?_, Nat.add_sub_cancel' h.1⟩
    rwa [Nat.add_sub_cancel' h.1]

theorem Spans.lt {q : Nat} (h : Spans seg q) (low : seg.vaddr + seg.memSize ≤ 2 ^ 48) :
    q < 2 ^ 36 := by
  have hto : q * 4096 < seg.vaddr + seg.memSize := h.2
  omega

theorem round_sums (profile : BuildProfile) {p : Nat} (sizes : seg.fileSize ≤ seg.memSize)
    (inside : seg.vaddr + seg.memSize < 2 ^ 64) (spans : Spans seg (seg.vaddr / frameSize + p)) :
    pageAddr profile (seg.vaddr / frameSize * frameSize) p =
        some ((seg.vaddr / frameSize + p) * frameSize) ∧
      addWord profile seg.vaddr seg.fileSize = some (seg.vaddr + seg.fileSize) := by
  have hto : 4096 * (seg.vaddr / frameSize + p) < seg.vaddr + seg.memSize := by
    rw [mul_comm]
    exact spans.2
  generalize seg.vaddr / frameSize = q0 at hto ⊢
  have hmul : p * 4096 < 2 ^ 64 := by
    rw [mul_comm]
    omega
  have hadd : q0 * 4096 + p * 4096 < 2 ^ 64 := by
    rw [← add_mul, mul_comm]
    omega
  refine ⟨?_, addWord_of_lt profile (show seg.vaddr + seg.fileSize < 2 ^ 64 by omega)⟩
  rw [pageAddr, mulWord_of_lt profile hmul, bind_some, addWord_of_lt profile hadd, ← add_mul]

theorem copyFileBytes_eq (size : body.length = seg.fileSize) (frame : PhysFrame) (q : Nat) :
    copyFileBytes seg body frame (q * frameSize) (seg.vaddr + seg.fileSize)
      (q * frameSize + frameSize) =
      Prog.update fun m =>
        if copyLo seg q < copyHi seg q then
          copyTo m frame (copyLo seg q - q * frameSize)
            (slice body (copyLo seg q - seg.vaddr) (copyHi seg q - copyLo seg q))
        else m := by
  change (if copyLo seg q < copyHi seg q then copyNonoverlapping body (copyLo seg q - seg.vaddr)
    frame (copyLo seg q - q * frameSize) (copyHi seg q - copyLo seg q) else pure ()) = _
  by_cases hcopy : copyLo seg q < copyHi seg q
  · have hbody : copyLo seg q - seg.vaddr + (copyHi seg q - copyLo seg q) ≤ body.length := by
      simp only [copyLo, copyHi] at hcopy ⊢
      omega
    have hframe : copyLo seg q - q * frameSize + (copyHi seg q - copyLo seg q) ≤ frameSize := by
      simp only [copyLo, copyHi] at hcopy ⊢
      omega
    simp only [if_pos hcopy]
    exact if_pos ⟨hbody, hframe⟩
  · simp only [if_neg hcopy]
    rfl

theorem loadPage_eq {p : Nat} (size : body.length = seg.fileSize)
    (sizes : seg.fileSize ≤ seg.memSize)
    (inside : seg.vaddr + seg.memSize < 2 ^ 64) (spans : Spans seg (seg.vaddr / frameSize + p))
    (fits : (seg.vaddr / frameSize + p) * frameSize + frameSize < 2 ^ 64) :
    loadPage profile root seg body (seg.vaddr / frameSize * frameSize) p =
      installPage root seg body (seg.vaddr / frameSize + p) := by
  obtain ⟨hpage, hfile⟩ := round_sums profile sizes inside spans
  have hhigh : addWord profile ((seg.vaddr / frameSize + p) * frameSize) frameSize = some _ :=
    addWord_of_lt profile fits
  simp only [loadPage, hpage, hfile, hhigh, orPanic_some_bind, installPage, copyFileBytes_eq size]

theorem segment_bounds (inside : seg.vaddr + seg.memSize < 2 ^ 64) :
    checkedAdd seg.vaddr seg.memSize = some (seg.vaddr + seg.memSize) ∧
      seg.vaddr &&& (wordBound - 1 - (frameSize - 1)) = seg.vaddr / frameSize * frameSize ∧
      seg.vaddr / frameSize * frameSize ≤ seg.vaddr + seg.memSize :=
  ⟨checkedAdd_eq_some.mpr ⟨inside, rfl⟩,
    and_not_mask (k := 12) (show seg.vaddr < 2 ^ 64 by omega) (by decide),
    (Nat.div_mul_le_self _ _).trans (Nat.le_add_right _ _)⟩

def firstPage (seg : AppSegment) : Nat := seg.vaddr &&& (wordBound - 1 - (frameSize - 1))

theorem loadSegment_rounds {image : Image} {i : Nat} (found : image.segment i = .ok seg)
    (read : image.segmentBody seg = .ok body) (inside : seg.vaddr + seg.memSize < 2 ^ 64) :
    loadSegment profile root image i = forEach (List.range (pageCount seg))
      (loadPage profile root seg body (firstPage seg)) := by
  obtain ⟨hend, hfirst, hstart⟩ := segment_bounds inside
  have hbind : ∀ {ε α β : Type} (e : String) (a : α) (f : α → Prog Machine String β),
      (mapErr e (lift (.ok a) : Prog Machine ε α) >>= f) = f a := fun _ _ _ => rfl
  have hlift : ∀ {α β : Type} (a : α) (f : α → Prog Machine String β),
      (lift (.okOr (some a) "segment end overflow") >>= f) = f a := fun _ _ => rfl
  simp only [loadSegment, found, hbind, read, hend, hlift, hfirst, subWord_of_le profile hstart,
    orPanic_some_bind, pageCount, firstPage]

theorem loadSegment_eq {image : Image} {i : Nat} (found : image.segment i = .ok seg)
    (read : image.segmentBody seg = .ok body) (size : body.length = seg.fileSize)
    (sizes : seg.fileSize ≤ seg.memSize) (low : seg.vaddr + seg.memSize ≤ 2 ^ 48) :
    loadSegment profile root image i = forEach (pagesOf seg) (installPage root seg body) := by
  have hinside : seg.vaddr + seg.memSize < 2 ^ 64 := by omega
  rw [loadSegment_rounds found read hinside, firstPage, (segment_bounds hinside).2.1]
  apply forEach_map
  intro p hp
  have hspans := lt_pageCount_iff.mp (mem_range.mp hp)
  have hto := hspans.2
  refine loadPage_eq size sizes hinside hspans ?_
  generalize (seg.vaddr / frameSize + p) * frameSize = page at hto ⊢
  change page + 4096 < 2 ^ 64
  omega

end

section

variable {κ : Type} {roots : κ → Option PhysFrame} {k : κ} {root : PhysFrame}
  {m0 m : Machine} {done : Nat → Option Installed}

def readVirt (mem : PhysFrame → Nat → Entry) (root : PhysFrame) (virt : Nat) : Option Byte :=
  (translate x86PageTable mem root virt).map fun pa =>
    byteAt (mem (PhysFrame.containing pa)) (pa % frameSize)

theorem pageOf_low {virt : Nat} (low : virt < 2 ^ 48) : pageOf virt = virt / frameSize := by
  rw [pageOf, Nat.mod_eq_of_lt low]

theorem frame_of_address (virt : Nat) : PhysFrame.containing (f.addr + virt % frameSize) = f ∧
      (f.addr + virt % frameSize) % frameSize = virt % frameSize ∧
      (f.addr + virt % frameSize) / frameSize = f.index := by
  have hlt := f.addr_lt
  have haligned := f.aligned
  refine ⟨PhysFrame.ext ?_, ?_, ?_⟩ <;>
    simp only [PhysFrame.containing, PhysFrame.index, frameSize, wordBound] at * <;> omega

theorem Progress.read (p : Progress roots k m0 m done) (hroot : roots k = some root) {virt : Nat}
    {r : Installed} (h : done (pageOf virt) = some r) :
    translate x86PageTable m.mem root virt = some (r.frame.addr + virt % frameSize) ∧
      readVirt m.mem root virt = some (byteAt r.words (virt % frameSize)) ∧
      rights m.mem root virt = some ⟨r.perms.user, r.perms.write, r.perms.execute⟩ := by
  have htranslate : translate x86PageTable m.mem root virt =
    some (r.frame.addr + virt % frameSize) := by
    rw [translate_eq x86_faithful p.inv hroot, p.target h, map_some]
  obtain ⟨hframe, hoff, -⟩ := frame_of_address r.frame virt
  refine ⟨htranslate, ?_, rights_of_leaf p.inv hroot (p.placed _ r h).addressable
    (p.placed _ r h).leaf⟩
  rw [readVirt, htranslate, map_some, hframe, hoff, (p.placed _ r h).contents]

variable (p : Progress roots k m0 m done) (inv0 : PagingInv x86PageTable Addressable roots m0)
  {virt pa : Nat}

include p inv0

theorem Progress.installed (hroot : roots k = some root)
    (before : translate x86PageTable m0.mem root virt = none)
    (now : translate x86PageTable m.mem root virt = some pa) :
    ∃ r, done (pageOf virt) = some r ∧ pa = r.frame.addr + virt % frameSize := by
  rcases hdone : done (pageOf virt) with _ | r
  · rw [translate_eq x86_faithful p.inv hroot, p.others k _ (pageOf_lt virt) (fun _ => hdone),
      ← translate_eq x86_faithful inv0 hroot, before] at now
    cases now
  · exact ⟨r, rfl, some.inj (now.symm.trans (p.read hroot hdone).1)⟩

theorem Progress.kept {k' : κ} {root' : PhysFrame} (hroot' : roots k' = some root')
    (before : translate x86PageTable m0.mem root' virt = some pa) :
    translate x86PageTable m.mem root' virt = some pa := by
  rw [translate_eq x86_faithful inv0 hroot'] at before
  rw [translate_eq x86_faithful p.inv hroot', p.others k' _ (pageOf_lt virt), before]
  rintro rfl
  rcases hdone : done (pageOf virt) with _ | r
  · rfl
  · rw [(p.placed _ r hdone).absent] at before
    cases before

end

end CibosPlatform.KernelImage.Loader
