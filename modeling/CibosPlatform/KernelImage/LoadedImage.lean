/- source: kernel-image/src/loader.rs
   digest: A loaded image: its bytes, its rights and its frames; segments that share a page. -/

import CibosPlatform.KernelImage.Loader

namespace CibosPlatform.KernelImage.LoadedImage

open Core LittleEndian MachineWord Program WordBytes Kernel.Frame.Accounting List Prog Nat
open Kernel.Frame.Allocator Kernel.Paging.DataFrames Kernel.Paging.Space Kernel.Paging.Tables
open Kernel.Paging.Walk Kernel.Paging.X86 Loader Shared.AppImage PhysFrame

variable {bytes : List Byte}

section

variable {κ : Type} [DecidableEq κ] {roots : κ → Option PhysFrame} {k : κ} {root : PhysFrame}
  {profile : BuildProfile} {m0 m m' : Machine} {done : Nat → Option Installed} {image : Image}

def Low (image : Image) : Prop :=
  ∀ i seg, i < image.segmentCount → image.segment i = .ok seg → seg.vaddr + seg.memSize ≤ 2 ^ 48

theorem segment_body (accepted : Accepted bytes image) {i : Nat}
    (hi : i < image.segmentCount) {seg : AppSegment} (hseg : image.segment i = .ok seg) :
    ∃ body, image.segmentBody seg = .ok body ∧ body.length = seg.fileSize ∧
      seg.fileSize ≤ seg.memSize := by
  obtain ⟨seg', hseg', hwithin⟩ := accepted.segments i hi
  obtain rfl := Outcome.ok.inj (hseg.symm.trans hseg')
  rw [← accepted.whole] at hwithin
  have hsize : (slice image.bytes seg.fileOffset seg.fileSize).length = seg.fileSize := by
    rcases Nat.eq_zero_or_pos seg.fileSize with hzero | hpos
    · rw [hzero, slice, take_zero, length_nil]
    · exact slice_length (hwithin.inside hpos)
  exact ⟨_, segmentBody_of_within hwithin, hsize, hwithin.sizes⟩

theorem segment_program (profile : BuildProfile) (root : PhysFrame)
    (accepted : Accepted bytes image) (low : Low image)
    {i : Nat} (hi : i < image.segmentCount) : ∃ seg body, image.segment i = .ok seg ∧
      image.segmentBody seg = .ok body ∧ seg.vaddr + seg.memSize ≤ 2 ^ 48 ∧
      loadSegment profile root image i = forEach (pagesOf seg) (installPage root seg body) := by
  obtain ⟨seg, hseg, -⟩ := accepted.segments i hi
  obtain ⟨body, hbody, hsize, hsizes⟩ := segment_body accepted hi hseg
  have hlow := low i seg hi hseg
  exact ⟨seg, body, hseg, hbody, hlow, loadSegment_eq hseg hbody hsize hsizes hlow⟩

def SegmentIn (image : Image) (done : Nat → Option Installed) (i : Nat) : Prop :=
  ∀ seg body, image.segment i = .ok seg → image.segmentBody seg = .ok body → ∀ q, Spans seg q →
    ∃ frame, done q = some ⟨frame, permsOf seg, fillWords seg body q⟩

def SegmentNew (image : Image) (done : Nat → Option Installed) (i : Nat) : Prop :=
  ∀ seg, image.segment i = .ok seg → ∀ q, Spans seg q → done q = none

def SharePage (image : Image) (i j : Nat) : Prop :=
  ∃ seg seg' q, image.segment i = .ok seg ∧ image.segment j = .ok seg' ∧ Spans seg q ∧ Spans seg' q

variable (accepted : Accepted bytes image) (low : Low image) (hroot : roots k = some root)
  {indices : List Nat} (inside : ∀ i ∈ indices, i < image.segmentCount)
    (p : Progress roots k m0 m done)

include accepted low hroot inside p

theorem segments_ok (h : forEach indices (loadSegment profile root image) m = (.ok (), m')) :
    (∃ done', Progress roots k m0 m' done' ∧ Extends done done' ∧
      ∀ i ∈ indices, SegmentIn image done' i ∧ SegmentNew image done i) ∧
    indices.Pairwise fun i j => ¬ SharePage image i j := by
  induction indices generalizing m done with
  | nil =>
    obtain rfl := (Prod.mk.inj h).2
    exact ⟨⟨done, p, fun _ _ hr => hr, by simp⟩, .nil⟩
  | cons i rest ih =>
    obtain ⟨hi, hrest⟩ := forall_mem_cons.mp inside
    obtain ⟨seg, body, hseg, hbody, hlow, hprogram⟩ := segment_program profile root accepted low hi
    rw [forEach, hprogram] at h
    obtain ⟨_, m1, hround, h⟩ := of_bind_ok h
    obtain ⟨done1, p1, hfirst, hpages⟩ :=
      pages_ok hroot (fun q hq => (mem_pagesOf.mp hq).lt hlow) p hround
    obtain ⟨⟨done', p', hextends, hothers⟩, hapart⟩ := ih hrest p1 h
    refine ⟨⟨done', p', hfirst.trans hextends, ?_⟩, .cons ?_ hapart⟩
    · intro j hj
      rcases mem_cons.mp hj with rfl | hj
      · constructor
        · intro seg' body' hseg' hbody' q hq
          obtain rfl := Outcome.ok.inj (hseg.symm.trans hseg')
          obtain rfl := Outcome.ok.inj (hbody.symm.trans hbody')
          obtain ⟨-, frame, hframe⟩ := hpages q (mem_pagesOf.mpr hq)
          exact ⟨frame, hextends _ _ hframe⟩
        · intro seg' hseg' q hq
          obtain rfl := Outcome.ok.inj (hseg.symm.trans hseg')
          exact (hpages q (mem_pagesOf.mpr hq)).1
      · obtain ⟨hin, hnew⟩ := hothers j hj
        exact ⟨hin, fun seg' hseg' q hq => hfirst.none_of (hnew seg' hseg' q hq)⟩
    · -- a page of this segment is taken when the later ones are loaded
      rintro j hj ⟨seg', seg'', q, hseg', hseg'', hq, hq'⟩
      obtain rfl := Outcome.ok.inj (hseg.symm.trans hseg')
      obtain ⟨-, frame, hframe⟩ := hpages q (mem_pagesOf.mpr hq)
      rw [(hothers j hj).2 seg'' hseg'' q hq'] at hframe
      cases hframe

theorem segments_total : (forEach indices (loadSegment profile root image) m).1 ≠ .panic := by
  refine forEach_ne_panic (P := fun m => ∃ done, Progress roots k m0 m done) ⟨done, p⟩ ?_
  rintro i hi m ⟨done, p⟩
  obtain ⟨seg, body, -, -, hlow, hprogram⟩ :=
    segment_program profile root accepted low (inside i hi)
  have hpages : ∀ q ∈ pagesOf seg, q < 2 ^ 36 := fun q hq => (mem_pagesOf.mp hq).lt hlow
  rw [hprogram]
  refine ⟨pages_total hroot hpages p, fun m' hrun => ?_⟩
  obtain ⟨done', p', -⟩ := pages_ok hroot hpages p hrun
  exact ⟨done', p'⟩

end

section

variable {κ : Type} {roots : κ → Option PhysFrame} {k : κ} {root : PhysFrame}
  {m0 m : Machine} {done : Nat → Option Installed}

structure Loaded (roots : κ → Option PhysFrame) (root : PhysFrame) (image : Image)
    (m m' : Machine) :
    Prop where
  contents : ∀ i seg body, i < image.segmentCount → image.segment i = .ok seg →
    image.segmentBody seg = .ok body → body.length = seg.fileSize ∧
      ∀ n (h : n < body.length), readVirt m'.mem root (seg.vaddr + n) = some body[n]
  zeros : ∀ i seg, i < image.segmentCount → image.segment i = .ok seg →
    ∀ n, seg.fileSize ≤ n → n < seg.memSize → readVirt m'.mem root (seg.vaddr + n) = some 0
  access : ∀ i seg, i < image.segmentCount → image.segment i = .ok seg →
    ∀ virt < 2 ^ 48, Spans seg (virt / frameSize) →
      rights m'.mem root virt = some ⟨true, seg.writable, seg.executable⟩
  kept : ∀ k' root' virt pa, roots k' = some root' →
    translate x86PageTable m.mem root' virt = some pa →
      translate x86PageTable m'.mem root' virt = some pa
  fresh : ∀ virt pa, translate x86PageTable m.mem root virt = none →
    translate x86PageTable m'.mem root virt = some pa →
      pa / frameSize ∈ freeSet m.frames ∧ pa / frameSize ∉ freeSet m'.frames
  once : ∀ virt virt' pa pa', translate x86PageTable m.mem root virt = none →
    translate x86PageTable m'.mem root virt = some pa →
    translate x86PageTable m'.mem root virt' = some pa' → pa / frameSize = pa' / frameSize →
    pageOf virt ≠ pageOf virt' → translate x86PageTable m.mem root virt' = some pa'

theorem loaded_of_progress [DecidableEq κ] (p : Progress roots k m0 m done)
    (inv0 : PagingInv x86PageTable Addressable roots m0) (hroot : roots k = some root)
    {image : Image} (accepted : Accepted bytes image) (low : Low image)
    (segments : ∀ i < image.segmentCount, SegmentIn image done i) :
    Loaded roots root image m0 m := by
  have hread : ∀ i seg body, i < image.segmentCount → image.segment i = .ok seg →
      image.segmentBody seg = .ok body →
        ∀ n < seg.memSize, readVirt m.mem root (seg.vaddr + n) = some ((body[n]?).getD 0) := by
    intro i seg body hi hseg hbody n hn
    obtain ⟨body', hbody', hsize, -⟩ := segment_body accepted hi hseg
    obtain rfl := Outcome.ok.inj (hbody.symm.trans hbody')
    have hlow := low i seg hi hseg
    have hspans : Spans seg ((seg.vaddr + n) / frameSize) :=
      ⟨Nat.div_le_div_right (le_add_right _ _), lt_of_le_of_lt (div_mul_le_self _ _) (by omega)⟩
    obtain ⟨frame, hframe⟩ := segments i hi seg body hseg hbody _ hspans
    rw [← pageOf_low (show seg.vaddr + n < 2 ^ 48 by omega)] at hframe
    rw [(p.read hroot hframe).2.1, ← byteAt_fillWords hsize n,
      pageOf_low (show seg.vaddr + n < 2 ^ 48 by omega)]
  refine ⟨?_, ?_, ?_, ?_, ?_, ?_⟩
  · intro i seg body hi hseg hbody
    obtain ⟨body', hbody', hsize, hsizes⟩ := segment_body accepted hi hseg
    obtain rfl := Outcome.ok.inj (hbody.symm.trans hbody')
    refine ⟨hsize, ?_⟩
    intro n hn
    rw [hread i seg body hi hseg hbody n (by omega), getElem?_eq_getElem hn]
    rfl
  · intro i seg hi hseg n hfile hmem
    obtain ⟨body, hbody, hsize, -⟩ := segment_body accepted hi hseg
    rw [hread i seg body hi hseg hbody n hmem, getElem?_eq_none (by omega)]
    rfl
  · intro i seg hi hseg virt hvirt hspans
    obtain ⟨body, hbody, -⟩ := segment_body accepted hi hseg
    obtain ⟨frame, hframe⟩ := segments i hi seg body hseg hbody _ hspans
    rw [← pageOf_low hvirt] at hframe
    exact (p.read hroot hframe).2.2
  · exact fun k' root' virt pa => p.kept inv0
  · intro virt pa hbefore hnow
    obtain ⟨r, hr, rfl⟩ := p.installed inv0 hroot hbefore hnow
    rw [(frame_of_address r.frame virt).2.2]
    exact ⟨(p.placed _ r hr).origin, (p.placed _ r hr).data.taken⟩
  · intro virt virt' pa pa' hbefore hnow hnow' hframes hpages
    obtain ⟨r, hr, rfl⟩ := p.installed inv0 hroot hbefore hnow
    rcases hbefore' : translate x86PageTable m0.mem root virt' with _ | old
    · obtain ⟨r', hr', rfl⟩ := p.installed inv0 hroot hbefore' hnow'
      rw [(frame_of_address r.frame virt).2.2, (frame_of_address r'.frame virt').2.2] at hframes
      have hsame : r.frame = r'.frame := by rw [← fromIndex_index r.frame, hframes, fromIndex_index]
      exact absurd (p.distinct _ _ r r' hr hr' hsame) hpages
    · exact (p.kept inv0 hroot hbefore').symm.trans hnow'

end

/-- A successful load is exact, and segments that share a page are refused. -/
theorem load_app_image_exact {κ : Type} [DecidableEq κ] (profile : BuildProfile)
    (roots : κ → Option PhysFrame) (k : κ) (root : PhysFrame) (hroot : roots k = some root)
    (bytes : List Byte) (image : Image) (parsed : Image.parse bytes = .ok image) (low : Low image)
    (m : Machine) (inv : PagingInv x86PageTable Addressable roots m) (hint : HintInside m.frames) :
    (∀ entry m', loadAppImage profile root image m = (.ok entry, m') →
      entry = image.entry ∧ Loaded roots root image m m') ∧
    (∀ i j, i < j → j < image.segmentCount → SharePage image i j →
      ∃ e, (loadAppImage profile root image m).1 = .err e) := by
  have accepted := parse_ok.mp parsed
  have hinside : ∀ i ∈ range image.segmentCount, i < image.segmentCount :=
    fun i hi => mem_range.mp hi
  have hstart : Progress roots k m m (fun _ => none) := .start inv hint
  constructor
  · intro entry m' h
    obtain ⟨_, m1, hloop, h⟩ := of_bind_ok h
    obtain ⟨hentry, rfl⟩ := Prod.mk.inj h
    obtain ⟨⟨done, p, -, hsegments⟩, -⟩ := segments_ok accepted low hroot hinside hstart hloop
    exact ⟨(Outcome.ok.inj hentry).symm, loaded_of_progress p inv hroot accepted low
      fun i hi => (hsegments i (mem_range.mpr hi)).1⟩
  · intro i j hij hj hshare
    have htotal : (forEach (range image.segmentCount) (loadSegment profile root image) m).1 ≠
        .panic := segments_total accepted low hroot hinside hstart
    rw [loadAppImage]
    rcases hloop : forEach (range image.segmentCount) (loadSegment profile root image) m with
      ⟨_ | e | _, m1⟩
    · obtain ⟨-, hapart⟩ := segments_ok accepted low hroot hinside hstart hloop
      have hpair := pairwise_iff_getElem.mp hapart i j
        (by rw [length_range]; omega) (by rw [length_range]; omega) hij
      rw [getElem_range, getElem_range] at hpair
      exact absurd hshare hpair
    · rw [bind_err hloop]
      exact ⟨e, rfl⟩
    · exact absurd (congrArg Prod.fst hloop) htotal

/-- Three bytes of code and two zeros, from two bytes before the end of a page. -/
def tinyBuilder : AppImageBuilder :=
  ⟨0x400ffe, [⟨0x400ffe, 5, 5, [0x90, 0x90, 0xC3], Nat.le_of_ble_eq_true rfl⟩]⟩

def tinyImage : Image := ⟨imageBytes tinyBuilder, headerOf tinyBuilder⟩

theorem tinyImage_parsed : Image.parse (imageBytes tinyBuilder) = .ok tinyImage :=
  parse_ok.mpr (accepted_built (by decide) (by decide))

theorem tinyImage_low : Low tinyImage := by
  intro i seg hi hseg
  obtain rfl : i = 0 := lt_one_iff.mp hi
  have hsplit : tinyBuilder.segments = [] ++ tinyBuilder.segments.head (by decide) :: [] := rfl
  have hfound : tinyImage.segment 0 = _ := segment_parse (by decide) hsplit
  obtain rfl := Outcome.ok.inj (hfound.symm.trans hseg)
  decide

def identityMachine : Machine :=
  (map x86PageTable (fromIndex 0) 0x4000 (fromIndex 4)
    ⟨true, true, true, false, false⟩ (newRoot blankMachine).2).2

def identityRoots : Unit → Option PhysFrame := fun _ => some (fromIndex 0)

theorem identityMachine_inv : PagingInv x86PageTable Addressable identityRoots identityMachine := by
  have hnew : newRoot blankMachine = (.ok (fromIndex 0), (newRoot blankMachine).2) :=
    Prod.ext (by decide +kernel) rfl
  have hempty : PagingInv x86PageTable Addressable (fun _ : Unit => none) blankMachine :=
    pagingInv_empty blankMachine_wf blankMachine_addressable
  have hopened := (newRoot_ok x86_faithful hempty () hnew).inv
  have hroots : Function.update (fun _ : Unit => none) () (some (fromIndex 0)) = identityRoots := by
    funext u
    rfl
  have hmap : map x86PageTable (fromIndex 0) 0x4000 (fromIndex 4)
      ⟨true, true, true, false, false⟩ (newRoot blankMachine).2 = (.ok (), identityMachine) :=
    Prod.ext (by decide +kernel) rfl
  obtain ⟨-, -, m1, -, hstored⟩ :=
    map_ok (k := ()) x86_faithful hopened rfl (by decide : Addressable (fromIndex 4)) hmap
  exact hstored.inv

theorem tinyImage_loads :
    (loadAppImage .dev (fromIndex 0) tinyImage identityMachine).1 = .ok 0x400ffe := by
  decide +kernel

theorem load_app_image_exact_tiny :
    ∃ m', loadAppImage .dev (fromIndex 0) tinyImage identityMachine = (.ok 0x400ffe, m') ∧
      Loaded identityRoots (fromIndex 0) tinyImage identityMachine m' := by
  have hexact := load_app_image_exact .dev identityRoots () (fromIndex 0) rfl
    (imageBytes tinyBuilder) tinyImage tinyImage_parsed tinyImage_low identityMachine
    identityMachine_inv (by decide +kernel)
  exact ⟨_, Prod.ext tinyImage_loads rfl, (hexact.1 0x400ffe _ (Prod.ext tinyImage_loads rfl)).2⟩

/-- A frame that the space maps while it is free is mapped a second time by the load. -/
theorem free_frame_mapped_twice :
    ∃ m', loadAppImage .dev (fromIndex 0) tinyImage identityMachine = (.ok 0x400ffe, m') ∧
      PagingInv x86PageTable Addressable identityRoots identityMachine ∧
      translate x86PageTable m'.mem (fromIndex 0) 0x4000 = some 0x4000 ∧
      translate x86PageTable m'.mem (fromIndex 0) 0x400000 = some 0x4000 :=
  ⟨_, Prod.ext tinyImage_loads rfl, identityMachine_inv, by decide +kernel, by decide +kernel⟩

section

variable {image : Image} {i : Nat} {seg : AppSegment} {body : List Byte}

/-- No sum leaves 64 bits, no copy leaves its body or its frame, and an image with a segment outside
the address range is refused. -/
structure LoadFits (root : PhysFrame) (image : Image) (m : Machine) : Prop where
  no_overflow : (loadAppImage .dev root image m).1 ≠ .panic
  refused : ∀ i < image.segmentCount, ∀ seg, image.segment i = .ok seg →
    2 ^ 64 ≤ seg.vaddr + seg.memSize → ∃ e, (loadAppImage .dev root image m).1 = .err e

/-- The load comes to the last page of a segment: what precedes it is loaded, and there is a frame
for it. -/
def Reached (root : PhysFrame) (image : Image) (m : Machine) (i : Nat) (seg : AppSegment) : Prop :=
  ∃ body m1 m2 m3 frame, image.segmentBody seg = .ok body ∧
    forEach (range i) (loadSegment .dev root image) m = (.ok (), m1) ∧
    forEach (range (pageCount seg - 1)) (loadPage .dev root seg body (firstPage seg)) m1 =
      (.ok (), m2) ∧
    allocateZeroed m2 = (.ok frame, m3)

theorem segment_refused (found : image.segment i = .ok seg)
    (read : image.segmentBody seg = .ok body)
    (high : 2 ^ 64 ≤ seg.vaddr + seg.memSize) (profile : BuildProfile) (root : PhysFrame)
    (m : Machine) :
    loadSegment profile root image i m = (.err "segment end overflow", m) := by
  have hseg : mapErr "bad segment descriptor" (lift (image.segment i)) m = (.ok seg, m) := by
    rw [found]
    rfl
  have hbody : mapErr "bad segment body" (lift (image.segmentBody seg)) m = (.ok body, m) := by
    rw [read]
    rfl
  have hnone : checkedAdd seg.vaddr seg.memSize = none := if_neg (not_lt.mpr high)
  rw [loadSegment, bind_ok hseg, bind_ok hbody, hnone]
  rfl

theorem not_ok_of_refused (accepted : Accepted bytes image) (hi : i < image.segmentCount)
    (found : image.segment i = .ok seg) (high : 2 ^ 64 ≤ seg.vaddr + seg.memSize)
    (profile : BuildProfile) (root : PhysFrame) (m : Machine) (entry : Nat) :
    (loadAppImage profile root image m).1 ≠ .ok entry := by
  intro hload
  obtain ⟨body, hread, -⟩ := segment_body accepted hi found
  obtain ⟨_, m1, hloop, -⟩ := of_bind_ok (Prod.ext hload rfl)
  obtain ⟨s, t, hround⟩ := of_forEach_ok (mem_range.mpr hi) hloop
  rw [segment_refused found hread high] at hround
  cases hround

variable {κ : Type} [DecidableEq κ] {roots : κ → Option PhysFrame} {k : κ} {root : PhysFrame}
  {m m' : Machine}

structure Ready (roots : κ → Option PhysFrame) (m : Machine) : Prop where
  inv : PagingInv x86PageTable Addressable roots m
  hint : HintInside m.frames

theorem install_ready (seg : AppSegment) (body : List Byte) (q : Nat) (ready : Ready roots m)
    (hroot : roots k = some root) :
    (installPage root seg body q m).1 ≠ .panic ∧
      ∀ m', installPage root seg body q m = (.ok (), m') → Ready roots m' := by
  refine ⟨install_total hroot (Progress.start ready.inv ready.hint), fun m' h => ?_⟩
  obtain ⟨frame, m1, halloc, hmap⟩ := installPage_parts h ready.inv
  obtain ⟨hinv, hhint⟩ := (map_filled hroot ready.inv halloc ready.hint _ _ _).2 m' hmap
  exact ⟨hinv, hhint⟩

theorem top_page_iff {p : Nat} (inside : seg.vaddr + seg.memSize < 2 ^ 64)
    (hp : p < pageCount seg) :
    2 ^ 64 ≤ (seg.vaddr / frameSize + p) * frameSize + frameSize ↔
      p = pageCount seg - 1 ∧ 2 ^ 64 - 4096 < seg.vaddr + seg.memSize := by
  have hhere : (seg.vaddr / frameSize + p) * 4096 < seg.vaddr + seg.memSize :=
    (lt_pageCount_iff.mp hp).2
  have hnext : p + 1 < pageCount seg ↔
      (seg.vaddr / frameSize + p) * 4096 + 4096 < seg.vaddr + seg.memSize := by
    rw [lt_pageCount_iff, Spans, ← add_assoc, add_mul _ 1, one_mul]
    exact and_iff_right ((le_add_right _ _).trans (le_add_right _ _))
  change 2 ^ 64 ≤ (seg.vaddr / frameSize + p) * 4096 + 4096 ↔ _
  generalize seg.vaddr / frameSize + p = q at hhere hnext
  omega

theorem pageCount_pos (inside : seg.vaddr + seg.memSize < 2 ^ 64)
    (high : 2 ^ 64 - 4096 < seg.vaddr + seg.memSize) : 0 < pageCount seg := by
  refine lt_pageCount_iff.mpr ⟨le_add_right _ _, ?_⟩
  change (seg.vaddr / 4096 + 0) * 4096 < seg.vaddr + seg.memSize
  omega

section

variable (hroot : roots k = some root) (size : body.length = seg.fileSize)
  (sizes : seg.fileSize ≤ seg.memSize) (inside : seg.vaddr + seg.memSize < 2 ^ 64)

include hroot size sizes inside

theorem loadPage_ready {p : Nat} (hp : p < pageCount seg) (ready : Ready roots m) :
    ((loadPage .dev root seg body (firstPage seg) p m).1 = .panic ↔
      2 ^ 64 ≤ (seg.vaddr / frameSize + p) * frameSize + frameSize ∧
        ∃ frame m1, allocateZeroed m = (.ok frame, m1)) ∧
      ∀ m', loadPage .dev root seg body (firstPage seg) p m = (.ok (), m') → Ready roots m' := by
  have hspans := lt_pageCount_iff.mp hp
  rw [firstPage, (segment_bounds inside).2.1]
  rcases lt_or_ge ((seg.vaddr / frameSize + p) * frameSize + frameSize) (2 ^ 64) with hfits | hover
  · rw [loadPage_eq size sizes inside hspans hfits]
    obtain ⟨htotal, hnext⟩ := install_ready seg body (seg.vaddr / frameSize + p) ready hroot
    exact ⟨⟨fun h => absurd h htotal, fun h => absurd h.1 (not_le.mpr hfits)⟩, hnext⟩
  · -- the end of the page is no 64-bit number, which shows once the page has its frame
    obtain ⟨hpage, hfile⟩ := round_sums .dev sizes inside hspans
    have hhigh : addWord .dev ((seg.vaddr / frameSize + p) * frameSize) frameSize = none :=
      if_neg (not_lt.mpr hover)
    simp only [loadPage, hpage, hfile, hhigh, orPanic_some_bind]
    have htotal := allocateZeroed_ne_panic ready.inv.wf ready.hint
    rcases hrun : allocateZeroed m with ⟨frame | e | _, m1⟩
    · rw [bind_ok (mapErr_ok hrun)]
      exact ⟨⟨fun _ => ⟨hover, frame, m1, rfl⟩, fun _ => rfl⟩, by rintro _ ⟨⟩⟩
    · simp [bind_run, mapErr, hrun]
    · exact absurd (congrArg Prod.fst hrun) htotal

theorem loadSegment_ready (found : image.segment i = .ok seg)
    (read : image.segmentBody seg = .ok body) (ready : Ready roots m) :
    ((loadSegment .dev root image i m).1 = .panic ↔ 2 ^ 64 - 4096 < seg.vaddr + seg.memSize ∧
      ∃ m1 m2 frame, forEach (range (pageCount seg - 1))
          (loadPage .dev root seg body (firstPage seg)) m = (.ok (), m1) ∧
        allocateZeroed m1 = (.ok frame, m2)) ∧
      ∀ m', loadSegment .dev root image i m = (.ok (), m') → Ready roots m' := by
  have hrounds : ∀ n ≤ pageCount seg, ∀ m1,
      forEach (range n) (loadPage .dev root seg body (firstPage seg)) m = (.ok (), m1) →
      Ready roots m1 := by
    intro n hn m1 h
    refine forEach_keeps_ok (fun p hp s s' hs hround => ?_) ready h
    exact (loadPage_ready hroot size sizes inside ((mem_range.mp hp).trans_le hn) hs).2 s' hround
  rw [loadSegment_rounds found read inside]
  refine ⟨?_, hrounds _ le_rfl⟩
  rw [forEach_range_panic_iff]
  constructor
  · rintro ⟨p, hp, m1, hbefore, hpanic⟩
    obtain ⟨hover, frame, m2, halloc⟩ :=
      (loadPage_ready hroot size sizes inside hp (hrounds p hp.le m1 hbefore)).1.mp hpanic
    obtain ⟨rfl, hhigh⟩ := (top_page_iff inside hp).mp hover
    exact ⟨hhigh, m1, m2, frame, hbefore, halloc⟩
  · rintro ⟨hhigh, m1, m2, frame, hbefore, halloc⟩
    have hp : pageCount seg - 1 < pageCount seg := Nat.sub_one_lt (pageCount_pos inside hhigh).ne'
    refine ⟨_, hp, m1, hbefore, ?_⟩
    exact (loadPage_ready hroot size sizes inside hp (hrounds _ hp.le m1 hbefore)).1.mpr
      ⟨(top_page_iff inside hp).mpr ⟨rfl, hhigh⟩, frame, m2, halloc⟩

end

theorem loadSegment_keeps (accepted : Accepted bytes image) (hroot : roots k = some root)
    (hi : i < image.segmentCount) (ready : Ready roots m)
    (h : loadSegment .dev root image i m = (.ok (), m')) : Ready roots m' := by
  obtain ⟨seg, hseg, -⟩ := accepted.segments i hi
  obtain ⟨body, hread, hsize, hsizes⟩ := segment_body accepted hi hseg
  rcases lt_or_ge (seg.vaddr + seg.memSize) (2 ^ 64) with hinside | hhigh
  · exact (loadSegment_ready hroot hsize hsizes hinside hseg hread ready).2 m' h
  · rw [segment_refused hseg hread hhigh] at h
    cases h

theorem load_panics_iff (accepted : Accepted bytes image) (hroot : roots k = some root)
    (ready : Ready roots m) : (loadAppImage .dev root image m).1 = .panic ↔
      ∃ i < image.segmentCount, ∃ seg, image.segment i = .ok seg ∧ Reached root image m i seg ∧
        2 ^ 64 - 4096 < seg.vaddr + seg.memSize ∧ seg.vaddr + seg.memSize < 2 ^ 64 := by
  have hloop : (loadAppImage .dev root image m).1 = .panic ↔
      (forEach (range image.segmentCount) (loadSegment .dev root image) m).1 = .panic := by
    rw [loadAppImage, bind_run]
    rcases forEach (range image.segmentCount) (loadSegment .dev root image) m with ⟨_ | _ | _, m1⟩
    · exact ⟨nofun, nofun⟩
    · exact ⟨nofun, nofun⟩
    · exact ⟨fun _ => rfl, fun _ => rfl⟩
  have hready : ∀ i < image.segmentCount, ∀ m1,
      forEach (range i) (loadSegment .dev root image) m = (.ok (), m1) → Ready roots m1 := by
    intro i hi m1 h
    refine forEach_keeps_ok (fun j hj s s' hs hround => ?_) ready h
    exact loadSegment_keeps accepted hroot ((mem_range.mp hj).trans hi) hs hround
  rw [hloop, forEach_range_panic_iff]
  constructor
  · rintro ⟨i, hi, m1, hbefore, hpanic⟩
    obtain ⟨seg, hseg, -⟩ := accepted.segments i hi
    obtain ⟨body, hread, hsize, hsizes⟩ := segment_body accepted hi hseg
    rcases lt_or_ge (seg.vaddr + seg.memSize) (2 ^ 64) with hinside | hhigh
    · obtain ⟨htop, m2, m3, frame, hpages, halloc⟩ := (loadSegment_ready hroot hsize hsizes hinside
        hseg hread (hready i hi m1 hbefore)).1.mp hpanic
      exact ⟨i, hi, seg, hseg, ⟨body, m1, m2, m3, frame, hread, hbefore, hpages, halloc⟩, htop,
        hinside⟩
    · rw [segment_refused hseg hread hhigh] at hpanic
      cases hpanic
  · rintro ⟨i, hi, seg, hseg, ⟨body, m1, m2, m3, frame, hread, hbefore, hpages, halloc⟩, htop,
      hinside⟩
    obtain ⟨body', hread', hsize, hsizes⟩ := segment_body accepted hi hseg
    obtain rfl := Outcome.ok.inj (hread.symm.trans hread')
    exact ⟨i, hi, m1, hbefore, (loadSegment_ready hroot hsize hsizes hinside hseg hread
      (hready i hi m1 hbefore)).1.mpr ⟨htop, m2, m3, frame, hpages, halloc⟩⟩

end

/-- In a machine that is in order the load overflows exactly if it comes to a segment that ends on
the last page of the address range. -/
theorem load_fits_iff {κ : Type} [DecidableEq κ] (roots : κ → Option PhysFrame) (k : κ)
    (root : PhysFrame) (hroot : roots k = some root) (bytes : List Byte) (image : Image)
    (parsed : Image.parse bytes = .ok image) (m : Machine)
    (inv : PagingInv x86PageTable Addressable roots m) (hint : HintInside m.frames) :
    LoadFits root image m ↔ ∀ i < image.segmentCount, ∀ seg, image.segment i = .ok seg →
      Reached root image m i seg →
        seg.vaddr + seg.memSize ≤ 2 ^ 64 - 4096 ∨ 2 ^ 64 ≤ seg.vaddr + seg.memSize := by
  have accepted := parse_ok.mp parsed
  have hpanics := load_panics_iff accepted hroot ⟨inv, hint⟩
  constructor
  · rintro ⟨no_overflow, -⟩ i hi seg hseg hreached
    by_contra hbetween
    rw [not_or, not_le, not_le] at hbetween
    exact no_overflow (hpanics.mpr ⟨i, hi, seg, hseg, hreached, hbetween⟩)
  · intro hends
    have htotal : (loadAppImage .dev root image m).1 ≠ .panic := by
      intro hpanic
      obtain ⟨i, hi, seg, hseg, hreached, htop, hinside⟩ := hpanics.mp hpanic
      exact (hends i hi seg hseg hreached).elim (not_le.mpr htop) (not_le.mpr hinside)
    refine ⟨htotal, fun i hi seg hseg hhigh => ?_⟩
    rcases hrun : (loadAppImage .dev root image m).1 with entry | e | _
    · exact absurd hrun (not_ok_of_refused accepted hi hseg hhigh .dev root m entry)
    · exact ⟨e, rfl⟩
    · exact absurd hrun htotal

/-- The segment over two pages is loaded. -/
theorem load_fits_tiny : LoadFits (fromIndex 0) tinyImage identityMachine ∧
    (loadAppImage .dev (fromIndex 0) tinyImage identityMachine).1 = .ok 0x400ffe := by
  refine ⟨(load_fits_iff identityRoots () (fromIndex 0) rfl (imageBytes tinyBuilder) tinyImage
    tinyImage_parsed identityMachine identityMachine_inv (by decide +kernel)).mpr ?_,
      tinyImage_loads⟩
  exact fun i hi seg hseg _ => .inl ((tinyImage_low i seg hi hseg).trans (by decide))

def highBuilder : AppImageBuilder :=
  ⟨0xFFFFFFFFFFFFF000, [⟨0xFFFFFFFFFFFFF000, 1, 5, [0x90], Nat.le_of_ble_eq_true rfl⟩]⟩

def highImage : Image := ⟨imageBytes highBuilder, headerOf highBuilder⟩

/-- The end of its page is no 64-bit number: with overflow checks the load panics, without them the page is
mapped and the byte is missing. -/
theorem last_page_overflows : Image.parse (imageBytes highBuilder) = .ok highImage ∧
    (loadAppImage .dev (fromIndex 0) highImage identityMachine).1 = .panic ∧
    ¬ LoadFits (fromIndex 0) highImage identityMachine ∧
    (loadAppImage .release (fromIndex 0) highImage identityMachine).1 = .ok 0xFFFFFFFFFFFFF000 ∧
    readVirt (loadAppImage .release (fromIndex 0) highImage identityMachine).2.mem
      (fromIndex 0) 0xFFFFFFFFFFFFF000 = some 0 := by
  have hpanic : (loadAppImage .dev (fromIndex 0) highImage identityMachine).1 = .panic := by
    decide +kernel
  exact ⟨parse_ok.mpr (accepted_built (by decide) (by decide)), hpanic,
    fun h => h.no_overflow hpanic, by decide +kernel, by decide +kernel⟩

end CibosPlatform.KernelImage.LoadedImage
