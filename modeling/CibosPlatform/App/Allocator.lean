/- source: cibos-app/src/heap.rs
   digest: The application heap: a free list kept inside the memory it hands out. -/

import CibosPlatform.Core.ByteMemory
import CibosPlatform.Core.Program

/-! The free list is in the managed memory itself; whether a loop over it ends depends on what the memory
holds, so the loops take a number of rounds. -/

namespace CibosPlatform.App.Allocator

open Core ByteMemory MachineWord Program Span List Outcome Nat

inductive Unfinished where
  | rounds

def blockHdr : Nat := 16

def word : Nat := 8

def minAlign : Nat := 8

variable (profile : BuildProfile)

def alignUp (v a : Nat) : Option Nat := do
  let sum ← addWord profile v a
  let last ← subWord profile sum 1
  pure (last &&& (wordBound - 1 - (a - 1)))

/-- `core::alloc::Layout`: a power of two, and a size that still fits when rounded up to it. -/
structure Layout where
  size : Nat
  align : Nat
  power : ∃ k, align = 2 ^ k
  fits : size + align ≤ 2 ^ 63

structure Heap where
  memory : Memory
  head : Nat
  initialized : Bool

namespace Heap

def new (memory : Memory) : Heap := ⟨memory, 0, false⟩

variable (h : Heap)

def size (block : Nat) : Nat := readWord h.memory block

def next (block : Nat) : Nat := readWord h.memory (block + 8)

def write (addr value : Nat) : Heap := { h with memory := writeWord h.memory addr value }

def setSize (block value : Nat) : Heap := h.write block value

def setNext (block value : Nat) : Heap := h.write (block + 8) value

/-- What comes after `prev`, or after the head when `prev` is null. -/
def link (prev target : Nat) : Heap :=
  if prev = 0 then { h with head := target } else h.setNext prev target

def init (base size : Nat) : Heap :=
  if h.initialized ∨ size < blockHdr then h
  else { (h.setSize base size).setNext base 0 with head := base, initialized := true }

def place (base align want : Nat) : Option (Nat × Nat) := do
  let afterHdr ← addWord profile base blockHdr
  let minPayload ← addWord profile afterHdr word
  let payload ← alignUp profile minPayload align
  let usedEnd ← addWord profile payload want
  pure (payload, usedEnd)

def carve (prev cur leftover used next : Nat) (h : Heap) : Outcome Unfinished Heap :=
  if blockHdr ≤ leftover then do
    let nb ← orPanic (addWord profile cur used)
    pure ((((h.setSize nb leftover).setNext nb next).link prev nb).setSize cur used)
  else pure (h.link prev next)

def take (prev cur curSize next payload usedEnd : Nat) (h : Heap) :
    Outcome Unfinished (Nat × Heap) := do
  let used ← orPanic (subWord profile usedEnd cur)
  let leftover ← orPanic (subWord profile curSize used)
  let carved ← carve profile prev cur leftover used next h
  let slot ← orPanic (subWord profile payload word)
  pure (payload, carved.write slot cur)

def scan (profile : BuildProfile) (align want : Nat) :
    Nat → Nat → Nat → Heap → Outcome Unfinished (Nat × Heap)
  | 0, _, _, _ => .err .rounds
  | rounds + 1, prev, cur, h =>
    if cur = 0 then pure (0, h)
    else do
      let (payload, usedEnd) ← orPanic (place profile cur align want)
      let stop ← orPanic (addWord profile cur (h.size cur))
      if usedEnd ≤ stop then take profile prev cur (h.size cur) (h.next cur) payload usedEnd h
      else scan profile align want rounds cur (h.next cur) h

def alloc (rounds : Nat) (layout : Layout) (h : Heap) : Outcome Unfinished (Nat × Heap) := do
  let want ← orPanic (alignUp profile (max layout.size 1) minAlign)
  scan profile (max layout.align minAlign) want rounds 0 h.head h

/-- The inner loop of `coalesce`: it starts again from the head after a merge, with the old end of `a`. -/
def absorb (profile : BuildProfile) (a aEnd : Nat) : Nat → Nat → Nat → Heap → Outcome Unfinished Heap
  | 0, _, _, _ => .err .rounds
  | rounds + 1, prev, b, h =>
    if b = 0 then pure h
    else if b ≠ a ∧ b = aEnd then do
      let size ← orPanic (addWord profile (h.size a) (h.size b))
      let grown := h.setSize a size
      let linked := grown.link prev (grown.next b)
      absorb profile a aEnd rounds 0 linked.head linked
    else absorb profile a aEnd rounds b (h.next b) h

def coalesceFrom (profile : BuildProfile) (inner : Nat) : Nat → Nat → Heap → Outcome Unfinished Heap
  | 0, _, _ => .err .rounds
  | rounds + 1, a, h =>
    if a = 0 then pure h
    else do
      let aEnd ← orPanic (addWord profile a (h.size a))
      let merged ← absorb profile a aEnd inner 0 h.head h
      coalesceFrom profile inner rounds (merged.next a) merged

def coalesce (rounds : Nat) (h : Heap) : Outcome Unfinished Heap :=
  coalesceFrom profile rounds rounds h.head h

def dealloc (rounds payload : Nat) (h : Heap) : Outcome Unfinished Heap :=
  if payload = 0 then pure h
  else do
    let slot ← orPanic (subWord profile payload word)
    let base := readWord h.memory slot
    coalesce profile rounds { h.setNext base h.head with head := base }

end Heap

section

variable {profile : BuildProfile} {v k : Nat}

def roundUp (v a : Nat) : Nat := (v + a - 1) / a * a

theorem alignUp_eq (room : v + 2 ^ k < wordBound) :
    alignUp profile v (2 ^ k) = some (roundUp v (2 ^ k)) := by
  have hpos : 0 < 2 ^ k := Nat.two_pow_pos k
  have hlt : 2 ^ k < 2 ^ 64 := lt_of_le_of_lt (le_add_left _ v) room
  have hk : k ≤ 64 := le_of_lt ((Nat.pow_lt_pow_iff_right (by decide)).mp hlt)
  unfold alignUp
  rw [addWord_of_lt profile room]
  show (subWord profile (v + 2 ^ k) 1 >>= _) = _
  rw [subWord_of_le profile (by omega)]
  show some _ = _
  rw [and_not_mask (by omega) hk, roundUp]

theorem roundUp_mod (v a : Nat) : roundUp v a % a = 0 := mul_mod_left _ _

theorem le_roundUp (v : Nat) {a : Nat} (positive : 0 < a) : v ≤ roundUp v a := by
  have hdiv := div_add_mod (v + a - 1) a
  have hmod := mod_lt (v + a - 1) positive
  rw [mul_comm] at hdiv
  unfold roundUp
  omega

theorem roundUp_lt (v : Nat) {a : Nat} (positive : 0 < a) : roundUp v a < v + a := by
  have hle := div_mul_le_self (v + a - 1) a
  unfold roundUp
  omega

end

section

def Chained (m : Memory) : Nat → Nat → List AddrSpan → Prop
  | head, target, [] => head = target
  | head, target, b :: rest =>
    head = b.base ∧ readWord m b.base = b.length ∧ Chained m (readWord m (b.base + 8)) target rest

variable {m m' : Memory} {head target : Nat} {blocks pre post : List AddrSpan}

theorem chained_append : Chained m head target (pre ++ post) ↔
    ∃ middle, Chained m head middle pre ∧ Chained m middle target post := by
  induction pre generalizing head with
  | nil =>
    constructor
    · intro chained
      exact ⟨head, rfl, chained⟩
    · rintro ⟨middle, rfl, chained⟩
      exact chained
  | cons b pre ih =>
    constructor
    · rintro ⟨hhead, hsize, hrest⟩
      obtain ⟨middle, hfirst, hsecond⟩ := ih.mp hrest
      exact ⟨middle, ⟨hhead, hsize, hfirst⟩, hsecond⟩
    · rintro ⟨middle, ⟨hhead, hsize, hfirst⟩, hsecond⟩
      exact ⟨hhead, hsize, ih.mpr ⟨middle, hfirst, hsecond⟩⟩

theorem Chained.frame (chained : Chained m head target blocks) (large : ∀ b ∈ blocks, 16 ≤ b.length)
    (same : ∀ b ∈ blocks, Unchanged b m m') : Chained m' head target blocks := by
  induction blocks generalizing head with
  | nil => exact chained
  | cons b rest ih =>
    obtain ⟨hhead, hsize, hrest⟩ := chained
    have hlarge := large b mem_cons_self
    have hsame := same b mem_cons_self
    have hsize' : readWord m' b.base = readWord m b.base := hsame.word le_rfl (by omega)
    have hnext' : readWord m' (b.base + 8) = readWord m (b.base + 8) :=
      hsame.word (by omega) (by omega)
    refine ⟨hhead, hsize'.trans hsize, ?_⟩
    rw [hnext']
    exact ih hrest (fun c hc => large c (mem_cons_of_mem b hc))
      fun c hc => same c (mem_cons_of_mem b hc)

def lastBase (prev : Nat) (blocks : List AddrSpan) : Nat := blocks.foldl (fun _ b => b.base) prev

theorem lastBase_append (prev : Nat) (b : AddrSpan) : lastBase prev (pre ++ [b]) = b.base := by
  rw [lastBase, foldl_append]
  rfl

variable {h : Heap} {new : Nat}

theorem link_unchanged {c : AddrSpan} (apart : ∀ p ∈ pre, c.Apart p) (large : ∀ p ∈ pre, 16 ≤ p.length) :
    Unchanged c h.memory (h.link (lastBase 0 pre) new).memory := by
  unfold Heap.link
  split
  · exact .refl c h.memory
  · rcases eq_nil_or_concat pre with rfl | ⟨pre', p, rfl⟩
    · exact absurd rfl ‹¬ lastBase 0 [] = 0›
    · rw [concat_eq_append] at *
      have hp : p ∈ pre' ++ [p] := mem_append_right _ mem_cons_self
      have hlarge := large p hp
      rw [lastBase_append]
      exact .write (apart p hp) (by omega) (by omega)

theorem link_chained (chained : Chained h.memory h.head target pre) (apart : pre.Pairwise AddrSpan.Apart)
    (large : ∀ p ∈ pre, 16 ≤ p.length) (nonnull : ∀ p ∈ pre, 0 < p.base) (fits : new < wordBound) :
    Chained (h.link (lastBase 0 pre) new).memory (h.link (lastBase 0 pre) new).head new pre := by
  rcases eq_nil_or_concat pre with rfl | ⟨pre', p, rfl⟩
  · exact rfl
  · rw [concat_eq_append] at *
    have hp : p ∈ pre' ++ [p] := mem_append_right _ mem_cons_self
    have hlarge := large p hp
    have hnonnull := nonnull p hp
    have hlink : h.link (lastBase 0 (pre' ++ [p])) new = h.setNext p.base new := by
      rw [lastBase_append, Heap.link, if_neg (by omega)]
    obtain ⟨middle, hfirst, hmiddle, hsize, -⟩ := chained_append.mp chained
    rw [hlink]
    refine chained_append.mpr ⟨middle, ?_, hmiddle, ?_, ?_⟩
    · apply hfirst.frame fun b hb => large b (mem_append_left _ hb)
      intro b hb
      have hb_p : b.Apart p := (pairwise_append.mp apart).2.2 b hb p mem_cons_self
      exact .write hb_p (by omega) (by omega)
    · rw [← hsize]
      exact readWord_writeWord_of_apart (by omega)
    · exact readWord_writeWord fits

end

/-- The free list and the blocks in use tile the region. -/
structure Tiled (region : AddrSpan) (h : Heap) (free used : List AddrSpan) : Prop where
  chained : Chained h.memory h.head 0 free
  tiles : Tiles region (free ++ used)
  large : ∀ b ∈ free ++ used, 16 ≤ b.length
  aligned : ∀ b ∈ free ++ used, b.base % 8 = 0

section

variable {region : AddrSpan} {h : Heap} {free used pre post : List AddrSpan} {b : AddrSpan}

theorem Tiled.inside (tiled : Tiled region h free used) (hb : b ∈ free ++ used) :
    region.base ≤ b.base ∧ 16 ≤ b.length ∧ b.base + b.length ≤ region.base + region.length :=
  ⟨(tiled.tiles.inside b hb).1, tiled.large b hb, (tiled.tiles.inside b hb).2⟩

theorem mem_middle : b ∈ (pre ++ b :: post) ++ used := mem_append_left _ mem_append_cons_self

theorem middle_perm : ((pre ++ b :: post) ++ used).Perm ([b] ++ (pre ++ (post ++ used))) := by
  rw [append_assoc]
  exact perm_middle

variable {h' : Heap}

section

variable {free' used' : List AddrSpan} (tiled : Tiled region h free used)
  (chained : Chained h'.memory h'.head 0 free')

include tiled chained

theorem Tiled.replace {old new rest : List AddrSpan} (before : (free ++ used).Perm (old ++ rest))
    (tiles : Tiles region (old ++ rest) → Tiles region (new ++ rest)) (after : (new ++ rest).Perm (free' ++ used'))
    (sound : ∀ c ∈ new, 16 ≤ c.length ∧ c.base % 8 = 0) : Tiled region h' free' used' := by
  have hparts : ∀ c ∈ free' ++ used', 16 ≤ c.length ∧ c.base % 8 = 0 := by
    intro c hc
    rcases mem_append.mp (after.mem_iff.mpr hc) with hnew | hrest
    · exact sound c hnew
    · have hold := before.mem_iff.mpr (mem_append_right old hrest)
      exact ⟨tiled.large c hold, tiled.aligned c hold⟩
  exact ⟨chained, (tiles (tiled.tiles.perm before)).perm after, fun c hc => (hparts c hc).1,
    fun c hc => (hparts c hc).2⟩

theorem Tiled.reorder (same : (free ++ used).Perm ([] ++ (free' ++ used'))) :
    Tiled region h' free' used' :=
  tiled.replace chained same id .rfl fun _ hc => absurd hc not_mem_nil

end

variable (tiled : Tiled region h (pre ++ b :: post) used)

include tiled

theorem Tiled.around : Tiles region (b :: (pre ++ (post ++ used))) := tiled.tiles.perm middle_perm

variable {m : Memory} {new : Nat}

theorem Tiled.relink (start : 0 < region.base) (before : ∀ c, c.Apart b → Unchanged c h.memory h'.memory)
    (head : h'.head = h.head) (fits : new < wordBound)
    (after : ∀ c, c.Apart b → Unchanged c (h'.link (lastBase 0 pre) new).memory m) :
    Chained m (h'.link (lastBase 0 pre) new).head new pre ∧ Chained m (h.next b.base) 0 post ∧
      ∀ c ∈ used, Unchanged c h.memory m := by
  obtain ⟨hb, hothers⟩ := pairwise_cons.mp tiled.around.apart
  obtain ⟨hpre, -, hacross⟩ := pairwise_append.mp hothers
  have hlarge : ∀ p ∈ pre, 16 ≤ p.length := fun p hp =>
    tiled.large p (mem_append_left _ (mem_append_left _ hp))
  have hnonnull : ∀ p ∈ pre, 0 < p.base := fun p hp =>
    lt_of_lt_of_le start (tiled.inside (mem_append_left _ (mem_append_left _ hp))).1
  have hapart : ∀ c ∈ pre ++ (post ++ used), c.Apart b := fun c hc => symm (hb c hc)
  have hrest : ∀ c ∈ post ++ used, Unchanged c h.memory m := by
    intro c hc
    have hc_b := hapart c (mem_append_right pre hc)
    have hlink : Unchanged c h'.memory (h'.link (lastBase 0 pre) new).memory :=
      link_unchanged (fun p hp => symm (hacross p hp c hc)) hlarge
    exact ((before c hc_b).trans hlink).trans (after c hc_b)
  obtain ⟨middle, hfirst, hmiddle, -, hsecond⟩ := chained_append.mp tiled.chained
  refine ⟨?_, ?_, fun c hc => hrest c (mem_append_right post hc)⟩
  · have hkept : Chained h'.memory h'.head middle pre := by
      rw [head]
      exact hfirst.frame hlarge fun p hp => before p (hapart p (mem_append_left _ hp))
    exact (link_chained hkept hpre hlarge hnonnull fits).frame hlarge
      fun p hp => after p (hapart p (mem_append_left _ hp))
  · exact hsecond.frame (fun c hc => tiled.large c (mem_append_left _ (mem_append_right _
        (mem_cons_of_mem b hc))))
      fun c hc => hrest c (mem_append_left _ hc)

theorem Tiled.link_within {c : AddrSpan} (low : b.base ≤ c.base) (high : c.base + c.length ≤ b.base + b.length) :
    Unchanged c h'.memory (h'.link (lastBase 0 pre) new).memory := by
  obtain ⟨hb, -⟩ := pairwise_cons.mp tiled.around.apart
  apply link_unchanged
  · intro p hp
    have hapart := hb p (mem_append_left _ hp)
    simp only [AddrSpan.Apart, AddrSpan.stop] at *
    omega
  · exact fun p hp => tiled.large p (mem_append_left _ (mem_append_left _ hp))

end

variable {cur target : Nat} (layout : Layout)

section

variable {region : AddrSpan} {h : Heap} {free used : List AddrSpan} {profile : BuildProfile}
  {align want k : Nat}

def usedEnd (b : AddrSpan) (align want : Nat) : Nat := roundUp (b.base + 24) align + want

theorem place_eq (profile : BuildProfile) {b : AddrSpan} (power : align = 2 ^ k) (room : b.base + 24 + align + want ≤ wordBound)
    (positive : 0 < want) :
    Heap.place profile b.base align want = some (roundUp (b.base + 24) align, usedEnd b align want) := by
  have hroom : b.base + 24 + align + want ≤ 2 ^ 64 := room
  have hup : roundUp (b.base + 24) align < b.base + 24 + align :=
    roundUp_lt _ (by rw [power]; exact Nat.two_pow_pos k)
  have hafter : addWord profile b.base blockHdr = some (b.base + 16) :=
    addWord_of_lt profile (show b.base + 16 < 2 ^ 64 by omega)
  have hmin : addWord profile (b.base + 16) word = some (b.base + 24) :=
    addWord_of_lt profile (show b.base + 16 + 8 < 2 ^ 64 by omega)
  have hpayload : alignUp profile (b.base + 24) align = some (roundUp (b.base + 24) align) := by
    rw [power]
    exact alignUp_eq (by rw [← power]; show b.base + 24 + align < 2 ^ 64; omega)
  have hend : addWord profile (roundUp (b.base + 24) align) want = some (usedEnd b align want) :=
    addWord_of_lt profile (show roundUp (b.base + 24) align + want < 2 ^ 64 by omega)
  simp only [Heap.place, hafter, hmin, hpayload, hend, Option.bind_eq_bind, Option.bind_some,
    Option.pure_def]

def Scannable (align want : Nat) (b : AddrSpan) : Prop :=
  0 < b.base ∧ b.base + 24 + align + want ≤ wordBound ∧ b.stop < wordBound

section

variable (profile : BuildProfile) (power : align = 2 ^ k) (positive : 0 < want) {rounds prev : Nat}

include power positive

theorem scan_block {b : AddrSpan} (scannable : Scannable align want b) (size : readWord h.memory b.base = b.length) :
    Heap.scan profile align want (rounds + 1) prev b.base h = if usedEnd b align want ≤ b.stop then
        Heap.take profile prev b.base b.length (h.next b.base) (roundUp (b.base + 24) align)
          (usedEnd b align want) h
      else Heap.scan profile align want rounds b.base (h.next b.base) h := by
  obtain ⟨hnonnull, hroom, hbound⟩ := scannable
  have hstop : addWord profile b.base b.length = some b.stop := addWord_of_lt profile hbound
  rw [Heap.scan, if_neg (ne_of_gt hnonnull), place_eq profile power hroom positive, Heap.size, size, hstop]
  rfl

theorem scan_skip {pre : List AddrSpan} (scannable : ∀ b ∈ pre, Scannable align want b)
    (short : ∀ b ∈ pre, ¬ usedEnd b align want ≤ b.stop)
    (chained : Chained h.memory cur target pre) :
    Heap.scan profile align want (rounds + pre.length) prev cur h =
      Heap.scan profile align want rounds (lastBase prev pre) target h := by
  induction pre generalizing prev cur with
  | nil =>
    have hcur : cur = target := chained
    rw [hcur]
    rfl
  | cons b pre ih =>
    obtain ⟨rfl, hsize, hrest⟩ := chained
    obtain ⟨hscannable, hscannables⟩ := forall_mem_cons.mp scannable
    obtain ⟨hshort, hshorts⟩ := forall_mem_cons.mp short
    rw [length_cons, ← add_assoc, scan_block profile power positive hscannable hsize, if_neg hshort]
    exact ih hscannables hshorts hrest

end

def Layout.NoWrap (layout : Layout) (region : AddrSpan) : Prop :=
  region.stop + layout.align + layout.size + 24 ≤ wordBound

theorem Layout.align_max :
    ∃ k, max layout.align minAlign = 2 ^ k ∧ 2 ^ k % 8 = 0 ∧ layout.align ∣ 2 ^ k := by
  obtain ⟨k, hk⟩ := layout.power
  by_cases hsmall : k ≤ 3
  · refine ⟨3, ?_, by decide, hk ▸ pow_dvd_pow 2 hsmall⟩
    rw [hk]
    exact max_eq_right (Nat.pow_le_pow_right (by decide) hsmall)
  · have hlarge : 2 ^ 3 ∣ 2 ^ k := pow_dvd_pow 2 (by omega)
    refine ⟨k, ?_, mod_eq_zero_of_dvd hlarge, hk ▸ dvd_rfl⟩
    rw [hk]
    exact max_eq_left (le_of_dvd (Nat.two_pow_pos k) hlarge)

theorem Layout.wanted (profile : BuildProfile) :
    ∃ want, alignUp profile (max layout.size 1) minAlign = some want ∧ max layout.size 1 ≤ want ∧
      want < max layout.size 1 + 8 ∧ want % 8 = 0 := by
  have hfits := layout.fits
  exact ⟨_, alignUp_eq (show max layout.size 1 + 2 ^ 3 < 2 ^ 64 by omega), le_roundUp _ (by decide),
    roundUp_lt _ (by decide), roundUp_mod _ _⟩

structure Granted (region : AddrSpan) (h h' : Heap) (used : List AddrSpan) (payload want : Nat)
    (block : AddrSpan) : Prop where
  tiled : ∃ free, Tiled region h' free (block :: used)
  same : ∀ c ∈ used, Unchanged c h.memory h'.memory
  low : block.base + 24 ≤ payload
  high : payload + want ≤ block.stop
  stash : readWord h'.memory (payload - 8) = block.base
  size : readWord h'.memory block.base = block.length

variable {pre post : List AddrSpan} {b : AddrSpan} {payload : Nat}

variable (start : 0 < region.base) (bound : region.base + region.length < 2 ^ 64)
  (tiled : Tiled region h (pre ++ b :: post) used)

include start bound tiled

theorem granted_whole (low : b.base + 24 ≤ payload) (high : payload + want ≤ b.base + b.length) :
    Granted region h ((h.link (lastBase 0 pre) (h.next b.base)).write (payload - 8) b.base) used payload
      want b := by
  have hinside := tiled.inside mem_middle
  let linked := h.link (lastBase 0 pre) (h.next b.base)
  have hafter : ∀ c, c.Apart b → Unchanged c linked.memory (writeWord linked.memory (payload - 8) b.base) :=
    fun c hc => .write hc (by omega) (by omega)
  obtain ⟨hpre, hpost, hused⟩ := tiled.relink start (fun c _ => .refl c h.memory) rfl
    (readWord_lt h.memory (b.base + 8)) hafter
  have hperm : ((pre ++ b :: post) ++ used).Perm ((pre ++ post) ++ b :: used) :=
    (perm_middle.append_right used).trans perm_middle.symm
  refine ⟨⟨pre ++ post, tiled.reorder (chained_append.mpr ⟨_, hpre, hpost⟩) hperm⟩, hused, low, high, ?_, ?_⟩
  · exact readWord_writeWord (show b.base < 2 ^ 64 by omega)
  · obtain ⟨middle, -, -, hsize, -⟩ := chained_append.mp tiled.chained
    have hheader : Unchanged ⟨b.base, 16⟩ h.memory linked.memory :=
      tiled.link_within le_rfl (by dsimp only; omega)
    rw [← hsize]
    calc readWord (writeWord linked.memory (payload - 8) b.base) b.base
        = readWord linked.memory b.base := readWord_writeWord_of_apart (by omega)
      _ = readWord h.memory b.base := hheader.word le_rfl (by dsimp only; omega)

def cutHeap (h : Heap) (prev base n leftover : Nat) : Heap :=
  (((h.setSize (base + n) leftover).setNext (base + n) (h.next base)).link prev (base + n)).setSize base n

theorem granted_split {n : Nat} (whole : n % 8 = 0) (tail : n + 16 ≤ b.length) (low : b.base + 24 ≤ payload)
    (high : payload + want = b.base + n) :
    Granted region h ((cutHeap h (lastBase 0 pre) b.base n (b.length - n)).write (payload - 8) b.base)
      used payload want ⟨b.base, n⟩ := by
  have hinside := tiled.inside mem_middle
  have haligned := tiled.aligned b mem_middle
  -- the header of the tail is written first, then the list is linked, then the front is marked
  let first := (h.setSize (b.base + n) (b.length - n)).setNext (b.base + n) (h.next b.base)
  let linked := first.link (lastBase 0 pre) (b.base + n)
  let last := writeWord (writeWord linked.memory b.base n) (payload - 8) b.base
  have hbefore : ∀ c, c.Apart b → Unchanged c h.memory first.memory := by
    intro c hc
    have hsize : Unchanged c h.memory (h.setSize (b.base + n) (b.length - n)).memory :=
      .write hc (by omega) (by omega)
    exact hsize.trans (.write hc (by omega) (by omega))
  have hafter : ∀ c : AddrSpan, c.Apart ⟨b.base, n⟩ → Unchanged c linked.memory last := by
    intro c hc
    have hsize : Unchanged c linked.memory (writeWord linked.memory b.base n) :=
      .write hc le_rfl (by dsimp only; omega)
    exact hsize.trans (.write hc (by dsimp only; omega) (by dsimp only; omega))
  have hfront : ∀ c : AddrSpan, c.Apart b → c.Apart ⟨b.base, n⟩ := by
    intro c hc
    simp only [AddrSpan.Apart, AddrSpan.stop] at *
    omega
  obtain ⟨hpre, hpost, hused⟩ := tiled.relink start hbefore rfl
    (show b.base + n < 2 ^ 64 by omega) fun c hc => hafter c (hfront c hc)
  have htail : Unchanged ⟨b.base + n, b.length - n⟩ first.memory last := by
    have hlink : Unchanged ⟨b.base + n, b.length - n⟩ first.memory linked.memory :=
      tiled.link_within (by dsimp only; omega) (by dsimp only; omega)
    exact hlink.trans (hafter _ (.inr (.inr (.inr le_rfl))))
  have hsize : readWord last (b.base + n) = b.length - n := by
    rw [htail.word le_rfl (by dsimp only; omega)]
    have hapart : readWord first.memory (b.base + n) =
        readWord (h.setSize (b.base + n) (b.length - n)).memory (b.base + n) :=
      readWord_writeWord_of_apart (by omega)
    exact hapart.trans (readWord_writeWord (show b.length - n < 2 ^ 64 by omega))
  have hnext : readWord last (b.base + n + 8) = h.next b.base := by
    rw [htail.word (by dsimp only; omega) (by dsimp only; omega)]
    exact readWord_writeWord (readWord_lt h.memory (b.base + 8))
  have hperm : ([AddrSpan.mk b.base n, ⟨b.base + n, b.length - n⟩] ++ (pre ++ (post ++ used))).Perm
      ((pre ++ ⟨b.base + n, b.length - n⟩ :: post) ++ ⟨b.base, n⟩ :: used) := by
    apply perm_iff_count.mpr
    intro c
    simp only [count_cons, count_append, count_nil]
    omega
  refine ⟨⟨pre ++ ⟨b.base + n, b.length - n⟩ :: post, tiled.replace ?_ middle_perm
    (fun tiles => tiles.split (by omega)) hperm ?_⟩, hused, low, high.le, ?_, ?_⟩
  · refine chained_append.mpr ⟨_, hpre, rfl, hsize, ?_⟩
    rw [← hnext] at hpost
    exact hpost
  · refine forall_mem_cons.mpr ⟨⟨?_, haligned⟩, forall_mem_singleton.mpr ⟨?_, ?_⟩⟩ <;> dsimp only <;> omega
  · exact readWord_writeWord (show b.base < 2 ^ 64 by omega)
  · have hapart : readWord last b.base = readWord (writeWord linked.memory b.base n) b.base :=
      readWord_writeWord_of_apart (by omega)
    exact hapart.trans (readWord_writeWord (show n < 2 ^ 64 by omega))

variable (profile)

theorem take_spec (whole : (usedEnd b align want - b.base) % 8 = 0) (positive : 0 < align)
    (fits : usedEnd b align want ≤ b.stop) :
    ∃ h' block, Heap.take profile (lastBase 0 pre) b.base b.length (h.next b.base)
        (roundUp (b.base + 24) align) (usedEnd b align want) h = .ok (roundUp (b.base + 24) align, h') ∧
      Granted region h h' used (roundUp (b.base + 24) align) want block := by
  have hinside := tiled.inside mem_middle
  have hlow : b.base + 24 ≤ roundUp (b.base + 24) align := le_roundUp _ positive
  have hend : usedEnd b align want = roundUp (b.base + 24) align + want := rfl
  simp only [AddrSpan.stop] at fits
  obtain ⟨n, hn⟩ : ∃ n, usedEnd b align want = b.base + n := ⟨usedEnd b align want - b.base, by omega⟩
  have hused : subWord profile (usedEnd b align want) b.base = some n := by
    rw [subWord_of_le profile (by omega)]
    congr 1
    omega
  have hleft : subWord profile b.length n = some (b.length - n) := subWord_of_le profile (by omega)
  have hslot : subWord profile (roundUp (b.base + 24) align) word =
      some (roundUp (b.base + 24) align - 8) := subWord_of_le profile (by unfold word; omega)
  by_cases htail : n + 16 ≤ b.length
  · have hnb : addWord profile b.base n = some (b.base + n) :=
      addWord_of_lt profile (show b.base + n < 2 ^ 64 by omega)
    have hcarve : Heap.carve profile (lastBase 0 pre) b.base (b.length - n) n (h.next b.base) h =
        .ok (cutHeap h (lastBase 0 pre) b.base n (b.length - n)) := by
      rw [Heap.carve, if_pos (by unfold blockHdr; omega), hnb]
      rfl
    refine ⟨_, ⟨b.base, n⟩, ?_, granted_split start bound tiled (by omega) htail hlow (by omega)⟩
    simp only [Heap.take, hused, hleft, hslot, hcarve, orPanic, ok_bind, pure_eq_ok]
  · have hcarve : Heap.carve profile (lastBase 0 pre) b.base (b.length - n) n (h.next b.base) h =
        .ok (h.link (lastBase 0 pre) (h.next b.base)) := by
      rw [Heap.carve, if_neg (by unfold blockHdr; omega)]
      rfl
    refine ⟨_, b, ?_, granted_whole start bound tiled hlow (by omega)⟩
    simp only [Heap.take, hused, hleft, hslot, hcarve, orPanic, ok_bind, pure_eq_ok]

omit tiled

theorem alloc_spec (tiled : Tiled region h free used) {layout : Layout} (noWrap : layout.NoWrap region) :
    (∀ rounds, free.length < rounds → Heap.alloc profile rounds layout h = .ok (0, h)) ∨
      ∃ payload h' block,
        (∀ rounds, free.length < rounds → Heap.alloc profile rounds layout h = .ok (payload, h')) ∧
        payload % layout.align = 0 ∧ Granted region h h' used payload layout.size block := by
  obtain ⟨k, hk, hk8, hdvd⟩ := layout.align_max
  obtain ⟨want, hwant, hlow, hhigh, hmod⟩ := layout.wanted profile
  have hfree : ∀ b ∈ free, b ∈ free ++ used := fun b hb => mem_append_left used hb
  have halloc : ∀ rounds, Heap.alloc profile rounds layout h =
      Heap.scan profile (2 ^ k) want rounds 0 h.head h := by
    intro rounds
    rw [Heap.alloc, hwant, ← hk]
    rfl
  have hroom : ∀ b ∈ free, b.base + 24 + 2 ^ k + want ≤ wordBound := by
    intro b hb
    have hinside := tiled.inside (hfree b hb)
    have hwrap : region.base + region.length + layout.align + layout.size + 24 ≤ 2 ^ 64 := noWrap
    have halign : 2 ^ k ≤ layout.align + 7 := by
      have hpos : 0 < layout.align := by
        obtain ⟨j, hj⟩ := layout.power
        rw [hj]
        exact Nat.two_pow_pos j
      rw [← hk]
      unfold minAlign
      omega
    show b.base + 24 + 2 ^ k + want ≤ 2 ^ 64
    omega
  have hpositive : 0 < want := by omega
  have hscannable : ∀ b ∈ free, Scannable (2 ^ k) want b := fun b hb =>
    ⟨lt_of_lt_of_le start (tiled.inside (hfree b hb)).1, hroom b hb,
      lt_of_le_of_lt (tiled.inside (hfree b hb)).2.2 bound⟩
  rcases hfound : free.find? fun b => usedEnd b (2 ^ k) want ≤ b.stop with _ | b
  · left
    intro rounds enough
    have hshort : ∀ b ∈ free, ¬ usedEnd b (2 ^ k) want ≤ b.stop := by simpa using hfound
    obtain ⟨n, rfl⟩ : ∃ n, rounds = n + 1 + free.length := ⟨rounds - free.length - 1, by omega⟩
    rw [halloc, scan_skip profile rfl hpositive hscannable hshort tiled.chained, Heap.scan, if_pos rfl]
    rfl
  · right
    obtain ⟨hends, pre, post, rfl, hpre⟩ := find?_eq_some_iff_append.mp hfound
    rw [decide_eq_true_eq] at hends
    have hshort : ∀ c ∈ pre, ¬ usedEnd c (2 ^ k) want ≤ c.stop := by simpa using hpre
    obtain ⟨middle, hfirst, rfl, hsize, -⟩ := chained_append.mp tiled.chained
    have hmem : b ∈ pre ++ b :: post := mem_append_cons_self
    have haligned := tiled.aligned b (hfree b hmem)
    have hpayload := roundUp_mod (b.base + 24) (2 ^ k)
    have hpayload8 :=
      mod_eq_zero_of_dvd ((dvd_of_mod_eq_zero hk8).trans (dvd_of_mod_eq_zero hpayload))
    have hwhole : (usedEnd b (2 ^ k) want - b.base) % 8 = 0 := by
      unfold usedEnd
      omega
    obtain ⟨h', block, hresult, hgranted⟩ := take_spec profile start bound tiled hwhole
      (Nat.two_pow_pos k) hends
    refine ⟨roundUp (b.base + 24) (2 ^ k), h', block, fun rounds enough => ?_, ?_, ?_⟩
    · rw [length_append, length_cons] at enough
      obtain ⟨n, rfl⟩ : ∃ n, rounds = n + 1 + pre.length := ⟨rounds - pre.length - 1, by omega⟩
      rw [halloc, scan_skip profile rfl hpositive (fun c hc => hscannable c (mem_append_left _ hc)) hshort hfirst,
        scan_block profile rfl hpositive (hscannable b hmem) hsize, if_pos hends, hresult]
    · exact mod_eq_zero_of_dvd (hdvd.trans (dvd_of_mod_eq_zero hpayload))
    · refine ⟨hgranted.tiled, hgranted.same, hgranted.low, ?_, hgranted.stash, hgranted.size⟩
      exact le_trans (by omega) hgranted.high

end

variable {base : Nat} {blocks : List AddrSpan}

section

variable {region : AddrSpan} {h : Heap} {free used pre post left right : List AddrSpan} {a b : AddrSpan}
  {profile : BuildProfile}

def resize (base length : Nat) (c : AddrSpan) : AddrSpan := if c.base = base then ⟨base, length⟩ else c

theorem Chained.resize {m : Memory} {head length : Nat} (chained : Chained m head target blocks)
    (apart : ∀ c ∈ blocks, c.base = base ∨ c.base + 16 ≤ base ∨ base + 16 ≤ c.base)
    (fits : length < wordBound) :
    Chained (writeWord m base length) head target (blocks.map (resize base length)) := by
  induction blocks generalizing head with
  | nil => exact chained
  | cons c rest ih =>
    obtain ⟨hhead, hsize, hrest⟩ := chained
    have hcases := apart c mem_cons_self
    have hnext : readWord (writeWord m base length) (c.base + 8) = readWord m (c.base + 8) :=
      readWord_writeWord_of_apart (by omega)
    have htail := ih hrest fun d hd => apart d (mem_cons_of_mem c hd)
    rw [map_cons]
    by_cases hc : c.base = base
    · rw [Allocator.resize, if_pos hc]
      refine ⟨hhead.trans hc, readWord_writeWord fits, ?_⟩
      rw [← hc] at hnext htail ⊢
      rw [hnext]
      exact htail
    · rw [Allocator.resize, if_neg hc]
      refine ⟨hhead, ?_, ?_⟩
      · rw [← hsize]
        exact readWord_writeWord_of_apart (by omega)
      · rw [hnext]
        exact htail

theorem map_resize {length : Nat} (others : ∀ c ∈ blocks, c.base ≠ base) :
    blocks.map (resize base length) = blocks := by
  have hsame : ∀ c ∈ blocks, resize base length c = id c := fun c hc => if_neg (others c hc)
  rw [map_congr_left hsame, map_id]

theorem setSize_link_comm {value new : Nat}
    (apart : ∀ p ∈ pre, p.base = base ∨ p.base + 16 ≤ base ∨ base + 16 ≤ p.base) :
    (h.setSize base value).link (lastBase 0 pre) new = (h.link (lastBase 0 pre) new).setSize base value := by
  unfold Heap.link
  split
  · rfl
  · rcases eq_nil_or_concat pre with rfl | ⟨pre', p, rfl⟩
    · exact absurd rfl ‹¬ lastBase 0 [] = 0›
    · rw [concat_eq_append] at *
      have hcases := apart p (mem_append_right _ mem_cons_self)
      rw [lastBase_append]
      unfold Heap.setNext Heap.setSize Heap.write
      rw [writeWord_comm (by omega)]

theorem absorb_skip {x stop rounds prev : Nat} (nonnull : ∀ c ∈ pre, 0 < c.base)
    (others : ∀ c ∈ pre, c.base ≠ stop) (chained : Chained h.memory cur target pre) :
    Heap.absorb profile x stop (rounds + pre.length) prev cur h =
      Heap.absorb profile x stop rounds (lastBase prev pre) target h := by
  induction pre generalizing prev cur with
  | nil =>
    have hcur : cur = target := chained
    rw [hcur]
    rfl
  | cons c pre ih =>
    obtain ⟨hcur, -, hrest⟩ := chained
    have hnonnull := nonnull c mem_cons_self
    have hother := others c mem_cons_self
    rw [length_cons, ← add_assoc, Heap.absorb, hcur, if_neg (by omega),
      if_neg fun hstop => hother hstop.2]
    exact ih (fun d hd => nonnull d (mem_cons_of_mem c hd))
      (fun d hd => others d (mem_cons_of_mem c hd)) hrest

theorem absorb_none {x stop rounds : Nat} (nonnull : ∀ c ∈ free, 0 < c.base)
    (others : ∀ c ∈ free, c.base ≠ stop) (chained : Chained h.memory h.head 0 free)
    (enough : free.length < rounds) : Heap.absorb profile x stop rounds 0 h.head h = .ok h := by
  obtain ⟨n, rfl⟩ : ∃ n, rounds = n + 1 + free.length := ⟨rounds - free.length - 1, by omega⟩
  rw [absorb_skip nonnull others chained, Heap.absorb, if_pos rfl]
  rfl

theorem Chained.size_eq {m : Memory} {head : Nat}
    (chained : Chained m head target blocks) (hb : b ∈ blocks) : readWord m b.base = b.length := by
  obtain ⟨pre, post, rfl⟩ := append_of_mem hb
  obtain ⟨middle, -, -, hsize, -⟩ := chained_append.mp chained
  exact hsize

theorem Tiled.nonnull (tiled : Tiled region h free used) (start : 0 < region.base) :
    ∀ c ∈ free, 0 < c.base :=
  fun _ hc => lt_of_lt_of_le start (tiled.inside (mem_append_left used hc)).1

theorem Tiled.starts_outside (tiled : Tiled region h (left ++ a :: right) used) {addr : Nat}
    (low : a.base < addr) (high : addr < a.stop) : ∀ c ∈ left ++ a :: right, c.base ≠ addr := by
  intro c hc hbase
  have hlarge := tiled.large c (mem_append_left used hc)
  rcases eq_or_ne c a with rfl | hother
  · omega
  · have hapart : c.Apart a := tiled.tiles.apart.forall (mem_append_left used hc) mem_middle hother
    simp only [AddrSpan.Apart, AddrSpan.stop] at *
    omega

theorem exists_split (hb : b ∈ left ++ a :: right) (other : b ≠ a) : ∃ pre post left' right',
    left ++ a :: right = pre ++ b :: post ∧ pre ++ post = left' ++ a :: right' ∧
      right'.length ≤ right.length ∧ left'.length + right'.length + 1 = left.length + right.length := by
  rcases mem_append.mp hb with hleft | hright
  · obtain ⟨pre, post, rfl⟩ := append_of_mem hleft
    refine ⟨pre, post ++ a :: right, pre ++ post, right, ?_, (append_assoc ..).symm, le_rfl, ?_⟩
    · rw [append_assoc, cons_append]
    · simp only [length_append, length_cons]
      omega
  · obtain ⟨pre, post, rfl⟩ := append_of_mem (mem_of_ne_of_mem other hright)
    refine ⟨left ++ a :: pre, post, left, pre ++ post, ?_, ?_, ?_, ?_⟩
    · rw [append_assoc, cons_append]
    · rw [append_assoc, cons_append]
    · simp only [length_append, length_cons]
      omega
    · simp only [length_append, length_cons]
      omega

variable (profile) (start : 0 < region.base) (bound : region.base + region.length < 2 ^ 64)

include start bound

section

variable (tiled : Tiled region h (pre ++ b :: post) used) (parts : pre ++ post = left ++ a :: right)
  (meets : b.base = a.stop)

include tiled parts meets

theorem merge_spec : (h.setSize a.base (a.length + b.length)).next b.base = h.next b.base ∧
      Tiled region ((h.setSize a.base (a.length + b.length)).link (lastBase 0 pre) (h.next b.base))
        (left ++ ⟨a.base, a.length + b.length⟩ :: right) used ∧
      ∀ c ∈ used, Unchanged c h.memory
        ((h.setSize a.base (a.length + b.length)).link (lastBase 0 pre) (h.next b.base)).memory := by
  have hperm : ((pre ++ b :: post) ++ used).Perm ([a, b] ++ ((left ++ right) ++ used)) := by
    refine middle_perm.trans ?_
    rw [← append_assoc pre, parts]
    apply perm_iff_count.mpr
    intro c
    simp only [count_cons, count_append, count_nil]
    omega
  obtain ⟨ha, -⟩ := pairwise_cons.mp (tiled.tiles.perm hperm).apart
  have hinside := tiled.inside (hperm.mem_iff.mpr mem_cons_self)
  have hinside' := tiled.inside (hperm.mem_iff.mpr (mem_cons_of_mem a mem_cons_self))
  simp only [AddrSpan.stop] at meets
  -- headers of other blocks are apart from the header of `a`
  have hheaders : ∀ c ∈ (left ++ right) ++ used, c.base ≠ a.base ∧
      (c.base + 16 ≤ a.base ∨ a.base + 16 ≤ c.base) := by
    intro c hc
    have hapart := ha c (mem_cons_of_mem b hc)
    have hlarge := tiled.large c (hperm.mem_iff.mpr (mem_append_right _ hc))
    simp only [AddrSpan.Apart, AddrSpan.stop] at hapart
    omega
  have hcases : ∀ c ∈ pre ++ post, c.base = a.base ∨ c.base + 16 ≤ a.base ∨ a.base + 16 ≤ c.base := by
    intro c hc
    rw [parts] at hc
    simp only [mem_append, mem_cons] at hc
    rcases hc with hc | rfl | hc
    · exact .inr (hheaders c (by simp only [mem_append]; tauto)).2
    · exact .inl rfl
    · exact .inr (hheaders c (by simp only [mem_append]; tauto)).2
  have hnext : (h.setSize a.base (a.length + b.length)).next b.base = h.next b.base :=
    readWord_writeWord_of_apart (by omega)
  have hcomm : (h.setSize a.base (a.length + b.length)).link (lastBase 0 pre) (h.next b.base) =
      (h.link (lastBase 0 pre) (h.next b.base)).setSize a.base (a.length + b.length) :=
    setSize_link_comm fun p hp => hcases p (mem_append_left post hp)
  obtain ⟨hpre, hpost, hused⟩ := tiled.relink start (fun c _ => .refl c h.memory) rfl
    (readWord_lt h.memory (b.base + 8)) fun c _ => .refl c _
  refine ⟨hnext, ?_, ?_⟩
  · rw [hcomm]
    have hchained := (chained_append.mpr ⟨_, hpre, hpost⟩).resize hcases
      (show a.length + b.length < 2 ^ 64 by omega)
    have hmap : (pre ++ post).map (resize a.base (a.length + b.length)) =
        left ++ ⟨a.base, a.length + b.length⟩ :: right := by
      rw [parts, map_append, map_cons, map_resize fun c hc => (hheaders c (by simp [hc])).1,
        map_resize fun c hc => (hheaders c (by simp [hc])).1, resize, if_pos rfl]
    rw [hmap] at hchained
    have hperm' : ([AddrSpan.mk a.base (a.length + b.length)] ++ ((left ++ right) ++ used)).Perm
        ((left ++ ⟨a.base, a.length + b.length⟩ :: right) ++ used) := by
      rw [append_assoc]
      exact middle_perm.symm
    refine tiled.replace hchained hperm (·.join meets) hperm' (forall_mem_singleton.mpr ?_)
    exact ⟨by dsimp only; omega, tiled.aligned a (hperm.mem_iff.mpr mem_cons_self)⟩
  · intro c hc
    rw [hcomm]
    have hlater : c ∈ b :: ((left ++ right) ++ used) := mem_cons_of_mem b (mem_append_right _ hc)
    exact (hused c hc).trans (.write (symm (ha c hlater)) le_rfl (by omega))

theorem absorb_merge : ∃ h', (∀ rounds, 2 * (left.length + right.length) + 4 ≤ rounds →
        Heap.absorb profile a.base a.stop rounds 0 h.head h = .ok h') ∧
      Tiled region h' (left ++ ⟨a.base, a.length + b.length⟩ :: right) used ∧
      ∀ c ∈ used, Unchanged c h.memory h'.memory := by
  obtain ⟨hnext, htiled, hused⟩ := merge_spec start bound tiled parts meets
  refine ⟨_, ?_, htiled, hused⟩
  have ha : a ∈ pre ++ b :: post := by
    refine perm_middle.mem_iff.mpr (mem_cons_of_mem b ?_)
    rw [parts]
    exact mem_append_cons_self
  have hb : b ∈ pre ++ b :: post := mem_append_cons_self
  have hinside := tiled.inside (mem_append_left used ha)
  have hinside' := tiled.inside (mem_append_left used hb)
  simp only [AddrSpan.stop] at meets
  have hsum : addWord profile (h.size a.base) (h.size b.base) = some (a.length + b.length) := by
    have hsize : h.size a.base = a.length := tiled.chained.size_eq ha
    have hsize' : h.size b.base = b.length := tiled.chained.size_eq hb
    rw [hsize, hsize']
    exact addWord_of_lt profile (show a.length + b.length < 2 ^ 64 by omega)
  obtain ⟨middle, hpre, hmiddle, -⟩ := chained_append.mp tiled.chained
  obtain ⟨hapart, -⟩ := pairwise_cons.mp tiled.around.apart
  have hothers : ∀ c ∈ pre, c.base ≠ a.stop := by
    intro c hc
    have hc_b := hapart c (mem_append_left _ hc)
    have hlarge := tiled.large c (mem_append_left _ (mem_append_left _ hc))
    simp only [AddrSpan.Apart, AddrSpan.stop] at hc_b ⊢
    omega
  have hlength := congrArg length parts
  rw [length_append, length_append, length_cons] at hlength
  intro rounds enough
  obtain ⟨n, rfl⟩ : ∃ n, rounds = n + 1 + pre.length := ⟨rounds - pre.length - 1, by omega⟩
  rw [absorb_skip (fun c hc => tiled.nonnull start c (mem_append_left _ hc)) hothers hpre,
    Heap.absorb, hmiddle, if_neg (by omega), if_pos ⟨by omega, meets⟩, hsum]
  show Heap.absorb profile a.base a.stop n 0 _ _ = _
  rw [hnext]
  refine absorb_none (htiled.nonnull start) ?_ htiled.chained ?_
  · apply htiled.starts_outside
    · simp only [AddrSpan.stop]
      omega
    · simp only [AddrSpan.stop]
      omega
  · rw [length_append, length_cons]
    omega

end

theorem absorb_spec (tiled : Tiled region h (left ++ a :: right) used) :
    ∃ h' left' a' right', (∀ rounds, 2 * (left.length + right.length) + 2 ≤ rounds →
        Heap.absorb profile a.base a.stop rounds 0 h.head h = .ok h') ∧
      Tiled region h' (left' ++ a' :: right') used ∧ a'.base = a.base ∧
      right'.length ≤ right.length ∧ left'.length + right'.length ≤ left.length + right.length ∧
      ∀ c ∈ used, Unchanged c h.memory h'.memory := by
  by_cases hbehind : ∃ b ∈ left ++ a :: right, b.base = a.stop
  · obtain ⟨b, hb, hmeets⟩ := hbehind
    have hlarge := tiled.large a mem_middle
    have hother : b ≠ a := by
      rintro rfl
      simp only [AddrSpan.stop] at hmeets
      omega
    obtain ⟨pre, post, left', right', hsplit, hparts, hshort, hlength⟩ := exists_split hb hother
    rw [hsplit] at tiled
    obtain ⟨h', hresult, hmerged, hused⟩ := absorb_merge profile start bound tiled hparts hmeets
    exact ⟨h', left', _, right', fun rounds enough => hresult rounds (by omega), hmerged, rfl, hshort,
      by omega, hused⟩
  · have hothers : ∀ c ∈ left ++ a :: right, c.base ≠ a.stop := fun c hc hstop => hbehind ⟨c, hc, hstop⟩
    refine ⟨h, left, a, right, ?_, tiled, rfl, le_rfl, le_rfl, fun c _ => .refl c h.memory⟩
    intro rounds enough
    apply absorb_none (tiled.nonnull start) hothers tiled.chained
    rw [length_append, length_cons]
    omega

theorem coalesceFrom_spec (n : Nat)
    (left : List AddrSpan) {rest : List AddrSpan} (short : rest.length ≤ n)
    (tiled : Tiled region h (left ++ rest) used) (position : Chained h.memory cur 0 rest) :
    ∃ h' free, (∀ inner rounds, n < rounds → 2 * (left.length + rest.length) ≤ inner →
        Heap.coalesceFrom profile inner rounds cur h = .ok h') ∧ Tiled region h' free used ∧
      ∀ c ∈ used, Unchanged c h.memory h'.memory := by
  -- by induction on the number of blocks still to be visited: a merge never adds one
  induction n generalizing h left rest cur with
  | zero =>
    obtain rfl := eq_nil_of_length_eq_zero (le_zero.mp short)
    have hcur : cur = 0 := position
    refine ⟨h, left ++ [], fun inner rounds enough _ => ?_, tiled, fun c _ => .refl c h.memory⟩
    obtain ⟨k, rfl⟩ := Nat.exists_eq_add_of_lt enough
    rw [Heap.coalesceFrom, if_pos hcur]
    rfl
  | succ n ih =>
    cases rest with
    | nil =>
      have hshort : ([] : List AddrSpan).length ≤ n := zero_le n
      obtain ⟨h', free, hresult, hfinal⟩ := ih left hshort tiled position
      exact ⟨h', free, fun inner rounds enough => hresult inner rounds (by omega), hfinal⟩
    | cons a right =>
      obtain ⟨rfl, hsize, -⟩ := position
      rw [length_cons] at short
      have ha : a ∈ left ++ a :: right := mem_append_cons_self
      have hnonnull := tiled.nonnull start a ha
      have hend : addWord profile a.base (h.size a.base) = some a.stop := by
        rw [Heap.size, hsize]
        exact addWord_of_lt profile
          (lt_of_le_of_lt (tiled.inside (mem_append_left _ ha)).2.2 bound)
      obtain ⟨merged, left', a', right', hmerged, htiled, hbase, hshort, hshort', hused⟩ :=
        absorb_spec profile start bound tiled
      obtain ⟨middle, -, -, -, hnext⟩ := chained_append.mp htiled.chained
      rw [hbase] at hnext
      have htiled' : Tiled region merged ((left' ++ [a']) ++ right') used := by rwa [append_assoc]
      obtain ⟨h', free, hresult, hfinal, hused'⟩ := ih (left' ++ [a']) (by omega) htiled' hnext
      refine ⟨h', free, ?_, hfinal, fun c hc => (hused c hc).trans (hused' c hc)⟩
      intro inner rounds enough enough'
      rw [length_cons] at enough'
      obtain ⟨k, rfl⟩ : ∃ k, rounds = k + 1 := ⟨rounds - 1, by omega⟩
      rw [Heap.coalesceFrom, if_neg (by omega), hend]
      show (Heap.absorb profile a.base a.stop inner 0 h.head h >>= _) = _
      rw [hmerged inner (by omega)]
      refine hresult inner k (by omega) ?_
      rw [length_append, length_singleton]
      omega

theorem dealloc_spec (tiled : Tiled region h free (b :: used)) {payload : Nat} (low : b.base + 24 ≤ payload)
    (stash : readWord h.memory (payload - 8) = b.base) (size : readWord h.memory b.base = b.length) :
    ∃ h' free', (∀ rounds, 2 * (free.length + 1) < rounds →
        Heap.dealloc profile rounds payload h = .ok h') ∧ Tiled region h' free' used ∧
      ∀ c ∈ used, Unchanged c h.memory h'.memory := by
  have hmem : b ∈ free ++ b :: used := mem_append_right _ mem_cons_self
  have hinside := tiled.inside hmem
  have hperm : (free ++ b :: used).Perm ((b :: free) ++ used) := perm_middle
  obtain ⟨hapart, -⟩ := pairwise_cons.mp (tiled.tiles.perm hperm).apart
  have hsame : ∀ c ∈ free ++ used, Unchanged c h.memory (h.setNext b.base h.head).memory :=
    fun c hc => .write (symm (hapart c hc)) (by omega) (by omega)
  have hslot : subWord profile payload word = some (payload - 8) :=
    subWord_of_le profile (by unfold word; omega)
  have hhead : h.head < wordBound := by
    cases free with
    | nil =>
      have hnull : h.head = 0 := tiled.chained
      rw [hnull]
      exact Nat.two_pow_pos 64
    | cons c free =>
      have hfirst : h.head = c.base := tiled.chained.1
      have hc := tiled.inside (mem_append_left _ (mem_cons_self (a := c) (l := free)))
      show h.head < 2 ^ 64
      omega
  have hpushed : Tiled region { h.setNext b.base h.head with head := b.base } (b :: free) used := by
    refine tiled.reorder ⟨rfl, ?_, ?_⟩ hperm
    · rw [← size]
      exact readWord_writeWord_of_apart (by omega)
    · have hnext : readWord (h.setNext b.base h.head).memory (b.base + 8) = h.head :=
        readWord_writeWord hhead
      show Chained (h.setNext b.base h.head).memory
        (readWord (h.setNext b.base h.head).memory (b.base + 8)) 0 free
      rw [hnext]
      exact tiled.chained.frame (fun c hc => tiled.large c (mem_append_left _ hc))
        fun c hc => hsame c (mem_append_left _ hc)
  obtain ⟨h', free', hresult, hfinal, hused⟩ := coalesceFrom_spec profile start bound (b :: free).length []
    le_rfl hpushed hpushed.chained
  refine ⟨h', free', fun rounds enough => ?_, hfinal,
    fun c hc => (hsame c (mem_append_right _ hc)).trans (hused c hc)⟩
  rw [Heap.dealloc, if_neg (by omega), hslot]
  show Heap.coalesce profile rounds
    { h.setNext (readWord h.memory (payload - 8)) h.head with head := readWord h.memory (payload - 8) } = _
  rw [stash]
  refine hresult rounds rounds ?_ ?_
  · rw [length_cons]
    omega
  · rw [length_nil, length_cons]
    omega

end

end CibosPlatform.App.Allocator
