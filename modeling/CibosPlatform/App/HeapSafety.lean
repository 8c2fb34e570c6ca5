/- source: cibos-app/src/heap.rs
   digest: Over any calls the blocks tile the region, and where the address arithmetic gives out. -/

import CibosPlatform.App.Allocator
import Mathlib.Logic.Relation

namespace CibosPlatform.App.HeapSafety

open Allocator Core ByteMemory MachineWord Program Span List AddrSpan

structure Allocation where
  payload : Nat
  layout : Layout

def Allocation.span (a : Allocation) : AddrSpan := ⟨a.payload, a.layout.size⟩

/-- The block of a payload: its base is in the word before the payload, its size at its base. -/
def blockOf (h : Heap) (a : Allocation) : AddrSpan :=
  ⟨readWord h.memory (a.payload - 8), h.size (readWord h.memory (a.payload - 8))⟩

structure Config where
  heap : Heap
  live : List Allocation

def Returns {α : Type} (call : Nat → Outcome Unfinished α) (result : α) : Prop :=
  ∃ enough, ∀ rounds, enough ≤ rounds → call rounds = .ok result

def granted (payload : Nat) (layout : Layout) (live : List Allocation) : List Allocation :=
  if payload = 0 then live else ⟨payload, layout⟩ :: live

inductive Step (profile : BuildProfile) (allowed : Layout → Prop) : Config → Config → Prop
  | alloc {c : Config} {layout : Layout} {payload : Nat} {h : Heap} (ask : allowed layout)
      (call : Returns (fun rounds => c.heap.alloc profile rounds layout) (payload, h)) :
      Step profile allowed c ⟨h, granted payload layout c.live⟩
  | dealloc {c : Config} {a : Allocation} {rest : List Allocation} {h : Heap}
      (held : c.live.Perm (a :: rest))
      (call : Returns (fun rounds => c.heap.dealloc profile rounds a.payload) h) :
      Step profile allowed c ⟨h, rest⟩
  | deallocNull {c : Config} {h : Heap}
      (call : Returns (fun rounds => c.heap.dealloc profile rounds 0) h) :
      Step profile allowed c ⟨h, c.live⟩
  | write {c : Config} {m : Memory}
      (own : ∀ addr, (∀ a ∈ c.live, ¬ a.span.Covers addr) → m addr = c.heap.memory addr) :
      Step profile allowed c ⟨{ c.heap with memory := m }, c.live⟩

def installed (memory : Memory) (region : AddrSpan) : Config :=
  ⟨(Heap.new memory).init region.base region.length, []⟩

/-- The free list is finite and without repetition, free and live blocks tile the region, and each
payload lies in its block behind the header and the base. -/
structure Safe (region : AddrSpan) (c : Config) (free : List AddrSpan) : Prop where
  listed : Chained c.heap.memory c.heap.head 0 free
  acyclic : (free.map base).Nodup
  tiles : Tiles region (free ++ c.live.map (blockOf c.heap))
  aligned : ∀ a ∈ c.live, a.payload ≠ 0 ∧ a.payload % a.layout.align = 0
  within : ∀ a ∈ c.live, (blockOf c.heap a).base + 24 ≤ a.payload ∧ a.span.stop ≤ (blockOf c.heap a).stop
  apart : c.live.Pairwise fun a b => a.span.Apart b.span
  unlisted : ∀ a ∈ c.live, ∀ b ∈ free, a.span.Apart b

structure Held (region : AddrSpan) (c : Config) (free : List AddrSpan) : Prop where
  tiled : Tiled region c.heap free (c.live.map (blockOf c.heap))
  aligned : ∀ a ∈ c.live, a.payload % a.layout.align = 0
  within : ∀ a ∈ c.live, (blockOf c.heap a).base + 24 ≤ a.payload ∧ a.span.stop ≤ (blockOf c.heap a).stop

theorem Returns.unique {α : Type} {call : Nat → Outcome Unfinished α} {result result' : α}
    (first : Returns call result) (second : Returns call result') :
    result = result' := by
  obtain ⟨n, hfirst⟩ := first
  obtain ⟨n', hsecond⟩ := second
  have hok := (hfirst (max n n') (le_max_left n n')).symm.trans (hsecond (max n n') (le_max_right n n'))
  injection hok

variable {a : Allocation} {live : List Allocation}

section

variable {profile : BuildProfile} {region : AddrSpan} {c c' : Config} {free : List AddrSpan} {h : Heap}

theorem blockOf_kept (low : (blockOf c.heap a).base + 24 ≤ a.payload)
    (same : ∀ addr, (blockOf c.heap a).base ≤ addr → addr < a.payload → h.memory addr = c.heap.memory addr) :
    blockOf h a = blockOf c.heap a := by
  have hstash : readWord h.memory (a.payload - 8) = readWord c.heap.memory (a.payload - 8) :=
    readWord_congr fun addr hfrom hto => same addr (by omega) (by omega)
  have hsize : readWord h.memory (blockOf c.heap a).base = readWord c.heap.memory (blockOf c.heap a).base :=
    readWord_congr fun addr hfrom hto => same addr hfrom (by omega)
  show AddrSpan.mk (readWord h.memory (a.payload - 8)) (readWord h.memory (readWord h.memory (a.payload - 8))) = _
  rw [hstash]
  exact congrArg (AddrSpan.mk _) hsize

theorem map_blockOf (within : ∀ a ∈ live, (blockOf c.heap a).base + 24 ≤ a.payload ∧
      a.span.stop ≤ (blockOf c.heap a).stop)
    (same : ∀ b ∈ live.map (blockOf c.heap), Unchanged b c.heap.memory h.memory) :
    ∀ a ∈ live, blockOf h a = blockOf c.heap a := by
  intro a ha
  have hhigh : a.payload + a.layout.size ≤ (blockOf c.heap a).stop := (within a ha).2
  exact blockOf_kept (within a ha).1 fun addr hfrom hto =>
    same _ (mem_map_of_mem ha) addr ⟨hfrom, by omega⟩

variable (held : Held region c free)

include held

theorem Held.after (sub : ∀ a ∈ live, a ∈ c.live) {free' : List AddrSpan}
    (tiled : Tiled region h free' (live.map (blockOf c.heap)))
    (same : ∀ a ∈ live, blockOf h a = blockOf c.heap a) : Held region ⟨h, live⟩ free' where
  tiled := by rwa [map_congr_left same]
  aligned a ha := held.aligned a (sub a ha)
  within a ha := by
    rw [same a ha]
    exact held.within a (sub a ha)

section

variable (profile) (start : 0 < region.base) (bound : region.stop < wordBound)

include start bound

theorem Held.alloc {layout : Layout} (noWrap : layout.NoWrap region) :
    ∃ payload h free', Returns (c.heap.alloc profile · layout) (payload, h) ∧
      Held region ⟨h, granted payload layout c.live⟩ free' := by
  rcases alloc_spec profile start bound held.tiled noWrap with
    hnone | ⟨payload, h, block, hcall, hmod, hgranted⟩
  · exact ⟨0, c.heap, free, ⟨free.length + 1, hnone⟩, held⟩
  · obtain ⟨free', htiled⟩ := hgranted.tiled
    have hlow := hgranted.low
    have hsame := map_blockOf held.within hgranted.same
    have hblock : blockOf h ⟨payload, layout⟩ = block := by
      show AddrSpan.mk (readWord h.memory (payload - 8)) (readWord h.memory (readWord h.memory (payload - 8)))
        = block
      rw [hgranted.stash, hgranted.size]
    have hgrown : granted payload layout c.live = ⟨payload, layout⟩ :: c.live := if_neg (by omega)
    refine ⟨payload, h, free', ⟨free.length + 1, hcall⟩, ?_⟩
    rw [hgrown]
    refine ⟨?_, ?_, ?_⟩
    · show Tiled region h free' (blockOf h ⟨payload, layout⟩ :: c.live.map (blockOf h))
      rwa [hblock, map_congr_left hsame]
    · intro a ha
      rcases mem_cons.mp ha with rfl | ha
      · exact hmod
      · exact held.aligned a ha
    · intro a ha
      rcases mem_cons.mp ha with rfl | ha
      · rw [hblock]
        exact ⟨hlow, hgranted.high⟩
      · rw [hsame a ha]
        exact held.within a ha

theorem Held.dealloc {rest : List Allocation} (perm : c.live.Perm (a :: rest)) :
    ∃ h free', Returns (c.heap.dealloc profile · a.payload) h ∧ Held region ⟨h, rest⟩ free' := by
  have hsub : ∀ a' ∈ rest, a' ∈ c.live := fun a' ha' => perm.mem_iff.mpr (mem_cons_of_mem a ha')
  have ha : a ∈ c.live := perm.mem_iff.mpr mem_cons_self
  have hperm : (free ++ c.live.map (blockOf c.heap)).Perm
      (free ++ blockOf c.heap a :: rest.map (blockOf c.heap)) := (perm.map _).append_left free
  obtain ⟨h, free', hcall, hfinal, hsame⟩ := dealloc_spec profile start bound
    (held.tiled.reorder held.tiled.chained hperm) (held.within a ha).1 rfl rfl
  refine ⟨h, free', ⟨2 * (free.length + 1) + 1, hcall⟩, held.after hsub hfinal ?_⟩
  exact map_blockOf (fun a' ha' => held.within a' (hsub a' ha')) hsame

end

theorem Held.blocks_apart {a' : Allocation} (ha : a ∈ c.live) (ha' : a' ∈ c.live) (distinct : a ≠ a') :
    (blockOf c.heap a).Apart (blockOf c.heap a') := by
  have hlive := (pairwise_append.mp held.tiled.tiles.apart).2.1
  rw [pairwise_map] at hlive
  exact hlive.forall ha ha' distinct

theorem Held.span_within (ha : a ∈ c.live) {addr : Nat} (hcovers : a.span.Covers addr) :
    (blockOf c.heap a).base + 24 ≤ addr ∧ (blockOf c.heap a).Covers addr := by
  have hwithin := held.within a ha
  have hlow : a.payload ≤ addr := hcovers.1
  exact ⟨by omega, by omega, hcovers.2.trans_le hwithin.2⟩

theorem Held.write {m : Memory}
    (own : ∀ addr, (∀ a ∈ c.live, ¬ a.span.Covers addr) → m addr = c.heap.memory addr) :
    Held region ⟨{ c.heap with memory := m }, c.live⟩ free := by
  obtain ⟨-, -, hacross⟩ := pairwise_append.mp held.tiled.tiles.apart
  have hlisted : ∀ b ∈ free, Unchanged b c.heap.memory m := by
    intro b hb addr haddr
    apply own
    intro a ha hcovers
    have hapart := hacross b hb _ (mem_map_of_mem ha)
    exact hapart.not_covers haddr (held.span_within ha hcovers).2
  -- the header and the stashed base of a block are outside of every payload
  have hblocks : ∀ a ∈ c.live, blockOf { c.heap with memory := m } a = blockOf c.heap a := by
    intro a ha
    have hhigh : a.payload + a.layout.size ≤ (blockOf c.heap a).stop := (held.within a ha).2
    refine blockOf_kept (held.within a ha).1 fun addr hfrom hto => own addr fun a' ha' hcovers => ?_
    rcases eq_or_ne a a' with rfl | hother
    · exact absurd hcovers.1 (not_le.mpr hto)
    · exact (held.blocks_apart ha ha' hother).not_covers ⟨hfrom, by omega⟩ (held.span_within ha' hcovers).2
  refine held.after (fun _ ha => ha) ?_ hblocks
  exact ⟨held.tiled.chained.frame (fun b hb => held.tiled.large b (mem_append_left _ hb)) hlisted,
    held.tiled.tiles, held.tiled.large, held.tiled.aligned⟩

theorem Held.step (start : 0 < region.base) (bound : region.stop < wordBound)
    (step : Step profile (·.NoWrap region) c c') :
    ∃ free', Held region c' free' := by
  cases step with
  | alloc ask call =>
    obtain ⟨payload, h, free', hcall, hheld⟩ := held.alloc profile start bound ask
    cases hcall.unique call
    exact ⟨free', hheld⟩
  | dealloc perm call =>
    obtain ⟨h, free', hcall, hheld⟩ := held.dealloc profile start bound perm
    cases hcall.unique call
    exact ⟨free', hheld⟩
  | deallocNull call =>
    have hcall : Returns (c.heap.dealloc profile · 0) c.heap := ⟨0, fun _ _ => rfl⟩
    cases hcall.unique call
    exact ⟨free, held⟩
  | write own => exact ⟨free, held.write own⟩

omit held

theorem installed_block (memory : Memory) (bound : region.stop < wordBound) (room : 16 ≤ region.length) :
    (installed memory region).heap.head = region.base ∧
      (installed memory region).heap.size region.base = region.length ∧
      (installed memory region).heap.next region.base = 0 := by
  have hbound : region.base + region.length < 2 ^ 64 := bound
  have hinit : (Heap.new memory).init region.base region.length =
      { ((Heap.new memory).setSize region.base region.length).setNext region.base 0 with
        head := region.base, initialized := true } := by
    rw [Heap.init, if_neg]
    rintro (hdone | hsmall)
    · cases hdone
    · unfold blockHdr at hsmall
      omega
  rw [installed, hinit]
  have hapart : readWord (((Heap.new memory).setSize region.base region.length).setNext region.base 0).memory
      region.base = readWord ((Heap.new memory).setSize region.base region.length).memory region.base :=
    readWord_writeWord_of_apart (by omega)
  exact ⟨rfl, hapart.trans (readWord_writeWord (show region.length < 2 ^ 64 by omega)),
    readWord_writeWord (by decide)⟩

section

variable (bound : region.stop < wordBound) (aligned : region.base % 8 = 0)
  (room : region.length = 0 ∨ 16 ≤ region.length)

include bound aligned room

theorem held_installed (memory : Memory) : ∃ free, Held region (installed memory region) free := by
  rcases room with hempty | hroom
  · refine ⟨[], ⟨?_, ?_, nofun, nofun⟩, nofun, nofun⟩
    · rw [installed, Heap.init, if_pos (.inr (by unfold blockHdr; omega))]
      rfl
    · refine ⟨.nil, fun s hs => absurd hs not_mem_nil, ?_⟩
      intro addr haddr
      simp only [AddrSpan.Covers, stop] at haddr
      omega
  · obtain ⟨hhead, hsize, hnext⟩ := installed_block memory bound hroom
    refine ⟨[region], ⟨⟨hhead, hsize, hnext⟩, ?_, forall_mem_singleton.mpr hroom,
      forall_mem_singleton.mpr aligned⟩, nofun, nofun⟩
    exact ⟨pairwise_singleton _ _, forall_mem_singleton.mpr ⟨le_rfl, le_rfl⟩,
      fun addr haddr => ⟨region, mem_cons_self, haddr⟩⟩

theorem held_run {memory : Memory} (start : 0 < region.base)
    (run : Relation.ReflTransGen (Step profile fun layout => layout.NoWrap region)
      (installed memory region) c) : ∃ free, Held region c free := by
  induction run with
  | refl => exact held_installed bound aligned room memory
  | tail _ step ih =>
    obtain ⟨free, hheld⟩ := ih
    exact hheld.step start bound step

end

theorem Held.safe (held : Held region c free) : Safe region c free where
  listed := held.tiled.chained
  acyclic := by
    have hapart := (pairwise_append.mp held.tiled.tiles.apart).1
    refine pairwise_map.mpr (hapart.imp_of_mem ?_)
    intro b b' hb hb' hapart hsame
    have hlarge := held.tiled.large b (mem_append_left _ hb)
    have hlarge' := held.tiled.large b' (mem_append_left _ hb')
    simp only [AddrSpan.Apart, stop] at hapart
    omega
  tiles := held.tiled.tiles
  aligned a ha := by
    have hlow := (held.within a ha).1
    exact ⟨by omega, held.aligned a ha⟩
  within := held.within
  apart := by
    have hlive := (pairwise_append.mp held.tiled.tiles.apart).2.1
    rw [pairwise_map] at hlive
    refine hlive.imp_of_mem ?_
    intro a a' ha ha' hapart
    have hwithin := held.within a ha
    have hwithin' := held.within a' ha'
    simp only [AddrSpan.Apart, stop, Allocation.span] at *
    omega
  unlisted := by
    intro a ha b hb
    have hapart := (pairwise_append.mp held.tiled.tiles.apart).2.2 b hb _ (mem_map_of_mem ha)
    have hwithin := held.within a ha
    simp only [AddrSpan.Apart, stop, Allocation.span] at *
    omega

end

/-- Over any calls that leave the address arithmetic room, on a region not at address 0 that is
empty or has room for a header, the heap is safe and every call returns. -/
theorem heap_safe {profile : BuildProfile} {region : AddrSpan} {memory : Memory} {c : Config}
    (start : 0 < region.base) (bound : region.stop < wordBound) (aligned : region.base % 8 = 0)
    (room : region.length = 0 ∨ 16 ≤ region.length)
    (run : Relation.ReflTransGen (Step profile fun layout => layout.NoWrap region)
      (installed memory region) c) :
    (∃ free, Safe region c free) ∧ (∀ layout : Layout, layout.NoWrap region →
        ∃ result, Returns (fun rounds => c.heap.alloc profile rounds layout) result) ∧
      ∀ a ∈ c.live, ∃ h, Returns (fun rounds => c.heap.dealloc profile rounds a.payload) h := by
  obtain ⟨free, hheld⟩ := held_run bound aligned room start run
  refine ⟨⟨free, hheld.safe⟩, ?_, ?_⟩
  · intro layout noWrap
    obtain ⟨payload, h, -, hcall, -⟩ := hheld.alloc profile start bound noWrap
    exact ⟨(payload, h), hcall⟩
  · intro a ha
    obtain ⟨before, rest, hlive⟩ := append_of_mem ha
    have hperm : c.live.Perm (a :: (before ++ rest)) := by
      rw [hlive]
      exact perm_middle
    obtain ⟨h, -, hcall, -⟩ := hheld.dealloc profile start bound hperm
    exact ⟨h, hcall⟩

def blank : Memory := fun _ => 0

theorem first_alloc {profile : BuildProfile} {region : AddrSpan} {layout : Layout} {memory : Memory}
    {want payload usedEnd stop : Nat} {h : Heap} (bound : region.stop < wordBound) (room : 16 ≤ region.length)
    (start : 0 < region.base) (hwant : alignUp profile (max layout.size 1) minAlign = some want)
    (hplace : Heap.place profile region.base (max layout.align minAlign) want = some (payload, usedEnd))
    (hstop : addWord profile region.base region.length = some stop) (fits : usedEnd ≤ stop)
    (htake : Heap.take profile 0 region.base region.length 0 payload usedEnd (installed memory region).heap =
      .ok (payload, h)) :
    Returns (fun rounds => (installed memory region).heap.alloc profile rounds layout) (payload, h) := by
  obtain ⟨hhead, hsize, hnext⟩ := installed_block memory bound room
  refine ⟨1, fun rounds enough => ?_⟩
  obtain ⟨n, rfl⟩ : ∃ n, rounds = n + 1 := ⟨rounds - 1, by omega⟩
  show (installed memory region).heap.alloc profile (n + 1) layout = _
  rw [Heap.alloc, hwant, hhead]
  show Heap.scan profile _ want (n + 1) 0 region.base _ = _
  rw [Heap.scan, if_neg (by omega), hplace, hsize, hnext, hstop, ← htake]
  exact if_pos fits

def smallLayout : Layout := ⟨64, 16, ⟨4, rfl⟩, Nat.le_of_ble_eq_true rfl⟩

def smallRegion : AddrSpan := ⟨0x1000, 0x1000⟩

def smallHeap : Heap :=
  ((((((Heap.new blank).init 0x1000 0x1000).setSize 0x1060 0xfa0).setNext 0x1060 0).link 0 0x1060).setSize
    0x1000 0x60).write 0x1018 0x1000

theorem small_alloc : Returns
    (fun rounds => (installed blank smallRegion).heap.alloc .release rounds smallLayout)
      (0x1020, smallHeap) := by
  have hwant : alignUp .release (max smallLayout.size 1) minAlign = some 64 := by decide +kernel
  have hplace : Heap.place .release smallRegion.base (max smallLayout.align minAlign) 64 =
      some (0x1020, 0x1060) := by decide +kernel
  have hstop : addWord .release smallRegion.base smallRegion.length = some 0x2000 := by decide +kernel
  exact first_alloc (by decide +kernel) (by decide) (by decide) hwant hplace hstop (by decide) rfl

/-- The two blocks of the region are merged again. -/
theorem small_dealloc : ∃ h, (∀ n, smallHeap.dealloc .release (n + 5) 0x1020 = .ok h) ∧ h.head = 0x1000 ∧
    h.size 0x1000 = 0x1000 :=
  ⟨_, fun n => rfl, by decide +kernel, by decide +kernel⟩

theorem heap_safe_small : ∃ c : Config, c.live = [] ∧ c.heap.head = 0x1000 ∧ c.heap.size 0x1000 = 0x1000 ∧
    ∃ free, Safe smallRegion c free := by
  obtain ⟨h, hdealloc, hhead, hsize⟩ := small_dealloc
  have hreturns : Returns (fun rounds => smallHeap.dealloc .release rounds 0x1020) h := by
    refine ⟨5, fun rounds enough => ?_⟩
    obtain ⟨n, rfl⟩ := Nat.exists_eq_add_of_le' enough
    exact hdealloc n
  have halloc : Step .release (fun layout => layout.NoWrap smallRegion) (installed blank smallRegion)
      ⟨smallHeap, granted 0x1020 smallLayout []⟩ := .alloc (by unfold Layout.NoWrap; decide +kernel) small_alloc
  have hheld : (granted 0x1020 smallLayout []).Perm [⟨0x1020, smallLayout⟩] := .refl _
  have hrun := (Relation.ReflTransGen.single halloc).tail (.dealloc hheld hreturns)
  exact ⟨⟨h, []⟩, rfl, hhead, hsize,
    (heap_safe (by decide) (by decide +kernel) (by decide) (.inr (by decide)) hrun).1⟩

def hugeLayout : Layout := ⟨2 ^ 63 - 8, 8, ⟨3, rfl⟩, Nat.le_of_ble_eq_true rfl⟩

def upperRegion : AddrSpan := ⟨2 ^ 63, 4096⟩

/-- The end of the payload wraps to 16: the block at 2^63 is given 2^63 + 16 bytes, and the rest is put on
    the free list at address 16. -/
def wrappedHeap : Heap :=
  ((((((Heap.new blank).init (2 ^ 63) 4096).setSize 16 (2 ^ 63 + 4080)).setNext 16 0).link 0 16).setSize
    (2 ^ 63) (2 ^ 63 + 16)).write (2 ^ 63 + 16) (2 ^ 63)

theorem huge_alloc : Returns
    (fun rounds => (installed blank upperRegion).heap.alloc .release rounds hugeLayout)
      (2 ^ 63 + 24, wrappedHeap) := by
  have hwant : alignUp .release (max hugeLayout.size 1) minAlign = some (2 ^ 63 - 8) := by decide +kernel
  have hplace : Heap.place .release upperRegion.base (max hugeLayout.align minAlign) (2 ^ 63 - 8) =
      some (2 ^ 63 + 24, 16) := by decide +kernel
  have hstop : addWord .release upperRegion.base upperRegion.length = some (2 ^ 63 + 4096) := by decide +kernel
  exact first_alloc (by decide +kernel) (by decide) (by decide) hwant hplace hstop (by decide)
    (show Heap.take .release 0 upperRegion.base 4096 0 (2 ^ 63 + 24) 16 _ = _ from rfl)

theorem upper_heap_unsafe : ∃ (region : AddrSpan) (memory : Memory) (c : Config),
    region.base % 8 = 0 ∧ 0 < region.base ∧ 16 ≤ region.length ∧ region.stop < wordBound ∧
      Relation.ReflTransGen (Step .release fun _ => True) (installed memory region) c ∧
      ¬ ∃ free, Safe region c free := by
  refine ⟨upperRegion, blank, ⟨wrappedHeap, granted (2 ^ 63 + 24) hugeLayout []⟩, by decide, by decide,
    by decide, by decide +kernel, .single (.alloc trivial huge_alloc), ?_⟩
  rintro ⟨free, hsafe⟩
  have hblock : blockOf wrappedHeap ⟨2 ^ 63 + 24, hugeLayout⟩ = ⟨2 ^ 63, 2 ^ 63 + 16⟩ := by decide +kernel
  have hinside := hsafe.tiles.inside ⟨2 ^ 63, 2 ^ 63 + 16⟩ (by
    apply mem_append_right
    rw [← hblock]
    exact mem_cons_self)
  exact absurd hinside.2 (by decide)

end CibosPlatform.App.HeapSafety
