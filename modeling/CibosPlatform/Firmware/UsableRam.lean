/- source: cibios/src/bare/arch/x86_64.rs, cibios/src/multiboot.rs, cibios/src/bare/mod.rs,
     cibos-kernel/src/frame.rs
   digest: When the one region handed to the kernel is RAM the platform reported. -/

import CibosPlatform.Core.Span
import CibosPlatform.Firmware.MemoryMap
import CibosPlatform.Kernel.Frame.Exclusivity

namespace CibosPlatform.Firmware.UsableRam

open Core MachineWord Program Span MemoryMap Kernel.Frame.Accounting List
open Kernel.Frame.Allocator Kernel.Frame.Exclusivity Shared.Hardware RamScan

structure PlatformRegion where
  span : AddrSpan
  usable : Bool

def BootMemoryRegion.toPlatform (region : BootMemoryRegion) : PlatformRegion :=
  ⟨⟨region.base, region.length⟩, region.isUsable⟩

def MmapEntry.toPlatform (entry : MmapEntry) : PlatformRegion :=
  ⟨⟨entry.base, entry.length⟩, entry.kind = mmapTypeAvailable⟩

def Reports : BootSource → List PlatformRegion → Prop
  | .bootloader _ handoff, regions => regions = handoff.memoryRegions.map BootMemoryRegion.toPlatform
  | .multiboot infoPtr memory, regions =>
    ∃ entries, Listing (mmapBytes infoPtr memory) entries ∧ regions = entries.map MmapEntry.toPlatform

variable (regions : List PlatformRegion)

def usableSpans : List AddrSpan := (regions.filter PlatformRegion.usable).map PlatformRegion.span

def IsRam (addr : Nat) : Prop := ∃ r ∈ regions, r.usable = true ∧ r.span.Covers addr

def primaryBase : Nat :=
  ((regions.find? fun r => r.usable && decide (lowMemoryEnd ≤ r.span.base)).map
    fun r => r.span.base).getD 0

/-- Only real RAM reaches the kernel: every byte handed over is RAM, and so is every byte of a frame
the kernel's allocator ever issues. -/
structure OnlyRam (regions : List PlatformRegion) (handed : List MemoryRegion) : Prop where
  bytes : ∀ r ∈ handed, r.kind = .usable → ∀ addr, r.Covers addr → IsRam regions addr
  frames : ∀ (profile : BuildProfile) (reservedBelow : Nat) (s : AllocState) (L : Ledger),
    fromRegions profile handed reservedBelow = some s → Relation.ReflTransGen Step ⟨s, ∅, ∅⟩ L →
    ∀ f ∈ L.issued, ∀ addr, f * frameSize ≤ addr → addr < (f + 1) * frameSize → IsRam regions addr

section

def scanRegion (scan : RamScan) (region : PlatformRegion) : RamScan :=
  if region.usable then scan.add region.span.base region.span.length else scan

theorem isRam_iff {regions : List PlatformRegion} {addr : Nat} :
    IsRam regions addr ↔ addr ∈ covered (usableSpans regions) := by
  simp only [IsRam, mem_covered, usableSpans, mem_map, mem_filter]
  constructor
  · rintro ⟨r, hr, husable, hcovers⟩
    exact ⟨_, ⟨r, ⟨hr, husable⟩, rfl⟩, hcovers⟩
  · rintro ⟨_, ⟨r, ⟨hr, husable⟩, rfl⟩, hcovers⟩
    exact ⟨r, hr, husable, hcovers⟩

variable (regions : List PlatformRegion) (scan : RamScan)

private theorem scan_base : (regions.foldl scanRegion scan).memoryBase =
      if scan.baseSet then scan.memoryBase
      else ((regions.find? fun r => r.usable && decide (lowMemoryEnd ≤ r.span.base)).map
        fun r => r.span.base).getD scan.memoryBase := by
  induction regions generalizing scan with
  | nil => cases scan.baseSet <;> rfl
  | cons r rest ih =>
    rw [foldl_cons, ih]
    rcases hset : scan.baseSet with _ | _
    · by_cases husable : r.usable
      · by_cases hhigh : lowMemoryEnd ≤ r.span.base
        · simp [scanRegion, add, husable, hhigh, hset]
        · simp [scanRegion, add, husable, hhigh, hset]
      · simp [scanRegion, husable, hset]
    · by_cases husable : r.usable
      · simp [scanRegion, add, husable, hset]
      · simp [scanRegion, husable, hset]

private theorem scan_total
    (fits : scan.totalMemory + totalLength (usableSpans regions) < wordBound) :
    (regions.foldl scanRegion scan).totalMemory =
      scan.totalMemory + totalLength (usableSpans regions) := by
  induction regions generalizing scan with
  | nil => rfl
  | cons r rest ih =>
    rw [foldl_cons]
    by_cases husable : r.usable
    · have hlength : totalLength (usableSpans (r :: rest)) =
          r.span.length + totalLength (usableSpans rest) := by
        simp [usableSpans, totalLength, husable]
      have hstep : (scanRegion scan r).totalMemory = scan.totalMemory + r.span.length := by
        have hadd : saturatingAdd scan.totalMemory r.span.length =
            scan.totalMemory + r.span.length := by
          unfold saturatingAdd
          omega
        unfold scanRegion add
        rw [if_pos husable]
        dsimp only
        split <;> exact hadd
      rw [ih _ (by rw [hstep]; omega), hstep, hlength]
      omega
    · have hlength : usableSpans (r :: rest) = usableSpans rest := by simp [usableSpans, husable]
      have hstep : scanRegion scan r = scan := if_neg husable
      rw [hlength] at fits ⊢
      rw [hstep, ih scan fits]

theorem readMemoryMap_scan {source : BootSource} {regions : List PlatformRegion} {base total : Nat}
    (reports : Reports source regions) (h : readMemoryMap source = .ok (base, total)) :
    base = (regions.foldl scanRegion {}).memoryBase ∧
      total = (regions.foldl scanRegion {}).totalMemory := by
  cases source with
  | bootloader handoffPtr handoff =>
    have hscan : regions.foldl scanRegion {} = handoff.memoryRegions.foldl addRegion {} := by
      rw [show regions = _ from reports, foldl_map]
      rfl
    simp only [readMemoryMap, bootHandoff] at h
    split at h
    · cases h
    · rename_i handoff' hsome
      obtain rfl : handoff = handoff' := by
        split at hsome
        · cases hsome
        · split at hsome
          · exact Option.some.inj hsome
          · cases hsome
      split at h
      · cases h
      · split at h
        · cases h
        · rw [hscan]
          exact ⟨(congrArg Prod.fst (Outcome.ok.inj h)).symm, (congrArg Prod.snd (Outcome.ok.inj h)).symm⟩
  | multiboot infoPtr memory =>
    obtain ⟨entries, listing, rfl⟩ := reports
    have hscan : (entries.map MmapEntry.toPlatform).foldl scanRegion {} =
        entries.foldl addEntry {} := by
      rw [foldl_map]
      congr 1
      funext scan entry
      simp [scanRegion, MmapEntry.toPlatform, addEntry]
    have hparse := parseMemoryMap_eq_ok_iff.mpr ⟨entries, listing, rfl⟩
    simp only [readMemoryMap, hparse] at h
    split at h
    · cases h
    · split at h
      · cases h
      · rw [hscan]
        exact ⟨(congrArg Prod.fst (Outcome.ok.inj h)).symm, (congrArg Prod.snd (Outcome.ok.inj h)).symm⟩

end

section

variable {source : BootSource} {regions : List PlatformRegion}

private theorem usable_apart (apart : (regions.map PlatformRegion.span).Pairwise AddrSpan.Apart) :
    (usableSpans regions).Pairwise AddrSpan.Apart :=
  apart.sublist (filter_sublist.map _)

private theorem usable_mem {s : AddrSpan} (hs : s ∈ usableSpans regions) :
    ∃ r ∈ regions, r.usable = true ∧ r.span = s := by
  obtain ⟨r, hr, rfl⟩ := mem_map.mp hs
  exact ⟨r, (mem_filter.mp hr).1, (mem_filter.mp hr).2, rfl⟩

theorem handed_eq {handed : List MemoryRegion} (reports : Reports source regions)
    (apart : (regions.map PlatformRegion.span).Pairwise AddrSpan.Apart)
    (fits : ∀ r ∈ regions, r.span.stop < wordBound) (booted : bootImageRegions source = .ok handed) :
    ∃ region : MemoryRegion, handed = [region] ∧ region.kind = .usable ∧
      region.base = primaryBase regions ∧ region.length = totalLength (usableSpans regions) := by
  obtain ⟨region, rfl, hkind, hread⟩ := bootImageRegions_ok booted
  obtain ⟨hbase, htotal⟩ := readMemoryMap_scan reports hread
  have hbound : totalLength (usableSpans regions) ≤ wordBound - 1 := by
    refine totalLength_le (usable_apart apart) fun s hs => ?_
    obtain ⟨r, hr, -, rfl⟩ := usable_mem hs
    exact Nat.le_sub_one_of_lt (fits r hr)
  have hfits : 0 + totalLength (usableSpans regions) < wordBound := by
    simp only [wordBound] at hbound ⊢
    omega
  refine ⟨region, rfl, hkind, ?_, ?_⟩
  · rw [hbase, scan_base]
    rfl
  · rw [htotal, scan_total regions {} hfits, zero_add]

theorem issued_inside {region : MemoryRegion} {profile : BuildProfile} {reservedBelow : Nat}
    {s : AllocState} {L : Ledger} (fits : region.EndFits)
    (built : fromRegions profile [region] reservedBelow = some s)
    (run : Relation.ReflTransGen Step ⟨s, ∅, ∅⟩ L) {f : Nat} (hf : f ∈ L.issued) :
    FrameInside region f := by
  obtain ⟨s', hbuilt, wf, -, -, havailable⟩ := fromRegions_spec profile [region] reservedBelow
    (fun r hr _ => mem_singleton.mp hr ▸ fits)
  obtain rfl : s = s' := Option.some.inj (built.symm.trans hbuilt)
  have hfree := ((Inv.initial wf).run run).issued_free f hf
  obtain ⟨-, r, hr, -, hinside⟩ := (havailable f).mp hfree
  exact mem_singleton.mp hr ▸ hinside

theorem onlyRam_iff_bytes {region : MemoryRegion} (usable : region.kind = .usable)
    (fits : ∀ r ∈ regions, r.span.stop < wordBound) :
    OnlyRam regions [region] ↔ ∀ addr, region.Covers addr → IsRam regions addr := by
  constructor
  · intro only
    exact only.bytes region (mem_singleton_self _) usable
  · intro hbytes
    refine ⟨fun r hr _ => mem_singleton.mp hr ▸ hbytes, ?_⟩
    intro profile reservedBelow s L built run f hf addr hlow hhigh
    by_cases hempty : region.length = 0
    · have hfits : region.EndFits := by
        unfold MemoryRegion.EndFits
        rw [hempty]
        exact region.base_lt
      obtain ⟨hbase, hend⟩ := issued_inside hfits built run hf
      omega
    · obtain ⟨r, hr, -, hlast⟩ := hbytes (region.base + region.length - 1) (by
        unfold MemoryRegion.Covers
        omega)
      have hfits : region.EndFits := by
        have hstop := fits r hr
        have hlt := hlast.2
        unfold MemoryRegion.EndFits
        omega
      obtain ⟨hbase, hend⟩ := issued_inside hfits built run hf
      exact hbytes addr ⟨hbase.trans hlow, hhigh.trans_le hend⟩

end

/-- Only real RAM is handed over exactly when the non-empty usable regions form one block from the
first-listed usable region at or above 1 MiB. -/
theorem only_ram_iff_contiguous (source : BootSource) (regions : List PlatformRegion)
    (handed : List MemoryRegion) (reports : Reports source regions)
    (apart : (regions.map PlatformRegion.span).Pairwise AddrSpan.Apart)
    (fits : ∀ r ∈ regions, r.span.stop < wordBound) (booted : bootImageRegions source = .ok handed) :
    OnlyRam regions handed ↔ Contiguous (primaryBase regions) (usableSpans regions) := by
  obtain ⟨region, rfl, husable, hbase, hlength⟩ := handed_eq reports apart fits booted
  rw [onlyRam_iff_bytes husable fits, ← block_covered_iff (usable_apart apart)]
  simp only [isRam_iff, MemoryRegion.Covers, hbase, hlength, and_imp]

theorem only_ram_single_block : OnlyRam [⟨⟨0, 0x9FC00⟩, false⟩, ⟨⟨0x100000, 0x7FF00000⟩, true⟩]
      [⟨0x100000, 0x7FF00000, .usable, by decide, by decide⟩] :=
  (only_ram_iff_contiguous (.bootloader 0x7000 ⟨bootHandoffMagic, 1, 0x8000,
      [⟨0, 0x9FC00, 2, 1, by decide, by decide⟩,
        ⟨0x100000, 0x7FF00000, 1, 1, by decide, by decide⟩]⟩)
    [⟨⟨0, 0x9FC00⟩, false⟩, ⟨⟨0x100000, 0x7FF00000⟩, true⟩] _ (by exact rfl) (by decide)
    (by decide) (bootImageRegions_eq _ rfl (by decide +kernel))).mpr (by decide)

/-- A machine with 2 GiB: the 639 KiB of low memory are added to the region at 1 MiB, and the
address 2 GiB, which is no RAM, is handed over as usable. -/
theorem low_memory_handed_as_high : Reports (.bootloader 0x7000 ⟨bootHandoffMagic, 1, 0x8000,
          [⟨0, 0x9FC00, 1, 1, by decide, by decide⟩,
            ⟨0x100000, 0x7FF00000, 1, 1, by decide, by decide⟩]⟩)
        [⟨⟨0, 0x9FC00⟩, true⟩, ⟨⟨0x100000, 0x7FF00000⟩, true⟩] ∧
      (⟨0, 0x9FC00⟩ : AddrSpan).Apart ⟨0x100000, 0x7FF00000⟩ ∧
      bootImageRegions (.bootloader 0x7000 ⟨bootHandoffMagic, 1, 0x8000,
          [⟨0, 0x9FC00, 1, 1, by decide, by decide⟩,
            ⟨0x100000, 0x7FF00000, 1, 1, by decide, by decide⟩]⟩) =
        .ok [⟨0x100000, 0x7FF9FC00, .usable, by decide, by decide⟩] ∧
      ¬ OnlyRam [⟨⟨0, 0x9FC00⟩, true⟩, ⟨⟨0x100000, 0x7FF00000⟩, true⟩]
        [⟨0x100000, 0x7FF9FC00, .usable, by decide, by decide⟩] := by
  refine ⟨rfl, by decide, bootImageRegions_eq _ rfl (by decide +kernel), fun only => ?_⟩
  have hram := only.bytes _ (mem_singleton_self _) rfl 0x80000000 (by decide)
  rw [isRam_iff, mem_covered] at hram
  revert hram
  decide

end CibosPlatform.Firmware.UsableRam
