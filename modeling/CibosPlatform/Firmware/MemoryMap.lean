/- source: cibios/src/bare/arch/x86_64.rs, cibios/src/multiboot.rs, cibios/src/bare/mod.rs,
     shared/src/protocols/boot.rs
   digest: How the firmware reads the platform memory map and what it hands to the kernel. -/

import CibosPlatform.Shared.Hardware

namespace CibosPlatform.Firmware.MemoryMap

open Core LittleEndian MachineWord Program Shared Error Hardware List Prog Nat
open Shared.Serialization ByteReader

@[ext] structure BootMemoryRegion where
  base : Nat
  length : Nat
  regionType : Nat
  acpiAttributes : Nat
  base_lt : base < wordBound := by decide
  length_lt : length < wordBound := by decide

instance : DecidableEq BootMemoryRegion := fun _ _ => decidable_of_iff' _ BootMemoryRegion.ext_iff

/-- Type 1, and not flagged invalid by the extended-attribute bit. -/
def BootMemoryRegion.isUsable (region : BootMemoryRegion) : Bool :=
  region.regionType = 1 ∧ region.acpiAttributes &&& 1 ≠ 0

def bootHandoffMagic : Nat := 0x314F48534F424943

def bootHandoffVersion : Nat := 1

/-- What the bootloader leaves for the firmware; `memoryRegions` are the `memory_region_count`
entries found at `memory_regions_ptr`. -/
structure BootHandoff where
  magic : Nat
  version : Nat
  memoryRegionsPtr : Nat
  memoryRegions : List BootMemoryRegion

def BootHandoff.isValid (handoff : BootHandoff) : Bool :=
  handoff.magic = bootHandoffMagic ∧ handoff.version = bootHandoffVersion

structure RamScan where
  memoryBase : Nat := 0
  totalMemory : Nat := 0
  baseSet : Bool := false

abbrev lowMemoryEnd : Nat := 0x100000

def RamScan.add (scan : RamScan) (base length : Nat) : RamScan :=
  let scan := { scan with totalMemory := saturatingAdd scan.totalMemory length }
  if scan.baseSet = false ∧ lowMemoryEnd ≤ base then { scan with memoryBase := base, baseSet := true }
  else scan

structure MmapEntry where
  base : Nat
  length : Nat
  kind : Nat

def mmapTypeAvailable : Nat := 1

def skipExtra (entrySize : Nat) : Prog ByteReader FirmwareError Unit :=
  if 20 < entrySize then do
    let _ ← attempt (getSlice (entrySize - 20))
    pure ()
  else pure ()

/-- Read one entry: a size that does not count itself, the 20 bytes that are understood, and any
further bytes the size announces. -/
def parseEntry : Prog ByteReader FirmwareError MmapEntry := do
  let entrySize ← mapErr (.malformedImage "multiboot mmap entry size truncated") getU32
  rejectIf (entrySize < 20) (.malformedImage "multiboot mmap entry too small")
  let left ← gets remaining
  rejectIf (left < entrySize) (.malformedImage "multiboot mmap entry truncated")
  let base ← mapErr (.malformedImage "mmap base truncated") getU64
  let length ← mapErr (.malformedImage "mmap length truncated") getU64
  let kind ← mapErr (.malformedImage "mmap type truncated") getU32
  skipExtra entrySize
  pure ⟨base, length, kind⟩

def RamScan.addEntry (scan : RamScan) (entry : MmapEntry) : RamScan :=
  if entry.kind = mmapTypeAvailable then scan.add entry.base entry.length else scan

/-- The `while` loop; every round consumes bytes, so the length of the map is fuel enough. -/
def parseLoop : Nat → RamScan → Prog ByteReader FirmwareError RamScan
  | 0, _ => trap
  | fuel + 1, scan => do
    let left ← gets remaining
    if 4 ≤ left then do
      let entry ← parseEntry
      parseLoop fuel (scan.addEntry entry)
    else pure scan

def parseMemoryMap (mmap : List Byte) : Outcome FirmwareError RamScan :=
  (parseLoop (mmap.length + 1) {} (ByteReader.new mmap)).1

/-- Where the memory map comes from: the handoff of the bootloader, or the information structure of
a multiboot loader in physical memory. -/
inductive BootSource where
  | bootloader (handoffPtr : Nat) (handoff : BootHandoff)
  | multiboot (infoPtr : Nat) (memory : Nat → Byte)

def rawParts (memory : Nat → Byte) (addr len : Nat) : List Byte :=
  (List.range len).map fun i => memory (addr + i)

def readU32LE (memory : Nat → Byte) (addr : Nat) : Nat := ofLE (rawParts memory addr 4)

def mmapBytes (infoPtr : Nat) (memory : Nat → Byte) : List Byte :=
  rawParts memory (readU32LE memory (infoPtr + 48)) (readU32LE memory (infoPtr + 44))

def bootHandoff (handoffPtr : Nat) (handoff : BootHandoff) : Option BootHandoff :=
  if handoffPtr = 0 then none else if handoff.isValid then some handoff else none

def RamScan.addRegion (scan : RamScan) (region : BootMemoryRegion) : RamScan :=
  if region.isUsable then scan.add region.base region.length else scan

def readMemoryMap : BootSource → Outcome FirmwareError (Nat × Nat)
  | .bootloader handoffPtr handoff =>
    match bootHandoff handoffPtr handoff with
    | none => .err (.bootFailure "boot handoff missing or invalid")
    | some handoff =>
      if handoff.memoryRegionsPtr = 0 ∨ handoff.memoryRegions.length = 0 then
        .err (.bootFailure "boot handoff memory map empty")
      else
        let scan := handoff.memoryRegions.foldl RamScan.addRegion {}
        if scan.baseSet = false then
          .err (.bootFailure "boot handoff has no usable RAM above 1 MiB")
        else .ok (scan.memoryBase, scan.totalMemory)
  | .multiboot infoPtr memory =>
    if infoPtr = 0 then .err (.bootFailure "multiboot info pointer missing")
    else if readU32LE memory infoPtr &&& (1 <<< 6) = 0 then
      .err (.bootFailure "multiboot memory map unavailable")
    else match parseMemoryMap (mmapBytes infoPtr memory) with
      | .ok info => .ok (info.memoryBase, info.totalMemory)
      | .err e => .err e
      | .panic => .panic

variable {scan : RamScan} {fuel : Nat} {entries : List MmapEntry}

section

structure MmapEntry.Fits (entry : MmapEntry) : Prop where
  base : entry.base < wordBound
  length : entry.length < wordBound
  kind : entry.kind < 2 ^ 32

def MmapEntry.encode (entry : MmapEntry) (extra : List Byte) : List Byte :=
  toLE 4 (20 + extra.length) ++ (toLE 8 entry.base ++ (toLE 8 entry.length ++
    (toLE 4 entry.kind ++ extra)))

/-- The bytes are a memory map with these entries; fewer than four bytes may be left over. -/
inductive Listing : List Byte → List MmapEntry → Prop
  | done {tail : List Byte} : tail.length < 4 → Listing tail []
  | entry {entry : MmapEntry} {extra tail : List Byte} {entries : List MmapEntry} :
      entry.Fits → 20 + extra.length < 2 ^ 32 → Listing tail entries →
      Listing (entry.encode extra ++ tail) (entry :: entries)

theorem MmapEntry.encode_length (entry : MmapEntry) (extra : List Byte) :
    (entry.encode extra).length = 24 + extra.length := by
  simp only [MmapEntry.encode, length_append, toLE_length]
  omega

variable {r r' : ByteReader} {entry : MmapEntry} {extra tail : List Byte}

private theorem skipExtra_run (entrySize : Nat) (enough : entrySize - 20 ≤ r.rest.length) :
    ∃ r', skipExtra entrySize r = (.ok (), r') ∧ r'.rest = r.rest.drop (entrySize - 20) := by
  unfold skipExtra
  split
  · refine ⟨r.skip (entrySize - 20), ?_, rest_skip _ _⟩
    rw [bind_run, attempt, getSlice_of_le enough]
    rfl
  · rename_i hexact
    refine ⟨r, rfl, ?_⟩
    rw [Nat.sub_eq_zero_of_le (not_lt.mp hexact), drop_zero]

theorem parseEntry_run (fits : entry.Fits) (size : 20 + extra.length < 2 ^ 32)
    (next : r.rest = entry.encode extra ++ tail) :
    ∃ r', parseEntry r = (.ok entry, r') ∧ r'.rest = tail := by
  simp only [MmapEntry.encode, append_assoc] at next
  obtain ⟨hsize, hrest1⟩ := getLE_run (lt_u32_iff.mpr size) next
  obtain ⟨hbase, hrest2⟩ := getLE_run (lt_u64_iff.mpr fits.base) hrest1
  obtain ⟨hlength, hrest3⟩ := getLE_run (lt_u64_iff.mpr fits.length) hrest2
  obtain ⟨hkind, hrest4⟩ := getLE_run (lt_u32_iff.mpr fits.kind) hrest3
  have hleft : ¬ (r.skip 4).remaining < 20 + extra.length := by
    rw [remaining_eq, hrest1]
    simp only [length_append, toLE_length]
    omega
  obtain ⟨r', hskip, hrest⟩ := skipExtra_run (20 + extra.length)
    (r := (((r.skip 4).skip 8).skip 8).skip 4) (by simp [hrest4])
  refine ⟨r', ?_, by rw [hrest, hrest4, Nat.add_sub_cancel_left, drop_left]⟩
  rw [parseEntry, bind_ok (mapErr_ok hsize),
    bind_ok (rejectIf_neg (by omega) _ _), bind_ok (gets_run _ _),
    bind_ok (rejectIf_neg hleft _ _), bind_ok (mapErr_ok hbase),
    bind_ok (mapErr_ok hlength), bind_ok (mapErr_ok hkind), bind_ok hskip]
  rfl

theorem parseEntry_ok (h : parseEntry r = (.ok entry, r')) :
    entry.Fits ∧ ∃ extra, 20 + extra.length < 2 ^ 32 ∧ r.rest = entry.encode extra ++ r'.rest := by
  obtain ⟨entrySize, r1, hsize, h⟩ := of_bind_ok h
  obtain ⟨hmin, h⟩ := of_rejectIf_bind_ok h
  obtain ⟨henough, h⟩ := of_rejectIf_bind_ok h
  obtain ⟨base, r2, hbase, h⟩ := of_bind_ok h
  obtain ⟨length, r3, hlength, h⟩ := of_bind_ok h
  obtain ⟨kind, r4, hkind, h⟩ := of_bind_ok h
  obtain ⟨_, r5, hskip, h⟩ := of_bind_ok h
  obtain ⟨hentry, rfl⟩ := Prod.mk.inj h
  obtain ⟨hsizeLt, -, hrest1⟩ := getLE_ok (of_mapErr_ok hsize)
  obtain ⟨hbaseLt, -, hrest2⟩ := getLE_ok (of_mapErr_ok hbase)
  obtain ⟨hlengthLt, -, hrest3⟩ := getLE_ok (of_mapErr_ok hlength)
  obtain ⟨hkindLt, -, hrest4⟩ := getLE_ok (of_mapErr_ok hkind)
  obtain rfl := Outcome.ok.inj hentry
  have hextra : entrySize - 20 ≤ r4.rest.length := by
    rw [remaining_eq, hrest2, hrest3, hrest4] at henough
    simp only [length_append, toLE_length] at henough
    omega
  obtain ⟨r', hskip', hrest⟩ := skipExtra_run _ hextra
  rw [hskip] at hskip'
  obtain ⟨-, rfl⟩ := Prod.mk.inj hskip'
  refine ⟨⟨lt_u64_iff.mp hbaseLt, lt_u64_iff.mp hlengthLt, lt_u32_iff.mp hkindLt⟩,
    r4.rest.take (entrySize - 20), ?_, ?_⟩
  · simp only [length_take, min_eq_left hextra]
    have hlt : entrySize < 2 ^ 32 := lt_u32_iff.mp hsizeLt
    omega
  · have hlen : 20 + (r4.rest.take (entrySize - 20)).length = entrySize := by
      rw [length_take, min_eq_left hextra]
      omega
    simp only [MmapEntry.encode, hlen, append_assoc]
    rw [hrest, take_append_drop, ← hrest4, ← hrest3, ← hrest2, ← hrest1]

private theorem parseLoop_more (more : 4 ≤ r.rest.length) : parseLoop (fuel + 1) scan r =
      (parseEntry >>= fun entry => parseLoop fuel (scan.addEntry entry)) r := by
  rw [parseLoop, bind_ok (gets_run _ _), if_pos (by rwa [remaining_eq])]

private theorem parseLoop_done (done : r.rest.length < 4) :
    parseLoop (fuel + 1) scan r = (.ok scan, r) := by
  rw [parseLoop, bind_ok (gets_run _ _), if_neg (by rwa [remaining_eq, not_le])]
  rfl

theorem parseLoop_run {bytes : List Byte} (listing : Listing bytes entries) :
    ∀ {r : ByteReader} (fuel : Nat) (scan : RamScan), r.rest = bytes → bytes.length < fuel →
      ∃ r', parseLoop fuel scan r = (.ok (entries.foldl RamScan.addEntry scan), r') := by
  induction listing with
  | done short =>
    intro r fuel scan hrest hfuel
    obtain ⟨fuel, rfl⟩ := exists_eq_succ_of_ne_zero (ne_zero_of_lt hfuel)
    exact ⟨r, parseLoop_done (by rwa [hrest])⟩
  | @entry entry extra tail entries fits size listing ih =>
    intro r fuel scan hrest hfuel
    obtain ⟨fuel, rfl⟩ := exists_eq_succ_of_ne_zero (ne_zero_of_lt hfuel)
    rw [length_append, entry.encode_length] at hfuel
    obtain ⟨r1, hentry, hrest1⟩ := parseEntry_run fits size hrest
    have hmore : 4 ≤ r.rest.length := by
      rw [hrest, length_append, entry.encode_length]
      omega
    obtain ⟨r', hloop⟩ := ih fuel (scan.addEntry entry) hrest1 (by omega)
    exact ⟨r', by rw [parseLoop_more hmore, bind_ok hentry, hloop, foldl_cons]⟩

theorem parseLoop_ok {info : RamScan} (h : parseLoop fuel scan r = (.ok info, r')) :
    ∃ entries, Listing r.rest entries ∧ info = entries.foldl RamScan.addEntry scan := by
  induction fuel generalizing r scan with
  | zero => cases h
  | succ fuel ih =>
    by_cases hmore : 4 ≤ r.rest.length
    · rw [parseLoop_more hmore] at h
      obtain ⟨entry, r1, hentry, h⟩ := of_bind_ok h
      obtain ⟨fits, extra, size, hrest⟩ := parseEntry_ok hentry
      obtain ⟨entries, listing, hinfo⟩ := ih h
      exact ⟨entry :: entries, hrest ▸ .entry fits size listing, hinfo⟩
    · rw [parseLoop_done (not_le.mp hmore)] at h
      obtain ⟨hinfo, -⟩ := Prod.mk.inj h
      exact ⟨[], .done (not_le.mp hmore), (Outcome.ok.inj hinfo).symm⟩

theorem parseMemoryMap_eq_ok_iff {mmap : List Byte} {info : RamScan} :
    parseMemoryMap mmap = .ok info ↔
      ∃ entries, Listing mmap entries ∧ info = entries.foldl RamScan.addEntry {} := by
  unfold parseMemoryMap
  constructor
  · intro h
    exact parseLoop_ok (r := ByteReader.new mmap) (Prod.ext h rfl)
  · rintro ⟨entries, listing, rfl⟩
    obtain ⟨r', h⟩ := parseLoop_run listing (r := ByteReader.new mmap) _ {} rfl (lt_add_one _)
    rw [h]

end

variable {source : BootSource}

structure RamScan.Bounded (scan : RamScan) : Prop where
  base : scan.memoryBase < wordBound
  total : scan.totalMemory < wordBound

theorem RamScan.Bounded.add (bounded : scan.Bounded) {base : Nat} (length : Nat)
    (hbase : base < wordBound) : (scan.add base length).Bounded := by
  have htotal : saturatingAdd scan.totalMemory length < wordBound := by
    unfold saturatingAdd
    omega
  unfold RamScan.add
  dsimp only
  split
  · exact ⟨hbase, htotal⟩
  · exact ⟨bounded.base, htotal⟩

private theorem bounded_initial : ({} : RamScan).Bounded := ⟨by decide, by decide⟩

private theorem bounded_regions (regions : List BootMemoryRegion) :
    ∀ scan : RamScan, scan.Bounded → (regions.foldl RamScan.addRegion scan).Bounded := by
  induction regions with
  | nil => exact fun _ bounded => bounded
  | cons region rest ih =>
    intro scan bounded
    refine ih _ ?_
    unfold RamScan.addRegion
    split
    · exact bounded.add _ region.base_lt
    · exact bounded

private theorem bounded_listing {bytes : List Byte} (listing : Listing bytes entries) :
    ∀ scan : RamScan, scan.Bounded → (entries.foldl RamScan.addEntry scan).Bounded := by
  induction listing with
  | done _ => exact fun _ bounded => bounded
  | entry fits _ _ ih =>
    intro scan bounded
    refine ih _ ?_
    unfold RamScan.addEntry
    split
    · exact bounded.add _ fits.base
    · exact bounded

theorem readMemoryMap_lt {base total : Nat}
    (h : readMemoryMap source = .ok (base, total)) : base < wordBound ∧ total < wordBound := by
  cases source with
  | bootloader handoffPtr handoff =>
    simp only [readMemoryMap] at h
    split at h
    · cases h
    · rename_i handoff' _
      have hbounded := bounded_regions handoff'.memoryRegions {} bounded_initial
      split at h
      · cases h
      · split at h
        · cases h
        · obtain ⟨rfl, rfl⟩ := Prod.mk.inj (Outcome.ok.inj h)
          exact ⟨hbounded.base, hbounded.total⟩
  | multiboot infoPtr memory =>
    simp only [readMemoryMap] at h
    split at h
    · cases h
    · split at h
      · cases h
      · split at h
        · rename_i info hparse
          obtain ⟨entries, listing, rfl⟩ := parseMemoryMap_eq_ok_iff.mp hparse
          have hbounded := bounded_listing listing {} bounded_initial
          obtain ⟨rfl, rfl⟩ := Prod.mk.inj (Outcome.ok.inj h)
          exact ⟨hbounded.base, hbounded.total⟩
        · cases h
        · cases h

def bootImageRegions (source : BootSource) : Outcome FirmwareError (List MemoryRegion) :=
  match h : readMemoryMap source with
  | .ok (memoryBase, memoryLength) =>
    .ok [⟨memoryBase, memoryLength, .usable, (readMemoryMap_lt h).1, (readMemoryMap_lt h).2⟩]
  | .err e => .err e
  | .panic => .panic

theorem bootImageRegions_eq (region : MemoryRegion) (usable : region.kind = .usable)
    (h : readMemoryMap source = .ok (region.base, region.length)) :
    bootImageRegions source = .ok [region] := by
  unfold bootImageRegions
  split
  · rename_i hread
    rw [hread] at h
    obtain ⟨hbase, hlength⟩ := Prod.mk.inj (Outcome.ok.inj h)
    cases region
    simp_all
  · simp_all
  · simp_all

theorem bootImageRegions_ok {handed : List MemoryRegion}
    (h : bootImageRegions source = .ok handed) :
    ∃ region : MemoryRegion, handed = [region] ∧ region.kind = .usable ∧
      readMemoryMap source = .ok (region.base, region.length) := by
  unfold bootImageRegions at h
  split at h
  · rename_i hread
    exact ⟨_, (Outcome.ok.inj h).symm, rfl, hread⟩
  · cases h
  · cases h

end CibosPlatform.Firmware.MemoryMap
