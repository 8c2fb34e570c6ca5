/- source: shared/src/protocols/handoff.rs
   digest: The record the firmware writes and the kernel reads when control is transferred. -/

import CibosPlatform.Shared.Config
import CibosPlatform.Shared.Hardware

namespace CibosPlatform.Shared.Handoff

open Core.MachineWord Config Error Hardware Serialization
open List hiding Vector

def handoffMagic : Nat := 0x48424943

def handoffVersion : Nat := 1

def maxMemoryRegions : Nat := 64

abbrev EntropySeed := Vector (BitVec 8) 32

@[ext] structure HandoffMemoryRegion where
  base : Nat
  length : Nat
  kind : Nat
  base_lt : base < wordBound := by decide
  length_lt : length < wordBound := by decide

instance : DecidableEq HandoffMemoryRegion := fun _ _ => decidable_of_iff' _ HandoffMemoryRegion.ext_iff

namespace HandoffMemoryRegion

def zero : HandoffMemoryRegion := ⟨0, 0, 0, by decide, by decide⟩

def fromRegion (region : MemoryRegion) : HandoffMemoryRegion :=
  ⟨region.base, region.length, asU32 region.kind, region.base_lt, region.length_lt⟩

def toRegion (region : HandoffMemoryRegion) : Except ProtocolError MemoryRegion :=
  match tryFrom region.kind with
  | .ok kind => .ok ⟨region.base, region.length, kind, region.base_lt, region.length_lt⟩
  | .error _ => .error (.handoffRejected "invalid memory region kind")

end HandoffMemoryRegion

structure HandoffData where
  magic : Nat
  version : Nat
  architecture : Nat
  platform : Nat
  cibiosProfile : Nat
  cibosProfile : Nat
  handoffMode : Nat
  physicalCores : Nat
  logicalCores : Nat
  smtEnabled : Nat
  totalMemory : Nat
  memoryRegionCount : Nat
  memoryRegions : List HandoffMemoryRegion
  entropySeed : EntropySeed
  capacity : memoryRegions.length = maxMemoryRegions

structure DecodedHandoff where
  architecture : ProcessorArchitecture
  platform : HardwarePlatform
  cibiosProfile : CibiosProfile
  cibosProfile : CibosProfile
  handoffMode : HandoffMode
  topology : CoreTopology
  totalMemory : Nat
  entropySeed : EntropySeed

def fillSlots : List HandoffMemoryRegion → List MemoryRegion → List HandoffMemoryRegion
  | [], _ => []
  | slots, [] => slots
  | _ :: slots, region :: regions => HandoffMemoryRegion.fromRegion region :: fillSlots slots regions

variable (slots : List HandoffMemoryRegion) (regions : List MemoryRegion)

theorem fillSlots_length : (fillSlots slots regions).length = slots.length := by
  induction slots generalizing regions with
  | nil => rfl
  | cons slot slots ih =>
    cases regions with
    | nil => rfl
    | cons region regions => simp [fillSlots, ih]

theorem fillSlots_take (room : regions.length ≤ slots.length) :
    (fillSlots slots regions).take regions.length = regions.map HandoffMemoryRegion.fromRegion := by
  induction slots generalizing regions with
  | nil => simp [eq_nil_of_length_eq_zero (Nat.le_zero.mp room)]
  | cons slot slots ih =>
    cases regions with
    | nil => rfl
    | cons region regions => simp [fillSlots, ih regions (by simpa using room)]

/-- Every failed conversion of a field is reported as a rejected handoff. -/
def rejected {ε α : Type} (detail : String) (result : Except ε α) : Except ProtocolError α :=
  result.mapError fun _ => .handoffRejected detail

namespace HandoffData

def new (architecture : ProcessorArchitecture) (platform : HardwarePlatform)
    (cibiosProfile : CibiosProfile) (cibosProfile : CibosProfile) (handoffMode : HandoffMode)
    (topology : CoreTopology) (totalMemory : Nat) (regions : List MemoryRegion)
    (entropySeed : EntropySeed) : Except ProtocolError HandoffData :=
  if maxMemoryRegions < regions.length then .error (.handoffRejected "too many memory regions")
  else .ok {
    magic := handoffMagic
    version := handoffVersion
    architecture := asU32 architecture
    platform := asU32 platform
    cibiosProfile := asU32 cibiosProfile
    cibosProfile := asU32 cibosProfile
    handoffMode := asU32 handoffMode
    physicalCores := topology.physicalCores
    logicalCores := topology.logicalCores
    smtEnabled := topology.smtEnabled.toNat
    totalMemory
    memoryRegionCount := regions.length
    memoryRegions := fillSlots (List.replicate maxMemoryRegions HandoffMemoryRegion.zero) regions
    entropySeed
    capacity := by rw [fillSlots_length, List.length_replicate] }

/-- The checks the kernel makes on receipt. The memory map is not among them. -/
def validate (handoff : HandoffData) : Except ProtocolError DecodedHandoff :=
  if handoff.magic ≠ handoffMagic then .error (.handoffRejected "bad magic number")
  else if handoff.version ≠ handoffVersion then
    .error (.versionMismatch handoffVersion handoff.version)
  else if maxMemoryRegions < handoff.memoryRegionCount then
    .error (.handoffRejected "memory region count exceeds capacity")
  else do
    let architecture ← rejected "invalid architecture" (tryFrom handoff.architecture)
    let platform ← rejected "invalid platform" (tryFrom handoff.platform)
    let cibiosProfile ← rejected "invalid cibios profile" (tryFrom handoff.cibiosProfile)
    let cibosProfile ← rejected "invalid cibos profile" (tryFrom handoff.cibosProfile)
    let handoffMode ← rejected "invalid handoff mode" (tryFrom handoff.handoffMode)
    if CibiosProfile.accepts cibiosProfile cibosProfile = false then
      .error (.handoffRejected "incompatible firmware/kernel profile pairing")
    else if CibiosProfile.handoffMode cibiosProfile ≠ handoffMode then
      .error (.handoffRejected "handoff mode does not match firmware profile")
    else do
      let topology ← rejected "inconsistent core topology"
        (CoreTopology.new handoff.physicalCores handoff.logicalCores (handoff.smtEnabled != 0))
      .ok { architecture, platform, cibiosProfile, cibosProfile, handoffMode, topology,
            totalMemory := handoff.totalMemory, entropySeed := handoff.entropySeed }

def typedRegions (handoff : HandoffData) : Except ProtocolError (List MemoryRegion) :=
  if maxMemoryRegions < handoff.memoryRegionCount then
    .error (.handoffRejected "memory region count exceeds capacity")
  else (handoff.memoryRegions.take handoff.memoryRegionCount).mapM HandoffMemoryRegion.toRegion

end HandoffData

theorem toRegion_fromRegion (region : MemoryRegion) :
    (HandoffMemoryRegion.fromRegion region).toRegion = .ok region := by
  simp [HandoffMemoryRegion.toRegion, HandoffMemoryRegion.fromRegion]

section

variable {architecture : ProcessorArchitecture} {platform : HardwarePlatform}
  {cibiosProfile : CibiosProfile} {cibosProfile : CibosProfile} {handoffMode : HandoffMode}
  {topology : CoreTopology} {totalMemory : Nat} {regions : List MemoryRegion}
  {entropySeed : EntropySeed} {handoff : HandoffData}

theorem typedRegions_new (h : HandoffData.new architecture platform cibiosProfile cibosProfile
    handoffMode topology totalMemory regions entropySeed = .ok handoff) :
    handoff.typedRegions = .ok regions := by
  unfold HandoffData.new at h
  split at h
  · cases h
  · rename_i hroom
    obtain rfl := Except.ok.inj h
    simp only [HandoffData.typedRegions, if_neg hroom]
    rw [fillSlots_take _ _ (by simpa using hroom)]
    clear h hroom
    induction regions with
    | nil => rfl
    | cons region regions ih =>
      rw [map_cons, mapM_cons, toRegion_fromRegion, ih]
      rfl

def Consistent (topology : CoreTopology) : Prop :=
  0 < topology.physicalCores ∧ topology.physicalCores ≤ topology.logicalCores ∧
    (topology.smtEnabled = false → topology.logicalCores = topology.physicalCores)

theorem topology_new (topology : CoreTopology) (smt : Nat) (flag : smt = topology.smtEnabled.toNat) :
    (Consistent topology ∧
        CoreTopology.new topology.physicalCores topology.logicalCores (smt != 0) = .ok topology) ∨
      ¬ Consistent topology ∧
        ∃ e, CoreTopology.new topology.physicalCores topology.logicalCores (smt != 0) = .error e := by
  have hflag : (smt != 0) = topology.smtEnabled := by
    rw [flag]
    cases topology.smtEnabled <;> rfl
  rw [hflag, CoreTopology.new]
  unfold Consistent
  split
  · exact .inr ⟨by omega, _, rfl⟩
  · split
    · exact .inr ⟨by omega, _, rfl⟩
    · split
      · rename_i hsmt
        exact .inr ⟨fun h => hsmt.2 (h.2.2 hsmt.1), _, rfl⟩
      · rename_i hphysical hlogical hsmt
        exact .inl ⟨⟨by omega, by omega, fun h => not_not.mp fun hne => hsmt ⟨h, hne⟩⟩, rfl⟩

theorem validate_new (h : HandoffData.new architecture platform cibiosProfile cibosProfile handoffMode
    topology totalMemory regions entropySeed = .ok handoff) (d : DecodedHandoff) :
    handoff.validate = .ok d ↔
      (cibiosProfile.accepts cibosProfile = true ∧ cibiosProfile.handoffMode = handoffMode ∧
        Consistent topology) ∧
      d = ⟨architecture, platform, cibiosProfile, cibosProfile, handoffMode, topology, totalMemory,
        entropySeed⟩ := by
  unfold HandoffData.new at h
  split at h
  · cases h
  · rename_i hroom
    obtain rfl := Except.ok.inj h
    have hread {ε α β : Type} (detail : String) (a : α) (f : α → Except ProtocolError β) :
        (rejected detail (.ok a : Except ε α) >>= f) = f a := rfl
    simp only [HandoffData.validate, if_neg hroom, tryFrom_asU32, hread, ne_eq, not_true_eq_false, if_false]
    by_cases haccepts : cibiosProfile.accepts cibosProfile
    · by_cases hmode : cibiosProfile.handoffMode = handoffMode
      · rcases topology_new topology _ rfl with ⟨hgood, htopology⟩ | ⟨hbad, e, htopology⟩
        · rw [htopology, hread]
          simp [haccepts, hmode, hgood, eq_comm]
        · rw [htopology]
          simp [haccepts, hmode, hbad, rejected, Except.mapError, bind, Except.bind]
      · simp [haccepts, hmode]
    · simp [haccepts]

/-- What the firmware puts into a record is what the kernel gets out of it. -/
theorem handoff_round_trip :
    ((∃ e, HandoffData.new architecture platform cibiosProfile cibosProfile handoffMode topology totalMemory
      regions entropySeed = .error e) ↔ maxMemoryRegions < regions.length) ∧
    ∀ handoff, HandoffData.new architecture platform cibiosProfile cibosProfile handoffMode topology
        totalMemory regions entropySeed = .ok handoff →
      ((∃ d, handoff.validate = .ok d) ↔ cibiosProfile.accepts cibosProfile = true ∧
        cibiosProfile.handoffMode = handoffMode ∧ Consistent topology) ∧
      (∀ d, handoff.validate = .ok d → d = ⟨architecture, platform, cibiosProfile, cibosProfile, handoffMode,
        topology, totalMemory, entropySeed⟩) ∧
      handoff.typedRegions = .ok regions := by
  refine ⟨?_, fun handoff h => ?_⟩
  · unfold HandoffData.new
    split
    · rename_i hmany
      exact ⟨fun _ => hmany, fun _ => ⟨_, rfl⟩⟩
    · rename_i hroom
      exact ⟨fun ⟨_, h⟩ => (by cases h), fun hmany => absurd hmany hroom⟩
  · have hvalid := validate_new h
    exact ⟨⟨fun ⟨d, hd⟩ => ((hvalid d).mp hd).1, fun hgood => ⟨_, (hvalid _).mpr ⟨hgood, rfl⟩⟩⟩,
      fun d hd => ((hvalid d).mp hd).2, typedRegions_new h⟩

end

end CibosPlatform.Shared.Handoff
