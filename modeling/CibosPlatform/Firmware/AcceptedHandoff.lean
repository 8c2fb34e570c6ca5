/- source: cibios/src/handoff.rs, cibios/src/detection.rs, cibos-kernel/src/frame.rs
   digest: Which memory maps an accepted handoff can carry, and what the kernel makes of them. -/

import CibosPlatform.Kernel.Frame.Accounting
import CibosPlatform.Shared.Handoff

namespace CibosPlatform.Firmware.AcceptedHandoff

open Core.MachineWord Kernel.Frame.Accounting Kernel.Frame.Allocator Shared Config Error List
open Shared Handoff Hardware Serialization FirmwareError

structure VerifiedImage where
  cibosProfile : Nat

def buildHandoff (firmwareProfile : CibiosProfile) (hardware : HardwareProfile)
    (verified : VerifiedImage) (memoryRegions : List MemoryRegion) (entropySeed : EntropySeed) :
    Except FirmwareError (HandoffData × DecodedHandoff) := do
  let cibosProfile ← (tryFrom verified.cibosProfile).mapError
    fun e => shared (.serialization e)
  let handoff ← (HandoffData.new hardware.architecture hardware.platform firmwareProfile cibosProfile
    firmwareProfile.handoffMode hardware.topology hardware.totalMemory memoryRegions
    entropySeed).mapError fun e => shared (.protocol e)
  let decoded ← handoff.validate.mapError fun e => shared (.protocol e)
  .ok (handoff, decoded)

def boundarySetupFailed (detail : String) : FirmwareError :=
  .shared (.isolation (.boundarySetupFailed detail))

def validateFrom : Option Nat → List MemoryRegion → Except FirmwareError Unit
  | _, [] => .ok ()
  | previousEnd, region :: regions =>
    if region.length = 0 then .error (boundarySetupFailed "zero-length memory region")
    else if wordBound ≤ region.base + region.length then
      .error (boundarySetupFailed "memory region end overflow")
    else if previousEnd.any fun prev => region.base < prev then
      .error (boundarySetupFailed "memory regions overlap or are unsorted")
    else validateFrom (some (region.base + region.length)) regions

def validateMemoryMap (regions : List MemoryRegion) : Except FirmwareError Unit :=
  validateFrom none regions

structure SoundMap (regions : List MemoryRegion) : Prop where
  nonempty : ∀ r ∈ regions, 0 < r.length
  fits : ∀ r ∈ regions, r.EndFits
  sorted : regions.Pairwise fun a b => a.base + a.length ≤ b.base

/-- The handoff carries a sound map: the map passes the check, the kernel reads back the same list,
and on it the frame allocator overflows nowhere and frees only usable frames. -/
structure SoundHandoff (regions : List MemoryRegion) (handoff : HandoffData) : Prop where
  validated : validateMemoryMap regions = .ok ()
  typed : handoff.typedRegions = .ok regions
  ends : ∀ r ∈ regions, ∀ profile, r.endAddr profile = some (r.base + r.length)
  frames : ∀ (profile : BuildProfile) (reservedBelow : Nat),
    ∃ s, fromRegions profile regions reservedBelow = some s ∧
      ∀ f ∈ freeSet s, ∀ r ∈ regions, r.kind ≠ .usable →
        ∀ addr, f * frameSize ≤ addr → addr < (f + 1) * frameSize → ¬ r.Covers addr

variable {regions : List MemoryRegion}

theorem soundMap_cons {region : MemoryRegion} :
    SoundMap (region :: regions) ↔ 0 < region.length ∧ region.EndFits ∧
      (∀ r ∈ regions, region.base + region.length ≤ r.base) ∧ SoundMap regions := by
  constructor
  · intro sound
    obtain ⟨hlength, hnonempty⟩ := forall_mem_cons.mp sound.nonempty
    obtain ⟨hend, hfits⟩ := forall_mem_cons.mp sound.fits
    obtain ⟨hnext, hsorted⟩ := pairwise_cons.mp sound.sorted
    exact ⟨hlength, hend, hnext, hnonempty, hfits, hsorted⟩
  · rintro ⟨hlength, hend, hnext, sound⟩
    exact ⟨forall_mem_cons.mpr ⟨hlength, sound.nonempty⟩,
      forall_mem_cons.mpr ⟨hend, sound.fits⟩, pairwise_cons.mpr ⟨hnext, sound.sorted⟩⟩

private theorem validateFrom_ok_iff (regions : List MemoryRegion) (previousEnd : Option Nat) :
    validateFrom previousEnd regions = .ok () ↔
      SoundMap regions ∧ ∀ prev ∈ previousEnd, ∀ r ∈ regions, prev ≤ r.base := by
  induction regions generalizing previousEnd with
  | nil =>
    have hsound : SoundMap [] := ⟨by simp, by simp, .nil⟩
    simp [validateFrom, hsound]
  | cons region regions ih =>
    rw [validateFrom, soundMap_cons]
    split_ifs with hempty hoverflow hlow
    · simp [hempty]
    · have hends : ¬ region.EndFits := not_lt.mpr hoverflow
      simp [hends]
    · obtain ⟨prev, hprev, hlt⟩ := (Option.any_eq_true _ _).mp hlow
      simp only [false_iff, not_and]
      intro _ hall
      have hle := hall prev hprev region mem_cons_self
      simp only [decide_eq_true_eq] at hlt
      omega
    · have hbase : ∀ prev ∈ previousEnd, prev ≤ region.base := by
        intro prev hprev
        rw [Option.any_eq_true] at hlow
        by_contra hlt
        exact hlow ⟨prev, hprev, decide_eq_true (by omega)⟩
      rw [ih]
      constructor
      · rintro ⟨sound, hnext⟩
        have hnext := hnext _ rfl
        refine ⟨⟨Nat.pos_of_ne_zero hempty, not_le.mp hoverflow, hnext, sound⟩, ?_⟩
        intro prev hprev r hr
        have hle := hbase prev hprev
        rcases mem_cons.mp hr with rfl | hr
        · exact hle
        · have hlater := hnext r hr
          omega
      · rintro ⟨⟨-, -, hnext, sound⟩, -⟩
        refine ⟨sound, fun prev hprev => ?_⟩
        obtain rfl := Option.some.inj hprev
        exact hnext

theorem validateMemoryMap_ok_iff : validateMemoryMap regions = .ok () ↔ SoundMap regions := by
  rw [validateMemoryMap, validateFrom_ok_iff]
  simp

private theorem of_mapError_bind_ok {ε ε' α β : Type} {x : Except ε α} {g : ε → ε'}
    {f : α → Except ε' β} {b : β} (h : (x.mapError g >>= f) = .ok b) :
    ∃ a, x = .ok a ∧ f a = .ok b := by
  cases x with
  | error e => cases h
  | ok a => exact ⟨a, rfl, h⟩

theorem buildHandoff_ok {firmwareProfile : CibiosProfile} {hardware : HardwareProfile}
    {verified : VerifiedImage} {entropySeed : EntropySeed} {handoff : HandoffData} {decoded : DecodedHandoff}
    (h : buildHandoff firmwareProfile hardware verified regions entropySeed = .ok (handoff, decoded)) :
    handoff.validate = .ok decoded ∧ handoff.typedRegions = .ok regions := by
  obtain ⟨cibosProfile, -, h⟩ := of_mapError_bind_ok h
  obtain ⟨handoff', hnew, h⟩ := of_mapError_bind_ok h
  obtain ⟨decoded', hvalid, h⟩ := of_mapError_bind_ok h
  obtain ⟨rfl, rfl⟩ := Prod.mk.inj (Except.ok.inj h)
  exact ⟨hvalid, typedRegions_new hnew⟩

private theorem SoundMap.free_apart (sound : SoundMap regions) (profile : BuildProfile) (reservedBelow : Nat) :
    ∃ s, fromRegions profile regions reservedBelow = some s ∧
      ∀ f ∈ freeSet s, ∀ r ∈ regions, r.kind ≠ .usable →
        ∀ addr, f * frameSize ≤ addr → addr < (f + 1) * frameSize → ¬ r.Covers addr := by
  obtain ⟨s, hbuilt, -, -, -, havailable⟩ :=
    fromRegions_spec profile regions reservedBelow fun r hr _ => sound.fits r hr
  refine ⟨s, hbuilt, ?_⟩
  intro f hf r hr hother addr hlow hhigh hcovers
  obtain ⟨-, q, hq, husable, hbase, hend⟩ := (havailable f).mp hf
  have hapart : q.base + q.length ≤ r.base ∨ r.base + r.length ≤ q.base := by
    have hne : q ≠ r := by
      rintro rfl
      exact hother husable
    have hsym : regions.Pairwise fun a b =>
        a.base + a.length ≤ b.base ∨ b.base + b.length ≤ a.base :=
      sound.sorted.imp fun h => .inl h
    have : Std.Symm fun a b : MemoryRegion =>
        a.base + a.length ≤ b.base ∨ b.base + b.length ≤ a.base := ⟨fun _ _ h => h.symm⟩
    exact hsym.forall hq hr hne
  unfold MemoryRegion.Covers at hcovers
  omega

/-- An accepted handoff carries a sound map exactly when the regions it was built from are sound:
nothing between the firmware's map and the allocator checks it. -/
theorem accepted_handoff_sound_iff (firmwareProfile : CibiosProfile) (hardware : HardwareProfile)
    (verified : VerifiedImage) (regions : List MemoryRegion) (entropySeed : EntropySeed)
    (handoff : HandoffData) (decoded : DecodedHandoff)
    (accepted : buildHandoff firmwareProfile hardware verified regions entropySeed =
      .ok (handoff, decoded)) :
    SoundHandoff regions handoff ↔ SoundMap regions := by
  constructor
  · intro sound
    exact validateMemoryMap_ok_iff.mp sound.validated
  · intro sound
    exact ⟨validateMemoryMap_ok_iff.mpr sound, (buildHandoff_ok accepted).2,
      fun r hr profile => r.endAddr_eq profile (sound.fits r hr), sound.free_apart⟩

theorem accepted_handoff_sound_two_regions : ∃ handoff decoded,
      buildHandoff .standard ⟨.x86_64, .desktop, ⟨4, 4, false⟩, 0x1000000⟩ ⟨2⟩
        [⟨0, 0x100000, .firmwareReserved, by decide, by decide⟩,
          ⟨0x100000, 0x1000000, .usable, by decide, by decide⟩] (Vector.replicate 32 7) =
        .ok (handoff, decoded) ∧
      SoundHandoff [⟨0, 0x100000, .firmwareReserved, by decide, by decide⟩,
          ⟨0x100000, 0x1000000, .usable, by decide, by decide⟩] handoff :=
  ⟨_, _, rfl, (accepted_handoff_sound_iff .standard ⟨.x86_64, .desktop, ⟨4, 4, false⟩, 0x1000000⟩ ⟨2⟩
    _ (Vector.replicate 32 7) _ _ rfl).mpr ⟨by decide, by decide, by decide⟩⟩

/-- A device window inside usable memory is accepted, fails the check nobody runs, and its frame is
handed to the kernel as free. -/
theorem overlapping_map_accepted : ∃ handoff decoded,
      buildHandoff .standard ⟨.x86_64, .desktop, ⟨4, 4, false⟩, 0x200000⟩ ⟨2⟩
        [⟨0, 0x200000, .usable, by decide, by decide⟩,
          ⟨0x100000, 0x1000, .deviceMmio, by decide, by decide⟩] (Vector.replicate 32 7) =
        .ok (handoff, decoded) ∧
      ¬ SoundHandoff [⟨0, 0x200000, .usable, by decide, by decide⟩,
          ⟨0x100000, 0x1000, .deviceMmio, by decide, by decide⟩] handoff ∧
      ∃ s, fromRegions .release [⟨0, 0x200000, .usable, by decide, by decide⟩,
            ⟨0x100000, 0x1000, .deviceMmio, by decide, by decide⟩] 0 = some s ∧
        0x100 ∈ freeSet s := by
  refine ⟨_, _, rfl, fun sound => ?_, ?_⟩
  · have hsound := validateMemoryMap_ok_iff.mp sound.validated
    exact absurd hsound.sorted (by decide)
  · obtain ⟨s, hbuilt, -, -, -, havailable⟩ := fromRegions_spec .release
      [⟨0, 0x200000, .usable, by decide, by decide⟩,
        ⟨0x100000, 0x1000, .deviceMmio, by decide, by decide⟩] 0 (by decide)
    exact ⟨s, hbuilt, (havailable 0x100).mpr ⟨by decide, _, mem_cons_self, rfl, by decide⟩⟩

end CibosPlatform.Firmware.AcceptedHandoff
