/- source: cibos-kernel/src/frame.rs
   digest: Over any run of calls no frame is out twice and the counters agree with the bitmap. -/

import CibosPlatform.Kernel.Frame.Accounting
import Mathlib.Logic.Relation

namespace CibosPlatform.Kernel.Frame.Exclusivity

open Core.MachineWord Shared.Hardware Allocator Accounting Finset

structure Ledger where
  alloc : AllocState
  out : Finset Nat
  issued : Finset Nat

inductive Step : Ledger → Ledger → Prop
  | allocated {L : Ledger} {frame : PhysFrame} {s' : AllocState} :
      allocate L.alloc = (.ok frame, s') →
      Step L ⟨s', insert frame.index L.out, insert frame.index L.issued⟩
  | refused {L : Ledger} {e : KernelError} {s' : AllocState} :
      allocate L.alloc = (.err e, s') → Step L ⟨s', L.out, L.issued⟩
  | allocatedRun {L : Ledger} {n : Nat} {frame : PhysFrame} {s' : AllocState} :
      allocateContiguous n L.alloc = (.ok frame, s') →
      Step L ⟨s', L.out ∪ Finset.Ico frame.index (frame.index + max n 1),
        L.issued ∪ Finset.Ico frame.index (frame.index + max n 1)⟩
  | refusedRun {L : Ledger} {n : Nat} {e : KernelError} {s' : AllocState} :
      allocateContiguous n L.alloc = (.err e, s') → Step L ⟨s', L.out, L.issued⟩
  | freed {L : Ledger} {frame : PhysFrame} {s' : AllocState} :
      frame.index ∈ L.issued → free frame L.alloc = (.ok (), s') →
      Step L ⟨s', L.out.erase frame.index, L.issued⟩

structure Exclusive (regions : List MemoryRegion) (reservedBelow : Nat) (L : Ledger) : Prop where
  fresh : ∀ frame s', allocate L.alloc = (.ok frame, s') → frame.index ∉ L.out
  freshRun : ∀ n frame s', allocateContiguous n L.alloc = (.ok frame, s') →
    ∀ i < max n 1, frame.index + i ∉ L.out
  inside : ∀ f ∈ L.issued, reservedBelow ≤ f * frameSize ∧
    ∃ r ∈ regions, r.kind = .usable ∧ FrameInside r f
  accounted : ∃ n, freeFrames L.alloc = some n ∧ L.alloc.allocated + n = L.alloc.frameCount
  failsExactly : (∃ e s', allocate L.alloc = (.err e, s')) ↔ freeFrames L.alloc = some 0

/-- The invariant of a run from `s0`: its free frames less those out are free, and the hint stays
within the covered frames or where it started. -/
structure Inv (s0 : AllocState) (L : Ledger) : Prop where
  wf : Wf L.alloc
  covers : L.alloc.frameCount = s0.frameCount
  hint : L.alloc.nextHint ≤ max s0.frameCount s0.nextHint
  free_iff : ∀ f, f ∈ freeSet L.alloc ↔ f ∈ freeSet s0 ∧ f ∉ L.out
  issued_free : ∀ f ∈ L.issued, f ∈ freeSet s0

variable {s0 : AllocState}

theorem Inv.initial (wf : Wf s0) : Inv s0 ⟨s0, ∅, ∅⟩ where
  wf := wf
  covers := rfl
  hint := le_max_right _ _
  free_iff := by simp
  issued_free := by simp

private theorem Inv.took {s' : AllocState} {L : Ledger} {F : Finset Nat} (inv : Inv s0 L)
    (took : Took L.alloc s' F) (hint : s'.nextHint ≤ max s0.frameCount s0.nextHint) :
    Inv s0 ⟨s', L.out ∪ F, L.issued ∪ F⟩ where
  wf := took.wf inv.wf
  covers := took.frameCount_eq.trans inv.covers
  hint := hint
  free_iff := by
    intro f
    simp only [took.freeSet_eq, mem_sdiff, inv.free_iff, mem_union]
    tauto
  issued_free := by
    intro f hf
    rcases mem_union.mp hf with hf | hf
    · exact inv.issued_free f hf
    · exact ((inv.free_iff f).mp (took.subset hf)).1

theorem Inv.step {L L' : Ledger} (inv : Inv s0 L) (step : Step L L') : Inv s0 L' := by
  have hcovers := inv.covers
  have hhint := inv.hint
  cases step with
  | allocated hcall =>
    obtain ⟨hf, took, hnext⟩ := allocate_ok inv.wf hcall
    have hlt := (mem_freeSet.mp hf).1
    have h := inv.took took (by omega)
    rwa [union_singleton, union_singleton] at h
  | refused hcall =>
    obtain ⟨rfl, -⟩ := allocate_err inv.wf hcall
    exact inv
  | allocatedRun hcall =>
    obtain ⟨took, hnext⟩ := allocateContiguous_ok inv.wf hcall
    exact inv.took took (by omega)
  | refusedRun hcall =>
    obtain rfl := allocateContiguous_err inv.wf hcall
    exact inv
  | @freed frame _ hissued hcall =>
    have hsource := inv.issued_free frame.index hissued
    rcases free_cases inv.wf frame with ⟨s', hrun, gave, hnext, -⟩ | ⟨hnoop, hrun⟩
    · rw [hrun] at hcall
      obtain ⟨-, rfl⟩ := Prod.mk.inj hcall
      refine ⟨gave.wf inv.wf, gave.frameCount_eq.trans hcovers, ?_, ?_, inv.issued_free⟩
      · change s'.nextHint ≤ _
        omega
      intro f
      simp only [gave.freeSet_eq, mem_insert, inv.free_iff, mem_erase]
      by_cases he : f = frame.index
      · simp [he, hsource]
      · simp [he]
    · rw [hrun] at hcall
      obtain ⟨-, rfl⟩ := Prod.mk.inj hcall
      have hfree : frame.index ∈ freeSet L.alloc := by
        rcases hnoop with hge | hfree
        · have := (mem_freeSet.mp hsource).1
          omega
        · exact hfree
      refine ⟨inv.wf, hcovers, hhint, ?_, inv.issued_free⟩
      intro f
      rw [inv.free_iff, mem_erase]
      by_cases he : f = frame.index
      · have := ((inv.free_iff f).mp (he ▸ hfree)).2
        simp [he, he ▸ this]
      · simp [he]

theorem Inv.run {L L' : Ledger} (inv : Inv s0 L) (run : Relation.ReflTransGen Step L L') : Inv s0 L' := by
  induction run with
  | refl => exact inv
  | tail _ step ih => exact ih.step step

theorem Inv.exclusive {regions : List MemoryRegion} {reservedBelow : Nat} {L : Ledger} (inv : Inv s0 L)
    (available : ∀ f, f ∈ freeSet s0 ↔ Available regions reservedBelow f)
    (reach : L.alloc.nextHint ≤ L.alloc.bitmap.length * 64) : Exclusive regions reservedBelow L where
  fresh := by
    intro frame s' hcall
    exact ((inv.free_iff _).mp (allocate_ok inv.wf hcall).1).2
  freshRun := by
    intro n frame s' hcall i hi
    have took := (allocateContiguous_ok inv.wf hcall).1
    exact ((inv.free_iff _).mp (took.subset (mem_Ico.mpr ⟨by omega, by omega⟩))).2
  inside := by
    intro f hf
    obtain ⟨hlow, hregion⟩ := (available f).mp (inv.issued_free f hf)
    exact ⟨(divCeil_le_iff (by decide) f).mp hlow, hregion⟩
  accounted := ⟨_, freeFrames_eq inv.wf, inv.wf.counted⟩
  failsExactly := by
    rw [freeFrames_eq inv.wf, Option.some.injEq, card_eq_zero]
    rcases allocate_cases inv.wf with ⟨f, s', hf, hrun, -⟩ | ⟨hfree, -, hrun⟩ | ⟨-, hfar, -⟩
    · have hne : freeSet L.alloc ≠ ∅ := ne_empty_of_mem hf
      simp [hrun, hne]
    · simp [hrun, hfree]
    · omega

section

variable {profile : BuildProfile} {regions : List MemoryRegion} {reservedBelow : Nat}
variable {s : AllocState}

variable (wf : Wf s) (count : s.frameCount = maxUsableEnd regions / frameSize)
  (hint : s.nextHint = divCeil reservedBelow frameSize)
  (available : ∀ f, f ∈ freeSet s ↔ Available regions reservedBelow f)

include wf count hint available

private theorem initial_not_exclusive (above : maxUsableEnd regions / frameSize * frameSize < reservedBelow)
    (full : 64 ∣ maxUsableEnd regions / frameSize) : ¬ Exclusive regions reservedBelow ⟨s, ∅, ∅⟩ := by
  intro exclusive
  rw [← count] at above full
  obtain ⟨k, hk⟩ := full
  have hlow : s.frameCount < s.nextHint := by
    rw [hint, lt_divCeil_iff (by decide)]
    exact above
  have hempty : freeSet s = ∅ := by
    rw [eq_empty_iff_forall_notMem]
    intro f hf
    have hcov := (mem_freeSet.mp hf).1
    have := ((available f).mp hf).1
    omega
  have hexact : s.bitmap.length * 64 = s.frameCount := by
    rw [wf.words, hk, divCeil]
    omega
  obtain ⟨e, s', herr⟩ := exclusive.failsExactly.mpr (by
    rw [freeFrames_eq wf, hempty]
    rfl)
  rcases allocate_cases wf with ⟨f, _, hf, -⟩ | ⟨-, hnear, -⟩ | ⟨-, -, hpanic⟩
  · rw [hempty] at hf
    cases hf
  · omega
  · rw [hpanic] at herr
    cases herr

private theorem run_exclusive (watermark : reservedBelow ≤ maxUsableEnd regions)
    (reach : reservedBelow ≤ maxUsableEnd regions / frameSize * frameSize ∨
      ¬ 64 ∣ maxUsableEnd regions / frameSize)
    {L : Ledger} (run : Relation.ReflTransGen Step ⟨s, ∅, ∅⟩ L) :
    Exclusive regions reservedBelow L := by
  have hreserved : s.nextHint ≤ s.frameCount + 1 := by
    rw [hint, count, divCeil_le_iff (by decide)]
    simp only [frameSize]
    omega
  have inv := (Inv.initial wf).run run
  refine inv.exclusive available ?_
  have hlen : L.alloc.bitmap.length = s.bitmap.length := by rw [inv.wf.words, inv.covers, wf.words]
  have hcover := wf.frameCount_le
  have hbound := inv.hint
  rw [hlen]
  rcases reach with hle | hdvd
  · have : s.nextHint ≤ s.frameCount := by
      rw [hint, divCeil_le_iff (by decide), count]
      exact hle
    omega
  · have hne : s.bitmap.length * 64 ≠ s.frameCount := fun he =>
      hdvd (by rw [← count]; exact ⟨s.bitmap.length, by omega⟩)
    omega

end

/-- The allocator is exclusive and exact over every run exactly when the watermark stays within the
whole frames below the highest usable end, or the frame count is no multiple of 64. Else no frame is
available and the first `allocate` indexes out of range. -/
theorem frames_exclusive_iff (profile : BuildProfile) (regions : List MemoryRegion)
    (reservedBelow : Nat) (fits : ∀ r ∈ regions, r.EndFits)
    (watermark : reservedBelow ≤ maxUsableEnd regions) :
    (∃ s, fromRegions profile regions reservedBelow = some s ∧
      ∀ L, Relation.ReflTransGen Step ⟨s, ∅, ∅⟩ L → Exclusive regions reservedBelow L) ↔
    (reservedBelow ≤ maxUsableEnd regions / frameSize * frameSize ∨
      ¬ 64 ∣ maxUsableEnd regions / frameSize) := by
  obtain ⟨s, hbuild, wf, hcount, hhint, havailable⟩ :=
    fromRegions_spec profile regions reservedBelow fun r hr _ => fits r hr
  constructor
  · rintro ⟨s', hbuild', hrun⟩
    obtain rfl : s = s' := Option.some.inj (hbuild.symm.trans hbuild')
    by_contra hbad
    rw [not_or, not_le, not_not] at hbad
    exact initial_not_exclusive wf hcount hhint havailable hbad.1 hbad.2 (hrun _ .refl)
  · intro hcond
    exact ⟨s, hbuild, fun L hrun => run_exclusive wf hcount hhint havailable watermark hcond hrun⟩

theorem frames_exclusive_low_memory :
    ∃ s, fromRegions .dev [⟨0, 0x100000, .firmwareReserved, by decide, by decide⟩,
        ⟨0x100000, 0x1000000, .usable, by decide, by decide⟩] 0x200000 = some s ∧
      ∀ L, Relation.ReflTransGen Step ⟨s, ∅, ∅⟩ L →
        Exclusive [⟨0, 0x100000, .firmwareReserved, by decide, by decide⟩,
          ⟨0x100000, 0x1000000, .usable, by decide, by decide⟩] 0x200000 L :=
  (frames_exclusive_iff .dev _ _ (by decide) (by decide)).mpr (Or.inl (by decide))

/-- One usable region of 64 frames and one byte, with everything below its end reserved. -/
theorem watermark_above_last_frame :
    ¬ ∃ s, fromRegions .release [⟨0, 64 * 4096 + 1, .usable, by decide, by decide⟩]
        (64 * 4096 + 1) = some s ∧
      ∀ L, Relation.ReflTransGen Step ⟨s, ∅, ∅⟩ L →
        Exclusive [⟨0, 64 * 4096 + 1, .usable, by decide, by decide⟩] (64 * 4096 + 1) L := by
  obtain ⟨s, hbuild, wf, hcount, hhint, havailable⟩ := fromRegions_spec .release
    [⟨0, 64 * 4096 + 1, .usable, by decide, by decide⟩] (64 * 4096 + 1) (by decide)
  rintro ⟨s', hbuild', hrun⟩
  obtain rfl : s = s' := Option.some.inj (hbuild.symm.trans hbuild')
  exact initial_not_exclusive wf hcount hhint havailable (by decide) (by decide) (hrun _ .refl)

end CibosPlatform.Kernel.Frame.Exclusivity
