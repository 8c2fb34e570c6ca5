/- source: cibos-kernel/src/frame.rs
   digest: When no sequence of calls leaves the bitmap, and first fit for runs of frames. -/

import CibosPlatform.Kernel.Frame.Accounting
import Mathlib.Logic.Relation

namespace CibosPlatform.Kernel.Frame.Safety

open Core MachineWord Program Shared.Hardware Allocator Accounting Relation Finset

/-- A call that returns. Any frame may be freed, also one that was never handed out. -/
inductive Called (s s' : AllocState) : Prop
  | allocate {r : Outcome KernelError PhysFrame} (call : allocate s = (r, s')) (returns : r ≠ .panic)
  | allocateContiguous {n : Nat} {r : Outcome KernelError PhysFrame}
      (call : allocateContiguous n s = (r, s')) (returns : r ≠ .panic)
  | free {frame : PhysFrame} {r : Outcome KernelError Unit} (call : free frame s = (r, s'))
      (returns : r ≠ .panic)

structure Safe (s : AllocState) : Prop where
  allocate : (allocate s).1 ≠ .panic
  allocateContiguous : ∀ n, (allocateContiguous n s).1 ≠ .panic
  free : ∀ frame, (free frame s).1 ≠ .panic
  exhausted : freeFrames s = some 0 → ∃ resource, Allocator.allocate s = (.err (.limitExceeded resource), s)

structure FirstFit (s : AllocState) (n : Nat) : Prop where
  returns : (allocateContiguous n s).1 ≠ .panic
  succeeds : (∃ frame s', allocateContiguous n s = (.ok frame, s')) ↔ ∃ r, FreeRun s n r
  takes : ∀ frame s', allocateContiguous n s = (.ok frame, s') →
    FreeRun s n frame.index ∧ (∀ r < frame.index, ¬ FreeRun s n r) ∧
    (∀ j, WordBitmap.test s'.bitmap j =
      if frame.index ≤ j ∧ j < frame.index + max n 1 then some true else WordBitmap.test s.bitmap j) ∧
    s' = { s with bitmap := s'.bitmap, allocated := s.allocated + max n 1 }
  fails : ∀ e s', allocateContiguous n s = (.err e, s') → s' = s

variable {profile : BuildProfile} {regions : List MemoryRegion} {reservedBelow : Nat} {s0 s s' : AllocState}

/-- The invariant of the calls; the hint starts somewhere and then only moves inside the bitmap. -/
structure Kept (s0 s : AllocState) : Prop where
  wf : Wf s
  covers : s.frameCount = s0.frameCount
  hint : s.nextHint ≤ max s0.frameCount s0.nextHint

theorem Kept.called (h : Kept s0 s) (called : Called s s') : Kept s0 s' := by
  obtain ⟨wf, covers, hint⟩ := h
  cases called with
  | @allocate r call returns =>
    cases r with
    | ok frame =>
      obtain ⟨hfree, took, hnext⟩ := allocate_ok wf call
      have hlt := (mem_freeSet.mp hfree).1
      exact ⟨took.wf wf, took.frameCount_eq.trans covers, by omega⟩
    | err e =>
      obtain ⟨rfl, -⟩ := allocate_err wf call
      exact ⟨wf, covers, hint⟩
    | panic => exact absurd rfl returns
  | @allocateContiguous n r call returns =>
    cases r with
    | ok frame =>
      obtain ⟨took, hnext⟩ := allocateContiguous_ok wf call
      exact ⟨took.wf wf, took.frameCount_eq.trans covers, hnext.trans_le hint⟩
    | err e =>
      obtain rfl := allocateContiguous_err wf call
      exact ⟨wf, covers, hint⟩
    | panic => exact absurd rfl returns
  | @free frame r call returns =>
    rcases free_cases wf frame with ⟨t, hrun, gave, hnext, -⟩ | ⟨-, hrun⟩
    · obtain ⟨-, rfl⟩ := Prod.mk.inj (hrun.symm.trans call)
      exact ⟨gave.wf wf, gave.frameCount_eq.trans covers, by omega⟩
    · obtain ⟨-, rfl⟩ := Prod.mk.inj (hrun.symm.trans call)
      exact ⟨wf, covers, hint⟩

theorem Kept.run (wf : Wf s0) (run : ReflTransGen Called s0 s) : Kept s0 s := by
  induction run with
  | refl => exact ⟨wf, rfl, le_max_right _ _⟩
  | tail _ called ih => exact ih.called called

theorem safe_of_hint (wf : Wf s) (near : s.nextHint ≤ s.bitmap.length * 64) : Safe s where
  allocate := by
    rcases allocate_cases wf with ⟨_, _, _, hrun, _⟩ | ⟨_, _, hrun⟩ | ⟨_, hfar, _⟩
    · simp [hrun]
    · simp [hrun]
    · omega
  allocateContiguous n := by
    rcases allocateContiguous_cases wf n with ⟨_, _, _, hrun, _⟩ | ⟨⟨_, hrun⟩, _⟩ <;> simp [hrun]
  free frame := by rcases free_cases wf frame with ⟨_, hrun, _⟩ | ⟨_, hrun⟩ <;> simp [hrun]
  exhausted hnone := by
    rw [freeFrames_eq wf, Option.some.injEq, card_eq_zero] at hnone
    rcases allocate_cases wf with ⟨f, _, hf, _⟩ | ⟨_, _, hrun⟩ | ⟨_, hfar, _⟩
    · simp [hnone] at hf
    · exact ⟨_, hrun⟩
    · omega

/-- The allocator is safe in every run exactly when the first search starts inside the bitmap or at
its end. Else the first `allocate` reads past the last word. -/
theorem allocator_safe_iff (profile : BuildProfile) (regions : List MemoryRegion) (reservedBelow : Nat)
    (fits : ∀ r ∈ regions, r.EndFits) :
    (∃ s0, fromRegions profile regions reservedBelow = some s0 ∧ ∀ s, ReflTransGen Called s0 s → Safe s) ↔
      divCeil reservedBelow frameSize ≤ divCeil (maxUsableEnd regions / frameSize) 64 * 64 := by
  obtain ⟨s0, hbuild, wf, hcount, hhint, havailable⟩ :=
    fromRegions_spec profile regions reservedBelow fun r hr _ => fits r hr
  rw [← hhint, ← hcount, ← wf.words]
  have hcover := wf.frameCount_le
  constructor
  · rintro ⟨s, hbuild', hsafe⟩
    obtain rfl := Option.some.inj (hbuild.symm.trans hbuild')
    by_contra hfar
    rcases allocate_cases wf with ⟨f, _, hf, _⟩ | ⟨_, hnear, _⟩ | ⟨_, _, hpanic⟩
    · -- a free frame is at or above the watermark, so there is none
      have hlow := ((havailable f).mp hf).1
      have hlt := (mem_freeSet.mp hf).1
      omega
    · exact hfar hnear
    · exact (hsafe _ .refl).allocate (by rw [hpanic])
  · intro hnear
    refine ⟨s0, hbuild, fun s run => ?_⟩
    obtain ⟨wf', hcovers, hbound⟩ := Kept.run wf run
    refine safe_of_hint wf' ?_
    rw [wf'.words, hcovers, ← wf.words]
    omega

theorem allocator_safe_iff_boot :
    ∃ s0, fromRegions .release [⟨0x100000, 0x1000000, .usable, by decide, by decide⟩] 0x200000 = some s0 ∧
      ∀ s, ReflTransGen Called s0 s → Safe s :=
  (allocator_safe_iff .release _ _ (by decide)).mpr (by decide)

/-- No usable memory and one reserved byte. -/
theorem empty_map_leaves_bitmap :
    ¬ ∃ s0, fromRegions .release [] 1 = some s0 ∧ ∀ s, ReflTransGen Called s0 s → Safe s := by
  rintro ⟨s0, hbuild, hsafe⟩
  obtain rfl : (⟨[], 0, 0, 0, 1⟩ : AllocState) = s0 := Option.some.inj hbuild
  exact (hsafe _ .refl).allocate rfl

/-- In every state of an allocator a request for a run is served first fit, and refused only if there is
no such run. -/
theorem contiguous_first_fit (built : fromRegions profile regions reservedBelow = some s0)
    (run : ReflTransGen Called s0 s) (n : Nat) : FirstFit s n := by
  have wf := (Kept.run (fromRegions_wf built) run).wf
  rcases allocateContiguous_cases wf n with ⟨r, t, hend, hrun, hlowest, took, hnext, husable⟩ |
    ⟨⟨resource, hrun⟩, hnone⟩
  · have hfree : FreeRun s n r := fun f hlow hhigh => took.subset (mem_Ico.mpr ⟨hlow, hhigh⟩)
    refine ⟨by simp [hrun], ⟨fun _ => ⟨r, hfree⟩, fun _ => ⟨_, _, hrun⟩⟩, ?_, by simp [hrun]⟩
    intro frame s' call
    obtain ⟨hframe, rfl⟩ := Prod.mk.inj (hrun.symm.trans call)
    obtain rfl := Outcome.ok.inj hframe
    rw [wf.index_fromIndex (by omega)]
    refine ⟨hfree, hlowest, fun j => ?_, ?_⟩
    · rw [took.bits]
      simp only [mem_Ico]
    · obtain ⟨bitmap, frameCount, allocated, usable, nextHint⟩ := t
      have hcount := took.allocated_eq
      rw [Nat.card_Ico, Nat.add_sub_cancel_left] at hcount
      simpa using ⟨took.frameCount_eq, hcount, husable, hnext⟩
  · refine ⟨by simp [hrun], ⟨?_, fun ⟨r, hfree⟩ => absurd hfree (hnone r)⟩, by simp [hrun], ?_⟩
    · rintro ⟨frame, s', call⟩
      simp [hrun] at call
    · intro e s' call
      exact (Prod.mk.inj (hrun.symm.trans call)).2.symm

theorem contiguous_first_fit_three_frames : ∃ s0,
    fromRegions .dev [⟨0x1000, 0x3000, .usable, by decide, by decide⟩] 0 = some s0 ∧
      FreeRun s0 2 1 ∧ FirstFit s0 2 := by
  obtain ⟨s0, hbuild, -, -, -, havailable⟩ := fromRegions_spec .dev
    [⟨0x1000, 0x3000, .usable, by decide, by decide⟩] 0 (by decide)
  refine ⟨s0, hbuild, fun f hlow hhigh => (havailable f).mpr ⟨by simp [divCeil, frameSize], ?_⟩,
    contiguous_first_fit hbuild .refl 2⟩
  exact ⟨_, List.mem_cons_self, rfl, by simp only [FrameInside, frameSize]; omega⟩

end CibosPlatform.Kernel.Frame.Safety
