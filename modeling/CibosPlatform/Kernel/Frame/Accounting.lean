/- source: cibos-kernel/src/frame.rs
   digest: What each allocator call does to the set of free frames. -/

import CibosPlatform.Kernel.Frame.Allocator
import Mathlib.Data.Finset.Card
import Mathlib.Order.Interval.Finset.Nat

namespace CibosPlatform.Kernel.Frame.Accounting

open Core Program MachineWord Shared.Hardware Allocator List Option Finset WordBitmap Prog Nat PhysFrame

def freeSet (s : AllocState) : Finset Nat :=
  (Finset.range s.frameCount).filter fun f => test s.bitmap f = some false

structure Wf (s : AllocState) : Prop where
  words : s.bitmap.length = divCeil s.frameCount 64
  padding : ∀ f, s.frameCount ≤ f → f < s.bitmap.length * 64 → test s.bitmap f = some true
  counted : s.allocated + (freeSet s).card = s.frameCount
  addressable : s.frameCount * frameSize < wordBound

variable {s s' : AllocState} {f n : Nat} {F : Finset Nat}

theorem mem_freeSet : f ∈ freeSet s ↔ f < s.frameCount ∧ test s.bitmap f = some false := by
  simp [freeSet]

theorem Wf.frameCount_le (wf : Wf s) : s.frameCount ≤ s.bitmap.length * 64 := by
  have h := (divCeil_le_iff (a := s.frameCount) (b := 64) (by decide) s.bitmap.length).mp
    wf.words.ge
  omega

theorem Wf.test_lt (wf : Wf s) (hf : f < s.frameCount) : ∃ b, test s.bitmap f = some b :=
  exists_test (by decide) (lt_of_lt_of_le hf wf.frameCount_le)

theorem index_fromIndex (h : f * frameSize < wordBound) : (fromIndex f).index = f := by
  simp only [index, fromIndex, mod_eq_of_lt h]
  exact Nat.mul_div_cancel f (by decide)

theorem Wf.index_fromIndex (wf : Wf s) (hf : f ≤ s.frameCount) : (fromIndex f).index = f :=
  Accounting.index_fromIndex (lt_of_le_of_lt (mul_le_mul_right _ hf) wf.addressable)

theorem fromIndex_index (frame : PhysFrame) : fromIndex frame.index = frame := by
  have hlt := frame.addr_lt
  have hal := frame.aligned
  ext
  simp only [fromIndex, index, frameSize, wordBound] at *
  omega

structure Took (s s' : AllocState) (F : Finset Nat) : Prop where
  subset : F ⊆ freeSet s
  bits : ∀ j, test s'.bitmap j = if j ∈ F then some true else test s.bitmap j
  length_eq : s'.bitmap.length = s.bitmap.length
  frameCount_eq : s'.frameCount = s.frameCount
  allocated_eq : s'.allocated = s.allocated + F.card

theorem Took.freeSet_eq (took : Took s s' F) : freeSet s' = freeSet s \ F := by
  ext f
  rw [mem_sdiff, mem_freeSet, mem_freeSet, took.bits, took.frameCount_eq]
  by_cases hf : f ∈ F <;> simp [hf]

theorem Took.wf (took : Took s s' F) (wf : Wf s) : Wf s' where
  words := by rw [took.length_eq, took.frameCount_eq, wf.words]
  padding := by
    intro f hlow hhigh
    rw [took.frameCount_eq] at hlow
    rw [took.length_eq] at hhigh
    rw [took.bits, wf.padding f hlow hhigh]
    simp
  counted := by
    have hcard := card_sdiff_add_card_eq_card took.subset
    have hcount := wf.counted
    rw [took.freeSet_eq, took.allocated_eq, took.frameCount_eq]
    omega
  addressable := by rw [took.frameCount_eq]; exact wf.addressable

theorem Took.refl (s : AllocState) : Took s s ∅ := ⟨empty_subset _, by simp, rfl, rfl, by simp⟩

theorem Took.trans {s1 s2 s3 : AllocState} {G : Finset Nat} (first : Took s1 s2 F) (second : Took s2 s3 G) :
    Took s1 s3 (F ∪ G) := by
  have hG : G ⊆ freeSet s1 \ F := first.freeSet_eq ▸ second.subset
  have hdisjoint : Disjoint F G := disjoint_left.mpr fun f hf hg => (mem_sdiff.mp (hG hg)).2 hf
  refine ⟨union_subset first.subset (hG.trans sdiff_subset), ?_,
    second.length_eq.trans first.length_eq, second.frameCount_eq.trans first.frameCount_eq, ?_⟩
  · intro j
    rw [second.bits, first.bits]
    by_cases hg : j ∈ G <;> by_cases hf : j ∈ F <;> simp [hg, hf]
  · rw [second.allocated_eq, first.allocated_eq, card_union_of_disjoint hdisjoint, add_assoc]

theorem Took.card_free (took : Took s s' F) : (freeSet s').card + F.card = (freeSet s).card := by
  rw [took.freeSet_eq]
  exact card_sdiff_add_card_eq_card took.subset

section

variable {bitmap : List (BitVec 64)} {l : List Nat}

theorem firstClear_append {r : List Nat} (all : ∀ f ∈ l, test bitmap f = some true) :
    firstClear bitmap (l ++ r) = firstClear bitmap r := by
  induction l with
  | nil => rfl
  | cons g rest ih =>
    simp only [cons_append, firstClear, all g mem_cons_self]
    exact ih fun f hf => all f (mem_cons_of_mem g hf)

theorem firstClear_of_mem (hmem : f ∈ l) (hbit : test bitmap f = some false)
    (inside : ∀ g ∈ l, ∃ b, test bitmap g = some b) (r : List Nat) :
    ∃ g, test bitmap g = some false ∧ firstClear bitmap (l ++ r) = some (some g) := by
  induction l with
  | nil => cases hmem
  | cons g rest ih =>
    obtain ⟨b, hb⟩ := inside g mem_cons_self
    cases b with
    | false => exact ⟨g, hb, by simp [firstClear, hb]⟩
    | true =>
      have hrest : f ∈ rest := by
        rcases mem_cons.mp hmem with rfl | hrest
        · rw [hbit] at hb
          cases hb
        · exact hrest
      simpa only [cons_append, firstClear, hb] using
        ih hrest fun x hx => inside x (mem_cons_of_mem g hx)

end

private theorem allocate_run (s : AllocState) : allocate s =
      match firstClear s.bitmap (upTo s.nextHint s.frameCount ++ upTo 0 s.nextHint) with
      | none => (.panic, s)
      | some none => (.err (.limitExceeded "physical frames"), s)
      | some (some f) =>
        match mark s.bitmap f with
        | none => (.panic, s)
        | some bitmap => (.ok (fromIndex f),
            { s with bitmap := bitmap, allocated := s.allocated + 1, nextHint := f + 1 }) := by
  simp only [allocate, bind_run, gets_run, id_eq]
  cases firstClear s.bitmap (upTo s.nextHint s.frameCount ++ upTo 0 s.nextHint) with
  | none => rfl
  | some r =>
    cases r with
    | none => rfl
    | some f =>
      simp only [orPanic_some, pure_run, bind_run]
      cases mark s.bitmap f <;> rfl

section

variable (wf : Wf s)

include wf

private theorem test_of_exhausted (none : freeSet s = ∅) (h : f < s.bitmap.length * 64) :
    test s.bitmap f = some true := by
  by_cases hlow : f < s.frameCount
  · obtain ⟨b, hb⟩ := wf.test_lt hlow
    cases b with
    | true => exact hb
    | false =>
      have hmem : f ∈ freeSet s := mem_freeSet.mpr ⟨hlow, hb⟩
      simp [none] at hmem
  · exact wf.padding f (by omega) h

private theorem search_exhausted (none : freeSet s = ∅) (hint : s.nextHint ≤ s.bitmap.length * 64) :
    firstClear s.bitmap (upTo s.nextHint s.frameCount ++ upTo 0 s.nextHint) = some .none := by
  have hlen := wf.frameCount_le
  rw [← append_nil (_ ++ _), firstClear_append fun f hf => test_of_exhausted wf none ?_, firstClear]
  rcases mem_append.mp hf with hf | hf
  · have := mem_upTo.mp hf
    omega
  · have := mem_upTo.mp hf
    omega

private theorem search_leaves (none : freeSet s = ∅) (hint : s.bitmap.length * 64 < s.nextHint) :
    firstClear s.bitmap (upTo s.nextHint s.frameCount ++ upTo 0 s.nextHint) = .none := by
  have hlen := wf.frameCount_le
  have hout : test s.bitmap (s.bitmap.length * 64) = .none := by
    rw [← not_isSome_iff_eq_none, test_isSome_iff (by decide)]
    exact lt_irrefl _
  rw [upTo_nil (show s.frameCount ≤ s.nextHint by omega), nil_append,
    upTo_append (zero_le _) (show s.bitmap.length * 64 ≤ s.nextHint by omega),
    firstClear_append fun f hf => test_of_exhausted wf none (mem_upTo.mp hf).2, upTo_cons (by omega)]
  simp [firstClear, hout]

private theorem search_hit {g : Nat} (free : g ∈ freeSet s) : ∃ f, test s.bitmap f = some false ∧
      firstClear s.bitmap (upTo s.nextHint s.frameCount ++ upTo 0 s.nextHint) = some (some f) := by
  obtain ⟨hgl, hgb⟩ := mem_freeSet.mp free
  by_cases hhint : s.nextHint ≤ s.frameCount
  · rw [← append_nil (_ ++ _)]
    refine firstClear_of_mem (f := g) ?_ hgb (fun x hx => wf.test_lt ?_) []
    · rw [mem_append, mem_upTo, mem_upTo]
      omega
    · rw [mem_append, mem_upTo, mem_upTo] at hx
      omega
  · rw [upTo_nil (by omega), nil_append,
      upTo_append (zero_le _) (show s.frameCount ≤ s.nextHint by omega)]
    exact firstClear_of_mem (mem_upTo.mpr ⟨zero_le g, hgl⟩) hgb (fun x hx => wf.test_lt (mem_upTo.mp hx).2) _

private theorem mem_freeSet_of_clear (clear : test s.bitmap f = some false) :
    f < s.bitmap.length * 64 ∧ f ∈ freeSet s := by
  have hlt : f < s.bitmap.length * 64 := by
    rw [← test_isSome_iff (by decide), clear]
    rfl
  refine ⟨hlt, mem_freeSet.mpr ⟨?_, clear⟩⟩
  by_contra hge
  have hpad := wf.padding f (by omega) hlt
  rw [clear] at hpad
  cases hpad

theorem allocate_cases : (∃ f s', f ∈ freeSet s ∧ allocate s = (.ok (fromIndex f), s') ∧
      Took s s' {f} ∧ s'.nextHint = f + 1 ∧ s'.usable = s.usable) ∨
    (freeSet s = ∅ ∧ s.nextHint ≤ s.bitmap.length * 64 ∧
      allocate s = (.err (.limitExceeded "physical frames"), s)) ∨
    (freeSet s = ∅ ∧ s.bitmap.length * 64 < s.nextHint ∧ allocate s = (.panic, s)) := by
  have hrun := allocate_run s
  by_cases hfree : freeSet s = ∅
  · right
    by_cases hhint : s.nextHint ≤ s.bitmap.length * 64
    · left
      refine ⟨hfree, hhint, ?_⟩
      rw [hrun, search_exhausted wf hfree hhint]
    · right
      refine ⟨hfree, by omega, ?_⟩
      rw [hrun, search_leaves wf hfree (by omega)]
  · left
    obtain ⟨g, hg⟩ := nonempty_iff_ne_empty.mpr hfree
    obtain ⟨f, hclear, hfound⟩ := search_hit wf hg
    obtain ⟨hlt, hmem⟩ := mem_freeSet_of_clear wf hclear
    obtain ⟨bitmap, hmark, hlength, hbits⟩ := exists_mark (by decide) (m := s.bitmap) hlt
    refine ⟨f, { s with bitmap := bitmap, allocated := s.allocated + 1, nextHint := f + 1 },
      hmem, ?_, ?_, rfl, rfl⟩
    · rw [hrun, hfound]
      simp only [hmark]
    · refine ⟨?_, ?_, hlength, rfl, by simp⟩
      · simpa using hmem
      · intro j
        simpa using hbits j

theorem allocate_ok {frame : PhysFrame} (call : allocate s = (.ok frame, s')) :
    frame.index ∈ freeSet s ∧ Took s s' {frame.index} ∧ s'.nextHint = frame.index + 1 := by
  rcases allocate_cases wf with ⟨f, t, hf, hrun, took, hnext, -⟩ | ⟨-, -, hrun⟩ | ⟨-, -, hrun⟩
  · rw [hrun] at call
    obtain ⟨hframe, rfl⟩ := Prod.mk.inj call
    obtain rfl := Outcome.ok.inj hframe
    rw [wf.index_fromIndex (mem_freeSet.mp hf).1.le]
    exact ⟨hf, took, hnext⟩
  · rw [hrun] at call
    cases call
  · rw [hrun] at call
    cases call

theorem allocate_err {e : KernelError} (call : allocate s = (.err e, s')) :
    s' = s ∧ freeSet s = ∅ ∧ e = .limitExceeded "physical frames" := by
  rcases allocate_cases wf with ⟨f, t, hf, hrun, -⟩ | ⟨hfree, -, hrun⟩ | ⟨-, -, hrun⟩
  · rw [hrun] at call
    cases call
  · rw [hrun] at call
    obtain ⟨herr, rfl⟩ := Prod.mk.inj call
    exact ⟨rfl, hfree, (Outcome.err.inj herr).symm⟩
  · rw [hrun] at call
    cases call

theorem allocate_panic (call : allocate s = (.panic, s')) : s' = s ∧ freeSet s = ∅ := by
  rcases allocate_cases wf with ⟨f, t, hf, hrun, -⟩ | ⟨-, -, hrun⟩ | ⟨hfree, -, hrun⟩
  · rw [hrun] at call
    cases call
  · rw [hrun] at call
    cases call
  · rw [hrun] at call
    exact ⟨(Prod.mk.inj call).2.symm, hfree⟩

end

section

variable {bitmap : List (BitVec 64)} {n count : Nat}

def ClearRun (bitmap : List (BitVec 64)) (n r : Nat) : Prop :=
  ∀ g, r ≤ g → g < r + n → test bitmap g = some false

private theorem runScan_spec (k : Nat) (inside : count ≤ bitmap.length * 64) :
    ∀ f runStart runLen, count - f = k → runLen < n → runLen ≤ f → (runLen = 0 ∨ runStart + runLen = f) →
      (∀ g, f ≤ g + runLen → g < f → test bitmap g = some false) →
      (∀ r, r + runLen < f → ¬ ClearRun bitmap n r) →
      ∃ found, runScan bitmap n (upTo f count) runStart runLen = some found ∧
        (∀ r, found = some r → r + n ≤ max count f ∧ ClearRun bitmap n r ∧ ∀ r' < r, ¬ ClearRun bitmap n r') ∧
        (found = none → ∀ r, r + n ≤ count → ¬ ClearRun bitmap n r) := by
  induction k with
  | zero =>
    intro f runStart runLen hk hlen _ _ _ hlower
    rw [upTo_nil (by omega)]
    refine ⟨none, rfl, fun r hr => (by cases hr), fun _ r hr => hlower r (by omega)⟩
  | succ k ih =>
    intro f runStart runLen hk hlen hle hrun hclear hlower
    obtain ⟨b, hb⟩ := exists_test (w := 64) (by decide) (m := bitmap)
      (show f < bitmap.length * 64 by omega)
    rw [upTo_cons (by omega)]
    cases b with
    | true =>
      simp only [runScan, hb]
      -- no run that starts before reaches over the set bit
      obtain ⟨found, hscan, hfound, hnone⟩ := ih (f + 1) runStart 0 (by omega) (by omega) (by omega) (.inl rfl)
        (by omega) fun r hr hall => by
          by_cases hearly : r + runLen < f
          · exact hlower r hearly hall
          · have := hall f (by omega) (by omega)
            simp [hb] at this
      exact ⟨found, hscan, fun r hr => ⟨by have := (hfound r hr).1; omega, (hfound r hr).2⟩, hnone⟩
    | false =>
      have hstart : (if runLen = 0 then f else runStart) + runLen = f := by split <;> omega
      have hclear' : ∀ g, f ≤ g + runLen → g < f + 1 → test bitmap g = some false := by
        intro g hlow hhigh
        rcases Nat.lt_succ_iff_lt_or_eq.mp hhigh with hg | rfl
        · exact hclear g hlow hg
        · exact hb
      simp only [runScan, hb]
      split
      · refine ⟨_, rfl, fun r hr => ?_, fun h => by cases h⟩
        obtain rfl := some.inj hr
        exact ⟨by omega, fun g hlow hhigh => hclear' g (by omega) (by omega),
          fun r' hr' => hlower r' (by omega)⟩
      · obtain ⟨found, hscan, hfound, hnone⟩ := ih (f + 1) (if runLen = 0 then f else runStart) (runLen + 1)
          (by omega) (by omega) (by omega) (.inr (by omega)) (fun g hlow => hclear' g (by omega))
          fun r hr => hlower r (by omega)
        exact ⟨found, hscan, fun r hr => ⟨by have := (hfound r hr).1; omega, (hfound r hr).2⟩, hnone⟩

end

def FreeRun (s : AllocState) (n r : Nat) : Prop := ∀ f, r ≤ f → f < r + max n 1 → f ∈ freeSet s

theorem freeRun_iff {r : Nat} : FreeRun s n r ↔
    r + max n 1 ≤ s.frameCount ∧ ClearRun s.bitmap (max n 1) r := by
  refine ⟨fun h => ⟨?_, fun f hlow hhigh => (mem_freeSet.mp (h f hlow hhigh)).2⟩, fun h f hlow hhigh => ?_⟩
  · have := (mem_freeSet.mp (h (r + max n 1 - 1) (by omega) (by omega))).1
    omega
  · exact mem_freeSet.mpr ⟨by omega, h.2 f hlow hhigh⟩

theorem allocateContiguous_cases (wf : Wf s) (n : Nat) : (∃ r s', r + max n 1 ≤ s.frameCount ∧
      allocateContiguous n s = (.ok (fromIndex r), s') ∧ (∀ r' < r, ¬ FreeRun s n r') ∧
      Took s s' (Finset.Ico r (r + max n 1)) ∧ s'.nextHint = s.nextHint ∧
      s'.usable = s.usable) ∨
    (∃ resource, allocateContiguous n s = (.err (.limitExceeded resource), s)) ∧ ∀ r, ¬ FreeRun s n r := by
  by_cases hbig : max n 1 > s.frameCount
  · right
    refine ⟨⟨"physical frames", ?_⟩, fun r hr => by have := (freeRun_iff.mp hr).1; omega⟩
    simp only [allocateContiguous, bind_run, gets_run, id_eq, hbig, if_true, fail_run]
  obtain ⟨found, hscan, hfound, hnone⟩ := runScan_spec (n := max n 1) s.frameCount wf.frameCount_le 0 0 0 rfl
    (by omega) le_rfl (.inl rfl) (by omega) (by omega)
  cases found with
  | none =>
    right
    refine ⟨⟨"contiguous physical frames", ?_⟩, fun r hr => ?_⟩
    · simp only [allocateContiguous, bind_run, gets_run, id_eq, hbig, if_false, hscan,
        orPanic_some, pure_run, fail_run]
    · exact hnone rfl r (freeRun_iff.mp hr).1 (freeRun_iff.mp hr).2
  | some r =>
    left
    obtain ⟨hend, hclear, hlowest⟩ := hfound r rfl
    rw [Nat.max_zero] at hend
    have hinside : ∀ i ∈ upTo r (r + max n 1), i < s.bitmap.length * 64 := by
      intro i hi
      have := mem_upTo.mp hi
      have := wf.frameCount_le
      omega
    obtain ⟨bitmap, hmark, hlength, hbits⟩ := exists_markAll (by decide) _ hinside
    refine ⟨r, { s with bitmap := bitmap, allocated := s.allocated + max n 1 }, hend, ?_,
      fun r' hr' hrun => hlowest r' hr' (freeRun_iff.mp hrun).2, ?_, rfl, rfl⟩
    · simp only [allocateContiguous, bind_run, gets_run, id_eq, hbig, if_false, hscan,
        orPanic_some, pure_run, hmark, update_run]
    · refine ⟨fun f hf => ?_, fun j => ?_, hlength, rfl, by simp⟩
      · have hrange := mem_Ico.mp hf
        exact mem_freeSet.mpr ⟨by omega, hclear f hrange.1 hrange.2⟩
      · rw [hbits j]
        simp only [mem_upTo, mem_Ico]

theorem allocateContiguous_ok {frame : PhysFrame} (wf : Wf s) (call : allocateContiguous n s = (.ok frame, s')) :
    Took s s' (Finset.Ico frame.index (frame.index + max n 1)) ∧ s'.nextHint = s.nextHint := by
  rcases allocateContiguous_cases wf n with ⟨r, t, hend, hrun, -, took, hnext, -⟩ | ⟨⟨_, hrun⟩, -⟩
  · rw [hrun] at call
    obtain ⟨hframe, rfl⟩ := Prod.mk.inj call
    obtain rfl := Outcome.ok.inj hframe
    rw [wf.index_fromIndex (by omega)]
    exact ⟨took, hnext⟩
  · rw [hrun] at call
    cases call

theorem allocateContiguous_err {e : KernelError} (wf : Wf s) (call : allocateContiguous n s = (.err e, s')) :
    s' = s := by
  rcases allocateContiguous_cases wf n with ⟨r, t, hend, hrun, -⟩ | ⟨⟨_, hrun⟩, -⟩
  · rw [hrun] at call
    cases call
  · rw [hrun] at call
    exact (Prod.mk.inj call).2.symm

structure Gave (s s' : AllocState) (f : Nat) : Prop where
  covered : f < s.frameCount
  bits : ∀ j, test s'.bitmap j = if j = f then some false else test s.bitmap j
  length_eq : s'.bitmap.length = s.bitmap.length
  frameCount_eq : s'.frameCount = s.frameCount
  held : f ∉ freeSet s
  allocated_eq : s'.allocated = s.allocated - 1

theorem Gave.freeSet_eq (gave : Gave s s' f) : freeSet s' = insert f (freeSet s) := by
  ext j
  rw [mem_insert, mem_freeSet, mem_freeSet, gave.bits, gave.frameCount_eq]
  by_cases hj : j = f
  · simp [hj, gave.covered]
  · simp [hj]

theorem Gave.wf (gave : Gave s s' f) (wf : Wf s) : Wf s' where
  words := by rw [gave.length_eq, gave.frameCount_eq, wf.words]
  padding := by
    intro j hlow hhigh
    rw [gave.frameCount_eq] at hlow
    rw [gave.length_eq] at hhigh
    have hcov := gave.covered
    rw [gave.bits, if_neg (by omega), wf.padding j hlow hhigh]
  counted := by
    have hcount := wf.counted
    have hsub : freeSet s ⊆ (Finset.range s.frameCount).erase f := by
      intro j hj
      have hne : j ≠ f := fun he => gave.held (he ▸ hj)
      simp [hne, (mem_freeSet.mp hj).1]
    have hcard := card_le_card hsub
    rw [card_erase_of_mem (mem_range.mpr gave.covered), card_range] at hcard
    have hcov := gave.covered
    rw [gave.freeSet_eq, gave.allocated_eq, gave.frameCount_eq, card_insert_of_notMem gave.held]
    omega
  addressable := by rw [gave.frameCount_eq]; exact wf.addressable

theorem free_cases (wf : Wf s) (frame : PhysFrame) :
    (∃ s', free frame s = (.ok (), s') ∧ Gave s s' frame.index ∧
      s'.nextHint = min frame.index s.nextHint ∧ s'.usable = s.usable) ∨
    ((s.frameCount ≤ frame.index ∨ frame.index ∈ freeSet s) ∧ free frame s = (.ok (), s)) := by
  by_cases hcov : frame.index < s.frameCount
  · obtain ⟨b, hb⟩ := wf.test_lt hcov
    have hcov' : ¬ frame.index ≥ s.frameCount := by omega
    cases b with
    | false =>
      right
      refine ⟨.inr (mem_freeSet.mpr ⟨hcov, hb⟩), ?_⟩
      simp [free, bind_run, hcov', hb]
    | true =>
      left
      obtain ⟨bitmap, hclear, hlength, hbits⟩ := exists_clear (w := 64) (by decide)
        (m := s.bitmap) (lt_of_lt_of_le hcov wf.frameCount_le)
      refine ⟨{ s with
          bitmap := bitmap
          allocated := s.allocated - 1
          nextHint := if frame.index < s.nextHint then frame.index else s.nextHint },
        by simp [free, bind_run, hcov', hb, hclear], ?_, ?_, rfl⟩
      · refine ⟨hcov, hbits, hlength, rfl, ?_, rfl⟩
        intro hmem
        have := (mem_freeSet.mp hmem).2
        rw [hb] at this
        cases this
      · simp only
        split <;> omega
  · right
    have hcov' : frame.index ≥ s.frameCount := by omega
    exact ⟨.inl (by omega), by simp [free, bind_run, hcov']⟩

def FrameInside (region : MemoryRegion) (f : Nat) : Prop :=
  region.base ≤ f * frameSize ∧ (f + 1) * frameSize ≤ region.base + region.length

instance (region : MemoryRegion) (f : Nat) : Decidable (FrameInside region f) :=
  inferInstanceAs (Decidable (_ ∧ _))

def maxUsableEnd (regions : List MemoryRegion) : Nat :=
  ((regions.filter fun r => r.kind = .usable).map fun r => r.base + r.length).foldl max 0

/-- The frames a memory map makes available: inside a usable region, at or above the watermark. -/
def Available (regions : List MemoryRegion) (reservedBelow f : Nat) : Prop :=
  divCeil reservedBelow frameSize ≤ f ∧ ∃ r ∈ regions, r.kind = .usable ∧ FrameInside r f

theorem frameInside_iff (region : MemoryRegion) (f : Nat) : FrameInside region f ↔
      f ∈ upTo (divCeil region.base frameSize) ((region.base + region.length) / frameSize) := by
  rw [mem_upTo, divCeil_le_iff (by decide), FrameInside, lt_iff_add_one_le,
    le_div_iff_mul_le (by decide)]

private theorem le_foldl_max (l : List Nat) (a : Nat) : a ≤ l.foldl max a ∧ ∀ x ∈ l, x ≤ l.foldl max a := by
  induction l generalizing a with
  | nil => simp
  | cons y rest ih =>
    obtain ⟨hacc, hall⟩ := ih (max a y)
    simp only [foldl_cons, List.mem_cons, forall_eq_or_imp]
    exact ⟨by omega, by omega, hall⟩

private theorem foldl_max_lt (l : List Nat) (a bound : Nat) (ha : a < bound) (hl : ∀ x ∈ l, x < bound) :
    l.foldl max a < bound := by
  induction l generalizing a with
  | nil => exact ha
  | cons y rest ih =>
    have hy := hl y mem_cons_self
    exact ih (max a y) (by omega) fun x hx => hl x (mem_cons_of_mem y hx)

variable {m : List (BitVec 64)}

private theorem releaseFrames (reservedFrame : Nat) (l : List Nat) (u : Nat)
    (inside : ∀ f ∈ l, f < m.length * 64) :
    ∃ m', l.foldlM (releaseFrame reservedFrame) (m, u) = some (m', u + l.length) ∧
      m'.length = m.length ∧ ∀ j, test m' j =
        if reservedFrame ≤ j ∧ j ∈ l then some false else test m j := by
  induction l generalizing m u with
  | nil => exact ⟨m, rfl, rfl, by simp⟩
  | cons f rest ih =>
    obtain ⟨m1, hstep, hlen, hbits⟩ : ∃ m1, releaseFrame reservedFrame (m, u) f = some (m1, u + 1) ∧
        m1.length = m.length ∧ ∀ j, test m1 j =
          if reservedFrame ≤ j ∧ j = f then some false else test m j := by
      by_cases hf : f ≥ reservedFrame
      · obtain ⟨m1, hclear, hlen, hbits⟩ := exists_clear (by decide) (inside f mem_cons_self)
        refine ⟨m1, by simp [releaseFrame, hf, hclear], hlen, ?_⟩
        intro j
        rw [hbits]
        by_cases he : j = f
        · simp [he, hf]
        · simp [he]
      · refine ⟨m, by simp [releaseFrame, hf], rfl, ?_⟩
        intro j
        rw [if_neg]
        rintro ⟨hj, rfl⟩
        exact hf hj
    obtain ⟨m2, hrest, hlen2, hbits2⟩ := ih (m := m1) (u + 1) fun j hj => by
      rw [hlen]
      exact inside j (mem_cons_of_mem f hj)
    refine ⟨m2, ?_, hlen2.trans hlen, ?_⟩
    · simp only [foldlM_cons, hstep, bind_eq_bind, bind_some, hrest, length_cons]
      congr 2
      omega
    · intro j
      rw [hbits2, hbits]
      by_cases hr : reservedFrame ≤ j
      · by_cases hj : j ∈ rest <;> simp [hj, hr]
      · simp [hr]

variable (profile : BuildProfile)

private def walked (r : MemoryRegion) : List Nat :=
  upTo (divCeil r.base frameSize) ((r.endAddr profile).getD 0 / frameSize)

private theorem releaseRegions (reservedFrame : Nat) (rs : List MemoryRegion) (u : Nat)
    (inside : ∀ r ∈ rs, ∃ e, r.endAddr profile = some e ∧ e / frameSize ≤ m.length * 64) :
    ∃ m' u', rs.foldlM (releaseRegion profile reservedFrame) (m, u) = some (m', u') ∧
      m'.length = m.length ∧ ∀ j, test m' j =
        if reservedFrame ≤ j ∧ ∃ r ∈ rs, j ∈ walked profile r then some false
        else test m j := by
  induction rs generalizing m u with
  | nil => exact ⟨m, u, rfl, rfl, by simp⟩
  | cons r rest ih =>
    obtain ⟨e, he, hr⟩ := inside r mem_cons_self
    have hwalked : walked profile r = upTo (divCeil r.base frameSize) (e / frameSize) := by rw [walked, he]; rfl
    obtain ⟨m1, hstep, hlen, hbits⟩ := releaseFrames reservedFrame (walked profile r) (m := m) u (by
      intro f hf
      rw [hwalked, mem_upTo] at hf
      omega)
    obtain ⟨m2, u2, hrest, hlen2, hbits2⟩ := ih (m := m1) (u + (walked profile r).length) (fun x hx => by
      rw [hlen]
      exact inside x (mem_cons_of_mem r hx))
    refine ⟨m2, u2, ?_, hlen2.trans hlen, ?_⟩
    · rw [hwalked] at hstep hrest
      simp only [foldlM_cons, releaseRegion, he, bind_eq_bind, bind_some, hstep, hrest]
    · intro j
      rw [hbits2, hbits]
      by_cases hj : reservedFrame ≤ j
      · by_cases hin : j ∈ walked profile r <;> simp [hj, hin]
      · simp [hj]

theorem countBits_eq (bitmap : List (BitVec 64)) (value : Bool) (count : Nat)
    (inside : count ≤ bitmap.length * 64) :
    countBits bitmap value count = some
      ((Finset.range count).filter fun f => test bitmap f = some value).card := by
  have hfold : ∀ (l : List Nat) (n : Nat), (∀ f ∈ l, f < bitmap.length * 64) →
      l.foldlM (fun n f => (test bitmap f).map fun b => if b = value then n + 1 else n) n
        = some (n + (l.filter fun f => test bitmap f = some value).length) := by
    intro l
    induction l with
    | nil => simp
    | cons f rest ih =>
      intro n hl
      obtain ⟨b, hb⟩ := exists_test (by decide) (hl f mem_cons_self)
      have hrest := fun k => ih k fun x hx => hl x (mem_cons_of_mem f hx)
      by_cases he : b = value
      · simp [hb, he, hrest]
        omega
      · simp [hb, he, hrest]
  rw [countBits, hfold _ 0 (by
    intro f hf
    have := mem_upTo.mp hf
    omega)]
  have hnodup : (upTo 0 count).Nodup := nodup_range'
  rw [zero_add, ← toFinset_card_of_nodup (hnodup.filter _)]
  congr 2
  ext f
  simp [upTo]

theorem freeFrames_eq (wf : Wf s) : freeFrames s = some (freeSet s).card :=
  countBits_eq s.bitmap false s.frameCount wf.frameCount_le

private theorem ends_spec {profile : BuildProfile} {rs : List MemoryRegion} {ends : List Nat}
    (h : rs.mapM (·.endAddr profile) = some ends) :
    (∀ r ∈ rs, ∃ e ∈ ends, r.endAddr profile = some e) ∧ ∀ e ∈ ends, e < wordBound := by
  induction rs generalizing ends with
  | nil =>
    obtain rfl : [] = ends := some.inj h
    simp
  | cons r rest ih =>
    rw [mapM_cons] at h
    obtain ⟨e, he, h⟩ := bind_eq_some_iff.mp h
    obtain ⟨tail, htail, h⟩ := bind_eq_some_iff.mp h
    obtain rfl : e :: tail = ends := some.inj h
    obtain ⟨hends, hlt⟩ := ih htail
    refine ⟨?_, forall_mem_cons.mpr ⟨addWord_lt he, hlt⟩⟩
    intro x hx
    rcases mem_cons.mp hx with rfl | hx
    · exact ⟨e, mem_cons_self, he⟩
    · obtain ⟨e', he', hx'⟩ := hends x hx
      exact ⟨e', mem_cons_of_mem e he', hx'⟩

private theorem wf_of_released {count usable hint : Nat} {released : Nat → Prop}
    [DecidablePred released] (hlen : m.length = divCeil count 64) (hlt : count * frameSize < wordBound)
    (inside : ∀ f, released f → f < count)
    (hbits : ∀ f < m.length * 64, test m f = if released f then some false else some true) :
    Wf ⟨m, count, ((Finset.range count).filter fun f => test m f = some true).card, usable, hint⟩ := by
  have hcover : count ≤ m.length * 64 := hlen ▸ (divCeil_le_iff (by decide) _).mp le_rfl
  refine ⟨hlen, fun f hlow hhigh => ?_, ?_, hlt⟩
  · rw [hbits f hhigh, if_neg fun h => not_lt.mpr hlow (inside f h)]
  · have hsplit := card_filter_add_card_filter_not (s := range count)
      (test m · = some true)
    have hfree : ∀ n, freeSet ⟨m, count, n, usable, hint⟩ = (Finset.range count).filter
        fun f => ¬ test m f = some true := by
      intro n
      ext f
      simp only [mem_freeSet, Finset.mem_filter, Finset.mem_range]
      refine and_congr_right fun hf => ?_
      rw [hbits f (hf.trans_le hcover)]
      split <;> simp
    rw [card_range] at hsplit
    rw [hfree]
    exact hsplit

variable {regions : List MemoryRegion}

private theorem fromRegions_ends {profile : BuildProfile} (reservedBelow : Nat)
    {ends : List Nat} (hends : (regions.filter fun r => r.kind = .usable).mapM (·.endAddr profile) = some ends) :
    ∃ s, fromRegions profile regions reservedBelow = some s ∧ Wf s ∧ s.frameCount = ends.foldl max 0 / frameSize ∧
      s.nextHint = divCeil reservedBelow frameSize ∧
      ∀ f, f ∈ freeSet s ↔ divCeil reservedBelow frameSize ≤ f ∧
        ∃ r ∈ regions.filter (·.kind = .usable), f ∈ walked profile r := by
  obtain ⟨hspec, hlt⟩ := ends_spec hends
  set rs := regions.filter fun r => r.kind = .usable with hrs
  set count := ends.foldl max 0 / frameSize with hcount
  set rf := divCeil reservedBelow frameSize with hrf
  have hcover : count ≤ divCeil count 64 * 64 := (divCeil_le_iff (by decide) _).mp le_rfl
  have hlast : ∀ r ∈ rs, ∃ e, r.endAddr profile = some e ∧ e / frameSize ≤ count := by
    intro r hr
    obtain ⟨e, hmem, he⟩ := hspec r hr
    exact ⟨e, he, Nat.div_le_div_right ((le_foldl_max _ 0).2 e hmem)⟩
  obtain ⟨m, u, hrelease, hlen, hbits⟩ := releaseRegions profile rf rs
    (m := List.replicate (divCeil count 64) (BitVec.allOnes 64)) 0 (by
      intro r hr
      rw [length_replicate]
      exact (hlast r hr).imp fun e h => ⟨h.1, h.2.trans hcover⟩)
  rw [length_replicate] at hlen
  have hcounted := countBits_eq m true count (by rw [hlen]; exact hcover)
  have hinside : ∀ f, (rf ≤ f ∧ ∃ r ∈ rs, f ∈ walked profile r) → f < count := by
    rintro f ⟨-, r, hr, hin⟩
    obtain ⟨e, he, hle⟩ := hlast r hr
    rw [walked, he] at hin
    exact (mem_upTo.mp hin).2.trans_le hle
  have hones : ∀ f < m.length * 64, test m f =
      if rf ≤ f ∧ ∃ r ∈ rs, f ∈ walked profile r then some false else some true := by
    intro f hf
    rw [hbits, test_replicate_allOnes (by decide) (by rwa [hlen] at hf)]
  have hbuilt : fromRegions profile regions reservedBelow = some ⟨m, count,
      ((Finset.range count).filter fun f => test m f = some true).card, u, rf⟩ := by
    simp only [fromRegions, ← hrs, hends, ← hcount, ← hrf, bind_eq_bind,
      bind_some, hrelease, hcounted]
  have hword : count * frameSize < wordBound :=
    lt_of_le_of_lt (div_mul_le_self _ _) (foldl_max_lt _ 0 _ (by decide) hlt)
  refine ⟨_, hbuilt, wf_of_released hlen hword hinside hones, rfl, rfl, fun f => ?_⟩
  rw [mem_freeSet]
  constructor
  · rintro ⟨hf, hbit⟩
    by_contra hnot
    rw [hones f (by rw [hlen]; exact lt_of_lt_of_le hf hcover), if_neg hnot] at hbit
    cases hbit
  · intro hreleased
    have hf := hinside f hreleased
    exact ⟨hf, by rw [hones f (by rw [hlen]; omega), if_pos hreleased]⟩

theorem fromRegions_wf {profile : BuildProfile} {reservedBelow : Nat}
    (h : fromRegions profile regions reservedBelow = some s) : Wf s := by
  obtain ⟨ends, hends, -⟩ := bind_eq_some_iff.mp h
  obtain ⟨s', hbuilt, wf, -⟩ := fromRegions_ends reservedBelow hends
  rwa [some.inj (h.symm.trans hbuilt)]

theorem fromRegions_spec (regions : List MemoryRegion) (reservedBelow : Nat)
    (fits : ∀ r ∈ regions, r.kind = .usable → r.EndFits) :
    ∃ s, fromRegions profile regions reservedBelow = some s ∧ Wf s ∧
      s.frameCount = maxUsableEnd regions / frameSize ∧
      s.nextHint = divCeil reservedBelow frameSize ∧
      ∀ f, f ∈ freeSet s ↔ Available regions reservedBelow f := by
  have hends : ∀ rs : List MemoryRegion, (∀ r ∈ rs, r.EndFits) →
      rs.mapM (·.endAddr profile) = some (rs.map fun r => r.base + r.length) := by
    intro rs hfits
    induction rs with
    | nil => rfl
    | cons r rest ih =>
      rw [mapM_cons, MemoryRegion.endAddr_eq profile (hfits r mem_cons_self),
        ih fun x hx => hfits x (mem_cons_of_mem r hx)]
      rfl
  obtain ⟨s, hbuilt, wf, hcount, hhint, hfree⟩ := fromRegions_ends reservedBelow
    (hends (regions.filter fun r => r.kind = .usable) fun r hr => by
      obtain ⟨hr, husable⟩ := mem_filter.mp hr
      exact fits r hr (of_decide_eq_true husable))
  refine ⟨s, hbuilt, wf, hcount, hhint, fun f => (hfree f).trans (and_congr_right fun _ => ?_)⟩
  refine exists_congr fun r => ?_
  rw [mem_filter, and_assoc, decide_eq_true_eq]
  refine and_congr_right fun hr => and_congr_right fun husable => ?_
  rw [frameInside_iff, walked, MemoryRegion.endAddr_eq profile (fits r hr husable)]
  rfl

end CibosPlatform.Kernel.Frame.Accounting
