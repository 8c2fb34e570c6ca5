/- source: cibos-kernel/src/memory.rs
   digest: The reserved total and the reservations of the boundaries, over every list of calls. -/

import CibosPlatform.Core.Events
import CibosPlatform.Core.Maps
import CibosPlatform.Kernel.Frame.Allocator
import CibosPlatform.Shared.Ipc

namespace CibosPlatform.Kernel.Ledger

open Core Events Maps MachineWord Frame.Allocator Shared Hardware Ipc

structure MemState where
  regions : List MemoryRegion
  totalUsable : Nat
  reserved : Nat
  byBoundary : SortedMap BoundaryId Nat

variable (profile : BuildProfile)

namespace MemState

def fromRegions (regions : List MemoryRegion) : MemState :=
  let usable := regions.filter (·.kind = .usable)
  ⟨usable, (usable.map (·.length)).foldl saturatingAdd 0, 0, .empty⟩

variable (s : MemState)

def available : Nat := s.totalUsable - s.reserved

def reservation (boundary : BoundaryId) : Nat := (s.byBoundary.get? boundary).getD 0

def reserve (boundary : BoundaryId) (bytes : BitVec 64) (s : MemState) :
    Option (Except KernelError Unit × MemState) :=
  let newReserved := saturatingAdd s.reserved bytes.toNat
  if s.totalUsable < newReserved then some (.error (.limitExceeded "memory"), s)
  else (addWord profile (s.reservation boundary) bytes.toNat).map fun amount =>
    (.ok (), { s with reserved := newReserved, byBoundary := s.byBoundary.insert boundary amount })

def releaseAll (boundary : BoundaryId) (s : MemState) : MemState :=
  match s.byBoundary.get? boundary with
  | some amount => { s with reserved := s.reserved - amount, byBoundary := s.byBoundary.erase boundary }
  | none => s

def sum : Nat := (s.byBoundary.entries.map Prod.snd).sum

def Exact : Prop :=
  s.reserved = s.sum ∧ s.sum ≤ s.totalUsable ∧ s.available + s.sum = s.totalUsable

end MemState

inductive Call where
  | reserve (boundary : BoundaryId) (bytes : BitVec 64)
  | releaseAll (boundary : BoundaryId)

def Call.boundary : Call → BoundaryId
  | reserve boundary _ | releaseAll boundary => boundary

def step : Call → MemState → Option (Except KernelError Unit × MemState)
  | .reserve boundary bytes, s => s.reserve profile boundary bytes
  | .releaseAll boundary, s => some (.ok (), s.releaseAll boundary)

def Sound (call : Call) (s : MemState) : Prop :=
  (step profile call s).isSome ∧ ∀ r, step profile call s = some r →
    ((∃ e, r.1 = .error e) → r.2 = s) ∧
      ∀ other, other ≠ call.boundary → r.2.reservation other = s.reservation other

/-- The usable memory is less than the largest word, or all reservations with the new one fit a word. -/
def Fits : Call → MemState → Prop
  | .reserve _ bytes, s => s.totalUsable < wordBound - 1 ∨ s.sum + bytes.toNat < wordBound
  | .releaseAll _, _ => True

variable {profile : BuildProfile} {s : MemState}

theorem releaseAll_exact (h : s.Exact) (boundary : BoundaryId) : (s.releaseAll boundary).Exact := by
  have hsum := s.byBoundary.sum_erase boundary
  obtain ⟨hreserved, hlimit, -⟩ := h
  unfold MemState.releaseAll
  split
  · rename_i amount hamount
    rw [hamount] at hsum
    simp only [MemState.Exact, MemState.sum, MemState.available, Option.getD_some] at *
    omega
  · exact ⟨hreserved, hlimit, by rw [MemState.available]; omega⟩

theorem reserve_exact (h : s.Exact) (word : s.totalUsable < wordBound) (boundary : BoundaryId) (bytes : BitVec 64) :
    ((s.reserve profile boundary bytes).isSome ∧
        ∀ r, s.reserve profile boundary bytes = some r → r.2.Exact) ↔
      Fits (.reserve boundary bytes) s := by
  have hold : s.reservation boundary ≤ s.sum := Nat.le.intro ((add_comm _ _).trans (s.byBoundary.sum_erase boundary))
  have hput (amount : Nat) := s.byBoundary.sum_insert boundary amount
  obtain ⟨hreserved, hlimit, -⟩ := id h
  by_cases hrefused : s.totalUsable < saturatingAdd s.reserved bytes.toNat
  · simp only [MemState.reserve, if_pos hrefused, Fits]
    refine iff_of_true ⟨rfl, fun r hr => ?_⟩ (.inl (lt_of_lt_of_le hrefused (min_le_right _ _)))
    cases hr
    exact h
  · simp only [MemState.reserve, if_neg hrefused, Fits]
    simp only [MemState.sum, MemState.reservation, saturatingAdd, wordBound] at *
    by_cases hfits : (s.byBoundary.entries.map Prod.snd).sum + bytes.toNat < 2 ^ 64
    · have hput := hput ((s.byBoundary.get? boundary).getD 0 + bytes.toNat)
      rw [addWord_of_lt profile (show _ < 2 ^ 64 by omega)]
      refine iff_of_true ⟨rfl, fun r hr => ?_⟩ (.inr hfits)
      cases hr
      simp only [MemState.Exact, MemState.sum, MemState.available]
      omega
    · refine iff_of_false (fun hgood => ?_) (by omega)
      obtain ⟨r, hr⟩ := Option.isSome_iff_exists.mp hgood.1
      obtain ⟨amount, hamount, rfl⟩ := Option.map_eq_some_iff.mp hr
      have hput := hput amount
      have hbooked := (hgood.2 _ hr).1
      have hamount := addWord_eq hamount
      simp only [MemState.sum, wordBound] at *
      omega

theorem step_keeps {call : Call} {r : Except KernelError Unit × MemState} (h : step profile call s = some r) :
    r.2.totalUsable = s.totalUsable ∧ ((∃ e, r.1 = .error e) → r.2 = s) ∧
      ∀ other, other ≠ call.boundary → r.2.reservation other = s.reservation other := by
  cases call with
  | reserve boundary bytes =>
    simp only [step, MemState.reserve] at h
    split at h
    · cases h
      exact ⟨rfl, fun _ => rfl, fun _ _ => rfl⟩
    · obtain ⟨amount, -, rfl⟩ := Option.map_eq_some_iff.mp h
      refine ⟨rfl, fun ⟨e, he⟩ => (nomatch he), fun other (hne : other ≠ boundary) => ?_⟩
      rw [MemState.reservation, MemState.reservation, SortedMap.get?_insert, if_neg hne]
  | releaseAll boundary =>
    cases h
    unfold MemState.releaseAll
    split
    · refine ⟨rfl, fun ⟨e, he⟩ => (nomatch he), fun other (hne : other ≠ boundary) => ?_⟩
      rw [MemState.reservation, MemState.reservation, SortedMap.get?_erase, if_neg hne]
    · exact ⟨rfl, fun _ => rfl, fun _ _ => rfl⟩

theorem call_exact (h : s.Exact) (word : s.totalUsable < wordBound) (call : Call) :
    (Sound profile call s ∧ ∀ r, step profile call s = some r → r.2.Exact) ↔ Fits call s := by
  have hsound (hsome : (step profile call s).isSome) : Sound profile call s := ⟨hsome, fun r hr => (step_keeps hr).2⟩
  cases call with
  | reserve boundary bytes =>
    rw [← reserve_exact h word]
    exact ⟨fun hgood => ⟨hgood.1.1, hgood.2⟩, fun hgood => ⟨hsound hgood.1, hgood.2⟩⟩
  | releaseAll boundary =>
    refine iff_of_true ⟨hsound rfl, fun r hr => ?_⟩ trivial
    cases hr
    exact releaseAll_exact h boundary

theorem totalUsable_lt (regions : List MemoryRegion) : (MemState.fromRegions regions).totalUsable < wordBound := by
  refine List.foldlRecOn (motive := (· < wordBound)) _ _ (by decide) fun total _ length _ => ?_
  exact lt_of_le_of_lt (min_le_right _ _) (by decide)

/-- The books are right throughout a list of calls exactly if every reservation fits where it is made. -/
theorem reservations_exact_iff (profile : BuildProfile) (regions : List MemoryRegion) (calls : List Call) :
    Keeps (step profile) MemState.Exact (Sound profile) calls (.fromRegions regions) ↔
      Keeps (step profile) (fun _ => True) Fits calls (.fromRegions regions) :=
  keeps_iff (I := fun s => s.totalUsable < wordBound)
    (fun call _ word h => ⟨fun _ hr => (step_keeps hr).1.trans_lt word, call_exact h word call⟩) calls
    (totalUsable_lt regions) ⟨rfl, Nat.zero_le _, add_zero _⟩

/-- All memory is reserved, and one byte more. -/
theorem overbooked :
    ¬ Keeps (step .dev) MemState.Exact (Sound .dev) [.reserve 1 0xffffffffffffffff, .reserve 2 1]
        (.fromRegions [⟨0, 2 ^ 64 - 1, .usable, by decide, by decide⟩]) ∧
      ¬ Keeps (step .release) MemState.Exact (Sound .release) [.reserve 1 0xffffffffffffffff, .reserve 2 1]
        (.fromRegions [⟨0, 2 ^ 64 - 1, .usable, by decide, by decide⟩]) :=
  ⟨fun h => absurd ((h.2.2 _ rfl).2.2 _ rfl).1 (by decide), fun h => absurd ((h.2.2 _ rfl).2.2 _ rfl).1 (by decide)⟩

end CibosPlatform.Kernel.Ledger
