/- source: cibos-kernel/src/scheduler.rs
   digest: The ready list and the stalled map, and the two calls channels make on them. -/

import CibosPlatform.Core.Maps
import CibosPlatform.Shared.Ipc

namespace CibosPlatform.Kernel.Scheduler.Lists

open Core.Maps Shared.Ipc List

structure LaneLists where
  ready : List LaneId
  stalled : SortedMap LaneId WaitResource

namespace LaneLists

def empty : LaneLists := ⟨[], .empty⟩

def registerWait (lane : LaneId) (resource : WaitResource) (lists : LaneLists) : LaneLists where
  ready := lists.ready.filter fun l => l ≠ lane
  stalled := lists.stalled.insert lane resource

def signalReady (lane : LaneId) (lists : LaneLists) : LaneLists where
  ready := if lane ∈ lists.ready then lists.ready else lists.ready ++ [lane]
  stalled := lists.stalled.erase lane

def forget (lane : LaneId) (lists : LaneLists) : LaneLists where
  ready := lists.ready.filter fun l => l ≠ lane
  stalled := lists.stalled.erase lane

def withdraw (chosen : List LaneId) (lists : LaneLists) : LaneLists :=
  { lists with ready := lists.ready.filter fun l => l ∉ chosen }

def signalAll (lanes : List LaneId) (lists : LaneLists) : LaneLists :=
  lanes.foldl (fun lists lane => lists.signalReady lane) lists

instance : KernelInterface LaneLists where
  registerWait := registerWait
  signalReady := signalReady

def StalledOn (lists : LaneLists) (lane : LaneId) (resource : WaitResource) : Prop :=
  lists.stalled.get? lane = some resource

instance (lists : LaneLists) (lane : LaneId) (resource : WaitResource) :
    Decidable (lists.StalledOn lane resource) := inferInstanceAs (Decidable (_ = _))

variable {lists : LaneLists} {lane lane' : LaneId} {resource resource' : WaitResource}

theorem stalledOn_empty : ¬ empty.StalledOn lane resource := nofun

theorem stalledOn_registerWait : (KernelInterface.registerWait lane resource lists).StalledOn lane' resource' ↔
    if lane' = lane then resource' = resource else lists.StalledOn lane' resource' := by
  change (lists.stalled.insert lane resource).get? lane' = some resource' ↔ _
  rw [SortedMap.get?_insert]
  split
  · rw [Option.some.injEq]
    exact eq_comm
  · rfl

theorem stalledOn_signalReady : (KernelInterface.signalReady lane lists).StalledOn lane' resource' ↔
    lane' ≠ lane ∧ lists.StalledOn lane' resource' := by
  change (lists.stalled.erase lane).get? lane' = some resource' ↔ _
  rw [SortedMap.get?_erase]
  split
  · rename_i h
    exact ⟨nofun, fun hne => absurd h hne.1⟩
  · rename_i h
    exact ⟨fun hstalled => ⟨h, hstalled⟩, fun hne => hne.2⟩

@[simp] theorem mem_ready_registerWait : lane' ∈ (lists.registerWait lane resource).ready ↔
    lane' ≠ lane ∧ lane' ∈ lists.ready := by
  simp [registerWait, and_comm]

@[simp] theorem get?_stalled_registerWait : (lists.registerWait lane resource).stalled.get? lane' =
    if lane' = lane then some resource else lists.stalled.get? lane' :=
  SortedMap.get?_insert ..

@[simp] theorem mem_ready_signalReady : lane' ∈ (lists.signalReady lane).ready ↔
    lane' = lane ∨ lane' ∈ lists.ready := by
  rw [signalReady]
  split
  · rename_i hready
    exact ⟨.inr, fun h => h.elim (· ▸ hready) id⟩
  · rw [mem_append, mem_singleton, or_comm]

@[simp] theorem get?_stalled_signalReady : (lists.signalReady lane).stalled.get? lane' =
    if lane' = lane then none else lists.stalled.get? lane' :=
  SortedMap.get?_erase ..

@[simp] theorem mem_ready_forget : lane' ∈ (lists.forget lane).ready ↔ lane' ≠ lane ∧ lane' ∈ lists.ready := by
  simp [forget, and_comm]

@[simp] theorem get?_stalled_forget : (lists.forget lane).stalled.get? lane' =
    if lane' = lane then none else lists.stalled.get? lane' :=
  SortedMap.get?_erase ..

@[simp] theorem mem_ready_withdraw {chosen : List LaneId} : lane ∈ (lists.withdraw chosen).ready ↔
    lane ∈ lists.ready ∧ lane ∉ chosen := by
  simp [withdraw]

@[simp] theorem mem_ready_signalAll {lanes : List LaneId} : lane ∈ (lists.signalAll lanes).ready ↔
    lane ∈ lanes ∨ lane ∈ lists.ready := by
  induction lanes generalizing lists with
  | nil => simp [signalAll]
  | cons first rest ih =>
    change lane ∈ ((lists.signalReady first).signalAll rest).ready ↔ _
    rw [ih, mem_ready_signalReady, mem_cons, or_left_comm, or_assoc]

@[simp] theorem get?_stalled_signalAll {lanes : List LaneId} : (lists.signalAll lanes).stalled.get? lane =
    if lane ∈ lanes then none else lists.stalled.get? lane := by
  induction lanes generalizing lists with
  | nil => simp [signalAll]
  | cons first rest ih =>
    change ((lists.signalReady first).signalAll rest).stalled.get? lane = _
    rw [ih, get?_stalled_signalReady]
    by_cases hrest : lane ∈ rest
    · rw [if_pos hrest, if_pos (mem_cons_of_mem first hrest)]
    · by_cases hfirst : lane = first
      · rw [if_neg hrest, if_pos hfirst, if_pos (hfirst ▸ mem_cons_self)]
      · rw [if_neg hrest, if_neg hfirst, if_neg fun h => (mem_cons.mp h).elim hfirst hrest]

structure Disciplined (lists : LaneLists) : Prop where
  nodup : lists.ready.Nodup
  apart : ∀ lane ∈ lists.ready, lists.stalled.get? lane = none

theorem Disciplined.empty : LaneLists.empty.Disciplined where
  nodup := nodup_nil
  apart := by
    intro lane hready
    exact absurd hready not_mem_nil

variable (h : lists.Disciplined)

include h

variable (lane : LaneId)

theorem Disciplined.registerWait (resource : WaitResource) :
    (lists.registerWait lane resource).Disciplined where
  nodup := h.nodup.filter _
  apart := by
    intro lane' hready
    rw [mem_ready_registerWait] at hready
    rw [get?_stalled_registerWait, if_neg hready.1]
    exact h.apart lane' hready.2

theorem Disciplined.signalReady : (lists.signalReady lane).Disciplined where
  nodup := by
    rw [LaneLists.signalReady]
    split
    · exact h.nodup
    · rename_i hnew
      rw [(perm_append_singleton lane lists.ready).nodup_iff]
      exact nodup_cons.mpr ⟨hnew, h.nodup⟩
  apart := by
    intro lane' hready
    rw [get?_stalled_signalReady]
    split
    · rfl
    · rename_i hne
      exact h.apart lane' ((mem_ready_signalReady.mp hready).resolve_left hne)

theorem Disciplined.forget : (lists.forget lane).Disciplined where
  nodup := h.nodup.filter _
  apart := by
    intro lane' hready
    rw [mem_ready_forget] at hready
    rw [get?_stalled_forget, if_neg hready.1]
    exact h.apart lane' hready.2

theorem Disciplined.withdraw (chosen : List LaneId) : (lists.withdraw chosen).Disciplined where
  nodup := h.nodup.filter _
  apart := fun lane hready => h.apart lane (mem_ready_withdraw.mp hready).1

theorem Disciplined.signalAll (lanes : List LaneId) : (lists.signalAll lanes).Disciplined := by
  induction lanes generalizing lists with
  | nil => exact h
  | cons first rest ih => exact ih (h.signalReady first)

end LaneLists

end CibosPlatform.Kernel.Scheduler.Lists
