/- source: cibos-kernel/src/scheduler.rs
   digest: Ready and stalled lanes are kept apart, and a call touches only the lanes it concerns. -/

import CibosPlatform.Kernel.Scheduler.State

namespace CibosPlatform.Kernel.Scheduler.Discipline

open Core Events LittleEndian MachineWord Maps Entropy
open Scheduler.Lists State Shared Config Ipc LaneLists

variable {hash : Hash} {build : BuildProfile} {tries : Nat} {s s' : SchedulerState} {op : Op} {reply : Reply}
  {lane : LaneId}

/-- The lanes a call may move: the one it names, those whose timer has been reached when it is done,
or those of the batch it returns. -/
def Concerns (s s' : SchedulerState) (reply : Reply) (lane : LaneId) : Op → Prop
  | .registerLane named _ | .registerWait named _ | .signalReady named | .notifyComplete named
  | .setLaneWeight named _ | .updateLaneWeight named _ => lane = named
  | .advanceClock _ | .advanceToNextTimer => ∃ deadline, s.stalled.get? lane = some (.timer deadline) ∧ deadline ≤ s'.now
  | .takeDispatchBatch => ∃ lanes, reply = .batch lanes ∧ lane ∈ lanes

def SameStatus (s s' : SchedulerState) (lane : LaneId) : Prop :=
  (lane ∈ s'.ready ↔ lane ∈ s.ready) ∧ s'.stalled.get? lane = s.stalled.get? lane

theorem releaseMatured_sameStatus (untouched : ¬ ∃ deadline,
    s.stalled.get? lane = some (.timer deadline) ∧ deadline ≤ s.now) : SameStatus s s.releaseMatured lane := by
  rw [← SchedulerState.mem_matured] at untouched
  constructor
  · rw [SchedulerState.releaseMatured, mem_ready_signalAll]
    exact or_iff_right untouched
  · rw [SchedulerState.releaseMatured, get?_stalled_signalAll, if_neg untouched]

theorem step_disciplined (kept : s.toLaneLists.Disciplined)
    (h : step hash build tries op s = some (reply, s')) : s'.toLaneLists.Disciplined := by
  cases stepped h with
  | registerLane | weight | noWeight | noTimer => exact kept
  | registerWait => exact kept.registerWait _ _
  | signalReady => exact kept.signalReady _
  | notifyComplete => exact kept.forget _
  | advanceClock | timer => exact kept.signalAll _
  | batch taken =>
    obtain ⟨-, csprng, rfl⟩ := SchedulerState.takeDispatchBatch_spec taken
    exact kept.withdraw _

theorem step_sameStatus (h : step hash build tries op s = some (reply, s'))
    (untouched : ¬ Concerns s s' reply lane op) : SameStatus s s' lane := by
  cases stepped h with
  | registerLane | weight | noWeight | noTimer => exact ⟨Iff.rfl, rfl⟩
  | registerWait =>
    constructor
    · exact mem_ready_registerWait.trans (and_iff_right untouched)
    · exact get?_stalled_registerWait.trans (if_neg untouched)
  | signalReady =>
    constructor
    · exact mem_ready_signalReady.trans (or_iff_right untouched)
    · exact get?_stalled_signalReady.trans (if_neg untouched)
  | notifyComplete =>
    constructor
    · exact mem_ready_forget.trans (and_iff_right untouched)
    · exact get?_stalled_forget.trans (if_neg untouched)
  | @advanceClock delta =>
    exact releaseMatured_sameStatus (s := { s with now := Monotonic.saturatingAdd s.now delta }) untouched
  | @timer deadline =>
    exact releaseMatured_sameStatus (s := { s with now := max s.now deadline }) untouched
  | @batch chosen _ taken =>
    obtain ⟨-, csprng, rfl⟩ := SchedulerState.takeDispatchBatch_spec taken
    have hnot : lane ∉ chosen := fun hmem => untouched ⟨chosen, rfl, hmem⟩
    exact ⟨mem_ready_withdraw.trans (and_iff_left hnot), rfl⟩

theorem signalReady_signalReady (s : SchedulerState) (lane : LaneId) :
    (s.signalReady lane).signalReady lane = s.signalReady lane := by
  have hlists : (s.toLaneLists.signalReady lane).signalReady lane = s.toLaneLists.signalReady lane := by
    have hready : lane ∈ (s.toLaneLists.signalReady lane).ready := by simp
    rw [signalReady, if_pos hready]
    simp [signalReady, SortedMap.erase]
  rw [SchedulerState.signalReady, SchedulerState.signalReady, hlists]

structure KeptInOrder (hash : Hash) (build : BuildProfile) (tries : Nat) (s : SchedulerState) : Prop where
  nodup : s.ready.Nodup
  apart : ∀ lane ∈ s.ready, s.stalled.get? lane = none
  signalled : ∀ lane, lane ∈ (s.signalReady lane).ready ∧ (s.signalReady lane).stalled.get? lane = none
  idempotent : ∀ lane, (s.signalReady lane).signalReady lane = s.signalReady lane
  waiting : ∀ lane resource, (s.registerWait lane resource).stalled.get? lane = some resource ∧
    lane ∉ (s.registerWait lane resource).ready
  frame : ∀ op reply s' lane, step hash build tries op s = some (reply, s') →
    ¬ Concerns s s' reply lane op → SameStatus s s' lane

/-- Whatever calls were made on a new scheduler, its lists are in order. -/
theorem run_keptInOrder {contexts : Nat} {seed : Vector Byte 32} {profile : CibosProfile}
    {events : List (Op × Reply)} (h : Run (step hash build tries) (.new hash contexts seed profile) events s) :
    KeptInOrder hash build tries s := by
  have hlists : s.toLaneLists.Disciplined :=
    h.invariant (P := fun s => s.toLaneLists.Disciplined) .empty
      fun _ _ _ _ kept taken => step_disciplined kept taken
  exact {
    nodup := hlists.nodup
    apart := hlists.apart
    signalled := fun lane => ⟨mem_ready_signalReady.mpr (.inl rfl),
      get?_stalled_signalReady.trans (if_pos rfl)⟩
    idempotent := signalReady_signalReady s
    waiting := fun lane resource => ⟨get?_stalled_registerWait.trans (if_pos rfl),
      fun hready => (mem_ready_registerWait.mp hready).1 rfl⟩
    frame := fun op reply s' lane taken untouched => step_sameStatus taken untouched }

theorem run_keptInOrder_batch : ∃ s, Run (step zeros .dev 1)
    (.new zeros 1 (Vector.replicate 32 0) .balanced)
    [(.signalReady 1, .done), (.registerWait 2 (.timer 5), .done), (.advanceToNextTimer, .flag true),
      (.takeDispatchBatch, .batch [1])] s ∧ s.ready = [2] ∧
    KeptInOrder zeros .dev 1 s := by
  exact exists_run_eval ⟨_, rfl, fun hrun => ⟨rfl, run_keptInOrder hrun⟩⟩

end CibosPlatform.Kernel.Scheduler.Discipline
