/- source: cibos-kernel/src/scheduler.rs
   digest: The scheduler: its lists, its clock, and the batches it dispatches. -/

import CibosPlatform.Core.Events
import CibosPlatform.Kernel.Scheduler.Lists
import CibosPlatform.Kernel.Scheduler.Selector
import CibosPlatform.Shared.Config

namespace CibosPlatform.Kernel.Scheduler.State

open Core LittleEndian MachineWord Maps Entropy Scheduler.Lists
open Selector Shared Config Ipc Option
open List hiding Vector

structure SchedulerState extends LaneLists where
  classes : SortedMap LaneId WeightClass
  overrides : SortedMap LaneId Nat
  csprng : Csprng
  now : Nat
  executionContexts : Nat
  profile : CibosProfile
  config : SchedulingConfig

def timerDeadline : WaitResource → Option Nat
  | .timer deadline => some deadline
  | _ => none

variable {deadline : Nat}

theorem timerDeadline_eq_some {resource : WaitResource} :
    timerDeadline resource = some deadline ↔ resource = .timer deadline := by
  cases resource <;> simp [timerDeadline]

variable {hash : Hash} {build : BuildProfile} {tries : Nat}

namespace SchedulerState

def new (hash : Hash) (executionContexts : Nat) (entropySeed : Vector Byte 32) (profile : CibosProfile) :
    SchedulerState where
  toLaneLists := .empty
  classes := .empty
  overrides := .empty
  csprng := .fromSeed hash entropySeed
  now := 0
  executionContexts := max executionContexts 1
  profile := profile
  config := .defaultsFor profile

variable (s : SchedulerState)

def supportsWeightOverrides : Bool := s.profile = .compute

def registerLane (lane : LaneId) (cls : WeightClass) : SchedulerState :=
  { s with classes := s.classes.insert lane cls }

def notifyComplete (lane : LaneId) : SchedulerState :=
  { s with
    toLaneLists := s.toLaneLists.forget lane
    classes := s.classes.erase lane
    overrides := s.overrides.erase lane }

def hasReady : Bool := !s.ready.isEmpty

def weightFor (lane : LaneId) : Nat :=
  match if s.supportsWeightOverrides then s.overrides.get? lane else none with
  | some weight => max weight 1
  | none => s.config.weightOf ((s.classes.get? lane).getD .user)

def takeDispatchBatch (hash : Hash) (build : BuildProfile) (tries : Nat) (s : SchedulerState) :
    Option (List LaneId × SchedulerState) :=
  (select hash build tries (s.ready.map fun lane => ⟨lane, s.weightFor lane⟩) s.executionContexts
    s.csprng).map fun (chosen, csprng) =>
      (chosen, { s with csprng := csprng, toLaneLists := s.toLaneLists.withdraw chosen })

def registerWait (lane : LaneId) (resource : WaitResource) (s : SchedulerState) : SchedulerState :=
  { s with toLaneLists := s.toLaneLists.registerWait lane resource }

def signalReady (lane : LaneId) (s : SchedulerState) : SchedulerState :=
  { s with toLaneLists := s.toLaneLists.signalReady lane }

instance : KernelInterface SchedulerState where
  registerWait := registerWait
  signalReady := signalReady

def matured : List LaneId :=
  s.stalled.entries.filterMap fun (lane, resource) =>
    match timerDeadline resource with
    | some deadline => if deadline ≤ s.now then some lane else none
    | none => none

def releaseMatured : SchedulerState :=
  { s with toLaneLists := s.toLaneLists.signalAll s.matured }

def advanceClock (delta : Nat) : SchedulerState :=
  { s with now := Monotonic.saturatingAdd s.now delta }.releaseMatured

def earliest : Option Nat :=
  (s.stalled.entries.filterMap fun entry => timerDeadline entry.2).min?

def advanceToNextTimer : Bool × SchedulerState :=
  match s.earliest with
  | none => (false, s)
  | some deadline => (true, { s with now := max s.now deadline }.releaseMatured)

def setLaneWeight (lane : LaneId) (weight : Nat) : Bool × SchedulerState :=
  if s.supportsWeightOverrides then (true, { s with overrides := s.overrides.insert lane (max weight 1) })
  else (false, s)

def updateLaneWeight (lane : LaneId) (weight : Nat) : Bool × SchedulerState :=
  s.setLaneWeight lane weight

variable {s s' : SchedulerState} {lane : LaneId}

theorem mem_matured : lane ∈ s.matured ↔
    ∃ deadline, s.stalled.get? lane = some (.timer deadline) ∧ deadline ≤ s.now := by
  rw [matured, mem_filterMap]
  constructor
  · rintro ⟨⟨lane', resource⟩, hentry, hmatured⟩
    cases htimer : timerDeadline resource with
    | none => simp [htimer] at hmatured
    | some deadline =>
      simp only [htimer, ite_none_right_eq_some, some.injEq] at hmatured
      obtain ⟨hreached, rfl⟩ := hmatured
      rw [timerDeadline_eq_some.mp htimer] at hentry
      exact ⟨deadline, SortedMap.mem_entries.mp hentry, hreached⟩
  · rintro ⟨deadline, hstalled, hreached⟩
    refine ⟨(lane, .timer deadline), SortedMap.mem_entries.mpr hstalled, ?_⟩
    simp [timerDeadline, hreached]

theorem mem_deadlines : deadline ∈ (s.stalled.entries.filterMap fun entry => timerDeadline entry.2) ↔
    ∃ lane, s.stalled.get? lane = some (.timer deadline) := by
  simp only [mem_filterMap, timerDeadline_eq_some, Prod.exists, SortedMap.mem_entries, exists_eq_right]

theorem earliest_eq_some : s.earliest = some deadline ↔
    (∃ lane, s.stalled.get? lane = some (.timer deadline)) ∧
      ∀ lane other, s.stalled.get? lane = some (.timer other) → deadline ≤ other := by
  rw [earliest, min?_eq_some_iff, mem_deadlines]
  refine and_congr_right fun _ => ⟨fun h lane other hstalled => ?_, fun h other hother => ?_⟩
  · exact h other (mem_deadlines.mpr ⟨lane, hstalled⟩)
  · obtain ⟨lane, hstalled⟩ := mem_deadlines.mp hother
    exact h lane other hstalled

theorem earliest_eq_none : s.earliest = none ↔ ∀ lane deadline, s.stalled.get? lane ≠ some (.timer deadline) := by
  rw [earliest, min?_eq_none_iff, eq_nil_iff_forall_not_mem]
  refine ⟨fun h lane deadline hstalled => ?_, fun h deadline hmem => ?_⟩
  · exact h deadline (mem_deadlines.mpr ⟨lane, hstalled⟩)
  · obtain ⟨lane, hstalled⟩ := mem_deadlines.mp hmem
    exact h lane deadline hstalled

theorem takeDispatchBatch_spec {chosen : List LaneId}
    (h : s.takeDispatchBatch hash build tries = some (chosen, s')) :
    (∃ rest, (chosen ++ rest).Perm s.ready) ∧ ∃ csprng,
      s' = { s with csprng := csprng, toLaneLists := s.toLaneLists.withdraw chosen } := by
  obtain ⟨⟨chosen', csprng⟩, hselect, heq⟩ := map_eq_some_iff.mp h
  cases heq
  obtain ⟨rest, hperm⟩ := select_perm hselect
  exact ⟨⟨rest, by simpa [Function.comp_def] using hperm⟩, csprng, rfl⟩

end SchedulerState

inductive Op where
  | registerLane (lane : LaneId) (cls : WeightClass)
  | registerWait (lane : LaneId) (resource : WaitResource)
  | signalReady (lane : LaneId)
  | notifyComplete (lane : LaneId)
  | setLaneWeight (lane : LaneId) (weight : Nat)
  | updateLaneWeight (lane : LaneId) (weight : Nat)
  | advanceClock (delta : Nat)
  | advanceToNextTimer
  | takeDispatchBatch

inductive Reply where
  | done
  | flag (b : Bool)
  | batch (lanes : List LaneId)

/-- One call; `none` is a call that panics or does not return. -/
def step (hash : Hash) (build : BuildProfile) (tries : Nat) (op : Op) (s : SchedulerState) :
    Option (Reply × SchedulerState) :=
  match op with
  | .registerLane lane cls => some (.done, s.registerLane lane cls)
  | .registerWait lane resource => some (.done, s.registerWait lane resource)
  | .signalReady lane => some (.done, s.signalReady lane)
  | .notifyComplete lane => some (.done, s.notifyComplete lane)
  | .setLaneWeight lane weight => some ((s.setLaneWeight lane weight).map .flag id)
  | .updateLaneWeight lane weight => some ((s.updateLaneWeight lane weight).map .flag id)
  | .advanceClock delta => some (.done, s.advanceClock delta)
  | .advanceToNextTimer => some (s.advanceToNextTimer.map .flag id)
  | .takeDispatchBatch => (s.takeDispatchBatch hash build tries).map (Prod.map .batch id)

inductive Stepped (hash : Hash) (build : BuildProfile) (tries : Nat) (s : SchedulerState) :
    Op → Reply → SchedulerState → Prop
  | registerLane {lane : LaneId} {cls : WeightClass} :
      Stepped hash build tries s (.registerLane lane cls) .done (s.registerLane lane cls)
  | registerWait {lane : LaneId} {resource : WaitResource} :
      Stepped hash build tries s (.registerWait lane resource) .done (s.registerWait lane resource)
  | signalReady {lane : LaneId} : Stepped hash build tries s (.signalReady lane) .done (s.signalReady lane)
  | notifyComplete {lane : LaneId} :
      Stepped hash build tries s (.notifyComplete lane) .done (s.notifyComplete lane)
  | weight {op : Op} {lane : LaneId} {weight : Nat}
      (call : op = .setLaneWeight lane weight ∨ op = .updateLaneWeight lane weight)
      (compute : s.profile = .compute) :
      Stepped hash build tries s op (.flag true) { s with overrides := s.overrides.insert lane (max weight 1) }
  | noWeight {op : Op} {lane : LaneId} {weight : Nat}
      (call : op = .setLaneWeight lane weight ∨ op = .updateLaneWeight lane weight)
      (fixed : s.profile ≠ .compute) : Stepped hash build tries s op (.flag false) s
  | advanceClock {delta : Nat} : Stepped hash build tries s (.advanceClock delta) .done
      { s with now := Monotonic.saturatingAdd s.now delta }.releaseMatured
  | timer {deadline : Nat} (next : s.earliest = some deadline) :
      Stepped hash build tries s .advanceToNextTimer (.flag true)
        { s with now := max s.now deadline }.releaseMatured
  | noTimer (none : s.earliest = none) : Stepped hash build tries s .advanceToNextTimer (.flag false) s
  | batch {chosen : List LaneId} {s' : SchedulerState}
      (taken : s.takeDispatchBatch hash build tries = some (chosen, s')) :
      Stepped hash build tries s .takeDispatchBatch (.batch chosen) s'

variable {s : SchedulerState}

theorem setLaneWeight_stepped {op : Op} {lane : LaneId} {weight : Nat}
    (call : op = .setLaneWeight lane weight ∨ op = .updateLaneWeight lane weight) :
    Stepped hash build tries s op (.flag (s.setLaneWeight lane weight).1) (s.setLaneWeight lane weight).2 := by
  rw [SchedulerState.setLaneWeight]
  split
  · rename_i hcompute
    exact .weight call (of_decide_eq_true hcompute)
  · rename_i hfixed
    exact .noWeight call fun hcompute => hfixed (decide_eq_true hcompute)

theorem stepped {s' : SchedulerState} {op : Op}
    {reply : Reply} (h : step hash build tries op s = some (reply, s')) :
    Stepped hash build tries s op reply s' := by
  cases op with
  | registerLane lane cls =>
    cases h
    exact .registerLane
  | registerWait lane resource =>
    cases h
    exact .registerWait
  | signalReady lane =>
    cases h
    exact .signalReady
  | notifyComplete lane =>
    cases h
    exact .notifyComplete
  | setLaneWeight lane weight =>
    cases h
    exact setLaneWeight_stepped (.inl rfl)
  | updateLaneWeight lane weight =>
    cases h
    exact setLaneWeight_stepped (.inr rfl)
  | advanceClock delta =>
    cases h
    exact .advanceClock
  | advanceToNextTimer =>
    rw [step, SchedulerState.advanceToNextTimer] at h
    rcases hnext : s.earliest with _ | deadline
    · rw [hnext] at h
      cases h
      exact .noTimer hnext
    · rw [hnext] at h
      cases h
      exact .timer hnext
  | takeDispatchBatch =>
    obtain ⟨⟨chosen, next⟩, htaken, heq⟩ := map_eq_some_iff.mp h
    cases heq
    exact .batch htaken

end CibosPlatform.Kernel.Scheduler.State
