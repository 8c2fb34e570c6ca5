/- source: cibos-kernel/src/kernel.rs, cibos-async-runtime/src/executor.rs
   digest: The kernel with its scheduling loop, over futures of any kind. -/

import CibosPlatform.Core.Interaction
import CibosPlatform.Kernel.Scheduler.State
import CibosPlatform.Runtime.Executor

/-! The loop of `run_until_idle` is taken apart into the steps between which other code could look at it:
entering it, taking a batch, polling the next lane of the batch, and leaving it when no lane is ready. -/

namespace CibosPlatform.Kernel.Loop

open Core Interaction LittleEndian MachineWord Maps Scheduler.Entropy Option
open Kernel.Scheduler.State (SchedulerState)
open Runtime.Executor Shared Config Ipc

inductive KernelCall where
  | registerWait (lane : LaneId) (resource : WaitResource)
  | signalReady (lane : LaneId)
  | now
  | setLaneWeight (lane : LaneId) (weight : Nat)
  | updateLaneWeight (lane : LaneId) (weight : Nat)

abbrev KernelAnswer : KernelCall → Type
  | .registerWait .. => Unit
  | .signalReady _ => Unit
  | .now => Nat
  | .setLaneWeight .. => Bool
  | .updateLaneWeight .. => Bool

def schedulerEnv : Env KernelCall KernelAnswer SchedulerState
  | .registerWait lane resource, s => some ((), s.registerWait lane resource)
  | .signalReady lane, s => some ((), s.signalReady lane)
  | .now, s => some (s.now, s)
  | .setLaneWeight lane weight, s => some (s.setLaneWeight lane weight)
  | .updateLaneWeight lane weight, s => some (s.updateLaneWeight lane weight)

/-- What a call does to the scheduler: a lane is stalled, or made ready, or at most a weight is set. -/
inductive Called (s : SchedulerState) : KernelCall → SchedulerState → Prop
  | stalled {lane : LaneId} {resource : WaitResource} :
      Called s (.registerWait lane resource) (s.registerWait lane resource)
  | woken {lane : LaneId} : Called s (.signalReady lane) (s.signalReady lane)
  | weighed {q : KernelCall} {overrides : SortedMap LaneId Nat} : Called s q { s with overrides := overrides }

variable (s : SchedulerState)

theorem called_setLaneWeight (q : KernelCall) (lane : LaneId) (weight : Nat) :
    Called s q (s.setLaneWeight lane weight).2 := by
  unfold SchedulerState.setLaneWeight
  split
  · exact .weighed
  · exact .weighed

theorem called {q : KernelCall} {s s' : SchedulerState} {a : KernelAnswer q}
    (asked : schedulerEnv q s = some (a, s')) : Called s q s' := by
  cases q with
  | registerWait lane resource =>
    cases asked
    exact .stalled
  | signalReady lane =>
    cases asked
    exact .woken
  | now =>
    cases asked
    exact .weighed
  | setLaneWeight lane weight | updateLaneWeight lane weight =>
    obtain rfl : (s.setLaneWeight lane weight).2 = s' := congrArg Prod.snd (some.inj asked)
    exact called_setLaneWeight s _ lane weight

inductive Poll (F : Type) where
  | ready
  | pending (future : F)

abbrev Behaviour (F M : Type) := LaneId → F → M → Ask KernelCall KernelAnswer Empty (Poll F × M)

inductive LanePoll where
  | completed
  | pending
  | notFound

/-- A call of `run_until_idle` under way: the lanes of the batch still to be polled, and the polls made. -/
structure Round where
  rest : List LaneId
  polls : Nat

structure KernelState (F M : Type) where
  scheduler : SchedulerState
  executor : LaneExecutor F
  memory : M
  loop : Option Round

inductive Op (F : Type) where
  | spawn (cls : WeightClass) (future : F)
  | spawnWithLane (cls : WeightClass) (build : LaneId → F)
  | spawnOn (lane : LaneId) (cls : WeightClass) (future : F)
  | advanceClock (delta : Nat)
  | advanceToNextTimer
  | enter
  | dispatch
  | poll
  | leave

inductive Reply where
  | done
  | spawned (r : Except RuntimeError LaneId)
  | flag (b : Bool)
  | batch (lanes : List LaneId)
  | polled (lane : LaneId) (result : LanePoll) (calls : List KernelCall)
  | idle (polls : Nat)

namespace KernelState

variable {F M : Type}

def new (hash : Hash) (contexts : Nat) (seed : Vector Byte 32) (profile : CibosProfile) (maxLanes : Nat)
    (memory : M) : KernelState F M where
  scheduler := .new hash contexts seed profile
  executor := .new maxLanes
  memory := memory
  loop := none

def register (cls : WeightClass) (k : KernelState F M) :
    Except RuntimeError LaneId × LaneExecutor F × SchedulerState → Reply × KernelState F M
  | (.error error, executor, scheduler) =>
    (.spawned (.error error), { k with executor := executor, scheduler := scheduler })
  | (.ok lane, executor, scheduler) =>
    (.spawned (.ok lane), { k with executor := executor, scheduler := scheduler.registerLane lane cls })

def pollLane (behaviour : Behaviour F M) (lane : LaneId) (k : KernelState F M) :
    Option (LanePoll × List KernelCall × KernelState F M) :=
  match k.executor.lanes.get? lane with
  | none => some (.notFound, [], k)
  | some future =>
    ((behaviour lane future k.memory).run schedulerEnv k.scheduler).bind fun r =>
      match r.outcome with
      | .ok (.ready, memory) => some (.completed, r.events.map Sigma.fst,
          { k with scheduler := r.state, executor := k.executor.remove lane, memory := memory })
      | .ok (.pending future, memory) => some (.pending, r.events.map Sigma.fst,
          { k with scheduler := r.state, executor := k.executor.install lane future, memory := memory })
      | .err _ => none
      | .panic => none

def settle (lane : LaneId) (result : LanePoll) (k : KernelState F M) : KernelState F M :=
  match result with
  | .completed => { k with scheduler := k.scheduler.notifyComplete lane }
  | .notFound => { k with scheduler := k.scheduler.notifyComplete lane }
  | .pending => k

/-- `polls += 1`, with the assertion of a debug build that the loop does not run away. -/
def countPoll (build : BuildProfile) (polls : Nat) : Option Nat :=
  (addWord build polls 1).bind fun next => if build = .dev ∧ 10000000 ≤ next then none else some next

end KernelState

section

variable {F M : Type}

/-- One step; `none` is a step that panics, does not return or is not what comes next. -/
def step (hash : Hash) (build : BuildProfile) (tries : Nat) (behaviour : Behaviour F M) (op : Op F)
    (k : KernelState F M) : Option (Reply × KernelState F M) :=
  match op, k.loop with
  | .spawn cls future, none => (k.executor.spawn build future k.scheduler).map (k.register cls)
  | .spawnWithLane cls make, none => (k.executor.spawnWithLane build make k.scheduler).map (k.register cls)
  | .spawnOn lane cls future, none => (k.executor.spawnOn build lane future k.scheduler).map (k.register cls)
  | .advanceClock delta, none => some (.done, { k with scheduler := k.scheduler.advanceClock delta })
  | .advanceToNextTimer, none =>
    some (.flag k.scheduler.advanceToNextTimer.1, { k with scheduler := k.scheduler.advanceToNextTimer.2 })
  | .enter, none => some (.done, { k with loop := some ⟨[], 0⟩ })
  | .dispatch, some ⟨[], polls⟩ =>
    if k.scheduler.hasReady then
      (k.scheduler.takeDispatchBatch hash build tries).map fun r =>
        (.batch r.1, { k with scheduler := r.2, loop := some ⟨r.1, polls⟩ })
    else none
  | .poll, some ⟨lane :: rest, polls⟩ =>
    (k.pollLane behaviour lane).bind fun r => (KernelState.countPoll build polls).map fun next =>
      (.polled lane r.1 r.2.1, { r.2.2.settle lane r.1 with loop := some ⟨rest, next⟩ })
  | .leave, some ⟨[], polls⟩ => if k.scheduler.hasReady then none else some (.idle polls, { k with loop := none })
  | _, _ => none

inductive Polled (behaviour : Behaviour F M) (lane : LaneId) (k : KernelState F M) :
    LanePoll × List KernelCall × KernelState F M → Prop
  | notFound (gone : k.executor.lanes.get? lane = none) : Polled behaviour lane k (.notFound, [], k)
  | completed {future : F} {r : Ended KernelCall KernelAnswer Empty (Poll F × M) SchedulerState} {memory : M}
      (there : k.executor.lanes.get? lane = some future)
      (ran : (behaviour lane future k.memory).run schedulerEnv k.scheduler = some r)
      (ended : r.outcome = .ok (.ready, memory)) : Polled behaviour lane k (.completed, r.events.map Sigma.fst,
        { k with scheduler := r.state, executor := k.executor.remove lane, memory := memory })
  | pending {future next : F} {r : Ended KernelCall KernelAnswer Empty (Poll F × M) SchedulerState} {memory : M}
      (there : k.executor.lanes.get? lane = some future)
      (ran : (behaviour lane future k.memory).run schedulerEnv k.scheduler = some r)
      (ended : r.outcome = .ok (.pending next, memory)) : Polled behaviour lane k (.pending, r.events.map Sigma.fst,
        { k with scheduler := r.state, executor := k.executor.install lane next, memory := memory })

theorem polled_of_pollLane {behaviour : Behaviour F M} {lane : LaneId} {k : KernelState F M}
    {r : LanePoll × List KernelCall × KernelState F M} (h : k.pollLane behaviour lane = some r) :
    Polled behaviour lane k r := by
  unfold KernelState.pollLane at h
  cases hlane : k.executor.lanes.get? lane with
  | none =>
    rw [hlane] at h
    cases h
    exact .notFound hlane
  | some future =>
    rw [hlane] at h
    obtain ⟨ended, hran, hend⟩ := bind_eq_some_iff.mp h
    split at hend
    · rename_i memory houtcome
      cases hend
      exact .completed hlane hran houtcome
    · rename_i next memory houtcome
      cases hend
      exact .pending hlane hran houtcome
    · cases hend
    · cases hend

inductive Advanced (s : SchedulerState) : SchedulerState → Prop
  | same : Advanced s s
  | moved {now : Nat} : Advanced s { s with now := now }.releaseMatured

inductive Stepped (hash : Hash) (build : BuildProfile) (tries : Nat) (behaviour : Behaviour F M)
    (k : KernelState F M) : Op F → Reply → KernelState F M → Prop
  | spawned {op : Op F} {cls : WeightClass} {r : Except RuntimeError LaneId × LaneExecutor F × SchedulerState}
      (outside : k.loop = none) (spawned : LaneExecutor.Spawned k.executor k.scheduler r) :
      Stepped hash build tries behaviour k op (k.register cls r).1 (k.register cls r).2
  | clock {op : Op F} {reply : Reply} {s : SchedulerState} (outside : k.loop = none)
      (advanced : Advanced k.scheduler s) (quiet : ∀ lane result calls, reply ≠ .polled lane result calls) :
      Stepped hash build tries behaviour k op reply { k with scheduler := s }
  | entered (outside : k.loop = none) :
      Stepped hash build tries behaviour k .enter .done { k with loop := some ⟨[], 0⟩ }
  | dispatched {polls : Nat} {lanes : List LaneId} {s : SchedulerState} (inside : k.loop = some ⟨[], polls⟩)
      (taken : k.scheduler.takeDispatchBatch hash build tries = some (lanes, s)) :
      Stepped hash build tries behaviour k .dispatch (.batch lanes)
        { k with scheduler := s, loop := some ⟨lanes, polls⟩ }
  | polled {lane : LaneId} {rest : List LaneId} {polls next : Nat} {result : LanePoll} {calls : List KernelCall}
      {k' : KernelState F M} (inside : k.loop = some ⟨lane :: rest, polls⟩)
      (polled : Polled behaviour lane k (result, calls, k')) :
      Stepped hash build tries behaviour k .poll (.polled lane result calls)
        { k'.settle lane result with loop := some ⟨rest, next⟩ }
  | left {polls : Nat} (inside : k.loop = some ⟨[], polls⟩) (idle : k.scheduler.ready = []) :
      Stepped hash build tries behaviour k .leave (.idle polls) { k with loop := none }

variable {hash : Hash} {build : BuildProfile} {tries : Nat} {behaviour : Behaviour F M} {k k' : KernelState F M}
  {op : Op F} {reply : Reply}

theorem stepped_of_spawn {cls : WeightClass}
    {r : Option (Except RuntimeError LaneId × LaneExecutor F × SchedulerState)} (outside : k.loop = none)
    (each : ∀ r', r = some r' → LaneExecutor.Spawned k.executor k.scheduler r')
    (h : r.map (k.register cls) = some (reply, k')) : Stepped hash build tries behaviour k op reply k' := by
  obtain ⟨r', hr, heq⟩ := map_eq_some_iff.mp h
  obtain ⟨rfl, rfl⟩ := Prod.ext_iff.mp heq
  exact .spawned outside (each r' hr)

theorem advanced_toNextTimer : Advanced s s.advanceToNextTimer.2 := by
  unfold SchedulerState.advanceToNextTimer
  cases s.earliest with
  | none => exact .same
  | some deadline => exact .moved

theorem stepped (h : step hash build tries behaviour op k = some (reply, k')) :
    Stepped hash build tries behaviour k op reply k' := by
  unfold step at h
  split at h
  · rename_i outside
    exact stepped_of_spawn outside (fun _ => LaneExecutor.spawnWithLane_spawned) h
  · rename_i outside
    exact stepped_of_spawn outside (fun _ => LaneExecutor.spawnWithLane_spawned) h
  · rename_i outside
    exact stepped_of_spawn outside (fun _ => LaneExecutor.spawnOn_spawned) h
  · rename_i outside
    cases h
    exact .clock outside .moved (by simp)
  · rename_i outside
    cases h
    exact .clock outside (advanced_toNextTimer _) (by simp)
  · rename_i outside
    cases h
    exact .entered outside
  · rename_i polls inside
    rw [ite_none_right_eq_some] at h
    obtain ⟨r, htaken, heq⟩ := map_eq_some_iff.mp h.2
    cases heq
    exact .dispatched inside htaken
  · rename_i lane rest polls inside
    obtain ⟨r, hpoll, hrest⟩ := bind_eq_some_iff.mp h
    obtain ⟨next, -, heq⟩ := map_eq_some_iff.mp hrest
    cases heq
    exact .polled inside (polled_of_pollLane hpoll)
  · rename_i polls inside
    rw [ite_none_left_eq_some] at h
    obtain ⟨hidle, heq⟩ := h
    cases heq
    refine .left inside ?_
    simpa [SchedulerState.hasReady] using hidle
  · cases h

end

end CibosPlatform.Kernel.Loop
