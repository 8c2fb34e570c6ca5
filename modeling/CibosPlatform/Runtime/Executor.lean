/- source: cibos-async-runtime/src/executor.rs, cibos-async-runtime/src/error.rs
   digest: The executor: the futures of the lanes in flight and the ids it gives out. -/

import CibosPlatform.Core.Maps
import CibosPlatform.Shared.Ipc

/-! The waker of a lane is determined by its id, and waking is a signal to the scheduler, so wakers are not
kept. -/

namespace CibosPlatform.Runtime.Executor

open Core MachineWord Maps Shared.Ipc KernelInterface

inductive RuntimeError where
  | laneLimitExceeded (limit : Nat)

structure LaneExecutor (F : Type) where
  lanes : SortedMap LaneId F
  nextId : Nat
  maxLanes : Nat

namespace LaneExecutor

variable {F K : Type} [KernelInterface K]

def new (maxLanes : Nat) : LaneExecutor F := ⟨.empty, 1, maxLanes⟩

variable (e : LaneExecutor F)

def laneCount : Nat := e.lanes.entries.length

def hasLane (lane : LaneId) : Bool := (e.lanes.get? lane).isSome

def install (lane : LaneId) (future : F) : LaneExecutor F :=
  { e with lanes := e.lanes.insert lane future }

def remove (lane : LaneId) : LaneExecutor F := { e with lanes := e.lanes.erase lane }

variable (profile : BuildProfile)

/-- The next id goes to a new lane, whose first poll is asked for. The counter may overflow. -/
def spawnWithLane (build : LaneId → F) (kernel : K) :
    Option (Except RuntimeError LaneId × LaneExecutor F × K) :=
  if e.maxLanes ≤ e.laneCount then some (.error (.laneLimitExceeded e.maxLanes), e, kernel)
  else (addWord profile e.nextId 1).map fun next =>
    (.ok e.nextId, { e.install e.nextId (build e.nextId) with nextId := next },
      signalReady e.nextId kernel)

def spawn (future : F) (kernel : K) : Option (Except RuntimeError LaneId × LaneExecutor F × K) :=
  e.spawnWithLane profile (fun _ => future) kernel

/-- The caller chooses the id. An id in flight is an assertion failure in a debug build; otherwise its
future is replaced. -/
def spawnOn (lane : LaneId) (future : F) (kernel : K) :
    Option (Except RuntimeError LaneId × LaneExecutor F × K) :=
  if e.maxLanes ≤ e.laneCount then some (.error (.laneLimitExceeded e.maxLanes), e, kernel)
  else if profile = .dev ∧ e.hasLane lane then none
  else some (.ok lane, e.install lane future, signalReady lane kernel)

def abort (lane : LaneId) : Bool × LaneExecutor F := (e.hasLane lane, e.remove lane)

variable {e : LaneExecutor F} {lane lane' : LaneId} {future : F}

@[simp] theorem get?_install : (e.install lane future).lanes.get? lane' =
    if lane' = lane then some future else e.lanes.get? lane' :=
  SortedMap.get?_insert ..

@[simp] theorem get?_remove : (e.remove lane).lanes.get? lane' =
    if lane' = lane then none else e.lanes.get? lane' :=
  SortedMap.get?_erase ..

inductive Spawned (e : LaneExecutor F) (kernel : K) :
    Except RuntimeError LaneId × LaneExecutor F × K → Prop
  | refused {error : RuntimeError} : Spawned e kernel (.error error, e, kernel)
  | installed {lane : LaneId} {future : F} {next : Nat} : Spawned e kernel
      (.ok lane, { e.install lane future with nextId := next }, signalReady lane kernel)

variable {r : Except RuntimeError LaneId × LaneExecutor F × K}

theorem spawnWithLane_spawned {profile : BuildProfile} {build : LaneId → F} {kernel : K}
    (h : e.spawnWithLane profile build kernel = some r) :
    Spawned e kernel r := by
  unfold spawnWithLane at h
  split at h
  · cases h
    exact .refused
  · obtain ⟨next, -, rfl⟩ := Option.map_eq_some_iff.mp h
    exact .installed

theorem spawnOn_spawned {profile : BuildProfile} {kernel : K}
    (h : e.spawnOn profile lane future kernel = some r) :
    Spawned e kernel r := by
  unfold spawnOn at h
  split at h
  · cases h
    exact .refused
  · split at h
    · cases h
    · cases h
      exact .installed

end LaneExecutor

end CibosPlatform.Runtime.Executor
