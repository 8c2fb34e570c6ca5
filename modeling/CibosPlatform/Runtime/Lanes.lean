/- source: cibos-async-runtime/src/executor.rs
   digest: The ids an executor mints and the ids its callers choose, in one map. -/

import CibosPlatform.Kernel.Loop

namespace CibosPlatform.Runtime.Lanes

open Core Events MachineWord Maps Executor Shared.Ipc Option LaneExecutor
open Kernel.Loop (Poll LanePoll)
open Kernel.Scheduler.Lists (LaneLists)

variable {F K : Type}

/-- The calls on one executor. A poll comes with what the future does, to itself and to the kernel. -/
inductive Op (F K : Type) where
  | spawn (future : F)
  | spawnWithLane (build : LaneId → F)
  | spawnOn (lane : LaneId) (future : F)
  | pollLane (lane : LaneId) (poll : Poll F) (asks : K → K)
  | abort (lane : LaneId)

inductive Reply where
  | spawned (r : Except RuntimeError LaneId)
  | polled (result : LanePoll)
  | aborted (removed : Bool)

open Reply

def pollLane (lane : LaneId) (poll : Poll F) (e : LaneExecutor F) : LanePoll × LaneExecutor F :=
  match e.lanes.get? lane, poll with
  | none, _ => (.notFound, e)
  | some _, .ready => (.completed, e.remove lane)
  | some _, .pending future => (.pending, e.install lane future)

/-- One call; `none` is one that panics, or a `spawn_on` with an id in flight. -/
def step [KernelInterface K] (profile : BuildProfile) (op : Op F K) (s : LaneExecutor F × K) :
    Option (Reply × LaneExecutor F × K) :=
  match op with
  | .spawn future => (s.1.spawn profile future s.2).map fun r => (.spawned r.1, r.2)
  | .spawnWithLane build => (s.1.spawnWithLane profile build s.2).map fun r => (.spawned r.1, r.2)
  | .spawnOn lane future =>
    if s.1.hasLane lane then none else (s.1.spawnOn profile lane future s.2).map fun r => (.spawned r.1, r.2)
  | .pollLane lane poll asks => some (.polled (pollLane lane poll s.1).1, (pollLane lane poll s.1).2, asks s.2)
  | .abort lane => some (.aborted (s.1.abort lane).1, (s.1.abort lane).2, s.2)

def Op.Mints : Op F K → Prop
  | .spawn _ => True
  | .spawnWithLane _ => True
  | _ => False

def Reply.accepts : Reply → Bool
  | .spawned (.ok _) => true
  | _ => false

def Reply.ends : Reply → Bool
  | .polled .completed => true
  | .aborted true => true
  | _ => false

def Counted (events : List (Op F K × Reply)) (s : LaneExecutor F × K) : Prop :=
  s.1.laneCount + events.countP (fun e => e.2.ends) = events.countP fun e => e.2.accepts

def MintsFresh [KernelInterface K] (profile : BuildProfile) (s : LaneExecutor F × K) (op : Op F K) : Prop :=
  op.Mints → ∀ lane s', step profile op s = some (.spawned (.ok lane), s') → s.1.hasLane lane = false ∧
    ∀ other future, s.1.lanes.get? other = some future → s'.1.lanes.get? other = some future

def CounterFree (s : LaneExecutor F × K) (op : Op F K) : Prop :=
  op.Mints → s.1.laneCount < s.1.maxLanes → s.1.hasLane s.1.nextId = false

variable {profile : BuildProfile} {s s' : LaneExecutor F × K} {op : Op F K} {reply : Reply}
  (e : LaneExecutor F) (lane : LaneId)

theorem laneCount_install (future : F) :
    (e.install lane future).laneCount + (if e.hasLane lane then 1 else 0) = e.laneCount + 1 := by
  have hinsert : (e.install lane future).laneCount = _ := e.lanes.length_insert lane future
  have herase : e.laneCount = _ + if e.hasLane lane then 1 else 0 := e.lanes.length_erase lane
  omega

theorem laneCount_remove :
    (e.remove lane).laneCount + (if e.hasLane lane then 1 else 0) = e.laneCount :=
  (e.lanes.length_erase lane).symm

inductive Stepped (s s' : LaneExecutor F × K) (op : Op F K) : Reply → Prop
  | kept {reply : Reply} (count : s'.1.laneCount = s.1.laneCount) (free : CounterFree s op)
      (accepts : reply.accepts = false) (ends : reply.ends = false) : Stepped s s' op reply
  | minted {future : F} (mints : op.Mints) (room : s.1.laneCount < s.1.maxLanes)
      (lanes : s'.1.lanes = s.1.lanes.insert s.1.nextId future) : Stepped s s' op (.spawned (.ok s.1.nextId))
  | chosen {lane : LaneId} (caller : ¬ op.Mints) (count : s'.1.laneCount = s.1.laneCount + 1) :
      Stepped s s' op (.spawned (.ok lane))
  | ended {reply : Reply} (caller : ¬ op.Mints) (count : s'.1.laneCount + 1 = s.1.laneCount)
      (accepts : reply.accepts = false) (ends : reply.ends = true) : Stepped s s' op reply

theorem counted_iff {events : List (Op F K × Reply)} (before : Counted events s) (stepped : Stepped s s' op reply) :
    Counted (events ++ [(op, reply)]) s' ↔ CounterFree s op := by
  simp only [Counted, List.countP_append, List.countP_singleton] at before ⊢
  cases stepped with
  | kept count free accepts ends => simp [count, accepts, ends, before, free]
  | @minted future mints room lanes =>
    have hcount := laneCount_install s.1 s.1.nextId future
    have hlanes : s'.1.laneCount = (s.1.install s.1.nextId future).laneCount := congrArg (·.entries.length) lanes
    have hfree : CounterFree s op ↔ s.1.hasLane s.1.nextId = false := by simp [CounterFree, mints, room]
    rw [hfree, hlanes, ← before]
    cases hlane : s.1.hasLane s.1.nextId <;> simp [hlane, accepts, ends] at hcount ⊢ <;> omega
  | chosen caller count =>
    have hfree : CounterFree s op := fun hmints => absurd hmints caller
    simp [hfree, accepts.eq_1, ends.eq_3, count, ← before]
    omega
  | ended caller count accepts ends =>
    have hfree : CounterFree s op := fun hmints => absurd hmints caller
    simp [hfree, accepts, ends, ← before]
    omega

variable [KernelInterface K]

private theorem stepped_mints {build : LaneId → F} (mints : op.Mints)
    (h : (s.1.spawnWithLane profile build s.2).map (fun r => (.spawned r.1, r.2)) = some (reply, s')) :
    Stepped s s' op reply := by
  rw [spawnWithLane] at h
  split at h
  · rename_i hfull
    cases h
    exact .kept rfl (fun _ hroom => absurd hroom (not_lt.mpr hfull)) rfl rfl
  · rename_i hroom
    rw [map_map] at h
    obtain ⟨next, -, heq⟩ := map_eq_some_iff.mp h
    cases heq
    exact .minted mints (not_le.mp hroom) rfl

theorem stepped_of_step (h : step profile op s = some (reply, s')) : Stepped s s' op reply := by
  cases op with
  | spawn future | spawnWithLane build => exact stepped_mints trivial h
  | spawnOn lane future =>
    simp only [step, ite_none_left_eq_some] at h
    obtain ⟨hfree, h⟩ := h
    have hcount := laneCount_install s.1 lane future
    rw [if_neg hfree] at hcount
    rw [spawnOn] at h
    split at h
    · cases h
      exact .kept rfl (·.elim) rfl rfl
    · split at h
      · cases h
      · cases h
        exact .chosen id hcount
  | pollLane lane poll asks =>
    cases h
    rcases hlane : s.1.lanes.get? lane with _ | future
    · simp only [pollLane, hlane]
      exact .kept rfl (·.elim) rfl rfl
    · have hthere : s.1.hasLane lane = true := by simp [hasLane, hlane]
      cases poll with
      | ready =>
        simp only [pollLane, hlane]
        have hcount := laneCount_remove s.1 lane
        rw [if_pos hthere] at hcount
        exact .ended id hcount rfl rfl
      | pending next =>
        simp only [pollLane, hlane]
        have hcount := laneCount_install s.1 lane next
        rw [if_pos hthere] at hcount
        exact .kept (Nat.succ.inj hcount) (·.elim) rfl rfl
  | abort lane =>
    cases h
    have hcount := laneCount_remove s.1 lane
    cases hlane : s.1.hasLane lane with
    | false =>
      rw [hlane] at hcount
      exact .kept hcount (·.elim) rfl (by simp [abort, hlane, ends])
    | true =>
      rw [hlane] at hcount
      exact .ended id hcount rfl (by simp [abort, hlane, ends])

theorem mintsFresh_of_free (free : CounterFree s op) : MintsFresh profile s op := by
  intro mints lane s' taken
  cases stepped_of_step taken with
  | kept count free accepts ends => cases accepts
  | minted _ room lanes =>
    have hfree := free mints room
    refine ⟨hfree, fun other future hother => ?_⟩
    rw [lanes, SortedMap.get?_insert, if_neg, hother]
    rintro rfl
    simp [hasLane, hother] at hfree
  | chosen caller count | ended caller count accepts ends => exact absurd mints caller

/-- Minted ids are fresh and the lanes counted right exactly as long as the counter is never at the
id of a lane in flight when a spawn below the limit comes. -/
theorem lane_ids_fresh_iff {maxLanes : Nat} {kernel : K} {events : List (Op F K × Reply)}
    (run : Run (step profile) (.new maxLanes, kernel) events s) :
    (Meets (step profile) (.new maxLanes, kernel) (fun _ s op => MintsFresh profile s op) events ∧
      Through (step profile) (.new maxLanes, kernel) Counted events) ↔
    Meets (step profile) (.new maxLanes, kernel) (fun _ s op => CounterFree s op) events := by
  have hcount := run.through_iff_meets (P := Counted) (C := fun _ s op => CounterFree s op) rfl
    fun pre s a b s' _ before taken => counted_iff before (stepped_of_step taken)
  constructor
  · rintro ⟨-, hcounted⟩
    exact hcount.mp hcounted
  · intro hfree
    exact ⟨fun pre a b post s hsplit hpre => mintsFresh_of_free (hfree pre a b post s hsplit hpre), hcount.mpr hfree⟩

/-- The caller chooses an id that the counter has not reached, and the next ones are minted. -/
theorem lane_ids_fresh_iff_spawn : ∃ events s, Run (step (F := Unit) .dev) (.new 8, LaneLists.empty) events s ∧
    events = [(.spawn (), .spawned (.ok 1)), (.spawnOn 7 (), .spawned (.ok 7)), (.spawn (), .spawned (.ok 2))] ∧
    Meets (step .dev) (.new 8, LaneLists.empty) (fun _ s op => MintsFresh .dev s op) events ∧
    Through (step .dev) (.new 8, LaneLists.empty) Counted events := by
  refine ⟨_, exists_run_eval ⟨_, rfl, fun run => ⟨rfl, (lane_ids_fresh_iff run).mpr ?_⟩⟩⟩
  exact ((meets_nil.next .start fun _ _ => rfl).next (.eval rfl) fun hmints => hmints.elim).next
    (.eval rfl) fun _ _ => rfl

/-- The caller takes the id that the counter stands at. -/
theorem minted_id_in_flight : ∃ s, Run (step .release) (.new 8, LaneLists.empty)
      [(.spawnOn 1 false, .spawned (.ok 1)), (.spawn true, .spawned (.ok 1))] s ∧
    s.1.lanes.get? 1 = some true ∧ ¬ Counted (F := Bool) (K := LaneLists)
      [(.spawnOn 1 false, .spawned (.ok 1)), (.spawn true, .spawned (.ok 1))] s :=
  exists_run_eval ⟨_, rfl, fun _ => ⟨rfl, by unfold Counted; decide⟩⟩

end CibosPlatform.Runtime.Lanes
