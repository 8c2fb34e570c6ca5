/- source: cibos-sdk/src/time.rs, cibos-async-runtime/src/future.rs, cibos-kernel/src/scheduler.rs,
     cibos-kernel/src/channel.rs
   digest: When the sleeps of a host's lanes last as long as they were asked to. -/

import CibosPlatform.Sdk.Task

namespace CibosPlatform.Sdk.Sleep

open Core Events Interaction LittleEndian MachineWord List
open Kernel.Channel.Queue (ChannelInner)
open Kernel.Loop Kernel.Scheduler.Entropy
open Kernel.Scheduler.State (SchedulerState)
open Channel Sdk.Task Shared Config Ipc

theorem now_call {t : Nat} (q : KernelCall) (s1 : SchedulerState) (a : KernelAnswer q)
    (s2 : SchedulerState)
    (h : s1.now = t) (asked : schedulerEnv q s1 = some (a, s2)) : s2.now = t := by
  cases called asked with
  | stalled | woken | weighed => exact h

section

variable {S V : Type} {code : S → Instruction S V} {fuel : Nat} {hash : Hash}
  {build : BuildProfile} {tries : Nat}
  {k0 k k' : KernelState (Future S V) (Host V)} {events : List (Op (Future S V) × Reply)}

def Next (k : KernelState (Future S V) (Host V)) (op : Op (Future S V)) (lane : LaneId)
    (future : Future S V) :
    Prop :=
  op = .poll ∧ (∃ rest polls, k.loop = some ⟨lane :: rest, polls⟩) ∧
    k.executor.lanes.get? lane = some future

variable {lane : LaneId} {result : LanePoll} {calls : List KernelCall} {op : Op (Future S V)}

theorem polled_accounts {future : Future S V} (there : k.executor.lanes.get? lane = some future)
    (polled : Polled (behaviour code fuel) lane k (result, calls, k')) :
    result ≠ .notFound ∧ Accounts code k.memory.channels future k'.memory.endings ∧
      k'.scheduler.now = k.scheduler.now := by
  cases polled with
  | notFound gone =>
    rw [gone] at there
    cases there
  | completed there' ran ended | pending there' ran ended =>
    rw [there'] at there
    cases there
    refine ⟨by simp, (behaviour_accounts fuel future k.memory).sound ran ended, ?_⟩
    exact Ask.run_invariant (I := fun s => s.now = k.scheduler.now) ran rfl now_call

theorem settle_frame (lane : LaneId) (result : LanePoll) (k : KernelState (Future S V) (Host V)) :
    (k.settle lane result).memory = k.memory ∧
    (k.settle lane result).scheduler.now = k.scheduler.now := by
  cases result with
  | completed | pending | notFound => exact ⟨rfl, rfl⟩

theorem accounts_of_next {future : Future S V} {reply : Reply} (next : Next k op lane future)
    (taken : step hash build tries (behaviour code fuel) op k = some (reply, k')) :
    (∃ result calls, reply = .polled lane result calls ∧ result ≠ .notFound) ∧
      Accounts code k.memory.channels future k'.memory.endings ∧
        k'.scheduler.now = k.scheduler.now := by
  obtain ⟨rfl, ⟨rest, polls, hloop⟩, hthere⟩ := next
  generalize hop : Op.poll = op at taken
  cases stepped taken with
  | spawned outside spawned | clock outside advanced quiet => simp [hloop] at outside
  | entered outside | dispatched inside batch | left inside idle => cases hop
  | @polled lane' rest' polls' next' result calls k1 inside polled =>
    rw [hloop] at inside
    cases inside
    obtain ⟨hfound, haccounts, hnow⟩ := polled_accounts hthere polled
    obtain ⟨hmemory, hclock⟩ := settle_frame lane result k1
    refine ⟨⟨result, calls, rfl, hfound⟩, ?_, hclock.trans hnow⟩
    rw [hmemory]
    exact haccounts

theorem next_of_polled
    (taken : step hash build tries (behaviour code fuel) op k = some
      (.polled lane result calls, k'))
    (found : result ≠ .notFound) : ∃ future, Next k op lane future := by
  generalize hreply : Reply.polled lane result calls = reply at taken
  cases stepped taken with
  | spawned outside spawned =>
    cases spawned with
    | refused | installed => cases hreply
  | clock outside advanced quiet => exact absurd hreply.symm (quiet _ _ _)
  | entered outside | dispatched inside batch | left inside idle => cases hreply
  | polled inside polled =>
    cases hreply
    cases polled with
    | notFound gone => exact absurd rfl found
    | completed there ran ended | pending there ran ended => exact ⟨_, rfl, ⟨_, _, inside⟩, there⟩

/-- A poll that found its future was the last step, and the sleeps that ended in it have lasted. -/
def SleepsLast (events : List (Op (Future S V) × Reply)) (k : KernelState (Future S V) (Host V)) :
    Prop :=
  ∀ pre op lane result calls, events = pre ++ [(op, .polled lane result calls)] →
    result ≠ .notFound →
    ∀ since duration, .slept since duration ∈ k.memory.endings → since + duration ≤ k.scheduler.now

def SleepDue (_ : List (Op (Future S V) × Reply)) (k : KernelState (Future S V) (Host V))
    (op : Op (Future S V)) :
    Prop :=
  ∀ lane future, Next k op lane future → ∀ since duration,
    future.sleep = some (since, duration) → since + duration ≤ k.scheduler.now

/-- The lane that is polled next is in no timeout whose time has not come, unless the future under the
timeout is about to finish. -/
def TimersDue (code : S → Instruction S V) (_ : List (Op (Future S V) × Reply))
    (k : KernelState (Future S V) (Host V)) (op : Op (Future S V)) : Prop :=
  ∀ lane future, Next k op lane future → future.Kept code k.memory.channels k.scheduler.now

def AllDue (code : S → Instruction S V) (pre : List (Op (Future S V) × Reply))
    (k : KernelState (Future S V) (Host V)) (op : Op (Future S V)) : Prop :=
  SleepDue pre k op ∧ TimersDue code pre k op

theorem timersDue_of_ne (other : op ≠ .poll) : TimersDue code events k op :=
  fun _ _ next => absurd next.1 other

theorem allDue_of_ne (other : op ≠ .poll) : AllDue code events k op :=
  ⟨fun _ _ next => absurd next.1 other, timersDue_of_ne other⟩

section

variable {lane lane' : LaneId} {rest : List LaneId} {polls : Nat} {future future' : Future S V}

variable (inside : k.loop = some ⟨lane :: rest, polls⟩)
  (there : k.executor.lanes.get? lane = some future)

include inside there

theorem Next.unique (next : Next k .poll lane' future') : future' = future := by
  obtain ⟨-, ⟨rest', polls', hloop⟩, hthere⟩ := next
  cases inside.symm.trans hloop
  exact Option.some.inj (hthere.symm.trans there)

theorem timersDue_of_future (kept : future.Kept code k.memory.channels k.scheduler.now) :
    TimersDue code events k .poll := by
  intro lane' future' hnext
  rw [Next.unique inside there hnext]
  exact kept

theorem allDue_of_future
    (due : ∀ since duration, future.sleep = some (since, duration) →
      since + duration ≤ k.scheduler.now)
    (kept : future.Kept code k.memory.channels k.scheduler.now) : AllDue code events k .poll := by
  refine ⟨fun lane' future' hnext => ?_, timersDue_of_future inside there kept⟩
  rw [Next.unique inside there hnext]
  exact due

end

theorem last_poll {pre post : List (Op (Future S V) × Reply)}
    {C : List (Op (Future S V) × Reply) → KernelState (Future S V) (Host V) →
      Op (Future S V) → Prop}
    (h : Run (step hash build tries (behaviour code fuel)) k0
      (pre ++ [(op, .polled lane result calls)]) k)
    (meets : Meets (step hash build tries (behaviour code fuel)) k0 C
      (pre ++ [(op, .polled lane result calls)] ++ post))
    (found : result ≠ .notFound) : ∃ k1 future, C pre k1 op ∧ Next k1 op lane future ∧
      Accounts code k1.memory.channels future k.memory.endings ∧
        k.scheduler.now = k1.scheduler.now := by
  obtain ⟨k1, k2, hbefore, htaken, hrest⟩ := h.event
  obtain rfl := hrest.of_nil
  obtain ⟨future, hnext⟩ := next_of_polled htaken found
  obtain ⟨-, haccounts, hnow⟩ := accounts_of_next hnext htaken
  refine ⟨k1, future, ?_, hnext, haccounts, hnow⟩
  refine meets pre op (.polled lane result calls) post k1 ?_ hbefore
  rw [append_assoc, singleton_append]

/-- In every run in which a lane is polled only when its sleep and its timers are due, no sleep ends
early; and if none does, a lane is polled only when its sleep is due. -/
theorem run_sleeps_last (h : Run (step hash build tries (behaviour code fuel)) k0 events k) :
    (Meets (step hash build tries (behaviour code fuel)) k0 (AllDue code) events →
      Through (step hash build tries (behaviour code fuel)) k0 SleepsLast events) ∧
    (Through (step hash build tries (behaviour code fuel)) k0 SleepsLast events →
      Meets (step hash build tries (behaviour code fuel)) k0 SleepDue events) := by
  constructor
  · rintro hmeets pre post k' rfl hrun before op lane result calls rfl hfound since duration hslept
    obtain ⟨k1, future, hdue, hnext, haccounts, hnow⟩ := last_poll hrun hmeets hfound
    rw [hnow]
    have hfair := haccounts.fair k1.scheduler.now (hdue.2 lane future hnext) _ hslept
    exact hfair.elim (hdue.1 lane future hnext since duration) id
  · rintro hlast pre op reply post k1 rfl hrun lane future hnext since duration hsleep
    obtain ⟨k1', k2, hbefore, htaken, -⟩ := h.event
    obtain rfl := hrun.unique hbefore
    obtain ⟨⟨result, calls, rfl, hfound⟩, haccounts, hnow⟩ := accounts_of_next hnext htaken
    rw [← hnow]
    refine hlast (pre ++ [(op, _)]) post k2 ?_ (hbefore.next htaken) pre op lane result
      calls rfl hfound since
      duration (haccounts.woken since duration hsleep)
    rw [append_assoc, singleton_append]

end

/-- A lane that looks into a channel and then sleeps, from 0 on, or only sleeps, from 1 on; and one that
sends, from 3 on. -/
def sleeper : Nat → Instruction Nat Unit
  | 0 => .tryReceive 0 fun _ => 1
  | 1 => .sleep 100 2
  | 3 => .send 0 () fun _ => 2
  | _ => .finish ()

def sleeperStep : Op (Future Nat Unit) → KernelState (Future Nat Unit) (Host Unit) →
    Option (Reply × KernelState (Future Nat Unit) (Host Unit)) :=
  step zeros .dev 1 (behaviour sleeper 10)

def sleeperHost : KernelState (Future Nat Unit) (Host Unit) :=
  .new zeros 2 (Vector.replicate 32 0) .balanced 8
    ⟨fun channel => ⟨[], .new channel ⟨⟨[], Nat.zero_le _⟩, .bidirectional, 1, 1⟩⟩, []⟩

def wholeSleep : List (Op (Future Nat Unit) × Reply) :=
  [(.spawnOn 1 .user (.running 1), .spawned (.ok 1)), (.enter, .done), (.dispatch, .batch [1]),
    (.poll, .polled 1 .pending [.now, .registerWait 1 (.timer 100)]), (.leave, .idle 1),
    (.advanceToNextTimer, .flag true), (.enter, .done), (.dispatch, .batch [1]),
      (.poll, .polled 1 .completed [])]

theorem run_sleeps_last_whole : ∃ k, Run sleeperStep sleeperHost wholeSleep k ∧
    Meets sleeperStep sleeperHost (AllDue sleeper) wholeSleep ∧
      Through sleeperStep sleeperHost SleepsLast wholeSleep ∧
    .slept 0 100 ∈ k.memory.endings := by
  -- before the first poll the lane is in no sleep, before the second in the one that is due
  obtain ⟨k1, hfirst, hloop1, hfuture1⟩ : ∃ k, Run sleeperStep sleeperHost (wholeSleep.take 3) k ∧
      k.loop = some ⟨[1], 0⟩ ∧ k.executor.lanes.get? 1 = some (.running 1) :=
    ⟨_, .eval rfl, rfl, rfl⟩
  obtain ⟨k2, hsecond, hloop2, hfuture2, hnow2⟩ :
    ∃ k, Run sleeperStep sleeperHost (wholeSleep.take 8) k ∧
      k.loop = some ⟨[1], 0⟩ ∧ k.executor.lanes.get? 1 = some (.sleeping 0 100 2) ∧
        k.scheduler.now = 100 :=
    ⟨_, .eval rfl, rfl, rfl, rfl⟩
  have hbefore : Meets sleeperStep sleeperHost (AllDue sleeper) ([] ++ wholeSleep.take 3) :=
    meets_nil.append (by simp [wholeSleep, allDue_of_ne])
  have hawake : AllDue sleeper (wholeSleep.take 3) k1 .poll := by
    refine allDue_of_future hloop1 hfuture1 ?_ trivial
    simp [Future.sleep]
  have hbetween : Meets sleeperStep sleeperHost (AllDue sleeper)
    (wholeSleep.take 4 ++ (wholeSleep.drop 4).take 4) :=
    Meets.append (hbefore.next hfirst hawake) (by simp [wholeSleep, allDue_of_ne])
  have hdue : AllDue sleeper (wholeSleep.take 8) k2 .poll := by
    refine allDue_of_future hloop2 hfuture2 (fun since duration hsleep => ?_) trivial
    cases hsleep
    omega
  have hmeets : Meets sleeperStep sleeperHost (AllDue sleeper) wholeSleep :=
    hbetween.next hsecond hdue
  exact ⟨_, .eval rfl, hmeets, (run_sleeps_last (.eval rfl)).1 hmeets, mem_singleton_self _⟩

def wokenByMessage : List (Op (Future Nat Unit) × Reply) :=
  [(.spawnOn 1 .user (.running 0), .spawned (.ok 1)),
    (.spawnOn 2 .user (.running 3), .spawned (.ok 2)),
    (.enter, .done), (.dispatch, .batch [1, 2]),
    (.poll,
      .polled 1 .pending [.registerWait 1 (.channelData 0), .now, .registerWait 1 (.timer 100)]),
    (.poll, .polled 2 .completed [.signalReady 1]), (.dispatch, .batch [1]),
      (.poll, .polled 1 .completed [])]

/-- The sleep of 100 that began at 0 is over at 0. -/
theorem sleep_ended_by_message : ∃ k, Run sleeperStep sleeperHost wokenByMessage k ∧
    .slept 0 100 ∈ k.memory.endings ∧ k.scheduler.now = 0 :=
  ⟨_, .eval rfl, mem_singleton_self _, rfl⟩

end CibosPlatform.Sdk.Sleep
