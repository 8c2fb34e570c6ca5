/- source: cibos-sdk/src/time.rs, cibos-async-runtime/src/future.rs, cibos-sdk/src/app.rs
   digest: When a timeout returns an error, and what becomes of a sleep under a timeout. -/

import CibosPlatform.Sdk.Host
import CibosPlatform.Sdk.Sleep

namespace CibosPlatform.Sdk.Timeout

open Core Events Interaction MachineWord Kernel.Loop Kernel.Scheduler.Entropy
open Kernel.Scheduler.Lists
open Kernel.Scheduler.State (SchedulerState)
open Runtime.Executor Channel Host Sleep Sdk.Task Shared.Ipc

section

variable {S V : Type} {code : S → Instruction S V} {fuel : Nat} {hash : Hash} {build : BuildProfile} {tries : Nat}
  {k0 k : KernelState (Future S V) (Host V)} {events : List (Op (Future S V) × Reply)}

/-- A poll that found its future was the last step, and the timeouts that returned an error in it had
lasted. -/
def TimeoutsLast (events : List (Op (Future S V) × Reply)) (k : KernelState (Future S V) (Host V)) : Prop :=
  ∀ pre op lane result calls, events = pre ++ [(op, .polled lane result calls)] → result ≠ .notFound →
    ∀ since duration, .returned since duration false ∈ k.memory.endings → since + duration ≤ k.scheduler.now

theorem timeouts_last
    (meets : Meets (step hash build tries (behaviour code fuel)) k0 (TimersDue code) events) :
    Through (step hash build tries (behaviour code fuel)) k0 TimeoutsLast events := by
  rintro pre post k' rfl hrun before op lane result calls rfl hfound since duration hreturned
  obtain ⟨k1, future, hdue, hnext, haccounts, hnow⟩ := last_poll hrun meets hfound
  rw [hnow]
  have hfair := haccounts.fair k1.scheduler.now (hdue lane future hnext) _ hreturned
  exact hfair.resolve_left (by simp)

end

structure SleepUnderTimeout {S V : Type} (code : S → Instruction S V) (start : S) (d e : Nat) where
  body : S
  rest : S
  next : Except Unit V → S
  value : V
  timeout : code start = .withTimeout d body next
  sleeps : code body = .sleep e rest
  wakes : code rest = .finish value
  returns : ∀ r, ∃ v, code (next r) = .finish v

section

variable {S V : Type} {code : S → Instruction S V} {start : S} {d e : Nat} {lane : LaneId} {fuel : Nat}
  {host : Host V} {k : KernelState (Future S V) (Host V)} (u : SleepUnderTimeout code start d e)

theorem behaviour_first :
    behaviour code (fuel + 3) lane (.running start) host = startTimer lane e fun t => startTimer lane d fun t' =>
      .done (.pending (.timing (.sleeping t e u.rest) t' d u.next), ⟨host.channels, []⟩) := by
  simp only [behaviour, pollFuture, u.timeout, u.sleeps]
  rfl

theorem behaviour_second (t t' : Nat) :
    behaviour code (fuel + 3) lane (.timing (.sleeping t e u.rest) t' d u.next) host =
      .done (.ready, ⟨host.channels, [.slept t e, .returned t' d true]⟩) := by
  obtain ⟨v, hv⟩ := u.returns (.ok u.value)
  have hbody : pollFuture code lane (fuel + 2) (.sleeping t e u.rest) host.channels =
      .done ⟨.ready u.value, host.channels, [.slept t e]⟩ := by
    simp only [pollFuture, u.wakes]
    rfl
  have hlater : pollFuture code lane (fuel + 2) (.running (u.next (.ok u.value))) host.channels =
      .done ⟨.ready v, host.channels, []⟩ := by
    simp only [pollFuture, hv]
  have hall : pollFuture code lane (fuel + 3) (.timing (.sleeping t e u.rest) t' d u.next) host.channels =
      after [.slept t e, .returned t' d true] (.done ⟨.ready v, host.channels, []⟩) := by
    rw [pollFuture, hbody]
    exact congrArg (after _) hlater
  rw [behaviour, hall]
  rfl

variable (hash : Hash) (build : BuildProfile) (tries fuel turns : Nat)

variable (u : SleepUnderTimeout code start d e)

theorem first_round (alone : Alone lane (.running start) k) : ∃ k',
      runUntilIdle hash build tries (behaviour code (fuel + 3)) (turns + 3) k = some k' ∧
      k'.scheduler.now = k.scheduler.now ∧
      Parked lane (.timing (.sleeping k.scheduler.now e u.rest) k.scheduler.now d u.next)
        (Monotonic.saturatingAdd k.scheduler.now d) k' := by
  -- the sleep is registered first, and the timer in its place
  have hpoll : (dispatched lane k).pollLane (behaviour code (fuel + 3)) lane =
      some (.pending, [.now, .registerWait lane (.timer (Monotonic.saturatingAdd k.scheduler.now e)), .now,
          .registerWait lane (.timer (Monotonic.saturatingAdd k.scheduler.now d))],
        { dispatched lane k with
          scheduler := ((dispatched lane k).scheduler.registerWait lane
            (.timer (Monotonic.saturatingAdd k.scheduler.now e))).registerWait lane
              (.timer (Monotonic.saturatingAdd k.scheduler.now d))
          executor := k.executor.install lane
            (.timing (.sleeping k.scheduler.now e u.rest) k.scheduler.now d u.next)
          memory := ⟨k.memory.channels, []⟩ }) := by
    simp only [KernelState.pollLane, dispatched, alone.there, behaviour_first u]
    rfl
  have hidle : List.filter (fun l => l ≠ lane) (List.filter (fun l => l ≠ lane)
      (k.scheduler.ready.filter fun l => l ∉ [lane])) = [] := by
    simp [alone.ready]
  refine ⟨_, runUntilIdle_alone turns alone hpoll hidle, rfl, ?_⟩
  refine ⟨rfl, hidle, ?_, ?_, ?_, alone.contexts⟩
  · exact LaneExecutor.get?_install.trans (if_pos rfl)
  · exact LaneLists.get?_stalled_registerWait.trans (if_pos rfl)
  · intro other deadline hother
    refine ne_of_eq_of_ne (LaneLists.get?_stalled_registerWait.trans (if_neg hother)) ?_
    refine ne_of_eq_of_ne (LaneLists.get?_stalled_registerWait.trans (if_neg hother)) ?_
    exact alone.others other deadline hother

theorem second_round {t : Nat}
    (alone : Alone lane (.timing (.sleeping t e u.rest) t d u.next) k) : ∃ k',
      runUntilIdle hash build tries (behaviour code (fuel + 3)) (turns + 3) k = some k' ∧
      k'.scheduler.now = k.scheduler.now ∧ k'.loop = none ∧ k'.scheduler.ready = [] ∧
      (∀ other deadline, k'.scheduler.stalled.get? other ≠ some (.timer deadline)) ∧
      k'.memory.endings = [.slept t e, .returned t d true] := by
  have hpoll : (dispatched lane k).pollLane (behaviour code (fuel + 3)) lane = some (.completed, [],
      { dispatched lane k with
        executor := k.executor.remove lane
        memory := ⟨k.memory.channels, [.slept t e, .returned t d true]⟩ }) := by
    simp only [KernelState.pollLane, dispatched, alone.there, behaviour_second u]
    rfl
  have hidle : List.filter (fun l => l ≠ lane) (k.scheduler.ready.filter fun l => l ∉ [lane]) = [] := by
    simp [alone.ready]
  refine ⟨_, runUntilIdle_alone turns alone hpoll hidle, rfl, rfl, hidle, fun other deadline => ?_, rfl⟩
  by_cases hself : other = lane
  · refine ne_of_eq_of_ne (LaneLists.get?_stalled_forget.trans (if_pos hself)) ?_
    simp
  · refine ne_of_eq_of_ne (LaneLists.get?_stalled_forget.trans (if_neg hself)) ?_
    exact alone.others other deadline hself

theorem runInner_sleepUnder (tries fuel turns rounds : Nat) (u : SleepUnderTimeout code start d e)
    (alone : Alone lane (.running start) k) : ∃ k',
      runInner hash build tries (behaviour code (fuel + 3)) (turns + 3) (rounds + 2) k = some k' ∧
      k'.scheduler.now = min (k.scheduler.now + d) (wordBound - 1) ∧
      k'.memory.endings = [.slept k.scheduler.now e, .returned k.scheduler.now d true] := by
  have hbound : k.scheduler.now < wordBound := alone.clock
  obtain ⟨k1, hfirst, hnow1, hparked⟩ := first_round hash build tries fuel turns u alone
  have hdeadline : max k1.scheduler.now (Monotonic.saturatingAdd k.scheduler.now d) =
      min (k.scheduler.now + d) (wordBound - 1) := by
    rw [hnow1, Monotonic.saturatingAdd_eq]
    omega
  obtain ⟨k2, hadvance, halone, -, hnow2⟩ := advance_parked hash build tries (behaviour code (fuel + 3)) hparked (by omega)
  obtain ⟨k3, hsecond, hnow3, houtside, hidle, huntimed, hendings⟩ := second_round hash build tries fuel turns u halone
  have hstop := advance_none hash build tries (behaviour code (fuel + 3)) houtside huntimed
  refine ⟨k3, ?_, ?_, hendings⟩
  · rw [runInner_advance hfirst hparked.idle hadvance, runInner_stop hsecond hidle hstop]
  · rw [hnow3, hnow2, hdeadline]

end

/-- A sleep of `e` under a timeout of `d` that began at `t`: if it is shorter, `Ok` was returned before the
timeout was over; if it is longer, `Err` was returned. -/
def SleepDecided {S V : Type} (t d e : Nat) (k : KernelState (Future S V) (Host V)) : Prop :=
  (e < d → .returned t d true ∈ k.memory.endings ∧ k.scheduler.now < t + d) ∧
    (d < e → .returned t d false ∈ k.memory.endings)

/-- If the lane of a timeout is polled again only when the timeout is over or its future is about to
finish, a timeout errs only when it is over. A sleep under a timeout, alone on the host, comes out
as it should exactly if the two are equally long, or the sleep is shorter and the timeout ends past
the end of the clock. -/
theorem with_timeout_promises {S V : Type} (code : S → Instruction S V) (hash : Hash) (build : BuildProfile)
    (tries fuel turns rounds : Nat) :
    (∀ k0 events, Meets (step hash build tries (behaviour code fuel)) k0 (TimersDue code) events →
      Through (step hash build tries (behaviour code fuel)) k0 TimeoutsLast events) ∧
    (∀ lane start d e k, SleepUnderTimeout code start d e → Alone lane (.running start) k → ∃ k',
      runInner hash build tries (behaviour code (fuel + 3)) (turns + 3) (rounds + 2) k = some k' ∧
      (SleepDecided k.scheduler.now d e k' ↔
        d = e ∨ (e < d ∧ wordBound ≤ k.scheduler.now + d))) := by
  refine ⟨fun k0 events => timeouts_last, fun lane start d e k u alone => ?_⟩
  obtain ⟨k', hrun, hnow, hendings⟩ := runInner_sleepUnder hash build tries fuel turns rounds u alone
  have hbound : k.scheduler.now < wordBound := alone.clock
  have hok : .returned k.scheduler.now d true ∈ k'.memory.endings := by simp [hendings]
  have herr : .returned k.scheduler.now d false ∉ k'.memory.endings := by simp [hendings]
  refine ⟨k', hrun, fun hdecided => ?_, fun hlengths => ⟨fun hshort => ⟨hok, ?_⟩, fun hlong => ?_⟩⟩
  · rcases Nat.lt_trichotomy e d with hshort | hsame | hlong
    · have hearly := (hdecided.1 hshort).2
      refine .inr ⟨hshort, ?_⟩
      omega
    · exact .inl hsame.symm
    · exact absurd (hdecided.2 hlong) herr
  · omega
  · omega

def timed : Nat → Instruction Nat Unit
  | 0 => .withTimeout 100 1 fun _ => 9
  | 1 => .receive 0 fun _ => 2
  | 2 => .receive 1 fun _ => 9
  | 3 => .send 0 () fun _ => 9
  | 4 => .withTimeout 100 5 fun _ => 9
  | 5 => .sleep 50 9
  | 6 => .withTimeout 100 7 fun _ => 9
  | 7 => .sleep 200 9
  | _ => .finish ()

def timedStep : Op (Future Nat Unit) → KernelState (Future Nat Unit) (Host Unit) →
    Option (Reply × KernelState (Future Nat Unit) (Host Unit)) :=
  step zeros .dev 1 (behaviour timed 10)

def wholeTimeout : List (Op (Future Nat Unit) × Reply) :=
  [(.spawnOn 1 .user (.running 0), .spawned (.ok 1)), (.enter, .done), (.dispatch, .batch [1]),
    (.poll, .polled 1 .pending [.registerWait 1 (.channelData 0), .now, .registerWait 1 (.timer 100)]),
    (.leave, .idle 1), (.advanceToNextTimer, .flag true), (.enter, .done), (.dispatch, .batch [1]),
    (.poll, .polled 1 .completed [.registerWait 1 (.channelData 0)])]

def timedSleep : SleepUnderTimeout timed 4 100 50 where
  body := 5
  rest := 9
  next := fun _ => 9
  value := ()
  timeout := rfl
  sleeps := rfl
  wakes := rfl
  returns := fun _ => ⟨(), rfl⟩

/-- A timeout that is over returns an error; and 50 before the end of the clock, the sleep of 50 returns
before the end of the timeout, which the clock does not reach. -/
theorem with_timeout_promises_kept : (Meets timedStep sleeperHost (TimersDue timed) wholeTimeout ∧
      Through timedStep sleeperHost TimeoutsLast wholeTimeout ∧
      ∃ k, Run timedStep sleeperHost wholeTimeout k ∧ .returned 0 100 false ∈ k.memory.endings) ∧
    ∃ k k', Alone 1 (.running 4) k ∧ k.scheduler.now = wordBound - 50 ∧
      runInner zeros .dev 1 (behaviour timed 10) 3 2 k = some k' ∧
      SleepDecided (wordBound - 50) 100 50 k' := by
  obtain ⟨k1, hfirst, hloop1, hfuture1⟩ : ∃ k, Run timedStep sleeperHost (wholeTimeout.take 3) k ∧
      k.loop = some ⟨[1], 0⟩ ∧ k.executor.lanes.get? 1 = some (.running 0) :=
    ⟨_, .eval rfl, rfl, rfl⟩
  obtain ⟨k2, hsecond, hloop2, hfuture2, hnow2⟩ : ∃ k, Run timedStep sleeperHost (wholeTimeout.take 8) k ∧
      k.loop = some ⟨[1], 0⟩ ∧
      k.executor.lanes.get? 1 = some (.timing (.receiving 0 fun _ => 2) 0 100 fun _ => 9) ∧ k.scheduler.now = 100 :=
    ⟨_, .eval rfl, rfl, rfl, rfl⟩
  have hbefore : Meets timedStep sleeperHost (TimersDue timed) ([] ++ wholeTimeout.take 3) :=
    meets_nil.append (by simp [wholeTimeout, timersDue_of_ne])
  have hbetween : Meets timedStep sleeperHost (TimersDue timed)
      (wholeTimeout.take 4 ++ (wholeTimeout.drop 4).take 4) :=
    Meets.append (hbefore.next hfirst (timersDue_of_future hloop1 hfuture1 trivial))
      (by simp [wholeTimeout, timersDue_of_ne])
  have hkept : (Future.timing (.receiving 0 fun _ => 2) 0 100 fun _ => 9).Kept timed k2.memory.channels
      k2.scheduler.now := ⟨trivial, .inl (by omega)⟩
  have hmeets : Meets timedStep sleeperHost (TimersDue timed) wholeTimeout :=
    hbetween.next hsecond (timersDue_of_future hloop2 hfuture2 hkept)
  have hlast := (with_timeout_promises timed zeros .dev 1 10 0 0).1 _ _ hmeets
  have hbound : wordBound = 2 ^ 64 := rfl
  have hclock : Monotonic.saturatingAdd 0 (wordBound - 50) = wordBound - 50 := by
    rw [Monotonic.saturatingAdd_eq]
    omega
  obtain ⟨k, halone, hnow⟩ : ∃ k : KernelState (Future Nat Unit) (Host Unit), Alone 1 (.running 4) k ∧
      k.scheduler.now = wordBound - 50 := by
    refine ⟨{ sleeperHost with
      scheduler := (sleeperHost.scheduler.advanceClock (wordBound - 50)).signalReady 1
      executor := sleeperHost.executor.install 1 (.running 4) }, ⟨rfl, rfl, rfl, ?_, ?_, ?_⟩, hclock⟩
    · intro other deadline _ hstalled
      cases hstalled
    · exact le_max_right _ _
    · change Monotonic.saturatingAdd 0 (wordBound - 50) < wordBound
      omega
  obtain ⟨k', hrun, hdecided⟩ :=
    (with_timeout_promises timed zeros .dev 1 7 0 0).2 1 4 100 50 k timedSleep halone
  rw [hnow] at hdecided
  refine ⟨⟨hmeets, hlast, _, .eval rfl, ?_⟩, k, k', halone, hnow, hrun, hdecided.mpr (.inr (by omega))⟩
  exact List.mem_cons_of_mem _ (List.mem_singleton_self _)

def firstMessage : List (Op (Future Nat Unit) × Reply) :=
  [(.spawnOn 1 .user (.running 0), .spawned (.ok 1)), (.spawnOn 2 .user (.running 3), .spawned (.ok 2)),
    (.enter, .done), (.dispatch, .batch [1, 2]),
    (.poll, .polled 1 .pending [.registerWait 1 (.channelData 0), .now, .registerWait 1 (.timer 100)]),
    (.poll, .polled 2 .completed [.signalReady 1]), (.dispatch, .batch [1]),
    (.poll, .polled 1 .completed [.registerWait 1 (.channelData 1)])]

def timedHost (point : Nat) : KernelState (Future Nat Unit) (Host Unit) :=
  { sleeperHost with
    scheduler := sleeperHost.scheduler.signalReady 1
    executor := sleeperHost.executor.install 1 (.running point) }

/-- With one message of two the timeout of 100 returns an error at 0; the sleep of 50 under a timeout of
100 returns at 100, and so does the sleep of 200, with `Ok`. -/
theorem with_timeout_promises_broken :
    (∃ k, Run timedStep sleeperHost firstMessage k ∧ .returned 0 100 false ∈ k.memory.endings ∧
      k.scheduler.now = 0) ∧
    (∃ k, runInner zeros .dev 1 (behaviour timed 10) 3 2 (timedHost 4) = some k ∧
      .returned 0 100 true ∈ k.memory.endings ∧ k.scheduler.now = 100) ∧
    (∃ k, runInner zeros .dev 1 (behaviour timed 10) 3 2 (timedHost 6) = some k ∧
      .returned 0 100 true ∈ k.memory.endings ∧ .returned 0 100 false ∉ k.memory.endings) := by
  have hsecond : ∀ first second : Ending, second ∈ [first, second] :=
    fun _ _ => List.mem_cons_of_mem _ (List.mem_singleton_self _)
  refine ⟨⟨_, .eval rfl, hsecond _ _, rfl⟩, ⟨_, rfl, hsecond _ _, rfl⟩, ⟨_, rfl, hsecond _ _, ?_⟩⟩
  decide

end CibosPlatform.Sdk.Timeout
