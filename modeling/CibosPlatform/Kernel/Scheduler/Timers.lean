/- source: cibos-kernel/src/scheduler.rs, shared/src/types/time.rs
   digest: The clock only goes forward, and an advance releases the timers that are due and no others. -/

import CibosPlatform.Kernel.Scheduler.Discipline

namespace CibosPlatform.Kernel.Scheduler.Timers

open Core Events MachineWord Maps Entropy Lists State Shared.Ipc SchedulerState

variable {hash : Hash} {build : BuildProfile} {tries : Nat} {s s' : SchedulerState} {op : Op} {reply : Reply}

def StalledOnTimer (s : SchedulerState) (lane : LaneId) (deadline : Nat) : Prop :=
  s.stalled.get? lane = some (.timer deadline)

structure WordTimes (s : SchedulerState) : Prop where
  now : s.now < wordBound
  deadlines : ∀ lane deadline, StalledOnTimer s lane deadline → deadline < wordBound

def WordDeadline : Op → Prop
  | .registerWait _ (.timer deadline) => deadline < wordBound
  | _ => True

def Advances (op : Op) : Prop := op = .advanceToNextTimer ∨ ∃ delta, op = .advanceClock delta

structure ReleasesDue (s : SchedulerState) (op : Op) (reply : Reply) (s' : SchedulerState) : Prop where
  forward : s.now ≤ s'.now
  none_due : Advances op → ∀ lane deadline, StalledOnTimer s' lane deadline → s'.now < deadline
  only_due : Advances op → ∀ lane ∈ s'.ready, lane ∉ s.ready →
    ∃ deadline, StalledOnTimer s lane deadline ∧ deadline ≤ s'.now
  answer : op = .advanceToNextTimer → (reply = .flag true ↔ ∃ lane deadline, StalledOnTimer s lane deadline)
  next : op = .advanceToNextTimer → reply = .flag true → ∃ lane deadline, StalledOnTimer s lane deadline ∧
    (∀ lane' other, StalledOnTimer s lane' other → deadline ≤ other) ∧ s'.now = max s.now deadline ∧
    lane ∈ s'.ready ∧ s'.stalled.get? lane = none

variable {lane : LaneId}

theorem stalled_releaseMatured {resource : WaitResource} :
    s.releaseMatured.stalled.get? lane = some resource ↔
      s.stalled.get? lane = some resource ∧ ∀ deadline, resource = .timer deadline → s.now < deadline := by
  rw [releaseMatured, LaneLists.get?_stalled_signalAll]
  split
  · rename_i hdue
    obtain ⟨deadline, hstalled, hreached⟩ := mem_matured.mp hdue
    grind
  · grind [mem_matured]

theorem ready_releaseMatured (ready : lane ∈ s.releaseMatured.ready) (before : lane ∉ s.ready) :
    ∃ deadline, StalledOnTimer s lane deadline ∧ deadline ≤ s.now :=
  mem_matured.mp ((LaneLists.mem_ready_signalAll.mp ready).resolve_right before)

theorem released_of_due {deadline : Nat} (stalled : StalledOnTimer s lane deadline)
    (due : deadline ≤ s.now) : lane ∈ s.releaseMatured.ready ∧ s.releaseMatured.stalled.get? lane = none := by
  have hmatured : lane ∈ s.matured := mem_matured.mpr ⟨deadline, stalled, due⟩
  constructor
  · exact LaneLists.mem_ready_signalAll.mpr (.inl hmatured)
  · rw [releaseMatured, LaneLists.get?_stalled_signalAll, if_pos hmatured]

theorem not_advances (h : op ≠ .advanceToNextTimer) (h' : ∀ delta, op ≠ .advanceClock delta) : ¬ Advances op := by
  rintro (heq | ⟨delta, heq⟩)
  · exact h heq
  · exact h' delta heq

theorem ReleasesDue.of_not_advances (h : ¬ Advances op) (now : s'.now = s.now) : ReleasesDue s op reply s' where
  forward := now.ge
  none_due := fun hadvance => absurd hadvance h
  only_due := fun hadvance => absurd hadvance h
  answer := fun hop => absurd (.inl hop) h
  next := fun hop => absurd (.inl hop) h

theorem step_releasesDue (times : WordTimes s) (h : step hash build tries op s = some (reply, s')) :
    ReleasesDue s op reply s' := by
  cases stepped h with
  | registerLane | registerWait | signalReady | notifyComplete =>
    exact .of_not_advances (not_advances (by simp) (by simp)) rfl
  | weight call | noWeight call =>
    exact .of_not_advances (by rcases call with rfl | rfl <;> exact not_advances (by simp) (by simp)) rfl
  | batch taken =>
    obtain ⟨-, csprng, rfl⟩ := takeDispatchBatch_spec taken
    exact .of_not_advances (not_advances (by simp) (by simp)) rfl
  | @advanceClock delta =>
    refine ⟨?_, fun _ lane deadline hstalled => ?_, fun _ lane hready hbefore => ?_, nofun, nofun⟩
    · change s.now ≤ Monotonic.saturatingAdd s.now delta
      rw [Monotonic.saturatingAdd_eq]
      have := times.now
      omega
    · exact (stalled_releaseMatured.mp hstalled).2 deadline rfl
    · exact ready_releaseMatured hready hbefore
  | @timer deadline earliest =>
    obtain ⟨⟨lane, hlane⟩, hfirst⟩ := earliest_eq_some.mp earliest
    refine ⟨le_max_left _ _, fun _ lane' deadline' hstalled => ?_, fun _ lane' hready hbefore => ?_, ?_, ?_⟩
    · exact (stalled_releaseMatured.mp hstalled).2 deadline' rfl
    · exact ready_releaseMatured hready hbefore
    · exact fun _ => ⟨fun _ => ⟨lane, deadline, hlane⟩, fun _ => rfl⟩
    · exact fun _ _ => ⟨lane, deadline, hlane, hfirst, rfl,
        released_of_due (s := { s with now := max s.now deadline }) hlane (le_max_right _ _)⟩
  | noTimer none =>
    have hnone := earliest_eq_none.mp none
    refine ⟨le_rfl, fun _ lane deadline hstalled => absurd hstalled (hnone lane deadline),
      fun _ lane hready hbefore => absurd hready hbefore, fun _ => ⟨nofun, ?_⟩, nofun⟩
    rintro ⟨lane, deadline, hstalled⟩
    exact absurd hstalled (hnone lane deadline)

theorem step_wordTimes (times : WordTimes s) (word : WordDeadline op)
    (h : step hash build tries op s = some (reply, s')) : WordTimes s' := by
  obtain ⟨hnow, hdeadlines⟩ := times
  cases stepped h with
  | registerLane | weight | noWeight | noTimer => exact ⟨hnow, hdeadlines⟩
  | @registerWait lane resource =>
    refine ⟨hnow, fun lane' deadline hstalled => ?_⟩
    replace hstalled := LaneLists.get?_stalled_registerWait.symm.trans hstalled
    split at hstalled
    · obtain rfl := Option.some.inj hstalled
      exact word
    · exact hdeadlines lane' deadline hstalled
  | signalReady | notifyComplete =>
    refine ⟨hnow, fun lane' deadline hstalled => hdeadlines lane' deadline ?_⟩
    exact (Option.ite_none_left_eq_some.mp ((SortedMap.get?_erase ..).symm.trans hstalled)).2
  | @advanceClock delta =>
    refine ⟨?_, fun lane deadline hstalled => hdeadlines lane deadline (stalled_releaseMatured.mp hstalled).1⟩
    change Monotonic.saturatingAdd s.now delta < wordBound
    rw [Monotonic.saturatingAdd_eq]
    omega
  | timer earliest =>
    obtain ⟨⟨lane, hlane⟩, -⟩ := earliest_eq_some.mp earliest
    exact ⟨max_lt hnow (hdeadlines lane _ hlane),
      fun lane' other hstalled => hdeadlines lane' other (stalled_releaseMatured.mp hstalled).1⟩
  | batch taken =>
    obtain ⟨-, csprng, rfl⟩ := takeDispatchBatch_spec taken
    exact ⟨hnow, hdeadlines⟩

theorem run_wordTimes {s0 : SchedulerState} {events : List (Op × Reply)} (start : WordTimes s0)
    (words : ∀ event ∈ events, WordDeadline event.1) (h : Run (step hash build tries) s0 events s) :
    WordTimes s := by
  induction h with
  | start => exact start
  | next _ taken ih =>
    rw [List.forall_mem_append] at words
    exact step_wordTimes (ih words.1) (words.2 _ List.mem_cons_self) taken

/-- In any state any sequence of calls leads to, an advance releases the lanes whose timer is due and
no others, and the clock never goes back. -/
theorem timers_released {s0 : SchedulerState} {events : List (Op × Reply)} (start : WordTimes s0)
    (words : ∀ event ∈ events, WordDeadline event.1) (h : Run (step hash build tries) s0 events s)
    (taken : step hash build tries op s = some (reply, s')) : ReleasesDue s op reply s' :=
  step_releasesDue (run_wordTimes start words h) taken

/-- One lane waits for the end of the time range, another for a point that has passed. -/
theorem timers_released_end_of_time : ∃ s, Run (step zeros .dev 1)
      (.new zeros 1 (Vector.replicate 32 0) .balanced)
      [(.advanceClock 10, .done), (.registerWait 1 (.timer (2 ^ 64 - 1)), .done),
        (.registerWait 2 (.timer 3), .done), (.advanceToNextTimer, .flag true)] s ∧ ∃ s',
    step zeros .dev 1 (.advanceClock (2 ^ 64)) s = some (.done, s') ∧
    s.ready = [2] ∧ s'.ready = [2, 1] ∧ ReleasesDue s (.advanceClock (2 ^ 64)) .done s' := by
  have hstart : WordTimes (.new zeros 1 (Vector.replicate 32 0) .balanced) :=
    ⟨by decide, fun _ _ hstalled => by cases hstalled⟩
  exact exists_run_eval ⟨_, rfl, fun hrun => ⟨_, rfl, rfl, rfl, timers_released hstart
    (by simp [WordDeadline, wordBound]) hrun rfl⟩⟩

end CibosPlatform.Kernel.Scheduler.Timers
