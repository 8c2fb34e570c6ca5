/- source: cibos-sdk/src/app.rs, cibos-kernel/src/kernel.rs, cibos-kernel/src/scheduler.rs
   digest: The loop of the application host, which moves the clock to the next timer when no lane can run. -/

import CibosPlatform.Kernel.NoneForgotten
import Mathlib.Data.List.Nodup

/-! Spawns that lanes ask for are queued by the system and installed by the caller between two rounds; here no
spawn is queued. -/

namespace CibosPlatform.Sdk.Host

open Core Events MachineWord Kernel.Loop Kernel.Scheduler.Entropy Kernel.Scheduler.Lists
open Kernel.Scheduler.Selector List Option
open Kernel.Scheduler.State (SchedulerState timerDeadline)
open Shared.Ipc

section

variable {F M : Type} (hash : Hash) (build : BuildProfile) (tries : Nat) (behaviour : Behaviour F M)

def drain (turns : Nat) (k : KernelState F M) : Option (KernelState F M) :=
  match turns, k.loop with
  | 0, _ => none
  | _ + 1, none => none
  | turns + 1, some ⟨_ :: _, _⟩ => (step hash build tries behaviour .poll k).bind fun r => drain turns r.2
  | turns + 1, some ⟨[], _⟩ =>
    if k.scheduler.hasReady then (step hash build tries behaviour .dispatch k).bind fun r => drain turns r.2
    else (step hash build tries behaviour .leave k).map Prod.snd

def runUntilIdle (turns : Nat) (k : KernelState F M) : Option (KernelState F M) :=
  (step hash build tries behaviour .enter k).bind fun r => drain hash build tries behaviour turns r.2

def runInner (turns rounds : Nat) (k : KernelState F M) : Option (KernelState F M) :=
  match rounds with
  | 0 => none
  | rounds + 1 =>
    (runUntilIdle hash build tries behaviour turns k).bind fun idle =>
      if idle.scheduler.hasReady then runInner turns rounds idle
      else (step hash build tries behaviour .advanceToNextTimer idle).bind fun r =>
        match r.1 with
        | .flag true => runInner turns rounds r.2
        | _ => some r.2

end

variable {rounds turns : Nat}

section

variable {F M : Type} {hash : Hash} {build : BuildProfile} {tries : Nat} {behaviour : Behaviour F M}
  {k k' : KernelState F M}

theorem drain_poll {polls : Nat} {lane : LaneId} {rest : List LaneId}
    (inside : k.loop = some ⟨lane :: rest, polls⟩) : drain hash build tries behaviour (turns + 1) k =
      (step hash build tries behaviour .poll k).bind fun r => drain hash build tries behaviour turns r.2 := by
  rw [drain.eq_def, inside]

theorem drain_between {polls : Nat} (inside : k.loop = some ⟨[], polls⟩) :
    drain hash build tries behaviour (turns + 1) k = if k.scheduler.hasReady then
        (step hash build tries behaviour .dispatch k).bind fun r => drain hash build tries behaviour turns r.2
      else (step hash build tries behaviour .leave k).map Prod.snd := by
  rw [drain.eq_def, inside]

theorem run_of_drain (h : drain hash build tries behaviour turns k = some k') :
    ∃ events, Run (step hash build tries behaviour) k events k' := by
  induction turns generalizing k with
  | zero => simp [drain] at h
  | succ turns ih =>
    rcases hloop : k.loop with _ | ⟨_ | ⟨lane, rest⟩, polls⟩
    · rw [drain.eq_def, hloop] at h
      cases h
    · rw [drain_between hloop] at h
      split at h
      · obtain ⟨r, hdispatch, hrest⟩ := bind_eq_some_iff.mp h
        obtain ⟨events, hrun⟩ := ih hrest
        exact ⟨_, (Run.next .start hdispatch).append hrun⟩
      · obtain ⟨r, hleave, rfl⟩ := map_eq_some_iff.mp h
        exact ⟨_, .next .start hleave⟩
    · rw [drain_poll hloop] at h
      obtain ⟨r, hpoll, hrest⟩ := bind_eq_some_iff.mp h
      obtain ⟨events, hrun⟩ := ih hrest
      exact ⟨_, (Run.next .start hpoll).append hrun⟩

theorem run_of_runUntilIdle (h : runUntilIdle hash build tries behaviour turns k = some k') :
    ∃ events, Run (step hash build tries behaviour) k events k' := by
  obtain ⟨r, henter, hrest⟩ := bind_eq_some_iff.mp h
  obtain ⟨events, hrun⟩ := run_of_drain hrest
  exact ⟨_, (Run.next .start henter).append hrun⟩

theorem run_of_runInner (h : runInner hash build tries behaviour turns rounds k = some k') :
    ∃ events, Run (step hash build tries behaviour) k events k' := by
  induction rounds generalizing k with
  | zero => simp [runInner] at h
  | succ rounds ih =>
    obtain ⟨idle, hidle, hrest⟩ := bind_eq_some_iff.mp h
    obtain ⟨first, hfirst⟩ := run_of_runUntilIdle hidle
    split at hrest
    · obtain ⟨later, hlater⟩ := ih hrest
      exact ⟨_, hfirst.append hlater⟩
    · obtain ⟨r, hclock, hend⟩ := bind_eq_some_iff.mp hrest
      split at hend
      · obtain ⟨later, hlater⟩ := ih hend
        exact ⟨_, (hfirst.next hclock).append hlater⟩
      · cases hend
        exact ⟨_, hfirst.next hclock⟩

end

section

variable {F M : Type}

structure Alone (lane : LaneId) (future : F) (k : KernelState F M) : Prop where
  outside : k.loop = none
  ready : k.scheduler.ready = [lane]
  there : k.executor.lanes.get? lane = some future
  others : ∀ other deadline, other ≠ lane → k.scheduler.stalled.get? other ≠ some (.timer deadline)
  contexts : 1 ≤ k.scheduler.executionContexts
  clock : k.scheduler.now < wordBound

structure Parked (lane : LaneId) (future : F) (deadline : Nat) (k : KernelState F M) : Prop where
  outside : k.loop = none
  idle : k.scheduler.ready = []
  there : k.executor.lanes.get? lane = some future
  waits : k.scheduler.stalled.get? lane = some (.timer deadline)
  others : ∀ other deadline, other ≠ lane → k.scheduler.stalled.get? other ≠ some (.timer deadline)
  contexts : 1 ≤ k.scheduler.executionContexts

def dispatched (lane : LaneId) (k : KernelState F M) : KernelState F M :=
  { k with
    scheduler := { k.scheduler with toLaneLists := k.scheduler.toLaneLists.withdraw [lane] }
    loop := some ⟨[lane], 0⟩ }

variable {hash : Hash} {build : BuildProfile} {tries : Nat} {behaviour : Behaviour F M} {k k' : KernelState F M}
  {lane : LaneId} {future : F}

theorem takeDispatchBatch_single {s : SchedulerState} (ready : s.ready = [lane])
    (contexts : 1 ≤ s.executionContexts) : s.takeDispatchBatch hash build tries =
      some ([lane], { s with toLaneLists := s.toLaneLists.withdraw [lane] }) := by
  have hcontexts : s.executionContexts ≠ 0 := by omega
  simp [SchedulerState.takeDispatchBatch, select, ready, hcontexts, contexts]

theorem countPoll_first : KernelState.countPoll build 0 = some 1 := by
  cases build with
  | dev | release => rfl

theorem runUntilIdle_alone {result : LanePoll} {calls : List KernelCall} (turns : Nat)
    (alone : Alone lane future k)
    (polled : (dispatched lane k).pollLane behaviour lane = some (result, calls, k'))
    (idle : (k'.settle lane result).scheduler.ready = []) :
    runUntilIdle hash build tries behaviour (turns + 3) k = some { k'.settle lane result with loop := none } := by
  have henter : step hash build tries behaviour .enter k = some (.done, { k with loop := some ⟨[], 0⟩ }) := by
    simp [step, alone.outside]
  have hdispatch : step hash build tries behaviour .dispatch { k with loop := some ⟨[], 0⟩ } =
      some (.batch [lane], dispatched lane k) := by
    simp [step, SchedulerState.hasReady, alone.ready, takeDispatchBatch_single alone.ready alone.contexts,
      dispatched]
  have hpoll : step hash build tries behaviour .poll (dispatched lane k) =
      some (.polled lane result calls, { k'.settle lane result with loop := some ⟨[], 1⟩ }) := by
    have hstep : step hash build tries behaviour .poll (dispatched lane k) =
        ((dispatched lane k).pollLane behaviour lane).bind fun r => (KernelState.countPoll build 0).map fun next =>
          (.polled lane r.1 r.2.1, { r.2.2.settle lane r.1 with loop := some ⟨[], next⟩ }) := rfl
    rw [hstep, polled, bind_some, countPoll_first, map_some]
  have hleave : step hash build tries behaviour .leave { k'.settle lane result with loop := some ⟨[], 1⟩ } =
      some (.idle 1, { k'.settle lane result with loop := none }) := by
    simp [step, SchedulerState.hasReady, idle]
  have hsome : k.scheduler.hasReady := by
    simp [SchedulerState.hasReady, alone.ready]
  have hnone : ¬ (k'.settle lane result).scheduler.hasReady := by
    simp [SchedulerState.hasReady, idle]
  calc runUntilIdle hash build tries behaviour (turns + 3) k
      = drain hash build tries behaviour (turns + 3) { k with loop := some ⟨[], 0⟩ } := by
        rw [runUntilIdle, henter, bind_some]
    _ = drain hash build tries behaviour (turns + 2) (dispatched lane k) := by
        rw [drain_between rfl, if_pos hsome, hdispatch, bind_some]
    _ = drain hash build tries behaviour (turns + 1) { k'.settle lane result with loop := some ⟨[], 1⟩ } := by
        rw [drain_poll rfl, hpoll, bind_some]
    _ = some { k'.settle lane result with loop := none } := by
        rw [drain_between rfl, if_neg hnone, hleave, map_some]

section

variable {k1 k2 : KernelState F M} (round : runUntilIdle hash build tries behaviour turns k = some k1)
  (idle : k1.scheduler.ready = [])

include round idle

theorem runInner_advance
    (moved : step hash build tries behaviour .advanceToNextTimer k1 = some (.flag true, k2)) :
    runInner hash build tries behaviour turns (rounds + 1) k = runInner hash build tries behaviour turns rounds k2 := by
  simp [runInner, round, SchedulerState.hasReady, idle, moved]

theorem runInner_stop
    (stood : step hash build tries behaviour .advanceToNextTimer k1 = some (.flag false, k2)) :
    runInner hash build tries behaviour turns (rounds + 1) k = some k2 := by
  simp [runInner, round, SchedulerState.hasReady, idle, stood]

end

variable (hash build tries behaviour)

theorem advance_parked {deadline : Nat} (parked : Parked lane future deadline k)
    (clock : max k.scheduler.now deadline < wordBound) :
    ∃ k', step hash build tries behaviour .advanceToNextTimer k = some (.flag true, k') ∧ Alone lane future k' ∧
      k'.memory = k.memory ∧ k'.scheduler.now = max k.scheduler.now deadline := by
  have hearliest : k.scheduler.earliest = some deadline := by
    refine SchedulerState.earliest_eq_some.mpr ⟨⟨lane, parked.waits⟩, fun other deadline' hother => ?_⟩
    by_cases hself : other = lane
    · rw [hself, parked.waits] at hother
      cases hother
      exact le_rfl
    · exact absurd hother (parked.others other deadline' hself)
  have hstep : step hash build tries behaviour .advanceToNextTimer k = some (.flag true,
      { k with scheduler := { k.scheduler with now := max k.scheduler.now deadline }.releaseMatured }) := by
    simp [step, parked.outside, SchedulerState.advanceToNextTimer, hearliest]
  -- the lane is the only one whose timer has been reached
  have hmatured : ∀ other, other ∈ ({ k.scheduler with now := max k.scheduler.now deadline } : SchedulerState).matured ↔
      other = lane := by
    intro other
    rw [SchedulerState.mem_matured]
    constructor
    · rintro ⟨deadline', hstalled, -⟩
      by_contra hother
      exact parked.others other deadline' hother hstalled
    · intro hself
      rw [hself]
      exact ⟨deadline, parked.waits, le_max_right _ _⟩
  have hempty : k.scheduler.toLaneLists.Disciplined := by
    constructor
    · rw [parked.idle]
      exact nodup_nil
    · simp [parked.idle]
  have hready : (k.scheduler.toLaneLists.signalAll
      ({ k.scheduler with now := max k.scheduler.now deadline } : SchedulerState).matured).ready = [lane] := by
    rw [← perm_singleton, perm_ext_iff_of_nodup (hempty.signalAll _).nodup (nodup_singleton lane)]
    intro other
    rw [LaneLists.mem_ready_signalAll, hmatured, parked.idle, mem_singleton]
    simp
  refine ⟨_, hstep, ⟨parked.outside, hready, parked.there, ?_, parked.contexts, clock⟩, rfl, rfl⟩
  intro other deadline' hother
  change (k.scheduler.toLaneLists.signalAll _).stalled.get? other ≠ _
  rw [LaneLists.get?_stalled_signalAll, if_neg fun h => hother ((hmatured other).mp h)]
  exact parked.others other deadline' hother

theorem advance_none (outside : k.loop = none)
    (untimed : ∀ other deadline, k.scheduler.stalled.get? other ≠ some (.timer deadline)) :
    step hash build tries behaviour .advanceToNextTimer k = some (.flag false, k) := by
  have hnone : k.scheduler.advanceToNextTimer = (false, k.scheduler) := by
    rw [SchedulerState.advanceToNextTimer, SchedulerState.earliest_eq_none.mpr untimed]
  simp only [step, outside, hnone]
  rw [← outside]

end

section

open Kernel.NoneForgotten

variable {F M : Type} {hash : Hash} {build : BuildProfile} {tries : Nat} {behaviour : Behaviour F M}
  {k k' : KernelState F M} {events : List (Op F × Reply)}

/-- A poll that leaves its future pending has announced when the lane is to be polled again. -/
def Announcing (behaviour : Behaviour F M) : Prop := ∀ lane future memory s r next memory',
  (behaviour lane future memory).run schedulerEnv s = some r → r.outcome = .ok (.pending next, memory') →
    Announces lane (r.events.map Sigma.fst)

theorem Announcing.cooperative (announcing : Announcing behaviour) {op : Op F} {reply : Reply}
    (taken : step hash build tries behaviour op k = some (reply, k')) : Cooperative reply := by
  intro lane calls hreply
  cases stepped taken with
  | @spawned _ cls r => rcases r with ⟨_ | _, _⟩ <;> cases hreply
  | clock _ _ quiet => exact (quiet lane _ calls hreply).elim
  | entered | dispatched | left => cases hreply
  | polled inside polled =>
    cases hreply
    cases polled with
    | pending there ran ended => exact announcing _ _ _ _ _ _ _ ran ended

theorem runInner_idle (h : runInner hash build tries behaviour turns rounds k = some k') :
    k'.loop = none ∧ k'.scheduler.ready = [] ∧ k'.scheduler.earliest = none := by
  induction rounds generalizing k with
  | zero => simp [runInner] at h
  | succ rounds ih =>
    obtain ⟨idle, -, hrest⟩ := bind_eq_some_iff.mp h
    split at hrest
    · exact ih hrest
    · rename_i hready
      obtain ⟨r, hclock, hend⟩ := bind_eq_some_iff.mp hrest
      split at hend
      · exact ih hend
      · rename_i hflag
        cases hend
        rcases hloop : idle.loop with _ | round
        · simp only [step, hloop, some.injEq] at hclock
          subst hclock
          rcases hnext : idle.scheduler.earliest with _ | deadline
          · simpa [SchedulerState.advanceToNextTimer, hnext, hloop, SchedulerState.hasReady] using hready
          · exact absurd (by simp [SchedulerState.advanceToNextTimer, hnext]) hflag
        · simp [step, hloop] at hclock

/-- When the host's loop returns, no lane can run, and every unfinished lane waits for something
that is not a point in time. -/
theorem runInner_leaves_waiting {contexts maxLanes : Nat} {seed : Digest256} {profile : Shared.Config.CibosProfile} {memory : M}
    (announcing : Announcing behaviour)
    (reached : Run (step hash build tries behaviour) (.new hash contexts seed profile maxLanes memory) events k)
    (h : runInner hash build tries behaviour turns rounds k = some k') :
    k'.scheduler.ready = [] ∧ ∀ lane, k'.executor.hasLane lane = true → ∃ resource,
      k'.scheduler.stalled.get? lane = some resource ∧ ∀ deadline, resource ≠ .timer deadline := by
  obtain ⟨later, hlater⟩ := run_of_runInner h
  obtain ⟨hloop, hready, hnext⟩ := runInner_idle h
  have hattended : Attended k' := by
    refine (reached.append hlater).invariant (fun lane hlive => by cases hlive) ?_
    exact fun s op reply s' before taken => attended_step taken before (announcing.cooperative taken)
  refine ⟨hready, fun lane hlive => ?_⟩
  rcases hattended lane hlive with (hin | hstalled) | hremaining
  · simp [hready] at hin
  · obtain ⟨resource, hresource⟩ := ne_none_iff_exists'.mp hstalled
    refine ⟨resource, hresource, ?_⟩
    rintro deadline rfl
    exact SchedulerState.earliest_eq_none.mp hnext lane deadline hresource
  · simp [remaining, hloop] at hremaining

theorem runInner_leaves_waiting_memory : ∃ k, Run waitStep
      (.new zeros 1 (Vector.replicate 32 0) .balanced 8 ())
      [(.spawn .user (), .spawned (.ok 1))] k ∧
    ∃ k', runInner zeros .dev 1 waitMemory 9 9 k = some k' ∧
      k'.scheduler.stalled.get? 1 ≠ none := by
  refine exists_run_eval ⟨_, rfl, fun hrun => ⟨_, rfl, ?_⟩⟩
  have hannouncing : Announcing waitMemory := by
    rintro lane future memory s r next memory' hran -
    cases hran
    exact .inr ⟨.memory 1, mem_singleton_self _⟩
  obtain ⟨resource, hresource, -⟩ :=
    (runInner_leaves_waiting hannouncing hrun (show runInner _ _ _ _ 9 9 _ = some _ from rfl)).2 1 rfl
  rw [hresource]
  nofun

end

end CibosPlatform.Sdk.Host
