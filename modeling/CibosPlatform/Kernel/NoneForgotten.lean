/- source: cibos-kernel/src/kernel.rs, cibos-kernel/src/scheduler.rs, cibos-async-runtime/src/executor.rs
   digest: Every lane in flight is ready or stalled whenever the loop looks. -/

import CibosPlatform.Kernel.Loop

namespace CibosPlatform.Kernel.NoneForgotten

open Core Events Interaction LittleEndian MachineWord Loop Option
open List hiding Vector
open Scheduler.Entropy Scheduler.Lists
open Kernel.Scheduler.State (SchedulerState)
open Runtime.Executor Shared Config Ipc LaneLists

def Listed (s : SchedulerState) (lane : LaneId) : Prop := lane ∈ s.ready ∨ s.stalled.get? lane ≠ none

section

variable {s s' : SchedulerState} {lane other : LaneId} (resource : WaitResource)

theorem listed_registerWait_self : Listed (s.registerWait lane resource) lane := by
  have hstalled : (s.registerWait lane resource).stalled.get? lane = some resource :=
    LaneLists.get?_stalled_registerWait.trans (if_pos rfl)
  simp [Listed, hstalled]

theorem listed_signalReady_self : Listed (s.signalReady lane) lane :=
  .inl (mem_ready_signalReady.mpr (.inl rfl))

variable (h : Listed s lane)

include h

theorem Listed.registerWait : Listed (s.registerWait other resource) lane := by
  by_cases hself : lane = other
  · rw [hself]
    exact listed_registerWait_self resource
  · have hstalled : (s.registerWait other resource).stalled.get? lane = s.stalled.get? lane :=
      LaneLists.get?_stalled_registerWait.trans (if_neg hself)
    rcases h with hready | hbefore
    · exact .inl (mem_ready_registerWait.mpr ⟨hself, hready⟩)
    · exact .inr (by rwa [hstalled])

theorem Listed.signalReady : Listed (s.signalReady other) lane := by
  by_cases hself : lane = other
  · rw [hself]
    exact listed_signalReady_self
  · have hstalled : (s.signalReady other).stalled.get? lane = s.stalled.get? lane :=
      LaneLists.get?_stalled_signalReady.trans (if_neg hself)
    rcases h with hready | hbefore
    · exact .inl (mem_ready_signalReady.mpr (.inr hready))
    · exact .inr (by rwa [hstalled])

theorem Listed.notifyComplete (hother : lane ≠ other) : Listed (s.notifyComplete other) lane := by
  have hstalled : (s.notifyComplete other).stalled.get? lane = s.stalled.get? lane :=
    LaneLists.get?_stalled_forget.trans (if_neg hother)
  rcases h with hready | hbefore
  · exact .inl (mem_ready_forget.mpr ⟨hother, hready⟩)
  · exact .inr (by rwa [hstalled])

theorem Listed.advanced (moved : Advanced s s') : Listed s' lane := by
  cases moved with
  | same => exact h
  | @moved now =>
    have hlisted := h
    rw [Listed, SchedulerState.releaseMatured, mem_ready_signalAll, LaneLists.get?_stalled_signalAll]
    by_cases hmatured : lane ∈ ({ s with now := now } : SchedulerState).matured
    · exact .inl (.inl hmatured)
    · rw [if_neg hmatured]
      exact hlisted.imp .inr id

theorem Listed.takeDispatchBatch {hash : Hash} {build : BuildProfile} {tries : Nat} {lanes : List LaneId}
    (taken : s.takeDispatchBatch hash build tries = some (lanes, s')) :
    Listed s' lane ∨ lane ∈ lanes := by
  obtain ⟨-, csprng, rfl⟩ := SchedulerState.takeDispatchBatch_spec taken
  rcases h with hready | hbefore
  · by_cases hchosen : lane ∈ lanes
    · exact .inr hchosen
    · exact .inl (.inl (mem_ready_withdraw.mpr ⟨hready, hchosen⟩))
  · exact .inl (.inr hbefore)

omit h

theorem Listed.call (q : KernelCall) (s1 : SchedulerState) (a : KernelAnswer q) (s2 : SchedulerState)
    (h : Listed s1 lane) (asked : schedulerEnv q s1 = some (a, s2)) : Listed s2 lane := by
  cases called asked with
  | stalled => exact h.registerWait _
  | woken => exact h.signalReady
  | weighed => exact h

end

def Announces (lane : LaneId) (calls : List KernelCall) : Prop :=
  .signalReady lane ∈ calls ∨ ∃ resource, .registerWait lane resource ∈ calls

/-- A future that is pending has announced during the poll when it is to be polled again. -/
def Cooperative (reply : Reply) : Prop := ∀ lane calls, reply = .polled lane .pending calls → Announces lane calls

section

variable {F M : Type} {p : Ask KernelCall KernelAnswer Empty (Poll F × M)} {s : SchedulerState} {lane : LaneId}
  {r : Ended KernelCall KernelAnswer Empty (Poll F × M) SchedulerState}

theorem Listed.ran (h : Listed s lane) (ran : p.run schedulerEnv s = some r) : Listed r.state lane :=
  Ask.run_invariant ran h Listed.call

theorem listed_of_announces (ran : p.run schedulerEnv s = some r) (h : Announces lane (r.events.map Sigma.fst)) :
    Listed r.state lane := by
  rcases h with hsignal | ⟨resource, hwait⟩
  · obtain ⟨⟨q, a⟩, hevent, rfl⟩ := mem_map.mp hsignal
    refine Ask.run_established ran hevent (fun s1 a' s2 hasked => ?_) Listed.call
    cases hasked
    exact listed_signalReady_self
  · obtain ⟨⟨q, a⟩, hevent, rfl⟩ := mem_map.mp hwait
    refine Ask.run_established ran hevent (fun s1 a' s2 hasked => ?_) Listed.call
    cases hasked
    exact listed_registerWait_self resource

end

section

variable {F M : Type} {hash : Hash} {build : BuildProfile} {tries : Nat} {behaviour : Behaviour F M}
  {k k' : KernelState F M} {op : Op F} {reply : Reply} {events : List (Op F × Reply)}

def remaining (k : KernelState F M) : List LaneId := (k.loop.map Round.rest).getD []

def Attended (k : KernelState F M) : Prop :=
  ∀ lane, k.executor.hasLane lane = true → Listed k.scheduler lane ∨ lane ∈ remaining k

theorem attended_polled {lane : LaneId} {rest : List LaneId} {polls next : Nat} {result : LanePoll}
    {calls : List KernelCall} (inside : k.loop = some ⟨lane :: rest, polls⟩) (before : Attended k)
    (polled : Polled behaviour lane k (result, calls, k')) (cooperative : Cooperative (.polled lane result calls)) :
    Attended { k'.settle lane result with loop := some ⟨rest, next⟩ } := by
  -- another lane was listed before or is still to be polled
  have hothers : ∀ other, other ≠ lane → k.executor.hasLane other = true →
      Listed k.scheduler other ∨ other ∈ rest := by
    intro other hother hlive
    refine (before other hlive).imp id fun hremaining => ?_
    simp only [remaining, inside, map_some, getD_some, mem_cons] at hremaining
    exact hremaining.resolve_left hother
  intro other hlive
  cases polled with
  | notFound gone =>
    by_cases hself : other = lane
    · have hflight : (k.executor.lanes.get? other).isSome := hlive
      rw [hself, gone] at hflight
      cases hflight
    · exact (hothers other hself hlive).imp (·.notifyComplete hself) id
  | completed there ran ended =>
    have hflight : ((k.executor.remove lane).lanes.get? other).isSome := hlive
    rw [LaneExecutor.get?_remove] at hflight
    split at hflight
    · cases hflight
    · rename_i hself
      exact (hothers other hself hflight).imp (fun h => (h.ran ran).notifyComplete hself) id
  | @pending future next' r memory there ran ended =>
    by_cases hself : other = lane
    · rw [hself]
      exact .inl (listed_of_announces ran (cooperative lane _ rfl))
    · have hflight : ((k.executor.install lane next').lanes.get? other).isSome := hlive
      rw [LaneExecutor.get?_install, if_neg hself] at hflight
      exact (hothers other hself hflight).imp (·.ran ran) id

theorem attended_spawned {cls : WeightClass} {r : Except RuntimeError LaneId × LaneExecutor F × SchedulerState}
    (spawned : LaneExecutor.Spawned k.executor k.scheduler r) (before : Attended k) :
    Attended (k.register cls r).2 := by
  cases spawned with
  | refused => exact before
  | @installed lane future next =>
    intro other hlive
    by_cases hself : other = lane
    · rw [hself]
      exact .inl listed_signalReady_self
    · have hflight : ((k.executor.install lane future).lanes.get? other).isSome := hlive
      rw [LaneExecutor.get?_install, if_neg hself] at hflight
      exact (before other hflight).imp Listed.signalReady id

theorem attended_step (taken : step hash build tries behaviour op k = some (reply, k')) (before : Attended k)
    (cooperative : Cooperative reply) : Attended k' := by
  cases stepped taken with
  | spawned outside spawned => exact attended_spawned spawned before
  | clock outside advanced quiet =>
    intro lane hlive
    exact (before lane hlive).imp (·.advanced advanced) id
  | entered outside =>
    intro lane hlive
    refine (before lane hlive).imp id fun hremaining => ?_
    simp [remaining, outside] at hremaining
  | dispatched inside batch =>
    intro lane hlive
    rcases before lane hlive with hlisted | hremaining
    · exact hlisted.takeDispatchBatch batch
    · simp [remaining, inside] at hremaining
  | polled inside polled => exact attended_polled inside before polled cooperative
  | left inside idle =>
    intro lane hlive
    refine (before lane hlive).imp id fun hremaining => ?_
    simp [remaining, inside] at hremaining

theorem left_of_leave (taken : step hash build tries behaviour .leave k = some (reply, k')) :
    k.scheduler.ready = [] ∧ k' = { k with loop := none } := by
  rcases hloop : k.loop with _ | ⟨_ | ⟨lane, rest⟩, polls⟩
  · simp [step, hloop] at taken
  · simp only [step, hloop, ite_none_left_eq_some] at taken
    obtain ⟨hready, hleft⟩ := taken
    refine ⟨?_, (congrArg Prod.snd (some.inj hleft)).symm⟩
    simpa [SchedulerState.hasReady] using hready
  · simp [step, hloop] at taken

/-- In every run of a new kernel whose futures announce themselves, a lane in flight is ready or
stalled before each batch and outside the loop; once the loop is left it is stalled. -/
theorem run_none_forgotten {contexts maxLanes : Nat} {seed : Vector Byte 32} {profile : CibosProfile} {memory : M}
    (h : Run (step hash build tries behaviour) (.new hash contexts seed profile maxLanes memory) events k)
    (cooperative : ∀ event ∈ events, Cooperative event.2) :
    (remaining k = [] → ∀ lane, k.executor.hasLane lane = true → lane ∈ k.scheduler.ready ∨
      k.scheduler.stalled.get? lane ≠ none) ∧
    (∀ pre polls, events = pre ++ [(.leave, .idle polls)] → ∀ lane, k.executor.hasLane lane = true →
      k.scheduler.stalled.get? lane ≠ none) := by
  have hattended : Attended k := by
    induction h with
    | start =>
      intro lane hlive
      cases hlive
    | next before taken ih =>
      refine attended_step taken (ih fun event hmem => ?_) ?_
      · exact cooperative event (mem_append_left _ hmem)
      · exact cooperative _ (mem_append_right _ (mem_singleton_self _))
  have hlisted : remaining k = [] → ∀ lane, k.executor.hasLane lane = true → Listed k.scheduler lane := by
    intro hnone lane hlive
    refine (hattended lane hlive).resolve_right ?_
    simp [hnone]
  refine ⟨hlisted, ?_⟩
  rintro pre polls rfl lane hlive
  obtain ⟨k1, k2, -, htaken, hrest⟩ := h.event
  obtain rfl := hrest.of_nil
  obtain ⟨hidle, rfl⟩ := left_of_leave htaken
  refine (hlisted rfl lane hlive).resolve_left ?_
  simp [hidle]

end

def waitMemory : Behaviour Unit Unit
  | lane, future, memory => .ask (.registerWait lane (.memory 1)) fun _ => .done (.pending future, memory)

def waitStep : Op Unit → KernelState Unit Unit → Option (Reply × KernelState Unit Unit) :=
  step zeros .dev 1 waitMemory

def waitEvents : List (Op Unit × Reply) :=
  [(.spawn .user (), .spawned (.ok 1)), (.enter, .done), (.dispatch, .batch [1]),
    (.poll, .polled 1 .pending [.registerWait 1 (.memory 1)])]

theorem run_none_forgotten_wait : ∃ k, Run waitStep
      (.new zeros 1 (Vector.replicate 32 0) .balanced 8 ())
      (waitEvents ++ [(.leave, .idle 1)]) k ∧
    k.executor.hasLane 1 = true ∧ k.scheduler.stalled.get? 1 ≠ none := by
  refine exists_run_eval ⟨_, rfl, fun hrun =>
    ⟨rfl, (run_none_forgotten hrun fun event hmem lane calls hreply => ?_).2 _ 1 rfl 1 rfl⟩⟩
  simp only [waitEvents, mem_append, mem_cons, not_mem_nil, or_false] at hmem
  rcases hmem with (rfl | rfl | rfl | rfl) | rfl <;> cases hreply
  exact .inr ⟨.memory 1, mem_singleton_self _⟩

end CibosPlatform.Kernel.NoneForgotten
