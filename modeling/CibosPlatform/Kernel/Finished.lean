/- source: cibos-kernel/src/kernel.rs, cibos-kernel/src/channel.rs, cibos-kernel/src/scheduler.rs
   digest: When a lane that has finished stays off the lists of the scheduler. -/

import CibosPlatform.Kernel.Channel.Queue
import CibosPlatform.Kernel.Scheduler.State
import CibosPlatform.Runtime.Executor

namespace CibosPlatform.Kernel.Finished

open Core Events LittleEndian MachineWord
open List hiding Vector
open Kernel.Channel.Queue (ChannelInner SendStep RecvStep Sends Receives trySend_sends
  tryRecv_receives wake)
open Channel.Sharing Scheduler.Entropy Scheduler.Lists
open Kernel.Scheduler.State (SchedulerState)
open Runtime.Executor Shared Config Ipc KernelInterface

structure KernelState where
  executor : LaneExecutor Unit
  channels : Channels SchedulerState

abbrev KernelState.scheduler (s : KernelState) : SchedulerState := s.channels.kernel

inductive Op where
  | createChannel (id : ChannelId) (terms : ChannelTerms)
  | spawn (cls : WeightClass)
  | spawnOn (lane : LaneId) (cls : WeightClass)
  | trySend (lane : LaneId) (ch : ChannelRef) (msg : Message)
  | tryRecv (lane : LaneId) (ch : ChannelRef)
  | close (lane : LaneId) (ch : ChannelRef)
  | complete (lane : LaneId)
  | abort (lane : LaneId)
  | takeDispatchBatch

inductive Reply where
  | done
  | spawned (lane : LaneId)
  | refused (error : RuntimeError)
  | sent (step : SendStep)
  | received (step : RecvStep)
  | flag (b : Bool)
  | batch (lanes : List LaneId)

namespace KernelState

def new (hash : Hash) (contexts : Nat) (seed : Vector Byte 32) (profile : CibosProfile)
    (maxLanes : Nat) :
    KernelState where
  executor := .new maxLanes
  channels := .empty (.new hash contexts seed profile)

def register (cls : WeightClass) (channels : Channels SchedulerState) :
    Except RuntimeError LaneId × LaneExecutor Unit × SchedulerState → Reply × KernelState
  | (.error error, executor, scheduler) =>
    (.refused error, ⟨executor, { channels with kernel := scheduler }⟩)
  | (.ok lane, executor, scheduler) =>
    (.spawned lane, ⟨executor, { channels with kernel := scheduler.registerLane lane cls }⟩)

def finish (lane : LaneId) (s : KernelState) : KernelState where
  executor := s.executor.remove lane
  channels := { s.channels with kernel := s.scheduler.notifyComplete lane }

end KernelState

open KernelState

/-- One call. Sends, receives, closes and completions are those of lanes in flight. -/
def step (hash : Hash) (build : BuildProfile) (tries : Nat) (op : Op) (s : KernelState) :
    Option (Reply × KernelState) :=
  match op with
  | .createChannel id terms =>
    some (.done, { s with channels := s.channels.create (.new id terms) })
  | .spawn cls => (s.executor.spawn build () s.scheduler).map (register cls s.channels)
  | .spawnOn lane cls =>
    (s.executor.spawnOn build lane () s.scheduler).map (register cls s.channels)
  | .trySend lane ch msg =>
    if s.executor.hasLane lane then
      let r := s.channels.trySend ch lane msg
      some (.sent r.1, { s with channels := r.2 })
    else none
  | .tryRecv lane ch =>
    if s.executor.hasLane lane then
      let r := s.channels.tryRecv ch lane
      some (.received r.1, { s with channels := r.2 })
    else none
  | .close lane ch =>
    if s.executor.hasLane lane then some
      (.done, { s with channels := s.channels.close ch }) else none
  | .complete lane => if s.executor.hasLane lane then some (.done, s.finish lane) else none
  | .abort lane => some (.flag (s.executor.hasLane lane), s.finish lane)
  | .takeDispatchBatch => (s.scheduler.takeDispatchBatch hash build tries).map fun r =>
    (.batch r.1, { s with channels := { s.channels with kernel := r.2 } })

def Registers (lane : LaneId) (event : Op × Reply) : Prop := event.2 = .spawned lane

def Notifies (lane : LaneId) (event : Op × Reply) : Prop :=
  event.1 = .complete lane ∨ event.1 = .abort lane

def HasFinished (events : List (Op × Reply)) (lane : LaneId) : Prop :=
  ∃ pre event mid, Since (Registers lane) events pre event mid ∧ Notifies lane event

theorem not_hasFinished_nil {lane : LaneId} : ¬ HasFinished [] lane := by
  rintro ⟨pre, event, mid, hsince, -⟩
  exact not_since_nil hsince

theorem hasFinished_snoc {events : List (Op × Reply)} {event : Op × Reply} {lane : LaneId} :
    HasFinished (events ++ [event]) lane ↔
      Notifies lane event ∨ (HasFinished events lane ∧ ¬ Registers lane event) := by
  constructor
  · rintro ⟨pre, first, mid, hsince, hnotifies⟩
    rcases since_snoc.mp hsince with ⟨rfl, -, -⟩ | ⟨mid', hbefore, -, hkept⟩
    · exact .inl hnotifies
    · exact .inr ⟨⟨pre, first, mid', hbefore, hnotifies⟩, hkept⟩
  · rintro (hnotifies | ⟨⟨pre, first, mid, hsince, hnotifies⟩, hkept⟩)
    · exact ⟨events, event, [], since_snoc.mpr (.inl ⟨rfl, rfl, rfl⟩), hnotifies⟩
    · exact ⟨pre, first, mid ++ [event], since_snoc.mpr (.inr ⟨mid, hsince, rfl, hkept⟩), hnotifies⟩

def woken (s : KernelState) : Op → List LaneId
  | .trySend _ ch msg =>
    let c := s.channels.inner ch
    if c.state.closed = false ∧ msg.length ≤ c.maxMessageBytes ∧
      c.state.messages.length < c.capacity then
      c.state.receiverWaiter.toList
    else []
  | .tryRecv _ ch => if (s.channels.inner ch).state.messages = [] then []
      else (s.channels.inner ch).state.senderWaiter.toList
  | .close _ ch => (s.channels.inner ch).state.receiverWaiter.toList ++ (s.channels.inner
    ch).state.senderWaiter.toList
  | _ => []

variable {resource : WaitResource}

section

variable {k : SchedulerState} {lane lane' : LaneId} {waiter : Option LaneId}

theorem mem_ready_wake : lane ∈ (wake waiter k).ready ↔ lane ∈ waiter.toList ∨ lane ∈ k.ready := by
  cases waiter with
  | none => simp [wake]
  | some w =>
    rw [Option.toList_some, mem_singleton]
    exact LaneLists.mem_ready_signalReady

theorem get?_stalled_wake (h : (wake waiter k).stalled.get? lane ≠ none) :
    k.stalled.get? lane ≠ none := by
  cases waiter with
  | none => exact h
  | some w =>
    have hsignal : (k.toLaneLists.signalReady w).stalled.get? lane ≠ none := h
    rw [LaneLists.get?_stalled_signalReady] at hsignal
    split at hsignal
    · exact absurd rfl hsignal
    · exact hsignal

theorem mem_ready_registerWait
    (h : lane ∈ (registerWait lane' resource k).ready) : lane ∈ k.ready :=
  (LaneLists.mem_ready_registerWait.mp h).2

theorem get?_stalled_registerWait (h : (registerWait lane' resource k).stalled.get? lane ≠ none) :
    k.stalled.get? lane ≠ none ∨ lane = lane' := by
  have hlists : (k.toLaneLists.registerWait lane' resource).stalled.get? lane ≠ none := h
  rw [LaneLists.get?_stalled_registerWait] at hlists
  split at hlists
  · rename_i heq
    exact .inr heq
  · exact .inl hlists

end

structure Changes (s : KernelState) (op : Op) (reply : Reply) (s' : KernelState) : Prop where
  ready : ∀ lane, lane ∈ s'.scheduler.ready →
    lane ∈ s.scheduler.ready ∨ lane ∈ woken s op ∨ Registers lane (op, reply)
  stalled : ∀ lane, s'.scheduler.stalled.get? lane ≠ none →
    s.scheduler.stalled.get? lane ≠ none ∨ s.executor.hasLane lane = true
  wakes : ∀ lane ∈ woken s op, lane ∈ s'.scheduler.ready ∧ ¬ Registers lane (op, reply)
  notified : ∀ lane, Notifies lane (op, reply) →
    lane ∉ s'.scheduler.ready ∧ s'.scheduler.stalled.get? lane = none
  live : ∀ lane, s'.executor.hasLane lane = true →
    ¬ Notifies lane (op, reply) ∧ (s.executor.hasLane lane = true ∨ Registers lane (op, reply))

section

variable {hash : Hash} {build : BuildProfile} {tries : Nat} {s s' : KernelState}
  {op : Op} {reply : Reply}

theorem changes_channel {channels : Channels SchedulerState}
    (calm : ∀ lane, ¬ Notifies lane (op, reply)) (fresh : ∀ lane, ¬ Registers lane (op, reply))
    (ready : ∀ lane, lane ∈ channels.kernel.ready ↔ lane ∈ woken s op ∨ lane ∈ s.scheduler.ready)
    (stalled : ∀ lane, channels.kernel.stalled.get? lane ≠ none →
      s.scheduler.stalled.get? lane ≠ none) :
    Changes s op reply { s with channels := channels } where
  ready := by
    intro lane hready
    rcases (ready lane).mp hready with hwoken | hbefore
    · exact .inr (.inl hwoken)
    · exact .inl hbefore
  stalled := fun lane hstalled => .inl (stalled lane hstalled)
  wakes := fun lane hwoken => ⟨(ready lane).mpr (.inl hwoken), fresh lane⟩
  notified := fun lane hnotifies => absurd hnotifies (calm lane)
  live := fun lane hlive => ⟨calm lane, .inl hlive⟩

variable {lane : LaneId} {ch : ChannelRef}

variable (inFlight : s.executor.hasLane lane = true)

include inFlight

theorem changes_park {inner : ChannelRef → ChannelInner} {fresh : ChannelRef}
    (calm : ∀ lane, ¬ Notifies lane (op, reply)) (nobody : woken s op = []) :
    Changes s op reply
      { s with channels := ⟨inner, fresh, registerWait lane resource s.scheduler⟩ } where
  ready := fun _ hready => .inl (mem_ready_registerWait hready)
  stalled := by
    intro lane' hstalled
    rcases get?_stalled_registerWait hstalled with hbefore | rfl
    · exact .inl hbefore
    · exact .inr inFlight
  wakes := by simp [nobody]
  notified := fun lane hnotifies => absurd hnotifies (calm lane)
  live := fun lane hlive => ⟨calm lane, .inl hlive⟩

theorem changes_trySend {msg : Message} :
    Changes s (.trySend lane ch msg) (.sent (s.channels.trySend ch lane msg).1)
      { s with channels := (s.channels.trySend ch lane msg).2 } := by
  have hsends := trySend_sends lane msg ⟨s.channels.inner ch, s.scheduler⟩
  simp only [Channels.trySend, Channels.act]
  generalize Channel.Queue.trySend lane msg ⟨s.channels.inner ch, s.scheduler⟩ = r at hsends
  cases hsends with
  | closed shut =>
    have hnobody : woken s (.trySend lane ch msg) = [] := by simp_all [woken]
    exact changes_channel (by simp [Notifies]) (by simp [Registers])
      (by simp [hnobody]) fun _ h => h
  | tooLarge isOpen large =>
    have hnobody : woken s (.trySend lane ch msg) = [] := by
      refine if_neg fun h => ?_
      exact absurd h.2.1 (not_le.mpr large)
    exact changes_channel (by simp [Notifies]) (by simp [Registers])
      (by simp [hnobody]) fun _ h => h
  | sent isOpen small room =>
    have hreceiver :
      woken s (.trySend lane ch msg) = (s.channels.inner ch).state.receiverWaiter.toList :=
      if_pos ⟨isOpen, small, room⟩
    refine changes_channel (by simp [Notifies]) (by simp [Registers]) (fun lane' => ?_)
      fun _ h => get?_stalled_wake h
    rw [hreceiver]
    exact mem_ready_wake
  | full isOpen small full =>
    refine changes_park inFlight (by simp [Notifies]) (if_neg fun h => ?_)
    exact absurd h.2.2 (not_lt.mpr full)

theorem changes_tryRecv : Changes s (.tryRecv lane ch) (.received (s.channels.tryRecv ch lane).1)
      { s with channels := (s.channels.tryRecv ch lane).2 } := by
  have hreceives := tryRecv_receives lane ⟨s.channels.inner ch, s.scheduler⟩
  simp only [Channels.tryRecv, Channels.act]
  generalize Channel.Queue.tryRecv lane ⟨s.channels.inner ch, s.scheduler⟩ = r at hreceives
  cases hreceives with
  | message first =>
    have hsender :
      woken s (.tryRecv lane ch) = (s.channels.inner ch).state.senderWaiter.toList := by
      refine if_neg ?_
      simp_all
    refine changes_channel (by simp [Notifies]) (by simp [Registers]) (fun lane' => ?_)
      fun _ h => get?_stalled_wake h
    rw [hsender]
    exact mem_ready_wake
  | empty none isOpen => exact changes_park inFlight (by simp [Notifies]) (if_pos none)
  | closed none shut =>
    have hnobody : woken s (.tryRecv lane ch) = [] := if_pos none
    exact changes_channel (by simp [Notifies]) (by simp [Registers])
      (by simp [hnobody]) fun _ h => h

omit inFlight

theorem changes_close :
    Changes s (.close lane ch) .done { s with channels := s.channels.close ch } := by
  refine changes_channel (by simp [Notifies]) (by simp [Registers]) (fun lane' => ?_)
    fun _ h => get?_stalled_wake (get?_stalled_wake h)
  refine mem_ready_wake.trans ?_
  rw [mem_ready_wake, woken, mem_append, or_left_comm, or_assoc]
  rfl

theorem changes_spawn {cls : WeightClass}
    {r : Except RuntimeError LaneId × LaneExecutor Unit × SchedulerState}
    (spawned : LaneExecutor.Spawned s.executor s.scheduler r)
    (calm : ∀ lane reply, ¬ Notifies lane (op, reply))
    (nobody : woken s op = []) :
    Changes s op (register cls s.channels r).1 (register cls s.channels r).2 := by
  cases spawned with
  | refused =>
    exact changes_channel (calm · _) (by simp [Registers, register])
      (by simp [nobody]) fun _ h => h
  | @installed lane future next =>
    refine ⟨fun lane' hready => ?_, fun lane' hstalled => .inl ?_, by simp [nobody],
      fun lane' hnotifies => absurd hnotifies (calm lane' _), fun lane' hlive => ?_⟩
    · rcases LaneLists.mem_ready_signalReady.mp hready with rfl | hbefore
      · exact .inr (.inr rfl)
      · exact .inl hbefore
    · have hwake : (wake (some lane) s.scheduler).stalled.get? lane' ≠ none := hstalled
      exact get?_stalled_wake hwake
    · by_cases hnew : lane' = lane
      · exact ⟨calm lane' _, .inr (congrArg Reply.spawned hnew.symm)⟩
      · have hlanes : ((s.executor.install lane future).lanes.get? lane').isSome := hlive
        rw [LaneExecutor.get?_install, if_neg hnew] at hlanes
        exact ⟨calm lane' _, .inl hlanes⟩

theorem changes_finish (notifies : ∀ lane', Notifies lane' (op, reply) ↔ lane' = lane)
    (nobody : woken s op = []) : Changes s op reply (s.finish lane) where
  ready := fun _ hready => .inl (LaneLists.mem_ready_forget.mp hready).2
  stalled := by
    intro lane' hstalled
    have hforget : (s.scheduler.toLaneLists.forget lane).stalled.get? lane' ≠ none := hstalled
    rw [LaneLists.get?_stalled_forget] at hforget
    split at hforget
    · exact absurd rfl hforget
    · exact .inl hforget
  wakes := by simp [nobody]
  notified := by
    intro lane' hnotifies
    obtain rfl := (notifies lane').mp hnotifies
    exact ⟨fun hready => (LaneLists.mem_ready_forget.mp hready).1 rfl,
      LaneLists.get?_stalled_forget.trans (if_pos rfl)⟩
  live := by
    intro lane' hlive
    have hlanes : ((s.executor.remove lane).lanes.get? lane').isSome := hlive
    rw [LaneExecutor.get?_remove] at hlanes
    split at hlanes
    · simp at hlanes
    · rename_i hother
      exact ⟨fun hnotifies => hother ((notifies lane').mp hnotifies), .inl hlanes⟩

theorem step_changes (h : step hash build tries op s = some (reply, s')) :
    Changes s op reply s' := by
  cases op with
  | createChannel id terms =>
    cases h
    exact changes_channel (by simp [Notifies]) (by simp [Registers])
      (by simp [woken, Channels.create]) fun _ h => h
  | spawn cls =>
    obtain ⟨r, hspawn, hr⟩ := Option.map_eq_some_iff.mp h
    obtain ⟨rfl, rfl⟩ := Prod.ext_iff.mp hr
    exact changes_spawn (LaneExecutor.spawnWithLane_spawned hspawn) (by simp [Notifies]) rfl
  | spawnOn lane cls =>
    obtain ⟨r, hspawn, hr⟩ := Option.map_eq_some_iff.mp h
    obtain ⟨rfl, rfl⟩ := Prod.ext_iff.mp hr
    exact changes_spawn (LaneExecutor.spawnOn_spawned hspawn) (by simp [Notifies]) rfl
  | trySend lane ch msg =>
    rw [step, Option.ite_none_right_eq_some] at h
    obtain ⟨hlive, heq⟩ := h
    cases heq
    exact changes_trySend hlive
  | tryRecv lane ch =>
    rw [step, Option.ite_none_right_eq_some] at h
    obtain ⟨hlive, heq⟩ := h
    cases heq
    exact changes_tryRecv hlive
  | close lane ch =>
    rw [step, Option.ite_none_right_eq_some] at h
    obtain ⟨hlive, heq⟩ := h
    cases heq
    exact changes_close
  | complete lane =>
    rw [step, Option.ite_none_right_eq_some] at h
    obtain ⟨hlive, heq⟩ := h
    cases heq
    exact changes_finish (by simp [Notifies, eq_comm]) rfl
  | abort lane =>
    cases h
    exact changes_finish (by simp [Notifies, eq_comm]) rfl
  | takeDispatchBatch =>
    obtain ⟨⟨chosen, k⟩, htaken, heq⟩ := Option.map_eq_some_iff.mp h
    cases heq
    obtain ⟨-, csprng, rfl⟩ := SchedulerState.takeDispatchBatch_spec htaken
    exact {
      ready := fun _ hready => .inl (LaneLists.mem_ready_withdraw.mp hready).1
      stalled := fun _ hstalled => .inl hstalled
      wakes := by simp [woken]
      notified := by simp [Notifies]
      live := fun lane hlive => ⟨by simp [Notifies], .inl hlive⟩ }

end

section

variable {hash : Hash} {build : BuildProfile} {tries : Nat} {s0 s s' : KernelState}
  {events : List (Op × Reply)}

theorem run_live (h : Run (step hash build tries) s0 events s)
    (none : ∀ lane, s0.executor.hasLane lane = false) :
    ∀ lane, s.executor.hasLane lane = true → ¬ HasFinished events lane := by
  induction h with
  | start =>
    intro lane hlive
    rw [none lane] at hlive
    cases hlive
  | next before taken ih =>
    intro lane hlive hfinished
    obtain ⟨hcalm, hbefore⟩ := (step_changes taken).live lane hlive
    obtain ⟨hearlier, hkept⟩ := (hasFinished_snoc.mp hfinished).resolve_left hcalm
    rcases hbefore with hbefore | hregisters
    · exact ih lane hbefore hearlier
    · exact hkept hregisters

def OffLists (s : KernelState) (lane : LaneId) : Prop :=
  lane ∉ s.scheduler.ready ∧ s.scheduler.stalled.get? lane = none

def StayFinished (events : List (Op × Reply)) (s : KernelState) : Prop :=
  ∀ lane, HasFinished events lane → OffLists s lane

def FreshBatch (pre : List (Op × Reply)) (op : Op) (reply : Reply) : Prop :=
  op = .takeDispatchBatch → ∀ lanes, reply = .batch lanes → ∀ lane ∈ lanes, ¬ HasFinished pre lane

def WakesLive (pre : List (Op × Reply)) (s : KernelState) (op : Op) : Prop :=
  ∀ lane ∈ woken s op, ¬ HasFinished pre lane

theorem stayFinished_iff {op : Op} {reply : Reply} (live : ∀ lane, s.executor.hasLane lane = true →
    ¬ HasFinished events lane) (before : StayFinished events s)
      (taken : step hash build tries op s = some (reply, s')) :
    StayFinished (events ++ [(op, reply)]) s' ↔ WakesLive events s op := by
  have hchanges := step_changes taken
  constructor
  · intro hafter lane hwoken hfinished
    obtain ⟨hready, hkept⟩ := hchanges.wakes lane hwoken
    exact (hafter lane (hasFinished_snoc.mpr (.inr ⟨hfinished, hkept⟩))).1 hready
  · intro hwakes lane hfinished
    rcases hasFinished_snoc.mp hfinished with hnotifies | ⟨hearlier, hkept⟩
    · exact hchanges.notified lane hnotifies
    · obtain ⟨hready, hstalled⟩ := before lane hearlier
      constructor
      · intro hnow
        rcases hchanges.ready lane hnow with hbefore | hwoken | hregisters
        · exact hready hbefore
        · exact hwakes lane hwoken hearlier
        · exact hkept hregisters
      · by_contra hnow
        rcases hchanges.stalled lane hnow with hbefore | hlive
        · exact hbefore hstalled
        · exact live lane hlive hearlier

theorem mem_ready_of_batch {lanes : List LaneId}
    (taken : step hash build tries .takeDispatchBatch s = some (.batch lanes, s')) :
    ∀ lane ∈ lanes, lane ∈ s.scheduler.ready := by
  obtain ⟨⟨chosen, k⟩, htaken, heq⟩ := Option.map_eq_some_iff.mp taken
  cases heq
  obtain ⟨⟨rest, hperm⟩, -⟩ := SchedulerState.takeDispatchBatch_spec htaken
  intro lane hlane
  exact hperm.subset (mem_append_left rest hlane)

/-- In a run of a new kernel, finished lanes stay off the lists and out of the batches exactly if no
call takes one of them out of a waiter slot. -/
theorem run_stayFinished_iff {contexts maxLanes : Nat} {seed : Vector Byte 32}
    {profile : CibosProfile}
    (h : Run (step hash build tries) (.new hash contexts seed profile maxLanes) events s) :
    (Through (step hash build tries) (.new hash contexts seed profile maxLanes)
      StayFinished events ∧
        Always FreshBatch events) ↔
      Meets (step hash build tries) (.new hash contexts seed profile maxLanes) WakesLive
        events := by
  have hiff := h.through_iff_meets (P := StayFinished) (C := WakesLive)
    (fun lane hfinished => absurd hfinished not_hasFinished_nil)
    fun pre s a b s' hpre before taken => stayFinished_iff (run_live hpre fun _ => rfl) before taken
  rw [← hiff]
  refine ⟨And.left, fun hthrough => ⟨hthrough, ?_⟩⟩
  rintro pre op reply post rfl rfl lanes rfl lane hlane hfinished
  obtain ⟨s1, s2, hpre, htaken, -⟩ := h.event
  exact (hthrough pre _ s1 rfl hpre lane hfinished).1 (mem_ready_of_batch htaken lane hlane)

end

def smallKernel : KernelState := .new zeros 1 (Vector.replicate 32 0) .balanced 8

def smallStep : Op → KernelState → Option (Reply × KernelState) := step zeros .dev 1

theorem run_stayFinished_spawn : ∃ s, Run smallStep smallKernel
      [(.spawn .user, .spawned 1), (.takeDispatchBatch, .batch [1]), (.complete 1, .done)] s ∧
    Through smallStep smallKernel StayFinished
      [(.spawn .user, .spawned 1), (.takeDispatchBatch, .batch [1]), (.complete 1, .done)] := by
  refine exists_run_eval ⟨_, rfl, fun hrun => ((run_stayFinished_iff hrun).mpr ?_).1⟩
  intro pre op reply post s' hsplit _ lane hwoken
  have hmem : (op, reply) ∈ pre ++ (op, reply) :: post := mem_append_cons_self
  rw [← hsplit] at hmem
  simp only [mem_cons, Prod.mk.injEq, not_mem_nil, or_false] at hmem
  rcases hmem with ⟨rfl, -⟩ | ⟨rfl, -⟩ | ⟨rfl, -⟩ <;> exact absurd hwoken not_mem_nil

def staleWake : List (Op × Reply) :=
  [(.createChannel 7 ⟨⟨[], Nat.zero_le _⟩, .bidirectional, 1, 1⟩, .done),
    (.spawn .user, .spawned 1),
    (.takeDispatchBatch, .batch [1]), (.tryRecv 1 0, .received .empty), (.complete 1, .done),
    (.spawn .user, .spawned 2), (.takeDispatchBatch, .batch [2]), (.trySend 2 0 [5], .sent .sent)]

/-- The next batch is the lane that has finished. -/
theorem finished_lane_dispatched :
    ∃ s, Run smallStep smallKernel (staleWake ++ [(.takeDispatchBatch, .batch [1])]) s ∧
      HasFinished staleWake 1 := by
  refine exists_run_eval ⟨_, rfl, fun _ => ?_⟩
  refine ⟨staleWake.take 4, (.complete 1, .done), staleWake.drop 5, ⟨rfl, ?_⟩, .inl rfl⟩
  simp [staleWake, Registers]

end CibosPlatform.Kernel.Finished
