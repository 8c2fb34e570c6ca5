/- source: cibos-kernel/src/scheduler.rs, cibos-kernel/src/selector.rs, shared/src/types/config.rs
   digest: Under Maximum Isolation neither classes nor requested weights show in what is scheduled. -/

import CibosPlatform.Kernel.Scheduler.State

namespace CibosPlatform.Kernel.Scheduler.Uniformity

open Core Events LittleEndian MachineWord Entropy State
open Shared Config Ipc Option SchedulerState

inductive Alike : Op → Op → Prop
  | registerLane (lane : LaneId) (cls cls' : WeightClass) :
      Alike (.registerLane lane cls) (.registerLane lane cls')
  | setLaneWeight (lane : LaneId) (weight weight' : Nat) :
      Alike (.setLaneWeight lane weight) (.setLaneWeight lane weight')
  | updateLaneWeight (lane : LaneId) (weight weight' : Nat) :
      Alike (.updateLaneWeight lane weight) (.updateLaneWeight lane weight')
  | equal (op : Op) : Alike op op

structure Isolating (s : SchedulerState) : Prop where
  profile : s.profile = .maximumIsolation
  config : s.config = .defaultsFor .maximumIsolation

/-- Two schedulers under Maximum Isolation that differ only in the classes and weights of their lanes. -/
structure Agree (s t : SchedulerState) : Prop where
  lists : s.toLaneLists = t.toLaneLists
  csprng : s.csprng = t.csprng
  now : s.now = t.now
  contexts : s.executionContexts = t.executionContexts
  left : Isolating s
  right : Isolating t

variable {hash : Hash} {build : BuildProfile} {tries : Nat} {s t : SchedulerState}

theorem Isolating.weightFor (h : Isolating s) (lane : LaneId) : s.weightFor lane = 1 := by
  have hfixed : s.supportsWeightOverrides = false := by
    rw [supportsWeightOverrides, h.profile]
    rfl
  rw [SchedulerState.weightFor, hfixed, h.config]
  rcases (s.classes.get? lane).getD .user with _ | _ | _
  · rfl
  · rfl
  · rfl

theorem Isolating.takeDispatchBatch (h : Isolating s) : s.takeDispatchBatch hash build tries =
    (Selector.select hash build tries (s.ready.map fun lane => ⟨lane, 1⟩) s.executionContexts s.csprng).map
      fun r => (r.1, { s with csprng := r.2, toLaneLists := s.toLaneLists.withdraw r.1 }) := by
  simp only [SchedulerState.takeDispatchBatch, h.weightFor]

theorem Agree.takeDispatchBatch (h : Agree s t) {chosen chosen' : List LaneId} {s' t' : SchedulerState}
    (taken : s.takeDispatchBatch hash build tries = some (chosen, s'))
    (taken' : t.takeDispatchBatch hash build tries = some (chosen', t')) : chosen = chosen' ∧ Agree s' t' := by
  rw [h.left.takeDispatchBatch] at taken
  rw [h.right.takeDispatchBatch, ← h.lists, ← h.csprng, ← h.contexts] at taken'
  obtain ⟨r, hselect, heq⟩ := map_eq_some_iff.mp taken
  obtain ⟨r', hselect', heq'⟩ := map_eq_some_iff.mp taken'
  obtain rfl : r = r' := some.inj (hselect.symm.trans hselect')
  cases heq
  cases heq'
  exact ⟨rfl, ⟨rfl, rfl, h.now, rfl, ⟨h.left.profile, h.left.config⟩, ⟨h.right.profile, h.right.config⟩⟩⟩

theorem Agree.releaseMatured (h : Agree s t) : Agree s.releaseMatured t.releaseMatured where
  lists := by
    have hmatured : s.matured = t.matured := by rw [matured, h.lists, h.now]; rfl
    rw [SchedulerState.releaseMatured, SchedulerState.releaseMatured, hmatured, h.lists]
  csprng := h.csprng
  now := h.now
  contexts := h.contexts
  left := ⟨h.left.profile, h.left.config⟩
  right := ⟨h.right.profile, h.right.config⟩

theorem Agree.atTime (h : Agree s t) {now now' : Nat} (same : now = now') :
    Agree { s with now := now } { t with now := now' } :=
  ⟨h.lists, h.csprng, same, h.contexts, ⟨h.left.profile, h.left.config⟩, ⟨h.right.profile, h.right.config⟩⟩

theorem Isolating.weight_refused (h : Isolating s) {op : Op} {reply : Reply} {s' : SchedulerState}
    {lane : LaneId} {weight : Nat} (call : op = .setLaneWeight lane weight ∨ op = .updateLaneWeight lane weight)
    (taken : step hash build tries op s = some (reply, s')) : reply = .flag false ∧ s' = s := by
  have hrefused : s.setLaneWeight lane weight = (false, s) := by
    rw [setLaneWeight, supportsWeightOverrides, h.profile]
    rfl
  rcases call with rfl | rfl
  · rw [step, hrefused] at taken
    cases taken
    exact ⟨rfl, rfl⟩
  · rw [step, updateLaneWeight, hrefused] at taken
    cases taken
    exact ⟨rfl, rfl⟩

theorem step_agree {op op' : Op} {reply reply' : Reply} {s' t' : SchedulerState} (h : Agree s t)
    (alike : Alike op op') (taken : step hash build tries op s = some (reply, s'))
    (taken' : step hash build tries op' t = some (reply', t')) : reply = reply' ∧ Agree s' t' := by
  have hleft : Isolating s := h.left
  have hright : Isolating t := h.right
  -- a call that changes neither the profile nor the weights of the classes
  have hkept : ∀ {lists lists' : Lists.LaneLists} {classes classes' overrides overrides'}, lists = lists' →
      Agree { s with toLaneLists := lists, classes := classes, overrides := overrides }
        { t with toLaneLists := lists', classes := classes', overrides := overrides' } :=
    fun same => ⟨same, h.csprng, h.now, h.contexts, ⟨hleft.profile, hleft.config⟩,
      ⟨hright.profile, hright.config⟩⟩
  have hrefused : ∀ {lane weight weight'}, op = .setLaneWeight lane weight ∨ op = .updateLaneWeight lane weight →
      op' = .setLaneWeight lane weight' ∨ op' = .updateLaneWeight lane weight' → reply = reply' ∧ Agree s' t' := by
    intro lane weight weight' call call'
    obtain ⟨rfl, rfl⟩ := hleft.weight_refused call taken
    obtain ⟨rfl, rfl⟩ := hright.weight_refused call' taken'
    exact ⟨rfl, h⟩
  cases alike with
  | registerLane lane cls cls' =>
    cases taken
    cases taken'
    exact ⟨rfl, hkept h.lists⟩
  | setLaneWeight lane weight weight' => exact hrefused (.inl rfl) (.inl rfl)
  | updateLaneWeight lane weight weight' => exact hrefused (.inr rfl) (.inr rfl)
  | equal =>
    cases op with
    | registerLane lane cls =>
      cases taken
      cases taken'
      exact ⟨rfl, hkept h.lists⟩
    | registerWait lane resource | signalReady lane | notifyComplete lane =>
      cases taken
      cases taken'
      exact ⟨rfl, hkept (congrArg _ h.lists)⟩
    | setLaneWeight lane weight => exact hrefused (.inl rfl) (.inl rfl)
    | updateLaneWeight lane weight => exact hrefused (.inr rfl) (.inr rfl)
    | advanceClock delta =>
      cases taken
      cases taken'
      exact ⟨rfl, (h.atTime (by rw [h.now])).releaseMatured⟩
    | advanceToNextTimer =>
      have hearliest : s.earliest = t.earliest := by
        rw [earliest, earliest, h.lists]
      rw [step, advanceToNextTimer, hearliest] at taken
      rw [step, advanceToNextTimer] at taken'
      rcases hnext : t.earliest with _ | deadline
      · rw [hnext] at taken taken'
        cases taken
        cases taken'
        exact ⟨rfl, h⟩
      · rw [hnext] at taken taken'
        cases taken
        cases taken'
        exact ⟨rfl, (h.atTime (by rw [h.now])).releaseMatured⟩
    | takeDispatchBatch =>
      obtain ⟨⟨chosen, next⟩, hbatch, heq⟩ := map_eq_some_iff.mp taken
      obtain ⟨⟨chosen', next'⟩, hbatch', heq'⟩ := map_eq_some_iff.mp taken'
      cases heq
      cases heq'
      obtain ⟨rfl, hnext⟩ := h.takeDispatchBatch hbatch hbatch'
      exact ⟨rfl, hnext⟩

theorem run_agree {contexts : Nat} {seed : Vector Byte 32} {events events' : List (Op × Reply)}
    (h : Run (step hash build tries) (.new hash contexts seed .maximumIsolation) events s)
    (h' : Run (step hash build tries) (.new hash contexts seed .maximumIsolation) events' t)
    (calls : List.Forall₂ Alike (events.map Prod.fst) (events'.map Prod.fst)) :
    events.map Prod.snd = events'.map Prod.snd ∧ Agree s t := by
  refine h.lockstep h' ?_ ?_ calls
  · exact ⟨rfl, rfl, rfl, rfl, ⟨rfl, rfl⟩, ⟨rfl, rfl⟩⟩
  · exact fun _ _ _ _ _ _ _ _ hagree halike taken taken' => step_agree hagree halike taken taken'

/-- Two runs that differ only in classes and weights give the same answers, batches included, and go
through the same lists. -/
theorem runs_alike {contexts : Nat} {seed : Vector Byte 32} {events events' : List (Op × Reply)}
    (h : Run (step hash build tries) (.new hash contexts seed .maximumIsolation) events s)
    (h' : Run (step hash build tries) (.new hash contexts seed .maximumIsolation) events' t)
    (calls : List.Forall₂ Alike (events.map Prod.fst) (events'.map Prod.fst)) :
    events.map Prod.snd = events'.map Prod.snd ∧ ∀ n s1 t1,
      Run (step hash build tries) (.new hash contexts seed .maximumIsolation) (events.take n) s1 →
      Run (step hash build tries) (.new hash contexts seed .maximumIsolation) (events'.take n) t1 →
        s1.ready = t1.ready ∧ s1.stalled = t1.stalled := by
  refine ⟨(run_agree h h' calls).1, fun n s1 t1 hpart hpart' => ?_⟩
  have hcalls : List.Forall₂ Alike ((events.take n).map Prod.fst) ((events'.take n).map Prod.fst) := by
    rw [List.map_take, List.map_take]
    exact List.forall₂_take n calls
  have hlists := (run_agree hpart hpart' hcalls).2.lists
  exact ⟨by rw [hlists], by rw [hlists]⟩

/-- Two lanes compete for one context; one run makes the second a system lane of weight nine. -/
theorem runs_alike_competing : ∃ s t, Run (step zeros .dev 1)
      (.new zeros 1 (Vector.replicate 32 0) .maximumIsolation)
      [(.signalReady 1, .done), (.signalReady 2, .done), (.registerLane 2 .background, .done),
        (.setLaneWeight 2 1, .flag false), (.takeDispatchBatch, .batch [1])] s ∧
    Run (step zeros .dev 1)
      (.new zeros 1 (Vector.replicate 32 0) .maximumIsolation)
      [(.signalReady 1, .done), (.signalReady 2, .done), (.registerLane 2 .system, .done),
        (.setLaneWeight 2 9, .flag false), (.takeDispatchBatch, .batch [1])] t ∧
    s.ready = t.ready ∧ s.stalled = t.stalled := by
  have hcalls : List.Forall₂ Alike
      [.signalReady 1, .signalReady 2, .registerLane 2 .background, .setLaneWeight 2 1, .takeDispatchBatch]
      [.signalReady 1, .signalReady 2, .registerLane 2 .system, .setLaneWeight 2 9, .takeDispatchBatch] :=
    .cons (.equal _) (.cons (.equal _) (.cons (.registerLane 2 _ _) (.cons (.setLaneWeight 2 1 9)
      (.cons (.equal _) .nil))))
  exact exists_runs_eval ⟨_, _, rfl, rfl, fun hs ht => (runs_alike hs ht hcalls).2 5 _ _ hs ht⟩

end CibosPlatform.Kernel.Scheduler.Uniformity
