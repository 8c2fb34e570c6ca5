/- source: cibos-sdk/src/lane.rs, cibos-sdk/src/app.rs, cibos-kernel/src/kernel.rs, cibos-kernel/src/scheduler.rs
   digest: The weight of a lane that was created with one, from future to future. -/

import CibosPlatform.Kernel.Loop

namespace CibosPlatform.Sdk.Weight

open Core Events Interaction LittleEndian MachineWord Maps Kernel.Loop Kernel.Scheduler.Entropy
open Kernel.Scheduler.State (SchedulerState)
open Runtime.Executor Shared Config Ipc List Option

inductive LaneError where
  | containerAtCapacity
  | weightOutOfRange
  | alreadyOccupied

/-- A `Lane`: the kernel its futures run on, those submitted and not yet installed, and whether
there is a message in its completion channel of one slot. -/
structure Lane (F M : Type) where
  kernel : KernelState F M
  pending : List F
  occupied : Bool
  completion : Bool

inductive Op (F : Type) where
  | submit (future : F)
  | join
  | install
  | kernel (op : Kernel.Loop.Op F)

inductive Reply where
  | done
  | refused (error : LaneError)
  | kernel (reply : Kernel.Loop.Reply)

section

variable {F M : Type}

def createWithWeight (weight : Nat) (reserved : Option LaneId) (k : KernelState F M) :
    Except LaneError (LaneId × Lane F M) :=
  if weight < 1 ∨ 100 < weight then .error .weightOutOfRange
  else match reserved with
  | none => .error .containerAtCapacity
  | some id => .ok (id, ⟨{ k with scheduler := (k.scheduler.setLaneWeight id weight).2 }, [], false, false⟩)

variable (id : LaneId)

def completes : Kernel.Loop.Reply → Bool
  | .polled lane .completed _ => lane = id
  | _ => false

/-- One step on the lane `id`: a call on the handle, a round of the host's loop over the submitted
futures, or a step of the kernel. -/
def step (hash : Hash) (build : BuildProfile) (tries : Nat) (behaviour : Behaviour F M) (id : LaneId) (op : Op F)
    (s : Lane F M) : Option (Reply × Lane F M) :=
  match op, s.pending with
  | .submit future, _ =>
    if s.occupied then some (.refused .alreadyOccupied, s)
    else some (.done, { s with pending := s.pending ++ [future], occupied := true })
  | .join, _ =>
    if s.occupied = false then some (.done, s)
    else if s.completion then some (.done, { s with occupied := false, completion := false })
    else none
  | .install, future :: rest =>
    (Kernel.Loop.step hash build tries behaviour (.spawnOn id .user future) s.kernel).map fun r =>
      (.kernel r.1, { s with kernel := r.2, pending := rest })
  | .install, [] => none
  | .kernel op, _ => (Kernel.Loop.step hash build tries behaviour op s.kernel).map fun r =>
      (.kernel r.1, { s with kernel := r.2, completion := s.completion || completes id r.1 })

def forgets : Reply → Bool
  | .kernel (.polled lane .completed _) => lane = id
  | .kernel (.polled lane .notFound _) => lane = id
  | _ => false

def Reweighs : Reply → Prop
  | .kernel (.polled _ _ calls) => ∃ weight, .setLaneWeight id weight ∈ calls ∨ .updateLaneWeight id weight ∈ calls
  | _ => False

def Considers (s : Lane F M) (op : Op F) : Prop :=
  op = .kernel .dispatch ∧ id ∈ s.kernel.scheduler.ready

def UsesWeight (weight : Nat) (_ : List (Op F × Reply)) (s : Lane F M) (op : Op F) : Prop :=
  Considers id s op → s.kernel.scheduler.weightFor id = weight

def FirstFuture (past : List (Op F × Reply)) (s : Lane F M) (op : Op F) : Prop :=
  Considers id s op → past.any (fun event => forgets id event.2) = false

structure Weighed (id : LaneId) (weight : Option Nat) (s : SchedulerState) : Prop where
  profile : s.profile = .compute
  config : s.config = .defaultsFor .compute
  override : s.overrides.get? id = weight

variable {id : LaneId} {weight : Option Nat} {s s' : SchedulerState}

theorem Weighed.weightFor (h : Weighed id weight s) : s.weightFor id = max (weight.getD 1) 1 := by
  have hsupports : s.supportsWeightOverrides := decide_eq_true h.profile
  rw [SchedulerState.weightFor, hsupports, if_pos rfl, h.override, h.config]
  cases weight with
  | some w => rfl
  | none => cases (s.classes.get? id).getD .user <;> rfl

theorem Weighed.call {q : KernelCall} {a : KernelAnswer q} (h : Weighed id weight s)
    (other : ∀ w, q ≠ .setLaneWeight id w ∧ q ≠ .updateLaneWeight id w)
    (asked : schedulerEnv q s = some (a, s')) : Weighed id weight s' := by
  have hset : ∀ lane w, lane ≠ id → Weighed id weight (s.setLaneWeight lane w).2 := by
    intro lane w hne
    unfold SchedulerState.setLaneWeight
    split
    · exact ⟨h.profile, h.config, by rw [SortedMap.get?_insert, if_neg (Ne.symm hne), h.override]⟩
    · exact h
  cases q with
  | registerWait | signalReady | now =>
    cases asked
    exact ⟨h.profile, h.config, h.override⟩
  | setLaneWeight lane w | updateLaneWeight lane w =>
    obtain rfl : (s.setLaneWeight lane w).2 = s' := congrArg Prod.snd (some.inj asked)
    refine hset lane w ?_
    rintro rfl
    simp at other

theorem Weighed.complete (h : Weighed id weight s) (lane : LaneId) :
    Weighed id (if lane = id then none else weight) (s.notifyComplete lane) := by
  refine ⟨h.profile, h.config, ?_⟩
  rw [← h.override]
  exact (SortedMap.get?_erase ..).trans (by simp only [eq_comm])

variable {hash : Hash} {build : BuildProfile} {tries : Nat} {behaviour : Behaviour F M} {k k' : KernelState F M}

theorem Weighed.kernel {op : Kernel.Loop.Op F} {reply : Kernel.Loop.Reply} (h : Weighed id weight k.scheduler)
    (taken : Kernel.Loop.step hash build tries behaviour op k = some (reply, k')) (fixed : ¬ Reweighs id (.kernel reply)) :
    Weighed id (if forgets id (.kernel reply) then none else weight) k'.scheduler := by
  have hsame : ∀ {s : SchedulerState}, s.profile = k.scheduler.profile → s.config = k.scheduler.config →
      s.overrides = k.scheduler.overrides → Weighed id weight s := fun hprofile hconfig hoverrides =>
    ⟨hprofile.trans h.profile, hconfig.trans h.config, hoverrides ▸ h.override⟩
  cases stepped taken with
  | spawned _ spawned =>
    cases spawned with
    | refused | installed => exact hsame rfl rfl rfl
  | clock _ advanced quiet =>
    have hkept : forgets id (.kernel reply) = false := by
      cases reply with
      | polled lane result calls => exact absurd rfl (quiet lane result calls)
      | _ => rfl
    rw [hkept]
    cases advanced with
    | same | moved => exact hsame rfl rfl rfl
  | entered | left => exact h
  | dispatched _ batch =>
    obtain ⟨-, csprng, rfl⟩ := SchedulerState.takeDispatchBatch_spec batch
    exact hsame rfl rfl rfl
  | @polled lane _ _ _ _ calls k1 _ polled =>
    have hran : ∀ {future : F} {r : Ended KernelCall KernelAnswer Empty (Poll F × M) SchedulerState},
        (behaviour lane future k.memory).run schedulerEnv k.scheduler = some r → r.events.map Sigma.fst = calls →
          Weighed id weight r.state := by
      rintro future r ran rfl
      refine Ask.run_keeps ran h fun event hmem s1 s2 hs1 => hs1.call fun w => ?_
      have hcall : event.1 ∈ r.events.map Sigma.fst := mem_map_of_mem hmem
      exact ⟨fun hset => fixed ⟨w, .inl (hset ▸ hcall)⟩, fun hupdate => fixed ⟨w, .inr (hupdate ▸ hcall)⟩⟩
    cases polled with
    | notFound => simpa [forgets, KernelState.settle] using h.complete lane
    | completed _ ran => simpa [forgets, KernelState.settle] using (hran ran rfl).complete lane
    | pending _ ran => exact hran ran rfl

variable {lane lane0 : Lane F M} {events : List (Op F × Reply)}

theorem Weighed.step {op : Op F} {reply : Reply} {lane' : Lane F M} (h : Weighed id weight lane.kernel.scheduler)
    (taken : Weight.step hash build tries behaviour id op lane = some (reply, lane')) (fixed : ¬ Reweighs id reply) :
    Weighed id (if forgets id reply then none else weight) lane'.kernel.scheduler := by
  unfold Weight.step at taken
  split at taken
  · split at taken <;> cases taken <;> exact h
  · split at taken
    · cases taken
      exact h
    · rw [ite_none_right_eq_some] at taken
      obtain ⟨-, heq⟩ := taken
      cases heq
      exact h
  · obtain ⟨r, hr, heq⟩ := map_eq_some_iff.mp taken
    cases heq
    exact h.kernel hr fixed
  · cases taken
  · obtain ⟨r, hr, heq⟩ := map_eq_some_iff.mp taken
    cases heq
    exact h.kernel hr fixed

theorem Weighed.run (h : Weighed id weight lane0.kernel.scheduler)
    (run : Run (Weight.step hash build tries behaviour id) lane0 events lane)
    (fixed : ∀ event ∈ events, ¬ Reweighs id event.2) :
    Weighed id (if events.any (forgets id ·.2) then none else weight) lane.kernel.scheduler := by
  induction run with
  | start => exact h
  | next before taken ih =>
    obtain ⟨hbefore, hlast⟩ := forall_mem_append.mp fixed
    have hnext := (ih hbefore).step taken (hlast _ (mem_singleton_self _))
    have hor : ∀ a b : Bool, (if a || b then none else weight) = if b then none else if a then none else weight := by
      intro a b
      cases a <;> cases b <;> rfl
    rwa [any_append, any_cons, any_nil, Bool.or_false, hor]

variable {w : Nat}

theorem weighed_of_created (created : createWithWeight w (some id) k = .ok (id, lane0))
    (compute : k.scheduler.profile = .compute) (config : k.scheduler.config = .defaultsFor .compute) :
    0 < w ∧ Weighed id (some w) lane0.kernel.scheduler := by
  rw [createWithWeight] at created
  split at created
  · cases created
  · have hpos : 0 < w := by omega
    have hsupports : k.scheduler.supportsWeightOverrides := decide_eq_true compute
    cases created
    refine ⟨hpos, ?_⟩
    rw [SchedulerState.setLaneWeight, hsupports, if_pos rfl, max_eq_left hpos]
    exact ⟨compute, config, (SortedMap.get?_insert ..).trans (if_pos rfl)⟩

/-- A lane created with a weight that is not set anew: every batch that considers the lane uses the
weight exactly if it is 1, as for every class, or every such batch comes before a future has ended
on the lane. -/
theorem weight_kept_iff (created : createWithWeight w (some id) k = .ok (id, lane0))
    (compute : k.scheduler.profile = .compute) (config : k.scheduler.config = .defaultsFor .compute)
    (run : Run (step hash build tries behaviour id) lane0 events lane)
    (fixed : ∀ event ∈ events, ¬ Reweighs id event.2) :
    Meets (step hash build tries behaviour id) lane0 (UsesWeight id w) events ↔
      w = 1 ∨ Meets (step hash build tries behaviour id) lane0 (FirstFuture id) events := by
  obtain ⟨hpos, hstart⟩ := weighed_of_created created compute config
  have hweight : ∀ pre post s, events = pre ++ post → Run (step hash build tries behaviour id) lane0 pre s →
      s.kernel.scheduler.weightFor id = if pre.any (forgets id ·.2) then 1 else w := by
    rintro pre post s rfl hrun
    rw [(hstart.run hrun (forall_mem_append.mp fixed).1).weightFor]
    split
    · rfl
    · exact max_eq_left hpos
  constructor
  · intro huses
    by_cases hone : w = 1
    · exact .inl hone
    · refine .inr fun pre op reply post s hsplit hrun hconsiders => ?_
      have hused := huses pre op reply post s hsplit hrun hconsiders
      rw [hweight pre _ s hsplit hrun] at hused
      split at hused
      · exact absurd hused.symm hone
      · rename_i hnone
        exact Bool.eq_false_of_not_eq_true hnone
  · rintro hkept pre op reply post s hsplit hrun hconsiders
    rw [hweight pre _ s hsplit hrun]
    rcases hkept with rfl | hfirst
    · exact ite_self 1
    · rw [hfirst pre op reply post s hsplit hrun hconsiders]
      rfl

end

def host : KernelState Unit Unit := .new zeros 1 (Vector.replicate 32 0) .compute 8 ()

def hostStep : Op Unit → Lane Unit Unit → Option (Reply × Lane Unit Unit) :=
  step zeros .dev 1 (fun _ _ _ => .done (.ready, ())) 2

def firstBatch : List (Op Unit × Reply) :=
  [(.submit (), .done), (.install, .kernel (.spawned (.ok 2))), (.kernel .enter, .kernel .done),
    (.kernel .dispatch, .kernel (.batch [2]))]

theorem weight_kept_iff_first : ∃ lane0 lane, createWithWeight 50 (some 2) host = .ok (2, lane0) ∧
    Run hostStep lane0 firstBatch lane ∧ Meets hostStep lane0 (UsesWeight 2 50) firstBatch := by
  obtain ⟨lane0, hcreated, lane, hrun⟩ : ∃ lane0, createWithWeight 50 (some 2) host = .ok (2, lane0) ∧
      ∃ lane, Run hostStep lane0 firstBatch lane := ⟨_, rfl, _, .eval rfl⟩
  refine ⟨lane0, lane, hcreated, hrun, (weight_kept_iff hcreated rfl rfl hrun ?_).mpr (.inr ?_)⟩
  · simp [firstBatch, Reweighs]
  · intro pre op reply post s hsplit _ _
    have hnone : firstBatch.any (forgets 2 ·.2) = false := rfl
    rw [hsplit, any_append, Bool.or_eq_false_iff] at hnone
    exact hnone.1

def secondSubmit : List (Op Unit × Reply) :=
  firstBatch ++ [(.kernel .poll, .kernel (.polled 2 .completed [])), (.kernel .leave, .kernel (.idle 1)),
    (.join, .done)] ++ firstBatch.take 3

/-- At the batch for the second future the lane created with a weight of 50 has a weight of 1. -/
theorem second_future_unweighted : ∃ lane0 lane, createWithWeight 50 (some 2) host = .ok (2, lane0) ∧
    Run hostStep lane0 secondSubmit lane ∧ Considers 2 lane (.kernel .dispatch) ∧
    lane.kernel.scheduler.weightFor 2 = 1 :=
  ⟨_, _, rfl, .eval rfl, ⟨rfl, mem_singleton_self _⟩, rfl⟩

end CibosPlatform.Sdk.Weight
