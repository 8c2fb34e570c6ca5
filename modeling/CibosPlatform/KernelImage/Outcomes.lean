/- source: kernel-image/src/boot.rs
   digest: What a third boundary learns about a request that is not its own. -/

import CibosPlatform.KernelImage.Table

namespace CibosPlatform.KernelImage.Outcomes

open Core Events MachineWord Maps List
open Kernel.Channel.Handshake (ChannelRegistry PendingRequest)
open Table Shared Error Ipc ChannelHandleTable

/-- How far a request has come: not decided, accepted with the outcome not collected, or neither. -/
inductive Fate where
  | pending
  | uncollected
  | gone

variable {K : Type}

def fate (id : Nat) (t : ChannelHandleTable K) : Fate :=
  if (t.accepted id).isSome then .uncollected
  else if t.registry.isPending id then .pending
  else .gone

structure Concerns (id : Nat) (requester target : BoundaryId) (t : ChannelHandleTable K) : Prop where
  pending : ∀ req, t.registry.pending.get? id = some req → req.requester = requester ∧ req.target = target
  accepted : ∀ b handle, t.accepted id = some (b, handle) → b = requester

structure DifferOnly (id : Nat) (requester target : BoundaryId) (t1 t2 : ChannelHandleTable K) : Prop where
  first : Concerns id requester target t1
  second : Concerns id requester target t2
  others : ∀ id', id' ≠ id → t1.registry.pending.get? id' = t2.registry.pending.get? id'

section

variable {t t1 t2 : ChannelHandleTable K} {id : Nat}
  {requester target observer : BoundaryId}

theorem Concerns.not_aimed (h : Concerns id requester target t) (stranger : observer ≠ target) (req : PendingRequest) :
    ¬ t.registry.Aimed id observer req := by
  rintro ⟨hpending, hobserver⟩
  exact stranger (hobserver.symm.trans (h.pending req hpending).2)

private theorem poll_eq_erase (h : Concerns id requester target t) (stranger : observer ≠ target) :
    (t.registry.pending.entries.find? fun e => e.2.target = observer) =
      (t.registry.pending.erase id).entries.find? fun e => e.2.target = observer := by
  change _ = (t.registry.pending.entries.filter fun e => e.1 ≠ id).find? _
  rw [← head?_filter, ← head?_filter, filter_filter]
  refine congrArg head? (filter_congr fun e he => ?_)
  have hother : e.2.target = observer → e.1 ≠ id := by
    rintro hobserver rfl
    exact h.not_aimed stranger e.2 ⟨SortedMap.mem_entries.mp he, hobserver⟩
  rw [← Bool.decide_and, decide_eq_decide]
  exact ⟨fun hobserver => ⟨hobserver, hother hobserver⟩, And.left⟩

def Fate.code : Fate → SyscallError
  | pending => .wouldBlock
  | uncollected => .notPermitted
  | gone => .notFound

theorem Fate.code_injective {f f' : Fate} (h : f.code = f'.code) : f = f' := by
  cases f <;> cases f' <;> first | rfl | cases h

theorem outcome_of_stranger (h : Concerns id requester target t) (stranger : observer ≠ requester) :
    (t.pollChannelOutcome observer id).1 = .error (fate id t).code := by
  rw [pollChannelOutcome, fate]
  rcases haccepted : t.accepted id with _ | ⟨b, handle⟩
  · cases hpending : t.registry.isPending id with
    | true | false => rfl
  · have hb := h.accepted b handle haccepted
    simp only
    rw [if_neg]
    · rfl
    · rintro rfl
      exact stranger hb

private def Only (id : Nat) (req : PendingRequest) (t : ChannelHandleTable K) : Prop :=
  (t.registry.pending.entries = [(id, req)] ∨ t.registry.pending.entries = []) ∧
    (t.accepted id = none ∨ ∃ handle, t.accepted id = some (req.requester, handle))

variable {req : PendingRequest}

private theorem Only.pending {id' : Nat} {req' : PendingRequest} (only : Only id req t)
    (hget : t.registry.pending.get? id' = some req') : id' = id ∧ req' = req := by
  rw [← SortedMap.mem_entries] at hget
  rcases only.1 with hentries | hentries
  · rw [hentries] at hget
    cases mem_singleton.mp hget
    exact ⟨rfl, rfl⟩
  · rw [hentries] at hget
    cases hget

private theorem Only.concerns (only : Only id req t) : Concerns id req.requester req.target t := by
  refine ⟨fun req' hget => ?_, fun b handle hsome => ?_⟩
  · rw [(only.pending hget).2]
    exact ⟨rfl, rfl⟩
  · rcases only.2 with hnone | ⟨handle', hsome'⟩
    · rw [hnone] at hsome
      cases hsome
    · rw [hsome'] at hsome
      cases hsome
      rfl

private theorem differOnly (req : PendingRequest) (only1 : Only id req t1) (only2 : Only id req t2) :
    DifferOnly id req.requester req.target t1 t2 := by
  refine ⟨only1.concerns, only2.concerns, fun id' hother => ?_⟩
  have hnone : ∀ t : ChannelHandleTable K, Only id req t → t.registry.pending.get? id' = none := by
    intro t only
    rw [Option.eq_none_iff_forall_ne_some]
    exact fun req' hget => hother (only.pending hget).1
  rw [hnone t1 only1, hnone t2 only2]

end

section

variable [KernelInterface K]

def Alike (profile : BuildProfile) (t1 t2 : ChannelHandleTable K) (call : Call) : Prop :=
  (step profile call t1).map Prod.fst = (step profile call t2).map Prod.fst

/-- None of the four calls about requests tells `observer` the two tables apart. -/
structure Indistinguishable (profile : BuildProfile) (observer : BoundaryId) (id : Nat)
    (t1 t2 : ChannelHandleTable K) : Prop where
  poll : ∀ out, Alike profile t1 t2 (.pollChannelRequest observer out)
  accept : Alike profile t1 t2 (.acceptChannel observer id)
  reject : Alike profile t1 t2 (.rejectChannel observer id)
  outcome : Alike profile t1 t2 (.pollChannelOutcome observer id)

variable {profile : BuildProfile} {t1 t2 : ChannelHandleTable K} {id : Nat}
  {requester target observer : BoundaryId}

/-- A third boundary cannot tell apart two tables that differ in the fate of a request, exactly if
they do not: the outcome call gives it away. -/
theorem indistinguishable_iff (profile : BuildProfile) (h : DifferOnly id requester target t1 t2)
    (notRequester : observer ≠ requester) (notTarget : observer ≠ target) :
    Indistinguishable profile observer id t1 t2 ↔ fate id t1 = fate id t2 := by
  have houtcome : ∀ t : ChannelHandleTable K, Concerns id requester target t →
      (step profile (.pollChannelOutcome observer id) t).map Prod.fst =
        some (.number (.error (fate id t).code)) := by
    intro t hconcerns
    rw [← outcome_of_stranger hconcerns notRequester]
    rfl
  constructor
  · intro hsame
    have halike := hsame.outcome
    rw [Alike, houtcome t1 h.first, houtcome t2 h.second] at halike
    simp only [Option.some.injEq, Reply.number.injEq, Except.error.injEq] at halike
    exact Fate.code_injective halike
  · intro hfate
    refine ⟨fun out => ?_, ?_, ?_, ?_⟩
    · have hentries : (t1.registry.pending.erase id).entries = (t2.registry.pending.erase id).entries := by
        refine SortedMap.entries_eq_of_get? fun id' => ?_
        rw [SortedMap.get?_erase, SortedMap.get?_erase]
        split
        · rfl
        · rename_i hother
          exact h.others id' hother
      have hpoll : t1.registry.poll observer = t2.registry.poll observer := by
        rw [ChannelRegistry.poll, ChannelRegistry.poll, poll_eq_erase h.first notTarget,
          poll_eq_erase h.second notTarget, hentries]
      change some (Reply.polled (t1.pollChannelRequest observer out)) =
        some (.polled (t2.pollChannelRequest observer out))
      rw [pollChannelRequest, pollChannelRequest, hpoll]
    · have haccept : ∀ t : ChannelHandleTable K, Concerns id requester target t →
          step profile (.acceptChannel observer id) t = some (.number (.error .notPermitted), t) := by
        intro t hconcerns
        rw [step, acceptChannel, ChannelRegistry.accept,
          ChannelRegistry.remove_of_not_aimed (hconcerns.not_aimed notTarget)]
        rfl
      rw [Alike, haccept t1 h.first, haccept t2 h.second]
      rfl
    · have hreject : ∀ t : ChannelHandleTable K, Concerns id requester target t →
          step profile (.rejectChannel observer id) t = some (.done (.error .notFound), t) := by
        intro t hconcerns
        rw [step, rejectChannel, ChannelRegistry.reject,
          ChannelRegistry.remove_of_not_aimed (hconcerns.not_aimed notTarget)]
        rfl
      rw [Alike, hreject t1 h.first, hreject t2 h.second]
      rfl
    · rw [Alike, houtcome t1 h.first, houtcome t2 h.second, hfate]

/-- Boundary 3 cannot tell whether the request of 1 was rejected by 2 or its outcome collected by 1. -/
theorem indistinguishable_iff_rejected_collected : ∃ (t1 t2 : ChannelHandleTable Unit),
    Run (step .release) (.new ()) [(.requestChannel 1 2 ⟨⟨[], by decide⟩, .bidirectional, 8, 4⟩, .number (.ok 1)),
      (.rejectChannel 2 1, .done (.ok ()))] t1 ∧
    Run (step .release) (.new ()) [(.requestChannel 1 2 ⟨⟨[], by decide⟩, .bidirectional, 8, 4⟩, .number (.ok 1)),
      (.acceptChannel 2 1, .number (.ok 0)), (.pollChannelOutcome 1 1, .number (.ok 1))] t2 ∧
    fate 1 t1 = .gone ∧ (Indistinguishable .release 3 1 t1 t2 ↔ fate 1 t1 = fate 1 t2) := by
  exact ⟨_, _, .eval rfl, .eval rfl, rfl, indistinguishable_iff .release
    (differOnly ⟨1, 2, ⟨⟨[], by decide⟩, .bidirectional, 8, 4⟩⟩ ⟨.inr rfl, .inl rfl⟩ ⟨.inr rfl, .inl rfl⟩)
    (by decide) (by decide)⟩

/-- Boundary 3 asks for the outcome of the request of 1 to 2, and the answer says whether 2 has decided
and whether it has accepted. -/
theorem outcome_gives_fate_away : ∃ (t1 t2 t3 : ChannelHandleTable Unit),
    Run (step .release) (.new ()) [(.requestChannel 1 2 ⟨⟨[], by decide⟩, .bidirectional, 8, 4⟩, .number (.ok 1))] t1 ∧
    Run (step .release) (.new ()) [(.requestChannel 1 2 ⟨⟨[], by decide⟩, .bidirectional, 8, 4⟩, .number (.ok 1)),
      (.acceptChannel 2 1, .number (.ok 0))] t2 ∧
    Run (step .release) (.new ()) [(.requestChannel 1 2 ⟨⟨[], by decide⟩, .bidirectional, 8, 4⟩, .number (.ok 1)),
      (.rejectChannel 2 1, .done (.ok ()))] t3 ∧
    DifferOnly 1 1 2 t1 t2 ∧ DifferOnly 1 1 2 t1 t3 ∧
    (t1.pollChannelOutcome 3 1).1 = .error .wouldBlock ∧ (t2.pollChannelOutcome 3 1).1 = .error .notPermitted ∧
    (t3.pollChannelOutcome 3 1).1 = .error .notFound := by
  refine ⟨_, _, _, .eval rfl, .eval rfl, .eval rfl, ?_, ?_, rfl, rfl, rfl⟩
  · exact differOnly ⟨1, 2, ⟨⟨[], by decide⟩, .bidirectional, 8, 4⟩⟩ ⟨.inl rfl, .inl rfl⟩
      ⟨.inr rfl, .inr ⟨1, rfl⟩⟩
  · exact differOnly ⟨1, 2, ⟨⟨[], by decide⟩, .bidirectional, 8, 4⟩⟩ ⟨.inl rfl, .inl rfl⟩ ⟨.inr rfl, .inl rfl⟩

end

end CibosPlatform.KernelImage.Outcomes
