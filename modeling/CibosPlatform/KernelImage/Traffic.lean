/- source: kernel-image/src/boot.rs
   digest: Who sent and who received which message on a channel of the table. -/

import CibosPlatform.KernelImage.Holders

namespace CibosPlatform.KernelImage.Traffic

open Core Events MachineWord Kernel.Channel List Option Function
open Kernel.Channel.Queue (ChannelInner Wired)
open Kernel.Channel.Sharing
open Kernel.Gate.Registry (GateId PendingConnect)
open Holders Table Shared.Ipc Function

abbrev Entry := BoundaryId × (Queue.Op × Queue.Reply)

structure Traced (K : Type) where
  table : ChannelHandleTable K
  history : ChannelRef → List Entry

variable (entries : List Entry)

def sendsOf : List (BoundaryId × Message) := entries.filterMap fun
  | (b, .send _ msg, .send .sent) => some (b, msg)
  | _ => none

def recvsOf : List (BoundaryId × Message) := entries.filterMap fun
  | (b, _, .recv (.message msg)) => some (b, msg)
  | _ => none

variable (first second : List Entry)

theorem sendsOf_append :
    sendsOf (first ++ second) = sendsOf first ++ sendsOf second := filterMap_append

theorem recvsOf_append :
    recvsOf (first ++ second) = recvsOf first ++ recvsOf second := filterMap_append

theorem mem_of_mem_sendsOf {entries : List Entry} {b : BoundaryId} {msg : Message}
    (h : (b, msg) ∈ sendsOf entries) : ∃ e ∈ entries, e.1 = b := by
  obtain ⟨e, he, hsome⟩ := mem_filterMap.mp h
  refine ⟨e, he, ?_⟩
  split at hsome
  · cases hsome
    rfl
  · cases hsome

theorem map_sendsOf : (sendsOf entries).map Prod.snd = Queue.accepted (entries.map Prod.snd) := by
  rw [sendsOf, Queue.accepted, map_filterMap, filterMap_map]
  refine filterMap_congr fun e _ => ?_
  obtain ⟨b, op, reply⟩ := e
  rcases op with ⟨lane, msg⟩ | _ | _ <;> rcases reply with (_ | _ | _ | _) | _ | _ <;> rfl

theorem map_recvsOf : (recvsOf entries).map Prod.snd = Queue.received (entries.map Prod.snd) := by
  rw [recvsOf, Queue.received, Queue.recvSteps, map_filterMap, filterMap_map, filterMap_filterMap]
  refine filterMap_congr fun e _ => ?_
  obtain ⟨b, op, reply⟩ := e
  rcases reply with _ | (_ | _ | _) | _ <;> rfl

variable {events : List (Call × Reply)}

section

variable {K : Type}

private theorem adding_inner {t : ChannelHandleTable K} {c : ChannelInner} (made : ∃ cid terms, c = .new cid terms) :
    (∀ ch, ch < t.channels.fresh → (t.adding c).channels.inner ch = t.channels.inner ch) ∧
      ∀ ch, t.channels.fresh ≤ ch → ch < t.channels.fresh + 1 →
        ∃ cid terms, (t.adding c).channels.inner ch = .new cid terms := by
  refine ⟨fun ch hlt => update_of_ne (ne_of_lt hlt) .., fun ch hle hlt => ?_⟩
  obtain rfl := le_antisymm hle (Nat.le_of_lt_succ hlt)
  obtain ⟨cid, terms, rfl⟩ := made
  exact ⟨cid, terms, update_self ..⟩

variable [KernelInterface K]

def operates (call : Call) (t : ChannelHandleTable K) : Option (ChannelRef × BoundaryId × Queue.Op) :=
  call.operation.bind fun asked => (t.handles asked.1).map fun ch => (ch, asked.1.1, asked.2)

namespace Traced

def new (kernel : K) : Traced K := ⟨.new kernel, fun _ => []⟩

def note (call : Call) (s : Traced K) : ChannelRef → List Entry :=
  match operates call s.table with
  | none => s.history
  | some (ch, b, op) =>
    update s.history ch (s.history ch ++ [(b, op, (s.table.channels.perform ch op).1)])

end Traced

def tracedStep (profile : BuildProfile) (call : Call) (s : Traced K) : Option (Reply × Traced K) :=
  (step profile call s.table).map fun r => (r.1, ⟨r.2, s.note call⟩)

variable {profile : BuildProfile} {s s' : Traced K} {call : Call} {reply : Reply}

theorem tracedStep_eq_some : tracedStep profile call s = some (reply, s') ↔
    step profile call s.table = some (reply, s'.table) ∧ s'.history = s.note call := by
  rw [tracedStep, map_eq_some_iff]
  constructor
  · rintro ⟨r, hr, hout⟩
    cases hout
    exact ⟨hr, rfl⟩
  · rintro ⟨hr, hhistory⟩
    refine ⟨_, hr, ?_⟩
    rw [← hhistory]

theorem exists_traced {t t' : ChannelHandleTable K}
    (h : Run (step profile) t events t') (history : ChannelRef → List Entry) :
    ∃ s', Run (tracedStep profile) ⟨t, history⟩ events s' ∧ s'.table = t' := by
  induction h with
  | start => exact ⟨_, .start, rfl⟩
  | next _ taken ih =>
    obtain ⟨s, hrun, rfl⟩ := ih
    exact ⟨⟨_, s.note _⟩, hrun.next (tracedStep_eq_some.mpr ⟨taken, rfl⟩), rfl⟩

theorem table_of_run (h : Run (tracedStep profile) s events s') :
    Run (step profile) s.table events s'.table := by
  induction h with
  | start => exact .start
  | next _ taken ih => exact ih.next (tracedStep_eq_some.mp taken).1

inductive Moved (profile : BuildProfile) (s : Traced K) : Call → Reply → Traced K → Prop
  | operated {call : Call} {ch : ChannelRef} {b : BoundaryId} {op : Queue.Op} {w : Wired K}
      {answered : Queue.Reply} (asks : operates call s.table = some (ch, b, op)) (holds : Holds s.table b ch)
      (taken : Queue.step op ⟨s.table.channels.inner ch, s.table.channels.kernel⟩ = some (answered, w)) :
      Moved profile s call (answer answered)
        ⟨{ s.table with channels :=
            ⟨update s.table.channels.inner ch w.channel, s.table.channels.fresh, w.kernel⟩ },
          update s.history ch (s.history ch ++ [(b, op, answered)])⟩
  | other {call : Call} {reply : Reply} {t : ChannelHandleTable K} (asks : operates call s.table = none)
      (taken : Stepped profile s.table call reply t) (same : ∀ ch, ch < s.table.channels.fresh →
        t.channels.inner ch = s.table.channels.inner ch)
      (made : ∀ ch, s.table.channels.fresh ≤ ch → ch < t.channels.fresh →
        ∃ cid terms, t.channels.inner ch = .new cid terms) :
      Moved profile s call reply ⟨t, s.history⟩

theorem moved_of_tracedStep (h : tracedStep profile call s = some (reply, s')) : Moved profile s call reply s' := by
  obtain ⟨t', history'⟩ := s'
  obtain ⟨hstep, hhistory⟩ := tracedStep_eq_some.mp h
  have hstepped := stepped_of_step hstep
  -- a call that is not an operation leaves the record alone
  have hother : operates call s.table = none → (∀ ch, ch < s.table.channels.fresh →
      t'.channels.inner ch = s.table.channels.inner ch) → (∀ ch, s.table.channels.fresh ≤ ch →
      ch < t'.channels.fresh → ∃ cid terms, t'.channels.inner ch = .new cid terms) →
      Moved profile s call reply ⟨t', history'⟩ := by
    intro hasks hsame hmade
    have hnote : history' = s.history := by
      rw [show history' = s.note call from hhistory, Traced.note, hasks]
    rw [hnote]
    exact .other hasks hstepped hsame hmade
  have hquiet : operates call s.table = none → t'.channels = s.table.channels →
      Moved profile s call reply ⟨t', history'⟩ := by
    intro hasks hchannels
    rw [hchannels] at hother
    exact hother hasks (fun _ _ => rfl) (fun ch hle hlt => absurd hle (not_le.mpr hlt))
  cases hstepped with
  | opened made => exact hother rfl (adding_inner made).1 (adding_inner made).2
  | requested | rejected | collected | bound | linked => exact hquiet rfl rfl
  | accepted aimed made | connected there made => exact hother rfl (adding_inner made).1 (adding_inner made).2
  | @operated call key op ch asks resolved =>
    have hasks : operates call s.table = some (ch, key.1, op) := by
      rw [operates, asks, bind_some, resolved]
      rfl
    have hnote : history' = update s.history ch
        (s.history ch ++ [(key.1, op, (s.table.channels.perform ch op).1)]) := by
      rw [show history' = s.note call from hhistory, Traced.note, hasks]
    obtain ⟨w, htaken, hafter⟩ := s.table.channels.perform_spec ch op
    rw [hnote, hafter]
    exact .operated hasks ⟨key.2, resolved⟩ htaken
  | @idle call reply denied nextChannelId quiet nothing =>
    refine hquiet ?_ rfl
    rw [operates]
    rcases hop : call.operation with _ | ⟨key, op⟩
    · rfl
    · rw [bind_some, nothing key op hop]
      rfl

end

section

variable {K : Type} {s s' : Traced K}

/-- The record of a channel is a run of the channel alone, and a link that waits was used by the boundary
only that connected it. -/
structure Recorded (s : Traced K) : Prop where
  sound : Sound s.table
  run : ∀ ch, ch < s.table.channels.fresh → ∃ cid terms,
    Run Queue.step (⟨.new cid terms, ()⟩ : Wired Unit) ((s.history ch).map Prod.snd)
      ⟨s.table.channels.inner ch, ()⟩
  unused : ∀ ch, s.table.channels.fresh ≤ ch → s.history ch = []
  connector : ∀ gate p, WaitsAt s.table gate p → ∀ e ∈ s.history p.listenerLink, e.1 = p.requester

theorem Recorded.fifo (h : Recorded s) {ch : ChannelRef} (exist : ch < s.table.channels.fresh) :
    (sendsOf (s.history ch)).map Prod.snd =
      (recvsOf (s.history ch)).map Prod.snd ++ (s.table.channels.inner ch).state.messages := by
  obtain ⟨cid, terms, hrun⟩ := h.run ch exist
  rw [map_sendsOf, map_recvsOf]
  exact (Queue.queued_of_run hrun).order

variable [KernelInterface K] {profile : BuildProfile} {call : Call} {reply : Reply}

theorem waitsAt_of_stepped {t t' : ChannelHandleTable K} (stepped : Stepped profile t call reply t')
    {gate : GateId} {p : PendingConnect} (h : WaitsAt t' gate p) :
    (∃ gate', WaitsAt t gate' p) ∨ p.listenerLink = t.channels.fresh := by
  cases stepped with
  | @bound owner gate1 free =>
    rw [waitsAt_withBound] at h
    split at h
    · cases h
    · exact .inl ⟨gate, h⟩
  | @connected owner requester gate1 queue c nextChannelId next there made count =>
    have h : WaitsAt (t.withBound gate1 ⟨owner, queue ++ [⟨requester, t.channels.fresh⟩]⟩) gate p := h
    rw [waitsAt_withBound] at h
    split at h
    · rcases mem_append.mp h with h | h
      · exact .inl ⟨gate1, (waitsAt_of_bound there p).mpr h⟩
      · rw [mem_singleton.mp h]
        exact .inr rfl
    · exact .inl ⟨gate, h⟩
  | @linked owner gate1 first queue next there count =>
    have h : WaitsAt (t.withBound gate1 ⟨owner, queue⟩) gate p := h
    rw [waitsAt_withBound] at h
    split at h
    · exact .inl ⟨gate1, (waitsAt_of_bound there p).mpr (mem_cons_of_mem first h)⟩
    · exact .inl ⟨gate, h⟩
  | _ => exact .inl ⟨gate, h⟩

theorem Recorded.step (h : Recorded s) (taken : tracedStep profile call s = some (reply, s')) : Recorded s' := by
  have hsound : Sound s'.table := h.sound.step (stepped_of_step (tracedStep_eq_some.mp taken).1)
  cases moved_of_tracedStep taken with
  | @operated ch b op w answered asks holds answers =>
    have hexist := h.sound.held b ch holds
    refine ⟨hsound, fun ch' hlt => ?_, fun ch' hle => ?_, fun gate p hp e he => ?_⟩
    · by_cases hsame : ch' = ch
      · subst hsame
        obtain ⟨cid, terms, hrun⟩ := h.run ch' hlt
        refine ⟨cid, terms, ?_⟩
        simp only [update_self, map_append]
        exact hrun.next (step_forget answers)
      · simp only [update_of_ne hsame]
        exact h.run ch' hlt
    · have hother : ch' ≠ ch := ne_of_gt (lt_of_lt_of_le hexist hle)
      simp only [update_of_ne hother]
      exact h.unused ch' hle
    · by_cases hsame : p.listenerLink = ch
      · simp only [hsame, update_self] at he
        rcases mem_append.mp he with he | he
        · rw [← hsame] at he
          exact h.connector gate p hp e he
        · rw [mem_singleton.mp he]
          rw [← hsame] at holds
          exact h.sound.connector gate p hp b holds
      · simp only [update_of_ne hsame] at he
        exact h.connector gate p hp e he
  | @other reply t asks stepped same made =>
    refine ⟨hsound, fun ch hlt => ?_, fun ch hle => ?_, fun gate p hp e he => ?_⟩
    · by_cases hold : ch < s.table.channels.fresh
      · obtain ⟨cid, terms, hrun⟩ := h.run ch hold
        rw [← same ch hold] at hrun
        exact ⟨cid, terms, hrun⟩
      · have hle := not_lt.mp hold
        obtain ⟨cid, terms, hnew⟩ := made ch hle hlt
        refine ⟨cid, terms, ?_⟩
        simp only [h.unused ch hle, hnew]
        exact .start
    · exact h.unused ch ((fresh_le_of_stepped stepped).trans hle)
    · rcases waitsAt_of_stepped stepped hp with ⟨gate', hbefore⟩ | hfresh
      · exact h.connector gate' p hbefore e he
      · rw [hfresh, h.unused _ (le_rfl)] at he
        cases he

theorem recorded_of_run {kernel : K}
    (h : Run (tracedStep profile) (.new kernel) events s) : Recorded s := by
  induction h with
  | start =>
    refine ⟨sound_new kernel, fun ch hlt => absurd hlt (Nat.not_lt_zero ch), fun _ _ => rfl, ?_⟩
    intro gate p hp e he
    cases he
  | next _ taken ih => exact ih.step taken

end

end CibosPlatform.KernelImage.Traffic
